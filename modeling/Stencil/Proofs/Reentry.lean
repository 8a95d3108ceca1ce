import Stencil.Proofs.Eviction

set_option autoImplicit false

namespace Stencil

-- The creation of a missing value. It looks at each answer before it goes on, and a value that it obtains in its turn
-- may be created in the same way.
inductive Creation (α : Type) where
  | returns (value : α)
  | asks (op : Op α) (next : Answer α → Creation α)
  | obtains (id : String) (create : Creation α) (next : Answer α → Creation α)

variable {ρ γ α : Type}

def Created.behind (first : Performed ρ α) (created : Created ρ α) : Created ρ α :=
  ⟨created.value, first.answered :: created.during.answers, created.during.store, first.events ++ created.during.events⟩

namespace Creation

def run (registry : Registry ρ α) : Creation α → ρ → Created ρ α
  | .returns value, store => .alone value store
  | .asks op next, store =>
      let first := registry.perform op store
      ((next first.answer).run registry first.store).behind first
  | .obtains id create next, store =>
      let first := (registry.obtainWith id (create.run registry) store).performed
      ((next first.answer).run registry first.store).behind first

def nest (registry : Registry ρ α) : Creation α → ρ → List (Op α)
  | .returns _, _ => []
  | .asks op next, store =>
      let first := registry.perform op store
      op :: (next first.answer).nest registry first.store
  | .obtains id create next, store =>
      let first := (registry.obtainWith id (create.run registry) store).performed
      .getOrInsert id (create.run registry store).value (create.nest registry store) ::
        (next first.answer).nest registry first.store

end Creation

namespace Registry

theorem performAll_behind (registry : Registry ρ α) (op : Op α) (later : List (Op α)) (store : ρ)
    (first : Performed ρ α) (created : Created ρ α) (now : first = registry.perform op store)
    (ran : created.during = registry.performAll later first.store) :
    (created.behind first).during = registry.performAll (op :: later) store := by
  rw [performAll, Created.behind, ran, now]

theorem last_dropped (new : String) (ids : List String) (distinct : ids.Nodup) (absent : new ∉ ids) (other : String) :
    ids.getLast? = some other ↔ other ∈ ids ∧ other ∉ new :: ids.dropLast := by
  rcases List.eq_nil_or_concat ids with rfl | ⟨before, last, rfl⟩
  · simp
  rw [List.concat_eq_append] at distinct absent ⊢
  have lastOnly : last ∉ before := fun member =>
    (List.nodup_append.mp distinct).2.2 last member last (List.mem_singleton_self last) rfl
  rw [List.getLast?_concat, List.dropLast_concat]
  constructor
  · intro same
    rw [← Option.some.inj same]
    have member := List.mem_append_right before (List.mem_singleton_self last)
    refine ⟨member, ?_⟩
    intro kept
    rcases List.mem_cons.mp kept with rfl | among
    · exact absent member
    · exact lastOnly among
  · rintro ⟨member, gone⟩
    rcases List.mem_append.mp member with kept | same
    · exact absurd (List.mem_cons_of_mem new kept) gone
    · rw [List.mem_singleton.mp same]

structure Leads (lru : Lru γ α) (history : List (Change α)) (id : String) (value : α) (cache : γ) : Prop where
  found : (lru.get id cache).1 = some value
  first : (ids lru cache).head? = some id
  latest : ∀ other ∈ ids lru cache, other ≠ id → LastUsedBefore history other id

inductive Ending (lru : Lru γ α) (id : String) (value : α) (cache : γ) (creation : PerformedAll γ α) :
    Obtained γ α → Option String → Prop where
  | present (found : α) (held : (id, found) ∈ lru.entries cache) :
      Ending lru id value cache creation ⟨found, false, [], (lru.get id cache).2, []⟩ none
  | beaten (winner : α) (absent : id ∉ ids lru cache) (left : (id, winner) ∈ lru.entries creation.store) :
      Ending lru id value cache creation
        ⟨winner, true, creation.answers, (lru.get id creation.store).2, creation.events⟩ none
  | stored (displaced : Option String) (absent : id ∉ ids lru cache) (missing : id ∉ ids lru creation.store)
      (lost : ∀ other, displaced = some other ↔
        other ∈ ids lru creation.store ∧ other ∉ ids lru (lru.push id value creation.store).2) :
      Ending lru id value cache creation
        ⟨value, true, creation.answers, (lru.push id value creation.store).2,
          creation.events ++ displaced.toList.map .entryEvicted⟩ displaced

theorem leader_latest {lru : Lru γ α} {capacity : Nat} {history : List (Change α)} {cache : γ} (id : String)
    (ordered : Ordered lru capacity history cache) (first : (ids lru cache).head? = some id) :
    ∀ other ∈ ids lru cache, other ≠ id → LastUsedBefore history other id := by
  intro other member different
  obtain ⟨rest, split⟩ := List.head?_eq_some_iff.mp first
  rw [split] at member
  have behind := (List.mem_cons.mp member).resolve_left different
  refine recency_pair history id other (List.Sublist.trans ?_ ordered.ordered)
  rw [split]
  exact (List.singleton_sublist.mpr behind).cons_cons id

section Lawful

variable {lru : Lru γ α} {capacity : Nat} {history : List (Change α)} {cache : γ}
variable (lawful : lru.Lawful)
include lawful

theorem obtainWith_perform (id : String) (create : γ → Created γ α) (during : List (Op α)) (cache : γ)
    (ran : (create cache).during = (bounded lru).performAll during cache) :
    ((bounded lru).obtainWith id create cache).performed =
      (bounded lru).perform (.getOrInsert id (create cache).value during) cache := by
  rw [perform]
  simp only [bounded]
  by_cases held : id ∈ ids lru cache
  · obtain ⟨found, _, same, _⟩ := get_present lawful id cache held
    rw [same]
  · rw [get_absent lawful id cache held]
    exact congrArg (fun during => (settle lru id ⟨(create cache).value, during⟩).performed) ran

-- A creation comes to the same as asking, one after the other, what it turns out to ask.
theorem run_nest (create : Creation α) (cache : γ) :
    (create.run (bounded lru) cache).during =
      (bounded lru).performAll (create.nest (bounded lru) cache) cache := by
  induction create generalizing cache with
  | returns value => rw [Creation.run, Creation.nest, performAll, Created.alone]
  | asks op next ih =>
      rw [Creation.run, Creation.nest]
      exact performAll_behind _ op _ cache _ _ rfl (ih _ _)
  | obtains id create next inner ih =>
      rw [Creation.run, Creation.nest]
      have now := obtainWith_perform lawful id _ (create.nest (bounded lru) cache) cache (inner cache)
      exact performAll_behind _ _ _ cache _ _ now (ih _ _)

theorem front_found (id : String) (value : α) (front : (lru.entries cache).head? = some (id, value)) :
    (lru.get id cache).1 = some value ∧ (ids lru cache).head? = some id := by
  obtain ⟨rest, split⟩ := List.head?_eq_some_iff.mp front
  refine ⟨(lawful.get_found id value cache ?_).1, by rw [ids, split, Entries.ids_cons, List.head?_cons]⟩
  rw [split, Entries.value?_cons, if_pos rfl]

theorem front_touched (id : String) (present : id ∈ ids lru cache) :
    ∃ value, (id, value) ∈ lru.entries cache ∧ lru.get id cache = (some value, (lru.get id cache).2) ∧
      (lru.entries (lru.get id cache).2).head? = some (id, value) := by
  obtain ⟨value, found, same, order⟩ := get_present lawful id cache present
  exact ⟨value, Entries.value?_mem id value _ found, same, by rw [order, List.head?_cons]⟩

theorem push_displaces (id : String) (value : α) (ordered : Ordered lru capacity history cache)
    (absent : id ∉ ids lru cache) :
    (lru.entries (lru.push id value cache).2).head? = some (id, value) ∧
      ((lru.push id value cache).1.map Prod.fst).filter (· != id) = (lru.push id value cache).1.map Prod.fst ∧
      ∀ other, (lru.push id value cache).1.map Prod.fst = some other ↔
        other ∈ ids lru cache ∧ other ∉ ids lru (lru.push id value cache).2 := by
  have missing := (Entries.value?_none id _).mpr absent
  have room := ordered.room
  rw [ids_length] at room
  rcases Nat.lt_or_eq_of_le room with roomy | full
  · obtain ⟨nothing, order⟩ := lawful.push_roomy id value cache missing (ordered.bounded ▸ roomy)
    refine ⟨by rw [order, List.head?_cons], by rw [nothing, Option.map_none, Option.filter_none], ?_⟩
    intro other
    rw [nothing, Option.map_none, ids, ids, order, Entries.ids_cons]
    refine iff_of_false (Option.some_ne_none other).symm ?_
    rintro ⟨held, gone⟩
    exact gone (List.mem_cons_of_mem id held)
  · obtain ⟨dropped, order⟩ := lawful.push_full id value cache missing (full.trans ordered.bounded.symm)
    have back : (lru.push id value cache).1.map Prod.fst = (ids lru cache).getLast? := by
      rw [dropped, ids, Entries.ids, List.getLast?_map]
    have left : ids lru (lru.push id value cache).2 = id :: (ids lru cache).dropLast := by
      rw [ids, order, Entries.ids_cons, ids, Entries.ids, Entries.ids, List.map_dropLast]
    refine ⟨by rw [order, List.head?_cons], ?_, ?_⟩
    · rw [back]
      cases last : (ids lru cache).getLast? with
      | none => rfl
      | some oldest =>
          have held := List.mem_of_getLast? last
          exact Option.filter_some_pos (bne_iff_ne.mpr fun same => absent (same ▸ held))
    · intro other
      rw [back, left]
      exact last_dropped id _ (ordered.ordered.nodup (recency_nodup history)) absent other

theorem call_ends (id : String) (create : γ → Created γ α)
    (ordered : Ordered lru capacity history (create cache).during.store) :
    let created := create cache
    let call := (bounded lru).obtainWith id create cache
    ∃ displaced, Ending lru id created.value cache created.during call displaced ∧
      (lru.entries call.store).head? = some (id, call.value) := by
  intro created call
  by_cases held : id ∈ ids lru cache
  case pos =>
    obtain ⟨found, member, same, front⟩ := front_touched lawful id held
    simp only [call, bounded]
    rw [same]
    exact ⟨none, .present found member, front⟩
  case neg =>
    have settled : call = settle lru id created := by simp only [call, bounded, get_absent lawful id cache held, created]
    rw [settled, settle]
    by_cases left : id ∈ ids lru created.during.store
    case pos =>
      obtain ⟨winner, member, same, front⟩ := front_touched lawful id left
      rw [same]
      exact ⟨none, .beaten winner held member, front⟩
    case neg =>
      rw [get_absent lawful id _ left]
      obtain ⟨front, named, lost⟩ := push_displaces lawful id created.value ordered left
      rw [← named] at lost
      exact ⟨_, .stored _ held left lost, front⟩

theorem displaced_oldest (id : String) (value : α) (creation : PerformedAll γ α) (call : Obtained γ α) (oldest : String)
    (positive : 0 < capacity) (ordered : Ordered lru capacity history creation.store)
    (ending : Ending lru id value cache creation call (some oldest)) :
    oldest ≠ id ∧ ∀ other ∈ ids lru creation.store, other ≠ oldest → LastUsedBefore history oldest other := by
  cases ending with
  | stored _ absent missing lost =>
      obtain ⟨held, gone⟩ := (lost oldest).mp rfl
      have genuine : Genuine lru [.stored true id value] creation.store := genuine_other _ _ nofun
      rcases undergo_loss lawful positive ordered genuine oldest held gone with
        same | same | ⟨_, _, _, _, _, _, last⟩
      · cases same
      · cases same
      · exact ⟨fun same => missing (same ▸ held), last⟩

theorem accounts_ordered (positive : 0 < capacity) (made : List (Change α)) (final : γ)
    (started : Accounts lru history (lru.new capacity) cache) (accounts : Accounts lru made cache final) :
    Ordered lru capacity (history ++ made) final := by
  obtain ⟨same, genuine⟩ := accounts_append started accounts
  rw [← same]
  exact after_ordered lawful positive _ genuine

end Lawful

-- What the call itself announces comes after all that its creation announces.
theorem reentrant_creation_settles (lru : Lru γ α) (lawful : lru.Lawful) (capacity : Nat) (positive : 0 < capacity)
    (ops : List (Op α)) (id : String) (create : Creation α) :
    let registry := bounded lru
    let history := changesAll lru ops (lru.new capacity)
    let cache := (registry.performAll ops (lru.new capacity)).store
    let created := create.run registry cache
    let asked := create.nest registry cache
    let op := Op.getOrInsert id created.value asked
    let call := registry.obtainWith id (create.run registry) cache
    call.performed = registry.perform op cache ∧ created.during = registry.performAll asked cache ∧
      ∃ displaced, Ending lru id created.value cache created.during call displaced ∧
        Leads lru (history ++ changes lru op cache) id call.value call.store ∧
        call.store = undergoAll lru cache (changes lru op cache) ∧
        (∀ begun rest, changes lru op cache = begun ++ rest →
          registry.length (undergoAll lru cache begun) ≤ capacity) ∧
        ∀ oldest, displaced = some oldest → oldest ≠ id ∧
          ∀ other ∈ ids lru created.during.store, other ≠ oldest →
            LastUsedBefore (history ++ changesAll lru asked cache) oldest other := by
  intro registry history cache created asked op call
  have ran : created.during = registry.performAll asked cache := run_nest lawful create cache
  have same : call.performed = registry.perform op cache := obtainWith_perform lawful id _ asked cache ran
  have started : Accounts lru history (lru.new capacity) cache := performAll_accounts lawful ops (lru.new capacity)
  have ends : (registry.perform op cache).store = call.store := congrArg Performed.store same.symm
  have whole : Accounts lru (changes lru op cache) cache call.store := ends ▸ perform_accounts lawful op cache
  have between : Ordered lru capacity (history ++ changesAll lru asked cache) created.during.store :=
    accounts_ordered lawful positive _ _ started (ran ▸ performAll_accounts lawful asked cache)
  have final := accounts_ordered lawful positive _ _ started whole
  obtain ⟨displaced, ending, front⟩ := call_ends lawful id (create.run registry) between
  obtain ⟨found, first⟩ := front_found lawful id _ front
  refine ⟨same, ran, displaced, ending, ⟨found, first, leader_latest id final first⟩, whole.1.symm, ?room, ?oldest⟩
  case room =>
    intro begun rest split
    have genuine := whole.2
    rw [split] at genuine
    have begins : Accounts lru begun cache (undergoAll lru cache begun) :=
      ⟨rfl, ((genuine_append cache begun rest).mp genuine).1⟩
    refine Nat.le_trans (Nat.le_of_eq (length_ids lawful _)) ?_
    exact (accounts_ordered lawful positive begun _ started begins).room
  case oldest =>
    intro oldest named
    rw [named] at ending
    exact displaced_oldest lawful id created.value _ _ oldest positive between ending

def guests : Recent Nat := ⟨2, [("a", 1), ("b", 2)]⟩

def restless : Creation Nat :=
  .obtains "d" (.asks (.insert "c" 9) fun _ => .asks (.remove "c") fun _ => .returns 4) fun _ =>
    .asks (.get "a") fun answer =>
      match answer with
      | .found (some value) => .returns (value + 2)
      | _ => .returns 0

theorem restless_creation_displaces :
    let call := (bounded Recent.lru).obtainWith "c" (restless.run (bounded Recent.lru)) guests
    0 < 2 ∧ call.value = 3 ∧ call.events = [.entryEvicted "d"] ∧
      LastUsedBefore ([.stored false "a" 1, .stored false "b" 2, .touched "a"] ++
        [.stored false "c" 9, .removed "c", .stored true "d" 4, .touched "a"]) "d" "a" ∧
      Leads Recent.lru ([.stored false "a" 1, .stored false "b" 2, .touched "a"] ++
        [.stored false "c" 9, .removed "c", .stored true "d" 4, .touched "a", .stored true "c" 3]) "c" 3
        ⟨2, [("c", 3), ("a", 1)]⟩ := by
  obtain ⟨_, _, displaced, ending, leads, _, _, oldest⟩ :=
    reentrant_creation_settles Recent.lru Recent.lru_lawful 2 (by decide) [.insert "a" 1, .insert "b" 2, .get "a"] "c"
      restless
  have cache : ((bounded Recent.lru).performAll [.insert "a" 1, .insert "b" 2, .get "a"] (Recent.lru.new 2)).store =
      guests := by rfl
  rw [cache] at ending leads oldest
  have left : (restless.run (bounded Recent.lru) guests).during.store = ⟨2, [("a", 1), ("d", 4)]⟩ := by rfl
  have named : displaced = some "d" := by
    generalize (bounded Recent.lru).obtainWith "c" (restless.run (bounded Recent.lru)) guests = call at ending
    cases ending with
    | present found held => exact absurd ((Entries.mem_ids "c" _).mpr ⟨found, held⟩) (by decide +kernel)
    | beaten winner _ kept =>
        rw [left] at kept
        exact absurd ((Entries.mem_ids "c" _).mpr ⟨winner, kept⟩) (by decide +kernel)
    | stored _ absent missing lost =>
        rw [left] at lost
        exact (lost "d").mpr (by decide +kernel)
  rw [left] at oldest
  exact ⟨by decide, by rfl, by rfl, (oldest "d" named).2 "a" (by decide +kernel) (by decide), leads⟩

end Registry

end Stencil
