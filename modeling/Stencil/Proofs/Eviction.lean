import Stencil.Proofs.Recency

set_option autoImplicit false

namespace Stencil.Registry

variable {γ α : Type}

theorem take_filter_take (id : String) (count : Nat) (ids : List String) (distinct : ids.Nodup) :
    ((ids.take (count + 1)).filter (· != id)).take count = (ids.filter (· != id)).take count := by
  induction ids generalizing count with
  | nil => rfl
  | cons first rest ih =>
      obtain ⟨absent, tail⟩ := List.nodup_cons.mp distinct
      rw [List.take_succ_cons]
      by_cases same : first = id
      · -- The id is in no other place, so the rest loses nothing to the filter.
        rw [same] at absent
        have absentToo : id ∉ rest.take count := fun member => absent (List.mem_of_mem_take member)
        have dropped : ¬ (first != id) = true := by simp [same]
        rw [List.filter_cons, List.filter_cons, if_neg dropped, if_neg dropped, filter_absent id _ absentToo,
          filter_absent id rest absent, List.take_take, Nat.min_self]
      · have kept : (first != id) = true := bne_iff_ne.mpr same
        rw [List.filter_cons, List.filter_cons, if_pos kept, if_pos kept]
        cases count with
        | zero => rfl
        | succ count => rw [List.take_succ_cons, List.take_succ_cons, ih count tail]

theorem toFront_take (id : String) (capacity : Nat) (ids : List String) (distinct : ids.Nodup) :
    (toFront id (ids.take capacity)).take capacity = (toFront id ids).take capacity := by
  cases capacity with
  | zero => rfl
  | succ count => exact congrArg (id :: ·) (take_filter_take id count ids distinct)

theorem pair_of_dropped (ids : List String) (id other : String) (member : id ∈ ids) (dropped : id ∉ ids.dropLast)
    (present : other ∈ ids) (different : other ≠ id) : [other, id].Sublist ids := by
  have filled : ids ≠ [] := List.ne_nil_of_mem member
  have split := List.dropLast_append_getLast filled
  rw [← split, List.mem_append] at member present
  have last := List.mem_singleton.mp (member.resolve_left dropped)
  have ahead : other ∈ ids.dropLast := by
    refine present.resolve_right fun same => different ?_
    exact (List.mem_singleton.mp same).trans last.symm
  rw [← split, last]
  exact (List.singleton_sublist.mpr ahead).append (List.Sublist.refl _)

theorem used_loss (capacity : Nat) (new id : String) (ids : List String) (room : ids.length ≤ capacity)
    (held : id ∈ ids) (gone : id ∉ (toFront new ids).take capacity) :
    new ∉ ids ∧ ids.length = capacity ∧ id ∉ ids.dropLast := by
  have fits : ¬ (toFront new ids).length ≤ capacity := by
    intro short
    rw [List.take_of_length_le short] at gone
    exact gone ((mem_toFront new ids id).mpr (Or.inr held))
  have absent : new ∉ ids := fun present => fits (Nat.le_trans (toFront_present_length new ids present) room)
  have full : ids.length = capacity := by
    have grown := toFront_length new ids
    omega
  refine ⟨absent, full, ?_⟩
  intro kept
  rw [toFront_absent new ids absent] at gone
  obtain ⟨less, rfl⟩ : ∃ less, capacity = less + 1 := Nat.exists_eq_succ_of_ne_zero (by
    rw [← full]
    exact Nat.ne_of_gt (List.length_pos_of_mem held))
  rw [List.take_succ_cons] at gone
  rw [List.dropLast_eq_take, full] at kept
  exact gone (List.mem_cons_of_mem _ kept)

def after (lru : Lru γ α) (capacity : Nat) (history : List (Change α)) : γ := undergoAll lru (lru.new capacity) history

structure Ordered (lru : Lru γ α) (capacity : Nat) (history : List (Change α)) (cache : γ) : Prop where
  bounded : lru.capacity cache = capacity
  room : (ids lru cache).length ≤ capacity
  ordered : (ids lru cache).Sublist (recency history)

def Evicts (lru : Lru γ α) (capacity : Nat) (history : List (Change α)) (cache : γ) (change : Change α) (id : String) :
    Prop :=
  ∃ pushed new value, change = .stored pushed new value ∧ new ∉ ids lru cache ∧
    lru.length cache = capacity ∧ ∀ other ∈ ids lru cache, other ≠ id → LastUsedBefore history id other

def Current (lru : Lru γ α) (capacity : Nat) (history : List (Change α)) (id : String) (value : α) : Prop :=
  ∃ pushed earlier later, history = earlier ++ .stored pushed id value :: later ∧
    (∀ way other, .stored way id other ∉ later) ∧
    ∀ middle rest, later = middle ++ rest →
      id ∈ ids lru (after lru capacity (earlier ++ .stored pushed id value :: middle))

variable {lru : Lru γ α} {capacity : Nat} {history : List (Change α)} {cache : γ} {change : Change α}

theorem ids_length (cache : γ) : (ids lru cache).length = (lru.entries cache).length := Entries.ids_length _

@[simp] theorem after_snoc (history : List (Change α)) (change : Change α) :
    after lru capacity (history ++ [change]) = undergo lru (after lru capacity history) change :=
  undergoAll_append _ history [change]

section Lawful

variable (lawful : lru.Lawful)
include lawful

theorem length_ids (cache : γ) : lru.length cache = (ids lru cache).length := by
  rw [lawful.length_entries, ids_length]

theorem undergo_capacity (cache : γ) (change : Change α) :
    lru.capacity (undergo lru cache change) = lru.capacity cache := by
  cases change with
  | stored pushed id value =>
      cases pushed with
      | true => exact lawful.push_capacity id value cache
      | false => exact lawful.put_capacity id value cache
  | touched id => exact lawful.get_capacity id cache
  | removed id => exact lawful.pop_capacity id cache
  | cleared => exact lawful.clear_capacity cache

theorem entries_touched (id : String) (value : α) (cache : γ) (found : (lru.entries cache).value? id = some value) :
    lru.entries (undergo lru cache (.touched id)) = (id, value) :: (lru.entries cache).without id :=
  (lawful.get_found id value cache found).2

theorem entries_stored (pushed : Bool) (id : String) (value : α) (cache : γ) (bounded : lru.capacity cache = capacity)
    (positive : 0 < capacity) (room : (ids lru cache).length ≤ capacity) :
    lru.entries (undergo lru cache (.stored pushed id value)) =
      ((id, value) :: (lru.entries cache).without id).take capacity := by
  have pushes : lru.entries (undergo lru cache (.stored pushed id value)) = lru.entries (lru.push id value cache).2 := by
    cases pushed with
    | true => rfl
    | false => exact lawful.put_entries id value cache
  rw [pushes]
  rw [ids_length] at room
  by_cases present : id ∈ ids lru cache
  · obtain ⟨old, found⟩ := Entries.value?_present id _ present
    have shorter := toFront_present_length id (ids lru cache) present
    rw [toFront, ids, ← Entries.ids_without, List.length_cons, Entries.ids_length, Entries.ids_length] at shorter
    rw [(lawful.push_present id value old cache found).2, List.take_of_length_le (Nat.le_trans shorter room)]
  · have missing := (Entries.value?_none id _).mpr present
    rw [Entries.without_absent id _ present]
    rcases Nat.lt_or_eq_of_le room with roomy | full
    · rw [(lawful.push_roomy id value cache missing (bounded ▸ roomy)).2, List.take_of_length_le roomy]
    · obtain ⟨less, rfl⟩ := Nat.exists_eq_succ_of_ne_zero (Nat.ne_of_gt positive)
      rw [(lawful.push_full id value cache missing (full.trans bounded.symm)).2, List.take_succ_cons,
        List.dropLast_eq_take, full]
      rfl

theorem ids_used (bounded : lru.capacity cache = capacity) (positive : 0 < capacity)
    (room : (ids lru cache).length ≤ capacity) (genuine : Genuine lru [change] cache) (id : String)
    (used : change.used? = some id) :
    ids lru (undergo lru cache change) = (toFront id (ids lru cache)).take capacity := by
  cases change with
  | stored pushed other value =>
      cases used
      rw [ids, entries_stored lawful pushed id value cache bounded positive room, Entries.ids, List.map_take]
      exact congrArg (fun others => (id :: others).take capacity) (Entries.ids_without id _)
  | touched other =>
      cases used
      have present : id ∈ ids lru cache := genuine.1 id rfl
      obtain ⟨value, found⟩ := Entries.value?_present id _ present
      have short := Nat.le_trans (toFront_present_length id _ present) room
      rw [List.take_of_length_le short, ids, entries_touched lawful id value cache found]
      exact congrArg (id :: ·) (Entries.ids_without id _)
  | removed other => cases used
  | cleared => cases used

theorem ids_other (cache : γ) (other : change.used? = none) :
    (ids lru (undergo lru cache change)).Sublist (ids lru cache) := by
  cases change with
  | stored pushed id value => cases other
  | touched id => cases other
  | removed id =>
      rw [undergo, ids, lawful.pop_entries, Entries.ids_without]
      exact List.filter_sublist
  | cleared =>
      rw [undergo, ids, lawful.clear_entries]
      exact List.nil_sublist _

theorem undergo_ordered (positive : 0 < capacity) (before : Ordered lru capacity history cache)
    (genuine : Genuine lru [change] cache) :
    Ordered lru capacity (history ++ [change]) (undergo lru cache change) := by
  have bounded := (undergo_capacity lawful cache change).trans before.bounded
  cases used : change.used? with
  | none =>
      have fewer := ids_other lawful cache used
      refine ⟨bounded, Nat.le_trans fewer.length_le before.room, ?_⟩
      rw [recency_other history change used]
      exact fewer.trans before.ordered
  | some id =>
      have left := ids_used lawful before.bounded positive before.room genuine id used
      refine ⟨bounded, ?_, ?_⟩
      · rw [left]
        exact List.length_take_le _ _
      · rw [left, recency_used history change id used]
        exact (List.take_sublist _ _).trans (toFront_sublist id _ _ before.ordered)

theorem after_ordered (positive : 0 < capacity) (history : List (Change α))
    (genuine : Genuine lru history (lru.new capacity)) :
    Ordered lru capacity history (after lru capacity history) := by
  induction history using List.reverseRecOn with
  | nil =>
      have none : ids lru (lru.new capacity) = [] := congrArg Entries.ids (lawful.new_entries capacity positive)
      refine ⟨lawful.new_capacity capacity positive, ?_, ?_⟩
      · exact Nat.le_trans (Nat.le_of_eq (congrArg List.length none)) (Nat.zero_le _)
      · exact (congrArg (List.Sublist · _) none).mpr (List.nil_sublist _)
  | append_singleton history change ih =>
      obtain ⟨earlier, last⟩ := (genuine_append _ history [change]).mp genuine
      rw [after_snoc]
      exact undergo_ordered lawful positive (ih earlier) last

theorem after_recent (positive : 0 < capacity) (history : List (Change α))
    (genuine : Genuine lru history (lru.new capacity)) (growing : ∀ change ∈ history, change.used? ≠ none) :
    ids lru (after lru capacity history) = (recency history).take capacity := by
  induction history using List.reverseRecOn with
  | nil => exact (congrArg Entries.ids (lawful.new_entries capacity positive)).trans List.take_nil.symm
  | append_singleton history change ih =>
      obtain ⟨earlier, last⟩ := (genuine_append _ history [change]).mp genuine
      have before := after_ordered lawful positive history earlier
      obtain ⟨id, used⟩ := Option.ne_none_iff_exists'.mp (growing change (List.mem_append_right _ List.mem_cons_self))
      have recent := ih earlier fun change member => growing change (List.mem_append_left _ member)
      rw [after_snoc, ids_used lawful before.bounded positive before.room last id used, recent,
        recency_used history change id used]
      exact toFront_take id capacity _ (recency_nodup history)

theorem undergo_loss (positive : 0 < capacity) (before : Ordered lru capacity history cache)
    (genuine : Genuine lru [change] cache) (id : String) (held : id ∈ ids lru cache)
    (gone : id ∉ ids lru (undergo lru cache change)) :
    change = .removed id ∨ change = .cleared ∨ Evicts lru capacity history cache change id := by
  cases change with
  | stored pushed new value =>
      rw [ids_used lawful before.bounded positive before.room genuine new rfl] at gone
      obtain ⟨absent, full, last⟩ := used_loss capacity new id _ before.room held gone
      refine Or.inr (Or.inr ⟨pushed, new, value, rfl, absent, (length_ids lawful cache).trans full, ?_⟩)
      intro other present different
      have pair := pair_of_dropped _ id other held last present different
      exact recency_pair history other id (pair.trans before.ordered)
  | touched new =>
      rw [ids_used lawful before.bounded positive before.room genuine new rfl] at gone
      have absent := (used_loss capacity new id _ before.room held gone).1
      exact absurd (genuine.1 new rfl) absent
  | removed other =>
      rw [undergo, ids, lawful.pop_entries, Entries.ids_without, List.mem_filter] at gone
      refine Or.inl (congrArg _ ?_)
      by_contra different
      exact gone ⟨held, bne_iff_ne.mpr fun same => different same.symm⟩
  | cleared => exact Or.inr (Or.inl rfl)

theorem undergo_entry (positive : 0 < capacity) (before : Ordered lru capacity history cache)
    (genuine : Genuine lru [change] cache) (id : String) (value : α)
    (entry : (id, value) ∈ lru.entries (undergo lru cache change)) :
    (∃ pushed, change = .stored pushed id value) ∨
      (id, value) ∈ lru.entries cache ∧ ∀ pushed other, change ≠ .stored pushed id other := by
  cases change with
  | stored pushed other fresh =>
      rw [entries_stored lawful pushed other fresh cache before.bounded positive before.room] at entry
      rcases List.mem_cons.mp (List.mem_of_mem_take entry) with same | kept
      · cases same
        exact Or.inl ⟨pushed, rfl⟩
      · obtain ⟨member, different⟩ := (Entries.mem_without other _ _).mp kept
        refine Or.inr ⟨member, fun way value same => different ?_⟩
        cases same
        rfl
  | touched other =>
      refine Or.inr ⟨?_, nofun⟩
      obtain ⟨found, present⟩ := Entries.value?_present other _ (genuine.1 other rfl)
      rw [entries_touched lawful other found cache present] at entry
      rcases List.mem_cons.mp entry with same | kept
      · rw [same]
        exact Entries.value?_mem other found _ present
      · exact ((Entries.mem_without other _ _).mp kept).1
  | removed other =>
      rw [undergo, lawful.pop_entries] at entry
      exact Or.inr ⟨((Entries.mem_without other _ _).mp entry).1, nofun⟩
  | cleared =>
      rw [undergo, lawful.clear_entries] at entry
      cases entry

omit lawful in
theorem current_snoc (id : String) (value : α) (before : Current lru capacity history id value)
    (other : ∀ pushed value, change ≠ .stored pushed id value)
    (present : id ∈ ids lru (after lru capacity (history ++ [change]))) :
    Current lru capacity (history ++ [change]) id value := by
  obtain ⟨pushed, earlier, later, split, latest, since⟩ := before
  refine ⟨pushed, earlier, later ++ [change], ?split, ?latest, ?since⟩
  case split => rw [split, List.append_assoc, List.cons_append]
  case latest =>
    intro way another member
    rcases List.mem_append.mp member with sooner | now
    · exact latest way another sooner
    · exact other way another (List.mem_singleton.mp now).symm
  case since =>
    intro middle rest same
    rcases List.eq_nil_or_concat rest with rfl | ⟨rest, last, rfl⟩
    · rw [List.append_nil] at same
      rw [← same, ← List.cons_append, ← List.append_assoc, ← split]
      exact present
    · rw [List.concat_eq_append, ← List.append_assoc] at same
      exact since middle rest (List.append_inj_left' same rfl)

theorem after_current (positive : 0 < capacity) (history : List (Change α))
    (genuine : Genuine lru history (lru.new capacity)) (id : String) (value : α)
    (entry : (id, value) ∈ lru.entries (after lru capacity history)) : Current lru capacity history id value := by
  induction history using List.reverseRecOn with
  | nil =>
      rw [after, undergoAll, List.foldl_nil, lawful.new_entries capacity positive] at entry
      cases entry
  | append_singleton history change ih =>
      obtain ⟨earlier, last⟩ := (genuine_append _ history [change]).mp genuine
      have present : id ∈ ids lru (after lru capacity (history ++ [change])) :=
        (Entries.mem_ids id _).mpr ⟨value, entry⟩
      rw [after_snoc] at entry
      rcases undergo_entry lawful positive (after_ordered lawful positive history earlier) last id value entry with
        ⟨pushed, same⟩ | ⟨kept, other⟩
      · refine ⟨pushed, history, [], by rw [same], fun _ _ => List.not_mem_nil, ?_⟩
        intro middle rest nothing
        rw [(List.append_eq_nil_iff.mp nothing.symm).1, ← same]
        exact present
      · exact current_snoc id value (ih earlier kept) other present

end Lawful

mutual
def grows : Op α → Bool
  | .get _ => true
  | .insert _ _ => true
  | .getOrInsert _ _ during => growsAll during
  | .remove _ => false
  | .contains _ => true
  | .length => true
  | .clear => false
  | .reset _ => false

def growsAll : List (Op α) → Bool
  | [] => true
  | first :: rest => grows first && growsAll rest
end

mutual
theorem changes_used : (op : Op α) → (cache : γ) → (growing : grows op = true) → (change : Change α) →
    change ∈ changes lru op cache → change.used? ≠ none
  | .get id, cache, _, change, member => by
      rw [changes] at member
      split at member
      · cases List.mem_singleton.mp member
        nofun
      · cases member
  | .insert id value, cache, _, change, member => by
      rw [changes] at member
      cases List.mem_singleton.mp member
      nofun
  | .getOrInsert id value during, cache, growing, change, member => by
      rw [grows] at growing
      rw [changes] at member
      split at member
      · cases List.mem_singleton.mp member
        nofun
      · rcases List.mem_append.mp member with nested | last
        · exact changesAll_used during cache growing change nested
        · rw [List.mem_singleton.mp last]
          split <;> nofun
  | .contains id, cache, _, change, member => by
      rw [changes] at member
      cases member
  | .length, cache, _, change, member => by
      rw [changes] at member
      cases member

theorem changesAll_used : (ops : List (Op α)) → (cache : γ) → (growing : growsAll ops = true) → (change : Change α) →
    change ∈ changesAll lru ops cache → change.used? ≠ none
  | [], cache, _, change, member => by
      rw [changesAll] at member
      cases member
  | first :: rest, cache, growing, change, member => by
      rw [growsAll, Bool.and_eq_true] at growing
      rw [changesAll] at member
      rcases List.mem_append.mp member with now | later
      · exact changes_used first cache growing.1 change now
      · exact changesAll_used rest _ growing.2 change later
end

-- Every cut of the history is a moment of the run, those in the middle of a creation included. A missing id counts as
-- used when its creation has ended.
theorem bounded_keeps_recent (lru : Lru γ α) (lawful : lru.Lawful) (capacity : Nat) (positive : 0 < capacity)
    (ops : List (Op α)) :
    let registry := bounded lru
    let history := changesAll lru ops (lru.new capacity)
    let final := (registry.performAll ops (lru.new capacity)).store
    final = after lru capacity history ∧
      (∀ before later, history = before ++ later →
        let cache := after lru capacity before
        registry.length cache ≤ capacity ∧ (ids lru cache).Nodup ∧
        (∀ id value, (id, value) ∈ lru.entries cache → Current lru capacity before id value) ∧
        ∀ change rest, later = change :: rest → ∀ id ∈ ids lru cache,
          id ∉ ids lru (after lru capacity (before ++ [change])) →
            change = .removed id ∨ change = .cleared ∨ Evicts lru capacity before cache change id) ∧
      (growsAll ops = true → ids lru final = (recency history).take capacity) ∧
      ∀ cache : γ, (registry.perform .length cache).store = cache ∧
        (∀ id, (registry.perform (.contains id) cache).store = cache) ∧
        ∀ id, id ∉ ids lru cache → (registry.perform (.get id) cache).store = cache := by
  intro registry history final
  obtain ⟨same, genuine⟩ := performAll_accounts lawful ops (lru.new capacity)
  refine ⟨same.symm, ?moments, ?recent, ?quiet⟩
  case moments =>
    intro before later split
    rw [show changesAll lru ops (lru.new capacity) = before ++ later from split] at genuine
    obtain ⟨begun, going⟩ := (genuine_append _ before later).mp genuine
    have ordered := after_ordered lawful positive before begun
    refine ⟨?_, ordered.ordered.nodup (recency_nodup before), after_current lawful positive before begun, ?_⟩
    · exact Nat.le_trans (Nat.le_of_eq (length_ids lawful _)) ordered.room
    · intro change rest next id held gone
      rw [after_snoc] at gone
      rw [next] at going
      exact undergo_loss lawful positive ordered ⟨going.1, trivial⟩ id held gone
  case recent =>
    intro growing
    refine (congrArg (ids lru) same.symm).trans ?_
    exact after_recent lawful positive history genuine (changesAll_used ops _ growing)
  case quiet =>
    intro cache
    refine ⟨by rw [perform], fun id => by rw [perform], ?_⟩
    intro id absent
    rw [perform]
    exact congrArg Prod.snd (get_absent lawful id cache absent)

def visitors : List (Op Nat) :=
  [.insert "a" 1, .insert "b" 2, .get "a", .getOrInsert "c" 3 [.insert "d" 4, .get "a"]]

theorem visitors_keep_recent :
    let history : List (Change Nat) := [.stored false "a" 1, .stored false "b" 2, .touched "a"]
    0 < 2 ∧ ids Recent.lru ((bounded Recent.lru).performAll visitors (Recent.lru.new 2)).store = ["c", "a"] ∧
      Evicts Recent.lru 2 history (after Recent.lru 2 history) (.stored false "d" 4) "b" := by
  have history : changesAll Recent.lru visitors (Recent.lru.new 2) =
      [.stored false "a" 1, .stored false "b" 2, .touched "a"] ++
        [.stored false "d" 4, .touched "a", .stored true "c" 3] := by rfl
  obtain ⟨_, moments, recent, _⟩ := bounded_keeps_recent Recent.lru Recent.lru_lawful 2 (by decide) visitors
  obtain ⟨_, _, _, leaves⟩ := moments _ _ history
  rw [history] at recent
  refine ⟨by decide, (recent (by decide +kernel)).trans (by decide +kernel), ?_⟩
  rcases leaves _ _ rfl "b" (by decide +kernel) (by decide +kernel) with same | same | evicts
  · cases same
  · cases same
  · exact evicts

end Stencil.Registry
