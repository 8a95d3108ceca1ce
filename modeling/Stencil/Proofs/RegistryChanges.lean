import Mathlib.Data.List.Nodup
import Stencil.Registry

set_option autoImplicit false

namespace Stencil.Registry

def toFront (id : String) (ids : List String) : List String := id :: ids.filter (· != id)

theorem mem_toFront (id : String) (ids : List String) (other : String) :
    other ∈ toFront id ids ↔ other = id ∨ other ∈ ids := by
  rw [toFront, List.mem_cons, List.mem_filter, bne_iff_ne]
  by_cases same : other = id
  · simp [same]
  · simp [same]

theorem toFront_nodup (id : String) (ids : List String) (distinct : ids.Nodup) : (toFront id ids).Nodup := by
  refine List.nodup_cons.mpr ⟨?_, distinct.filter _⟩
  simp

theorem toFront_sublist (id : String) (ids longer : List String) (sub : ids.Sublist longer) :
    (toFront id ids).Sublist (toFront id longer) := (sub.filter _).cons_cons id

theorem filter_absent (id : String) (ids : List String) (absent : id ∉ ids) : ids.filter (· != id) = ids := by
  refine List.filter_eq_self.mpr ?_
  intro other member
  exact bne_iff_ne.mpr fun same => absent (same ▸ member)

theorem toFront_absent (id : String) (ids : List String) (absent : id ∉ ids) : toFront id ids = id :: ids := by
  rw [toFront, filter_absent id ids absent]

theorem toFront_length (id : String) (ids : List String) : (toFront id ids).length ≤ ids.length + 1 :=
  Nat.succ_le_succ (List.length_filter_le _ _)

theorem toFront_present_length (id : String) (ids : List String) (present : id ∈ ids) :
    (toFront id ids).length ≤ ids.length := by
  refine Nat.succ_le_of_lt (List.length_filter_lt_length_iff_exists.mpr ⟨id, present, ?_⟩)
  simp

variable {γ α : Type}

-- The changes of a bounded registry. Touching stands for a look that finds its entry, and the flag tells whether a
-- value was pushed by a creation or put there.
inductive Change (α : Type) where
  | stored (pushed : Bool) (id : String) (value : α)
  | touched (id : String)
  | removed (id : String)
  | cleared

section

variable (lru : Lru γ α)

def ids (cache : γ) : List String := (lru.entries cache).ids

def undergo (cache : γ) : Change α → γ
  | .stored true id value => (lru.push id value cache).2
  | .stored false id value => (lru.put id value cache).2
  | .touched id => (lru.get id cache).2
  | .removed id => (lru.pop id cache).2
  | .cleared => lru.clear cache

def undergoAll (cache : γ) (changes : List (Change α)) : γ := changes.foldl (undergo lru) cache

mutual
def changes : Op α → γ → List (Change α)
  | .get id, cache => if id ∈ ids lru cache then [.touched id] else []
  | .insert id value, _ => [.stored false id value]
  | .getOrInsert id value during, cache =>
      if id ∈ ids lru cache then [.touched id]
      else
        changesAll during cache ++
          [if id ∈ ids lru ((bounded lru).performAll during cache).store then .touched id else .stored true id value]
  | .remove id, _ => [.removed id]
  | .contains _, _ => []
  | .length, _ => []
  | .clear, _ => [.cleared]
  | .reset ids, _ => if ids.isEmpty then [.cleared] else ids.map .removed

def changesAll : List (Op α) → γ → List (Change α)
  | [], _ => []
  | first :: rest, cache => changes first cache ++ changesAll rest ((bounded lru).perform first cache).store
end

def Genuine : List (Change α) → γ → Prop
  | [], _ => True
  | change :: later, cache => (∀ id, change = .touched id → id ∈ ids lru cache) ∧ Genuine later (undergo lru cache change)

def Accounts (changes : List (Change α)) (before after : γ) : Prop :=
  undergoAll lru before changes = after ∧ Genuine lru changes before

end

variable {lru : Lru γ α}

theorem undergoAll_append (cache : γ) (before later : List (Change α)) :
    undergoAll lru cache (before ++ later) = undergoAll lru (undergoAll lru cache before) later := List.foldl_append

theorem genuine_append (cache : γ) (before later : List (Change α)) :
    Genuine lru (before ++ later) cache ↔ Genuine lru before cache ∧ Genuine lru later (undergoAll lru cache before) := by
  induction before generalizing cache with
  | nil =>
      rw [List.nil_append, Genuine, true_and]
      rfl
  | cons change rest ih =>
      rw [List.cons_append, Genuine, Genuine, ih, and_assoc]
      rfl

theorem genuine_other (change : Change α) (cache : γ) (other : ∀ id, change ≠ .touched id) :
    Genuine lru [change] cache := ⟨fun id same => absurd same (other id), trivial⟩

theorem genuine_touch (id : String) (cache : γ) (present : id ∈ ids lru cache) : Genuine lru [.touched id] cache := by
  refine ⟨?_, trivial⟩
  intro other same
  cases same
  exact present

theorem genuine_removals (ids : List String) (cache : γ) : Genuine lru (ids.map .removed) cache := by
  induction ids generalizing cache with
  | nil => trivial
  | cons id rest ih => exact ⟨nofun, ih _⟩

theorem undergo_removals (ids : List String) (cache : γ) :
    undergoAll lru cache (ids.map .removed) = ids.foldl (fun left id => (lru.pop id left).2) cache := by
  rw [undergoAll, List.foldl_map]
  rfl

theorem accounts_nothing (cache : γ) : Accounts lru [] cache cache := ⟨rfl, trivial⟩

theorem accounts_append {first second : List (Change α)} {before between after : γ}
    (begun : Accounts lru first before between) (ended : Accounts lru second between after) :
    Accounts lru (first ++ second) before after := by
  obtain ⟨same, genuine⟩ := begun
  refine ⟨?_, (genuine_append before first second).mpr ⟨genuine, ?_⟩⟩
  · rw [undergoAll_append, same]
    exact ended.1
  · rw [same]
    exact ended.2

section

variable (lawful : lru.Lawful)
include lawful

theorem get_absent (id : String) (cache : γ) (absent : id ∉ ids lru cache) : lru.get id cache = (none, cache) :=
  lawful.get_missing id cache ((Entries.value?_none id _).mpr absent)

theorem get_present (id : String) (cache : γ) (present : id ∈ ids lru cache) :
    ∃ value, (lru.entries cache).value? id = some value ∧ lru.get id cache = (some value, (lru.get id cache).2) ∧
      lru.entries (lru.get id cache).2 = (id, value) :: (lru.entries cache).without id := by
  obtain ⟨value, found⟩ := Entries.value?_present id (lru.entries cache) present
  obtain ⟨answer, order⟩ := lawful.get_found id value cache found
  exact ⟨value, found, Prod.ext answer rfl, order⟩

theorem accounts_settle (id : String) (created : Created γ α) :
    Accounts lru [if id ∈ ids lru created.during.store then .touched id else .stored true id created.value]
      created.during.store (settle lru id created).store := by
  by_cases present : id ∈ ids lru created.during.store
  · obtain ⟨value, _, same, _⟩ := get_present lawful id _ present
    rw [if_pos present, settle, same]
    exact ⟨rfl, genuine_touch id _ present⟩
  · rw [if_neg present, settle, get_absent lawful id _ present]
    exact ⟨rfl, genuine_other _ _ nofun⟩

end

mutual
theorem perform_accounts (lawful : lru.Lawful) : (op : Op α) → (cache : γ) →
    Accounts lru (changes lru op cache) cache ((bounded lru).perform op cache).store
  | .get id, cache => by
      rw [changes, perform]
      by_cases present : id ∈ ids lru cache
      · rw [if_pos present]
        exact ⟨rfl, genuine_touch id cache present⟩
      · rw [if_neg present]
        exact ⟨(congrArg Prod.snd (get_absent lawful id cache present)).symm, trivial⟩
  | .insert id value, cache => by
      rw [changes, perform]
      exact ⟨rfl, genuine_other _ cache nofun⟩
  | .getOrInsert id value during, cache => by
      rw [changes, perform]
      simp only [bounded]
      by_cases present : id ∈ ids lru cache
      · obtain ⟨found, _, same, _⟩ := get_present lawful id cache present
        rw [if_pos present, same]
        exact ⟨rfl, genuine_touch id cache present⟩
      · rw [if_neg present, get_absent lawful id cache present]
        exact accounts_append (performAll_accounts lawful during cache) (accounts_settle lawful id ⟨value, _⟩)
  | .remove id, cache => by
      rw [changes, perform]
      exact ⟨rfl, genuine_removals [id] cache⟩
  | .contains id, cache => by
      rw [changes, perform]
      exact accounts_nothing cache
  | .length, cache => by
      rw [changes, perform]
      exact accounts_nothing cache
  | .clear, cache => by
      rw [changes, perform]
      exact ⟨rfl, genuine_other _ cache nofun⟩
  | .reset ids, cache => by
      rw [changes, perform, reset]
      by_cases all : ids.isEmpty = true
      · rw [if_pos all, if_pos all]
        exact ⟨rfl, genuine_other _ cache nofun⟩
      · rw [if_neg all, if_neg all]
        exact ⟨undergo_removals ids cache, genuine_removals ids cache⟩

theorem performAll_accounts (lawful : lru.Lawful) : (ops : List (Op α)) → (cache : γ) →
    Accounts lru (changesAll lru ops cache) cache ((bounded lru).performAll ops cache).store
  | [], cache => by
      rw [changesAll, performAll]
      exact accounts_nothing cache
  | first :: rest, cache => by
      rw [changesAll, performAll]
      exact accounts_append (perform_accounts lawful first cache) (performAll_accounts lawful rest _)
end

end Stencil.Registry
