import Mathlib.Data.List.Induction
import Stencil.Proofs.RegistryChanges

set_option autoImplicit false

namespace Stencil.Registry

variable {α : Type}

def Change.used? : Change α → Option String
  | .stored _ id _ => some id
  | .touched id => some id
  | .removed _ => none
  | .cleared => none

def uses (history : List (Change α)) : List String := history.filterMap Change.used?

def recency (history : List (Change α)) : List String := (uses history).reverse.eraseDups

def LastUsedBefore (history : List (Change α)) (first second : String) : Prop :=
  ∃ earlier later, history = earlier ++ later ∧ first ∈ uses earlier ∧ first ∉ uses later ∧ second ∈ uses later

@[simp] theorem uses_append (before later : List (Change α)) : uses (before ++ later) = uses before ++ uses later :=
  List.filterMap_append

theorem uses_used (change : Change α) (id : String) (used : change.used? = some id) : uses [change] = [id] := by
  rw [uses, List.filterMap_cons_some used, List.filterMap_nil]

theorem uses_other (change : Change α) (other : change.used? = none) : uses [change] = [] := by
  rw [uses, List.filterMap_cons_none other, List.filterMap_nil]

theorem eraseDups_filter (keep : String → Bool) (ids : List String) :
    (ids.filter keep).eraseDups = ids.eraseDups.filter keep := by
  match ids with
  | [] => rfl
  | id :: rest =>
      -- `eraseDups` goes on with a filtered tail, so a structural induction does not apply.
      have tail := eraseDups_filter keep (rest.filter fun other => !other == id)
      by_cases kept : keep id = true
      · rw [List.filter_cons_of_pos kept, List.eraseDups_cons, List.eraseDups_cons,
          List.filter_cons_of_pos kept, ← tail, List.filter_comm]
      · have gone : (rest.filter fun other => !other == id).filter keep = rest.filter keep := by
          rw [List.filter_filter]
          refine List.filter_congr fun other _ => ?_
          by_cases same : other = id
          · simp [same, kept]
          · simp [same]
        rw [List.filter_cons_of_neg kept, List.eraseDups_cons, List.filter_cons_of_neg kept, ← tail, gone]
termination_by ids.length
decreasing_by exact Nat.lt_succ_of_le (List.length_filter_le _ _)

theorem recency_used (history : List (Change α)) (change : Change α) (id : String) (used : change.used? = some id) :
    recency (history ++ [change]) = toFront id (recency history) := by
  rw [recency, uses_append, uses_used change id used, List.reverse_concat, List.eraseDups_cons, eraseDups_filter]
  rfl

theorem recency_other (history : List (Change α)) (change : Change α) (other : change.used? = none) :
    recency (history ++ [change]) = recency history := by
  rw [recency, uses_append, uses_other change other, List.append_nil]
  rfl

theorem mem_recency (history : List (Change α)) (id : String) : id ∈ recency history ↔ id ∈ uses history := by
  rw [recency, List.mem_eraseDups, List.mem_reverse]

theorem recency_nodup (history : List (Change α)) : (recency history).Nodup := by
  induction history using List.reverseRecOn with
  | nil => exact List.nodup_nil
  | append_singleton history change ih =>
      cases used : change.used? with
      | none =>
          rw [recency_other history change used]
          exact ih
      | some id =>
          rw [recency_used history change id used]
          exact toFront_nodup id _ ih

theorem lastUsedBefore_snoc (history : List (Change α)) (change : Change α) (first second : String)
    (before : LastUsedBefore history first second) (other : change.used? ≠ some first) :
    LastUsedBefore (history ++ [change]) first second := by
  obtain ⟨earlier, later, split, used, unused, lately⟩ := before
  refine ⟨earlier, later ++ [change], by rw [split, List.append_assoc], used, ?_, ?_⟩
  · rw [uses_append, List.mem_append]
    rintro (sooner | now)
    · exact unused sooner
    · obtain ⟨last, member, same⟩ := List.mem_filterMap.mp now
      rw [List.mem_singleton.mp member] at same
      exact other same
  · rw [uses_append]
    exact List.mem_append_left _ lately

theorem recency_pair (history : List (Change α)) (newer older : String)
    (pair : [newer, older].Sublist (recency history)) : LastUsedBefore history older newer := by
  induction history using List.reverseRecOn with
  | nil => exact absurd (pair.length_le) (by simp [recency, uses])
  | append_singleton history change ih =>
      cases used : change.used? with
      | none =>
          rw [recency_other history change used] at pair
          exact lastUsedBefore_snoc history change older newer (ih pair) (by simp [used])
      | some id =>
          rw [recency_used history change id used, toFront, List.cons_sublist_cons'] at pair
          rcases pair with behind | ⟨same, behind⟩
          · have spared := List.mem_filter.mp (behind.subset (List.mem_cons_of_mem _ List.mem_cons_self))
            refine lastUsedBefore_snoc history change older newer (ih (behind.trans (List.filter_sublist))) ?_
            rw [used]
            intro same
            simp [Option.some.inj same] at spared
          · obtain ⟨member, spared⟩ := List.mem_filter.mp (List.singleton_sublist.mp behind)
            refine ⟨history, [change], rfl, (mem_recency history older).mp member, ?_, ?_⟩
            · rw [uses_used change id used, List.mem_singleton]
              exact bne_iff_ne.mp spared
            · rw [uses_used change id used, same]
              exact List.mem_singleton_self id

end Stencil.Registry
