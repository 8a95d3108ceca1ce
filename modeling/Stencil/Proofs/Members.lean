import Stencil.Host
import Stencil.Proofs.Lookup

set_option autoImplicit false

namespace Stencil.Family

open Registry (Covers)
open Directory

variable {ι : Type}

def member? (id : String) (family : Family ι) : Option ι := (family.registry.find? id).bind (family.get? ·)

structure Sound (family : Family ι) : Prop where
  made : ∀ id handle, family.registry.find? id = some handle → handle < family.instances.length
  apart : ∀ id other handle, family.registry.find? id = some handle → family.registry.find? other = some handle →
    id = other

theorem empty_sound : (empty : Family ι).Sound where
  made _ _ found := by cases found
  apart _ _ _ found := by cases found

variable {family : Family ι}

theorem member?_registered (sound : family.Sound) (id : String) (handle : Nat)
    (found : family.registry.find? id = some handle) :
    ∃ self, family.get? handle = some self ∧ family.member? id = some self := by
  have made := sound.made id handle found
  refine ⟨family.instances[handle], List.getElem?_eq_getElem made, ?_⟩
  rw [member?, found]
  exact List.getElem?_eq_getElem made

theorem register_sound (sound : family.Sound) (id : String) (fresh : ι) : (family.register id fresh).2.Sound := by
  have found := fun other => find?_insert other id family.instances.length family.registry
  refine ⟨?made, ?apart⟩
  case made =>
    intro other handle present
    rw [register, found] at present
    rw [register, List.length_append]
    by_cases same : other = id
    · rw [if_pos same, Option.some.injEq] at present
      rw [← present]
      exact Nat.lt_succ_self _
    · rw [if_neg same] at present
      exact Nat.lt_succ_of_lt (sound.made other handle present)
  case apart =>
    intro first second handle left right
    rw [register, found] at left right
    by_cases one : first = id
    · by_cases two : second = id
      · exact one.trans two.symm
      · rw [if_pos one, Option.some.injEq] at left
        rw [if_neg two, ← left] at right
        exact absurd (sound.made second _ right) (Nat.lt_irrefl _)
    · rw [if_neg one] at left
      by_cases two : second = id
      · rw [if_pos two, Option.some.injEq] at right
        rw [← right] at left
        exact absurd (sound.made first _ left) (Nat.lt_irrefl _)
      · rw [if_neg two] at right
        exact sound.apart first second handle left right

theorem member?_register (sound : family.Sound) (id other : String) (fresh : ι) :
    (family.register other fresh).2.member? id = if id = other then some fresh else family.member? id := by
  rw [member?, register, find?_insert id other _ family.registry]
  by_cases same : id = other
  · rw [if_pos same, if_pos same, Option.bind_some]
    exact List.getElem?_concat_length
  · rw [if_neg same, if_neg same, member?]
    cases found : family.registry.find? id with
    | none => rfl
    | some handle => exact List.getElem?_append_left (sound.made id handle found)

theorem reset_sound (sound : family.Sound) (ids : List String) : (family.reset ids).Sound := by
  have kept : ∀ id handle, (family.reset ids).registry.find? id = some handle →
      family.registry.find? id = some handle := by
    intro id handle found
    rw [reset, find?_reset] at found
    by_cases covers : Covers ids id
    · rw [if_pos covers] at found
      cases found
    · rwa [if_neg covers] at found
  refine ⟨fun id handle found => sound.made id handle (kept id handle found), ?_⟩
  · intro id other handle left right
    exact sound.apart id other handle (kept id handle left) (kept other handle right)

theorem member?_reset (id : String) (ids : List String) :
    (family.reset ids).member? id = if Covers ids id then none else family.member? id := by
  rw [member?, reset, find?_reset]
  by_cases covers : Covers ids id
  · rw [if_pos covers, if_pos covers, Option.bind_none]
  · rw [if_neg covers, if_neg covers]
    rfl

theorem put_sound (sound : family.Sound) (handle : Nat) (self : ι) : (family.put handle self).Sound := by
  refine ⟨?_, sound.apart⟩
  intro id other found
  rw [put, List.length_set]
  exact sound.made id other found

theorem member?_put (sound : family.Sound) (id other : String) (handle : Nat) (self : ι)
    (found : family.registry.find? other = some handle) :
    (family.put handle self).member? id = if id = other then some self else family.member? id := by
  rw [member?, put, member?]
  by_cases same : id = other
  · rw [if_pos same, same, found, Option.bind_some]
    exact List.getElem?_set_self (sound.made other handle found)
  · rw [if_neg same]
    cases present : family.registry.find? id with
    | none => rfl
    | some theirs =>
        refine List.getElem?_set_ne fun shared => same ?_
        rw [← shared] at present
        exact sound.apart id other handle present found

theorem obtain_hit (id : String) (fresh : ι) (handle : Nat) (found : family.registry.find? id = some handle) :
    family.obtain id fresh = (handle, family) := by
  simp [obtain, found]

theorem obtain_miss (id : String) (fresh : ι) (missing : family.registry.find? id = none) :
    family.obtain id fresh = family.register id fresh := by
  simp [obtain, register, missing]

structure Obtained (family : Family ι) (id : String) (fresh : ι) (obtained : Nat × Family ι) : Prop where
  sound : obtained.2.Sound
  registered : obtained.2.registry.find? id = some obtained.1
  self : obtained.2.get? obtained.1 = some ((family.member? id).getD fresh)
  others : ∀ other, other ≠ id → obtained.2.member? other = family.member? other

theorem obtain_obtained (sound : family.Sound) (id : String) (fresh : ι) :
    Obtained family id fresh (family.obtain id fresh) := by
  cases found : family.registry.find? id with
  | none =>
      rw [obtain_miss id fresh found]
      refine ⟨register_sound sound id fresh, ?registered, ?self, ?others⟩
      case registered => exact (find?_insert id id _ family.registry).trans (if_pos rfl)
      case self =>
        rw [member?, found, Option.bind_none, Option.getD_none]
        exact List.getElem?_concat_length
      case others => exact fun other different => (member?_register sound other id fresh).trans (if_neg different)
  | some handle =>
      obtain ⟨self, held, member⟩ := member?_registered sound id handle found
      rw [obtain_hit id fresh handle found]
      refine ⟨sound, found, ?_, fun _ _ => rfl⟩
      rw [member, Option.getD_some]
      exact held

theorem obtain_put (sound : family.Sound) (id : String) (fresh self : ι) :
    ((family.obtain id fresh).2.put (family.obtain id fresh).1 self).Sound ∧
      ∀ other, ((family.obtain id fresh).2.put (family.obtain id fresh).1 self).member? other =
        if other = id then some self else family.member? other := by
  obtain ⟨after, registered, _, others⟩ := obtain_obtained sound id fresh
  refine ⟨put_sound after _ self, ?_⟩
  intro other
  rw [member?_put after other id _ self registered]
  by_cases same : other = id
  · rw [if_pos same, if_pos same]
  · rw [if_neg same, if_neg same, others other same]

end Stencil.Family
