import Stencil.Bytes

set_option autoImplicit false

namespace Stencil

structure Outcome (σ : Type) where
  out : Bytes
  world : σ
  fault : Option String

def Outcome.result {σ : Type} (outcome : Outcome σ) : Except String Bytes :=
  match outcome.fault with
  | some message => .error message
  | none => .ok outcome.out

@[simp] theorem Outcome.result_error {σ : Type} (outcome : Outcome σ) (message : String) :
    outcome.result = .error message ↔ outcome.fault = some message := by
  rw [result]
  cases outcome.fault with
  | some other => simp
  | none => simp

@[simp] theorem Outcome.result_ok {σ : Type} (outcome : Outcome σ) (bytes : Bytes) :
    outcome.result = .ok bytes ↔ outcome.fault = none ∧ outcome.out = bytes := by
  rw [result]
  cases outcome.fault with
  | some other => simp
  | none => simp

abbrev Effect (σ : Type) := σ → Outcome σ

namespace Effect

variable {σ : Type}

def write (bytes : Bytes) : Effect σ := fun world => ⟨bytes, world, none⟩

def skip : Effect σ := write []

def change (f : σ → σ) : Effect σ := fun world => ⟨[], f world, none⟩

def fail (message : String) : Effect σ := fun world => ⟨[], world, some message⟩

def andThen (first second : Effect σ) : Effect σ := fun world =>
  let before := first world
  match before.fault with
  | some _ => before
  | none =>
      let after := second before.world
      ⟨before.out ++ after.out, after.world, after.fault⟩

theorem write_andThen (bytes : Bytes) (next : Effect σ) (world : σ) :
    (write bytes).andThen next world =
      ⟨bytes ++ (next world).out, (next world).world, (next world).fault⟩ := rfl

@[simp] theorem skip_andThen (next : Effect σ) : skip.andThen next = next := rfl

@[simp] theorem andThen_skip (first : Effect σ) : first.andThen skip = first := by
  funext world
  simp only [andThen, skip, write]
  rcases first world with ⟨out, after, fault⟩
  cases fault <;> simp

theorem andThen_assoc (first second third : Effect σ) :
    (first.andThen second).andThen third = first.andThen (second.andThen third) := by
  funext world
  simp only [andThen]
  rcases first world with ⟨out, after, fault⟩
  cases fault with
  | some message => rfl
  | none =>
      simp only
      rcases second after with ⟨out₂, after₂, fault₂⟩
      cases fault₂ <;> simp

theorem write_append (left right : Bytes) :
    (write (left ++ right) : Effect σ) = (write left).andThen (write right) := rfl

end Effect

end Stencil
