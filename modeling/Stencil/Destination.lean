import Stencil.Bytes

set_option autoImplicit false

namespace Stencil

inductive Reaction (ε : Type) where
  | took (count : Nat)
  | interrupted
  | failed (error : ε)
deriving DecidableEq, Repr

-- Any destination but one that interrupts the same bytes forever, for which a writing never ends.
structure Writer (δ ε : Type) where
  write : Bytes → δ → Reaction ε × δ
  tookNothing : ε
  patience : Bytes → δ → Nat
  took_some : ∀ offered sink count after, write offered sink = (.took count, after) → count ≤ offered.length
  calms_down : ∀ offered sink after, write offered sink = (.interrupted, after) →
    patience offered after < patience offered sink

structure Delivery (δ ε : Type) where
  sink : δ
  error : Option ε
deriving DecidableEq, Repr

def Writer.writeAll {δ ε : Type} (writer : Writer δ ε) (left : Bytes) (sink : δ) : Delivery δ ε :=
  if left = [] then ⟨sink, none⟩
  else
    match _heard : writer.write left sink with
    | (.interrupted, after) => writer.writeAll left after
    | (.failed error, after) => ⟨after, some error⟩
    | (.took 0, after) => ⟨after, some writer.tookNothing⟩
    | (.took (count + 1), after) => writer.writeAll (left.drop (count + 1)) after
termination_by (left.length, writer.patience left sink)
decreasing_by
  · exact .right _ (writer.calms_down _ _ _ _heard)
  · refine .left _ _ ?_
    have some_left : 0 < left.length := List.length_pos_iff.mpr (by assumption)
    rw [List.length_drop]
    omega

inductive WriteError where
  | writeZero
  | brokenPipe
deriving DecidableEq, Repr

def WriteError.message : WriteError → String
  | .writeZero => "failed to write whole buffer"
  | .brokenPipe => "closed"

-- `chunk` bounds one write and `limit` all of them together. Once full, a destination either says
-- that it took no bytes or that it is closed.
structure Destination where
  chunk : Option Nat
  limit : Option Nat
  takesZero : Bool
  interrupts : Nat
deriving DecidableEq, Repr

structure Written where
  bytes : Bytes
  error : Option WriteError
deriving DecidableEq, Repr

namespace Destination

def bounded (bound : Option Nat) (bytes : Bytes) : Bytes :=
  match bound with
  | some bound => bytes.take bound
  | none => bytes

def accept (destination : Destination) (offered : Bytes) : Bytes :=
  bounded destination.limit (bounded destination.chunk offered)

def refusal (destination : Destination) : Reaction WriteError :=
  if destination.takesZero then .took 0 else .failed .brokenPipe

theorem bounded_length (bound : Option Nat) (bytes : Bytes) : (bounded bound bytes).length ≤ bytes.length := by
  unfold bounded
  split
  · exact List.length_take_le' _ _
  · exact Nat.le_refl _

theorem accept_length (destination : Destination) (offered : Bytes) :
    (destination.accept offered).length ≤ offered.length :=
  Nat.le_trans (bounded_length _ _) (bounded_length _ _)

def calmer (destination : Destination) : Destination :=
  { destination with interrupts := destination.interrupts - 1 }

def after (destination : Destination) (taken : Nat) : Destination :=
  { destination with limit := destination.limit.map (· - taken) }

structure Sink where
  left : Destination
  pieces : List Bytes
deriving DecidableEq, Repr

def Sink.received (sink : Sink) : Bytes := sink.pieces.reverse.flatten

def opened (destination : Destination) : Sink := ⟨destination, []⟩

def write (offered : Bytes) (sink : Sink) : Reaction WriteError × Sink :=
  if 0 < sink.left.interrupts then (.interrupted, { sink with left := sink.left.calmer })
  else
    match sink.left.accept offered with
    | [] => (sink.left.refusal, sink)
    | first :: more => (.took (more.length + 1), ⟨sink.left.after (more.length + 1), (first :: more) :: sink.pieces⟩)

theorem write_took (offered : Bytes) (sink : Sink) (count : Nat) (after : Sink)
    (heard : write offered sink = (.took count, after)) : count ≤ offered.length := by
  have bound := accept_length sink.left offered
  rw [write] at heard
  split at heard
  · cases heard
  · split at heard
    · rw [refusal] at heard
      split at heard
      · cases heard
        exact Nat.zero_le _
      · cases heard
    · rename_i accepted
      cases heard
      rwa [accepted] at bound

theorem write_interrupted (offered : Bytes) (sink after : Sink) (heard : write offered sink = (.interrupted, after)) :
    after.left.interrupts < sink.left.interrupts := by
  rw [write] at heard
  split at heard
  · rename_i impatient
    cases heard
    exact Nat.sub_lt impatient Nat.one_pos
  · split at heard
    · rw [refusal] at heard
      split at heard <;> cases heard
    · cases heard

def writer : Writer Sink WriteError where
  write := write
  tookNothing := .writeZero
  patience _ sink := sink.left.interrupts
  took_some := write_took
  calms_down := write_interrupted

def writeAll (destination : Destination) (bytes : Bytes) : Written :=
  let delivery := writer.writeAll bytes destination.opened
  ⟨delivery.sink.received, delivery.error⟩

end Destination

end Stencil
