import Stencil.Destination
import Stencil.Effect
import Stencil.Event
import Stencil.Pool

set_option autoImplicit false

namespace Stencil

structure Reply (ι σ α : Type) where
  self : ι
  pool : Pool
  world : σ
  events : List Event
  result : Except String α

namespace Reply

variable {ι σ α β : Type}

def map (f : α → β) (reply : Reply ι σ α) : Reply ι σ β := { reply with result := reply.result.map f }

@[simp] theorem map_faulted (f : α → β) (reply : Reply ι σ α) (message : String) :
    (reply.map f).result = .error message ↔ reply.result = .error message := by
  rw [map]
  cases reply.result with
  | error other => simp only [Except.map, Except.error.injEq]
  | ok value => exact iff_of_false nofun nofun

end Reply

-- A reply with the destination that was written to, however the call ended. Its value is the error of the writing.
structure Sent (ι σ δ ε : Type) where
  reply : Reply ι σ (Option ε)
  sink : δ

namespace Sent

variable {ι σ δ ε : Type}

def written (sent : Sent ι σ Destination.Sink WriteError) : Reply ι σ Written :=
  sent.reply.map fun error => ⟨sent.sink.received, error⟩

-- The bytes of the plain reply are written when all else is done, and nothing is written when there are none.
structure WritesLast (plain : Reply ι σ Bytes) (writer : Writer δ ε) (sink : δ) (sent : Sent ι σ δ ε) : Prop where
  self : sent.reply.self = plain.self
  world : sent.reply.world = plain.world
  events : sent.reply.events = plain.events
  result : sent.reply.result = plain.result.map fun bytes => (writer.writeAll bytes sink).error
  sink : sent.sink =
    match plain.result with
    | .ok bytes => (writer.writeAll bytes sink).sink
    | .error _ => sink

theorem WritesLast.faulted {plain : Reply ι σ Bytes} {writer : Writer δ ε} {sink : δ} {sent : Sent ι σ δ ε}
    (last : WritesLast plain writer sink sent) (message : String) (faulted : plain.result = .error message) :
    sent.sink = sink ∧ sent.reply.result = .error message := by
  refine ⟨?_, ?_⟩
  · rw [last.sink, faulted]
  · rw [last.result, faulted]
    rfl

theorem written_result {plain : Reply ι σ Bytes} {destination : Destination} {sent : Sent ι σ Destination.Sink WriteError}
    (last : WritesLast plain Destination.writer destination.opened sent) :
    sent.written.result = plain.result.map destination.writeAll := by
  rw [written, Reply.map, last.result, last.sink]
  cases plain.result with
  | error message => rfl
  | ok bytes => rfl

end Sent

end Stencil
