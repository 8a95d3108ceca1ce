import Stencil.Compiler
import Stencil.Tuner

set_option autoImplicit false

namespace Stencil

variable {ι σ δ ε : Type}

def Reaction.piece (offered : Bytes) : Reaction ε → Bytes
  | .took count => offered.take count
  | .interrupted | .failed _ => []

namespace Writer

-- How a writing goes: what is accepted of the offered bytes, the error that ends it, and the destination after it.
inductive Course (writer : Writer δ ε) : Bytes → δ → Bytes → Option ε → δ → Prop where
  | done (sink : δ) : Course writer [] sink [] none sink
  | again (offered accepted : Bytes) (sink next after : δ) (error : Option ε) : offered ≠ [] →
      writer.write offered sink = (.interrupted, next) → Course writer offered next accepted error after →
      Course writer offered sink accepted error after
  | failed (offered : Bytes) (sink after : δ) (reason : ε) : offered ≠ [] →
      writer.write offered sink = (.failed reason, after) → Course writer offered sink [] (some reason) after
  | nothing (offered : Bytes) (sink after : δ) : offered ≠ [] → writer.write offered sink = (.took 0, after) →
      Course writer offered sink [] (some writer.tookNothing) after
  | piece (offered accepted : Bytes) (sink next after : δ) (count : Nat) (error : Option ε) : offered ≠ [] →
      writer.write offered sink = (.took (count + 1), next) →
      Course writer (offered.drop (count + 1)) next accepted error after →
      Course writer offered sink (offered.take (count + 1) ++ accepted) error after

theorem writeAll_course (writer : Writer δ ε) (offered : Bytes) (sink : δ) :
    ∃ accepted, writer.Course offered sink accepted (writer.writeAll offered sink).error
      (writer.writeAll offered sink).sink := by
  induction offered, sink using writeAll.induct writer with
  | case1 sink =>
      rw [writeAll, if_pos rfl]
      exact ⟨[], .done sink⟩
  | case2 offered sink some_left next heard ih =>
      obtain ⟨accepted, course⟩ := ih
      rw [writeAll, if_neg some_left]
      split <;> rename_i again <;> cases heard.symm.trans again
      exact ⟨accepted, .again offered accepted sink next _ _ some_left heard course⟩
  | case3 offered sink some_left reason after heard =>
      rw [writeAll, if_neg some_left]
      split <;> rename_i again <;> cases heard.symm.trans again
      exact ⟨[], .failed offered sink after reason some_left heard⟩
  | case4 offered sink some_left after heard =>
      rw [writeAll, if_neg some_left]
      split <;> rename_i again <;> cases heard.symm.trans again
      exact ⟨[], .nothing offered sink after some_left heard⟩
  | case5 offered sink some_left count next heard ih =>
      obtain ⟨accepted, course⟩ := ih
      rw [writeAll, if_neg some_left]
      split <;> rename_i again <;> cases heard.symm.trans again
      exact ⟨_, .piece offered accepted sink next _ count _ some_left heard course⟩

def Refuses (writer : Writer δ ε) (offered accepted : Bytes) (reason : ε) (after : δ) : Prop :=
  ∃ reached, writer.write (offered.drop accepted.length) reached = (.failed reason, after) ∨
    writer.write (offered.drop accepted.length) reached = (.took 0, after) ∧ reason = writer.tookNothing

structure Delivered (writer : Writer δ ε) (offered : Bytes) (sink : δ) (accepted : Bytes) (error : Option ε)
    (after : δ) : Prop where
  course : writer.Course offered sink accepted error after
  part : accepted <+: offered
  complete : error = none ↔ accepted = offered
  refused : ∀ reason, error = some reason → writer.Refuses offered accepted reason after

variable {writer : Writer δ ε} {offered accepted : Bytes} {sink after : δ} {error : Option ε}

theorem refused_delivered {reason : ε} (course : writer.Course offered sink [] (some reason) after)
    (some_left : offered ≠ []) (refuses : writer.Refuses offered [] reason after) :
    writer.Delivered offered sink [] (some reason) after := by
  refine ⟨course, List.nil_prefix, iff_of_false nofun some_left.symm, ?_⟩
  rintro _ ⟨⟩
  exact refuses

theorem piece_delivered {next : δ} (count : Nat) (some_left : offered ≠ [])
    (heard : writer.write offered sink = (.took (count + 1), next))
    (rest : writer.Delivered (offered.drop (count + 1)) next accepted error after) :
    writer.Delivered offered sink (offered.take (count + 1) ++ accepted) error after := by
  have short : (offered.take (count + 1)).length = count + 1 :=
    List.length_take_of_le (writer.took_some offered sink (count + 1) next heard)
  have whole := List.append_cancel_left_eq (offered.take (count + 1)) accepted (offered.drop (count + 1))
  have longer := (List.prefix_append_right_inj (offered.take (count + 1))).mpr rest.part
  rw [List.take_append_drop] at whole longer
  refine ⟨.piece offered accepted sink next after count error some_left heard rest.course, longer, ?complete, ?refused⟩
  case complete => rw [rest.complete, whole]
  case refused =>
    intro reason failed
    obtain ⟨reached, refuses⟩ := rest.refused reason failed
    refine ⟨reached, ?_⟩
    rwa [List.length_append, short, ← List.drop_drop]

theorem course_delivered (course : writer.Course offered sink accepted error after) :
    writer.Delivered offered sink accepted error after := by
  induction course with
  | done sink => exact ⟨.done sink, List.prefix_rfl, iff_of_true rfl rfl, nofun⟩
  | again offered accepted sink next after error some_left heard _ ih =>
      exact ⟨.again offered accepted sink next after error some_left heard ih.course, ih.part, ih.complete, ih.refused⟩
  | failed offered sink after reason some_left heard =>
      exact refused_delivered (.failed offered sink after reason some_left heard) some_left ⟨sink, Or.inl heard⟩
  | nothing offered sink after some_left heard =>
      exact refused_delivered (.nothing offered sink after some_left heard) some_left ⟨sink, Or.inr ⟨heard, rfl⟩⟩
  | piece offered accepted sink next after count error some_left heard _ ih =>
      exact piece_delivered count some_left heard ih

theorem writeAll_delivered (writer : Writer δ ε) (offered : Bytes) (sink : δ) :
    ∃ accepted, writer.Delivered offered sink accepted (writer.writeAll offered sink).error
      (writer.writeAll offered sink).sink := by
  obtain ⟨accepted, course⟩ := writer.writeAll_course offered sink
  exact ⟨accepted, course_delivered course⟩

end Writer

namespace Destination

theorem bounded_begins (bound : Option Nat) (bytes : Bytes) : bounded bound bytes <+: bytes := by
  cases bound with
  | none => exact List.prefix_rfl
  | some bound => exact List.take_prefix bound bytes

theorem accept_begins (destination : Destination) (offered : Bytes) : destination.accept offered <+: offered :=
  (bounded_begins destination.limit _).trans (bounded_begins destination.chunk offered)

theorem write_received {offered : Bytes} {sink next : Sink} {reaction : Reaction WriteError}
    (heard : writer.write offered sink = (reaction, next)) : next.received = sink.received ++ reaction.piece offered := by
  change write offered sink = _ at heard
  rw [write] at heard
  split at heard
  · cases heard
    exact (List.append_nil _).symm
  · split at heard
    · rw [refusal] at heard
      split at heard <;> cases heard <;> exact (List.append_nil _).symm
    · rename_i first more accepted
      have part := sink.left.accept_begins offered
      rw [accepted] at part
      cases heard
      rw [Sink.received, List.reverse_cons, List.flatten_concat, List.prefix_iff_eq_take.mp part]
      rfl

theorem course_received {offered accepted : Bytes} {sink after : Sink} {error : Option WriteError}
    (course : writer.Course offered sink accepted error after) : after.received = sink.received ++ accepted := by
  induction course with
  | done sink => exact (List.append_nil _).symm
  | again offered accepted sink next after error _ heard _ ih =>
      rw [ih, write_received heard, Reaction.piece, List.append_nil]
  | failed offered sink after reason _ heard => exact write_received heard
  | nothing offered sink after _ heard => exact write_received heard
  | piece offered accepted sink next after count error _ heard _ ih =>
      rw [ih, write_received heard, Reaction.piece, List.append_assoc]

end Destination

structure Sent.Delivers (plain : Reply ι σ Bytes) (writer : Writer δ ε) (sink : δ) (sent : Sent ι σ δ ε) : Prop where
  last : Sent.WritesLast plain writer sink sent
  delivered : ∀ bytes, plain.result = .ok bytes →
    ∃ accepted error, sent.reply.result = .ok error ∧ writer.Delivered bytes sink accepted error sent.sink

theorem Sent.delivers_last {plain : Reply ι σ Bytes} {writer : Writer δ ε} {sink : δ} {sent : Sent ι σ δ ε}
    (last : Sent.WritesLast plain writer sink sent) : Sent.Delivers plain writer sink sent := by
  refine ⟨last, ?_⟩
  intro bytes rendered
  obtain ⟨accepted, delivered⟩ := writer.writeAll_delivered bytes sink
  refine ⟨accepted, (writer.writeAll bytes sink).error, ?_, ?_⟩
  · rw [last.result, rendered]
    rfl
  · rw [last.sink, rendered]
    exact delivered

theorem renderTo_renders_then_writes (writer : Writer δ ε) (sink : δ) (pool : Pool) (root : Node σ) (world : σ) :
    (∀ compiler : Compiler,
      Sent.Delivers (compiler.render pool root world) writer sink (compiler.renderInto pool root writer sink world) ∧
        ∀ destination, compiler.renderTo pool root destination world =
          (compiler.renderInto pool root Destination.writer destination.opened world).written) ∧
      ∀ tuner : Tuner,
        Sent.Delivers (tuner.render pool root world) writer sink (tuner.renderInto pool root writer sink world) ∧
          ∀ destination, tuner.renderTo pool root destination world =
            (tuner.renderInto pool root Destination.writer destination.opened world).written := by
  refine ⟨fun compiler => ⟨?compiler, fun _ => rfl⟩, fun tuner => ⟨?tuner, fun _ => rfl⟩⟩
  case compiler => exact Sent.delivers_last (compiler.renderInto_writes_last pool root writer sink world)
  case tuner => exact Sent.delivers_last (tuner.renderInto_writes_last pool root writer sink world)

def narrow : Destination := ⟨some 2, some 3, false, 1⟩

def greeting : Node Nat :=
  .fragment [.custom false none (.write [72, 105, 32]) [], .custom true none (.write [65, 110, 110]) []]

theorem narrow_call_cut_short :
    let plain := Compiler.render (.ofConfig .standard) .empty greeting 0
    let narrowed := Compiler.renderInto (.ofConfig .standard) .empty greeting Destination.writer narrow.opened 0
    plain.result = .ok [72, 105, 32, 65, 110, 110] ∧ narrowed.reply.self = plain.self ∧
      (Compiler.renderTo (.ofConfig .standard) .empty greeting narrow 0).result =
        .ok ⟨[72, 105, 32], some .brokenPipe⟩ ∧
      Destination.writer.Delivered [72, 105, 32, 65, 110, 110] narrow.opened [72, 105, 32] (some .brokenPipe)
        narrowed.sink := by
  have rendered : (Compiler.render (.ofConfig .standard) .empty greeting 0).result =
      .ok [72, 105, 32, 65, 110, 110] := by rfl
  have writing : Destination.writer.writeAll [72, 105, 32, 65, 110, 110] narrow.opened =
      ⟨⟨⟨some 2, some 0, false, 0⟩, [[32], [72, 105]]⟩, some .brokenPipe⟩ := by
    cbv
  obtain ⟨compiled, _⟩ := renderTo_renders_then_writes Destination.writer narrow.opened .empty greeting 0
  obtain ⟨⟨last, delivered⟩, replied⟩ := compiled (.ofConfig .standard)
  obtain ⟨accepted, error, answered, course⟩ := delivered _ rendered
  have sink := last.sink
  have result := last.result
  rw [rendered] at sink result
  simp only [Except.map, writing] at sink result
  cases answered.symm.trans result
  have taken := Destination.course_received course.course
  rw [sink] at taken
  cases taken
  refine ⟨rendered, last.self, ?_, course⟩
  rw [replied, Sent.written, Reply.map, result, sink]
  rfl

end Stencil
