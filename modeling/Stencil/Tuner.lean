import Stencil.Growth
import Stencil.Reply
import Stencil.Sizer

set_option autoImplicit false

namespace Stencil

structure Tuner where
  sizer : Sizer
deriving DecidableEq, Repr

namespace Tuner

variable {σ : Type}

def ofConfig (config : SizerConfig) : Tuner := ⟨.ofConfig config⟩

def configure (config : SizerConfig) (tuner : Tuner) : Tuner := ⟨tuner.sizer.configure config⟩

def reset (tuner : Tuner) : Tuner := ⟨tuner.sizer.reset⟩

def config (tuner : Tuner) : SizerConfig := tuner.sizer.config

def render (tuner : Tuner) (pool : Pool) (root : Node σ) (world : σ) : Reply Tuner σ Bytes :=
  let live := root.render world
  match live.fault with
  | some message => ⟨tuner, pool, live.world, [], .error message⟩
  | none =>
      let after := tuner.sizer.update (Sizer.measure live.out)
      ⟨⟨after.1⟩, pool, live.world, after.2, .ok live.out⟩

def renderInto {δ ε : Type} (tuner : Tuner) (pool : Pool) (root : Node σ) (writer : Writer δ ε) (sink : δ)
    (world : σ) : Sent Tuner σ δ ε :=
  let live := root.render world
  let pool := pool.use tuner.sizer.baseline.toNat live.out (root.grow world)
  match live.fault with
  | some message => ⟨⟨tuner, pool, live.world, [], .error message⟩, sink⟩
  | none =>
      let after := tuner.sizer.update (Sizer.measure live.out)
      let delivery := writer.writeAll live.out sink
      ⟨⟨⟨after.1⟩, pool, live.world, after.2, .ok delivery.error⟩, delivery.sink⟩

def renderTo (tuner : Tuner) (pool : Pool) (root : Node σ) (destination : Destination) (world : σ) :
    Reply Tuner σ Written :=
  (tuner.renderInto pool root Destination.writer destination.opened world).written

theorem render_result (tuner : Tuner) (pool : Pool) (root : Node σ) (world : σ) :
    (tuner.render pool root world).result = (root.render world).result := by
  rw [render, Outcome.result]
  cases (root.render world).fault <;> rfl

theorem render_world (tuner : Tuner) (pool : Pool) (root : Node σ) (world : σ) :
    (tuner.render pool root world).world = (root.render world).world := by
  rw [render]
  cases (root.render world).fault <;> rfl

theorem renderInto_writes_last {δ ε : Type} (tuner : Tuner) (pool : Pool) (root : Node σ) (writer : Writer δ ε)
    (sink : δ) (world : σ) :
    Sent.WritesLast (tuner.render pool root world) writer sink (tuner.renderInto pool root writer sink world) := by
  simp only [render, renderInto]
  cases (root.render world).fault with
  | some message => exact ⟨rfl, rfl, rfl, rfl, rfl⟩
  | none => exact ⟨rfl, rfl, rfl, rfl, rfl⟩

inductive Step (σ : Type) where
  | render (root : Node σ)
  | renderTo (root : Node σ) (destination : Destination)
  | configure (config : SizerConfig)
  | reset
  | sizer (step : Sizer.Step)

inductive Answer where
  | rendered (bytes : Bytes)
  | written (written : Written)
  | configured (config : SizerConfig)
  | done

def step (tuner : Tuner) (pool : Pool) (world : σ) : Step σ → Reply Tuner σ Answer
  | .render root => (tuner.render pool root world).map .rendered
  | .renderTo root destination => (tuner.renderTo pool root destination world).map .written
  | .configure config =>
      let after := tuner.configure config
      ⟨after, pool, world, [], .ok (.configured after.config)⟩
  | .reset => ⟨tuner.reset, pool, world, [], .ok .done⟩
  | .sizer step =>
      let after := tuner.sizer.step step
      ⟨⟨after.1⟩, pool, world, after.2, .ok .done⟩

end Tuner

end Stencil
