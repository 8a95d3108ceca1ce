import Stencil.Growth
import Stencil.Plan.Build
import Stencil.Reply
import Stencil.Sizer

set_option autoImplicit false

namespace Stencil

structure Compiler where
  plan : Option Plan
  sizer : Sizer
  updateThreshold : UInt32
deriving DecidableEq, Repr

namespace Compiler

variable {σ : Type}

def ofConfig (config : CompilerConfig) : Compiler := ⟨none, .ofConfig config.sizer, config.updateThreshold⟩

def configure (config : CompilerConfig) (compiler : Compiler) : Compiler :=
  { compiler with sizer := compiler.sizer.configure config.sizer, updateThreshold := config.updateThreshold }

def config (compiler : Compiler) : CompilerConfig := ⟨compiler.updateThreshold, compiler.sizer.config⟩

def isCompiled (compiler : Compiler) : Bool := compiler.plan.isSome

def sized (after : Sizer × List Event) (compiler : Compiler) : Compiler := { compiler with sizer := after.1 }

def observe (predicted actual : UInt64) (compiler : Compiler) : Sizer × List Event :=
  if predicted = 0 || deviates predicted actual compiler.updateThreshold then compiler.sizer.update actual
  else (compiler.sizer, [])

-- Builds a plan, plays it once into a pooled buffer and seeds the sizer with the size. Only if nothing
-- faults is the plan kept; the buffer goes back in any case.
def compile (compiler : Compiler) (pool : Pool) (root : Node σ) (world : σ) : Reply Compiler σ Plan :=
  let built := Plan.build root world
  match built.plan with
  | .error message => ⟨compiler, pool, built.world, built.events, .error message⟩
  | .ok plan =>
      let seed := plan.execute root built.world
      let pool := pool.use plan.staticLength seed.out (plan.grow root built.world)
      let events := built.events ++ seed.events
      match seed.fault with
      | some message => ⟨compiler, pool, seed.world, events, .error message⟩
      | none =>
          let after := compiler.sizer.update (Sizer.measure seed.out)
          ⟨{ compiler with plan := some plan, sizer := after.1 }, pool, seed.world, events ++ after.2, .ok plan⟩

def planFor (compiler : Compiler) (pool : Pool) (root : Node σ) (world : σ) : Reply Compiler σ Plan :=
  match compiler.plan with
  | some plan => ⟨compiler, pool, world, [], .ok plan⟩
  | none => compiler.compile pool root world

def render (compiler : Compiler) (pool : Pool) (root : Node σ) (world : σ) : Reply Compiler σ Bytes :=
  let planned := compiler.planFor pool root world
  match planned.result with
  | .error message => { planned with result := .error message }
  | .ok plan =>
      let live := plan.execute root planned.world
      match live.fault with
      | some message =>
          { planned with world := live.world, events := planned.events ++ live.events, result := .error message }
      | none =>
          let after := planned.self.observe planned.self.sizer.baseline (Sizer.measure live.out)
          ⟨planned.self.sized after, planned.pool, live.world, planned.events ++ live.events ++ after.2, .ok live.out⟩

def renderInto {δ ε : Type} (compiler : Compiler) (pool : Pool) (root : Node σ) (writer : Writer δ ε) (sink : δ)
    (world : σ) : Sent Compiler σ δ ε :=
  let planned := compiler.planFor pool root world
  match planned.result with
  | .error message => ⟨{ planned with result := .error message }, sink⟩
  | .ok plan =>
      let predicted := planned.self.sizer.baseline
      let live := plan.execute root planned.world
      let pool := planned.pool.use predicted.toNat live.out (plan.grow root planned.world)
      match live.fault with
      | some message =>
          ⟨⟨planned.self, pool, live.world, planned.events ++ live.events, .error message⟩, sink⟩
      | none =>
          let after := planned.self.observe predicted (Sizer.measure live.out)
          let delivery := writer.writeAll live.out sink
          ⟨⟨planned.self.sized after, pool, live.world, planned.events ++ live.events ++ after.2, .ok delivery.error⟩,
            delivery.sink⟩

def renderTo (compiler : Compiler) (pool : Pool) (root : Node σ) (destination : Destination) (world : σ) :
    Reply Compiler σ Written :=
  (compiler.renderInto pool root Destination.writer destination.opened world).written

theorem renderInto_writes_last {δ ε : Type} (compiler : Compiler) (pool : Pool) (root : Node σ) (writer : Writer δ ε)
    (sink : δ) (world : σ) :
    Sent.WritesLast (compiler.render pool root world) writer sink
      (compiler.renderInto pool root writer sink world) := by
  simp only [renderInto, render]
  cases (compiler.planFor pool root world).result with
  | error message => exact ⟨rfl, rfl, rfl, rfl, rfl⟩
  | ok plan =>
      simp only
      cases (plan.execute root (compiler.planFor pool root world).world).fault with
      | some message => exact ⟨rfl, rfl, rfl, rfl, rfl⟩
      | none => exact ⟨rfl, rfl, rfl, rfl, rfl⟩

def validate (compiler : Compiler) (root : Node σ) : Except Error Unit :=
  match compiler.plan with
  | some plan => plan.validate root
  | none => .ok ()

inductive Step (σ : Type) where
  | render (root : Node σ)
  | renderTo (root : Node σ) (destination : Destination)
  | validate (root : Node σ)
  | configure (config : CompilerConfig)
  | config
  | plan
  | sizer (step : Sizer.Step)

inductive Answer where
  | rendered (bytes : Bytes)
  | written (written : Written)
  | validated (verdict : Except Error Unit)
  | configured (config : CompilerConfig)
  | planned (plan : Option Plan)
  | done

def step (compiler : Compiler) (pool : Pool) (world : σ) : Step σ → Reply Compiler σ Answer
  | .render root => (compiler.render pool root world).map .rendered
  | .renderTo root destination => (compiler.renderTo pool root destination world).map .written
  | .validate root => ⟨compiler, pool, world, [], .ok (.validated (compiler.validate root))⟩
  | .configure config =>
      let after := compiler.configure config
      ⟨after, pool, world, [], .ok (.configured after.config)⟩
  | .config => ⟨compiler, pool, world, [], .ok (.configured compiler.config)⟩
  | .plan => ⟨compiler, pool, world, [], .ok (.planned compiler.plan)⟩
  | .sizer step =>
      let after := compiler.sizer.step step
      ⟨compiler.sized after, pool, world, after.2, .ok .done⟩

end Compiler

end Stencil
