import Stencil.Proofs.CompilerTurn
import Stencil.Proofs.Members

set_option autoImplicit false

namespace Stencil

variable {ι κ σ α : Type}

def Reply.unpooled (reply : Reply ι σ α) : Reply ι σ α := { reply with pool := .empty }

theorem Compiler.compile_any_pool (compiler : Compiler) (pool other : Pool) (root : Node σ) (world : σ) :
    (compiler.compile pool root world).unpooled = (compiler.compile other root world).unpooled := by
  simp only [compile]
  cases (Plan.build root world).plan with
  | error message => rfl
  | ok plan =>
      simp only
      cases (plan.execute root (Plan.build root world).world).fault with
      | some message => rfl
      | none => rfl

theorem Compiler.planFor_any_pool (compiler : Compiler) (pool other : Pool) (root : Node σ) (world : σ) :
    (compiler.planFor pool root world).unpooled = (compiler.planFor other root world).unpooled := by
  simp only [planFor]
  cases compiler.plan with
  | some plan => rfl
  | none => exact compiler.compile_any_pool pool other root world

theorem Compiler.render_any_pool (compiler : Compiler) (pool other : Pool) (root : Node σ) (world : σ) :
    (compiler.render pool root world).unpooled = (compiler.render other root world).unpooled := by
  have same := compiler.planFor_any_pool pool other root world
  simp only [render]
  generalize compiler.planFor pool root world = planned at *
  generalize compiler.planFor other root world = others at *
  obtain ⟨self, pool, left, events, result⟩ := planned
  obtain ⟨_, other, _, _, _⟩ := others
  cases same
  cases result with
  | error message => rfl
  | ok plan =>
      simp only
      cases (plan.execute root left).fault with
      | some message => rfl
      | none => rfl

theorem Compiler.renderTo_any_pool (compiler : Compiler) (pool other : Pool) (root : Node σ)
    (destination : Destination) (world : σ) :
    (compiler.renderTo pool root destination world).unpooled =
      (compiler.renderTo other root destination world).unpooled := by
  have plain := compiler.render_any_pool pool other root world
  simp only [Reply.unpooled, Reply.mk.injEq, true_and] at plain ⊢
  obtain ⟨self, left, events, result⟩ := plain
  obtain ⟨oneResult, oneWorld, oneSelf, oneEvents⟩ := compiler.renderTo_as_render pool root destination world
  obtain ⟨twoResult, twoWorld, twoSelf, twoEvents⟩ := compiler.renderTo_as_render other root destination world
  refine ⟨?_, ?_, ?_, ?_⟩
  · rw [oneSelf, self, twoSelf]
  · rw [oneWorld, left, twoWorld]
  · rw [oneEvents, events, twoEvents]
  · rw [oneResult, result, twoResult]

theorem Tuner.render_any_pool (tuner : Tuner) (pool other : Pool) (root : Node σ) (world : σ) :
    (tuner.render pool root world).unpooled = (tuner.render other root world).unpooled := by
  simp only [render]
  cases (root.render world).fault with
  | some message => rfl
  | none => rfl

theorem Tuner.renderTo_any_pool (tuner : Tuner) (pool other : Pool) (root : Node σ) (destination : Destination)
    (world : σ) :
    (tuner.renderTo pool root destination world).unpooled = (tuner.renderTo other root destination world).unpooled := by
  simp only [renderTo, renderInto]
  cases (root.render world).fault with
  | some message => rfl
  | none => rfl

inductive Request (σ : Type) where
  | render (root : Node σ)
  | renderTo (root : Node σ) (destination : Destination)
  | look

inductive Demand (κ σ : Type) where
  | ask (request : Request σ)
  | configure (config : κ)
  | reset

structure Response (σ : Type) where
  world : σ
  events : List Event
  result : Except String Host.Answer

def Reply.response (reply : Reply ι σ Host.Answer) : Response σ := ⟨reply.world, reply.events, reply.result⟩

structure Kind (ι κ σ : Type) where
  standard : κ
  ofConfig : κ → ι
  render : ι → Pool → Node σ → σ → Reply ι σ Bytes
  renderTo : ι → Pool → Node σ → Destination → σ → Reply ι σ Written
  shown : ι → Host.Answer

-- Handles number the instances of a host; one on its own is shown under the number zero.
def Kind.compilers : Kind Compiler CompilerConfig σ :=
  ⟨.standard, .ofConfig, Compiler.render, Compiler.renderTo, .compiler 0⟩

def Kind.tuners : Kind Tuner SizerConfig σ := ⟨.standard, .ofConfig, Tuner.render, Tuner.renderTo, .tuner 0⟩

structure Alone (ι : Type) where
  self : Option ι
  pool : Pool

def Alone.start : Alone ι := ⟨none, .empty⟩

namespace Kind

variable (kind : Kind ι κ σ)

def serve (self : ι) (pool : Pool) (world : σ) : Request σ → Reply ι σ Host.Answer
  | .render root => (kind.render self pool root world).map .rendered
  | .renderTo root destination => (kind.renderTo self pool root destination world).map .written
  | .look => ⟨self, pool, world, [], .ok (kind.shown self)⟩

def meet (alone : Alone ι) (world : σ) : Demand κ σ → Alone ι × Response σ
  | .ask request =>
      let reply := kind.serve (alone.self.getD (kind.ofConfig kind.standard)) alone.pool world request
      (⟨some reply.self, reply.pool⟩, reply.response)
  | .configure config =>
      let fresh := kind.ofConfig config
      (⟨some fresh, alone.pool⟩, ⟨world, [], .ok (kind.shown fresh)⟩)
  | .reset => (⟨none, alone.pool⟩, ⟨world, [], .ok .done⟩)

def responses (alone : Alone ι) : List (Demand κ σ × σ) → List (Response σ)
  | [] => []
  | (demand, world) :: later =>
      let met := kind.meet alone world demand
      met.2 :: responses met.1 later

def AnyPool : Prop :=
  ∀ self pool other world request,
    (kind.serve self pool world request).unpooled = (kind.serve self other world request).unpooled

end Kind

theorem map_unpooled {β : Type} (f : α → β) (first second : Reply ι σ α) (same : first.unpooled = second.unpooled) :
    (first.map f).unpooled = (second.map f).unpooled := congrArg (Reply.map f) same

theorem Kind.compilers_any_pool : (Kind.compilers : Kind Compiler CompilerConfig σ).AnyPool := by
  intro compiler pool other world request
  cases request with
  | render root => exact map_unpooled _ _ _ (compiler.render_any_pool pool other root world)
  | renderTo root destination => exact map_unpooled _ _ _ (compiler.renderTo_any_pool pool other root destination world)
  | look => rfl

theorem Kind.tuners_any_pool : (Kind.tuners : Kind Tuner SizerConfig σ).AnyPool := by
  intro tuner pool other world request
  cases request with
  | render root => exact map_unpooled _ _ _ (tuner.render_any_pool pool other root world)
  | renderTo root destination => exact map_unpooled _ _ _ (tuner.renderTo_any_pool pool other root destination world)
  | look => rfl

end Stencil
