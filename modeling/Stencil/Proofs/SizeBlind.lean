import Stencil.Proofs.CallRecord
import Stencil.Proofs.Delivery

set_option autoImplicit false

namespace Stencil

variable {ι τ κ σ α : Type}

structure Service (ι τ κ σ α : Type) where
  serve : ι → Pool → σ → τ → Reply ι σ α
  content : τ → Bool
  basis : ι → κ

structure Sight (κ σ α : Type) where
  result : Except String α
  basis : κ
  world : σ

namespace Service

def sight (service : Service ι τ κ σ α) (self : ι) (pool : Pool) (world : σ) (step : τ) : Sight κ σ α :=
  let reply := service.serve self pool world step
  ⟨reply.result, service.basis reply.self, reply.world⟩

-- Each step comes with the pool that it finds, so pools may be shared, and replaced, in any way.
def sights (service : Service ι τ κ σ α) : ι → σ → List (Pool × τ) → List (Sight κ σ α)
  | _, _, [] => []
  | self, world, (pool, step) :: later =>
      let reply := service.serve self pool world step
      let onward := service.sights reply.self reply.world later
      if service.content step then service.sight self pool world step :: onward else onward

def contents (service : Service ι τ κ σ α) (steps : List (Pool × τ)) : List τ :=
  (steps.map Prod.snd).filter service.content

structure SizeBlind (service : Service ι τ κ σ α) : Prop where
  same : ∀ self other, service.basis self = service.basis other → ∀ pool spare world step, service.content step = true →
    service.sight self pool world step = service.sight other spare world step
  idle : ∀ self pool world step, service.content step = false →
    service.basis (service.serve self pool world step).self = service.basis self ∧
      (service.serve self pool world step).world = world

-- The run is followed by one that has its content only, and always finds an empty pool.
theorem sights_contents (service : Service ι τ κ σ α) (blind : service.SizeBlind) (self other : ι)
    (alike : service.basis self = service.basis other) (world : σ) (steps : List (Pool × τ)) :
    service.sights self world steps =
      service.sights other world ((service.contents steps).map fun step => (.empty, step)) := by
  induction steps generalizing self other world with
  | nil => rfl
  | cons entry later ih =>
      obtain ⟨pool, step⟩ := entry
      rw [sights, contents, List.map_cons, List.filter_cons]
      cases about : service.content step with
      | false =>
          obtain ⟨basis, left⟩ := blind.idle self pool world step about
          rw [if_neg Bool.false_ne_true, if_neg Bool.false_ne_true, left]
          exact ih _ other (basis.trans alike) world
      | true =>
          have same := blind.same self other alike pool .empty world step about
          have basis : service.basis (service.serve self pool world step).self =
              service.basis (service.serve other .empty world step).self := congrArg Sight.basis same
          have left : (service.serve self pool world step).world = (service.serve other .empty world step).world :=
            congrArg Sight.world same
          rw [if_pos rfl, if_pos rfl, List.map_cons, sights, if_pos about, same, left]
          exact congrArg (_ :: ·) (ih _ _ basis _)

theorem sights_alike (service : Service ι τ κ σ α) (blind : service.SizeBlind) (self other : ι)
    (alike : service.basis self = service.basis other) (world : σ) (steps others : List (Pool × τ))
    (same : service.contents steps = service.contents others) :
    service.sights self world steps = service.sights other world others := by
  rw [sights_contents service blind self other alike world steps, same,
    ← sights_contents service blind other other rfl world others]

end Service

def Compiler.Step.content : Compiler.Step σ → Bool
  | .render _ | .renderTo _ _ | .validate _ | .plan => true
  | .configure _ | .config | .sizer _ => false

def Tuner.Step.content : Tuner.Step σ → Bool
  | .render _ | .renderTo _ _ => true
  | .configure _ | .reset | .sizer _ => false

-- The content of a compiler's renderings rests on its plan, and that of a tuner's on nothing that it keeps.
def Service.compilers (σ : Type) : Service Compiler (Compiler.Step σ) (Option Plan) σ Compiler.Answer :=
  ⟨Compiler.step, Compiler.Step.content, Compiler.plan⟩

def Service.tuners (σ : Type) : Service Tuner (Tuner.Step σ) Unit σ Tuner.Answer :=
  ⟨Tuner.step, Tuner.Step.content, fun _ => ()⟩

namespace Compiler

theorem sight_renders (compiler : Compiler) (pool : Pool) (world : σ) (step : Step σ) (root : Node σ)
    (asked : step.root? = some root) :
    (Service.compilers σ).sight compiler pool world step =
      let rehearsal := rehearse compiler.plan root world
      ⟨(rehearsal.perform root).result.map step.deliver, rehearsal.kept, (rehearsal.perform root).world⟩ := by
  obtain ⟨result, left, kept, _⟩ := reply_renders compiler ⟨step, pool, world⟩ root asked
  exact congr (congr (congrArg Sight.mk result) kept) left

theorem size_blind : (Service.compilers σ).SizeBlind where
  same compiler other alike pool spare world step about := by
    replace alike : compiler.plan = other.plan := alike
    cases step with
    | render root =>
        rw [sight_renders compiler pool world _ root rfl, sight_renders other spare world _ root rfl, alike]
    | renderTo root destination =>
        rw [sight_renders compiler pool world _ root rfl, sight_renders other spare world _ root rfl, alike]
    | validate root =>
        simp only [Service.sight, Service.compilers, step, validate, alike]
    | plan => simp only [Service.sight, Service.compilers, step, alike]
    | configure config => cases about
    | config => cases about
    | sizer request => cases about
  idle compiler pool world step about := by
    cases step with
    | configure config => exact ⟨rfl, rfl⟩
    | config => exact ⟨rfl, rfl⟩
    | sizer request => exact ⟨rfl, rfl⟩
    | render root => cases about
    | renderTo root destination => cases about
    | validate root => cases about
    | plan => cases about

end Compiler

namespace Tuner

structure Direct (root : Node σ) (world : σ) (reply : Reply Tuner σ α) (deliver : Bytes → α) : Prop where
  result : reply.result = (root.render world).result.map deliver
  world : reply.world = (root.render world).world

theorem render_direct (tuner : Tuner) (pool : Pool) (root : Node σ) (world : σ) :
    Direct root world (tuner.render pool root world) id where
  result := by
    rw [render_result]
    cases (root.render world).result <;> rfl
  world := render_world tuner pool root world

theorem renderTo_direct (tuner : Tuner) (pool : Pool) (root : Node σ) (destination : Destination) (world : σ) :
    Direct root world (tuner.renderTo pool root destination world) destination.writeAll := by
  have last := tuner.renderInto_writes_last pool root Destination.writer destination.opened world
  refine ⟨?_, last.world.trans (render_world tuner pool root world)⟩
  rw [renderTo, Sent.written_result last, render_result]

theorem size_blind : (Service.tuners σ).SizeBlind where
  same tuner other _ pool spare world step about := by
    cases step with
    | render root =>
        have one := render_direct tuner pool root world
        have two := render_direct other spare root world
        simp only [Service.sight, Service.tuners, step, Reply.map, one.result, one.world, two.result, two.world]
    | renderTo root destination =>
        have one := renderTo_direct tuner pool root destination world
        have two := renderTo_direct other spare root destination world
        simp only [Service.sight, Service.tuners, step, Reply.map, one.result, one.world, two.result, two.world]
    | configure config => cases about
    | reset => cases about
    | sizer request => cases about
  idle tuner pool world step about := by
    cases step with
    | configure config => exact ⟨rfl, rfl⟩
    | reset => exact ⟨rfl, rfl⟩
    | sizer request => exact ⟨rfl, rfl⟩
    | render root => cases about
    | renderTo root destination => cases about

end Tuner

theorem sizing_never_changes_content (world : σ) :
    (∀ (compiler other : Compiler) (steps others : List (Pool × Compiler.Step σ)), compiler.plan = other.plan →
        (Service.compilers σ).contents steps = (Service.compilers σ).contents others →
        (Service.compilers σ).sights compiler world steps = (Service.compilers σ).sights other world others) ∧
      (∀ (tuner other : Tuner) (steps others : List (Pool × Tuner.Step σ)),
        (Service.tuners σ).contents steps = (Service.tuners σ).contents others →
        (Service.tuners σ).sights tuner world steps = (Service.tuners σ).sights other world others) ∧
      ∀ (tuner : Tuner) (pool : Pool) (root : Node σ), Tuner.Direct root world (tuner.render pool root world) id ∧
        ∀ destination : Destination,
          Tuner.Direct root world (tuner.renderTo pool root destination world) destination.writeAll := by
  refine ⟨?compilers, ?tuners, ?direct⟩
  case compilers =>
    intro compiler other steps others alike same
    exact Service.sights_alike _ Compiler.size_blind compiler other alike world steps others same
  case tuners =>
    intro tuner other steps others same
    exact Service.sights_alike _ Tuner.size_blind tuner other rfl world steps others same
  case direct =>
    intro tuner pool root
    exact ⟨tuner.render_direct pool root world, fun destination => tuner.renderTo_direct pool root destination world⟩

def counting : Node (Recorded Nat) :=
  Node.recorded 0 [] (.fragment [.custom false none (.write [35]) [],
    .custom true none (fun count => ⟨[UInt8.ofNat count], count + 1, none⟩) []])

def untouched : List (Pool × Compiler.Step (Recorded Nat)) :=
  [(.empty, .render counting), (.empty, .validate counting), (.empty, .plan)]

def tampered : List (Pool × Compiler.Step (Recorded Nat)) :=
  [(.empty, .configure ⟨0, ⟨1, 0, 300⟩⟩), (⟨[⟨4, [], 64⟩], 5⟩, .render counting), (.empty, .sizer (.update 900)),
    (.empty, .validate counting), (.empty, .sizer .reset), (.empty, .config), (.empty, .plan)]

theorem tampered_runs_see_the_same :
    let plan : Plan := ⟨[.static [35], .dynamic [1]]⟩
    let after : Recorded Nat := ⟨2, [(0, .render [0]), (0, .render [1]), (0, .render [1])]⟩
    (Service.compilers _).sights (.ofConfig ⟨90, ⟨2, 50, 100⟩⟩) ⟨0, []⟩ tampered =
        [⟨.ok (.rendered [35, 1]), some plan, after⟩, ⟨.ok (.validated (.ok ())), some plan, after⟩,
          ⟨.ok (.planned (some plan)), some plan, after⟩] ∧
      (Service.tuners _).sights (.ofConfig .standard) ⟨0, []⟩
          [(.empty, .configure ⟨0, 0, 0⟩), (.empty, .render counting), (.empty, .reset)] =
        [⟨.ok (.rendered [35, 0]), (), ⟨1, [(0, .render [])]⟩⟩] := by
  obtain ⟨compilers, tuners, _⟩ := sizing_never_changes_content (⟨0, []⟩ : Recorded Nat)
  refine ⟨?compiler, ?tuner⟩
  case compiler =>
    exact (compilers (.ofConfig ⟨90, ⟨2, 50, 100⟩⟩) (.ofConfig .standard) tampered untouched rfl rfl).trans (by rfl)
  case tuner =>
    exact (tuners (.ofConfig .standard) (.ofConfig .standard) _ [(.empty, .render counting)] rfl).trans (by rfl)

end Stencil
