import Stencil.Host

set_option autoImplicit false

namespace Stencil.Host

variable {σ : Type}

-- Between two calls anything may happen to the world, so a visit names the one that its call finds. A run in which
-- nothing else happens is one whose visits find what the visits before them left.
structure Visit (σ : Type) where
  call : Call σ
  world : σ

def welcome (host : Host) (visit : Visit σ) : Served σ := host.serve visit.world visit.call

def attend (host : Host) (visits : List (Visit σ)) : Host :=
  visits.foldl (fun host visit => (host.welcome visit).host) host

inductive Part where
  | compilers
  | tuners
  | flatteners
deriving DecidableEq, Repr

def Call.part : Call σ → Part
  | .compile _ _ | .compileTo _ _ _ | .compileConfig _ _ | .compiler _ | .held _ _ _ | .resetCompile _ => .compilers
  | .tune _ _ | .tuneTo _ _ _ | .tuneConfig _ _ | .tuner _ | .resetTune _ => .tuners
  | .flatten _ _ | .flattenTo _ _ _ | .resetFlatten _ => .flatteners

theorem flattenWith_frame (host : Host) (id : String) (root : Node σ) (answer : Bytes → Answer) (world : σ) :
    (host.flattenWith id root answer world).host.compilers = host.compilers ∧
      (host.flattenWith id root answer world).host.tuners = host.tuners := by
  rw [flattenWith]
  cases host.flatteners.find? id with
  | some flattener => exact ⟨rfl, rfl⟩
  | none =>
      simp only
      cases Flattener.attempt root world with
      | refused error => exact ⟨rfl, rfl⟩
      | faulted message left => exact ⟨rfl, rfl⟩
      | flattened flattener left => exact ⟨rfl, rfl⟩

theorem serve_compilers (host : Host) (world : σ) (call : Call σ) (other : call.part ≠ .compilers) :
    (host.serve world call).host.compilers = host.compilers := by
  cases call with
  | compile _ _ | compileTo _ _ _ | compileConfig _ _ | compiler _ | held _ _ _ | resetCompile _ => exact absurd rfl other
  | tune _ _ | tuneTo _ _ _ | tuneConfig _ _ | tuner _ | resetTune _ | resetFlatten _ => rfl
  | flatten id root => exact (flattenWith_frame host id root _ world).1
  | flattenTo id root destination => exact (flattenWith_frame host id root _ world).1

theorem serve_tuners (host : Host) (world : σ) (call : Call σ) (other : call.part ≠ .tuners) :
    (host.serve world call).host.tuners = host.tuners := by
  cases call with
  | tune _ _ | tuneTo _ _ _ | tuneConfig _ _ | tuner _ | resetTune _ => exact absurd rfl other
  | compile _ _ | compileTo _ _ _ | compileConfig _ _ | compiler _ | held _ _ _ | resetCompile _ | resetFlatten _ => rfl
  | flatten id root => exact (flattenWith_frame host id root _ world).2
  | flattenTo id root destination => exact (flattenWith_frame host id root _ world).2

theorem serve_flatteners (host : Host) (world : σ) (call : Call σ) (other : call.part ≠ .flatteners) :
    (host.serve world call).host.flatteners = host.flatteners := by
  cases call with
  | flatten _ _ | flattenTo _ _ _ | resetFlatten _ => exact absurd rfl other
  | tune _ _ | tuneTo _ _ _ | tuneConfig _ _ | tuner _ | resetTune _ => rfl
  | compile _ _ | compileTo _ _ _ | compileConfig _ _ | compiler _ | held _ _ _ | resetCompile _ => rfl

end Stencil.Host
