import Stencil.Compiler
import Stencil.Flattener
import Stencil.Registry
import Stencil.Tuner

set_option autoImplicit false

namespace Stencil

-- Instances with an identity. An instance that leaves the registry lives on for those who hold its
-- handle, which is its position among all instances ever made.
structure Family (ι : Type) where
  registry : Directory Nat
  instances : List ι

namespace Family

variable {ι : Type}

def empty : Family ι := ⟨.empty, []⟩

def register (id : String) (fresh : ι) (family : Family ι) : Nat × Family ι :=
  let handle := family.instances.length
  (handle, ⟨family.registry.insert id handle, family.instances ++ [fresh]⟩)

def obtain (id : String) (fresh : ι) (family : Family ι) : Nat × Family ι :=
  let obtained := Directory.registry.obtainWith id (.alone family.instances.length) family.registry
  (obtained.value,
    ⟨obtained.store, if obtained.created then family.instances ++ [fresh] else family.instances⟩)

def reset (ids : List String) (family : Family ι) : Family ι :=
  { family with registry := Directory.registry.reset ids family.registry }

def get? (handle : Nat) (family : Family ι) : Option ι := family.instances[handle]?

def put (handle : Nat) (self : ι) (family : Family ι) : Family ι :=
  { family with instances := family.instances.set handle self }

end Family

structure Host where
  compilers : Family Compiler
  tuners : Family Tuner
  flatteners : Directory Flattener
  pool : Pool

namespace Host

variable {σ α : Type}

def empty : Host := ⟨.empty, .empty, .empty, .empty⟩

inductive Answer where
  | rendered (bytes : Bytes)
  | written (written : Written)
  | compiler (handle : Nat) (self : Compiler)
  | tuner (handle : Nat) (self : Tuner)
  | held (registered : Bool) (bytes : Bytes) (self : Compiler)
  | done

structure Served (σ : Type) where
  host : Host
  world : σ
  events : List Event
  result : Except String Answer

def compilerAt (handle : Nat) (host : Host) : Compiler := (host.compilers.get? handle).getD (.ofConfig .standard)

def tunerAt (handle : Nat) (host : Host) : Tuner := (host.tuners.get? handle).getD (.ofConfig .standard)

def compiler (id : String) (host : Host) : Nat × Host :=
  let obtained := host.compilers.obtain id (.ofConfig .standard)
  (obtained.1, { host with compilers := obtained.2 })

def tuner (id : String) (host : Host) : Nat × Host :=
  let obtained := host.tuners.obtain id (.ofConfig .standard)
  (obtained.1, { host with tuners := obtained.2 })

def compileConfig (id : String) (config : CompilerConfig) (host : Host) : Nat × Host :=
  let registered := host.compilers.register id (.ofConfig config)
  (registered.1, { host with compilers := registered.2 })

def tuneConfig (id : String) (config : SizerConfig) (host : Host) : Nat × Host :=
  let registered := host.tuners.register id (.ofConfig config)
  (registered.1, { host with tuners := registered.2 })

def resetCompile (ids : List String) (host : Host) : Host := { host with compilers := host.compilers.reset ids }

def resetTune (ids : List String) (host : Host) : Host := { host with tuners := host.tuners.reset ids }

def resetFlatten (ids : List String) (host : Host) : Host :=
  { host with flatteners := Directory.registry.reset ids host.flatteners }

def afterCompiler (handle : Nat) (reply : Reply Compiler σ α) (answer : α → Answer) (host : Host) : Served σ :=
  ⟨{ host with compilers := host.compilers.put handle reply.self, pool := reply.pool }, reply.world, reply.events,
    reply.result.map answer⟩

def afterTuner (handle : Nat) (reply : Reply Tuner σ α) (answer : α → Answer) (host : Host) : Served σ :=
  ⟨{ host with tuners := host.tuners.put handle reply.self, pool := reply.pool }, reply.world, reply.events,
    reply.result.map answer⟩

def compile (id : String) (root : Node σ) (host : Host) (world : σ) : Served σ :=
  let found := host.compiler id
  found.2.afterCompiler found.1 ((found.2.compilerAt found.1).render found.2.pool root world) .rendered

def compileTo (id : String) (root : Node σ) (destination : Destination) (host : Host) (world : σ) : Served σ :=
  let found := host.compiler id
  found.2.afterCompiler found.1 ((found.2.compilerAt found.1).renderTo found.2.pool root destination world) .written

def tune (id : String) (root : Node σ) (host : Host) (world : σ) : Served σ :=
  let found := host.tuner id
  found.2.afterTuner found.1 ((found.2.tunerAt found.1).render found.2.pool root world) .rendered

def tuneTo (id : String) (root : Node σ) (destination : Destination) (host : Host) (world : σ) : Served σ :=
  let found := host.tuner id
  found.2.afterTuner found.1 ((found.2.tunerAt found.1).renderTo found.2.pool root destination world) .written

def held (handle : Nat) (id : String) (root : Node σ) (host : Host) (world : σ) : Served σ :=
  let found := host.compiler id
  let reply := (found.2.compilerAt handle).render found.2.pool root world
  found.2.afterCompiler handle reply fun bytes => .held (found.1 == handle) bytes reply.self

-- Serves the bytes registered under an id, or else flattens the tree and registers it. A tree that
-- cannot be flattened is rendered directly, and nothing is registered.
def flattenWith (id : String) (root : Node σ) (answer : Bytes → Answer) (host : Host) (world : σ) : Served σ :=
  match host.flatteners.find? id with
  | some flattener => ⟨host, world, [], .ok (answer flattener.render)⟩
  | none =>
      match Flattener.attempt root world with
      | .refused error =>
          let live := root.render world
          ⟨host, live.world, [.notFlattenable id error], live.result.map answer⟩
      | .faulted message world => ⟨host, world, [], .error message⟩
      | .flattened flattener world =>
          let obtained := Directory.registry.obtainWith id (.alone flattener) host.flatteners
          ⟨{ host with flatteners := obtained.store }, world, obtained.events, .ok (answer obtained.value.render)⟩

def flatten (id : String) (root : Node σ) (host : Host) (world : σ) : Served σ :=
  host.flattenWith id root .rendered world

def flattenTo (id : String) (root : Node σ) (destination : Destination) (host : Host) (world : σ) : Served σ :=
  host.flattenWith id root (fun bytes => .written (destination.writeAll bytes)) world

inductive Call (σ : Type) where
  | compile (id : String) (root : Node σ)
  | compileTo (id : String) (root : Node σ) (destination : Destination)
  | compileConfig (id : String) (config : CompilerConfig)
  | compiler (id : String)
  | held (handle : Nat) (id : String) (root : Node σ)
  | resetCompile (ids : List String)
  | tune (id : String) (root : Node σ)
  | tuneTo (id : String) (root : Node σ) (destination : Destination)
  | tuneConfig (id : String) (config : SizerConfig)
  | tuner (id : String)
  | resetTune (ids : List String)
  | flatten (id : String) (root : Node σ)
  | flattenTo (id : String) (root : Node σ) (destination : Destination)
  | resetFlatten (ids : List String)

def serve (host : Host) (world : σ) : Call σ → Served σ
  | .compile id root => host.compile id root world
  | .compileTo id root destination => host.compileTo id root destination world
  | .compileConfig id config =>
      let registered := host.compileConfig id config
      ⟨registered.2, world, [], .ok (.compiler registered.1 (registered.2.compilerAt registered.1))⟩
  | .compiler id =>
      let found := host.compiler id
      ⟨found.2, world, [], .ok (.compiler found.1 (found.2.compilerAt found.1))⟩
  | .held handle id root => host.held handle id root world
  | .resetCompile ids => ⟨host.resetCompile ids, world, [], .ok .done⟩
  | .tune id root => host.tune id root world
  | .tuneTo id root destination => host.tuneTo id root destination world
  | .tuneConfig id config =>
      let registered := host.tuneConfig id config
      ⟨registered.2, world, [], .ok (.tuner registered.1 (registered.2.tunerAt registered.1))⟩
  | .tuner id =>
      let found := host.tuner id
      ⟨found.2, world, [], .ok (.tuner found.1 (found.2.tunerAt found.1))⟩
  | .resetTune ids => ⟨host.resetTune ids, world, [], .ok .done⟩
  | .flatten id root => host.flatten id root world
  | .flattenTo id root destination => host.flattenTo id root destination world
  | .resetFlatten ids => ⟨host.resetFlatten ids, world, [], .ok .done⟩

end Host

end Stencil
