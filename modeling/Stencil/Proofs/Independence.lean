import Stencil.Proofs.Alone
import Stencil.Proofs.Visits

set_option autoImplicit false

namespace Stencil.Host

open Registry (Covers)

variable {ι κ σ α : Type}

def Answer.unnumbered : Answer → Answer
  | .compiler _ self => .compiler 0 self
  | .tuner _ self => .tuner 0 self
  | .rendered bytes => .rendered bytes
  | .written delivered => .written delivered
  | .held registered bytes self => .held registered bytes self
  | .done => .done

def Served.response (served : Served σ) : Response σ :=
  ⟨served.world, served.events, served.result.map Answer.unnumbered⟩

-- A held compiler may be any that was ever registered, under whichever id; every other call goes by ids alone.
def Call.byId : Call σ → Bool
  | .held _ _ _ => false
  | .compile _ _ | .compileTo _ _ _ | .compileConfig _ _ | .compiler _ | .resetCompile _ => true
  | .tune _ _ | .tuneTo _ _ _ | .tuneConfig _ _ | .tuner _ | .resetTune _ => true
  | .flatten _ _ | .flattenTo _ _ _ | .resetFlatten _ => true

def addressed (name : String) (demand : Demand κ σ) (id : String) : Option (Demand κ σ) :=
  if id = name then some demand else none

def covered (ids : List String) (id : String) : Option (Demand κ σ) := if Covers ids id then some .reset else none

def Call.ofCompiler (call : Call σ) : String → Option (Demand CompilerConfig σ) :=
  match call with
  | .compile name root => addressed name (.ask (.render root))
  | .compileTo name root destination => addressed name (.ask (.renderTo root destination))
  | .compileConfig name config => addressed name (.configure config)
  | .compiler name => addressed name (.ask .look)
  | .resetCompile ids => covered ids
  | .held _ _ _ => fun _ => none
  | .tune _ _ | .tuneTo _ _ _ | .tuneConfig _ _ | .tuner _ | .resetTune _ => fun _ => none
  | .flatten _ _ | .flattenTo _ _ _ | .resetFlatten _ => fun _ => none

def Call.ofTuner (call : Call σ) : String → Option (Demand SizerConfig σ) :=
  match call with
  | .tune name root => addressed name (.ask (.render root))
  | .tuneTo name root destination => addressed name (.ask (.renderTo root destination))
  | .tuneConfig name config => addressed name (.configure config)
  | .tuner name => addressed name (.ask .look)
  | .resetTune ids => covered ids
  | .compile _ _ | .compileTo _ _ _ | .compileConfig _ _ | .compiler _ | .held _ _ _ | .resetCompile _ => fun _ => none
  | .flatten _ _ | .flattenTo _ _ _ | .resetFlatten _ => fun _ => none

def demands (demand? : Call σ → String → Option (Demand κ σ)) (id : String) (visits : List (Visit σ)) :
    List (Demand κ σ × σ) :=
  visits.filterMap fun visit => (demand? visit.call id).map (·, visit.world)

def heard (demand? : Call σ → String → Option (Demand κ σ)) (id : String) (host : Host) :
    List (Visit σ) → List (Response σ)
  | [] => []
  | visit :: later =>
      let served := host.welcome visit
      let rest := heard demand? id served.host later
      if (demand? visit.call id).isSome then served.response :: rest else rest

-- One call: ids of which it demands nothing keep what they have, and the others come to what an instance on its own
-- comes to, which also gives the same response.
structure Follows (kind : Kind ι κ σ) (before after : Family ι) (demand? : String → Option (Demand κ σ)) (world : σ)
    (response : Response σ) : Prop where
  sound : after.Sound
  idle : ∀ id, demand? id = none → after.member? id = before.member? id
  met : ∀ id demand, demand? id = some demand → ∀ pool,
    let met := kind.meet ⟨before.member? id, pool⟩ world demand
    after.member? id = met.1.self ∧ response = met.2

variable {before : Family ι} (kind : Kind ι κ σ) (world : σ)

theorem follows_nothing (sound : before.Sound) (response : Response σ) :
    Follows kind before before (fun _ => none) world response :=
  ⟨sound, fun _ _ => rfl, fun _ _ made => nomatch made⟩

theorem follows_addressed (after : Family ι) (name : String) (demand : Demand κ σ) (response : Response σ)
    (sound : after.Sound) (others : ∀ id, id ≠ name → after.member? id = before.member? id)
    (met : ∀ pool, after.member? name = (kind.meet ⟨before.member? name, pool⟩ world demand).1.self ∧
      response = (kind.meet ⟨before.member? name, pool⟩ world demand).2) :
    Follows kind before after (addressed name demand) world response := by
  refine ⟨sound, ?idle, ?met⟩
  case idle =>
    intro id nothing
    refine others id fun same => ?_
    rw [addressed, if_pos same] at nothing
    cases nothing
  case met =>
    intro id made some pool
    by_cases same : id = name
    · rw [addressed, if_pos same, Option.some.injEq] at some
      rw [← some, same]
      exact met pool
    · rw [addressed, if_neg same] at some
      cases some

theorem follows_covered (sound : before.Sound) (ids : List String) :
    Follows kind before (before.reset ids) (covered ids) world ⟨world, [], .ok .done⟩ := by
  refine ⟨Family.reset_sound sound ids, ?idle, ?met⟩
  case idle =>
    intro id nothing
    rw [Family.member?_reset]
    by_cases covers : Covers ids id
    · rw [covered, if_pos covers] at nothing
      cases nothing
    · exact if_neg covers
  case met =>
    intro id made some pool
    by_cases covers : Covers ids id
    · rw [covered, if_pos covers, Option.some.injEq] at some
      rw [← some, Family.member?_reset, if_pos covers]
      exact ⟨rfl, rfl⟩
    · rw [covered, if_neg covers] at some
      cases some

theorem follows_configure (sound : before.Sound) (name : String) (config : κ) :
    Follows kind before (before.register name (kind.ofConfig config)).2 (addressed name (.configure config)) world
      ⟨world, [], .ok (kind.shown (kind.ofConfig config))⟩ := by
  have members := fun id => Family.member?_register sound id name (kind.ofConfig config)
  refine follows_addressed kind world _ name _ _ (Family.register_sound sound name _) ?others ?met
  case others => exact fun id different => (members id).trans (if_neg different)
  case met => exact fun pool => ⟨(members name).trans (if_pos rfl), rfl⟩

theorem follows_ask (any : kind.AnyPool) (sound : before.Sound) (name : String) (pool : Pool) (request : Request σ)
    (reply : Reply ι σ Answer)
    (served : reply = kind.serve ((before.member? name).getD (kind.ofConfig kind.standard)) pool world request) :
    let obtained := before.obtain name (kind.ofConfig kind.standard)
    Follows kind before (obtained.2.put obtained.1 reply.self) (addressed name (.ask request)) world reply.response := by
  obtain ⟨after, members⟩ := Family.obtain_put sound name (kind.ofConfig kind.standard) reply.self
  refine follows_addressed kind world _ name _ _ after ?others ?met
  case others => exact fun id different => (members id).trans (if_neg different)
  case met =>
    intro other
    have same := any ((before.member? name).getD (kind.ofConfig kind.standard)) pool other world request
    rw [← served] at same
    have response := congrArg Reply.response same
    refine ⟨?_, response⟩
    rw [members, if_pos rfl]
    exact congrArg (fun reply => some reply.self) same

theorem follows_look (sound : before.Sound) (name : String) :
    let fresh := kind.ofConfig kind.standard
    Follows kind before (before.obtain name fresh).2 (addressed name (.ask .look)) world
      ⟨world, [], .ok (kind.shown ((before.member? name).getD fresh))⟩ := by
  obtain ⟨after, registered, self, others⟩ := Family.obtain_obtained sound name (kind.ofConfig kind.standard)
  refine follows_addressed kind world _ name _ _ after others ?met
  case met =>
    intro pool
    refine ⟨?_, rfl⟩
    rw [Family.member?, registered]
    exact self

theorem unnumbered_plain (result : Except String α) (answer : α → Answer)
    (plain : ∀ value, (answer value).unnumbered = answer value) :
    (result.map answer).map Answer.unnumbered = result.map answer := by
  cases result with
  | error message => rfl
  | ok value => exact congrArg Except.ok (plain value)

theorem compilerAt_obtained (host : Host) (sound : host.compilers.Sound) (id : String) :
    (host.compiler id).2.compilerAt (host.compiler id).1 =
      (host.compilers.member? id).getD (.ofConfig .standard) := by
  have self := (Family.obtain_obtained sound id (Compiler.ofConfig .standard)).self
  simp only [compilerAt, compiler, self, Option.getD_some]

theorem tunerAt_obtained (host : Host) (sound : host.tuners.Sound) (id : String) :
    (host.tuner id).2.tunerAt (host.tuner id).1 = (host.tuners.member? id).getD (.ofConfig .standard) := by
  have self := (Family.obtain_obtained sound id (Tuner.ofConfig .standard)).self
  simp only [tunerAt, tuner, self, Option.getD_some]

theorem afterCompiler_response (host : Host) (handle : Nat) (reply : Reply Compiler σ α) (answer : α → Answer)
    (plain : ∀ value, (answer value).unnumbered = answer value) :
    (host.afterCompiler handle reply answer).response = (reply.map answer).response := by
  simp only [Served.response, afterCompiler, unnumbered_plain reply.result answer plain]
  rfl

theorem afterTuner_response (host : Host) (handle : Nat) (reply : Reply Tuner σ α) (answer : α → Answer)
    (plain : ∀ value, (answer value).unnumbered = answer value) :
    (host.afterTuner handle reply answer).response = (reply.map answer).response := by
  simp only [Served.response, afterTuner, unnumbered_plain reply.result answer plain]
  rfl

theorem compilerAt_configured (host : Host) (id : String) (config : CompilerConfig) :
    (host.compileConfig id config).2.compilerAt (host.compileConfig id config).1 = .ofConfig config := by
  simp only [compilerAt, compileConfig, Family.register, Family.get?, List.getElem?_concat_length, Option.getD_some]

theorem tunerAt_configured (host : Host) (id : String) (config : SizerConfig) :
    (host.tuneConfig id config).2.tunerAt (host.tuneConfig id config).1 = .ofConfig config := by
  simp only [tunerAt, tuneConfig, Family.register, Family.get?, List.getElem?_concat_length, Option.getD_some]

theorem serve_follows_compilers (host : Host) (call : Call σ) (byId : call.byId = true)
    (sound : host.compilers.Sound) :
    Follows .compilers host.compilers (host.serve world call).host.compilers call.ofCompiler world
      (host.serve world call).response := by
  have other (part : call.part ≠ .compilers) (nothing : call.ofCompiler = fun _ => none) :
      Follows .compilers host.compilers (host.serve world call).host.compilers call.ofCompiler world
        (host.serve world call).response := by
    rw [serve_compilers host world call part, nothing]
    exact follows_nothing .compilers world sound _
  cases call with
  | compile id root =>
      have served := congrArg (Kind.compilers.serve · host.pool world (.render root)) (compilerAt_obtained host sound id)
      rw [serve, compile, afterCompiler_response _ _ _ _ fun _ => rfl]
      exact follows_ask .compilers world Kind.compilers_any_pool sound id host.pool (.render root) _ served
  | compileTo id root destination =>
      have served := congrArg (Kind.compilers.serve · host.pool world (.renderTo root destination))
        (compilerAt_obtained host sound id)
      rw [serve, compileTo, afterCompiler_response _ _ _ _ fun _ => rfl]
      exact follows_ask .compilers world Kind.compilers_any_pool sound id host.pool (.renderTo root destination) _ served
  | compileConfig id config =>
      simp only [serve, compilerAt_configured]
      exact follows_configure .compilers world sound id config
  | compiler id =>
      simp only [serve, compilerAt_obtained host sound id]
      exact follows_look .compilers world sound id
  | held handle id root => cases byId
  | resetCompile ids => exact follows_covered .compilers world sound ids
  | tune _ _ | tuneTo _ _ _ | tuneConfig _ _ | tuner _ | resetTune _ => exact other nofun rfl
  | flatten _ _ | flattenTo _ _ _ | resetFlatten _ => exact other nofun rfl

theorem serve_follows_tuners (host : Host) (call : Call σ) (sound : host.tuners.Sound) :
    Follows .tuners host.tuners (host.serve world call).host.tuners call.ofTuner world
      (host.serve world call).response := by
  have other (part : call.part ≠ .tuners) (nothing : call.ofTuner = fun _ => none) :
      Follows .tuners host.tuners (host.serve world call).host.tuners call.ofTuner world
        (host.serve world call).response := by
    rw [serve_tuners host world call part, nothing]
    exact follows_nothing .tuners world sound _
  cases call with
  | tune id root =>
      have served := congrArg (Kind.tuners.serve · host.pool world (.render root)) (tunerAt_obtained host sound id)
      rw [serve, tune, afterTuner_response _ _ _ _ fun _ => rfl]
      exact follows_ask .tuners world Kind.tuners_any_pool sound id host.pool (.render root) _ served
  | tuneTo id root destination =>
      have served := congrArg (Kind.tuners.serve · host.pool world (.renderTo root destination))
        (tunerAt_obtained host sound id)
      rw [serve, tuneTo, afterTuner_response _ _ _ _ fun _ => rfl]
      exact follows_ask .tuners world Kind.tuners_any_pool sound id host.pool (.renderTo root destination) _ served
  | tuneConfig id config =>
      simp only [serve, tunerAt_configured]
      exact follows_configure .tuners world sound id config
  | tuner id =>
      simp only [serve, tunerAt_obtained host sound id]
      exact follows_look .tuners world sound id
  | resetTune ids => exact follows_covered .tuners world sound ids
  | compile _ _ | compileTo _ _ _ | compileConfig _ _ | compiler _ | held _ _ _ | resetCompile _ => exact other nofun rfl
  | flatten _ _ | flattenTo _ _ _ | resetFlatten _ => exact other nofun rfl

theorem heard_alone (view : Host → Family ι) (demand? : Call σ → String → Option (Demand κ σ)) (id : String)
    (visits : List (Visit σ)) (host : Host) (alone : Alone ι)
    (follows : ∀ visit ∈ visits, ∀ host : Host, (view host).Sound →
      Follows kind (view host) (view (host.welcome visit).host) (demand? visit.call) visit.world
        (host.welcome visit).response)
    (sound : (view host).Sound) (same : alone.self = (view host).member? id) :
    heard demand? id host visits = kind.responses alone (demands demand? id visits) := by
  induction visits generalizing host alone with
  | nil => rfl
  | cons visit later ih =>
      obtain ⟨first, others⟩ := List.forall_mem_cons.mp follows
      obtain ⟨after, idle, met⟩ := first host sound
      cases made : demand? visit.call id with
      | none =>
          have unchanged := same.trans (idle id made).symm
          simp only [heard, demands, List.filterMap_cons, made, Option.isSome_none, Option.map_none]
          exact ih (host.welcome visit).host alone others after unchanged
      | some demand =>
          obtain ⟨member, response⟩ := met id demand made alone.pool
          rw [← same] at member response
          simp only [heard, demands, List.filterMap_cons, made, Option.isSome_some, Option.map_some, if_true,
            Kind.responses]
          rw [response]
          exact congrArg _ (ih (host.welcome visit).host _ others after member.symm)

-- The pools on the two sides are different ones: a host lends the buffers of one pool to all its instances.
theorem ids_served_alone (visits : List (Visit σ)) (byId : ∀ visit ∈ visits, visit.call.byId = true) (id : String) :
    heard Call.ofCompiler id .empty visits = Kind.compilers.responses .start (demands Call.ofCompiler id visits) ∧
      heard Call.ofTuner id .empty visits = Kind.tuners.responses .start (demands Call.ofTuner id visits) := by
  constructor
  · refine heard_alone .compilers Host.compilers Call.ofCompiler id visits .empty .start ?_ Family.empty_sound rfl
    intro visit member host sound
    exact serve_follows_compilers visit.world host visit.call (byId visit member) sound
  · refine heard_alone .tuners Host.tuners Call.ofTuner id visits .empty .start ?_ Family.empty_sound rfl
    intro visit _ host sound
    exact serve_follows_tuners visit.world host visit.call sound

def labelled (label : UInt8) : Node Nat :=
  .fragment [.custom false none (.write [label]) [], .custom true none (.write [7]) []]

def crowd : List (Visit Nat) :=
  [⟨.compile "a" (.custom true none (.fail "closed") []), 0⟩, ⟨.tune "a" (labelled 9), 1⟩, ⟨.compile "b" (labelled 8), 2⟩,
    ⟨.compile "a" (labelled 1), 3⟩, ⟨.resetCompile ["b", "c"], 4⟩, ⟨.flatten "a" (labelled 9), 5⟩,
    ⟨.compile "a" (labelled 2), 6⟩, ⟨.resetCompile [], 7⟩, ⟨.compile "a" (labelled 3), 8⟩]

theorem crowd_served_alone :
    (∀ visit ∈ crowd, visit.call.byId = true) ∧
      (heard Call.ofCompiler "a" .empty crowd).map Response.result =
        [.error "closed", .ok (.rendered [1, 7]), .ok (.rendered [1, 7]), .ok .done, .ok (.rendered [3, 7])] := by
  have byId : ∀ visit ∈ crowd, visit.call.byId = true := by simp [crowd, Call.byId]
  refine ⟨byId, ?_⟩
  rw [(ids_served_alone crowd byId "a").1]
  rfl

end Stencil.Host
