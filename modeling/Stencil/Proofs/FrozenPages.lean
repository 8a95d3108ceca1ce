import Mathlib.Data.List.DropRight
import Stencil.Proofs.Flattening
import Stencil.Proofs.Lookup
import Stencil.Proofs.Visits

set_option autoImplicit false

namespace Stencil.Host

open Registry (Covers)
open Directory (find?_insert find?_reset obtain_missing)

variable {σ : Type}

def Call.page? (id : String) : Call σ → Option (Node σ)
  | .flatten name root | .flattenTo name root _ => if id = name then some root else none
  | .resetFlatten _ => none
  | .compile _ _ | .compileTo _ _ _ | .compileConfig _ _ | .compiler _ | .held _ _ _ | .resetCompile _ => none
  | .tune _ _ | .tuneTo _ _ _ | .tuneConfig _ _ | .tuner _ | .resetTune _ => none

def Call.clears (id : String) : Call σ → Bool
  | .resetFlatten ids => Covers ids id
  | .flatten _ _ | .flattenTo _ _ _ => false
  | .compile _ _ | .compileTo _ _ _ | .compileConfig _ _ | .compiler _ | .held _ _ _ | .resetCompile _ => false
  | .tune _ _ | .tuneTo _ _ _ | .tuneConfig _ _ | .tuner _ | .resetTune _ => false

def since (id : String) (visits : List (Visit σ)) : List (Visit σ) :=
  visits.rtakeWhile fun visit => !visit.call.clears id

theorem since_cleared (id : String) (visits : List (Visit σ)) (visit : Visit σ) (cleared : visit.call.clears id = true) :
    since id (visits ++ [visit]) = [] := List.rtakeWhile_concat_neg _ _ _ (by simp [cleared])

theorem since_kept (id : String) (visits : List (Visit σ)) (visit : Visit σ) (kept : ¬ visit.call.clears id = true) :
    since id (visits ++ [visit]) = since id visits ++ [visit] := List.rtakeWhile_concat_pos _ _ _ (by simp [kept])

def pageOf (root : Node σ) (world : σ) : Option Flattener :=
  if root.Live then none else (root.render world).result.toOption.map Flattener.mk

def Visit.candidate (id : String) (visit : Visit σ) : Option Flattener :=
  (visit.call.page? id).bind fun root => pageOf root visit.world

def Visit.Settles (visit : Visit σ) (id : String) (bytes : Bytes) : Prop :=
  ∃ root, visit.call.page? id = some root ∧ ¬ root.Live ∧ (root.render visit.world).result = .ok bytes

theorem pageOf_iff (root : Node σ) (world : σ) (bytes : Bytes) :
    pageOf root world = some ⟨bytes⟩ ↔ ¬ root.Live ∧ (root.render world).result = .ok bytes := by
  rw [pageOf]
  by_cases live : root.Live
  · simp [live]
  · cases (root.render world).result with
    | error message => simp [live, Except.toOption]
    | ok rendered => simp [live, Except.toOption]

theorem candidate_iff_settles (visit : Visit σ) (id : String) (bytes : Bytes) :
    visit.candidate id = some ⟨bytes⟩ ↔ visit.Settles id bytes := by
  rw [Visit.candidate, Option.bind_eq_some_iff]
  exact exists_congr fun root => and_congr_right fun _ => pageOf_iff root visit.world bytes

theorem candidate_unsettled (visit : Visit σ) (id : String) (never : ∀ bytes, ¬ visit.Settles id bytes) :
    visit.candidate id = none := by
  apply Option.eq_none_iff_forall_ne_some.mpr
  intro flattener made
  exact never flattener.bytes ((candidate_iff_settles visit id flattener.bytes).mp made)

section Flattening

variable (host : Host) (id : String) (root : Node σ) (answer : Bytes → Answer) (world : σ)

theorem flattenWith_registered (flattener : Flattener) (found : host.flatteners.find? id = some flattener) :
    host.flattenWith id root answer world =
      ⟨host, world, [], .ok (answer flattener.bytes)⟩ := by
  rw [flattenWith, found]
  rfl

theorem flattenWith_live (missing : host.flatteners.find? id = none) (live : root.Live) :
    host.flattenWith id root answer world =
      ⟨host, (root.render world).world, [.notFlattenable id .dynamicContent], (root.render world).result.map answer⟩ := by
  rw [flattenWith, missing, Flattener.attempt_live root world live]

theorem flattenWith_faulted (missing : host.flatteners.find? id = none) (still : ¬ root.Live) (message : String)
    (fault : (root.render world).fault = some message) :
    host.flattenWith id root answer world = ⟨host, (root.render world).world, [], .error message⟩ := by
  rw [flattenWith, missing, Flattener.attempt_still root world still, fault]

theorem flattenWith_fresh (missing : host.flatteners.find? id = none) (still : ¬ root.Live)
    (calm : (root.render world).fault = none) :
    host.flattenWith id root answer world =
      ⟨{ host with flatteners := host.flatteners.insert id ⟨(root.render world).out⟩ }, (root.render world).world, [],
        .ok (answer (root.render world).out)⟩ := by
  rw [flattenWith, missing, Flattener.attempt_calm root world still calm]
  simp [missing, Flattener.render]

-- How a page is served, `answer` being what is done with its bytes. A registered page is served without a look at the
-- tree, so it leaves the world as it is, whatever the nodes of the tree would do to it.
structure Presents (served : Served σ) : Prop where
  frozen : ∀ bytes, host.flatteners.find? id = some ⟨bytes⟩ →
    served.result = .ok (answer bytes) ∧ served.world = world ∧ served.events = [] ∧
      ∀ other, served.host.flatteners.find? other = host.flatteners.find? other
  live : host.flatteners.find? id = none → root.Live →
    served.result = (root.render world).result.map answer ∧ served.world = (root.render world).world ∧
      served.host = host
  faulted : host.flatteners.find? id = none → ∀ message, (root.render world).result = .error message →
    served.result = .error message ∧ served.world = (root.render world).world ∧ served.host = host
  fresh : host.flatteners.find? id = none → ¬ root.Live → ∀ bytes, (root.render world).result = .ok bytes →
    served.result = .ok (answer bytes) ∧ served.world = (root.render world).world ∧
      ∀ other, served.host.flatteners.find? other = if other = id then some ⟨bytes⟩ else host.flatteners.find? other

theorem flattenWith_presents : Presents host id root answer world (host.flattenWith id root answer world) := by
  refine ⟨?frozen, ?live, ?faulted, ?fresh⟩
  case frozen =>
    intro bytes found
    rw [flattenWith_registered host id root answer world ⟨bytes⟩ found]
    exact ⟨rfl, rfl, rfl, fun _ => rfl⟩
  case live =>
    intro missing live
    rw [flattenWith_live host id root answer world missing live]
    exact ⟨rfl, rfl, rfl⟩
  case faulted =>
    intro missing message failed
    by_cases live : root.Live
    · rw [flattenWith_live host id root answer world missing live, failed]
      exact ⟨rfl, rfl, rfl⟩
    · rw [flattenWith_faulted host id root answer world missing live message (by simpa using failed)]
      exact ⟨rfl, rfl, rfl⟩
  case fresh =>
    intro missing still bytes rendered
    obtain ⟨calm, out⟩ := by simpa using rendered
    rw [flattenWith_fresh host id root answer world missing still calm, out]
    refine ⟨rfl, rfl, ?_⟩
    intro other
    exact find?_insert other id ⟨bytes⟩ host.flatteners

theorem flattenWith_answer (other : Bytes → Answer) :
    (host.flattenWith id root answer world).host = (host.flattenWith id root other world).host ∧
      (host.flattenWith id root answer world).world = (host.flattenWith id root other world).world ∧
      (host.flattenWith id root answer world).events = (host.flattenWith id root other world).events := by
  cases found : host.flatteners.find? id with
  | some flattener =>
      rw [flattenWith_registered host id root answer world flattener found,
        flattenWith_registered host id root other world flattener found]
      exact ⟨rfl, rfl, rfl⟩
  | none =>
      rw [flattenWith, flattenWith, found]
      cases Flattener.attempt root world with
      | refused error => exact ⟨rfl, rfl, rfl⟩
      | faulted message left => exact ⟨rfl, rfl, rfl⟩
      | flattened flattener left => exact ⟨rfl, rfl, rfl⟩

end Flattening

theorem presents_registered (host : Host) (name : String) (root : Node σ) (answer : Bytes → Answer) (world : σ)
    (served : Served σ) (presents : Presents host name root answer world served) (id : String) :
    served.host.flatteners.find? id =
      (host.flatteners.find? id).or (if id = name then pageOf root world else none) := by
  cases found : host.flatteners.find? name with
  | some flattener =>
      obtain ⟨_, _, _, same⟩ := presents.frozen flattener.bytes found
      rw [same]
      by_cases named : id = name
      · rw [named, found, Option.some_or]
      · rw [if_neg named, Option.or_none]
  | none =>
      by_cases live : root.Live
      · obtain ⟨_, _, same⟩ := presents.live found live
        rw [same, pageOf, if_pos live, ite_self, Option.or_none]
      · cases rendered : (root.render world).result with
        | error message =>
            obtain ⟨_, _, same⟩ := presents.faulted found message rendered
            rw [same, pageOf, if_neg live, rendered, Except.toOption, Option.map_none, ite_self, Option.or_none]
        | ok bytes =>
            obtain ⟨_, _, stored⟩ := presents.fresh found live bytes rendered
            rw [stored, pageOf, if_neg live, rendered]
            by_cases named : id = name
            · rw [if_pos named, if_pos named, named, found, Option.none_or]
              rfl
            · rw [if_neg named, if_neg named, Option.or_none]

theorem welcome_registered (host : Host) (visit : Visit σ) (id : String) :
    (host.welcome visit).host.flatteners.find? id =
      if visit.call.clears id then none else (host.flatteners.find? id).or (visit.candidate id) := by
  obtain ⟨call, world⟩ := visit
  have shown (name : String) (root : Node σ) (answer : Bytes → Answer)
      (page : call.page? id = if id = name then some root else none) :
      (host.flattenWith name root answer world).host.flatteners.find? id =
        (host.flatteners.find? id).or (Visit.candidate id ⟨call, world⟩) := by
    have presents := flattenWith_presents host name root answer world
    rw [presents_registered host name root answer world _ presents id, Visit.candidate, page]
    by_cases named : id = name
    · rw [if_pos named, if_pos named, Option.bind_some]
    · rw [if_neg named, if_neg named, Option.bind_none]
  have other (part : call.part ≠ .flatteners) (page : call.page? id = none) :
      (host.serve world call).host.flatteners.find? id =
        (host.flatteners.find? id).or (Visit.candidate id ⟨call, world⟩) := by
    rw [serve_flatteners host world call part, Visit.candidate, page, Option.bind_none, Option.or_none]
  cases call with
  | flatten name root => exact shown name root _ rfl
  | flattenTo name root destination => exact shown name root _ rfl
  | resetFlatten ids =>
      refine (find?_reset id ids host.flatteners).trans ?_
      simp [Call.clears, Visit.candidate, Call.page?]
  | tune _ _ | tuneTo _ _ _ | tuneConfig _ _ | tuner _ | resetTune _ => exact other nofun rfl
  | compile _ _ | compileTo _ _ _ | compileConfig _ _ | compiler _ | held _ _ _ | resetCompile _ => exact other nofun rfl

theorem attend_snoc (host : Host) (visits : List (Visit σ)) (visit : Visit σ) :
    host.attend (visits ++ [visit]) = ((host.attend visits).welcome visit).host := List.foldl_concat _ _ _ _

-- The page under an id in closed form: the first candidate since the last reset.
theorem attend_registered (visits : List (Visit σ)) (id : String) :
    (empty.attend visits).flatteners.find? id = (since id visits).findSome? (Visit.candidate id) := by
  induction visits using List.reverseRecOn with
  | nil => rfl
  | append_singleton visits visit ih =>
      rw [attend_snoc, welcome_registered _ visit id, ih]
      by_cases cleared : visit.call.clears id = true
      · rw [if_pos cleared, since_cleared id visits visit cleared, List.findSome?_nil]
      · rw [if_neg cleared, since_kept id visits visit cleared, List.findSome?_append, List.findSome?_singleton]

-- `visits` may be any beginning of a longer run, so this speaks of the page after each visit and of every later call.
-- What a destination of whatever kind makes of the bytes is an `answer`.
theorem first_still_page_frozen (visits : List (Visit σ)) (id : String) :
    let host := empty.attend visits
    ((∀ visit ∈ since id visits, ∀ bytes, ¬ visit.Settles id bytes) → host.flatteners.find? id = none) ∧
      (∀ before visit later bytes, since id visits = before ++ visit :: later →
        (∀ earlier ∈ before, ∀ other, ¬ earlier.Settles id other) → visit.Settles id bytes →
          host.flatteners.find? id = some ⟨bytes⟩) ∧
      ∀ (root : Node σ) world,
        let plain := host.serve world (.flatten id root)
        Presents host id root .rendered world plain ∧
          (∀ destination, host.serve world (.flattenTo id root destination) =
            host.flattenWith id root (fun bytes => .written (destination.writeAll bytes)) world) ∧
          ∀ answer,
            let into := host.flattenWith id root answer world
            Presents host id root answer world into ∧ into.host = plain.host := by
  have registered := attend_registered visits id
  refine ⟨?absent, ?frozen, ?presents⟩
  case absent =>
    intro never
    rw [registered]
    apply List.findSome?_eq_none_iff.mpr
    intro visit member
    exact candidate_unsettled visit id (never visit member)
  case frozen =>
    intro before visit later bytes split never settles
    have early : before.findSome? (Visit.candidate id) = none := by
      apply List.findSome?_eq_none_iff.mpr
      intro earlier member
      exact candidate_unsettled earlier id (never earlier member)
    rw [registered, split, List.findSome?_append, early, Option.none_or, List.findSome?_cons,
      (candidate_iff_settles visit id bytes).mpr settles]
  case presents =>
    intro root world
    refine ⟨flattenWith_presents _ id root _ world, fun destination => rfl, ?_⟩
    intro answer
    exact ⟨flattenWith_presents _ id root answer world, (flattenWith_answer _ id root answer world _).1⟩

def menu : List (Visit Nat) :=
  [⟨.flatten "nav" (.custom true none (.write [5]) []), 0⟩, ⟨.flatten "nav" (.custom false none (.fail "torn") []), 1⟩,
    ⟨.flattenTo "nav" (.custom false none (.write [1, 2]) []) ⟨none, some 0, false, 0⟩, 2⟩, ⟨.resetFlatten ["foot"], 3⟩]

theorem menu_page_frozen :
    let host := empty.attend menu
    let stirring : Node Nat := .custom true none (.change (· + 1)) []
    let later := host.serve 4 (.flatten "nav" stirring)
    let sent := host.serve 4 (.flattenTo "nav" stirring ⟨some 1, none, false, 1⟩)
    host.flatteners.find? "nav" = some ⟨[1, 2]⟩ ∧ later.result = .ok (.rendered [1, 2]) ∧ later.world = 4 ∧
      sent.result = .ok (.written ⟨[1, 2], none⟩) ∧ sent.world = 4 := by
  obtain ⟨_, frozen, presents⟩ := first_still_page_frozen menu "nav"
  have never : ∀ earlier ∈ menu.take 2, ∀ other, ¬ earlier.Settles "nav" other := by
    refine List.forall_mem_cons.mpr ⟨?_, List.forall_mem_singleton.mpr ?_⟩
    · exact fun other settles => Option.some_ne_none _ ((candidate_iff_settles _ _ _).mpr settles).symm
    · exact fun other settles => Option.some_ne_none _ ((candidate_iff_settles _ _ _).mpr settles).symm
  have settles : menu[2].Settles "nav" [1, 2] := (candidate_iff_settles _ _ _).mp rfl
  have found := frozen (menu.take 2) menu[2] (menu.drop 3) [1, 2] rfl never settles
  obtain ⟨plain, into, answers⟩ := presents (.custom true none (.change (· + 1)) []) 4
  obtain ⟨result, left, _⟩ := plain.frozen [1, 2] found
  obtain ⟨sent, kept, _⟩ := (answers _).1.frozen [1, 2] found
  have written : Destination.writeAll ⟨some 1, none, false, 1⟩ [1, 2] = ⟨[1, 2], none⟩ := by cbv
  refine ⟨found, result, left, ?_, ?_⟩
  · rw [into, sent, written]
  · rw [into, kept]

end Stencil.Host
