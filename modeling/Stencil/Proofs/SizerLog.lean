import Mathlib.Data.List.Chain
import Stencil.Proofs.SampleRuns

set_option autoImplicit false

namespace Stencil

def Event.established? : Event → Option UInt64
  | .baselineEstablished baseline _ => some baseline
  | _ => none

def lastEstablished (log : List Event) : Option UInt64 := log.reverse.findSome? Event.established?

namespace Sizer

def Succeeds (variance : UInt32) : Event → Event → Prop
  | .baselineEstablished baseline _, .sizeDeviated size old => old = baseline ∧ deviates baseline size variance = true
  | .sizeDeviated _ _, .baselineEstablished _ _ => True
  | _, _ => False

structure Alternates (variance : UInt32) (log : List Event) : Prop where
  opens : ∀ event ∈ log.head?, ∃ baseline samples, event = .baselineEstablished baseline samples
  linked : log.IsChain (Succeeds variance)

def Pending (log : List Event) : Prop := ∀ event ∈ log.getLast?, ∃ size old, event = .sizeDeviated size old

def fed (start : Sizer) (sizes : List UInt64) : Sizer × List Event := run (sizes.map .update) start

-- The size in the middle was found to deviate, and that was the last that was logged.
structure Opened (start : Sizer) (before : List UInt64) (size : UInt64) (later : List UInt64) : Prop where
  deviated : ∃ old, (fed start (before ++ [size])).2 = (fed start before).2 ++ [.sizeDeviated size old]
  silent : (fed start (before ++ size :: later)).2 = (fed start (before ++ [size])).2

def Fruitless (start : Sizer) (sizes : List UInt64) : Prop :=
  ∃ before size later, sizes = before ++ size :: later ∧ Opened start before size later ∧
    start.config.runLength ≤ (size :: later).length ∧
    start.config.estimate ((size :: later).take start.config.runLength) = 0

theorem alternates_nil (variance : UInt32) : Alternates variance [] :=
  ⟨fun _ member => absurd member (Option.not_mem_none _), .nil⟩

theorem alternates_established (variance : UInt32) (log : List Event) (alternates : Alternates variance log)
    (pending : Pending log) (baseline : UInt64) (samples : UInt32) :
    Alternates variance (log ++ [.baselineEstablished baseline samples]) := by
  refine ⟨?_, List.isChain_append.mpr ⟨alternates.linked, List.isChain_singleton _, ?_⟩⟩
  · cases log with
    | nil =>
        intro event member
        cases member
        exact ⟨baseline, samples, rfl⟩
    | cons first rest => exact alternates.opens
  · intro last isLast next isNext
    obtain ⟨size, old, rfl⟩ := pending last isLast
    cases isNext
    trivial

theorem alternates_deviated (variance : UInt32) (log : List Event) (alternates : Alternates variance log)
    (baseline : UInt64) (samples : UInt32) (last : log.getLast? = some (.baselineEstablished baseline samples))
    (size : UInt64) (far : deviates baseline size variance = true) :
    Alternates variance (log ++ [.sizeDeviated size baseline]) := by
  refine ⟨?_, List.isChain_append.mpr ⟨alternates.linked, List.isChain_singleton _, ?_⟩⟩
  · cases log with
    | nil => cases last
    | cons first rest => exact alternates.opens
  · intro other isLast next isNext
    cases isNext
    rw [last] at isLast
    cases isLast
    exact ⟨rfl, far⟩

theorem pending_deviated (log : List Event) (size old : UInt64) : Pending (log ++ [.sizeDeviated size old]) := by
  intro event member
  rw [List.getLast?_append, List.getLast?_singleton] at member
  cases member
  exact ⟨size, old, rfl⟩

theorem pending_not_established (log : List Event) (pending : Pending log) :
    ¬ ∃ baseline samples, log.getLast? = some (.baselineEstablished baseline samples) := by
  rintro ⟨baseline, samples, last⟩
  obtain ⟨size, old, same⟩ := pending _ last
  cases same

theorem lastEstablished_of_last (log : List Event) (baseline : UInt64) (samples : UInt32)
    (last : log.getLast? = some (.baselineEstablished baseline samples)) : lastEstablished log = some baseline := by
  obtain ⟨front, rfl⟩ := List.getLast?_eq_some_iff.mp last
  rw [lastEstablished, List.reverse_append]
  rfl

theorem lastEstablished_deviated (log : List Event) (size old : UInt64) :
    lastEstablished (log ++ [.sizeDeviated size old]) = lastEstablished log := by
  rw [lastEstablished, List.reverse_append]
  rfl

section Feeding

variable (start : Sizer) (before : List UInt64) (size : UInt64) (later : List UInt64)

theorem fed_append (front rest : List UInt64) :
    fed start (front ++ rest) =
      ((fed (fed start front).1 rest).1, (fed start front).2 ++ (fed (fed start front).1 rest).2) := by
  rw [fed, List.map_append, run_append]
  rfl

theorem fed_snoc (sizes : List UInt64) (next : UInt64) :
    fed start (sizes ++ [next]) =
      (((fed start sizes).1.update next).1, (fed start sizes).2 ++ ((fed start sizes).1.update next).2) := by
  have one : fed (fed start sizes).1 [next] = (fed start sizes).1.update next := run_update next _
  rw [fed_append, one]

theorem fed_config (sizes : List UInt64) : (fed start sizes).1.config = start.config := by
  apply run_config
  intro step member config
  obtain ⟨size, _, rfl⟩ := List.mem_map.mp member
  exact nofun

theorem log_grows (front rest : List UInt64) : (fed start front).2.length ≤ (fed start (front ++ rest)).2.length := by
  rw [fed_append, List.length_append]
  exact Nat.le_add_right _ _

theorem opened_pending (sizes : List UInt64) (split : sizes = before ++ size :: later)
    (opened : Opened start before size later) : Pending (fed start sizes).2 := by
  obtain ⟨old, deviated⟩ := opened.deviated
  rw [split, opened.silent, deviated]
  exact pending_deviated _ size old

theorem opened_extend (opened : Opened start before size later) (next : UInt64)
    (silent : (fed start (before ++ size :: (later ++ [next]))).2 = (fed start (before ++ size :: later)).2) :
    Opened start before size (later ++ [next]) := ⟨opened.deviated, silent.trans opened.silent⟩

theorem opened_last (between : List UInt64) (next : UInt64)
    (first : Opened start before size (between ++ next :: later))
    (second : Opened start (before ++ size :: between) next later) : False := by
  have whole : before ++ size :: (between ++ next :: later) = before ++ size :: between ++ next :: later := by simp
  obtain ⟨old, deviated⟩ := second.deviated
  have more := congrArg List.length deviated
  rw [← second.silent, ← whole, first.silent, List.length_append, List.length_singleton] at more
  have grown := log_grows start (before ++ [size]) between
  rw [List.append_assoc, List.singleton_append] at grown
  omega

theorem opened_unique (otherBefore otherLater : List UInt64) (other : UInt64)
    (same : before ++ size :: later = otherBefore ++ other :: otherLater) (opened : Opened start before size later)
    (otherOpened : Opened start otherBefore other otherLater) : size :: later = other :: otherLater := by
  rcases List.append_eq_append_iff.mp same with ⟨middle, front, back⟩ | ⟨middle, front, back⟩
  · cases middle with
    | nil => exact back
    | cons head between =>
        cases back
        subst front
        exact absurd otherOpened fun second => opened_last start before size otherLater between other opened second
  · cases middle with
    | nil => exact back.symm
    | cons head between =>
        cases back
        subst front
        exact absurd opened fun second => opened_last start otherBefore other later between size otherOpened second

theorem fruitless_pending (sizes : List UInt64) (fruitless : Fruitless start sizes) : Pending (fed start sizes).2 := by
  obtain ⟨before, size, later, split, opened, _⟩ := fruitless
  exact opened_pending start before size later sizes split opened

theorem bare_pending (sizes : List UInt64) (cause : (fed start sizes).2 = [] ∨ Fruitless start sizes) :
    Pending (fed start sizes).2 := by
  rcases cause with empty | fruitless
  · rw [empty]
    exact fun _ member => absurd member (Option.not_mem_none _)
  · exact fruitless_pending start sizes fruitless

theorem fruitless_extend (sizes : List UInt64) (fruitless : Fruitless start sizes) (next : UInt64)
    (silent : (fed start (sizes ++ [next])).2 = (fed start sizes).2) : Fruitless start (sizes ++ [next]) := by
  obtain ⟨before, size, later, rfl, opened, complete, nothing⟩ := fruitless
  rw [List.append_assoc, List.cons_append] at silent ⊢
  refine ⟨before, size, later ++ [next], rfl, opened_extend start before size later opened next silent, ?_, ?_⟩
  · rw [← List.cons_append, List.length_append]
    exact Nat.le_add_right_of_le complete
  · rw [← List.cons_append, List.take_append_of_le_length complete]
    exact nothing

theorem fruitless_complete (opened : Opened start before size later)
    (complete : (size :: later).length = start.config.runLength) (nothing : start.config.estimate (size :: later) = 0) :
    Fruitless start (before ++ size :: later) := by
  refine ⟨before, size, later, rfl, opened, Nat.le_of_eq complete.symm, ?_⟩
  rw [List.take_of_length_le (Nat.le_of_eq complete)]
  exact nothing

end Feeding

inductive Standing (config : SizerConfig) (sizes : List UInt64) : Prop where
  | bare (taken : List UInt64) : taken.length < config.runLength →
      (fed (.ofConfig config) sizes).1 = gathering config 0 taken →
      (fed (.ofConfig config) sizes).2 = [] ∨ Fruitless (.ofConfig config) sizes → Standing config sizes
  | serving (baseline : UInt64) (samples : UInt32) :
      (fed (.ofConfig config) sizes).1.published = ⟨baseline, .baseline⟩ →
      (fed (.ofConfig config) sizes).2.getLast? = some (.baselineEstablished baseline samples) → Standing config sizes
  | resampling (before : List UInt64) (size : UInt64) (later : List UInt64) (old : UInt64) :
      sizes = before ++ size :: later → Opened (.ofConfig config) before size later →
      (size :: later).length < config.runLength → old.toNat ≤ largestForecast →
      (fed (.ofConfig config) sizes).1 = gathering config old (size :: later) →
      lastEstablished (fed (.ofConfig config) sizes).2 = some old → Standing config sizes

structure Told (config : SizerConfig) (sizes : List UInt64) : Prop where
  alternates : Alternates config.variance (fed (.ofConfig config) sizes).2
  standing : Standing config sizes

variable (config : SizerConfig) (sizes : List UInt64)

theorem told_concluded (taken : List UInt64) (log : List Event)
    (came : fed (.ofConfig config) sizes = ((concluded config taken).1, log ++ (concluded config taken).2))
    (alternates : Alternates config.variance log) (pending : Pending log)
    (cause : config.estimate taken = 0 → (fed (.ofConfig config) sizes).2 = log →
      log = [] ∨ Fruitless (.ofConfig config) sizes) : Told config sizes := by
  by_cases nothing : config.estimate taken = 0
  · rw [concluded, if_pos nothing, List.append_nil] at came
    have log_eq : (fed (.ofConfig config) sizes).2 = log := congrArg Prod.snd came
    refine ⟨log_eq ▸ alternates, .bare [] (runLength_pos config) (congrArg Prod.fst came) ?_⟩
    rw [log_eq]
    exact cause nothing log_eq
  · obtain ⟨published, _⟩ := concluded_published config taken nothing
    have events : (concluded config taken).2 =
        [.baselineEstablished (UInt64.ofNat (config.estimate taken)) (UInt32.ofNat config.runLength)] := by
      rw [concluded, if_neg nothing]
    rw [events] at came
    refine ⟨?_, .serving (UInt64.ofNat (config.estimate taken)) (UInt32.ofNat config.runLength) ?_ ?_⟩
    · rw [came]
      exact alternates_established _ log alternates pending _ _
    · rw [came]
      exact published
    · rw [came]
      exact List.getLast?_concat

theorem told_bare (told : Told config sizes) (taken : List UInt64) (short : taken.length < config.runLength)
    (state : (fed (.ofConfig config) sizes).1 = gathering config 0 taken)
    (cause : (fed (.ofConfig config) sizes).2 = [] ∨ Fruitless (.ofConfig config) sizes) (next : UInt64) :
    Told config (sizes ++ [next]) := by
  have pending := bare_pending (.ofConfig config) sizes cause
  have still : (fed (.ofConfig config) (sizes ++ [next])).2 = (fed (.ofConfig config) sizes).2 →
      (fed (.ofConfig config) sizes).2 = [] ∨ Fruitless (.ofConfig config) (sizes ++ [next]) :=
    fun silent => cause.imp_right fun fruitless => fruitless_extend _ sizes fruitless next silent
  have grown := fed_snoc (.ofConfig config) sizes next
  rw [state, update_gathering config 0 taken (Nat.zero_le _) next short] at grown
  by_cases last : taken.length + 1 = config.runLength
  · rw [if_pos last] at grown
    exact told_concluded config _ _ _ grown told.alternates pending fun _ silent => still silent
  · rw [if_neg last, List.append_nil] at grown
    have silent := congrArg Prod.snd grown
    refine ⟨?_, .bare (taken ++ [next]) ?_ (congrArg Prod.fst grown) ?_⟩
    · rw [silent]
      exact told.alternates
    · rw [List.length_append, List.length_singleton]
      omega
    · rw [silent]
      exact still silent

theorem told_resampling (told : Told config sizes) (before : List UInt64) (size : UInt64) (later : List UInt64)
    (old : UInt64) (split : sizes = before ++ size :: later) (opened : Opened (.ofConfig config) before size later)
    (short : (size :: later).length < config.runLength) (fits : old.toNat ≤ largestForecast)
    (state : (fed (.ofConfig config) sizes).1 = gathering config old (size :: later))
    (kept : lastEstablished (fed (.ofConfig config) sizes).2 = some old) (next : UInt64) :
    Told config (sizes ++ [next]) := by
  have longer : (size :: (later ++ [next])).length = (size :: later).length + 1 := by simp
  have whole : sizes ++ [next] = before ++ size :: (later ++ [next]) := by simp [split]
  have pending := opened_pending (.ofConfig config) before size later sizes split opened
  have still : (fed (.ofConfig config) (sizes ++ [next])).2 = (fed (.ofConfig config) sizes).2 →
      Opened (.ofConfig config) before size (later ++ [next]) := by
    rw [whole, split]
    exact opened_extend _ before size later opened next
  have grown := fed_snoc (.ofConfig config) sizes next
  rw [state, update_gathering config old _ fits next short, List.cons_append] at grown
  by_cases last : (size :: later).length + 1 = config.runLength
  · rw [if_pos last] at grown
    refine told_concluded config _ _ _ grown told.alternates pending fun nothing silent => Or.inr ?_
    rw [whole]
    exact fruitless_complete _ before size (later ++ [next]) (still silent) (longer.trans last) nothing
  · rw [if_neg last, List.append_nil] at grown
    have silent := congrArg Prod.snd grown
    refine ⟨?_, .resampling before size (later ++ [next]) old whole (still silent) ?_ fits (congrArg Prod.fst grown) ?_⟩
    · rw [silent]
      exact told.alternates
    · omega
    · rw [silent]
      exact kept

-- A size deviates, and a run of samples starts with it. Where a run has one sample, it is over as well.
theorem told_reopened (told : Told config sizes) (baseline : UInt64) (samples : UInt32)
    (last : (fed (.ofConfig config) sizes).2.getLast? = some (.baselineEstablished baseline samples))
    (fits : baseline.toNat ≤ largestForecast) (next : UInt64) (far : deviates baseline next config.variance = true)
    (grown : fed (.ofConfig config) (sizes ++ [next]) =
      ((gathering config baseline [next]).finishIfReady.1,
        (fed (.ofConfig config) sizes).2 ++ .sizeDeviated next baseline ::
          (gathering config baseline [next]).finishIfReady.2)) : Told config (sizes ++ [next]) := by
  have alternates := alternates_deviated _ _ told.alternates baseline samples last next far
  have pending := pending_deviated (fed (.ofConfig config) sizes).2 next baseline
  have opens : (fed (.ofConfig config) (sizes ++ [next])).2 =
      (fed (.ofConfig config) sizes).2 ++ [.sizeDeviated next baseline] → Opened (.ofConfig config) sizes next [] :=
    fun silent => ⟨⟨baseline, silent⟩, rfl⟩
  rw [List.append_cons (fed (.ofConfig config) sizes).2] at grown
  by_cases single : [next].length = config.runLength
  · rw [gathering_concludes config baseline [next] fits single] at grown
    refine told_concluded config _ _ _ grown alternates pending fun nothing silent => Or.inr ?_
    exact fruitless_complete _ sizes next [] (opens silent) single nothing
  · have short : [next].length < config.runLength := Nat.lt_of_le_of_ne (runLength_pos config) single
    rw [gathering_goes_on config baseline [next] fits (List.cons_ne_nil _ _) short, List.append_nil] at grown
    have silent := congrArg Prod.snd grown
    refine ⟨?_, .resampling sizes next [] baseline rfl (opens silent) short fits (congrArg Prod.fst grown) ?_⟩
    · rw [silent]
      exact alternates
    · rw [silent, lastEstablished_deviated]
      exact lastEstablished_of_last _ baseline samples last

theorem told_serving (told : Told config sizes) (baseline : UInt64) (samples : UInt32)
    (published : (fed (.ofConfig config) sizes).1.published = ⟨baseline, .baseline⟩)
    (last : (fed (.ofConfig config) sizes).2.getLast? = some (.baselineEstablished baseline samples)) (next : UInt64) :
    Told config (sizes ++ [next]) := by
  have sound : (fed (.ofConfig config) sizes).1.Sound := run_sound _ _ (ofConfig_sound config)
  have parameters : (fed (.ofConfig config) sizes).1.config = config := fed_config (.ofConfig config) sizes
  have serves : (fed (.ofConfig config) sizes).1.baseline = baseline := congrArg Published.baseline published
  have phase : (fed (.ofConfig config) sizes).1.phase = .baseline := congrArg Published.phase published
  have grown := fed_snoc (.ofConfig config) sizes next
  rcases update_cases next _ sound with ⟨sampling, _⟩ | ⟨_, ⟨_, same⟩ | ⟨far, same⟩⟩
  · exact absurd (sampling.symm.trans phase) (by decide)
  · rw [same, List.append_nil] at grown
    refine ⟨?_, .serving baseline samples ?_ ?_⟩
    · rw [grown]
      exact told.alternates
    · rw [grown]
      exact published
    · rw [grown]
      exact last
  · rw [same, reopened_gathering, parameters, serves] at grown
    rw [parameters, serves] at far
    exact told_reopened config sizes told baseline samples last (serves ▸ sound.small) next far grown

theorem told_update (told : Told config sizes) (next : UInt64) : Told config (sizes ++ [next]) := by
  cases told.standing with
  | bare taken short state cause => exact told_bare config sizes told taken short state cause next
  | serving baseline samples published last => exact told_serving config sizes told baseline samples published last next
  | resampling before size later old split opened short fits state kept =>
      exact told_resampling config sizes told before size later old split opened short fits state kept next

theorem told_always : Told config sizes := by
  induction sizes using List.reverseRecOn with
  | nil => exact ⟨alternates_nil config.variance, .bare [] (runLength_pos config) rfl (Or.inl rfl)⟩
  | append_singleton sizes next ih => exact told_update config sizes ih next

theorem log_tells_state (config : SizerConfig) (start : Sizer) (fresh : Fresh config start) (sizes : List UInt64) :
    let after := fed start sizes
    Alternates config.variance after.2 ∧
      (after.1.phase = .baseline ↔
        ∃ baseline samples, after.2.getLast? = some (.baselineEstablished baseline samples)) ∧
      (lastEstablished after.2 = none → after.1.baseline = 0) ∧
      ∀ baseline, lastEstablished after.2 = some baseline →
        (Fruitless start sizes → after.1.baseline = 0) ∧ (¬ Fruitless start sizes → after.1.baseline = baseline) := by
  rw [fresh_eq config start fresh]
  obtain ⟨alternates, standing⟩ := told_always config sizes
  refine ⟨alternates, ?_⟩
  cases standing with
  | bare taken short state cause =>
      have published := gathering_published config 0 taken (Nat.zero_le _)
      have pending := bare_pending (.ofConfig config) sizes cause
      rw [← state] at published
      have phase : (fed (.ofConfig config) sizes).1.phase = .sampling := congrArg Published.phase published
      have nothing : (fed (.ofConfig config) sizes).1.baseline = 0 := congrArg Published.baseline published
      refine ⟨iff_of_false (by simp [phase]) (pending_not_established _ pending), fun _ => nothing, ?_⟩
      intro baseline found
      refine ⟨fun _ => nothing, fun fruitful => ?_⟩
      rw [cause.resolve_right fruitful] at found
      cases found
  | serving baseline samples published last =>
      have found := lastEstablished_of_last _ baseline samples last
      refine ⟨iff_of_true (congrArg Published.phase published) ⟨baseline, samples, last⟩, ?_, ?_⟩
      · intro none
        cases found.symm.trans none
      · intro other same
        cases found.symm.trans same
        refine ⟨fun fruitless => ?_, fun _ => congrArg Published.baseline published⟩
        exact absurd ⟨baseline, samples, last⟩ (pending_not_established _ (fruitless_pending _ sizes fruitless))
  | resampling before size later old split opened short fits state kept =>
      have published := gathering_published config old (size :: later) fits
      have pending := opened_pending (.ofConfig config) before size later sizes split opened
      rw [← state] at published
      have phase : (fed (.ofConfig config) sizes).1.phase = .sampling := congrArg Published.phase published
      refine ⟨iff_of_false (by simp [phase]) (pending_not_established _ pending), ?_, ?_⟩
      · intro none
        cases kept.symm.trans none
      · intro other same
        cases kept.symm.trans same
        refine ⟨?_, fun _ => congrArg Published.baseline published⟩
        rintro ⟨otherBefore, otherSize, otherLater, otherSplit, otherOpened, complete, _⟩
        have run := opened_unique _ before size later otherBefore otherLater otherSize (split.symm.trans otherSplit)
          opened otherOpened
        rw [← run] at complete
        exact absurd short (Nat.not_lt.mpr complete)

-- The sizes 0 and 1 average to nothing. The old baseline stays beside the run until its second size, and no event tells
-- of the end.
theorem futile_run_drops_baseline :
    (fed disturbed.reset [10, 10, 0]).1.baseline = 10 ∧
      (fed disturbed.reset [10, 10, 0, 1]).2 = [.baselineEstablished 10 2, .sizeDeviated 0 10] ∧
      Fruitless disturbed.reset [10, 10, 0, 1] ∧ (fed disturbed.reset [10, 10, 0, 1]).1.baseline = 0 := by
  have fruitless : Fruitless disturbed.reset [10, 10, 0, 1] :=
    ⟨[10, 10], 0, [1], rfl, ⟨⟨10, by decide⟩, by decide⟩, by decide, by decide⟩
  obtain ⟨_, _, _, told⟩ := log_tells_state ⟨2, 20, 100⟩ disturbed.reset (.cleared disturbed rfl) [10, 10, 0, 1]
  obtain ⟨dropped, _⟩ := told 10 (by decide)
  exact ⟨by decide, by decide, fruitless, dropped fruitless⟩

end Sizer

end Stencil
