import Stencil.Proofs.LoanMoves

set_option autoImplicit false

namespace Stencil.Loans

def labels (loans : Loans) : List Nat :=
  loans.pool.idle.map Buffer.label ++ loans.held.map fun entry => entry.2.label

structure Orderly (loans : Loans) : Prop where
  spare : ∀ buffer ∈ loans.pool.idle, buffer.bytes = [] ∧ buffer.capacity ≤ 262144
  few : loans.pool.idle.length ≤ 64
  names : (loans.held.map Prod.fst).Nodup
  apart : loans.labels.Nodup
  known : ∀ label ∈ loans.labels, label < loans.pool.made

-- The most buffers that are out at one moment of a step. What a name held goes back once the new buffer is out.
def busiest (loans : Loans) : Step → Nat
  | .checkOut _ _ => loans.held.length + 1
  | .write _ _ | .giveBack _ => loans.held.length

inductive Runs : Loans → List Step → Nat → Loans → Prop where
  | done (loans : Loans) : Runs loans [] loans.held.length loans
  | onward (loans between after : Loans) (step : Step) (later : List Step) (peak : Nat) : loans.Moves step between →
      Runs between later peak after → Runs loans (step :: later) (max (loans.busiest step) peak) after

def peak : List Step → Loans → Nat
  | [], loans => loans.held.length
  | step :: later, loans => max (loans.busiest step) (peak later (loans.step step))

theorem run_runs (loans : Loans) (steps : List Step) : loans.Runs steps (peak steps loans) (run steps loans) := by
  induction steps generalizing loans with
  | nil => exact .done loans
  | cons step later ih => exact .onward loans _ _ step later _ (step_moves loans step) (ih (loans.step step))

@[simp] theorem runs_nil (loans after : Loans) (peak : Nat) :
    loans.Runs [] peak after ↔ after = loans ∧ peak = loans.held.length := by
  constructor
  · rintro ⟨_⟩
    exact ⟨rfl, rfl⟩
  · rintro ⟨rfl, rfl⟩
    exact .done after

@[simp] theorem runs_cons (loans after : Loans) (step : Step) (later : List Step) (peak : Nat) :
    loans.Runs (step :: later) peak after ↔
      ∃ between rest, loans.Moves step between ∧ between.Runs later rest after ∧
        peak = max (loans.busiest step) rest := by
  constructor
  · rintro (_ | ⟨_, between, _, _, _, rest, moves, ran⟩)
    exact ⟨between, rest, moves, ran, rfl⟩
  · rintro ⟨between, rest, moves, ran, rfl⟩
    exact .onward loans between after step later rest moves ran

theorem runs_held (loans after : Loans) (steps : List Step) (peak : Nat) (ran : loans.Runs steps peak after) :
    loans.held.length ≤ peak := by
  cases ran with
  | done _ => exact Nat.le_refl _
  | onward _ between _ step later peak moves _ =>
      have busiest : loans.held.length ≤ loans.busiest step := by
        cases step with
        | checkOut name capacity => exact Nat.le_succ _
        | write name bytes => exact Nat.le_refl _
        | giveBack name => exact Nat.le_refl _
      exact Nat.le_trans busiest (Nat.le_max_left _ _)

theorem runs_append (loans after : Loans) (first second : List Step) (peak : Nat) :
    loans.Runs (first ++ second) peak after ↔
      ∃ between before later, loans.Runs first before between ∧ between.Runs second later after ∧
        peak = max before later := by
  induction first generalizing loans peak with
  | nil =>
      simp only [runs_nil]
      constructor
      · intro ran
        exact ⟨loans, _, peak, ⟨rfl, rfl⟩, ran, (Nat.max_eq_right (runs_held loans after second peak ran)).symm⟩
      · rintro ⟨_, _, later, ⟨rfl, rfl⟩, ran, rfl⟩
        rw [Nat.max_eq_right (runs_held _ after second later ran)]
        exact ran
  | cons step first ih =>
      simp only [List.cons_append, runs_cons, ih]
      constructor
      · rintro ⟨middle, _, moves, ⟨between, before, later, begun, ended, rfl⟩, rfl⟩
        exact ⟨between, _, later, ⟨middle, before, moves, begun, rfl⟩, ended, (Nat.max_assoc _ _ _).symm⟩
      · rintro ⟨between, _, later, ⟨middle, before, moves, begun, rfl⟩, ended, rfl⟩
        exact ⟨middle, _, moves, ⟨between, before, later, begun, ended, rfl⟩, Nat.max_assoc _ _ _⟩

theorem labels_length (loans : Loans) : loans.labels.length = loans.pool.idle.length + loans.held.length := by
  rw [labels, List.length_append, List.length_map, List.length_map]

theorem empty_orderly : empty.Orderly where
  spare _ member := absurd member List.not_mem_nil
  few := Nat.zero_le 64
  names := List.nodup_nil
  apart := List.nodup_nil
  known _ member := absurd member List.not_mem_nil

theorem held_split (loans : Loans) (names : (loans.held.map Prod.fst).Nodup) (name : String) (buffer : Buffer)
    (found : loans.find? name = some buffer) :
    ∃ before after, loans.held = before ++ (name, buffer) :: after ∧
      (loans.held.filter fun entry => !(entry.1 == name)) = before ++ after := by
  obtain ⟨⟨other, _⟩, here, rfl⟩ := Option.map_eq_some_iff.mp found
  obtain ⟨named, before, after, split, earlier⟩ := List.find?_eq_some_iff_append.mp here
  have same : other = name := beq_iff_eq.mp named
  rw [same] at split
  refine ⟨before, after, split, ?_⟩
  have later : ∀ entry ∈ after, (!(entry.1 == name)) = true := by
    intro entry member
    rw [split, List.map_append, List.map_cons] at names
    have absent := (List.nodup_cons.mp names.of_append_right).1
    rw [Bool.not_eq_true', beq_eq_false_iff_ne]
    intro again
    exact absent (List.mem_map.mpr ⟨entry, member, again⟩)
  rw [split, List.filter_append, List.filter_eq_self.mpr earlier, List.filter_cons_of_neg (by simp),
    List.filter_eq_self.mpr later]

theorem giveBack_missing (loans : Loans) (name : String) (missing : loans.find? name = none) :
    loans.giveBack name = loans := by
  rw [giveBack, missing]

theorem giveBack_labels (loans : Loans) (names : (loans.held.map Prod.fst).Nodup) (name : String) :
    ∃ lost, loans.labels.Perm (lost ++ (loans.giveBack name).labels) := by
  cases found : loans.find? name with
  | none =>
      rw [giveBack_missing loans name found]
      exact ⟨[], .refl _⟩
  | some buffer =>
      obtain ⟨before, after, held, left⟩ := held_split loans names name buffer found
      have moved : loans.labels.Perm (buffer.label ::
          (loans.pool.idle.map Buffer.label ++ (before ++ after).map fun entry => entry.2.label)) := by
        rw [labels, held, List.map_append, List.map_cons, List.map_append, ← List.append_assoc, ← List.append_assoc]
        exact List.perm_middle
      rw [giveBack_eq, found, left, labels]
      rcases Pool.shelved_cases buffer loans.pool.idle with ⟨_, kept⟩ | dropped
      · rw [kept]
        exact ⟨[], moved⟩
      · rw [dropped]
        exact ⟨[buffer.label], moved⟩

theorem giveBack_orderly (loans : Loans) (orderly : loans.Orderly) (name : String) : (loans.giveBack name).Orderly := by
  obtain ⟨lost, moved⟩ := giveBack_labels loans orderly.names name
  have apart := (moved.nodup_iff.mp orderly.apart).of_append_right
  have known : ∀ label ∈ (loans.giveBack name).labels, label < loans.pool.made :=
    fun label member => orderly.known label (moved.mem_iff.mpr (List.mem_append_right lost member))
  obtain ⟨spare, few⟩ := Pool.shelved_spare (loans.find? name) loans.pool.idle orderly.spare orderly.few
  rw [giveBack_eq] at apart known ⊢
  exact ⟨spare, few, orderly.names.sublist (List.filter_sublist.map Prod.fst), apart, known⟩

structure Drawn (loans : Loans) : Prop where
  left : loans.drawing.Orderly
  clean : loans.pool.next.bytes = []
  free : loans.pool.next.label ∉ loans.drawing.labels
  known : loans.pool.next.label < loans.drawing.pool.made
  taken : loans.pool.idle ≠ [] → loans.labels.length = loans.drawing.labels.length + 1
  reused : ∀ spare ∈ loans.pool.idle.head?, loans.pool.next = spare
  fresh : loans.pool.idle = [] → loans.pool.next.label ∉ loans.labels ∧ loans.drawing.labels.length = loans.held.length

theorem drawn (loans : Loans) (orderly : loans.Orderly) : loans.Drawn := by
  obtain ⟨⟨idle, made⟩, held⟩ := loans
  obtain ⟨spare, few, names, apart, known⟩ := orderly
  cases idle with
  | nil =>
      have new : made ∉ labels ⟨⟨[], made⟩, held⟩ := fun member => Nat.lt_irrefl made (known made member)
      refine ⟨⟨spare, few, names, apart, ?older⟩, rfl, new, Nat.lt_succ_self made, fun some => absurd rfl some,
        fun _ member => (nomatch member), fun _ => ⟨new, labels_length _ |>.trans (Nat.zero_add _)⟩⟩
      case older => exact fun label member => Nat.lt_succ_of_lt (known label member)
  | cons first others =>
      obtain ⟨free, left⟩ := List.nodup_cons.mp apart
      refine ⟨⟨?spare, Nat.le_of_succ_le few, names, left, ?older⟩, (spare first List.mem_cons_self).1, free,
        known first.label List.mem_cons_self, fun _ => rfl, ?reused, fun none => nomatch none⟩
      case spare => exact fun buffer member => spare buffer (List.mem_cons_of_mem first member)
      case older => exact fun label member => known label (List.mem_cons_of_mem first.label member)
      case reused => exact fun buffer member => Option.some.inj member

theorem hand_orderly (loans : Loans) (orderly : loans.Orderly) (name : String) (taken : Buffer)
    (unnamed : loans.find? name = none) (free : taken.label ∉ loans.labels) (known : taken.label < loans.pool.made) :
    (loans.hand name taken).Orderly := by
  have moved : (loans.hand name taken).labels.Perm (taken.label :: loans.labels) := List.perm_middle
  refine ⟨orderly.spare, orderly.few, List.nodup_cons.mpr ⟨?name, orderly.names⟩,
    moved.nodup_iff.mpr (List.nodup_cons.mpr ⟨free, orderly.apart⟩), ?known⟩
  case name =>
    intro member
    obtain ⟨entry, held, same⟩ := List.mem_map.mp member
    have other := (find?_none loans name).mp unnamed entry held
    rw [same, beq_self_eq_true] at other
    cases other
  case known =>
    intro label member
    rcases List.mem_cons.mp (moved.mem_iff.mp member) with same | before
    · exact same ▸ known
    · exact orderly.known label before

theorem amend_labels (loans : Loans) (name : String) (change : Buffer → Buffer)
    (keeps : ∀ buffer, (change buffer).label = buffer.label) : (loans.amend name change).labels = loans.labels := by
  rw [labels, labels, amend, List.map_map]
  congr 2
  funext entry
  simp only [Function.comp_apply]
  split
  · exact keeps entry.2
  · rfl

theorem amend_orderly (loans : Loans) (orderly : loans.Orderly) (name : String) (change : Buffer → Buffer)
    (keeps : ∀ buffer, (change buffer).label = buffer.label) : (loans.amend name change).Orderly := by
  have same := amend_labels loans name change keeps
  have names : (loans.amend name change).held.map Prod.fst = loans.held.map Prod.fst := by
    rw [amend, List.map_map]
    exact List.map_congr_left fun entry _ => amend_name name change entry
  refine ⟨orderly.spare, orderly.few, ?_, ?_, ?_⟩
  · rw [names]
    exact orderly.names
  · rw [same]
    exact orderly.apart
  · rw [same]
    exact orderly.known

theorem giveBack_drawn (loans : Loans) (orderly : loans.Orderly) (name : String) :
    (loans.drawing.giveBack name).Orderly ∧ loans.pool.next.label ∉ (loans.drawing.giveBack name).labels ∧
      loans.pool.next.label < (loans.drawing.giveBack name).pool.made := by
  have drawn := drawn loans orderly
  obtain ⟨lost, moved⟩ := giveBack_labels loans.drawing drawn.left.names name
  refine ⟨giveBack_orderly loans.drawing drawn.left name, ?_, ?_⟩
  · exact fun member => drawn.free (moved.mem_iff.mpr (List.mem_append_right lost member))
  · rw [giveBack_eq]
    exact drawn.known

theorem moves_orderly (loans after : Loans) (step : Step) (orderly : loans.Orderly) (moves : loans.Moves step after) :
    after.Orderly := by
  cases moves with
  | checkOut name capacity taken widened =>
      obtain ⟨left, free, known⟩ := giveBack_drawn loans orderly name
      rw [← widened.label] at free known
      have unnamed : (loans.drawing.giveBack name).find? name = none := (find?_giveBack _ name name).trans (if_pos rfl)
      exact hand_orderly _ left name taken unnamed free known
  | write name bytes room widened => exact amend_orderly loans orderly name _ fun buffer => (widened buffer).label
  | giveBack name => exact giveBack_orderly loans orderly name

-- Only a checkout can bring another buffer into being, and only while all that there are are out.
theorem moves_labels (loans after : Loans) (step : Step) (orderly : loans.Orderly) (moves : loans.Moves step after) :
    after.labels.length ≤ max loans.labels.length (loans.busiest step) := by
  have fewer : ∀ others : Loans, others.Orderly → ∀ name, (others.giveBack name).labels.length ≤ others.labels.length := by
    intro others orderly name
    obtain ⟨lost, moved⟩ := giveBack_labels others orderly.names name
    rw [moved.length_eq, List.length_append]
    exact Nat.le_add_left _ _
  cases moves with
  | checkOut name capacity taken widened =>
      have drawn := drawn loans orderly
      have left := fewer loans.drawing drawn.left name
      have one : ((loans.drawing.giveBack name).hand name taken).labels.length =
          (loans.drawing.giveBack name).labels.length + 1 := List.perm_middle.length_eq
      rw [one, busiest]
      by_cases idle : loans.pool.idle = []
      · have out := (drawn.fresh idle).2
        omega
      · have reused := drawn.taken idle
        omega
  | write name bytes room widened =>
      have same := amend_labels loans name (fun buffer => (room buffer).append bytes) fun buffer => (widened buffer).label
      rw [same]
      exact Nat.le_max_left _ _
  | giveBack name => exact Nat.le_trans (fewer loans orderly name) (Nat.le_max_left _ _)

theorem runs_orderly (loans after : Loans) (steps : List Step) (peak : Nat) (orderly : loans.Orderly)
    (ran : loans.Runs steps peak after) : after.Orderly ∧ after.labels.length ≤ max loans.labels.length peak := by
  induction ran with
  | done loans => exact ⟨orderly, Nat.le_max_left _ _⟩
  | onward loans between after step later peak moves _ ih =>
      have bound := moves_labels loans between step orderly moves
      obtain ⟨ended, total⟩ := ih (moves_orderly loans between step orderly moves)
      exact ⟨ended, by omega⟩

-- A checkout hands out the idle buffer on top, if there is one, and a new one otherwise.
structure ChecksOut (loans : Loans) (name : String) (capacity : Nat) (after : Loans) : Prop where
  idle : after.pool.idle = Pool.shelved (loans.find? name) loans.pool.idle.tail
  handed : ∃ taken, after.find? name = some taken ∧ taken.bytes = [] ∧ capacity ≤ taken.capacity ∧
    (∀ spare ∈ loans.pool.idle.head?, taken.label = spare.label) ∧ (loans.pool.idle = [] → taken.label ∉ loans.labels)
  others : ∀ other, other ≠ name → after.find? other = loans.find? other

structure Writes (loans : Loans) (name : String) (bytes : Bytes) (after : Loans) : Prop where
  pool : after.pool = loans.pool
  written : ∀ buffer, loans.find? name = some buffer →
    ∃ fuller, after.find? name = some fuller ∧ fuller.label = buffer.label ∧ fuller.bytes = buffer.bytes ++ bytes ∧
      fuller.bytes.length ≤ fuller.capacity ∧ buffer.capacity ≤ fuller.capacity
  others : ∀ other, other ≠ name → after.find? other = loans.find? other

structure GivesBack (loans : Loans) (name : String) (after : Loans) : Prop where
  idle : after.pool.idle = Pool.shelved (loans.find? name) loans.pool.idle
  gone : after.find? name = none
  others : ∀ other, other ≠ name → after.find? other = loans.find? other

theorem checks_out (loans after : Loans) (orderly : loans.Orderly) (name : String) (capacity : Nat)
    (moves : loans.Moves (.checkOut name capacity) after) : loans.ChecksOut name capacity after := by
  cases moves with
  | checkOut _ _ taken widened =>
      have drawn := drawn loans orderly
      refine ⟨?idle, ⟨taken, (find?_hand _ name name taken).trans (if_pos rfl), ?bytes, ?room, ?reused, ?fresh⟩, ?others⟩
      case idle =>
        rw [hand, giveBack_eq, ← Pool.rest_idle]
        rfl
      case bytes => exact widened.bytes.trans drawn.clean
      case room => exact Nat.le_trans (Nat.le_add_left _ _) widened.enough
      case reused => exact fun spare top => widened.label.trans (congrArg Buffer.label (drawn.reused spare top))
      case fresh =>
        intro idle
        rw [widened.label]
        exact (drawn.fresh idle).1
      case others =>
        intro other different
        rw [find?_hand, if_neg different, find?_giveBack, if_neg different]
        rfl

theorem writes (loans after : Loans) (name : String) (bytes : Bytes) (moves : loans.Moves (.write name bytes) after) :
    loans.Writes name bytes after := by
  cases moves with
  | write _ _ room widened =>
      refine ⟨rfl, ?written, fun other different => (find?_amend loans name other _).trans (if_neg different)⟩
      intro buffer found
      obtain ⟨label, same, enough, kept⟩ := widened buffer
      refine ⟨(room buffer).append bytes, ?_, label, congrArg (· ++ bytes) same, ?_, kept⟩
      · rw [find?_amend, if_pos rfl, found]
        rfl
      · rw [Buffer.append, same, List.length_append]
        exact enough

theorem gives_back (loans after : Loans) (name : String) (moves : loans.Moves (.giveBack name) after) :
    loans.GivesBack name after := by
  cases moves with
  | giveBack _ =>
      refine ⟨?_, (find?_giveBack loans name name).trans (if_pos rfl), fun other different => ?_⟩
      · rw [giveBack_eq]
      · exact (find?_giveBack loans name other).trans (if_neg different)

theorem run_keeps_buffers_apart (steps : List Step) (peak : Nat) (loans : Loans) (ran : empty.Runs steps peak loans) :
    loans.Orderly ∧ loans.pool.idle.length + loans.held.length ≤ peak ∧ loans.pool.idle.length ≤ min 64 peak ∧
      ∀ step, loans.Moves step (loans.step step) ∧ ∀ after, loans.Moves step after →
        match step with
        | .checkOut name capacity => loans.ChecksOut name capacity after
        | .write name bytes => loans.Writes name bytes after
        | .giveBack name => loans.GivesBack name after := by
  obtain ⟨orderly, total⟩ := runs_orderly empty loans steps peak empty_orderly ran
  have within : loans.pool.idle.length + loans.held.length ≤ peak := by
    rw [labels_length] at total
    exact Nat.le_trans total (Nat.max_le.mpr ⟨Nat.zero_le peak, Nat.le_refl peak⟩)
  refine ⟨orderly, within, Nat.le_min.mpr ⟨orderly.few, Nat.le_of_add_right_le within⟩, ?_⟩
  intro step
  refine ⟨step_moves loans step, fun after moves => ?_⟩
  cases step with
  | checkOut name capacity => exact checks_out loans after orderly name capacity moves
  | write name bytes => exact writes loans after name bytes moves
  | giveBack name => exact gives_back loans after name moves

def borrowing : List Step :=
  [.checkOut "page" 300000, .checkOut "row" 16, .write "row" [60, 116], .giveBack "page", .giveBack "row"]

theorem borrowing_leaves_one :
    empty.Runs borrowing 2 (run borrowing empty) ∧ (run borrowing empty).Orderly ∧
      (run borrowing empty).pool.idle = [⟨1, [], 16⟩] ∧
      ∃ taken, ((run borrowing empty).step (.checkOut "cell" 4)).find? "cell" = some taken ∧ taken.bytes = [] ∧
        taken.label = 1 := by
  have ran : empty.Runs borrowing 2 (run borrowing empty) := run_runs empty borrowing
  have idle : (run borrowing empty).pool.idle = [⟨1, [], 16⟩] := rfl
  obtain ⟨orderly, _, _, each⟩ := run_keeps_buffers_apart borrowing 2 _ ran
  obtain ⟨moves, comes⟩ := each (.checkOut "cell" 4)
  obtain ⟨taken, found, clean, _, reused, _⟩ := (comes _ moves).handed
  exact ⟨ran, orderly, idle, taken, found, clean, reused ⟨1, [], 16⟩ (congrArg List.head? idle)⟩

end Stencil.Loans
