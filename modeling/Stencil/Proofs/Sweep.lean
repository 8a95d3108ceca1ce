import Mathlib.Data.List.Sort
import Stencil.Proofs.Entities

set_option autoImplicit false

namespace Stencil

-- What a search for marked bytes has to yield. This leaves it no choice.
structure Finds (marked : UInt8 → Bool) (bytes : Bytes) (found : List Nat) : Prop where
  increasing : found.Pairwise (· < ·)
  complete : ∀ offset, offset ∈ found ↔ ∃ byte, bytes[offset]? = some byte ∧ marked byte = true

theorem offsetsFrom_increasing (position : Nat) (marked : UInt8 → Bool) (bytes : Bytes) :
    (offsetsFrom position marked bytes).Pairwise (· < ·) := by
  induction bytes generalizing position with
  | nil => exact .nil
  | cons byte rest ih =>
      rw [offsetsFrom]
      split
      · exact .cons (offsetsFrom_le (position + 1) marked rest) (ih (position + 1))
      · exact ih (position + 1)

theorem offsets_found (marked : UInt8 → Bool) (bytes : Bytes) : Finds marked bytes (offsets marked bytes) where
  increasing := by
    rw [offsets, offsets_from]
    exact offsetsFrom_increasing 0 marked bytes
  complete offset := by simp [offsets, List.mk_mem_zipIdx_iff_getElem?, and_comm]

theorem found_eq (marked : UInt8 → Bool) (bytes : Bytes) (found : List Nat) (finds : Finds marked bytes found) :
    found = offsets marked bytes := by
  have known := offsets_found marked bytes
  refine finds.increasing.eq_of_mem_iff known.increasing fun offset => ?_
  rw [finds.complete, known.complete]

def slice? (start stop : Nat) (bytes : Bytes) : Option Bytes :=
  if start ≤ stop ∧ stop ≤ bytes.length then some ((bytes.take stop).drop start) else none

-- The loop between two rounds: what the searches have still to yield, the offset of the first byte that is not yet
-- copied, and all that is written.
structure Sweep where
  brackets : List Nat
  quotes : List Nat
  position : Nat
  out : Bytes

namespace Sweep

def next? (sweep : Sweep) : Option (Nat × Sweep) :=
  match sweep.brackets, sweep.quotes with
  | [], [] => none
  | bracket :: brackets, [] => some (bracket, { sweep with brackets })
  | [], quote :: quotes => some (quote, { sweep with quotes })
  | bracket :: brackets, quote :: quotes =>
      if quote < bracket then some (quote, { sweep with quotes }) else some (bracket, { sweep with brackets })

inductive Round where
  | onward (sweep : Sweep)
  | done (out : Bytes)
  | failed

-- A round fails if it slices out of range or if the byte that it stops at has no entity.
def round (bytes : Bytes) (sweep : Sweep) : Round :=
  match sweep.next? with
  | none =>
      match slice? sweep.position bytes.length bytes with
      | some rest => .done (sweep.out ++ rest)
      | none => .failed
  | some (offset, searches) =>
      match slice? sweep.position offset bytes, bytes[offset]?.bind entity? with
      | some gap, some entity => .onward { searches with position := offset + 1, out := sweep.out ++ gap ++ entity }
      | _, _ => .failed

inductive Ends (bytes : Bytes) : Sweep → Nat → Bytes → Prop where
  | done (sweep : Sweep) (out : Bytes) : sweep.round bytes = .done out → Ends bytes sweep 0 out
  | onward (sweep next : Sweep) (rounds : Nat) (out : Bytes) : sweep.round bytes = .onward next →
      Ends bytes next rounds out → Ends bytes sweep (rounds + 1) out

def ahead (sweep : Sweep) : List Nat := sweep.brackets.merge sweep.quotes (· ≤ ·)

theorem ahead_none (sweep : Sweep) (finished : sweep.ahead = []) : sweep.next? = none := by
  obtain ⟨brackets, quotes, position, out⟩ := sweep
  obtain ⟨rfl, rfl⟩ : brackets = [] ∧ quotes = [] := by
    have none_left := congrArg List.length finished
    rw [ahead, List.length_merge, List.length_nil, Nat.add_eq_zero_iff] at none_left
    exact ⟨List.eq_nil_of_length_eq_zero none_left.1, List.eq_nil_of_length_eq_zero none_left.2⟩
  rfl

theorem ahead_some (sweep : Sweep) (offset : Nat) (later : List Nat) (more : sweep.ahead = offset :: later) :
    ∃ brackets quotes, sweep.next? = some (offset, ⟨brackets, quotes, sweep.position, sweep.out⟩) ∧
      brackets.merge quotes (· ≤ ·) = later := by
  obtain ⟨brackets, quotes, position, out⟩ := sweep
  rw [ahead] at more
  cases brackets with
  | nil =>
      rw [List.nil_merge] at more
      cases more
      exact ⟨[], later, rfl, List.nil_merge _⟩
  | cons bracket brackets =>
      cases quotes with
      | nil =>
          rw [List.merge_right] at more
          cases more
          exact ⟨later, [], rfl, List.merge_right _⟩
      | cons quote quotes =>
          rw [List.cons_merge_cons] at more
          by_cases nearer : quote < bracket
          · rw [if_neg (by simpa using nearer)] at more
            cases more
            exact ⟨bracket :: brackets, quotes, if_pos nearer, rfl⟩
          · rw [if_pos (by simpa using nearer)] at more
            cases more
            exact ⟨brackets, quote :: quotes, if_neg nearer, rfl⟩

theorem round_done (bytes : Bytes) (sweep : Sweep) (finished : sweep.ahead = [])
    (inside : sweep.position ≤ bytes.length) :
    sweep.round bytes = .done (sweep.out ++ bytes.drop sweep.position) := by
  simp [round, ahead_none sweep finished, slice?, inside]

theorem round_onward (bytes : Bytes) (sweep : Sweep) (offset : Nat) (later : List Nat)
    (more : sweep.ahead = offset :: later) (forward : sweep.position ≤ offset) (byte : UInt8)
    (found : bytes[offset]? = some byte) (entity : Bytes) (named : entity? byte = some entity) :
    ∃ next, sweep.round bytes = .onward next ∧ next.ahead = later ∧ next.position = offset + 1 ∧
      next.out = sweep.out ++ (bytes.take offset).drop sweep.position ++ entity := by
  obtain ⟨brackets, quotes, next, merged⟩ := ahead_some sweep offset later more
  have within : offset < bytes.length := (List.getElem?_eq_some_iff.mp found).1
  refine ⟨⟨brackets, quotes, offset + 1, _⟩, ?_, merged, rfl, rfl⟩
  simp [round, next, slice?, forward, Nat.le_of_lt within, found, named]

end Sweep

theorem spliced?_cons (bytes : Bytes) (position offset : Nat) (later : List Nat) (whole : Bytes)
    (spliced : spliced? position (bytes.drop position) (offset :: later) = some whole) :
    ∃ byte entity rest, position ≤ offset ∧ bytes[offset]? = some byte ∧ entity? byte = some entity ∧
      spliced? (offset + 1) (bytes.drop (offset + 1)) later = some rest ∧
      whole = (bytes.take offset).drop position ++ entity ++ rest := by
  rw [spliced?, splice?] at spliced
  by_cases behind : offset < position
  · rw [if_pos behind] at spliced
    cases spliced
  · obtain ⟨gap, rfl⟩ := Nat.exists_eq_add_of_le (Nat.le_of_not_lt behind)
    rw [if_neg behind, Nat.add_sub_cancel_left, List.drop_drop] at spliced
    cases here : bytes.drop (position + gap) with
    | nil =>
        rw [here] at spliced
        cases spliced
    | cons byte beyond =>
        have found : bytes[position + gap]? = some byte := by rw [← List.head?_drop, here, List.head?_cons]
        have after : beyond = bytes.drop (position + gap + 1) := by rw [← List.tail_drop, here, List.tail_cons]
        simp only [here] at spliced
        cases named : entity? byte with
        | none =>
            simp only [named] at spliced
            cases spliced
        | some entity =>
            simp only [named] at spliced
            rw [splice?_done, Option.map_map, after] at spliced
            obtain ⟨pieces, rest, rfl⟩ := Option.map_eq_some_iff.mp spliced
            refine ⟨byte, entity, pieces.reverse.flatten, Nat.le_add_right _ _, found, named, ?remaining, ?together⟩
            case remaining => rw [spliced?, rest, Option.map_some]
            case together => simp [List.drop_take]

theorem Sweep.ends_spliced (bytes : Bytes) (sweep : Sweep) (offsets : List Nat) (merged : sweep.ahead = offsets)
    (inside : sweep.position ≤ bytes.length) (rest : Bytes)
    (spliced : spliced? sweep.position (bytes.drop sweep.position) offsets = some rest) :
    Ends bytes sweep offsets.length (sweep.out ++ rest) := by
  induction offsets generalizing sweep rest with
  | nil =>
      have whole : bytes.drop sweep.position = rest := by simpa [spliced?, splice?] using spliced
      rw [← whole]
      exact .done sweep _ (round_done bytes sweep merged inside)
  | cons offset later ih =>
      obtain ⟨byte, entity, tail, forward, found, named, onward, rfl⟩ :=
        spliced?_cons bytes sweep.position offset later rest spliced
      obtain ⟨next, moved, left, position, out⟩ :=
        sweep.round_onward bytes offset later merged forward byte found entity named
      have within : next.position ≤ bytes.length := by
        rw [position]
        exact (List.getElem?_eq_some_iff.mp found).1
      rw [← position] at onward
      have ended := ih next left within tail onward
      rw [out, List.append_assoc, List.append_assoc] at ended
      rw [List.append_assoc]
      exact .onward sweep next later.length _ moved ended

-- Two searches of any making, over any text and after anything that was written before.
theorem escape_replaces_characters (text : String) (before : Bytes) (brackets quotes : List Nat)
    (first : Finds isBracket (utf8 text) brackets) (second : Finds isQuote (utf8 text) quotes) :
    Sweep.Ends (utf8 text) ⟨brackets, quotes, 0, before⟩ (brackets.length + quotes.length)
        (before ++ utf8 (escaped text)) ∧
      (splice? 0 (utf8 text) [before] (marks (utf8 text))).map (fun pieces => pieces.reverse.flatten) =
        some (before ++ utf8 (escaped text)) ∧
      escape text = utf8 (escaped text) ∧ (escape text).toByteArray.IsValidUTF8 := by
  have whole : spliced? 0 (utf8 text) (marks (utf8 text)) = some (utf8 (escaped text)) := by
    rw [marks_eq, spliced?_offsets, replaced_utf8]
  have escapes : escape text = utf8 (escaped text) := (escape_eq text).trans (replaced_utf8 text)
  refine ⟨?loop, ?spliced, escapes, ?valid⟩
  case loop =>
    rw [found_eq _ _ _ first, found_eq _ _ _ second, ← List.length_merge (· ≤ ·)]
    exact Sweep.ends_spliced (utf8 text) ⟨_, _, 0, before⟩ _ rfl (Nat.zero_le _) _ whole
  case spliced =>
    rw [spliced?] at whole
    obtain ⟨pieces, spliced, same⟩ := Option.map_eq_some_iff.mp whole
    rw [splice?_done, spliced, Option.map_some, Option.map_some, List.reverse_append, List.flatten_append, same]
    simp
  case valid =>
    rw [escapes, utf8_toByteArray]
    exact (escaped text).isValidUTF8

def note : String := String.ofList ['é', '<', '\x27', '&', 'z']

theorem note_replaced_after_ampersand :
    Finds isBracket (utf8 note) [2, 4] ∧ Finds isQuote (utf8 note) [3] ∧
      Sweep.Ends (utf8 note) ⟨[2, 4], [3], 0, [38]⟩ 3
        (38 :: encode ['é', '&', 'l', 't', ';', '&', '#', '3', '9', ';', '&', 'a', 'm', 'p', ';', 'z']) := by
  have bytes : utf8 note = encode ['é', '<', '\x27', '&', 'z'] := utf8_ofList _
  have brackets : Finds isBracket (utf8 note) [2, 4] := by
    rw [bytes]
    exact offsets_found isBracket _
  have quotes : Finds isQuote (utf8 note) [3] := by
    rw [bytes]
    exact offsets_found isQuote _
  obtain ⟨ended, _⟩ := escape_replaces_characters note [38] [2, 4] [3] brackets quotes
  refine ⟨brackets, quotes, ?_⟩
  rw [← replaced_utf8, bytes] at ended
  rw [bytes]
  exact ended

end Stencil
