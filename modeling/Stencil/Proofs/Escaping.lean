import Stencil.Escape

set_option autoImplicit false

namespace Stencil

def isMarked (byte : UInt8) : Bool := isBracket byte || isQuote byte

def replacement (byte : UInt8) : Bytes := (entity? byte).getD [byte]

def offsetsFrom (position : Nat) (marked : UInt8 → Bool) : Bytes → List Nat
  | [] => []
  | byte :: rest =>
      if marked byte then position :: offsetsFrom (position + 1) marked rest else offsetsFrom (position + 1) marked rest

theorem offsets_from (position : Nat) (marked : UInt8 → Bool) (bytes : Bytes) :
    ((bytes.zipIdx position).filter fun entry => marked entry.1).map (·.2) = offsetsFrom position marked bytes := by
  induction bytes generalizing position with
  | nil => rfl
  | cons byte rest ih =>
      rw [List.zipIdx_cons, List.filter_cons, offsetsFrom, ← ih (position + 1)]
      split
      · rfl
      · rfl

theorem offsetsFrom_le (position : Nat) (marked : UInt8 → Bool) (bytes : Bytes) :
    ∀ offset ∈ offsetsFrom position marked bytes, position ≤ offset := by
  induction bytes generalizing position with
  | nil => exact fun _ member => absurd member List.not_mem_nil
  | cons byte rest ih =>
      have later := fun offset member => Nat.le_of_succ_le (ih (position + 1) offset member)
      rw [offsetsFrom]
      split
      · exact List.forall_mem_cons.mpr ⟨Nat.le_refl _, later⟩
      · exact later

theorem merge_first (first : Nat) (left right : List Nat) (ahead : ∀ offset ∈ right, first < offset) :
    (first :: left).merge right (· ≤ ·) = first :: left.merge right (· ≤ ·) := by
  cases right with
  | nil => rw [List.merge_right, List.merge_right]
  | cons next rest =>
      rw [List.cons_merge_cons, if_pos]
      exact decide_eq_true (Nat.le_of_lt (ahead next List.mem_cons_self))

theorem merge_second (first : Nat) (left right : List Nat) (ahead : ∀ offset ∈ left, first < offset) :
    left.merge (first :: right) (· ≤ ·) = first :: left.merge right (· ≤ ·) := by
  cases left with
  | nil => rw [List.nil_merge, List.nil_merge]
  | cons next rest =>
      rw [List.cons_merge_cons, if_neg]
      simpa using ahead next List.mem_cons_self

theorem bracket_not_quote (byte : UInt8) (bracket : isBracket byte = true) : isQuote byte = false := by
  simp only [isBracket, Bool.or_eq_true, beq_iff_eq] at bracket
  rcases bracket with (rfl | rfl) | rfl <;> rfl

theorem merge_offsets (position : Nat) (bytes : Bytes) :
    (offsetsFrom position isBracket bytes).merge (offsetsFrom position isQuote bytes) (· ≤ ·) =
      offsetsFrom position isMarked bytes := by
  induction bytes generalizing position with
  | nil => exact List.nil_merge _
  | cons byte rest ih =>
      rw [offsetsFrom, offsetsFrom, offsetsFrom, isMarked, ← ih (position + 1)]
      by_cases bracket : isBracket byte = true
      · rw [bracket, bracket_not_quote byte bracket]
        exact merge_first position _ _ (offsetsFrom_le (position + 1) isQuote rest)
      · by_cases quote : isQuote byte = true
        · rw [Bool.eq_false_iff.mpr bracket, quote]
          exact merge_second position _ _ (offsetsFrom_le (position + 1) isBracket rest)
        · rw [Bool.eq_false_iff.mpr bracket, Bool.eq_false_iff.mpr quote]
          rfl

theorem marks_eq (bytes : Bytes) : marks bytes = offsetsFrom 0 isMarked bytes := by
  rw [marks, offsets, offsets, offsets_from, offsets_from]
  exact merge_offsets 0 bytes

theorem entity?_marked (byte : UInt8) (marked : isMarked byte = true) : entity? byte = some (replacement byte) := by
  simp only [isMarked, isBracket, isQuote, Bool.or_eq_true, beq_iff_eq] at marked
  rcases marked with ((rfl | rfl) | rfl) | (rfl | rfl) <;> rfl

theorem replacement_unmarked (byte : UInt8) (unmarked : ¬ isMarked byte = true) : replacement byte = [byte] := by
  simp only [isMarked, isBracket, isQuote, Bool.or_eq_true, beq_iff_eq, not_or] at unmarked
  obtain ⟨⟨⟨ampersand, less⟩, greater⟩, double, single⟩ := unmarked
  rw [replacement, entity?, if_neg ampersand, if_neg less, if_neg greater, if_neg double, if_neg single]
  rfl

theorem splice?_done (position : Nat) (rest : Bytes) (done : List Bytes) (offsets : List Nat) :
    splice? position rest done offsets = (splice? position rest [] offsets).map (· ++ done) := by
  induction offsets generalizing position rest done with
  | nil => rfl
  | cons offset later ih =>
      simp only [splice?]
      split
      · rfl
      · cases rest.drop (offset - position) with
        | nil => rfl
        | cons byte beyond =>
            simp only
            cases entity? byte with
            | none => rfl
            | some replaced =>
                simp only
                rw [ih (offset + 1) beyond (replaced :: rest.take (offset - position) :: done),
                  ih (offset + 1) beyond [replaced, rest.take (offset - position)], Option.map_map]
                congr 1
                funext pieces
                simp

def spliced? (position : Nat) (rest : Bytes) (offsets : List Nat) : Option Bytes :=
  (splice? position rest [] offsets).map fun pieces => pieces.reverse.flatten

theorem spliced?_marked (position : Nat) (byte : UInt8) (rest : Bytes) (later : List Nat)
    (marked : isMarked byte = true) :
    spliced? position (byte :: rest) (position :: later) =
      (spliced? (position + 1) rest later).map (replacement byte ++ ·) := by
  rw [spliced?, splice?, if_neg (Nat.lt_irrefl position), Nat.sub_self, List.drop_zero]
  simp only [entity?_marked byte marked]
  rw [splice?_done, Option.map_map, spliced?, Option.map_map]
  congr 1
  funext pieces
  simp

theorem spliced?_unmarked (position : Nat) (byte : UInt8) (rest : Bytes) (offsets : List Nat)
    (ahead : ∀ offset ∈ offsets, position + 1 ≤ offset) :
    spliced? position (byte :: rest) offsets = (spliced? (position + 1) rest offsets).map (byte :: ·) := by
  cases offsets with
  | nil => simp [spliced?, splice?]
  | cons offset later =>
      obtain ⟨gap, rfl⟩ := Nat.exists_eq_add_of_le (ahead offset List.mem_cons_self)
      have here : position + 1 + gap - position = gap + 1 := by omega
      have next : position + 1 + gap - (position + 1) = gap := by omega
      rw [spliced?, spliced?, splice?, splice?, if_neg (by omega), if_neg (by omega), here, next, List.drop_succ_cons,
        List.take_succ_cons]
      cases rest.drop gap with
      | nil => rfl
      | cons marked beyond =>
          simp only
          cases entity? marked with
          | none => rfl
          | some replaced =>
              simp only
              rw [splice?_done _ _ [replaced, byte :: rest.take gap], splice?_done _ _ [replaced, rest.take gap],
                Option.map_map, Option.map_map, Option.map_map]
              congr 1
              funext pieces
              simp

theorem spliced?_offsets (position : Nat) (bytes : Bytes) :
    spliced? position bytes (offsetsFrom position isMarked bytes) = some (bytes.flatMap replacement) := by
  induction bytes generalizing position with
  | nil => rfl
  | cons byte rest ih =>
      rw [offsetsFrom, List.flatMap_cons]
      by_cases marked : isMarked byte = true
      · rw [if_pos marked, spliced?_marked position byte rest _ marked, ih, Option.map_some]
      · rw [if_neg marked, spliced?_unmarked position byte rest _ (offsetsFrom_le (position + 1) isMarked rest), ih,
          replacement_unmarked byte marked, Option.map_some, List.singleton_append]

theorem escapeBytes?_eq (bytes : Bytes) : escapeBytes? bytes = some (bytes.flatMap replacement) := by
  rw [escapeBytes?, marks_eq]
  exact spliced?_offsets 0 bytes

theorem escape_eq (text : String) : escape text = (utf8 text).flatMap replacement := by
  rw [escape, escapeBytes?_eq, Option.getD_some]

end Stencil
