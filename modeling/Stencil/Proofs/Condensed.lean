import Mathlib.Data.List.Chain
import Stencil.Plan.Basic

set_option autoImplicit false

namespace Stencil

def Piece.isStatic : Piece → Bool
  | .static _ => true
  | .dynamic _ => false

structure Condensed (pieces : List Piece) : Prop where
  filled : .static [] ∉ pieces
  apart : pieces.IsChain fun left right => left.isStatic = false ∨ right.isStatic = false

def prepend (bytes : Bytes) : List Piece → List Piece
  | .static next :: rest => .static (bytes ++ next) :: rest
  | pieces => if bytes = [] then pieces else .static bytes :: pieces

def condense : List Piece → List Piece
  | [] => []
  | .static bytes :: rest => prepend bytes (condense rest)
  | .dynamic path :: rest => .dynamic path :: condense rest

-- The cuts are forgotten here: a list of pieces is read byte by byte and path by path.
def Piece.symbols : Piece → List (UInt8 ⊕ Path)
  | .static bytes => bytes.map .inl
  | .dynamic path => [.inr path]

def symbols (pieces : List Piece) : List (UInt8 ⊕ Path) := pieces.flatMap Piece.symbols

def assemble : List (UInt8 ⊕ Path) → List Piece
  | [] => []
  | .inl byte :: rest => prepend [byte] (assemble rest)
  | .inr path :: rest => .dynamic path :: assemble rest

def StartsLive (pieces : List Piece) : Prop := ∀ piece ∈ pieces.head?, piece.isStatic = false

theorem condensed_nil : Condensed [] := ⟨List.not_mem_nil, .nil⟩

theorem condensed_dynamic_cons (path : Path) (rest : List Piece) :
    Condensed (.dynamic path :: rest) ↔ Condensed rest := by
  constructor
  · intro condensed
    exact ⟨fun member => condensed.filled (List.mem_cons_of_mem _ member), (List.isChain_cons.mp condensed.apart).2⟩
  · intro condensed
    refine ⟨?_, List.isChain_cons.mpr ⟨fun next _ => Or.inl rfl, condensed.apart⟩⟩
    intro member
    rcases List.mem_cons.mp member with atHead | later
    · cases atHead
    · exact condensed.filled later

theorem condensed_static_cons (bytes : Bytes) (rest : List Piece) :
    Condensed (.static bytes :: rest) ↔ bytes ≠ [] ∧ StartsLive rest ∧ Condensed rest := by
  constructor
  · intro condensed
    obtain ⟨apart, chain⟩ := List.isChain_cons.mp condensed.apart
    refine ⟨?_, ?_, fun member => condensed.filled (List.mem_cons_of_mem _ member), chain⟩
    · intro empty
      exact condensed.filled (by rw [empty]; exact List.mem_cons_self)
    · intro next atHead
      rcases apart next atHead with left | right
      · cases left
      · exact right
  · rintro ⟨nonempty, live, condensed⟩
    refine ⟨?_, List.isChain_cons.mpr ⟨fun next atHead => Or.inr (live next atHead), condensed.apart⟩⟩
    intro member
    rcases List.mem_cons.mp member with atHead | later
    · cases atHead
      exact nonempty rfl
    · exact condensed.filled later

theorem prepend_live (bytes : Bytes) (pieces : List Piece) (live : StartsLive pieces) :
    prepend bytes pieces = if bytes = [] then pieces else .static bytes :: pieces := by
  cases pieces with
  | nil => rfl
  | cons piece rest =>
      cases piece with
      | dynamic path => rfl
      | static next => cases live (.static next) rfl

theorem prepend_condensed (bytes : Bytes) (pieces : List Piece) (condensed : Condensed pieces) :
    Condensed (prepend bytes pieces) := by
  by_cases live : StartsLive pieces
  · rw [prepend_live bytes pieces live]
    by_cases empty : bytes = []
    · rw [if_pos empty]
      exact condensed
    · rw [if_neg empty]
      exact (condensed_static_cons bytes pieces).mpr ⟨empty, live, condensed⟩
  · cases pieces with
    | nil => exact absurd (fun _ member => by cases member) live
    | cons piece rest =>
        cases piece with
        | dynamic path => exact absurd (fun _ member => by cases member; rfl) live
        | static next =>
            obtain ⟨nonempty, after, tail⟩ := (condensed_static_cons next rest).mp condensed
            refine (condensed_static_cons (bytes ++ next) rest).mpr ⟨?_, after, tail⟩
            intro empty
            exact nonempty (List.append_eq_nil_iff.mp empty).2

theorem condense_condensed (pieces : List Piece) : Condensed (condense pieces) := by
  induction pieces with
  | nil => exact condensed_nil
  | cons piece rest ih =>
      cases piece with
      | static bytes => exact prepend_condensed bytes (condense rest) ih
      | dynamic path => exact (condensed_dynamic_cons path (condense rest)).mpr ih

@[simp] theorem symbols_cons (piece : Piece) (rest : List Piece) :
    symbols (piece :: rest) = piece.symbols ++ symbols rest := rfl

@[simp] theorem symbols_append (left right : List Piece) : symbols (left ++ right) = symbols left ++ symbols right :=
  List.flatMap_append

theorem symbols_prepend (bytes : Bytes) (pieces : List Piece) :
    symbols (prepend bytes pieces) = bytes.map .inl ++ symbols pieces := by
  cases pieces with
  | nil => by_cases empty : bytes = [] <;> simp [prepend, empty, symbols, Piece.symbols]
  | cons piece rest =>
      cases piece with
      | static next => simp [prepend, Piece.symbols]
      | dynamic path => by_cases empty : bytes = [] <;> simp [prepend, empty, Piece.symbols]

theorem symbols_condense (pieces : List Piece) : symbols (condense pieces) = symbols pieces := by
  induction pieces with
  | nil => rfl
  | cons piece rest ih =>
      cases piece with
      | static bytes => rw [condense, symbols_prepend, ih]; rfl
      | dynamic path => rw [condense, symbols_cons, ih]; rfl

theorem prepend_cons (byte : UInt8) (bytes : Bytes) (pieces : List Piece) :
    prepend [byte] (prepend bytes pieces) = prepend (byte :: bytes) pieces := by
  cases pieces with
  | nil => by_cases empty : bytes = [] <;> simp [prepend, empty]
  | cons piece rest =>
      cases piece with
      | static next => rfl
      | dynamic path => by_cases empty : bytes = [] <;> simp [prepend, empty]

theorem prepend_nil (pieces : List Piece) : prepend [] pieces = pieces := by
  cases pieces with
  | nil => rfl
  | cons piece rest => cases piece <;> rfl

theorem assemble_bytes (bytes : Bytes) (rest : List (UInt8 ⊕ Path)) :
    assemble (bytes.map .inl ++ rest) = prepend bytes (assemble rest) := by
  induction bytes with
  | nil => exact (prepend_nil (assemble rest)).symm
  | cons byte bytes ih =>
      rw [List.map_cons, List.cons_append, assemble, ih]
      exact prepend_cons byte bytes (assemble rest)

theorem assemble_symbols (pieces : List Piece) (condensed : Condensed pieces) : assemble (symbols pieces) = pieces := by
  induction pieces with
  | nil => rfl
  | cons piece rest ih =>
      cases piece with
      | static bytes =>
          obtain ⟨nonempty, live, tail⟩ := (condensed_static_cons bytes rest).mp condensed
          change assemble (bytes.map .inl ++ symbols rest) = .static bytes :: rest
          rw [assemble_bytes, ih tail, prepend_live bytes rest live, if_neg nonempty]
      | dynamic path =>
          have tail := (condensed_dynamic_cons path rest).mp condensed
          change .dynamic path :: assemble (symbols rest) = .dynamic path :: rest
          rw [ih tail]

theorem condensed_unique (left right : List Piece) (leftCondensed : Condensed left) (rightCondensed : Condensed right)
    (same : symbols left = symbols right) : left = right := by
  rw [← assemble_symbols left leftCondensed, same, assemble_symbols right rightCondensed]

theorem eq_condense (pieces reference : List Piece) (condensed : Condensed pieces)
    (same : symbols pieces = symbols reference) : pieces = condense reference :=
  condensed_unique pieces (condense reference) condensed (condense_condensed reference)
    (same.trans (symbols_condense reference).symm)

theorem condensed_reverse (pieces : List Piece) : Condensed pieces.reverse ↔ Condensed pieces := by
  have turned : ∀ pieces : List Piece, Condensed pieces → Condensed pieces.reverse := by
    intro pieces condensed
    refine ⟨fun member => condensed.filled (List.mem_reverse.mp member), List.isChain_reverse.mpr ?_⟩
    exact condensed.apart.imp fun _ _ => Or.symm
  constructor
  · intro condensed
    simpa only [List.reverse_reverse] using turned pieces.reverse condensed
  · exact turned pieces

theorem filterMap_path (pieces : List Piece) :
    pieces.filterMap Piece.path? = (symbols pieces).filterMap Sum.getRight? := by
  induction pieces with
  | nil => rfl
  | cons piece rest ih =>
      rw [symbols_cons, List.filterMap_append, ← ih]
      cases piece with
      | static bytes =>
          have pathless : (bytes.map Sum.inl : List (UInt8 ⊕ Path)).filterMap Sum.getRight? = [] := by
            simp [List.filterMap_map, Function.comp_def]
          rw [List.filterMap_cons_none rfl, Piece.symbols, pathless, List.nil_append]
      | dynamic path => rfl

theorem filterMap_path_condense (pieces : List Piece) :
    (condense pieces).filterMap Piece.path? = pieces.filterMap Piece.path? := by
  rw [filterMap_path, symbols_condense, ← filterMap_path]

end Stencil
