import Stencil.Json.Plain
import Stencil.Proofs.JsonTokens

set_option autoImplicit false

namespace Stencil.Json

theorem run_step (reader next : Reader) (token : Token) (later : List Token) (step : reader.step token = some next) :
    Reader.run reader (token :: later) = Reader.run next later := by
  rw [Reader.run, step]

-- A value may start where its array may also end: no value starts with a closing bracket.
theorem run_first (value : Json) (stack : List Frame) (later : List Token) :
    Reader.run (.wantValueOrClose stack) (tokens value ++ later) =
      Reader.run (.wantValue (.array [] :: stack)) (tokens value ++ later) := by
  cases value <;> rfl

theorem run_firstKey (member : List Glyph × Json) (stack : List Frame) (later : List Token) :
    Reader.run (.wantKeyOrClose stack) (oneTokens member ++ later) =
      Reader.run (.wantKey [] stack) (oneTokens member ++ later) := by
  cases member
  rfl

theorem itemTokens_cons (item : Json) (rest : List Json) :
    ∃ more, itemTokens (item :: rest) = tokens item ++ more := by
  cases rest with
  | nil => exact ⟨[], by rw [itemTokens, List.append_nil]⟩
  | cons next others => exact ⟨.comma :: itemTokens (next :: others), by rw [itemTokens]⟩

theorem memberTokens_cons (member : List Glyph × Json) (rest : List (List Glyph × Json)) :
    ∃ more, memberTokens (member :: rest) = oneTokens member ++ more := by
  cases rest with
  | nil => exact ⟨[], by rw [memberTokens, List.append_nil]⟩
  | cons next others => exact ⟨.comma :: memberTokens (next :: others), by rw [memberTokens]⟩

mutual
theorem run_value (value : Json) (stack : List Frame) (later : List Token) :
    Reader.run (.wantValue stack) (tokens value ++ later) = Reader.run (.finished value stack) later := by
  cases value with
  | null => rfl
  | bool value => rfl
  | number n => rfl
  | text glyphs => rfl
  | array items =>
      have opened : Reader.run (.wantValue stack) (tokens (.array items) ++ later) =
          Reader.run (.wantValueOrClose stack) (itemTokens items ++ .closeArray :: later) := by
        rw [tokens, List.cons_append, List.append_assoc]
        rfl
      rw [opened]
      cases items with
      | nil => rfl
      | cons item rest =>
          obtain ⟨more, split⟩ := itemTokens_cons item rest
          have inner := run_items (item :: rest) [] stack later (List.cons_ne_nil _ _)
          rw [split, List.append_assoc] at inner ⊢
          rw [run_first, inner]
          rfl
  | object members =>
      have opened : Reader.run (.wantValue stack) (tokens (.object members) ++ later) =
          Reader.run (.wantKeyOrClose stack) (memberTokens members ++ .closeObject :: later) := by
        rw [tokens, List.cons_append, List.append_assoc]
        rfl
      rw [opened]
      cases members with
      | nil => rfl
      | cons member rest =>
          obtain ⟨more, split⟩ := memberTokens_cons member rest
          have inner := run_members (member :: rest) [] stack later (List.cons_ne_nil _ _)
          rw [split, List.append_assoc] at inner ⊢
          rw [run_firstKey, inner]
          rfl

theorem run_items (items done : List Json) (stack : List Frame) (later : List Token) (filled : items ≠ []) :
    Reader.run (.wantValue (.array done :: stack)) (itemTokens items ++ .closeArray :: later) =
      Reader.run (.finished (.array (done.reverse ++ items)) stack) later := by
  cases items with
  | nil => exact absurd rfl filled
  | cons item rest =>
      cases rest with
      | nil =>
          rw [itemTokens, run_value item, run_step _ _ .closeArray later rfl, List.reverse_cons]
      | cons next others =>
          have tail := run_items (next :: others) (item :: done) stack later (List.cons_ne_nil _ _)
          rw [itemTokens, List.append_assoc, run_value item, List.cons_append, run_step _ _ .comma _ rfl, tail,
            List.reverse_cons, List.append_assoc, List.singleton_append]

theorem run_members (members done : List (List Glyph × Json)) (stack : List Frame) (later : List Token)
    (filled : members ≠ []) :
    Reader.run (.wantKey done stack) (memberTokens members ++ .closeObject :: later) =
      Reader.run (.finished (.object (done.reverse ++ members)) stack) later := by
  cases members with
  | nil => exact absurd rfl filled
  | cons member rest =>
      cases rest with
      | nil =>
          rw [memberTokens, run_one member, run_step _ _ .closeObject later rfl, List.reverse_cons]
      | cons next others =>
          have tail := run_members (next :: others) (member :: done) stack later (List.cons_ne_nil _ _)
          rw [memberTokens, List.append_assoc, run_one member, List.cons_append, run_step _ _ .comma _ rfl, tail,
            List.reverse_cons, List.append_assoc, List.singleton_append]

theorem run_one (member : List Glyph × Json) (done : List (List Glyph × Json)) (stack : List Frame)
    (later : List Token) :
    Reader.run (.wantKey done stack) (oneTokens member ++ later) =
      Reader.run (.finished member.2 (.object done member.1 :: stack)) later := by
  cases member with
  | mk key value => exact run_value value (.object done key :: stack) later
end

theorem ofTokens_tokens (document : Json) : ofTokens? (tokens document) = some document := by
  have read := run_value document [] []
  rw [List.append_nil] at read
  rw [ofTokens?, read]
  rfl

theorem ofChars_written (document : Json) (chars : List Char) (written : Written document chars) :
    ofChars? chars = some document := by
  rw [ofChars?, tokens_written document chars written]
  exact ofTokens_tokens document

end Stencil.Json
