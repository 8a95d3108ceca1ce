import Stencil.Proofs.Escaping
import Stencil.Proofs.Skeleton

set_option autoImplicit false

namespace Stencil

variable {σ τ : Type}

def isMarkup (byte : UInt8) : Bool := byte == 60 || byte == 62 || byte == 34 || byte == 39

def markup (bytes : Bytes) : Bytes := bytes.filter isMarkup

@[simp] theorem markup_append (left right : Bytes) :
    markup (left ++ right) = markup left ++ markup right := List.filter_append ..

theorem markup_cons (byte : UInt8) (rest : Bytes) : markup (byte :: rest) = markup [byte] ++ markup rest :=
  markup_append [byte] rest

theorem markup_replacement (byte : UInt8) : markup (replacement byte) = [] := by
  by_cases marked : isMarked byte = true
  · simp only [isMarked, isBracket, isQuote, Bool.or_eq_true, beq_iff_eq] at marked
    rcases marked with ((rfl | rfl) | rfl) | (rfl | rfl) <;> decide
  · rw [replacement_unmarked byte marked]
    simp only [isMarked, isBracket, isQuote, Bool.or_eq_true, beq_iff_eq, not_or] at marked
    simp [markup, isMarkup, marked]

theorem markup_escape (text : String) : markup (escape text) = [] := by
  rw [escape_eq, markup, List.filter_flatMap, List.flatMap_eq_nil_iff]
  exact fun byte _ => markup_replacement byte

def Text.SameMarkup (first second : Text) : Prop :=
  first.kind = second.kind ∧ (first.kind = .raw → first.content = second.content)

theorem text_markup (first second : Text) (same : first.SameMarkup second) : markup first.bytes = markup second.bytes := by
  obtain ⟨content, kind⟩ := first
  obtain ⟨other, otherKind⟩ := second
  obtain ⟨kinds, raws⟩ := same
  cases kinds
  cases kind with
  | raw =>
      cases raws rfl
      rfl
  | plain => exact (markup_escape content).trans (markup_escape other).symm
  | live => exact (markup_escape content).trans (markup_escape other).symm

theorem attribute_markup (entry : String × String) :
    markup (attributeBytes entry) = markup (utf8 entry.1) ++ [34, 34] := by
  have pieces : attributeBytes entry = [32] ++ (utf8 entry.1 ++ ([61, 34] ++ (escape entry.2 ++ [34]))) := rfl
  have blank : markup [32] = [] := rfl
  have opening : markup [61, 34] = [34] := rfl
  have closing : markup [34] = [34] := rfl
  rw [pieces, markup_append, markup_append, markup_append, markup_append, markup_escape, blank, opening, closing]
  rfl

theorem attributes_markup (left right : List (String × String)) (names : left.map Prod.fst = right.map Prod.fst) :
    markup (left.flatMap attributeBytes) = markup (right.flatMap attributeBytes) := by
  have only : ∀ attributes : List (String × String), markup (attributes.flatMap attributeBytes) =
      (attributes.map Prod.fst).flatMap fun name => markup (utf8 name) ++ [34, 34] := by
    intro attributes
    rw [markup, List.filter_flatMap, List.flatMap_map]
    exact List.flatMap_congr fun entry _ => attribute_markup entry
  rw [only, only, names]

theorem openTag_markup (tag : String) (left right : List (String × String))
    (names : left.map Prod.fst = right.map Prod.fst) :
    markup (openTagBytes tag left) = markup (openTagBytes tag right) := by
  rw [openTagBytes, openTagBytes, markup_cons, markup_cons _ (_ ++ _), markup_append, markup_append, markup_append,
    markup_append, attributes_markup left right names]

-- Trees of the kinds that are no implementations of a caller's own, equal but for escaped text and attribute values.
-- The worlds in which closures are called may differ too, as `related` says; closures keep them related.
inductive SameMarkup (related : σ → τ → Prop) : Node σ → Node τ → Prop where
  | element (tag : String) (left right : List (String × String)) (dynamic : Bool) (children : List (Node σ))
      (others : List (Node τ)) :
      left.map Prod.fst = right.map Prod.fst → List.Forall₂ (SameMarkup related) children others →
        SameMarkup related (.element tag left dynamic children) (.element tag right dynamic others)
  | text (first second : Text) : first.SameMarkup second → SameMarkup related (.text first) (.text second)
  | fragment (children : List (Node σ)) (others : List (Node τ)) :
      List.Forall₂ (SameMarkup related) children others → SameMarkup related (.fragment children) (.fragment others)
  | func (body : σ → Node σ) (after : σ → σ) (otherBody : τ → Node τ) (otherAfter : τ → τ) :
      (∀ world other, related world other → SameMarkup related (body world) (otherBody other)) →
      (∀ world other, related world other → related (after world) (otherAfter other)) →
        SameMarkup related (.func body after) (.func otherBody otherAfter)
  | funcs (body : σ → List (Node σ)) (after : σ → σ) (otherBody : τ → List (Node τ)) (otherAfter : τ → τ) :
      (∀ world other, related world other → List.Forall₂ (SameMarkup related) (body world) (otherBody other)) →
      (∀ world other, related world other → related (after world) (otherAfter other)) →
        SameMarkup related (.funcs body after) (.funcs otherBody otherAfter)
  | choice (condition : Bool) (yes : Node σ) (otherYes : Node τ) (no : Option (Node σ)) (otherNo : Option (Node τ)) :
      SameMarkup related yes otherYes → Option.Rel (SameMarkup related) no otherNo →
        SameMarkup related (.choice condition yes no) (.choice condition otherYes otherNo)

structure Outcome.Alike (related : σ → τ → Prop) (first : Outcome σ) (second : Outcome τ) : Prop where
  markup : markup first.out = markup second.out
  world : related first.world second.world
  calm : first.fault = none
  otherCalm : second.fault = none

def Effect.Alike (related : σ → τ → Prop) (first : Effect σ) (second : Effect τ) : Prop :=
  ∀ world other, related world other → Outcome.Alike related (first world) (second other)

variable {related : σ → τ → Prop}

theorem write_alike (left right : Bytes) (same : markup left = markup right) :
    Effect.Alike related (.write left) (.write right) := fun _ _ start => ⟨same, start, rfl, rfl⟩

theorem andThen_alike (first next : Effect σ) (second onward : Effect τ) (heads : Effect.Alike related first second)
    (tails : Effect.Alike related next onward) : Effect.Alike related (first.andThen next) (second.andThen onward) := by
  intro world other start
  have head := heads world other start
  have tail := tails _ _ head.world
  simp only [Effect.andThen, head.calm, head.otherCalm]
  refine ⟨?_, tail.world, tail.calm, tail.otherCalm⟩
  simp [head.markup, tail.markup]

mutual
theorem render_alike : (first : Node σ) → (second : Node τ) → SameMarkup related first second →
    Effect.Alike related first.render second.render
  | .element tag left dynamic children, _, same => by
      cases same with
      | element _ _ right _ _ others names each =>
          rw [Node.render, Node.render, childless_eq children others each]
          refine andThen_alike _ _ _ _ (write_alike _ _ (openTag_markup tag left right names)) ?_
          exact andThen_alike _ _ _ _ (renderAll_alike children others each) (write_alike _ _ rfl)
  | .text leaf, _, same => by
      cases same with
      | text _ other texts => exact write_alike _ _ (text_markup leaf other texts)
  | .fragment children, _, same => by
      cases same with
      | fragment _ others each => exact renderAll_alike children others each
  | .func body after, _, same => by
      cases same with
      | func _ _ otherBody otherAfter bodies afters =>
          intro world other start
          exact render_alike (body world) (otherBody other) (bodies world other start) _ _ (afters world other start)
  | .funcs body after, _, same => by
      cases same with
      | funcs _ _ otherBody otherAfter bodies afters =>
          intro world other start
          exact renderAll_alike (body world) (otherBody other) (bodies world other start) _ _ (afters world other start)
  | .choice condition yes no, _, same => by
      cases same with
      | choice _ _ otherYes _ otherNo chosen unchosen =>
          cases condition with
          | true => exact render_alike yes otherYes chosen
          | false => exact renderOption_alike no otherNo unchosen
  | .custom _ _ _ _, _, same => nomatch same

theorem renderAll_alike : (nodes : List (Node σ)) → (others : List (Node τ)) →
    List.Forall₂ (SameMarkup related) nodes others → Effect.Alike related (Node.renderAll nodes) (Node.renderAll others)
  | [], _, each => by
      cases each
      exact write_alike [] [] rfl
  | node :: rest, _, each => by
      cases each with
      | cons head tail =>
          exact andThen_alike _ _ _ _ (render_alike node _ head) (renderAll_alike rest _ tail)

theorem renderOption_alike : (node : Option (Node σ)) → (other : Option (Node τ)) →
    Option.Rel (SameMarkup related) node other → Effect.Alike related (Node.renderOption node) (Node.renderOption other)
  | none, _, same => by
      cases same
      exact write_alike [] [] rfl
  | some node, _, same => by
      cases same with
      | some chosen => exact render_alike node _ chosen
end

end Stencil
