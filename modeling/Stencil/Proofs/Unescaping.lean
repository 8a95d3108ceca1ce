import Stencil.Proofs.Entities
import Stencil.Proofs.Markup

set_option autoImplicit false

namespace Stencil

variable {σ : Type}

def entityAhead? (bytes : Bytes) : Option (Bytes × Bytes) :=
  entities.findSome? fun entry => ((encode entry.2).isPrefixOf? bytes).map fun after => (encode [entry.1], after)

theorem entityAhead?_found (bytes plain after : Bytes) (found : entityAhead? bytes = some (plain, after)) :
    ∃ entry ∈ entities, plain = encode [entry.1] ∧ bytes = encode entry.2 ++ after := by
  obtain ⟨entry, listed, here⟩ := List.exists_of_findSome?_eq_some found
  obtain ⟨rest, begins, same⟩ := Option.map_eq_some_iff.mp here
  cases same
  exact ⟨entry, listed, rfl, (List.isPrefixOf?_eq_some_iff_append_eq.mp begins).symm⟩

theorem entity_opens (entry : Char × List Char) (listed : entry ∈ entities) :
    ∃ name, encode entry.2 = 38 :: name ∧ 38 ∉ name := by
  have each : ∀ entry ∈ entities, encode entry.2 = 38 :: (encode entry.2).tail ∧ 38 ∉ (encode entry.2).tail := by decide
  exact ⟨_, each entry listed⟩

theorem entityAhead?_shorter (bytes plain after : Bytes) (found : entityAhead? bytes = some (plain, after)) :
    after.length < bytes.length := by
  obtain ⟨entry, listed, _, rfl⟩ := entityAhead?_found bytes plain after found
  obtain ⟨name, opens, _⟩ := entity_opens entry listed
  rw [opens, List.cons_append, List.length_cons, List.length_append]
  omega

theorem entityAhead?_none (byte : UInt8) (rest : Bytes) (other : byte ≠ 38) : entityAhead? (byte :: rest) = none := by
  cases found : entityAhead? (byte :: rest) with
  | none => rfl
  | some pair =>
      obtain ⟨entry, listed, _, begins⟩ := entityAhead?_found _ pair.1 pair.2 found
      obtain ⟨name, opens, _⟩ := entity_opens entry listed
      rw [opens] at begins
      cases begins
      exact absurd rfl other

theorem entityAhead?_entity (entry : Char × List Char) (listed : entry ∈ entities) (rest : Bytes) :
    entityAhead? (encode entry.2 ++ rest) = some (encode [entry.1], rest) := by
  simp only [entities, List.mem_cons, List.not_mem_nil, or_false] at listed
  rcases listed with rfl | rfl | rfl | rfl | rfl
  · rfl
  · rfl
  · rfl
  · rfl
  · rfl

def unescape (bytes : Bytes) : Bytes :=
  match bytes with
  | [] => []
  | byte :: rest =>
      match _found : entityAhead? (byte :: rest) with
      | some (plain, after) => plain ++ unescape after
      | none => byte :: unescape rest
termination_by bytes.length
decreasing_by
  · exact entityAhead?_shorter _ _ _ _found
  · exact Nat.lt_succ_self _

theorem unescape_entity (entry : Char × List Char) (listed : entry ∈ entities) (rest : Bytes) :
    unescape (encode entry.2 ++ rest) = encode [entry.1] ++ unescape rest := by
  have ahead := entityAhead?_entity entry listed rest
  obtain ⟨name, opens, _⟩ := entity_opens entry listed
  rw [opens, List.cons_append] at ahead ⊢
  rw [unescape]
  split
  · rename_i found
    rw [ahead] at found
    cases found
    rfl
  · rename_i found
    rw [ahead] at found
    cases found

theorem unescape_plain (byte : UInt8) (rest : Bytes) (other : byte ≠ 38) :
    unescape (byte :: rest) = byte :: unescape rest := by
  have ahead := entityAhead?_none byte rest other
  rw [unescape]
  split
  · rename_i found
    rw [ahead] at found
    cases found
  · rfl

theorem unmarked_other (byte : UInt8) (unmarked : ¬ isMarked byte = true) : byte ≠ 38 := by
  rintro rfl
  exact unmarked rfl

theorem unescape_replaced (bytes : Bytes) : unescape (bytes.flatMap replacement) = bytes := by
  induction bytes with
  | nil => rw [List.flatMap_nil, unescape]
  | cons byte rest ih =>
      rw [List.flatMap_cons]
      by_cases marked : isMarked byte = true
      · obtain ⟨entry, listed, _, plain, entity⟩ := marked_entity byte marked
        rw [entity, unescape_entity entry listed, plain, ih]
        rfl
      · rw [replacement_unmarked byte marked]
        exact (unescape_plain byte _ (unmarked_other byte marked)).trans (congrArg (byte :: ·) ih)

theorem suffix_beyond (byte : UInt8) (after front rest : Bytes) (absent : byte ∉ front)
    (suffix : byte :: after <:+ front ++ rest) : byte :: after <:+ rest := by
  induction front with
  | nil => exact suffix
  | cons first front ih =>
      rcases List.suffix_cons_iff.mp suffix with same | below
      · cases same
        exact absurd List.mem_cons_self absent
      · exact ih (List.not_mem_of_not_mem_cons absent) below

theorem ampersand_opens (bytes after : Bytes) (ampersand : 38 :: after <:+ bytes.flatMap replacement) :
    ∃ entry ∈ entities, encode entry.2 <+: 38 :: after := by
  induction bytes with
  | nil => cases List.eq_nil_of_suffix_nil ampersand
  | cons byte rest ih =>
      rw [List.flatMap_cons] at ampersand
      by_cases marked : isMarked byte = true
      · obtain ⟨entry, listed, _, _, entity⟩ := marked_entity byte marked
        obtain ⟨name, opens, single⟩ := entity_opens entry listed
        rw [entity, opens, List.cons_append] at ampersand
        rcases List.suffix_cons_iff.mp ampersand with here | later
        · refine ⟨entry, listed, ?_⟩
          rw [opens, here]
          exact List.prefix_append (38 :: name) _
        · exact ih (suffix_beyond 38 after name _ single later)
      · rw [replacement_unmarked byte marked] at ampersand
        refine ih (suffix_beyond 38 after [byte] _ ?_ ampersand)
        exact fun same => unmarked_other byte marked (List.mem_singleton.mp same).symm

theorem escape_injective : Function.Injective escape := by
  intro text other same
  rw [escape_eq, escape_eq] at same
  have bytes := congrArg unescape same
  rw [unescape_replaced, unescape_replaced] at bytes
  exact utf8_injective bytes

theorem quote_absent (text : String) : 34 ∉ escape text := by
  intro member
  have none_left := markup_escape text
  rw [markup, List.filter_eq_nil_iff] at none_left
  exact none_left 34 member rfl

theorem piece_ends (byte : UInt8) (left right after other : Bytes) (leftFree : byte ∉ left) (rightFree : byte ∉ right)
    (same : left ++ byte :: after = right ++ byte :: other) : left = right ∧ after = other := by
  induction left generalizing right with
  | nil =>
      cases right with
      | nil =>
          cases same
          exact ⟨rfl, rfl⟩
      | cons first right =>
          cases same
          exact absurd List.mem_cons_self rightFree
  | cons first left ih =>
      cases right with
      | nil =>
          cases same
          exact absurd List.mem_cons_self leftFree
      | cons second right =>
          obtain ⟨rfl, tails⟩ := List.cons_eq_cons.mp same
          obtain ⟨rfl, rest⟩ := ih right (List.not_mem_of_not_mem_cons leftFree)
            (List.not_mem_of_not_mem_cons rightFree) tails
          exact ⟨rfl, rest⟩

theorem attribute_tells (name value other : String) (after rest : Bytes)
    (same : attributeBytes (name, value) ++ after = attributeBytes (name, other) ++ rest) :
    value = other ∧ after = rest := by
  have split : ∀ value after, attributeBytes (name, value) ++ after =
      (32 :: utf8 name ++ [61, 34]) ++ (escape value ++ 34 :: after) := by
    intro value after
    simp [attributeBytes]
  rw [split, split] at same
  obtain ⟨bytes, later⟩ := piece_ends 34 _ _ after rest (quote_absent value) (quote_absent other)
    (List.append_cancel_left same)
  exact ⟨escape_injective bytes, later⟩

theorem attributes_tell (names values others : List String) (length : values.length = names.length)
    (otherLength : others.length = names.length) (after rest : Bytes)
    (same : (names.zip values).flatMap attributeBytes ++ after = (names.zip others).flatMap attributeBytes ++ rest) :
    values = others := by
  induction names generalizing values others with
  | nil => rw [List.eq_nil_of_length_eq_zero length, List.eq_nil_of_length_eq_zero otherLength]
  | cons name names ih =>
      obtain ⟨value, values, rfl⟩ := List.exists_cons_of_length_eq_add_one length
      obtain ⟨other, others, rfl⟩ := List.exists_cons_of_length_eq_add_one otherLength
      rw [List.zip_cons_cons, List.zip_cons_cons, List.flatMap_cons, List.flatMap_cons, List.append_assoc,
        List.append_assoc] at same
      obtain ⟨first, later⟩ := attribute_tells name value other _ _ same
      rw [first, ih values others (Nat.succ.inj length) (Nat.succ.inj otherLength) later]

def Node.opening? (node : Node σ) (world : σ) : Option Bytes := node.tags?.map fun tags => (tags.openTag world).out

theorem opening_tells (tag : String) (names values others : List String) (length : values.length = names.length)
    (otherLength : others.length = names.length)
    (same : openTagBytes tag (names.zip values) = openTagBytes tag (names.zip others)) : values = others := by
  rw [openTagBytes, openTagBytes] at same
  exact attributes_tell names values others length otherLength _ _
    (List.append_cancel_left (List.cons.inj same).2)

theorem escaping_loses_nothing (text : String) :
    unescape (escape text) = utf8 text ∧
      (∀ after, 38 :: after <:+ escape text → ∃ entry ∈ entities, encode entry.2 <+: 38 :: after) ∧
      (∀ other, escape text = escape other → text = other) ∧
      ∀ (tag : String) (names values others : List String), values.length = names.length →
        others.length = names.length →
          ∀ (dynamic otherDynamic : Bool) (children otherChildren : List (Node σ)) (world : σ),
            Node.opening? (.element tag (names.zip values) dynamic children) world =
                Node.opening? (.element tag (names.zip others) otherDynamic otherChildren) world ↔
              values = others := by
  refine ⟨?back, ?opens, fun other same => escape_injective same, ?tag⟩
  case back =>
    rw [escape_eq]
    exact unescape_replaced (utf8 text)
  case opens =>
    intro after ampersand
    rw [escape_eq] at ampersand
    exact ampersand_opens (utf8 text) after ampersand
  case tag =>
    intro tag names values others length otherLength dynamic otherDynamic children otherChildren world
    constructor
    · intro same
      exact opening_tells tag names values others length otherLength (Option.some.inj same)
    · rintro rfl
      rfl

def lookalike : String := "&lt;"

theorem lookalikes_told_apart :
    unescape (escape lookalike) = utf8 lookalike ∧ ["", "c"].length = 2 ∧ ["\x22 b=\x22c", ""].length = 2 ∧
      Node.opening? (.element "a" (["x", "b"].zip ["", "c"]) false [] : Node Nat) 0 ≠
        Node.opening? (.element "a" (["x", "b"].zip ["\x22 b=\x22c", ""]) false []) 0 := by
  obtain ⟨back, _, _, told⟩ := escaping_loses_nothing lookalike
  have apart := told "a" ["x", "b"] ["", "c"] ["\x22 b=\x22c", ""] rfl rfl false false [] [] 0
  exact ⟨back, rfl, rfl, fun same => absurd (apart.mp same) (by decide)⟩

end Stencil
