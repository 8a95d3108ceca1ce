import Stencil.Json.Plain
import Stencil.Proofs.JsonGrammar

set_option autoImplicit false

namespace Stencil.Json

inductive Inside (part : Json) : Json → Prop where
  | self : Inside part part
  | item (item : Json) (items : List Json) : Inside part item → item ∈ items → Inside part (.array items)
  | value (member : List Glyph × Json) (members : List (List Glyph × Json)) : Inside part member.2 →
      member ∈ members → Inside part (.object members)

structure Legible (Ranged : Numeral → Prop) (document : Json) : Prop where
  texts : ∀ glyphs, Inside (.text glyphs) document → ∃ chars, Means glyphs chars
  keys : ∀ members, Inside (.object members) document → ∀ member ∈ members, ∃ chars, Means member.1 chars
  numbers : ∀ n, Inside (.number n) document → Ranged n

structure Tame (Ranged : Numeral → Prop) (members : List (List Glyph × Json)) : Prop where
  legible : Legible Ranged (.object members)
  shallow : ∀ member ∈ members, member.2.depth ≤ 100

theorem decodes (glyphs : List Glyph) (meant : ∃ chars, Means glyphs chars) : (decodeGlyphs glyphs).isSome = true := by
  obtain ⟨chars, means⟩ := meant
  rw [means_decoded glyphs chars means]
  rfl

theorem legible_weaken (Ranged Wider : Numeral → Prop) (document : Json) (legible : Legible Ranged document)
    (wider : ∀ n, Inside (.number n) document → Ranged n → Wider n) : Legible Wider document :=
  ⟨legible.texts, legible.keys, fun n inside => wider n inside (legible.numbers n inside)⟩

theorem legible_item (Ranged : Numeral → Prop) (items : List Json) (legible : Legible Ranged (.array items)) (item : Json)
    (member : item ∈ items) : Legible Ranged item where
  texts glyphs inside := legible.texts glyphs (.item item items inside member)
  keys members inside := legible.keys members (.item item items inside member)
  numbers n inside := legible.numbers n (.item item items inside member)

theorem legible_value (Ranged : Numeral → Prop) (members : List (List Glyph × Json))
    (legible : Legible Ranged (.object members)) (member : List Glyph × Json) (listed : member ∈ members) :
    Legible Ranged member.2 where
  texts glyphs inside := legible.texts glyphs (.value member members inside listed)
  keys inner inside := legible.keys inner (.value member members inside listed)
  numbers n inside := legible.numbers n (.value member members inside listed)

theorem spells_item (items : List Json) (chars : List Char) (spelled : SpellsItems items chars) :
    ∀ item ∈ items, ∃ own, Spells item own := by
  induction items generalizing chars with
  | nil => nofun
  | cons item rest ih =>
      cases spelled with
      | last _ _ own _ _ first _ => exact List.forall_mem_singleton.mpr ⟨own, first⟩
      | more _ next others _ own _ later _ first _ listed => exact List.forall_mem_cons.mpr ⟨⟨own, first⟩, ih later listed⟩

theorem spells_value (member : List Glyph × Json) (chars : List Char) (spelled : SpellsMember member chars) :
    ∃ own, Spells member.2 own := by
  cases spelled with
  | intro key value quoted before after own _ _ _ first => exact ⟨own, first⟩

theorem spells_member (members : List (List Glyph × Json)) (chars : List Char) (spelled : SpellsMembers members chars) :
    ∀ member ∈ members, ∃ own, Spells member.2 own := by
  induction members generalizing chars with
  | nil => nofun
  | cons member rest ih =>
      cases spelled with
      | last _ _ own _ _ first _ => exact List.forall_mem_singleton.mpr (spells_value member own first)
      | more _ next others _ own _ later _ first _ listed =>
          exact List.forall_mem_cons.mpr ⟨spells_value member own first, ih later listed⟩

theorem written_members (members : List (List Glyph × Json)) (chars : List Char)
    (written : Written (.object members) chars) : ∀ member ∈ members, ∃ own, Spells member.2 own := by
  cases written with
  | intro _ _ _ _ spelled _ =>
      cases spelled with
      | object _ within listed => exact spells_member members within listed

theorem spells_inside (part document : Json) (inside : Inside part document) (chars : List Char)
    (spelled : Spells document chars) : ∃ own, Spells part own := by
  induction inside generalizing chars with
  | self => exact ⟨chars, spelled⟩
  | item item items _ listed ih =>
      cases spelled with
      | array _ within words =>
          obtain ⟨own, first⟩ := spells_item items within words item listed
          exact ih own first
  | value member members _ listed ih =>
      cases spelled with
      | object _ within words =>
          obtain ⟨own, first⟩ := spells_member members within words member listed
          exact ih own first

section

variable (ranged : Numeral → Bool)

mutual
theorem readable_legible (document : Json) (legible : Legible (ranged · = true) document) :
    document.readable ranged = true := by
  cases document with
  | null => rfl
  | bool value => rfl
  | number n => exact legible.numbers n .self
  | text glyphs => exact decodes glyphs (legible.texts glyphs .self)
  | array items => exact items_readable items fun item member => legible_item _ items legible item member
  | object members =>
      exact members_readable members fun member listed =>
        ⟨legible.keys members .self member listed, legible_value _ members legible member listed⟩

theorem items_readable (items : List Json) (each : ∀ item ∈ items, Legible (ranged · = true) item) :
    itemsReadable ranged items = true := by
  cases items with
  | nil => rfl
  | cons item rest =>
      have first := readable_legible item (each item List.mem_cons_self)
      have others := items_readable rest fun next member => each next (List.mem_cons_of_mem item member)
      rw [itemsReadable, first, others]
      rfl

theorem members_readable (members : List (List Glyph × Json))
    (each : ∀ member ∈ members, (∃ chars, Means member.1 chars) ∧ Legible (ranged · = true) member.2) :
    membersReadable ranged members = true := by
  cases members with
  | nil => rfl
  | cons member rest =>
      have first := member_readable member (each member List.mem_cons_self)
      have others := members_readable rest fun next listed => each next (List.mem_cons_of_mem member listed)
      rw [membersReadable, first, others]
      rfl

theorem member_readable (member : List Glyph × Json)
    (each : (∃ chars, Means member.1 chars) ∧ Legible (ranged · = true) member.2) :
    memberReadable ranged member = true := by
  cases member with
  | mk key value =>
      rw [memberReadable, decodes key each.1, readable_legible value each.2]
      rfl
end

theorem items_readable_each (items : List Json) (readable : itemsReadable ranged items = true) :
    ∀ item ∈ items, item.readable ranged = true := by
  induction items with
  | nil => nofun
  | cons item rest ih =>
      rw [itemsReadable, Bool.and_eq_true] at readable
      intro other listed
      rcases List.mem_cons.mp listed with rfl | later
      · exact readable.1
      · exact ih readable.2 other later

theorem members_readable_each (members : List (List Glyph × Json)) (readable : membersReadable ranged members = true) :
    ∀ member ∈ members, (decodeGlyphs member.1).isSome = true ∧ member.2.readable ranged = true := by
  induction members with
  | nil => nofun
  | cons member rest ih =>
      rw [membersReadable, Bool.and_eq_true] at readable
      intro other listed
      rcases List.mem_cons.mp listed with rfl | later
      · cases other
        exact Bool.and_eq_true_iff.mp readable.1
      · exact ih readable.2 other later

theorem inside_readable (part document : Json) (inside : Inside part document)
    (readable : document.readable ranged = true) : part.readable ranged = true := by
  induction inside with
  | self => exact readable
  | item item items _ listed ih => exact ih (items_readable_each ranged items readable item listed)
  | value member members _ listed ih => exact ih (members_readable_each ranged members readable member listed).2

theorem legible_iff (document : Json) : Legible (ranged · = true) document ↔ document.readable ranged = true := by
  refine ⟨readable_legible ranged document, fun readable => ⟨?_, ?_, ?_⟩⟩
  · intro glyphs inside
    obtain ⟨chars, decoded⟩ := Option.isSome_iff_exists.mp (inside_readable ranged _ document inside readable)
    exact ⟨chars, decoded_means glyphs chars decoded⟩
  · intro members inside member listed
    have each := members_readable_each ranged members (inside_readable ranged _ document inside readable) member listed
    obtain ⟨chars, decoded⟩ := Option.isSome_iff_exists.mp each.1
    exact ⟨chars, decoded_means member.1 chars decoded⟩
  · exact fun n inside => inside_readable ranged _ document inside readable

end

theorem tame_flat (Ranged : Numeral → Prop) (members : List (List Glyph × Json))
    (each : ∀ member ∈ members, (∃ key, Means member.1 key) ∧ ∃ n, member.2 = .number n ∧ Ranged n) :
    Tame Ranged members := by
  have only : ∀ part, Inside part (.object members) → part = .object members ∨ ∃ n, part = .number n ∧ Ranged n := by
    intro part inside
    cases inside with
    | self => exact .inl rfl
    | value member _ inner listed =>
        obtain ⟨-, n, number, ranged⟩ := each member listed
        rw [number] at inner
        cases inner
        exact .inr ⟨n, rfl, ranged⟩
  refine ⟨⟨?_, ?_, ?_⟩, fun member listed => ?_⟩
  · intro glyphs inside
    rcases only _ inside with same | ⟨n, same, -⟩ <;> cases same
  · intro inner inside member listed
    rcases only _ inside with same | ⟨n, same, -⟩
    · cases same
      exact (each member listed).1
    · cases same
  · intro n inside
    rcases only _ inside with same | ⟨m, same, ranged⟩
    · cases same
    · cases same
      exact ranged
  · obtain ⟨-, n, number, -⟩ := each member listed
    rw [number]
    exact Nat.zero_le 100

end Stencil.Json
