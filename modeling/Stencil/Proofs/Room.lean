import Mathlib.Algebra.Order.Ring.Nat
import Stencil.Growth
import Stencil.Proofs.Rendition

set_option autoImplicit false

namespace Stencil

structure Room.Took (room : Room) (count : Nat) (after : Room) : Prop where
  used : after.used = room.used + count
  kept : room.capacity ≤ after.capacity
  fits : room.used ≤ room.capacity → after.used ≤ after.capacity

namespace Room

theorem took_nothing (room : Room) : room.Took 0 room := ⟨rfl, Nat.le_refl _, id⟩

theorem took_then {room between after : Room} {first second : Nat} (begun : room.Took first between)
    (ended : between.Took second after) : room.Took (first + second) after :=
  ⟨by rw [ended.used, begun.used, Nat.add_assoc], Nat.le_trans begun.kept ended.kept, ended.fits ∘ begun.fits⟩

theorem reserve_took (room : Room) (extra : Nat) : room.Took 0 (room.reserve extra) := by
  refine ⟨room.reserve_used extra, room.reserve_kept extra, fun fits => ?_⟩
  rw [reserve_used]
  exact Nat.le_trans fits (room.reserve_kept extra)

theorem extend_took (room : Room) (count : Nat) : room.Took count (room.extend count) := by
  refine ⟨congrArg (· + count) (room.reserve_used count), room.reserve_kept count, fun _ => ?_⟩
  rw [extend, reserve_used]
  exact room.reserve_enough count

theorem extendAll_took (room : Room) (counts : List Nat) : room.Took counts.sum (room.extendAll counts) := by
  induction counts generalizing room with
  | nil => exact took_nothing room
  | cons count rest ih => exact took_then (room.extend_took count) (ih (room.extend count))

theorem escaped_took (room : Room) (text : String) : room.Took (escape text).length (room.escaped text) := by
  have pieces : ((escapePieces text).map List.length).sum = (escape text).length := by
    rw [← List.length_flatten, escapePieces, escape, escapeBytes?]
    cases splice? 0 (utf8 text) [] (marks (utf8 text)) <;> rfl
  rw [← pieces, escaped, ← Nat.zero_add (List.sum _)]
  refine took_then ?_ (extendAll_took _ _)
  split
  · exact took_nothing room
  · exact room.reserve_took _

theorem attributePair_took (room : Room) (entry : String × String) :
    room.Took (attributeBytes entry).length (room.attributePair entry) := by
  have took := took_then (took_then (room.extendAll_took [1, (utf8 entry.1).length, 2]) (escaped_took _ entry.2))
    (extend_took _ 1)
  have length : (attributeBytes entry).length =
      [1, (utf8 entry.1).length, 2].sum + (escape entry.2).length + 1 := by
    simp only [attributeBytes, List.length_cons, List.length_append, List.sum_cons, List.sum_nil, List.length_nil]
    omega
  rw [length]
  exact took

theorem attributes_took (attributes : List (String × String)) (room : Room) :
    room.Took (attributes.flatMap attributeBytes).length
      (attributes.foldl (fun room entry => room.attributePair entry) room) := by
  induction attributes generalizing room with
  | nil => exact took_nothing room
  | cons entry rest ih =>
      rw [List.flatMap_cons, List.length_append]
      exact took_then (room.attributePair_took entry) (ih (room.attributePair entry))

theorem openTag_took (tag : String) (attributes : List (String × String)) (room : Room) :
    room.Took (openTagBytes tag attributes).length (room.openTag tag attributes) := by
  have took := took_then (took_then (room.extendAll_took [1, (utf8 tag).length]) (attributes_took attributes _))
    (extend_took _ 1)
  have length : (openTagBytes tag attributes).length =
      [1, (utf8 tag).length].sum + (attributes.flatMap attributeBytes).length + 1 := by
    simp only [openTagBytes, List.length_cons, List.length_append, List.sum_cons, List.sum_nil, List.length_nil]
    omega
  rw [length]
  exact took

theorem closeTag_took (tag : String) (childless : Bool) (room : Room) :
    room.Took (closeTagBytes tag childless).length (room.closeTag tag childless) := by
  rw [closeTag, closeTagBytes]
  split
  · exact took_nothing room
  · have took := room.extendAll_took [2, (utf8 tag).length, 1]
    have length : (60 :: 47 :: (utf8 tag ++ [62])).length = [2, (utf8 tag).length, 1].sum := by
      simp only [List.length_cons, List.length_append, List.sum_cons, List.sum_nil, List.length_nil]
      omega
    rw [length]
    exact took

theorem text_took (leaf : Text) (room : Room) : room.Took leaf.bytes.length (room.text leaf) := by
  obtain ⟨content, kind⟩ := leaf
  cases kind with
  | raw => exact room.extend_took _
  | plain => exact room.escaped_took content
  | live => exact room.escaped_took content

end Room

variable {σ : Type}

def Growth.Follows (growth : Growth σ) (effect : Effect σ) : Prop :=
  ∀ world room, room.Took (effect world).out.length (growth world room).room ∧
    (growth world room).world = (effect world).world ∧ (growth world room).fault = (effect world).fault

namespace Growth

theorem wide_follows (widen : Room → Room) (bytes : Bytes) (took : ∀ room : Room, room.Took bytes.length (widen room)) :
    (wide widen : Growth σ).Follows (.write bytes) := fun _ room => ⟨took room, rfl, rfl⟩

theorem skip_follows : (wide id : Growth σ).Follows .skip := wide_follows id [] Room.took_nothing

theorem ofEffect_follows (effect : Effect σ) : (ofEffect effect).Follows effect :=
  fun _ room => ⟨room.extend_took _, rfl, rfl⟩

theorem andThen_follows {first second : Growth σ} {before after : Effect σ} (begun : first.Follows before)
    (ended : second.Follows after) : (first.andThen second).Follows (before.andThen after) := by
  intro world room
  obtain ⟨took, left, fault⟩ := begun world room
  simp only [andThen, Effect.andThen, fault]
  cases faulted : (before world).fault with
  | some message => exact ⟨took, left, fault⟩
  | none =>
      obtain ⟨more, last, struck⟩ := ended (before world).world (first world room).room
      simp only [left, List.length_append]
      exact ⟨Room.took_then took more, last, struck⟩

end Growth

namespace Node

open Growth

mutual
theorem growth_follows : (node : Node σ) → node.growth.Follows node.render
  | .element tag attributes dynamic children => by
      rw [growth, render]
      exact andThen_follows (wide_follows _ _ (Room.openTag_took tag attributes))
        (andThen_follows (growthAll_follows children) (wide_follows _ _ (Room.closeTag_took tag children.isEmpty)))
  | .text leaf => by
      rw [growth, render]
      exact wide_follows _ _ (Room.text_took leaf)
  | .fragment children => by
      rw [growth, render]
      exact growthAll_follows children
  | .func body after => by
      rw [growth, render]
      exact fun world => growth_follows (body world) (after world)
  | .funcs body after => by
      rw [growth, render]
      exact fun world => growthAll_follows (body world) (after world)
  | .choice condition yes no => by
      rw [growth, render]
      cases condition with
      | true => exact growth_follows yes
      | false => exact growthOption_follows no
  | .custom dynamic tags body children => by
      rw [growth, render]
      exact ofEffect_follows body

theorem growthAll_follows : (nodes : List (Node σ)) → (growthAll nodes).Follows (renderAll nodes)
  | [] => by
      rw [growthAll, renderAll]
      exact skip_follows
  | node :: rest => by
      rw [growthAll, renderAll]
      exact andThen_follows (growth_follows node) (growthAll_follows rest)

theorem growthOption_follows : (node : Option (Node σ)) → (growthOption node).Follows (renderOption node)
  | none => by
      rw [growthOption, renderOption]
      exact skip_follows
  | some node => by
      rw [growthOption, renderOption]
      exact growth_follows node
end

end Node

theorem growPieces_follows (root : Node σ) (pieces : List Piece) :
    (growPieces root pieces).Follows (rendition root pieces) := by
  induction pieces with
  | nil => exact Growth.skip_follows
  | cons piece rest ih =>
      cases piece with
      | static bytes =>
          exact Growth.andThen_follows (Growth.wide_follows _ bytes fun room => room.extend_took bytes.length) ih
      | dynamic path =>
          rw [growPieces, rendition, Piece.rendition]
          cases root.resolve path with
          | ok node => exact Growth.andThen_follows node.growth_follows ih
          | error miss => exact ih

theorem Plan.grow_took (plan : Plan) (root : Node σ) (world : σ) (room : Room) :
    room.Took (plan.execute root world).out.length (plan.grow root world room) := by
  have followed := (growPieces_follows root plan.pieces world room).1
  rwa [← executePieces_outcome] at followed

end Stencil
