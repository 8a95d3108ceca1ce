import Mathlib.Data.List.Nodup
import Stencil.Loans

set_option autoImplicit false

namespace Stencil

structure Buffer.Widened (before : Buffer) (extra : Nat) (after : Buffer) : Prop where
  label : after.label = before.label
  bytes : after.bytes = before.bytes
  enough : before.bytes.length + extra ≤ after.capacity
  kept : before.capacity ≤ after.capacity

namespace Buffer

def append (bytes : Bytes) (buffer : Buffer) : Buffer := { buffer with bytes := buffer.bytes ++ bytes }

theorem reserve_widened (buffer : Buffer) (extra : Nat) : buffer.Widened extra (buffer.reserve extra) :=
  ⟨rfl, rfl, buffer.room.reserve_enough extra, buffer.room.reserve_kept extra⟩

end Buffer

namespace Pool

def next (pool : Pool) : Buffer :=
  match pool.idle with
  | first :: _ => first
  | [] => ⟨pool.made, [], 0⟩

def rest (pool : Pool) : Pool :=
  match pool.idle with
  | _ :: rest => { pool with idle := rest }
  | [] => { pool with made := pool.made + 1 }

@[simp] theorem take_eq (pool : Pool) (capacity : Nat) : pool.take capacity = (pool.next.reserve capacity, pool.rest) := by
  simp only [take, next, rest]
  cases pool.idle <;> rfl

theorem rest_idle (pool : Pool) : pool.rest.idle = pool.idle.tail := by
  obtain ⟨idle, made⟩ := pool
  cases idle <;> rfl

def shelved (returned : Option Buffer) (idle : List Buffer) : List Buffer :=
  match returned with
  | some buffer => if buffer.capacity ≤ 262144 ∧ idle.length < 64 then buffer.clear :: idle else idle
  | none => idle

theorem give_eq (pool : Pool) (buffer : Buffer) : pool.give buffer = ⟨shelved (some buffer) pool.idle, pool.made⟩ := by
  rw [give, shelved]
  by_cases small : buffer.capacity ≤ 262144
  · have fits : ¬ largestCapacity < buffer.capacity := Nat.not_lt.mpr small
    rw [if_neg fits]
    by_cases few : pool.idle.length < mostIdle
    · rw [if_pos few, if_pos ⟨small, few⟩]
    · rw [if_neg few, if_neg fun both => few both.2]
  · have large : largestCapacity < buffer.capacity := Nat.lt_of_not_le small
    rw [if_pos large, if_neg fun both => small both.1]

theorem shelved_cases (buffer : Buffer) (idle : List Buffer) :
    (buffer.capacity ≤ 262144 ∧ idle.length < 64) ∧ shelved (some buffer) idle = buffer.clear :: idle ∨
      shelved (some buffer) idle = idle := by
  by_cases keeps : buffer.capacity ≤ 262144 ∧ idle.length < 64
  · exact Or.inl ⟨keeps, if_pos keeps⟩
  · exact Or.inr (if_neg keeps)

theorem shelved_spare (returned : Option Buffer) (idle : List Buffer)
    (spare : ∀ buffer ∈ idle, buffer.bytes = [] ∧ buffer.capacity ≤ 262144) (few : idle.length ≤ 64) :
    (∀ buffer ∈ shelved returned idle, buffer.bytes = [] ∧ buffer.capacity ≤ 262144) ∧
      (shelved returned idle).length ≤ 64 := by
  cases returned with
  | none => exact ⟨spare, few⟩
  | some buffer =>
      rcases shelved_cases buffer idle with ⟨⟨small, room⟩, kept⟩ | dropped
      · rw [kept]
        exact ⟨List.forall_mem_cons.mpr ⟨⟨rfl, small⟩, spare⟩, room⟩
      · rw [dropped]
        exact ⟨spare, few⟩

end Pool

namespace Loans

def drawing (loans : Loans) : Loans := { loans with pool := loans.pool.rest }

def hand (name : String) (taken : Buffer) (loans : Loans) : Loans := { loans with held := (name, taken) :: loans.held }

def amend (name : String) (change : Buffer → Buffer) (loans : Loans) : Loans :=
  { loans with held := loans.held.map fun entry => if entry.1 == name then (name, change entry.2) else entry }

inductive Moves (loans : Loans) : Step → Loans → Prop where
  | checkOut (name : String) (capacity : Nat) (taken : Buffer) : loans.pool.next.Widened capacity taken →
      Moves loans (.checkOut name capacity) ((loans.drawing.giveBack name).hand name taken)
  | write (name : String) (bytes : Bytes) (room : Buffer → Buffer) :
      (∀ buffer : Buffer, buffer.Widened bytes.length (room buffer)) →
      Moves loans (.write name bytes) (loans.amend name fun buffer => (room buffer).append bytes)
  | giveBack (name : String) : Moves loans (.giveBack name) (loans.giveBack name)

theorem step_moves (loans : Loans) (step : Step) : loans.Moves step (loans.step step) := by
  cases step with
  | checkOut name capacity =>
      have same : loans.step (.checkOut name capacity) =
          (loans.drawing.giveBack name).hand name (loans.pool.next.reserve capacity) := by
        rw [Loans.step, Loans.checkOut, Pool.take_eq]
        rfl
      rw [same]
      exact .checkOut name capacity _ (loans.pool.next.reserve_widened capacity)
  | write name bytes => exact .write name bytes _ fun buffer => buffer.reserve_widened bytes.length
  | giveBack name => exact .giveBack name

theorem find?_none (loans : Loans) (name : String) :
    loans.find? name = none ↔ ∀ entry ∈ loans.held, (entry.1 == name) = false := by
  rw [find?, Option.map_eq_none_iff, List.find?_eq_none]
  simp only [Bool.not_eq_true]

theorem giveBack_eq (loans : Loans) (name : String) :
    loans.giveBack name =
      ⟨⟨Pool.shelved (loans.find? name) loans.pool.idle, loans.pool.made⟩,
        loans.held.filter fun entry => !(entry.1 == name)⟩ := by
  rw [giveBack]
  cases found : loans.find? name with
  | some buffer => simp only [Pool.give_eq]
  | none =>
      have others : loans.held.filter (fun entry => !(entry.1 == name)) = loans.held := by
        apply List.filter_eq_self.mpr
        intro entry member
        rw [(find?_none loans name).mp found entry member]
        rfl
      rw [others]
      rfl

theorem find?_filter (held : List (String × Buffer)) (name other : String) (different : other ≠ name) :
    (held.filter fun entry => !(entry.1 == name)).find? (fun entry => entry.1 == other) =
      held.find? fun entry => entry.1 == other := by
  rw [List.find?_filter]
  congr 1
  funext entry
  by_cases same : entry.1 = other
  · simp [same, different]
  · simp [same]

theorem find?_giveBack (loans : Loans) (name other : String) :
    (loans.giveBack name).find? other = if other = name then none else loans.find? other := by
  rw [giveBack_eq]
  by_cases same : other = name
  · rw [if_pos same, find?_none, same]
    intro entry member
    exact Bool.not_eq_true' _ |>.mp (List.mem_filter.mp member).2
  · rw [if_neg same, find?, find?_filter loans.held name other same, find?]

theorem find?_hand (loans : Loans) (name other : String) (taken : Buffer) :
    (loans.hand name taken).find? other = if other = name then some taken else loans.find? other := by
  rw [find?, hand, List.find?_cons]
  by_cases same : other = name
  · rw [if_pos same, same, beq_self_eq_true]
    rfl
  · rw [if_neg same, beq_false_of_ne fun equal => same equal.symm, find?]

theorem amend_name (name : String) (change : Buffer → Buffer) (entry : String × Buffer) :
    (if entry.1 == name then (name, change entry.2) else entry).1 = entry.1 := by
  by_cases same : entry.1 = name
  · rw [if_pos (beq_iff_eq.mpr same), same]
  · rw [if_neg fun equal => same (beq_iff_eq.mp equal)]

theorem find?_amend (loans : Loans) (name other : String) (change : Buffer → Buffer) :
    (loans.amend name change).find? other =
      if other = name then (loans.find? name).map change else loans.find? other := by
  have found : (loans.amend name change).find? other =
      (loans.held.find? fun entry => entry.1 == other).map fun entry =>
        (if entry.1 == name then (name, change entry.2) else entry).2 := by
    rw [find?, amend, List.find?_map, Option.map_map]
    simp only [Function.comp_def, amend_name]
  rw [found]
  by_cases same : other = name
  · rw [if_pos same, same, find?, Option.map_map]
    cases here : loans.held.find? fun entry => entry.1 == name with
    | none => rfl
    | some entry =>
        have named := List.find?_some here
        simp only [Option.map_some, named, if_true, Function.comp_apply]
  · rw [if_neg same, find?]
    cases here : loans.held.find? fun entry => entry.1 == other with
    | none => rfl
    | some entry =>
        have named := List.find?_some here
        have unnamed : (entry.1 == name) = false := by
          rw [beq_iff_eq.mp named]
          exact beq_false_of_ne same
        simp only [Option.map_some, unnamed, Bool.false_eq_true, if_false]

end Loans

end Stencil
