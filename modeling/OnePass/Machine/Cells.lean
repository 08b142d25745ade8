import OnePass.Arithmetic

/-!
The machine whose only memory is its stack: slot `k` is cell `k` from the bottom. A cell at or above
the height of the stack cannot be read or written; what is stored has been popped before.
-/

namespace OnePass.Machine

/-- The cells, the top one first. -/
abbrev Cells := List Int

namespace Cells

def cell? (s : Cells) (slot : Int) : Option Int :=
  if 0 ≤ slot then s.reverse[slot.toNat]? else none

def set? (s : Cells) (slot n : Int) : Option Cells :=
  if 0 ≤ slot ∧ slot.toNat < s.length then some (s.reverse.set slot.toNat n).reverse else none

def step (a : Arithmetic) (s : Cells) : Instruction → Run Cells
  | .lit n => .silent (.ok (n :: s))
  | .lod slot =>
    match s.cell? slot with
    | some n => .silent (.ok (n :: s))
    | none => .silent (.error .unset)
  | .sto slot =>
    match s with
    | n :: rest =>
      match Cells.set? rest slot n with
      | some s => .silent (.ok s)
      | none => .silent (.error .unset)
    | [] => .silent (.error .underflow)
  | .operate o =>
    match s with
    | right :: left :: rest => .silent ((a.apply o left right).map fun n => n :: rest)
    | _ => .silent (.error .underflow)
  | .wrt =>
    match s with
    | n :: rest => ⟨[n], .ok rest⟩
    | [] => .silent (.error .underflow)

def exec (a : Arithmetic) (s : Cells) : List Instruction → Run Cells
  | [] => .silent (.ok s)
  | i :: is => (s.step a i).andThen fun s => Cells.exec a s is

theorem exec_append (a : Arithmetic) (s : Cells) (is js : List Instruction) :
    exec a s (is ++ js) = (exec a s is).andThen fun s => exec a s js := by
  induction is generalizing s with
  | nil => simp [exec]
  | cons i is inductionHypothesis =>
    simp only [List.cons_append, exec, Run.andThen_assoc, inductionHypothesis]

end Cells
end OnePass.Machine
