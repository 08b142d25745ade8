import OnePass.Arithmetic

/-!
The machine with an operand stack and a separate store of slots.
-/

namespace OnePass.Machine

structure Slots where
  /-- The operands, the top one first. -/
  stack : List Int
  slots : Int → Option Int

namespace Slots

def push (s : Slots) (n : Int) : Slots := { s with stack := n :: s.stack }

def set (s : Slots) (slot n : Int) : Slots :=
  { s with slots := fun x => if x = slot then some n else s.slots x }

def step (a : Arithmetic) (s : Slots) : Instruction → Run Slots
  | .lit n => .silent (.ok (s.push n))
  | .lod slot =>
    match s.slots slot with
    | some n => .silent (.ok (s.push n))
    | none => .silent (.error .unset)
  | .sto slot =>
    match s.stack with
    | n :: stack => .silent (.ok ({ s with stack }.set slot n))
    | [] => .silent (.error .underflow)
  | .operate o =>
    match s.stack with
    | right :: left :: stack =>
      .silent ((a.apply o left right).map fun n => { s with stack := n :: stack })
    | _ => .silent (.error .underflow)
  | .wrt =>
    match s.stack with
    | n :: stack => ⟨[n], .ok { s with stack }⟩
    | [] => .silent (.error .underflow)

def exec (a : Arithmetic) (s : Slots) : List Instruction → Run Slots
  | [] => .silent (.ok s)
  | i :: is => (s.step a i).andThen fun s => s.exec a is

theorem exec_append (a : Arithmetic) (s : Slots) (is js : List Instruction) :
    s.exec a (is ++ js) = (s.exec a is).andThen fun s => s.exec a js := by
  induction is generalizing s with
  | nil => simp [exec]
  | cons i is inductionHypothesis =>
    simp only [List.cons_append, exec, Run.andThen_assoc, inductionHypothesis]

end Slots
end OnePass.Machine
