/-!
Instructions of the stack machine and their listing. `lit` pushes a value, `lod` pushes a slot,
`sto` pops into a slot, an operation pops its right and then its left operand and pushes the
result, and `wrt` pops a value and writes it.
-/

namespace OnePass

inductive Operation where
  | add
  | sub
  | mul
  | div
  deriving DecidableEq

inductive Instruction where
  | lit (value : Int)
  | lod (slot : Int)
  | sto (slot : Int)
  | operate (operation : Operation)
  | wrt
  deriving DecidableEq

namespace Instruction

inductive Opcode where
  | lit
  | lod
  | sto
  | operate (operation : Operation)
  | wrt
  deriving DecidableEq

namespace Opcode

def name : Opcode → String
  | lit => "LIT"
  | lod => "LOD"
  | sto => "STO"
  | operate .add => "ADD"
  | operate .sub => "SUB"
  | operate .mul => "MUL"
  | operate .div => "DIV"
  | wrt => "WRT"

def all : List Opcode :=
  [lit, lod, sto, operate .add, operate .sub, operate .mul, operate .div, wrt]

def ofName? (name : String) : Option Opcode := all.find? fun o => o.name == name

def takesOperand : Opcode → Bool
  | lit | lod | sto => true
  | operate _ | wrt => false

end Opcode

def opcode : Instruction → Opcode
  | lit _ => .lit
  | lod _ => .lod
  | sto _ => .sto
  | operate o => .operate o
  | wrt => .wrt

def operand? : Instruction → Option Int
  | lit n | lod n | sto n => some n
  | operate _ | wrt => none

/-- An opcode and an operand that do not go together. -/
inductive Mismatch where
  | missing (opcode : Opcode)
  | superfluous (opcode : Opcode)
  deriving DecidableEq

def Mismatch.message : Mismatch → String
  | missing o => o.name ++ " requires an operand"
  | superfluous o => o.name ++ " takes no operand"

def ofParts : Opcode → Option Int → Except Mismatch Instruction
  | .lit, some n => .ok (.lit n)
  | .lod, some n => .ok (.lod n)
  | .sto, some n => .ok (.sto n)
  | .operate o, none => .ok (.operate o)
  | .wrt, none => .ok .wrt
  | o, none => .error (.missing o)
  | o, some _ => .error (.superfluous o)

theorem ofParts_eq_ok_iff {o : Opcode} {operand : Option Int} {i : Instruction} :
    ofParts o operand = .ok i ↔ i.opcode = o ∧ i.operand? = operand := by
  cases i <;> cases o <;> cases operand <;> simp [ofParts, opcode, operand?, eq_comm]

def text (i : Instruction) : String :=
  match i.operand? with
  | some n => i.opcode.name ++ " " ++ toString n
  | none => i.opcode.name

/-- One line per instruction. -/
def listing (code : List Instruction) : String :=
  String.join (code.map fun i => i.text ++ "\n")

end Instruction
end OnePass
