import OnePass.Program

/-!
The code of a program, from its tree. A name's slot is its position among the declared names.

    constant            LIT value
    operand name        LOD slot
    operand number      LIT number
    -e                  LIT 0, e, SUB
    l op r              l, r, op
    var x = e           e, STO slot
    x = e               e, STO slot
    print(e)            e, WRT

Where first values are not stored, the STO of an initializer and of the first assignment to a
variable without one is left out.
-/

namespace OnePass

def Expression.code (names : List String) : Expression → List Instruction
  | .name t => [.lod (names.idxOf t.spelling)]
  | .number t => [.lit t.number]
  | .group e | .positive e => e.code names
  | .negative e => .lit 0 :: e.code names ++ [.operate .sub]
  | .binary o l r => l.code names ++ r.code names ++ [.operate o]

def ConstantDeclaration.code (c : ConstantDeclaration) : List Instruction := [.lit c.value]

def VariableDeclaration.code (names : List String) (storesFirst : Bool) (v : VariableDeclaration) :
    List Instruction :=
  match v.initial with
  | some e =>
    e.code names ++ if storesFirst then [.sto (names.idxOf v.name.spelling)] else []
  | none => []

/-- The code of statements, where some names have values already. -/
def Statement.codeAll (names : List String) (storesFirst : Bool) :
    List String → List Statement → List Instruction
  | _, [] => []
  | valued, .assign t e :: ss =>
    let stores := storesFirst || valued.contains t.spelling
    e.code names ++ (if stores then [.sto (names.idxOf t.spelling)] else []) ++
      codeAll names storesFirst (t.spelling :: valued) ss
  | valued, .print e :: ss => e.code names ++ .wrt :: codeAll names storesFirst valued ss
  | valued, .empty :: ss => codeAll names storesFirst valued ss

/-- The names that have a value once everything is declared. -/
def Program.valued (p : Program) : List String :=
  (p.consts.map fun c => c.name.spelling) ++
    (p.vars.filter fun v => v.initial.isSome).map fun v => v.name.spelling

def Program.code (p : Program) (storesFirst : Bool) : List Instruction :=
  p.consts.flatMap ConstantDeclaration.code ++
    p.vars.flatMap (VariableDeclaration.code p.names storesFirst) ++
    Statement.codeAll p.names storesFirst p.valued p.statements

end OnePass
