import OnePass.Program

/-!
Programs without initializers. What initializers do, assignments in front of the other statements
can do as well.

    const a = 1;             const a = 1;
    var x = a;               var x;
    var y;                   var y;
    var z = x + 1;           var z;
                             x = a;
                             z = x + 1;
    print(z);                print(z);
-/

namespace OnePass

namespace VariableDeclaration

def plain (v : VariableDeclaration) : VariableDeclaration := { v with initial := none }

/-- The assignment that can stand for an initializer. -/
def assignment? (v : VariableDeclaration) : Option Statement := v.initial.map (.assign v.name)

end VariableDeclaration

/-- The program in which assignments stand for the initializers. -/
def Program.deferred (p : Program) : Program where
  consts := p.consts
  vars := p.vars.map VariableDeclaration.plain
  statements := p.vars.filterMap VariableDeclaration.assignment? ++ p.statements

end OnePass
