import OnePass.Options
import OnePass.Pass.Run
import OnePass.Token.Sequence

/-!
Compiling a text: its instructions, its names with their slots, and the number of tokens, or the
first diagnostic; and the log of the work.
-/

namespace OnePass

structure Compilation where
  file : String
  code : List Instruction
  scope : Scope
  scanned : Nat
  deriving DecidableEq

namespace Options

/-- The pass over a text before its first step. -/
def pass (o : Options) (file source : String) : Pass :=
  .start (.start file source) o.limit o.storesFirst

def runPass (o : Options) (file source : String) : EStateM.Result Diagnostic Pass Unit :=
  PassM.program (o.pass file source)

def compile (o : Options) (file source : String) : Except Diagnostic Compilation :=
  match o.runPass file source with
  | .ok _ s => .ok ⟨file, s.code.toList, s.scope, s.scanned⟩
  | .error d _ => .error d

def compileLog (o : Options) (file source : String) : List Event :=
  .compiling file source.length ::
    match o.runPass file source with
    | .ok _ s => s.log.toList ++ [.compiled file s.code.size]
    | .error _ s => s.log.toList

def tokens (o : Options) (file source : String) : Except Diagnostic (List Token) :=
  (Token.scanAll o.limit (.start file source)).result

def tokensLog (o : Options) (file source : String) : List Event :=
  match o.tokens file source with
  | .ok _ => []
  | .error d => (Event.ofDiagnostic? d).toList

end Options
end OnePass
