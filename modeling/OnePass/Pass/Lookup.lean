import OnePass.Pass.State

/-!
What can be done with the next token, time after time. Whatever fails, anything may follow.
-/

namespace OnePass

/-- Something that is done with the next token. -/
inductive Lookup where
  | peek
  | next
  | check (k : Token.Kind)
  | nextIf (k : Token.Kind)
  | expect (k : Token.Kind)
  deriving DecidableEq

namespace Lookup

/-- What it gives if it does not fail. -/
abbrev Reply : Lookup → Type
  | peek | next | expect _ => Token
  | check _ => Bool
  | nextIf _ => Option Token

/-- The token that is taken. -/
def taken? : (l : Lookup) → l.Reply → Option Token
  | peek, _ | check _, _ => none
  | next, t | expect _, t => some t
  | nextIf _, found => found

end Lookup

namespace PassM

def lookUp : (l : Lookup) → PassM l.Reply
  | .peek => peek
  | .next => next
  | .check k => check k
  | .nextIf k => nextIf k
  | .expect k => expect k

/-- The tokens that are taken, and the pass behind them. -/
def lookUpAll : List Lookup → Pass → List Token × Pass
  | [], s => ([], s)
  | l :: ls, s =>
    match lookUp l s with
    | .ok reply s' =>
      let (ts, last) := lookUpAll ls s'
      ((l.taken? reply).toList ++ ts, last)
    | .error _ s' => lookUpAll ls s'

end PassM
end OnePass
