import OnePass.Token.Scan

/-!
All the tokens of a text, up to the end of the input or the first refusal, and what scanning gives
that goes on behind both.
-/

namespace OnePass.Token

/-- Tokens in the order of the text, the reason why there are no more unless the last one is the
end of the input, and the cursor behind them. -/
structure Sequence where
  tokens : List Token
  stopped : Option Diagnostic
  cursor : Cursor
  deriving DecidableEq

def Sequence.cons (t : Token) (s : Sequence) : Sequence := { s with tokens := t :: s.tokens }

def scanAll (limit : Int) (c : Cursor) : Sequence :=
  match _scanned : scan limit c with
  | (.error d, next) => ⟨[], some d, next⟩
  | (.ok t, next) =>
    if _more : t.kind = .eof then ⟨[t], none, next⟩ else (scanAll limit next).cons t
termination_by c.rest.length
decreasing_by
  rcases scan_progress limit c with ⟨here, next, ended, _⟩ | shorter
  · rw [ended] at _scanned
    cases _scanned
    exact absurd rfl _more
  · rwa [_scanned] at shorter

/-- All the tokens, or the first refusal. -/
def Sequence.result (s : Sequence) : Except Diagnostic (List Token) :=
  match s.stopped with
  | some d => .error d
  | none => .ok s.tokens

/-- What scanning gives time after time, each time under a limit of its own, and the cursor behind
it. -/
def scanEach : List Int → Cursor → List (Except Diagnostic Token) × Cursor
  | [], c => ([], c)
  | limit :: limits, c =>
    let (result, next) := scan limit c
    let (results, last) := scanEach limits next
    (result :: results, last)

end OnePass.Token
