import OnePass.Program

/-!
The rules for names. A program is read as a sequence of events, in the order of its text: names
occur in three roles, and declarations and assignments are completed. The first occurrence that
breaks a rule is the violation of the program.
-/

namespace OnePass

inductive NameEvent where
  /-- A name where a declaration introduces it. -/
  | introduced (t : Token)
  /-- A name as an operand. -/
  | read (t : Token)
  /-- A name as the target of an assignment. -/
  | targeted (t : Token)
  | declared (t : Token) (isConstant hasValue : Bool)
  | assigned (t : Token)
  deriving DecidableEq

def Expression.events : Expression → List NameEvent
  | .name t => [.read t]
  | .number _ => []
  | .group e | .positive e | .negative e => e.events
  | .binary _ l r => l.events ++ r.events

def ConstantDeclaration.events (c : ConstantDeclaration) : List NameEvent :=
  [.introduced c.name, .declared c.name true true]

def VariableDeclaration.events (v : VariableDeclaration) : List NameEvent :=
  .introduced v.name ::
    match v.initial with
    | some e => e.events ++ [.declared v.name false true]
    | none => [.declared v.name false false]

def Statement.events : Statement → List NameEvent
  | .assign t e => .targeted t :: e.events ++ [.assigned t]
  | .print e => e.events
  | .empty => []

def Program.events (p : Program) : List NameEvent :=
  p.consts.flatMap ConstantDeclaration.events ++ p.vars.flatMap VariableDeclaration.events ++
    p.statements.flatMap Statement.events

/-- What is known of a declared name. -/
structure Known where
  first : Token
  isConstant : Bool
  hasValue : Bool
  deriving DecidableEq

inductive Violation where
  | redeclared (t first : Token)
  | undeclared (t : Token)
  | constantTarget (t : Token)
  | uninitialized (t : Token)
  deriving DecidableEq

abbrev Knowledge := List Known

namespace Knowledge

def find? (ks : Knowledge) (t : Token) : Option Known :=
  List.find? (fun k => k.first.spelling == t.spelling) ks

def violation? (ks : Knowledge) : NameEvent → Option Violation
  | .introduced t => (ks.find? t).map fun k => .redeclared t k.first
  | .read t =>
    match ks.find? t with
    | none => some (.undeclared t)
    | some k => if k.hasValue then none else some (.uninitialized t)
  | .targeted t =>
    match ks.find? t with
    | none => some (.undeclared t)
    | some k => if k.isConstant then some (.constantTarget t) else none
  | .declared _ _ _ | .assigned _ => none

def after (ks : Knowledge) : NameEvent → Knowledge
  | .declared t isConstant hasValue => ks ++ [⟨t, isConstant, hasValue⟩]
  | .assigned t =>
    ks.map fun k => if k.first.spelling = t.spelling then { k with hasValue := true } else k
  | _ => ks

def afterAll (ks : Knowledge) (es : List NameEvent) : Knowledge := es.foldl after ks

/-- The first event that breaks a rule. -/
def firstViolation? (ks : Knowledge) : List NameEvent → Option Violation
  | [] => none
  | e :: es =>
    match ks.violation? e with
    | some v => some v
    | none => (ks.after e).firstViolation? es

theorem firstViolation?_append (ks : Knowledge) (a b : List NameEvent) :
    ks.firstViolation? (a ++ b) =
      (ks.firstViolation? a).or ((ks.afterAll a).firstViolation? b) := by
  induction a generalizing ks with
  | nil => rfl
  | cons e a inductionHypothesis =>
    simp only [List.cons_append, firstViolation?]
    cases ks.violation? e with
    | some v => rfl
    | none => exact inductionHypothesis (ks.after e)

end Knowledge

def Program.violation? (p : Program) : Option Violation := Knowledge.firstViolation? [] p.events

end OnePass
