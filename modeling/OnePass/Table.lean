import OnePass.Diagnostic
import OnePass.Scope

/-!
The table in which the names of a scope are kept: a record for each name, in the order of the
declarations, and a counter for the next slot. A request that fails may be followed by any other.
-/

namespace OnePass

namespace Table

/-- What is kept for a name. -/
structure Record where
  isConstant : Bool
  isInitialized : Bool
  slot : Nat
  location : Option Location
  deriving DecidableEq

/-- The record once its name has a value. -/
def Record.initialized (r : Record) : Record := { r with isInitialized := true }

/-- Set the record of a name, in its place if the name has one already and behind all others
otherwise. -/
def set (name : String) (r : Record) : List (String × Record) → List (String × Record)
  | [] => [(name, r)]
  | p :: ps => if p.1 = name then (name, r) :: ps else p :: set name r ps

inductive Request where
  | add (d : Declaration) (sourceLine : Option String)
  | checkNew (name : String) (location : Option Location) (sourceLine : Option String)
  | markInitialized (name : String)
  | find (name : String)
  | contains (name : String)
  | size
  | nextSlot
  | names
  | slots
  deriving DecidableEq

inductive Answer where
  | done
  | record (r : Record)
  | found (r : Option Record)
  | flag (b : Bool)
  | number (n : Nat)
  | names (names : List String)
  | slots (slots : List (String × Nat))
  deriving DecidableEq

inductive Refusal where
  | redeclared (d : Diagnostic)
  | unknown (name : String)
  deriving DecidableEq

end Table

/-- What is kept for a declared name that has a slot. -/
def Declaration.record (d : Declaration) (slot : Nat) : Table.Record :=
  ⟨d.isConstant, d.isInitialized, slot, d.location⟩

structure Table where
  records : List (String × Table.Record)
  nextSlot : Nat
  deriving DecidableEq

namespace Table

def empty : Table := ⟨[], 0⟩

def find? (t : Table) (name : String) : Option Record := t.records.lookup name

def contains (t : Table) (name : String) : Bool := (t.find? name).isSome

def size (t : Table) : Nat := t.records.length

def names (t : Table) : List String := t.records.map Prod.fst

def slots (t : Table) : List (String × Nat) := t.records.map fun p => (p.1, p.2.slot)

/-- Refuse a name that has a record. -/
def checkNew (t : Table) (name : String) (location : Option Location)
    (sourceLine : Option String) : Except Refusal Unit :=
  match t.find? name with
  | some r => .error (.redeclared ⟨.redeclared name r.location, location, sourceLine⟩)
  | none => .ok ()

/-- Give a new name the next slot. -/
def add (t : Table) (d : Declaration) (sourceLine : Option String) :
    Except Refusal (Record × Table) := do
  t.checkNew d.name d.location sourceLine
  let r := d.record t.nextSlot
  return (r, ⟨set d.name r t.records, t.nextSlot + 1⟩)

/-- Note that a name has a value. -/
def markInitialized (t : Table) (name : String) : Except Refusal (Record × Table) :=
  match t.find? name with
  | some r => .ok (r.initialized, { t with records := set name r.initialized t.records })
  | none => .error (.unknown name)

/-- The answer to a request, and the table behind it. -/
def answer (t : Table) : Request → Except Refusal Answer × Table
  | .add d sourceLine =>
    match t.add d sourceLine with
    | .ok (r, t') => (.ok (.record r), t')
    | .error e => (.error e, t)
  | .checkNew name location sourceLine =>
    ((t.checkNew name location sourceLine).map fun _ => .done, t)
  | .markInitialized name =>
    match t.markInitialized name with
    | .ok (r, t') => (.ok (.record r), t')
    | .error e => (.error e, t)
  | .find name => (.ok (.found (t.find? name)), t)
  | .contains name => (.ok (.flag (t.contains name)), t)
  | .size => (.ok (.number t.size), t)
  | .nextSlot => (.ok (.number t.nextSlot), t)
  | .names => (.ok (.names t.names), t)
  | .slots => (.ok (.slots t.slots), t)

/-- The table behind requests, whatever they were answered. -/
def after (t : Table) : List Request → Table
  | [] => t
  | r :: rs => (t.answer r).2.after rs

/-- The declarations that requests add, each with the requests that come behind it. -/
def additions (t : Table) : List Request → List (Declaration × List Request)
  | [] => []
  | r :: rs =>
    let (result, next) := t.answer r
    match r, result with
    | .add d _, .ok _ => (d, rs) :: next.additions rs
    | _, _ => next.additions rs

end Table
end OnePass
