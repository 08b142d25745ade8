import OnePass.Instruction
import OnePass.Log
import OnePass.Scope
import OnePass.Token.Scan

/-!
The state of the pass over a text and the steps it is made of: tokens with one token of lookahead,
names, and instructions. A failing step keeps what was done before it. Main statement: a step that
takes a token other than the end of the input makes the rest of the input smaller.
-/

namespace OnePass

/-- Where the one pass over a text has got to, and what it has found. -/
structure Pass where
  cursor : Cursor
  /-- The greatest literal allowed. -/
  limit : Int
  /-- Whether the first value of a variable is stored in its slot. -/
  storesFirst : Bool
  lookahead : Option Token
  scope : Scope
  code : Array Instruction
  log : Array Event
  /-- How many tokens have been scanned. -/
  scanned : Nat

abbrev PassM := EStateM Diagnostic Pass

namespace Pass

def start (cursor : Cursor) (limit : Int) (storesFirst : Bool) : Pass :=
  ⟨cursor, limit, storesFirst, none, .empty, #[], #[], 0⟩

/-- The characters still to be read, the token ahead counted as one unless it is the end. -/
def size (s : Pass) : Nat :=
  s.cursor.rest.length +
    match s.lookahead with
    | some t => if t.kind = .eof then 0 else 1
    | none => 0

end Pass

namespace PassM

variable {α β : Type}

/-- Scan a token. An illegal character is also logged. -/
def scan : PassM Token := fun s =>
  match Token.scan s.limit s.cursor with
  | (.ok t, cursor) => .ok t { s with cursor, scanned := s.scanned + 1 }
  | (.error d, cursor) =>
    .error d { s with cursor, log := s.log ++ (Event.ofDiagnostic? d).toArray }

/-- The next token, which stays ahead. -/
def peek : PassM Token := do
  match (← get).lookahead with
  | some t => return t
  | none =>
    let t ← scan
    modify fun s => { s with lookahead := some t }
    return t

/-- Forget the token ahead. -/
def drop : PassM Unit := modify fun s => { s with lookahead := none }

def next : PassM Token := do
  let t ← peek
  drop
  return t

def check (k : Token.Kind) : PassM Bool := return (← peek).kind == k

def nextIf (k : Token.Kind) : PassM (Option Token) := do
  let t ← peek
  if t.kind = k then
    drop
    return some t
  else return none

/-- Fail at a token. -/
def refuse (t : Token) (cause : Diagnostic.Cause) : PassM α := fun s =>
  .error ⟨cause, some t.start, some (s.cursor.lineText t.start.line)⟩ s

def expect (k : Token.Kind) : PassM Token := do
  let t ← peek
  if t.kind = k then
    drop
    return t
  else refuse t (.unexpected [k] t)

def emit (i : Instruction) : PassM Unit := modify fun s => { s with code := s.code.push i }

/-- Store the first value of a variable, where first values are stored at all. -/
def storeFirst (slot : Nat) : PassM Unit :=
  modify fun s => if s.storesFirst then { s with code := s.code.push (.sto slot) } else s

def find? (name : String) : PassM (Option Entry) := return (← get).scope.find? name

/-- Fail if a token's name is declared. -/
def checkNew (t : Token) : PassM Unit := do
  match ← find? t.spelling with
  | some e => refuse t (.redeclared t.spelling e.declaration.location)
  | none => return

/-- The entry of a token's name. -/
def resolve (t : Token) : PassM Entry := do
  match ← find? t.spelling with
  | some e => return e
  | none => refuse t (.undeclared t.spelling)

/-- Declare a token's name, and give its slot. -/
def declare (t : Token) (isConstant isInitialized : Bool) : PassM Nat := do
  let s ← get
  match s.scope.declare ⟨t.spelling, isConstant, isInitialized, some t.start⟩ with
  | .error e => refuse t (.redeclared t.spelling e.declaration.location)
  | .ok scope =>
    let slot := s.scope.size
    set { s with scope, log := s.log.push (.declared isConstant t.spelling slot) }
    return slot

/-- Note that a token's name has a value. -/
def markInitialized (t : Token) : PassM Unit := do
  let s ← get
  match s.scope.markInitialized? t.spelling with
  | some scope => set { s with scope }
  | none => refuse t (.undeclared t.spelling)

/-! ### What a step that succeeds does to the rest of the input -/

theorem bind_eq_ok {x : PassM α} {f : α → PassM β} {s s' : Pass} {b : β} :
    (x >>= f) s = .ok b s' ↔ ∃ a t, x s = .ok a t ∧ f a t = .ok b s' := by
  simp only [bind, EStateM.bind]
  cases x s <;> simp [and_assoc]

@[simp]
theorem pure_eq_ok {s s' : Pass} {a b : α} :
    (pure a : PassM α) s = .ok b s' ↔ a = b ∧ s = s' := by
  simp [pure, EStateM.pure]

@[simp]
theorem get_eq_ok {s s' t : Pass} :
    (get : PassM Pass) s = .ok t s' ↔ s = t ∧ s = s' := by
  change EStateM.Result.ok s s = .ok t s' ↔ _
  simp

@[simp]
theorem modify_eq_ok {f : Pass → Pass} {s s' : Pass} {u : Unit} :
    (modify f : PassM Unit) s = .ok u s' ↔ f s = s' := by
  change EStateM.Result.ok () (f s) = .ok u s' ↔ _
  simp

@[simp]
theorem refuse_ne_ok {t : Token} {cause : Diagnostic.Cause} {s s' : Pass} {a : α} :
    refuse t cause s ≠ .ok a s' := by
  simp [refuse]

theorem scan_ok {s s' : Pass} {t : Token} (h : scan s = .ok t s') :
    s'.lookahead = s.lookahead ∧
      (if t.kind = .eof then s'.cursor.rest.length ≤ s.cursor.rest.length
        else s'.cursor.rest.length < s.cursor.rest.length) := by
  unfold scan at h
  rcases Token.scan_progress s.limit s.cursor with ⟨here, next, ended, nothing⟩ | shorter
  · rw [ended] at h
    cases h
    simp [nothing]
  · split at h
    next cursor read =>
      cases h
      rw [read] at shorter
      refine ⟨rfl, ?_⟩
      split
      · exact Nat.le_of_lt shorter
      · exact shorter
    next => cases h

theorem peek_ok {s s' : Pass} {t : Token} (h : peek s = .ok t s') :
    s'.size ≤ s.size ∧ s'.lookahead = some t := by
  simp only [peek, bind_eq_ok, get_eq_ok] at h
  obtain ⟨_, _, ⟨rfl, rfl⟩, h⟩ := h
  cases ahead : s.lookahead with
  | some held =>
    simp only [ahead, pure_eq_ok] at h
    obtain ⟨rfl, rfl⟩ := h
    exact ⟨Nat.le_refl _, ahead⟩
  | none =>
    simp only [ahead, bind_eq_ok, modify_eq_ok, pure_eq_ok] at h
    obtain ⟨_, u, scanned, _, _, rfl, rfl, rfl⟩ := h
    refine ⟨?_, rfl⟩
    have := (scan_ok scanned).2
    simp only [Pass.size, ahead]
    split
    next ended =>
      rw [if_pos ended] at this
      omega
    next more =>
      rw [if_neg more] at this
      omega

/-- Dropping the token ahead takes one from the size, unless the token is the end. -/
theorem size_drop {s s' : Pass} {t : Token} {u : Unit} (ahead : s.lookahead = some t)
    (h : drop s = .ok u s') :
    s'.size ≤ s.size ∧ (t.kind ≠ .eof → s'.size < s.size) := by
  simp only [drop, modify_eq_ok] at h
  subst h
  simp only [Pass.size, ahead]
  split <;> simp_all

theorem next_ok {s s' : Pass} {t : Token} (h : next s = .ok t s') :
    s'.size ≤ s.size ∧ (t.kind ≠ .eof → s'.size < s.size) := by
  simp only [next, bind_eq_ok, pure_eq_ok] at h
  obtain ⟨_, _, peeked, _, _, dropped, rfl, rfl⟩ := h
  obtain ⟨before, ahead⟩ := peek_ok peeked
  obtain ⟨after, strict⟩ := size_drop ahead dropped
  exact ⟨Nat.le_trans after before, fun k => Nat.lt_of_lt_of_le (strict k) before⟩

theorem nextIf_ok {s s' : Pass} {k : Token.Kind} {r : Option Token}
    (h : nextIf k s = .ok r s') :
    s'.size ≤ s.size ∧ (r.isSome → k ≠ .eof → s'.size < s.size) := by
  simp only [nextIf, bind_eq_ok] at h
  obtain ⟨t, _, peeked, h⟩ := h
  obtain ⟨before, ahead⟩ := peek_ok peeked
  split at h
  next same =>
    simp only [bind_eq_ok, pure_eq_ok] at h
    obtain ⟨_, _, dropped, rfl, rfl⟩ := h
    obtain ⟨after, strict⟩ := size_drop ahead dropped
    subst same
    exact ⟨Nat.le_trans after before, fun _ k => Nat.lt_of_lt_of_le (strict k) before⟩
  next =>
    obtain ⟨rfl, rfl⟩ := pure_eq_ok.1 h
    exact ⟨before, by simp⟩

theorem expect_ok {s s' : Pass} {k : Token.Kind} {t : Token} (h : expect k s = .ok t s') :
    t.kind = k ∧ s'.size ≤ s.size ∧ (k ≠ .eof → s'.size < s.size) := by
  simp only [expect, bind_eq_ok] at h
  obtain ⟨t, _, peeked, h⟩ := h
  obtain ⟨before, ahead⟩ := peek_ok peeked
  split at h
  next same =>
    simp only [bind_eq_ok, pure_eq_ok] at h
    obtain ⟨_, _, dropped, rfl, rfl⟩ := h
    obtain ⟨after, strict⟩ := size_drop ahead dropped
    subst same
    exact ⟨rfl, Nat.le_trans after before, fun k => Nat.lt_of_lt_of_le (strict k) before⟩
  next => exact absurd h refuse_ne_ok

theorem size_emit {s s' : Pass} {i : Instruction} {u : Unit} (h : emit i s = .ok u s') :
    s'.size = s.size := by
  simp only [emit, modify_eq_ok] at h
  subst h
  rfl

theorem size_storeFirst {s s' : Pass} {slot : Nat} {u : Unit}
    (h : storeFirst slot s = .ok u s') : s'.size = s.size := by
  simp only [storeFirst, modify_eq_ok] at h
  subst h
  split <;> rfl

theorem size_markInitialized {s s' : Pass} {t : Token} {u : Unit}
    (h : markInitialized t s = .ok u s') : s'.size = s.size := by
  simp only [markInitialized, bind_eq_ok, get_eq_ok] at h
  obtain ⟨_, _, ⟨rfl, rfl⟩, h⟩ := h
  cases result : s.scope.markInitialized? t.spelling with
  | none => simp [result] at h
  | some scope =>
    simp only [result] at h
    cases h
    rfl

theorem checkNew_ok {s s' : Pass} {t : Token} {u : Unit} (h : checkNew t s = .ok u s') :
    s' = s := by
  simp only [checkNew, find?, bind_eq_ok, get_eq_ok, pure_eq_ok] at h
  obtain ⟨_, _, ⟨_, _, ⟨rfl, rfl⟩, rfl, rfl⟩, h⟩ := h
  cases search : s.scope.find? t.spelling <;> simp_all

theorem resolve_ok {s s' : Pass} {t : Token} {e : Entry} (h : resolve t s = .ok e s') :
    s' = s := by
  simp only [resolve, find?, bind_eq_ok, get_eq_ok, pure_eq_ok] at h
  obtain ⟨_, _, ⟨_, _, ⟨rfl, rfl⟩, rfl, rfl⟩, h⟩ := h
  cases search : s.scope.find? t.spelling <;> simp_all

theorem size_declare {s s' : Pass} {t : Token} {isConstant isInitialized : Bool} {slot : Nat}
    (h : declare t isConstant isInitialized s = .ok slot s') : s'.size = s.size := by
  simp only [declare, bind_eq_ok, get_eq_ok] at h
  obtain ⟨_, _, ⟨rfl, rfl⟩, h⟩ := h
  cases result : s.scope.declare ⟨t.spelling, isConstant, isInitialized, some t.start⟩ with
  | error e => simp [result] at h
  | ok scope =>
    simp only [result, bind_eq_ok, pure_eq_ok] at h
    obtain ⟨_, _, written, rfl, rfl⟩ := h
    cases written
    rfl

end PassM
end OnePass
