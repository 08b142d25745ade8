import Mathlib.Data.List.Forall2
import OnePass.Program.Renaming
import OnePass.Proofs.Pass.Agreement
import OnePass.Proofs.Pass.Settled

/-!
Two passes over two texts whose tokens stand for each other. A pass looks at kinds, at numbers, and
at whether two names are the same, so what it does to the one text it does to the other: the goals,
the names and the failures stand for each other as the tokens do, and the code is the same.
-/

namespace OnePass

/-- Which tokens stand for each other. They have the same kinds and numbers, and two names are the
same where their counterparts are. -/
structure Pairing where
  Pairs : Token → Token → Prop
  kind : ∀ {t u}, Pairs t u → u.kind = t.kind
  number : ∀ {t u}, Pairs t u → t.kind = .uint → u.number = t.number
  name : ∀ {t u t' u'}, Pairs t u → Pairs t' u' → t.kind = .ident → t'.kind = .ident →
    (t.spelling = t'.spelling ↔ u.spelling = u'.spelling)

namespace Pairing

variable (p : Pairing)

/-- Identifiers that stand for each other. -/
def Names (t u : Token) : Prop := p.Pairs t u ∧ t.kind = .ident

/-- Declarations of such identifiers. -/
inductive Declarations : Declaration → Declaration → Prop
  | mk {t u isConstant hasValue} : p.Names t u →
      Declarations ⟨t.spelling, isConstant, hasValue, some t.start⟩
        ⟨u.spelling, isConstant, hasValue, some u.start⟩

def Scopes (scope scope' : Scope) : Prop :=
  List.Forall₂ p.Declarations scope.declarations scope'.declarations

def Entries (e e' : Entry) : Prop := p.Declarations e.declaration e'.declaration ∧ e'.slot = e.slot

/-- The same goal, with the tokens that stand for those it keeps. -/
inductive Goals : Goal → Goal → Prop
  | same {g} : g.relies = false → Goals g g
  | constantValue {t u} : p.Names t u → Goals (.constantValue t) (.constantValue u)
  | constantEnd {t u value} : p.Names t u → Goals (.constantEnd t value) (.constantEnd u value)
  | variableValue {t u} : p.Names t u → Goals (.variableValue t) (.variableValue u)
  | variableEnd {t u hasValue} : p.Names t u →
      Goals (.variableEnd t hasValue) (.variableEnd u hasValue)
  | assignmentEnd {t u e e'} : p.Names t u → p.Entries e e' →
      Goals (.assignmentEnd t e) (.assignmentEnd u e')

/-- Neither text can be read on, or the same cause is met at tokens that stand for each other. -/
def Diagnostics (d e : Diagnostic) : Prop :=
  d.cause.phase = .lexical ∧ e.cause.phase = .lexical ∨
    ∃ t u, p.Pairs t u ∧ d.location = some t.start ∧ e.location = some u.start ∧
      d.cause.Corresponds p.Names t u e.cause

/-- The next scans give tokens that stand for each other, up to where neither text can be read. -/
def Cursors (limit limit' : Int) : Nat → Cursor → Cursor → Prop
  | 0, _, _ => True
  | n + 1, c, c' =>
    (∃ t u next next', Token.scan limit c = (.ok t, next) ∧ Token.scan limit' c' = (.ok u, next') ∧
      p.Pairs t u ∧ Cursors limit limit' n next next') ∨
    ∃ d e next next', Token.scan limit c = (.error d, next) ∧
      Token.scan limit' c' = (.error e, next')

/-- What two passes have found so far. -/
structure Finds (s s' : Pass) : Prop where
  scopes : p.Scopes s.scope s'.scope
  code : s'.code = s.code

/-- Two passes that have found the same, and have tokens before them that stand for each other. -/
structure Passes (s s' : Pass) : Prop extends p.Finds s s' where
  mode : s'.storesFirst = s.storesFirst
  ahead : Option.Rel p.Pairs s.lookahead s'.lookahead
  cursors : ∀ n, p.Cursors s.limit s'.limit n s.cursor s'.cursor
  scanned : s'.scanned = s.scanned

variable {α β γ δ : Type}

/-- Both passes go on, or both fail. -/
def Results (gives : α → β → Prop) :
    EStateM.Result Diagnostic Pass α → EStateM.Result Diagnostic Pass β → Prop
  | .ok a s, .ok b s' => gives a b ∧ p.Passes s s'
  | .error d s, .error e s' => p.Diagnostics d e ∧ p.Finds s s'
  | _, _ => False

/-- From passes that stand for each other, so do what is given and the passes then. -/
def Relates (gives : α → β → Prop) (x : PassM α) (y : PassM β) : Prop :=
  ∀ s s', p.Passes s s' → p.Results gives (x s) (y s')

variable {p}

theorem Names.kind {t u : Token} (names : p.Names t u) : u.kind = .ident :=
  (p.kind names.1).trans names.2

theorem Names.spelling_eq_iff {t u t' u' : Token} (first : p.Names t u) (second : p.Names t' u') :
    t.spelling = t'.spelling ↔ u.spelling = u'.spelling :=
  p.name first.1 second.1 first.2 second.2

/-! ### Names -/

section Names

variable {scope scope' : Scope} {t u : Token} {d d' : Declaration} {e e' : Entry}

theorem Declarations.isConstant_eq (declarations : p.Declarations d d') :
    d'.isConstant = d.isConstant := by
  cases declarations
  rfl

theorem Declarations.isInitialized_eq (declarations : p.Declarations d d') :
    d'.isInitialized = d.isInitialized := by
  cases declarations
  rfl

theorem Declarations.name_eq_iff (declarations : p.Declarations d d') (names : p.Names t u) :
    d.name = t.spelling ↔ d'.name = u.spelling := by
  cases declarations with
  | mk others => exact others.spelling_eq_iff names

theorem Scopes.size_eq (scopes : p.Scopes scope scope') : scope'.size = scope.size :=
  (List.Forall₂.length_eq scopes).symm

theorem forall₂_mapIdx {R : α → β → Prop} {Q : γ → δ → Prop} {f : Nat → α → γ} {g : Nat → β → δ}
    {xs : List α} {ys : List β} (all : List.Forall₂ R xs ys)
    (each : ∀ i x y, R x y → Q (f i x) (g i y)) : List.Forall₂ Q (xs.mapIdx f) (ys.mapIdx g) := by
  induction all generalizing f g with
  | nil => exact .nil
  | cons first _ inductionHypothesis =>
    rw [List.mapIdx_cons, List.mapIdx_cons]
    exact .cons (each 0 _ _ first) (inductionHypothesis fun i => each (i + 1))

theorem rel_find? {R : α → β → Prop} {f : α → Bool} {g : β → Bool} {xs : List α} {ys : List β}
    (all : List.Forall₂ R xs ys) (same : ∀ x y, R x y → f x = g y) :
    Option.Rel R (xs.find? f) (ys.find? g) := by
  induction all with
  | nil => exact .none
  | @cons x y _ _ first _ inductionHypothesis =>
    rw [List.find?_cons, List.find?_cons, same x y first]
    cases g y with
    | true => exact .some first
    | false => exact inductionHypothesis

theorem Scopes.entries (scopes : p.Scopes scope scope') :
    List.Forall₂ p.Entries scope.entries scope'.entries :=
  forall₂_mapIdx scopes fun _ _ _ declarations => ⟨declarations, rfl⟩

/-- A name is found where its counterpart is. -/
theorem Scopes.find? (scopes : p.Scopes scope scope') (names : p.Names t u) :
    Option.Rel p.Entries (scope.find? t.spelling) (scope'.find? u.spelling) := by
  apply rel_find? scopes.entries
  intro e e' entries
  rw [Bool.eq_iff_iff, beq_iff_eq, beq_iff_eq]
  exact entries.1.name_eq_iff names

/-- A name can be added where its counterpart can. -/
theorem Scopes.declare (scopes : p.Scopes scope scope') (names : p.Names t u)
    (isConstant hasValue : Bool) :
    match scope.declare ⟨t.spelling, isConstant, hasValue, some t.start⟩,
      scope'.declare ⟨u.spelling, isConstant, hasValue, some u.start⟩ with
    | .ok grown, .ok grown' => p.Scopes grown grown'
    | .error e, .error e' => p.Entries e e'
    | _, _ => False := by
  have found := scopes.find? names
  generalize search : scope.find? t.spelling = first at found
  generalize search' : scope'.find? u.spelling = second at found
  cases found with
  | some entries =>
    rw [Scope.declare_eq_error_iff.mpr search, Scope.declare_eq_error_iff.mpr search']
    exact entries
  | none =>
    obtain ⟨grown, declared⟩ :=
      Scope.exists_declare (d := ⟨t.spelling, isConstant, hasValue, some t.start⟩) search
    obtain ⟨grown', declared'⟩ :=
      Scope.exists_declare (d := ⟨u.spelling, isConstant, hasValue, some u.start⟩) search'
    rw [declared, declared']
    change List.Forall₂ p.Declarations grown.declarations grown'.declarations
    rw [Scope.declarations_of_declare declared, Scope.declarations_of_declare declared']
    exact List.rel_append scopes (.cons (.mk names) .nil)

/-- A name can receive a value where its counterpart can. -/
theorem Scopes.markInitialized? (scopes : p.Scopes scope scope') (names : p.Names t u) :
    Option.Rel p.Scopes (scope.markInitialized? t.spelling)
      (scope'.markInitialized? u.spelling) := by
  have found := scopes.find? names
  generalize search : scope.find? t.spelling = first at found
  generalize search' : scope'.find? u.spelling = second at found
  cases found with
  | none =>
    rw [Scope.markInitialized?_eq_none_iff.mpr (Scope.find?_eq_none_iff.mp search),
      Scope.markInitialized?_eq_none_iff.mpr (Scope.find?_eq_none_iff.mp search')]
    exact .none
  | some _ =>
    have known := Scope.contains_iff.mpr (Scope.mem_names_of_find? search)
    have known' := Scope.contains_iff.mpr (Scope.mem_names_of_find? search')
    rw [Scope.markInitialized?, if_pos known, Scope.markInitialized?, if_pos known']
    apply Option.Rel.some
    rw [Scopes, Scope.withValue, Scope.withValue, List.forall₂_map_left_iff,
      List.forall₂_map_right_iff]
    apply List.Forall₂.imp _ scopes
    intro d d' declarations
    have same := declarations.name_eq_iff names
    cases declarations with
    | mk others =>
      split
      next here =>
        rw [if_pos (same.mp here)]
        exact .mk others
      next other =>
        rw [if_neg (other ∘ same.mpr)]
        exact .mk others

end Names

/-! ### The parts of a pass -/

open PassM

variable {x : PassM α} {y : PassM β} {f : α → PassM γ} {g : β → PassM δ} {gives : α → β → Prop}
  {gives' : γ → δ → Prop} {t u : Token} {k : Token.Kind}

theorem Relates.bind (first : p.Relates gives x y)
    (second : ∀ a b, gives a b → p.Relates gives' (f a) (g b)) :
    p.Relates gives' (x >>= f) (y >>= g) := by
  intro s s' passes
  have begun := first s s' passes
  cases ran : x s with
  | ok a t =>
    cases ran' : y s' with
    | ok b t' =>
      rw [ran, ran'] at begun
      rw [bind_of_ok ran, bind_of_ok ran']
      exact second a b begun.1 t t' begun.2
    | error e t' =>
      rw [ran, ran'] at begun
      exact begun.elim
  | error d t =>
    cases ran' : y s' with
    | ok b t' =>
      rw [ran, ran'] at begun
      exact begun.elim
    | error e t' =>
      rw [ran, ran'] at begun
      rw [bind_of_error ran, bind_of_error ran']
      exact begun

theorem relates_pure {a : α} {b : β} (given : gives a b) : p.Relates gives (pure a) (pure b) :=
  fun _ _ passes => ⟨given, passes⟩

theorem relates_refuse {cause cause' : Diagnostic.Cause} (pairs : p.Pairs t u)
    (causes : cause.Corresponds p.Names t u cause') :
    p.Relates gives (refuse t cause) (refuse u cause') :=
  fun _ _ passes => ⟨.inr ⟨t, u, pairs, rfl, rfl, causes⟩, passes.toFinds⟩

theorem relates_modify {f g : Pass → Pass} (same : ∀ s s', p.Passes s s' → p.Passes (f s) (g s')) :
    p.Relates (fun _ _ => True) (modify f) (modify g) :=
  fun s s' passes => ⟨trivial, same s s' passes⟩

theorem relates_scan : p.Relates p.Pairs scan scan := by
  intro s s' passes
  have next := passes.cursors
  rcases next 1 with ⟨t, u, c, c', scanned, scanned', pairs, _⟩ | ⟨d, e, c, c', refused, refused'⟩
  · simp only [scan, scanned, scanned']
    refine ⟨pairs, ⟨passes.scopes, passes.code⟩, passes.mode, passes.ahead, ?_,
      congrArg (· + 1) passes.scanned⟩
    intro n
    rcases next (n + 1) with ⟨_, _, _, _, again, again', _, later⟩ | ⟨_, _, _, _, again, _⟩
    · rw [scanned] at again
      rw [scanned'] at again'
      cases again
      cases again'
      exact later
    · rw [scanned] at again
      cases again
  · simp only [scan, refused, refused']
    obtain ⟨_, _, rfl, lexical⟩ := Token.exists_shows_of_scan refused
    obtain ⟨_, _, rfl, lexical'⟩ := Token.exists_shows_of_scan refused'
    exact ⟨.inl ⟨lexical, lexical'⟩, passes.scopes, passes.code⟩

theorem relates_peek : p.Relates p.Pairs peek peek := by
  intro s s' passes
  have ahead := passes.ahead
  simp only [peek, get_bind]
  generalize s.lookahead = held, s'.lookahead = held' at ahead
  cases ahead with
  | some pairs => exact ⟨pairs, passes⟩
  | none =>
    refine Relates.bind relates_scan (fun t u pairs => ?_) s s' passes
    refine (relates_modify fun v v' passes => ?_).bind fun _ _ _ => relates_pure pairs
    exact { passes with ahead := .some pairs }

theorem relates_drop : p.Relates (fun _ _ => True) drop drop :=
  relates_modify fun _ _ passes => { passes with ahead := .none }

theorem relates_nextIf (k : Token.Kind) : p.Relates (Option.Rel p.Pairs) (nextIf k) (nextIf k) := by
  refine relates_peek.bind fun t u pairs => ?_
  rw [p.kind pairs]
  split
  · exact relates_drop.bind fun _ _ _ => relates_pure (.some pairs)
  · exact relates_pure .none

theorem relates_expect (k : Token.Kind) :
    p.Relates (fun t u => p.Pairs t u ∧ t.kind = k) (expect k) (expect k) := by
  refine relates_peek.bind fun t u pairs => ?_
  rw [p.kind pairs]
  split
  next kind => exact relates_drop.bind fun _ _ _ => relates_pure ⟨pairs, kind⟩
  next => exact relates_refuse pairs .unexpected

theorem relates_emit (i : Instruction) : p.Relates (fun _ _ => True) (emit i) (emit i) :=
  relates_modify fun _ _ passes => { passes with code := congrArg (·.push i) passes.code }

theorem relates_storeFirst (slot : Nat) :
    p.Relates (fun _ _ => True) (storeFirst slot) (storeFirst slot) := by
  refine relates_modify fun s s' passes => ?_
  by_cases stores : s.storesFirst = true
  · rw [if_pos stores, if_pos (passes.mode.trans stores)]
    exact { passes with code := congrArg (·.push (.sto slot)) passes.code }
  · rw [if_neg stores, if_neg (passes.mode ▸ stores)]
    exact passes

theorem relates_find? (names : p.Names t u) :
    p.Relates (Option.Rel p.Entries) (PassM.find? t.spelling) (PassM.find? u.spelling) :=
  fun _ _ passes => ⟨passes.scopes.find? names, passes⟩

theorem Entries.exists_first {e e' : Entry} (entries : p.Entries e e') :
    ∃ first first', p.Names first first' ∧ e.declaration.location = some first.start ∧
      e'.declaration.location = some first'.start := by
  obtain ⟨declarations, _⟩ := entries
  generalize e.declaration = d, e'.declaration = d' at declarations
  cases declarations with
  | mk names => exact ⟨_, _, names, rfl, rfl⟩

/-- A name that is declared already is refused, with the place of its first declaration. -/
theorem relates_redeclared {e e' : Entry} (names : p.Names t u) (entries : p.Entries e e') :
    p.Relates gives (refuse t (.redeclared t.spelling e.declaration.location))
      (refuse u (.redeclared u.spelling e'.declaration.location)) := by
  obtain ⟨first, first', declared, place, place'⟩ := entries.exists_first
  rw [place, place']
  exact relates_refuse names.1 (.redeclared declared)

theorem relates_checkNew (names : p.Names t u) :
    p.Relates (fun _ _ => True) (checkNew t) (checkNew u) := by
  refine (relates_find? names).bind fun found found' same => ?_
  cases same with
  | some entries => exact relates_redeclared names entries
  | none => exact relates_pure trivial

theorem relates_resolve (names : p.Names t u) :
    p.Relates p.Entries (resolve t) (resolve u) := by
  refine (relates_find? names).bind fun found found' same => ?_
  cases same with
  | some entries => exact relates_pure entries
  | none => exact relates_refuse names.1 .undeclared

theorem relates_declare (names : p.Names t u) (isConstant hasValue : Bool) :
    p.Relates Eq (declare t isConstant hasValue) (declare u isConstant hasValue) := by
  intro s s' passes
  have declared := passes.scopes.declare names isConstant hasValue
  simp only [declare, get_bind]
  cases result : s.scope.declare ⟨t.spelling, isConstant, hasValue, some t.start⟩ with
  | ok scope =>
    cases result' : s'.scope.declare ⟨u.spelling, isConstant, hasValue, some u.start⟩ with
    | ok scope' =>
      rw [result, result'] at declared
      exact ⟨passes.scopes.size_eq.symm, { passes with scopes := declared }⟩
    | error e' =>
      rw [result, result'] at declared
      exact declared.elim
  | error e =>
    cases result' : s'.scope.declare ⟨u.spelling, isConstant, hasValue, some u.start⟩ with
    | ok scope' =>
      rw [result, result'] at declared
      exact declared.elim
    | error e' =>
      rw [result, result'] at declared
      exact relates_redeclared names declared s s' passes

theorem relates_markInitialized (names : p.Names t u) :
    p.Relates (fun _ _ => True) (markInitialized t) (markInitialized u) := by
  intro s s' passes
  have marked := passes.scopes.markInitialized? names
  simp only [markInitialized, get_bind]
  generalize s.scope.markInitialized? t.spelling = scope, s'.scope.markInitialized? u.spelling =
    scope' at marked
  cases marked with
  | some scopes => exact ⟨trivial, { passes with scopes }⟩
  | none => exact relates_refuse names.1 .undeclared s s' passes

theorem relates_assignable (names : p.Names t u) :
    p.Relates p.Entries (assignable t) (assignable u) := by
  refine (relates_resolve names).bind fun e e' entries => ?_
  rw [entries.1.isConstant_eq]
  split
  · exact relates_refuse names.1 .constantTarget
  · exact relates_pure entries

theorem relates_readable (names : p.Names t u) :
    p.Relates p.Entries (readable t) (readable u) := by
  refine (relates_resolve names).bind fun e e' entries => ?_
  rw [entries.1.isInitialized_eq]
  split
  · exact relates_pure entries
  · exact relates_refuse names.1 .uninitialized

theorem relates_number {f : Int → Int} :
    p.Relates Eq (expect .uint >>= fun t => pure (f t.number))
      (expect .uint >>= fun t => pure (f t.number)) := by
  refine (relates_expect .uint).bind fun t u both => ?_
  rw [p.number both.1 both.2]
  exact relates_pure rfl

theorem relates_constantValue : p.Relates Eq constantValue constantValue := by
  refine (relates_nextIf .minus).bind fun minus minus' same => ?_
  cases same with
  | some _ => exact relates_number (f := fun n => -n)
  | none => exact (relates_nextIf .plus).bind fun _ _ _ => relates_number (f := id)

/-! ### Steps and runs -/

/-- Goals that stand for each other. -/
abbrev AllGoals (p : Pairing) : List Goal → List Goal → Prop := List.Forall₂ p.Goals

open Goal

theorem allGoals_same {goals : List Goal} (free : ∀ g ∈ goals, g.relies = false) :
    p.AllGoals goals goals := by
  rw [AllGoals, List.forall₂_same]
  exact fun g member => .same (free g member)

theorem relates_assignment : p.Relates p.AllGoals assignment assignment := by
  refine (relates_expect .ident).bind fun t u names => ?_
  refine (relates_assignable names).bind fun e e' entries => relates_pure ?_
  exact .cons (.same rfl) (.cons (.same rfl) (.cons (.assignmentEnd names entries) .nil))

theorem relates_output : p.Relates p.AllGoals output output :=
  (relates_expect .printWord).bind fun _ _ _ => relates_pure (allGoals_same (by simp [relies]))

theorem relates_statement : p.Relates p.AllGoals statement statement := by
  refine relates_peek.bind fun t u pairs => ?_
  rw [p.kind pairs]
  split
  · exact relates_assignment
  · exact relates_output
  · exact relates_drop.bind fun _ _ _ => relates_pure .nil
  · exact relates_drop.bind fun _ _ _ => relates_refuse pairs .notAStatement

theorem relates_adds {g part : Goal} {operator? : Token.Kind → Option Operation}
    (adds : Adds g part operator?) (free : part.relies = false ∧ g.relies = false) :
    p.Relates p.AllGoals (step g) (step g) := by
  rw [adds]
  refine relates_peek.bind fun t u pairs => ?_
  rw [p.kind pairs]
  split
  · refine relates_drop.bind fun _ _ _ => relates_pure ?_
    exact .cons (.same free.1) (.cons (.same rfl) (.cons (.same free.2) .nil))
  · exact relates_pure .nil

theorem relates_repeats {g first : Goal} (repeats : Repeats g first k)
    (free : first.relies = false ∧ g.relies = false) :
    p.Relates p.AllGoals (step g) (step g) := by
  rw [repeats]
  refine (relates_nextIf k).bind fun found found' same => ?_
  cases same with
  | some _ => exact relates_pure (allGoals_same (by simp [free]))
  | none => exact relates_pure .nil

theorem relates_introduced {next : Token → List Goal}
    (given : ∀ t u, p.Names t u → p.AllGoals (next t) (next u)) :
    p.Relates p.AllGoals
      (do
        let name ← expect .ident
        checkNew name
        return next name)
      (do
        let name ← expect .ident
        checkNew name
        return next name) :=
  (relates_expect .ident).bind fun t u names =>
    (relates_checkNew names).bind fun _ _ _ => relates_pure (given t u names)

theorem relates_factor : p.Relates p.AllGoals (step factor) (step factor) := by
  refine (relates_nextIf .minus).bind fun minus minus' same => ?_
  cases same with
  | some _ =>
    exact (relates_emit _).bind fun _ _ _ => relates_pure (allGoals_same (by simp [relies]))
  | none =>
    exact (relates_nextIf .plus).bind fun _ _ _ => relates_pure (allGoals_same (by simp [relies]))

theorem relates_operand : p.Relates p.AllGoals (step operand) (step operand) := by
  refine relates_peek.bind fun t u pairs => ?_
  rw [p.kind pairs]
  split
  next kind =>
    refine relates_drop.bind fun _ _ _ => ?_
    refine (relates_readable ⟨pairs, kind⟩).bind fun e e' entries => ?_
    rw [entries.2]
    exact (relates_emit _).bind fun _ _ _ => relates_pure .nil
  next kind =>
    rw [p.number pairs kind]
    exact relates_drop.bind fun _ _ _ => (relates_emit _).bind fun _ _ _ => relates_pure .nil
  next =>
    exact relates_drop.bind fun _ _ _ => relates_pure (allGoals_same (by simp [relies]))
  next => exact relates_refuse pairs .unexpected

theorem relates_step {g g' : Goal} (goals : p.Goals g g') :
    p.Relates p.AllGoals (step g) (step g') := by
  cases goals with
  | same free =>
    cases g with
    | expect k => exact (relates_expect k).bind fun _ _ _ => relates_pure .nil
    | emit i => exact (relates_emit i).bind fun _ _ _ => relates_pure .nil
    | consts => exact relates_repeats repeats_consts ⟨rfl, rfl⟩
    | vars => exact relates_repeats repeats_vars ⟨rfl, rfl⟩
    | constantName =>
      exact relates_introduced fun _ _ names =>
        .cons (.same rfl) (.cons (.constantValue names) .nil)
    | variableName => exact relates_introduced fun _ _ names => .cons (.variableValue names) .nil
    | statements =>
      refine relates_peek.bind fun t u pairs => ?_
      rw [p.kind pairs]
      split
      · exact relates_statement.bind fun _ _ left =>
          relates_pure (List.rel_append left (.cons (.same rfl) .nil))
      · exact relates_pure .nil
    | statement => exact relates_statement
    | assignment => exact relates_assignment
    | output => exact relates_output
    | expression | item => exact relates_pure (allGoals_same (by simp [relies]))
    | moreItems => exact relates_adds adds_items ⟨rfl, rfl⟩
    | moreFactors => exact relates_adds adds_factors ⟨rfl, rfl⟩
    | factor => exact relates_factor
    | operand => exact relates_operand
    | constantValue | constantEnd | variableValue | variableEnd | assignmentEnd => cases free
  | constantValue names =>
    refine relates_constantValue.bind fun value _ same => ?_
    cases same
    exact relates_pure (.cons (.constantEnd names) .nil)
  | constantEnd names =>
    refine (relates_expect .semicolon).bind fun _ _ _ => ?_
    refine (relates_declare names true true).bind fun _ _ _ => ?_
    exact (relates_emit _).bind fun _ _ _ => relates_pure .nil
  | variableValue names =>
    refine (relates_nextIf .equals).bind fun found found' same => ?_
    cases same with
    | some _ => exact relates_pure (.cons (.same rfl) (.cons (.variableEnd names) .nil))
    | none => exact relates_pure (.cons (.variableEnd names) .nil)
  | @variableEnd t u hasValue names =>
    refine (relates_expect .semicolon).bind fun _ _ _ => ?_
    refine (relates_declare names false hasValue).bind fun slot _ same => ?_
    cases same
    split
    · exact (relates_storeFirst slot).bind fun _ _ _ => relates_pure .nil
    · exact relates_pure .nil
  | assignmentEnd names entries =>
    refine (relates_expect .semicolon).bind fun _ _ _ => ?_
    rw [entries.1.isInitialized_eq, entries.2]
    split
    · exact (relates_emit _).bind fun _ _ _ => relates_pure .nil
    · exact (relates_markInitialized names).bind fun _ _ _ =>
        (relates_storeFirst _).bind fun _ _ _ => relates_pure .nil

/-- Step by step, runs of goals that stand for each other do the same. -/
theorem relates_run {goals goals' : List Goal} (all : p.AllGoals goals goals') :
    p.Relates (fun _ _ => True) (run goals) (run goals') := by
  intro s
  fun_induction run goals s generalizing goals' with
  | case1 s =>
    intro s' passes
    cases all
    rw [run_nil]
    exact ⟨trivial, passes⟩
  | case2 s g rest left t taken inductionHypothesis =>
    intro s' passes
    cases all with
    | @cons _ g' _ rest' first others =>
      have begun := relates_step first s s' passes
      rw [taken] at begun
      rw [run_cons]
      cases taken' : step g' s' with
      | ok left' t' =>
        rw [taken'] at begun
        exact inductionHypothesis (List.rel_append begun.1 others) t' begun.2
      | error e t' =>
        rw [taken'] at begun
        exact begun.elim
  | case3 s g rest d t failed =>
    intro s' passes
    cases all with
    | @cons _ g' _ rest' first others =>
      have begun := relates_step first s s' passes
      rw [failed] at begun
      rw [run_cons]
      cases failed' : step g' s' with
      | ok left' t' =>
        rw [failed'] at begun
        exact begun.elim
      | error e t' =>
        rw [failed'] at begun
        exact begun

theorem relates_program : p.Relates (fun _ _ => True) program program := by
  refine (relates_run (allGoals_same (by decide))).bind fun _ _ _ => ?_
  exact relates_modify fun _ _ passes => { passes with }

end Pairing

/-- Passes over texts whose tokens stand for each other do the same. -/
theorem Options.runPass_results {p : Pairing} (o : Options) {file file' source source' : String}
    (cursors : ∀ n, p.Cursors o.limit o.limit n (.start file source) (.start file' source')) :
    p.Results (fun _ _ => True) (o.runPass file source) (o.runPass file' source') :=
  Pairing.relates_program _ _
    { scopes := .nil, code := rfl, mode := rfl, ahead := .none, cursors, scanned := rfl }

end OnePass
