import OnePass.Proofs.Pass.Agreement
import OnePass.Proofs.Pass.Position
import OnePass.Proofs.Pass.Settled
import OnePass.Proofs.Pass.Soundness
import OnePass.Proofs.Program.Kinds

/-!
How a pass fails. Either no token can be scanned, or the next token is not one of those expected, or
the last token taken is a name that breaks a rule. Each token that is expected can stand where the
pass fails.
-/

namespace OnePass

/-- The name that a cause is about. -/
def Diagnostic.Cause.name? : Diagnostic.Cause → Option String
  | redeclared name _ | undeclared name | uninitialized name | constantTarget name => some name
  | _ => none

/-- Some sequence begins with these tokens and goes on with any token of this kind. -/
def Allows (language : List Token → Prop) (ts : List Token) (k : Token.Kind) : Prop :=
  ∃ us, ∀ u, u.kind = k → language (ts ++ u :: us)

theorem Allows.exists {language : List Token → Prop} {ts : List Token} {k : Token.Kind}
    (allows : Allows language ts k) : ∃ us, language us := by
  obtain ⟨us, every⟩ := allows
  exact ⟨_, every (.ofKind k) rfl⟩

/-- How a pass fails that has to find a sequence of a language. -/
inductive Pass.Fails (language : List Token → Prop) (s : Pass) (d : Diagnostic) (s' : Pass) : Prop
  | unread {ts t next} : s.Leads ts t → t.lookahead = none → s'.scanned = t.scanned →
      Token.scan t.limit t.cursor = (.error d, next) → s.Fails language d s'
  | unexpected {ts actual expected} : s.Leads ts s' → s'.lookahead = some actual →
      d = s'.cursor.shows (.unexpected expected actual) actual.start → expected ≠ [] →
      (∀ k ∈ expected, Allows language ts k) → s.Fails language d s'
  | misnamed {ts t cause} : s.Leads (ts ++ [t]) s' → s'.lookahead = none → t.kind = .ident →
      cause.name? = some t.spelling → d = s'.cursor.shows cause t.start → s.Fails language d s'

namespace Pass.Fails

variable {s t s' : Pass} {d : Diagnostic} {ts : List Token} {L L' : List Token → Prop}

/-- What fails behind some tokens fails before them. -/
theorem after (leads : s.Leads ts t) (h : t.Fails L d s') (found : ∀ us, L us → L' (ts ++ us)) :
    s.Fails L' d s' := by
  cases h with
  | unread later ahead scanned refused => exact .unread (leads.trans later) ahead scanned refused
  | unexpected later ahead shown some allowed =>
    refine .unexpected (leads.trans later) ahead shown some ?_
    intro k member
    obtain ⟨us, every⟩ := allowed k member
    refine ⟨us, ?_⟩
    intro u kind
    rw [List.append_assoc]
    exact found _ (every u kind)
  | misnamed later ahead kind name shown =>
    have all := leads.trans later
    rw [← List.append_assoc] at all
    exact .misnamed all ahead kind name shown

/-- What has to be found can be followed by something. -/
theorem before (h : s.Fails L d s') (vs : List Token) (found : ∀ us, L us → L' (us ++ vs)) :
    s.Fails L' d s' := by
  cases h with
  | unread leads ahead scanned refused => exact .unread leads ahead scanned refused
  | unexpected leads ahead shown some allowed =>
    refine .unexpected leads ahead shown some ?_
    intro k member
    obtain ⟨us, every⟩ := allowed k member
    refine ⟨us ++ vs, ?_⟩
    intro u kind
    simpa using found _ (every u kind)
  | misnamed leads ahead kind name shown => exact .misnamed leads ahead kind name shown

end Pass.Fails

namespace Goal

/-- The goals that end a declaration or an assignment. -/
def completes : Goal → Bool
  | constantEnd _ _ | variableEnd _ _ | assignmentEnd _ _ => true
  | _ => false

theorem allows_semicolon : Allows (fun ts => ∃ stop, ts = [stop] ∧ stop.kind = .semicolon) []
    .semicolon :=
  ⟨[], fun stop kind => ⟨stop, rfl, kind⟩⟩

theorem allows_constantName : Allows (Finds .constantName) [] .ident := by
  refine ⟨[.ofKind .equals, .ofKind .uint, .ofKind .semicolon], ?_⟩
  intro name kind start startKind
  exact ⟨_, .mk startKind kind rfl .none rfl rfl⟩

theorem allows_constantValue (name : Token) {ts : List Token} {sign : Sign}
    (derives : sign.Derives ts) : Allows (Finds (.constantValue name)) ts .uint := by
  refine ⟨[.ofKind .semicolon], ?_⟩
  intro number kind start name equals startKind nameKind equalsKind
  exact ⟨_, .mk startKind nameKind equalsKind derives kind rfl⟩

theorem allows_variableName : Allows (Finds .variableName) [] .ident := by
  refine ⟨[.ofKind .semicolon], ?_⟩
  intro name kind start startKind
  exact ⟨_, .plain startKind kind rfl⟩

theorem allows_operand :
    ∀ k ∈ [Token.Kind.ident, .uint, .lparen], Allows (Finds .operand) [] k := by
  have name : Allows (Finds .operand) [] .ident := ⟨[], fun t kind => ⟨_, .name kind⟩⟩
  have number : Allows (Finds .operand) [] .uint := ⟨[], fun t kind => ⟨_, .number kind⟩⟩
  have group : Allows (Finds .operand) [] .lparen := by
    have inner : Expression.Derives .expression [.ofKind .uint] (.number (.ofKind .uint)) :=
      .item (.factor (.operand (.number rfl)))
    exact ⟨[.ofKind .uint, .ofKind .rparen], fun l kind => ⟨_, .group kind inner rfl⟩⟩
  simp [name, number, group]

/-- Each goal can find something. -/
theorem exists_finds (g : Goal) : ∃ ts, g.Finds ts := by
  have value : Expression.Derives .operand [.ofKind .uint] (.number (.ofKind .uint)) := .number rfl
  have statement : Statement.Derives [.ofKind .semicolon] .empty := .empty rfl
  cases g with
  | expect k => exact ⟨[.ofKind k], _, rfl, rfl⟩
  | emit i => exact ⟨[], rfl⟩
  | consts | vars | statements => exact ⟨[], [], .nil⟩
  | constantName => exact allows_constantName.exists
  | constantValue name => exact (allows_constantValue name .none).exists
  | variableName => exact allows_variableName.exists
  | variableValue name =>
    refine ⟨[.ofKind .semicolon], ?_⟩
    intro start name startKind nameKind
    exact ⟨_, .plain startKind nameKind rfl⟩
  | constantEnd _ _ | variableEnd _ _ | assignmentEnd _ _ => exact ⟨_, .ofKind .semicolon, rfl, rfl⟩
  | statement | assignment | output => exact ⟨_, _, statement⟩
  | expression => exact ⟨_, _, .item (.factor (.operand value))⟩
  | item => exact ⟨_, _, .factor (.operand value)⟩
  | factor => exact ⟨_, _, .operand value⟩
  | operand => exact ⟨_, _, value⟩
  | moreItems | moreFactors =>
    refine ⟨[], ?_⟩
    intro us a derives
    exact ⟨a, by rwa [List.append_nil]⟩

theorem exists_findAll (goals : List Goal) : ∃ ts, FindAll goals ts := by
  induction goals with
  | nil => exact ⟨[], rfl⟩
  | cons g goals inductionHypothesis =>
    obtain ⟨us, found⟩ := exists_finds g
    obtain ⟨vs, rest⟩ := inductionHypothesis
    exact ⟨us ++ vs, us, vs, rfl, found, rest⟩

end Goal

namespace PassM

open Goal

variable {s s' : Pass} {d : Diagnostic} {t : Token} {k : Token.Kind} {L : List Token → Prop}

/-! ### Operations -/

theorem peek_fails (h : peek s = .error d s') : s.Fails L d s' := by
  obtain ⟨ahead, cursor, log, refused, rfl⟩ := peek_eq_error h
  exact .unread (Pass.Leads.refl s) ahead rfl refused

theorem nextIf_fails (h : nextIf k s = .error d s') : s.Fails L d s' := by
  rcases bind_eq_error.mp h with refused | ⟨t, u, _, none⟩
  · exact peek_fails refused
  · split at none <;> cases none

theorem expect_fails (h : expect k s = .error d s') (allowed : Allows L [] k) : s.Fails L d s' := by
  rcases bind_eq_error.mp h with refused | ⟨t, u, peeked, refused⟩
  · exact peek_fails refused
  · obtain ⟨held, leads⟩ := peek_leads peeked
    split at refused
    · cases refused
    · cases refused
      exact .unexpected leads held rfl (by simp) (by simpa using allowed)

theorem expect_ahead (h : expect k s = .ok t s') : s'.lookahead = none := by
  simp only [expect, bind_eq_ok] at h
  obtain ⟨found, middle, _, h⟩ := h
  split at h
  · simp only [bind_eq_ok, modify_eq_ok, drop, pure_eq_ok] at h
    obtain ⟨_, _, rfl, _, rfl⟩ := h
    rfl
  · exact absurd h refuse_ne_ok

theorem refuse_fails {α : Type} {u : Pass} {cause : Diagnostic.Cause}
    (leads : s.Leads [t] u) (ahead : u.lookahead = none) (kind : t.kind = .ident)
    (name : cause.name? = some t.spelling) (h : (refuse t cause : PassM α) u = .error d s') :
    s.Fails L d s' := by
  cases h
  have leads : s.Leads ([] ++ [t]) s' := leads
  exact .misnamed leads ahead kind name rfl

theorem checkNew_fails {u : Pass} (leads : s.Leads [t] u)
    (ahead : u.lookahead = none) (kind : t.kind = .ident) (h : checkNew t u = .error d s') :
    s.Fails L d s' := by
  rw [checkNew, bind_of_ok (find?_eq_ok ..)] at h
  cases found : u.scope.find? t.spelling with
  | some e =>
    rw [found] at h
    exact refuse_fails leads ahead kind rfl h
  | none =>
    rw [found] at h
    cases h

theorem resolve_fails {u : Pass} (leads : s.Leads [t] u)
    (ahead : u.lookahead = none) (kind : t.kind = .ident) (h : resolve t u = .error d s') :
    s.Fails L d s' := by
  rw [resolve, bind_of_ok (find?_eq_ok ..)] at h
  cases found : u.scope.find? t.spelling with
  | some e =>
    rw [found] at h
    cases h
  | none =>
    rw [found] at h
    exact refuse_fails leads ahead kind rfl h

theorem assignable_fails {u : Pass} (leads : s.Leads [t] u)
    (ahead : u.lookahead = none) (kind : t.kind = .ident) (h : assignable t u = .error d s') :
    s.Fails L d s' := by
  rcases bind_eq_error.mp h with unknown | ⟨e, v, resolved, refused⟩
  · exact resolve_fails leads ahead kind unknown
  · rw [resolve_ok resolved] at refused
    split at refused
    · exact refuse_fails leads ahead kind rfl refused
    · cases refused

theorem readable_fails {u : Pass} (leads : s.Leads [t] u)
    (ahead : u.lookahead = none) (kind : t.kind = .ident) (h : readable t u = .error d s') :
    s.Fails L d s' := by
  rcases bind_eq_error.mp h with unknown | ⟨e, v, resolved, refused⟩
  · exact resolve_fails leads ahead kind unknown
  · rw [resolve_ok resolved] at refused
    split at refused
    · cases refused
    · exact refuse_fails leads ahead kind rfl refused

/-- A new name can be declared. -/
theorem declare_ne_error {isConstant isInitialized : Bool} (new : t.spelling ∉ s.scope.names) :
    declare t isConstant isInitialized s ≠ .error d s' := by
  intro failed
  rw [declare, get_bind] at failed
  cases result : s.scope.declare ⟨t.spelling, isConstant, isInitialized, some t.start⟩ with
  | error e =>
    rw [Scope.declare_eq_error_iff, Scope.find?_eq_none_iff.mpr new] at result
    cases result
  | ok scope =>
    rw [result] at failed
    cases failed

/-- A declared name can be given a value. -/
theorem markInitialized_ne_error (known : t.spelling ∈ s.scope.names) :
    markInitialized t s ≠ .error d s' := by
  intro failed
  rw [markInitialized, get_bind, Scope.markInitialized?, if_pos (Scope.contains_iff.mpr known)]
    at failed
  cases failed

/-! ### Steps -/

/-- Where a declaration or an assignment is complete, nothing can be missing but its semicolon. -/
theorem expect_of_completes {g : Goal} (fits : g.Fits s.scope) (completes : g.completes = true)
    (h : step g s = .error d s') : expect .semicolon s = .error d s' := by
  cases g with
  | constantEnd name value =>
    rcases bind_eq_error.mp h with refused | ⟨_, u, found, h⟩
    · exact refused
    · have new : name.spelling ∉ s.scope.names := fits
      rw [← (looks_expect .semicolon).scope _ _ _ found] at new
      rcases bind_eq_error.mp h with failed | ⟨_, _, _, h⟩
      · exact absurd failed (declare_ne_error new)
      · cases h
  | variableEnd name hasValue =>
    rcases bind_eq_error.mp h with refused | ⟨_, u, found, h⟩
    · exact refused
    · have new : name.spelling ∉ s.scope.names := fits
      rw [← (looks_expect .semicolon).scope _ _ _ found] at new
      rcases bind_eq_error.mp h with failed | ⟨_, _, _, h⟩
      · exact absurd failed (declare_ne_error new)
      · split at h <;> cases h
  | assignmentEnd name target =>
    rcases bind_eq_error.mp h with refused | ⟨_, u, found, h⟩
    · exact refused
    · have known := Scope.mem_names_of_find? fits.1
      rw [← (looks_expect .semicolon).scope _ _ _ found] at known
      split at h
      · cases h
      · rcases bind_eq_error.mp h with failed | ⟨_, _, _, h⟩
        · exact absurd failed (markInitialized_ne_error known)
        · cases h
  | _ => cases completes

theorem number_fails {name : Token} {ts : List Token} {sign : Sign} {u : Pass} {f : Token → Int}
    (derives : sign.Derives ts) (leads : s.Leads ts u)
    (h : (expect .uint >>= fun t => pure (f t)) u = .error d s') :
    s.Fails (Goal.Finds (.constantValue name)) d s' := by
  rcases bind_eq_error.mp h with refused | ⟨t, v, _, failed⟩
  · have allowed : Allows (fun us => Goal.Finds (.constantValue name) (ts ++ us)) [] .uint :=
      allows_constantValue name derives
    exact (expect_fails refused allowed).after leads fun _ => id
  · cases failed

theorem constantValue_fails {name : Token} (h : constantValue s = .error d s') :
    s.Fails (Goal.Finds (.constantValue name)) d s' := by
  rcases bind_eq_error.mp h with refused | ⟨minus, u, signed, h⟩
  · exact nextIf_fails refused
  · obtain ⟨minusKind, leads⟩ := nextIf_leads signed
    cases minus with
    | some t => exact number_fails (f := fun t => -t.number) (.minus (minusKind t rfl)) leads h
    | none =>
      rcases bind_eq_error.mp h with refused | ⟨plus, v, looked, h⟩
      · exact (nextIf_fails refused).after leads fun _ => id
      · obtain ⟨plusKind, second⟩ := nextIf_leads looked
        have all := leads.trans second
        cases plus with
        | some t => exact number_fails (f := Token.number) (.plus (plusKind t rfl)) all h
        | none => exact number_fails (f := Token.number) .none all h

/-- A declaration's name is expected, and has to be new. -/
theorem introduced_fails {next : Token → List Goal} (allowed : Allows L [] .ident)
    (h : (do
      let name ← expect .ident
      checkNew name
      return next name : PassM (List Goal)) s = .error d s') : s.Fails L d s' := by
  rcases bind_eq_error.mp h with refused | ⟨t, u, found, h⟩
  · exact expect_fails refused allowed
  · obtain ⟨kind, leads⟩ := expect_leads found
    exact checkNew_fails leads (expect_ahead found) kind (bind_pure_eq_error.mp h)

theorem peek_of_held (held : s.lookahead = some t) : peek s = .ok t s := by
  simp only [peek, get_bind, held]
  rfl

theorem expect_of_held (held : s.lookahead = some t) (kind : t.kind = k) :
    expect k s = .ok t { s with lookahead := none } := by
  rw [expect, bind_of_ok (peek_of_held held), if_pos kind]
  rfl

/-- Where a statement begins, only its name can be refused. -/
theorem statement_fails (held : s.lookahead = some t) (starts : t.kind ∈ Token.Kind.statementStarts)
    (h : statement s = .error d s') : s.Fails L d s' := by
  rw [statement, bind_of_ok (peek_of_held held)] at h
  cases kind : t.kind <;> simp only [kind] at h
  case ident =>
    have found := expect_of_held held kind
    obtain ⟨_, leads⟩ := expect_leads found
    rw [assignment, bind_of_ok found] at h
    exact assignable_fails leads rfl kind (bind_pure_eq_error.mp h)
  case printWord =>
    rw [output, bind_of_ok (expect_of_held held kind)] at h
    cases h
  case semicolon => cases h
  all_goals
    rw [kind] at starts
    exact absurd starts (by decide)

theorem operand_fails (h : step .operand s = .error d s') :
    s.Fails (Goal.Finds .operand) d s' := by
  rcases bind_eq_error.mp h with refused | ⟨t, u, peeked, h⟩
  · exact peek_fails refused
  · obtain ⟨held, leads⟩ := peek_leads peeked
    cases kind : t.kind <;> simp only [kind] at h
    case ident =>
      rcases bind_eq_error.mp h with failed | ⟨_, v, dropped, h⟩
      · cases failed
      · have taken := leads.trans (drop_leads held dropped)
        cases dropped
        rcases bind_eq_error.mp h with refused | ⟨_, _, _, failed⟩
        · exact readable_fails taken rfl kind refused
        · cases failed
    case uint => cases h
    case lparen => cases h
    all_goals
      cases h
      exact .unexpected leads held rfl (by simp) allows_operand

theorem Adds.fails {g part : Goal} {operator? : Token.Kind → Option Operation}
    (adds : Adds g part operator?) (h : step g s = .error d s') : s.Fails L d s' := by
  exact peek_fails (adds.eq_error h)

theorem Repeats.fails {g first : Goal} (repeats : Repeats g first k)
    (h : step g s = .error d s') : s.Fails L d s' := by
  exact nextIf_fails (repeats.eq_error h)

/-- A step that fails, fails at a token that its goal does not allow, or at a name. -/
theorem step_fails {g : Goal} (fits : g.Fits s.scope) (h : step g s = .error d s') :
    s.Fails g.Finds d s' := by
  cases g
  case expect k =>
    exact expect_fails (bind_pure_eq_error.mp h) ⟨[], fun t kind => ⟨t, rfl, kind⟩⟩
  case emit i => cases h
  case consts => exact repeats_consts.fails h
  case vars => exact repeats_vars.fails h
  case constantName => exact introduced_fails allows_constantName h
  case variableName => exact introduced_fails allows_variableName h
  case constantValue name =>
    exact constantValue_fails (bind_pure_eq_error.mp h)
  case variableValue name =>
    rcases bind_eq_error.mp h with refused | ⟨_, _, _, h⟩
    · exact nextIf_fails refused
    · split at h <;> cases h
  case statements =>
    rcases bind_eq_error.mp h with refused | ⟨t, u, peeked, h⟩
    · exact peek_fails refused
    · obtain ⟨held, leads⟩ := peek_leads peeked
      split at h
      next starts =>
        exact (statement_fails held starts (bind_pure_eq_error.mp h)).after leads fun _ => id
      next => cases h
  case statement | assignment | output => exact fits.elim
  case constantEnd | variableEnd | assignmentEnd =>
    exact expect_fails (expect_of_completes fits rfl h) allows_semicolon
  case expression | item => cases h
  case moreItems => exact adds_items.fails h
  case moreFactors => exact adds_factors.fails h
  case factor =>
    rcases bind_eq_error.mp h with refused | ⟨_, _, signed, h⟩
    · exact nextIf_fails refused
    · split at h
      · cases h
      · obtain ⟨_, leads⟩ := nextIf_leads signed
        exact (nextIf_fails (bind_pure_eq_error.mp h)).after leads fun _ => id
  case operand => exact operand_fails h

/-- A run that fails, fails at a token that its goals do not allow, or at a name. -/
theorem run_fails {goals : List Goal} (settled : Settled s.scope goals)
    (h : run goals s = .error d s') : s.Fails (FindAll goals) d s' := by
  fun_induction run goals s with
  | case1 s => cases h
  | case2 s g rest goals u taken inductionHypothesis =>
    obtain ⟨ts, leads, finds⟩ := step_refines taken
    have later := inductionHypothesis (settled_of_step settled taken) h
    exact later.after leads fun us found => findAll_cons finds found
  | case3 s g rest d' u failed =>
    cases h
    obtain ⟨vs, others⟩ := exists_findAll rest
    apply (step_fails (settled.fits g List.mem_cons_self) failed).before vs
    intro us found
    exact ⟨us, vs, rfl, found, others⟩

end PassM

namespace Options

variable {o : Options} {file source : String} {ts : List Token} {s : Pass} {d : Diagnostic}

theorem fails_of_runPass_error (failed : o.runPass file source = .error d s) :
    (o.pass file source).Fails (Goal.FindAll Goal.program) d s :=
  PassM.run_fails (Goal.settled_program (o.pass file source).scope)
    (run_of_runPass_error failed)

/-- From its first step on, a pass has scanned the tokens taken and the one ahead. -/
theorem scans_of_leads (leads : (o.pass file source).Leads ts s) :
    (Cursor.start file source).Scans o.limit (ts ++ s.lookahead.toList) s.cursor ∧
      s.scanned = (ts ++ s.lookahead.toList).length := by
  obtain ⟨scans, scanned⟩ := leads.scans rfl
  exact ⟨scans, scanned.trans (Nat.zero_add _)⟩

end Options
end OnePass
