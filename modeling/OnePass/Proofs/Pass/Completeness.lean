import OnePass.Proofs.Pass.Expressions

/-!
A pass reads whatever the grammar derives. Where tokens of the grammar stand before it, it either
meets the first violation of the rules for names, or takes these tokens, learns what they say of
names and emits the code of their tree.
-/

namespace OnePass

/-- The first violation of an expression is that of its first operand that cannot be read. -/
theorem Knowledge.firstViolation?_reads {ks : Knowledge} {scope : Scope}
    (same : scope.declarations = ks.map Known.declaration) (e : Expression) :
    ks.firstViolation? e.events = e.reads.findSome? scope.unreadable? := by
  induction e with
  | name t =>
    simp only [Expression.events, Expression.reads, firstViolation?, violation?, Scope.unreadable?,
      find?_scope same, List.findSome?_singleton]
    cases ks.find? t with
    | none => rfl
    | some known => cases hasValue : known.hasValue <;> simp [Known.declaration, hasValue]
  | number t => rfl
  | group e inductionHypothesis | positive e inductionHypothesis | negative e inductionHypothesis =>
    exact inductionHypothesis
  | binary o l r first second =>
    simp [Expression.events, Expression.reads, firstViolation?_append, first, second]

namespace PassM

open Goal

variable {s : Pass} {stores : Bool} {t : Token} {ts us : List Token} {ks : Knowledge}
  {is : List Instruction} {gs : List Goal} {names : List String}

/-! ### Expressions -/

theorem step_emit_at (here : s.At stores us ks is) (i : Instruction) :
    ∃ s', step (.emit i) s = .ok [] s' ∧ s'.At stores us ks (is ++ [i]) := by
  obtain ⟨s', taken, emits⟩ := step_emit here.yields i
  exact ⟨s', taken, here.emits emits⟩

theorem step_expect_at {k : Token.Kind} (here : s.At stores (t :: us) ks is) (kind : t.kind = k) :
    ∃ s', step (.expect k) s = .ok [] s' ∧ s'.At stores us ks is := by
  obtain ⟨s', taken, emits⟩ := step_expect here.yields kind
  exact ⟨s', taken, by simpa using here.emits emits⟩

/-- A pass reads a whole expression where nothing goes on with it. -/
theorem reaches_whole {e : Expression} (h : Expression.Derives .expression ts e)
    (initial : ks.names <+: names) (here : s.At stores (ts ++ us) ks is)
    (stop : Expression.Level.Stops .expression us) (gs : List Goal) :
    Reaches (.expression :: gs, s) gs (·.At stores us ks (is ++ e.code names))
      (ks.firstViolation? e.events) := by
  rw [← Knowledge.names_scope here.declarations] at initial
  rw [Knowledge.firstViolation?_reads here.declarations]
  have whole := reaches_level h initial here.yields stop gs
  exact whole.imp fun _ emits => here.emits emits

/-! ### Constants -/

theorem constantValue_at {sign : Sign} {number : Token} (name : Token) (h : sign.Derives ts)
    (numberKind : number.kind = .uint) (here : s.At stores (ts ++ number :: us) ks is) :
    ∃ s', constantValue s = .ok (ConstantDeclaration.value ⟨name, sign, number⟩) s' ∧
      s'.At stores us ks is := by
  cases h with
  | none =>
    obtain ⟨s₁, passed, ahead⟩ := nextIf_at_ne (k := .minus) here (by simp [numberKind])
    obtain ⟨s₂, again, ahead⟩ := nextIf_at_ne (k := .plus) ahead (by simp [numberKind])
    obtain ⟨s₃, found, after⟩ := expect_at ahead numberKind
    refine ⟨s₃, ?_, after⟩
    rw [constantValue, bind_of_ok passed, if_neg (by simp), bind_of_ok again, bind_of_ok found]
    rfl
  | plus kind =>
    obtain ⟨s₁, passed, ahead⟩ := nextIf_at_ne (k := .minus) here (by simp [kind])
    obtain ⟨s₂, signed, ahead⟩ := nextIf_at ahead kind
    obtain ⟨s₃, found, after⟩ := expect_at ahead numberKind
    refine ⟨s₃, ?_, after⟩
    rw [constantValue, bind_of_ok passed, if_neg (by simp), bind_of_ok signed, bind_of_ok found]
    rfl
  | minus kind =>
    obtain ⟨s₁, signed, ahead⟩ := nextIf_at here kind
    obtain ⟨s₂, found, after⟩ := expect_at ahead numberKind
    refine ⟨s₂, ?_, after⟩
    rw [constantValue, bind_of_ok signed, Option.isSome_some, if_pos rfl, bind_of_ok found]
    rfl

theorem step_constantEnd {name stop : Token} (here : s.At stores (stop :: us) ks is)
    (stopKind : stop.kind = .semicolon) (new : ks.find? name = none) (value : Int) :
    ∃ s', step (.constantEnd name value) s = .ok [] s' ∧
      s'.At stores us (ks.after (.declared name true true)) (is ++ [.lit value]) := by
  obtain ⟨s₁, found, after⟩ := expect_at here stopKind
  obtain ⟨s₂, declared, known⟩ := declare_at after new true true
  obtain ⟨s₃, emitted, done⟩ := emit_at known (.lit value)
  refine ⟨s₃, ?_, done⟩
  rw [step, bind_of_ok found, bind_of_ok declared, bind_of_ok emitted]
  rfl

/-- A name that is introduced has to be new. -/
theorem reaches_introduced {g : Goal} {next : Token → List Goal} {hs : List Goal}
    {good : Pass → Prop} {v : Option Violation}
    (introduces : step g = do
      let name ← expect .ident
      checkNew name
      return next name)
    (here : s.At stores (t :: us) ks is) (kind : t.kind = .ident)
    (rest : ks.find? t = none → ∀ s', s'.At stores us ks is →
      Reaches (next t ++ gs, s') hs good v) :
    Reaches (g :: gs, s) hs good ((ks.violation? (.introduced t)).or v) := by
  obtain ⟨s₁, found, after⟩ := expect_at here kind
  have begun : step g s = (do
      checkNew t
      return next t) s₁ := by
    rw [introduces, bind_of_ok found]
  cases known : ks.find? t with
  | none =>
    have taken : step g s = .ok (next t) s₁ := begun.trans (bind_of_ok (checkNew_at after known))
    simpa [Knowledge.violation?, known] using Reaches.step taken (rest known s₁ after)
  | some k =>
    obtain ⟨d, s', failed, explains⟩ := checkNew_at_some after known
    have refused := begun.trans (bind_of_error failed)
    simpa [Knowledge.violation?, known] using Reaches.refused refused explains

theorem Repeats.go {g first : Goal} {k : Token.Kind} (repeats : Repeats g first k)
    (here : s.At stores (t :: us) ks is) (kind : t.kind = k) :
    ∃ s', step g s = .ok [first, g] s' ∧ s'.At stores us ks is := by
  obtain ⟨s₁, found, after⟩ := nextIf_at here kind
  refine ⟨s₁, ?_, after⟩
  rw [repeats, bind_of_ok found, Option.isSome_some, if_pos rfl]
  rfl

theorem Repeats.stop {g first : Goal} {k : Token.Kind} (repeats : Repeats g first k)
    (here : s.At stores us ks is) (stop : Heads (· ≠ k) us) :
    ∃ s', step g s = .ok [] s' ∧ s'.At stores us ks is := by
  obtain ⟨t, rest, rfl, kind⟩ := stop
  obtain ⟨s₁, passed, ahead⟩ := nextIf_at_ne here kind
  refine ⟨s₁, ?_, ahead⟩
  rw [repeats, bind_of_ok passed, if_neg (by simp)]
  rfl

theorem reaches_constant {c : ConstantDeclaration} (h : ConstantDeclaration.Derives ts c)
    (here : s.At stores (ts ++ us) ks is) (gs : List Goal) :
    Reaches (.consts :: gs, s) (.consts :: gs)
      (·.At stores us (ks.afterAll c.events) (is ++ c.code)) (ks.firstViolation? c.events) := by
  cases h with
  | @mk start name equals number stop ts sign startKind nameKind equalsKind signDerives numberKind
      stopKind =>
    simp only [List.cons_append, List.append_assoc] at here
    obtain ⟨s₁, begun, here⟩ := repeats_consts.go here startKind
    apply Reaches.step begun
    rw [ConstantDeclaration.events, Knowledge.firstViolation?_cons]
    apply reaches_introduced rfl here nameKind
    intro new s₂ here
    obtain ⟨s₃, equal, here⟩ := step_expect_at here equalsKind
    obtain ⟨s₄, read, here⟩ := constantValue_at name signDerives numberKind here
    obtain ⟨s₅, ended, here⟩ := step_constantEnd here stopKind new
      (ConstantDeclaration.value ⟨name, sign, number⟩)
    have taken : step (.constantValue name) s₃ =
        .ok [.constantEnd name (ConstantDeclaration.value ⟨name, sign, number⟩)] s₄ :=
      bind_of_ok read
    exact Reaches.step equal (Reaches.step taken (Reaches.step ended (.here here)))

/-! ### Variables -/

theorem idxOf_eq_length {x : String} (new : x ∉ ks.names) (initial : ks.names ++ [x] <+: names) :
    names.idxOf x = ks.length := by
  rw [← initial.idxOf_eq_of_mem (by simp), List.idxOf_append, if_neg new, List.idxOf_cons_self]
  simp

theorem step_variableEnd {name stop : Token} (here : s.At stores (stop :: us) ks is)
    (stopKind : stop.kind = .semicolon) (new : ks.find? name = none) (hasValue : Bool) :
    ∃ s', step (.variableEnd name hasValue) s = .ok [] s' ∧
      s'.At stores us (ks.after (.declared name false hasValue))
        (is ++ if stores && hasValue then [.sto ks.length] else []) := by
  obtain ⟨s₁, found, after⟩ := expect_at here stopKind
  obtain ⟨s₂, declared, known⟩ := declare_at after new false hasValue
  rw [step, bind_of_ok found, bind_of_ok declared]
  cases hasValue with
  | true =>
    obtain ⟨s₃, stored, done⟩ := storeFirst_at known ks.length
    rw [if_pos rfl, bind_of_ok stored, Bool.and_true]
    exact ⟨s₃, rfl, done⟩
  | false =>
    rw [if_neg (by simp), Bool.and_false, if_neg (by simp), List.append_nil]
    exact ⟨s₂, rfl, known⟩

theorem reaches_variable {v : VariableDeclaration} (h : VariableDeclaration.Derives ts v)
    (initial : ks.names ++ [v.name.spelling] <+: names) (here : s.At stores (ts ++ us) ks is)
    (gs : List Goal) :
    Reaches (.vars :: gs, s) (.vars :: gs)
      (·.At stores us (ks.afterAll v.events) (is ++ v.code names stores))
      (ks.firstViolation? v.events) := by
  cases h with
  | @plain start name stop startKind nameKind stopKind =>
    obtain ⟨s₁, begun, here⟩ := repeats_vars.go here startKind
    apply Reaches.step begun
    rw [VariableDeclaration.events, Knowledge.firstViolation?_cons]
    apply reaches_introduced rfl here nameKind
    intro new s₂ here
    obtain ⟨s₃, passed, here⟩ := nextIf_at_ne (k := .equals) here (by simp [stopKind])
    obtain ⟨s₄, ended, here⟩ := step_variableEnd here stopKind new false
    have taken : step (.variableValue name) s₂ = .ok [.variableEnd name false] s₃ :=
      bind_of_ok passed
    refine Reaches.step taken (Reaches.step ended (.here ?_))
    simpa [VariableDeclaration.code] using here
  | @initialized start name equals stop ts e startKind nameKind equalsKind derives stopKind =>
    simp only [List.cons_append, List.append_assoc] at here
    obtain ⟨s₁, begun, here⟩ := repeats_vars.go here startKind
    apply Reaches.step begun
    rw [VariableDeclaration.events, Knowledge.firstViolation?_cons]
    apply reaches_introduced rfl here nameKind
    intro new s₂ here
    obtain ⟨s₃, found, here⟩ := nextIf_at here equalsKind
    have taken : step (.variableValue name) s₂ = .ok [.expression, .variableEnd name true] s₃ :=
      bind_of_ok found
    have whole := reaches_whole derives ((List.prefix_append _ _).trans initial) here
      (stops_semicolon stopKind us) (.variableEnd name true :: .vars :: gs)
    have ended := whole.take fun s here => step_variableEnd here stopKind new true
    have fresh : name.spelling ∉ ks.names := Knowledge.find?_eq_none_iff.mp new
    apply Reaches.step taken
    simpa [VariableDeclaration.code, Knowledge.firstViolation?_append, Knowledge.firstViolation?,
      Knowledge.violation?, idxOf_eq_length fresh initial] using ended

/-! ### Statements -/

theorem step_statements_at (here : s.At stores (t :: us) ks is)
    (starts : t.kind ∈ Token.Kind.statementStarts) :
    ∃ s', step .statements s = (do return (← statement) ++ [statements]) s' ∧
      s'.At stores (t :: us) ks is := by
  obtain ⟨s₁, peeked, ahead, _⟩ := peek_at here
  refine ⟨s₁, ?_, ahead⟩
  rw [step, bind_of_ok peeked, if_pos starts]

theorem step_statements_stop (here : s.At stores us ks is)
    (stop : Heads (· ∉ Token.Kind.statementStarts) us) :
    ∃ s', step .statements s = .ok [] s' ∧ s'.At stores us ks is := by
  obtain ⟨t, rest, rfl, kind⟩ := stop
  obtain ⟨s₁, peeked, ahead, _⟩ := peek_at here
  refine ⟨s₁, ?_, ahead⟩
  rw [step, bind_of_ok peeked, if_neg kind]
  rfl

/-- A name that has its first value with an assignment is stored where first values are. -/
theorem step_assignmentEnd {name stop : Token} {known : Known}
    (here : s.At stores (stop :: us) ks is) (stopKind : stop.kind = .semicolon)
    (found : ks.find? name = some known) :
    ∃ s', step (.assignmentEnd name ⟨known.declaration, ks.names.idxOf name.spelling⟩) s =
        .ok [] s' ∧
      s'.At stores us (ks.after (.assigned name)) (is ++
        if stores || ks.valued.contains name.spelling then [.sto (ks.names.idxOf name.spelling)]
        else []) := by
  obtain ⟨s₁, stopped, after⟩ := expect_at here stopKind
  have valued := Knowledge.mem_valued_iff here.nodup found
  rw [step, bind_of_ok stopped]
  cases hasValue : known.hasValue with
  | true =>
    obtain ⟨s₂, emitted, done⟩ := emit_at after (.sto (ks.names.idxOf name.spelling))
    have initialized : known.declaration.isInitialized = true := hasValue
    have stored : (stores || ks.valued.contains name.spelling) = true := by
      simp [valued.mpr hasValue]
    rw [if_pos initialized, bind_of_ok emitted, if_pos stored,
      Knowledge.after_assigned_of_hasValue here.nodup found hasValue]
    exact ⟨s₂, rfl, done⟩
  | false =>
    obtain ⟨s₂, marked, learnt⟩ := markInitialized_at after found
    obtain ⟨s₃, stored, done⟩ := storeFirst_at learnt (ks.names.idxOf name.spelling)
    have first : ¬known.declaration.isInitialized = true := by simp [Known.declaration, hasValue]
    have unset : ks.valued.contains name.spelling = false := by simp [valued, hasValue]
    rw [if_neg first, bind_of_ok marked, bind_of_ok stored, unset, Bool.or_false]
    exact ⟨s₃, rfl, done⟩

theorem reaches_assignment {name equals stop : Token} {e : Expression}
    (nameKind : name.kind = .ident) (equalsKind : equals.kind = .equals)
    (derives : Expression.Derives .expression ts e)
    (stopKind : stop.kind = .semicolon) (initial : ks.names <+: names)
    (here : s.At stores (name :: equals :: ts ++ stop :: us) ks is) (gs : List Goal) :
    Reaches (.statements :: gs, s) (.statements :: gs)
      (·.At stores us (ks.afterAll (Statement.assign name e).events)
        (is ++ Statement.codeAll names stores ks.valued [.assign name e]))
      (ks.firstViolation? (Statement.assign name e).events) := by
  have starts : name.kind ∈ Token.Kind.statementStarts := by
    simp [nameKind, Token.Kind.statementStarts]
  obtain ⟨s₁, begun, here⟩ := step_statements_at here starts
  obtain ⟨s₂, peeked, here, _⟩ := peek_at here
  obtain ⟨s₃, found, here⟩ := expect_at here nameKind
  have begun : step .statements s = (do
      let e ← assignable name
      return [Goal.expect .equals, expression, assignmentEnd name e, statements]) s₃ := by
    rw [begun, statement, bind_assoc, bind_of_ok peeked]
    simp only [nameKind, assignment, bind_assoc, pure_bind]
    rw [bind_of_ok found]
    rfl
  rw [Statement.events, List.cons_append, Knowledge.firstViolation?_cons]
  cases violation : ks.violation? (.targeted name) with
  | some v =>
    obtain ⟨d, s', failed, explains⟩ := assignable_at_violation here violation
    exact .refused (begun.trans (bind_of_error failed)) explains
  | none =>
    obtain ⟨known, known?, assigned⟩ := assignable_at here violation
    rw [bind_of_ok assigned] at begun
    obtain ⟨s₄, equal, here⟩ := step_expect_at here equalsKind
    have whole := reaches_whole derives initial here (stops_semicolon stopKind us)
      (.assignmentEnd name ⟨known.declaration, ks.names.idxOf name.spelling⟩ :: .statements :: gs)
    have ended := whole.take fun s here => step_assignmentEnd here stopKind known?
    have slot := initial.idxOf_eq_of_mem (Knowledge.mem_names_of_find? known?)
    refine Reaches.step begun (Reaches.step equal ?_)
    simpa [Statement.codeAll, Knowledge.firstViolation?_append, Knowledge.firstViolation?,
      Knowledge.violation?, ← slot] using ended

theorem reaches_print {start l r stop : Token} {e : Expression}
    (startKind : start.kind = .printWord) (lKind : l.kind = .lparen)
    (derives : Expression.Derives .expression ts e)
    (rKind : r.kind = .rparen) (stopKind : stop.kind = .semicolon) (initial : ks.names <+: names)
    (here : s.At stores (start :: l :: ts ++ r :: stop :: us) ks is) (gs : List Goal) :
    Reaches (.statements :: gs, s) (.statements :: gs)
      (·.At stores us ks (is ++ Statement.codeAll names stores ks.valued [.print e]))
      (ks.firstViolation? e.events) := by
  have starts : start.kind ∈ Token.Kind.statementStarts := by
    simp [startKind, Token.Kind.statementStarts]
  obtain ⟨s₁, begun, here⟩ := step_statements_at here starts
  obtain ⟨s₂, peeked, here, _⟩ := peek_at here
  obtain ⟨s₃, found, here⟩ := expect_at here startKind
  have begun : step .statements s = .ok [.expect .lparen, .expression, .expect .rparen,
      .expect .semicolon, .emit .wrt, .statements] s₃ := by
    rw [begun, statement, bind_assoc, bind_of_ok peeked]
    simp only [startKind, output, bind_assoc, pure_bind]
    rw [bind_of_ok found]
    rfl
  obtain ⟨s₄, opened, here⟩ := step_expect_at here lKind
  have whole := reaches_whole derives initial here (Expression.stops_rparen rKind (stop :: us))
    (.expect .rparen :: .expect .semicolon :: .emit .wrt :: .statements :: gs)
  have closed := whole.take fun s here => step_expect_at here rKind
  have stopped := closed.take fun s here => step_expect_at here stopKind
  have done := stopped.take fun s here => step_emit_at here .wrt
  refine Reaches.step begun (Reaches.step opened ?_)
  simpa [Statement.codeAll] using done

theorem reaches_statement {x : Statement} (h : Statement.Derives ts x)
    (initial : ks.names <+: names) (here : s.At stores (ts ++ us) ks is) (gs : List Goal) :
    Reaches (.statements :: gs, s) (.statements :: gs)
      (·.At stores us (ks.afterAll x.events) (is ++ Statement.codeAll names stores ks.valued [x]))
      (ks.firstViolation? x.events) := by
  cases h with
  | assign nameKind equalsKind derives stopKind =>
    simp only [List.cons_append, List.append_assoc] at here
    exact reaches_assignment nameKind equalsKind derives stopKind initial here gs
  | @print start l r stop ts e startKind lKind derives rKind stopKind =>
    simp only [List.cons_append, List.append_assoc] at here
    have printed := reaches_print startKind lKind derives rKind stopKind initial here gs
    rwa [Statement.events, Knowledge.afterAll_expression]
  | @empty stop kind =>
    have starts : stop.kind ∈ Token.Kind.statementStarts := by
      simp [kind, Token.Kind.statementStarts]
    obtain ⟨s₁, begun, here⟩ := step_statements_at here starts
    obtain ⟨s₂, peeked, _, s₃, dropped, here⟩ := peek_at here
    have taken : step .statements s = .ok [.statements] s₃ := by
      rw [begun, statement, bind_assoc, bind_of_ok peeked]
      simp only [kind, bind_assoc, pure_bind]
      rw [bind_of_ok dropped]
      rfl
    exact Reaches.step taken (.here (by simpa [Statement.codeAll, Statement.events] using here))

/-! ### Whole programs -/

theorem reaches_consts {cs : List ConstantDeclaration}
    (h : DerivesEach ConstantDeclaration.Derives ts cs) (here : s.At stores (ts ++ us) ks is)
    (gs : List Goal) :
    Reaches (.consts :: gs, s) (.consts :: gs)
      (·.At stores us (ks.afterAll (cs.flatMap ConstantDeclaration.events))
        (is ++ cs.flatMap ConstantDeclaration.code))
      (ks.firstViolation? (cs.flatMap ConstantDeclaration.events)) := by
  induction h generalizing s ks is with
  | nil => exact .here (by simpa using here)
  | cons derives _ inductionHypothesis =>
    rw [List.append_assoc] at here
    have first := reaches_constant derives here gs
    have all := first.trans fun _ s here => inductionHypothesis here
    simpa [Knowledge.firstViolation?_append] using all

theorem reaches_vars {vs : List VariableDeclaration}
    (h : DerivesEach VariableDeclaration.Derives ts vs)
    (initial : ks.names ++ vs.map (·.name.spelling) <+: names)
    (here : s.At stores (ts ++ us) ks is) (gs : List Goal) :
    Reaches (.vars :: gs, s) (.vars :: gs)
      (·.At stores us (ks.afterAll (vs.flatMap VariableDeclaration.events))
        (is ++ vs.flatMap (VariableDeclaration.code names stores)))
      (ks.firstViolation? (vs.flatMap VariableDeclaration.events)) := by
  induction h generalizing s ks is with
  | nil => exact .here (by simpa using here)
  | @cons ts us v vs derives _ inductionHypothesis =>
    rw [List.append_assoc] at here
    have later : (ks.afterAll v.events).names ++ vs.map (·.name.spelling) <+: names := by
      simpa using initial
    have now : ks.names ++ [v.name.spelling] <+: names := by
      simpa using (List.prefix_append _ _).trans later
    have first := reaches_variable derives now here gs
    have all := first.trans fun _ s here => inductionHypothesis later here
    simpa [Knowledge.firstViolation?_append] using all

theorem reaches_statements {xs : List Statement} (h : DerivesEach Statement.Derives ts xs)
    (initial : ks.names <+: names) (here : s.At stores (ts ++ us) ks is) (gs : List Goal) :
    Reaches (.statements :: gs, s) (.statements :: gs)
      (·.At stores us (ks.afterAll (xs.flatMap Statement.events))
        (is ++ Statement.codeAll names stores ks.valued xs))
      (ks.firstViolation? (xs.flatMap Statement.events)) := by
  induction h generalizing s ks is with
  | nil => exact .here (by simpa [Statement.codeAll] using here)
  | @cons ts vs x xs derives _ inductionHypothesis =>
    rw [List.append_assoc] at here
    have later : (ks.afterAll x.events).names <+: names := by simpa using initial
    have first := reaches_statement derives initial here gs
    rw [List.flatMap_cons, Knowledge.firstViolation?_append]
    apply first.trans
    intro allowed s here
    have rest := inductionHypothesis later here
    rwa [List.append_assoc, ← Statement.codeAll_cons allowed, ← Knowledge.afterAll_append] at rest

section

variable {p : Program} {start finish last : Token} {cs vs ss : List Token}

/-- The declarations of variables are reached behind those of constants. -/
theorem reaches_program_vars (startKind : start.kind = .beginWord)
    (consts : DerivesEach ConstantDeclaration.Derives cs p.consts)
    (stop : Heads (· ≠ .constWord) us) (here : s.At stores (start :: (cs ++ us)) [] []) :
    Reaches (Goal.program, s) (.vars :: .statements :: [.expect .endWord, .expect .eof])
      (·.At stores us (Knowledge.declared p.consts []) (p.consts.flatMap ConstantDeclaration.code))
      (Knowledge.firstViolation? [] (p.consts.flatMap ConstantDeclaration.events)) := by
  obtain ⟨s₁, begun, here⟩ := step_expect_at here startKind
  have all := reaches_consts consts here (.vars :: .statements :: [.expect .endWord, .expect .eof])
  have stopped := all.take fun s here => repeats_consts.stop here stop
  rw [Knowledge.afterAll_constants] at stopped
  exact Reaches.step begun stopped

/-- The statements are reached behind all declarations. -/
theorem reaches_program_statements (startKind : start.kind = .beginWord)
    (consts : DerivesEach ConstantDeclaration.Derives cs p.consts)
    (vars : DerivesEach VariableDeclaration.Derives vs p.vars)
    (stop : Heads (fun k => k ∈ Token.Kind.statementStarts ∨ k = .endWord) us)
    (here : s.At stores (start :: (cs ++ (vs ++ us))) [] []) :
    Reaches (Goal.program, s) (.statements :: [.expect .endWord, .expect .eof])
      (·.At stores us p.declared (p.consts.flatMap ConstantDeclaration.code ++
        p.vars.flatMap (VariableDeclaration.code p.names stores)))
      (Knowledge.firstViolation? [] (p.consts.flatMap ConstantDeclaration.events ++
        p.vars.flatMap VariableDeclaration.events)) := by
  have before := reaches_program_vars startKind consts (heads_vars vars stop) here
  have all := before.trans fun _ s here =>
    reaches_vars vars (p.names_before (List.append_nil _).symm) here
      (.statements :: [.expect .endWord, .expect .eof])
  have stopped := all.take fun s here => repeats_vars.stop here (heads_body stop)
  rw [Knowledge.declared_afterAll_vars] at stopped
  rw [Knowledge.firstViolation?_append, Knowledge.afterAll_constants]
  exact stopped

end

/-- A pass over a program of the grammar ends with the code of its tree, unless the program breaks
a rule for names. -/
theorem reaches_program {p : Program} (h : Program.Derives ts p) (here : s.At stores ts [] []) :
    Reaches (Goal.program, s) []
      (·.At stores [] (Knowledge.afterAll [] p.events) (p.code stores)) p.violation? := by
  cases h with
  | @mk start finish last cs vs ss p startKind consts vars statements finishKind lastKind =>
    simp only [List.cons_append, List.append_assoc] at here
    have before := reaches_program_statements startKind consts vars
      (heads_statements statements finishKind) here
    have all := before.trans fun _ s here =>
      reaches_statements statements p.names_declared_initial here [.expect .endWord, .expect .eof]
    have stopped := all.take fun s here => step_statements_stop here
      (by simp [finishKind, Token.Kind.statementStarts])
    have finished := stopped.take fun s here => step_expect_at here finishKind
    have ended := finished.take fun s here => step_expect_at here lastKind
    rw [p.valued_declared] at ended
    rw [Program.violation?, Program.events, Knowledge.firstViolation?_append,
      Knowledge.afterAll_append, Knowledge.afterAll_declarations]
    exact ended

end PassM
end OnePass
