import OnePass.Proofs.Pass.Semicolons
import OnePass.Proofs.Program.Unambiguous

/-!
The variables of a text. An initializer changes no names, and the name of its declaration is added
once its semicolon has been taken. So wherever the reading of variables ends, the names that it has
added are those of the declarations completed so far.
-/

namespace OnePass

/-- What the names hold of a declared variable. -/
def VariableDeclaration.declaration (v : VariableDeclaration) : Declaration :=
  ⟨v.name.spelling, false, v.initial.isSome, some v.name.start⟩

theorem Expression.Derives.ne_semicolon {l : Level} {ts : List Token} {e : Expression}
    (derives : Derives l ts e) : ∀ t ∈ ts, t.kind ≠ .semicolon := by
  induction derives with
  | product operator _ _ left right | sum operator _ _ left right =>
    rw [List.forall_mem_append, List.forall_mem_cons]
    refine ⟨left, ?_, right⟩
    intro kind
    rw [kind] at operator
    cases operator
  | group => simp_all [or_imp]
  | _ => simp_all

namespace Pass

/-- Between two states these variables have been read and declared. -/
structure DeclaresVariables (s : Pass) (us : List Token) (vs : List VariableDeclaration)
    (s' : Pass) : Prop where
  derives : DerivesEach VariableDeclaration.Derives us vs
  leads : s.Leads us s'
  declarations : s'.scope.declarations =
    s.scope.declarations ++ vs.map VariableDeclaration.declaration

variable {s s' s'' : Pass} {ts us : List Token} {v : VariableDeclaration}
  {vs : List VariableDeclaration}

theorem DeclaresVariables.refl (s : Pass) : s.DeclaresVariables [] [] s :=
  ⟨.nil, .refl s, by simp⟩

/-- Looking at the next token changes nothing that has been declared. -/
theorem DeclaresVariables.peeked (declares : s.DeclaresVariables us vs s')
    (leads : s'.Leads [] s'') (scope : s''.scope = s'.scope) : s.DeclaresVariables us vs s'' := by
  refine ⟨declares.derives, ?_, scope ▸ declares.declarations⟩
  simpa using declares.leads.trans leads

/-- One more variable is declared. -/
theorem DeclaresVariables.push (declares : s.DeclaresVariables us vs s') (derives : v.Derives ts)
    (leads : s'.Leads ts s'')
    (declarations : s''.scope.declarations = s'.scope.declarations ++ [v.declaration]) :
    s.DeclaresVariables (us ++ ts) (vs ++ [v]) s'' := by
  refine ⟨declares.derives.concat derives, declares.leads.trans leads, ?_⟩
  simp [declarations, declares.declarations]

end Pass

/-- What has been taken of a variable's declaration, and what is left of it. -/
inductive VariableStage : List Token → List Goal → Prop
  | between : VariableStage [] []
  | begun {start : Token} : start.kind = .varWord → VariableStage [start] [.variableName]
  | named {start name : Token} : start.kind = .varWord → name.kind = .ident →
      VariableStage [start, name] [.variableValue name]
  | plain {start name : Token} : start.kind = .varWord → name.kind = .ident →
      VariableStage [start, name] [.variableEnd name false]
  | initialized {start name equals : Token} {ts : List Token} {left : List Goal} :
      start.kind = .varWord → name.kind = .ident → equals.kind = .equals →
      (∀ us, Goal.FindAll left us → ∃ e, Expression.Derives .expression (ts ++ us) e) →
      (∀ g ∈ left, g.touches = false) →
      VariableStage (start :: name :: equals :: ts) (left ++ [.variableEnd name true])

/-- Nothing has been taken of a declaration of which nothing is left. -/
theorem VariableStage.eq_nil {ts : List Token} {left : List Goal} (stage : VariableStage ts left)
    (none : left = []) : ts = [] := by
  cases stage with
  | between => rfl
  | _ => simp_all

/-- No semicolon is taken before the end of a declaration. -/
theorem VariableStage.ne_semicolon {ts : List Token} {left : List Goal}
    (stage : VariableStage ts left) : ∀ t ∈ ts, t.kind ≠ .semicolon := by
  cases stage with
  | @initialized _ _ _ _ left startKind nameKind equalsKind derives _ =>
    obtain ⟨us, found⟩ := Goal.exists_findAll left
    obtain ⟨e, derived⟩ := derives us found
    have others := List.forall_mem_append.mp derived.ne_semicolon
    simp_all
  | _ => simp_all

theorem Goal.Does.of_variableEnd {scope scope' : Scope} {name : Token} {hasValue : Bool}
    {goals : List Goal} {added : Bool → List Instruction}
    (does : Does scope (.variableEnd name hasValue) goals scope' added) :
    goals = [] ∧
      scope.declare ⟨name.spelling, false, hasValue, some name.start⟩ = .ok scope' := by
  cases does with
  | continues continues => cases continues
  | variableEnd declared => exact ⟨rfl, declared⟩

namespace PassM

open Goal

variable {s t t' u : Pass} {g : Goal} {goals rest left : List Goal} {ts us : List Token}
  {v : VariableDeclaration} {vs : List VariableDeclaration}

/-- Some variables have been declared, and the next one has been read up to a stage. -/
def ReadsVariables (s : Pass) (left : List Goal) (t : Pass) : Prop :=
  ∃ us vs u ts, s.DeclaresVariables us vs u ∧ u.Leads ts t ∧ t.scope = u.scope ∧
    VariableStage ts left

/-- A declaration ends with its semicolon, and adds its name. -/
theorem variableEnd_ends {name : Token} {hasValue : Bool}
    (taken : step (variableEnd name hasValue) t = .ok goals t') :
    goals = [] ∧ (∃ stop : Token, stop.kind = .semicolon ∧ t.Leads [stop] t') ∧
      t'.scope.declarations = t.scope.declarations ++
        [⟨name.spelling, false, hasValue, some name.start⟩] := by
  obtain ⟨_, does, _⟩ := does_of_step taken
  obtain ⟨_, leads, found⟩ := step_refines taken
  obtain ⟨rfl, declared⟩ := does.of_variableEnd
  obtain ⟨stop, only, kind⟩ := found [] rfl
  rw [List.append_nil] at only
  subst only
  exact ⟨rfl, ⟨stop, kind, leads⟩, Scope.declarations_of_declare declared⟩

/-- With the end of its declaration a variable is declared. -/
theorem ReadsVariables.ends (declares : s.DeclaresVariables us vs u) (leads : u.Leads ts t)
    (scope : t.scope = u.scope)
    (derives : ∀ stop : Token, stop.kind = .semicolon → v.Derives (ts ++ [stop]))
    (taken : step (variableEnd v.name v.initial.isSome) t = .ok goals t') :
    goals = [] ∧ ReadsVariables s [] t' := by
  obtain ⟨rfl, ⟨stop, kind, further⟩, declarations⟩ := variableEnd_ends taken
  rw [scope] at declarations
  have pushed := declares.push (derives stop kind) (leads.trans further) declarations
  exact ⟨rfl, _, _, _, [], pushed, .refl _, rfl, .between⟩

/-- A step within an initializer reads on, and changes no names. -/
theorem VariableStage.read {start name equals : Token} (startKind : start.kind = .varWord)
    (nameKind : name.kind = .ident) (equalsKind : equals.kind = .equals)
    (derives : ∀ us, FindAll (g :: left) us → ∃ e, Expression.Derives .expression (ts ++ us) e)
    (untouched : ∀ h ∈ g :: left, h.touches = false) (settled : Settled t.scope (g :: rest))
    (taken : step g t = .ok goals t') :
    t'.scope = t.scope ∧ ∃ ws, t.Leads ws t' ∧
      VariableStage (start :: name :: equals :: (ts ++ ws))
        (goals ++ left ++ [variableEnd name true]) := by
  obtain ⟨now, later⟩ := List.forall_mem_cons.mp untouched
  obtain ⟨same, still⟩ := untouched_of_step settled now taken
  obtain ⟨ws, leads, finds⟩ := step_refines taken
  refine ⟨same, ws, leads, .initialized startKind nameKind equalsKind ?_ ?_⟩
  · intro us found
    rw [List.append_assoc]
    exact derives (ws ++ us) (findAll_cons finds found)
  · exact List.forall_mem_append.mpr ⟨still, later⟩

/-- A step reads on, or completes a declaration. Between two declarations it begins another one or
ends the reading. -/
theorem ReadsVariables.step (reads : ReadsVariables s left t)
    (settled : Settled t.scope (left ++ [vars])) (first : left ++ [vars] = g :: rest)
    (taken : step g t = .ok goals t') :
    (∃ left', goals ++ rest = left' ++ [vars] ∧ ReadsVariables s left' t') ∨
      goals ++ rest = [] ∧ ReadsVariables s [] t' := by
  obtain ⟨us, vs, u, ts, declares, leads, scope, stage⟩ := reads
  cases stage with
  | between =>
    cases first
    rcases repeats_vars.eq_ok taken with ⟨looked, rfl⟩ | ⟨start, looked, rfl⟩
    · obtain ⟨_, further⟩ := nextIf_leads looked
      have still := ((looks_nextIf .varWord).scope _ _ _ looked).trans scope
      exact .inr ⟨rfl, us, vs, u, _, declares, leads.trans further, still, .between⟩
    · obtain ⟨kind, further⟩ := nextIf_leads looked
      have still := ((looks_nextIf .varWord).scope _ _ _ looked).trans scope
      exact .inl ⟨[variableName], rfl, us, vs, u, _, declares, leads.trans further, still,
        .begun (kind start rfl)⟩
  | begun startKind =>
    cases first
    simp only [PassM.step, bind_eq_ok, pure_eq_ok] at taken
    obtain ⟨name, _, found, _, _, isNew, rfl, rfl⟩ := taken
    rw [checkNew_ok isNew]
    obtain ⟨kind, further⟩ := expect_leads found
    have still := ((looks_expect .ident).scope _ _ _ found).trans scope
    exact .inl ⟨[variableValue name], rfl, us, vs, u, _, declares, leads.trans further, still,
      .named startKind kind⟩
  | @named start name startKind nameKind =>
    cases first
    simp only [PassM.step] at taken
    obtain ⟨found, _, looked, taken⟩ := bind_eq_ok.mp taken
    obtain ⟨kind, further⟩ := nextIf_leads looked
    have still := ((looks_nextIf .equals).scope _ _ _ looked).trans scope
    cases found with
    | some equals =>
      obtain ⟨rfl, rfl⟩ := pure_eq_ok.mp taken
      refine .inl ⟨[expression] ++ [variableEnd name true], rfl, us, vs, u, _, declares,
        leads.trans further, still, .initialized startKind nameKind (kind equals rfl) ?_ ?_⟩
      · exact fun us found => findAll_singleton.mp found
      · simp [Goal.touches]
    | none =>
      obtain ⟨rfl, rfl⟩ := pure_eq_ok.mp taken
      exact .inl ⟨[variableEnd name false], rfl, us, vs, u, _, declares, leads.trans further,
        still, .plain startKind nameKind⟩
  | @plain start name startKind nameKind =>
    cases first
    obtain ⟨rfl, reads⟩ := ReadsVariables.ends (v := ⟨name, none⟩) declares leads scope
      (fun _ => .plain startKind nameKind) taken
    exact .inl ⟨[], rfl, reads⟩
  | @initialized start name equals es left startKind nameKind equalsKind derives untouched =>
    cases left with
    | nil =>
      cases first
      obtain ⟨e, derived⟩ := derives [] rfl
      rw [List.append_nil] at derived
      obtain ⟨rfl, reads⟩ := ReadsVariables.ends (v := ⟨name, some e⟩) declares leads scope
        (fun _ => .initialized startKind nameKind equalsKind derived) taken
      exact .inl ⟨[], rfl, reads⟩
    | cons h left =>
      obtain ⟨rfl, rfl⟩ := List.cons.inj first
      obtain ⟨same, ws, further, stage⟩ := VariableStage.read startKind nameKind equalsKind derives
        untouched settled taken
      exact .inl ⟨goals ++ left ++ [variableEnd name true], by simp, us, vs, u, _, declares,
        leads.trans further, same.trans scope, stage⟩

/-- Variables are declared one by one, whether the reading of them ends well or not. What is taken
behind them where it fails has no semicolon. -/
theorem declares_of_run_vars (s : Pass) :
    ∃ us vs u, s.DeclaresVariables us vs u ∧
      match run [vars] s with
      | .ok _ s' => s' = u
      | .error _ s' => u.Spares s' ∧ s'.scope = u.scope := by
  have begun : ReadsVariables s [] s := ⟨[], [], s, [], .refl s, .refl s, rfl, .between⟩
  have settled : Settled s.scope [vars] := ⟨by simp [Fits], by decide⟩
  have ends := run_of_loop ReadsVariables.step begun settled
  rw [List.nil_append] at ends
  cases ran : run [vars] s with
  | ok _ s' =>
    rw [ran] at ends
    obtain ⟨us, vs, u, ts, declares, leads, scope, stage⟩ := ends
    obtain rfl := stage.eq_nil rfl
    exact ⟨us, vs, s', declares.peeked leads scope, rfl⟩
  | error d s' =>
    rw [ran] at ends
    obtain ⟨left, t, ⟨us, vs, u, ts, declares, leads, still, stage⟩, spares, scope, _⟩ := ends
    exact ⟨us, vs, u, declares, spares.after leads stage.ne_semicolon, scope.trans still⟩

end PassM
end OnePass
