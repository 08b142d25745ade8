import OnePass.Program.Code
import OnePass.Program.Deferral
import OnePass.Program.Grammar
import OnePass.Proofs.Program.NameRules
import OnePass.Proofs.Program.Numbers
import OnePass.Proofs.Program.Unambiguous

/-!
Assignments instead of initializers. Where an initializer stands and where its assignment stands the
same names have values, because nothing else is assigned before the assignments. So a program keeps
the rules for names if and only if it does so with assignments, and its code and its declarations
are the same.
-/

namespace OnePass

open VariableDeclaration

section

variable {names known : List String} {stores : Bool} {vs : List VariableDeclaration}
  {ss : List Statement} {name : String}

theorem Statement.assigns_append (as ss : List Statement) (name : String) :
    assigns (as ++ ss) name = (assigns as name || assigns ss name) := List.any_append

theorem mem_assignments_iff {t : Token} {e : Expression} :
    .assign t e ∈ vs.filterMap assignment? ↔ ⟨t, some e⟩ ∈ vs := by
  simp only [List.mem_filterMap, assignment?, Option.map_eq_some_iff]
  constructor
  · rintro ⟨⟨name, initial⟩, member, _, rfl, same⟩
    cases same
    exact member
  · intro member
    exact ⟨⟨t, some e⟩, member, e, rfl, rfl⟩

theorem assigns_assignments_iff :
    Statement.assigns (vs.filterMap assignment?) name = true ↔
      ∃ v ∈ vs, v.initial.isSome ∧ v.name.spelling = name := by
  simp only [Statement.assigns_iff, mem_assignments_iff]
  constructor
  · rintro ⟨t, e, member, same⟩
    exact ⟨_, member, rfl, same⟩
  · rintro ⟨⟨t, initial⟩, member, initialized, same⟩
    obtain ⟨e, rfl⟩ := Option.isSome_iff_exists.mp initialized
    exact ⟨t, e, member, same⟩

/-- A variable is assigned in front of the other statements if it had an initializer. -/
theorem assigns_assignments (distinct : (vs.map (·.name.spelling)).Nodup) {v : VariableDeclaration}
    (member : v ∈ vs) :
    Statement.assigns (vs.filterMap assignment?) v.name.spelling = v.initial.isSome := by
  rw [Bool.eq_iff_iff, assigns_assignments_iff]
  constructor
  · rintro ⟨w, there, initialized, same⟩
    rwa [← List.inj_on_of_nodup_map distinct there member same]
  · intro initialized
    exact ⟨v, member, initialized, rfl⟩

/-- Assignments give values to the names that initializers give values to. -/
theorem hasValue_assignments_iff {cs : List ConstantDeclaration}
    {ws : List VariableDeclaration} :
    HasValue cs (ws.map plain) (vs.filterMap assignment? ++ ss) name ↔ HasValue cs vs ss name := by
  rw [hasValue_iff, hasValue_iff, ← Statement.assigns_iff, ← Statement.assigns_iff,
    Statement.assigns_append, Bool.or_eq_true, assigns_assignments_iff]
  simp [plain]

/-- Assignments to names without a value have the code of initializers. -/
theorem codeAll_assignments (distinct : (known ++ vs.map (·.name.spelling)).Nodup) :
    Statement.codeAll names stores known (vs.filterMap assignment? ++ ss) =
      vs.flatMap (code names stores) ++ Statement.codeAll names stores
        (known ++ (vs.filter fun v => v.initial.isSome).map fun v => v.name.spelling) ss := by
  induction vs generalizing known with
  | nil => simp
  | cons v vs others =>
    rcases v with ⟨t, _ | e⟩
    · have fewer : (known ++ vs.map (·.name.spelling)).Nodup :=
        distinct.sublist ((List.sublist_cons_self ..).append_left known)
      rw [List.filterMap_cons_none rfl, others fewer]
      simp [code]
    · have first : t.spelling ∉ known := by
        intro member
        exact (List.nodup_append.mp distinct).2.2 _ member _ List.mem_cons_self rfl
      have more : ((known ++ [t.spelling]) ++ vs.map (·.name.spelling)).Nodup := by
        simpa using distinct
      have same (name : String) : name ∈ t.spelling :: known ↔ name ∈ known ++ [t.spelling] := by
        simp [or_comm]
      have rest := others more
      rw [← Statement.codeAll_congr same] at rest
      have assignment : assignment? ⟨t, some e⟩ = some (.assign t e) := rfl
      rw [List.filterMap_cons_some assignment, List.cons_append, Statement.codeAll, rest]
      simp [code, first]

end

namespace Program

variable (p : Program)

theorem names_deferred : p.deferred.names = p.names := by
  simp [names, deferred, plain, Function.comp_def]

theorem initializers_deferred_iff :
    (∀ before x after, p.vars.filterMap assignment? = before ++ x :: after →
      ∀ t ∈ x.reads, HasValue p.consts p.deferred.vars before t.spelling) ↔
    ∀ before v after, p.vars = before ++ v :: after → ∀ e, v.initial = some e →
      ∀ t ∈ e.reads, HasValue p.consts before [] t.spelling := by
  have value (before : List VariableDeclaration) (name : String) :
      HasValue p.consts p.deferred.vars (before.filterMap assignment?) name ↔
        HasValue p.consts before [] name := by
    have here := @hasValue_assignments_iff before [] name p.consts p.vars
    rwa [List.append_nil] at here
  rw [forall_splits_filterMap]
  simp [assignment?, Statement.reads, value]

theorem statements_deferred_iff :
    (∀ before x after, p.deferred.statements = before ++ x :: after →
      ∀ t ∈ x.reads, HasValue p.consts p.deferred.vars before t.spelling) ↔
    (∀ before v after, p.vars = before ++ v :: after → ∀ e, v.initial = some e →
      ∀ t ∈ e.reads, HasValue p.consts before [] t.spelling) ∧
    ∀ before x after, p.statements = before ++ x :: after →
      ∀ t ∈ x.reads, HasValue p.consts p.vars before t.spelling := by
  have value (before : List Statement) (name : String) :
      HasValue p.consts p.deferred.vars (p.vars.filterMap assignment? ++ before) name ↔
        HasValue p.consts p.vars before name := hasValue_assignments_iff
  rw [← initializers_deferred_iff]
  simp only [← value]
  exact forall_splits_append

/-- A variable is no constant, so it can be assigned instead of initialized. -/
theorem targets_deferred_iff (distinct : p.names.Nodup) :
    (∀ t e, .assign t e ∈ p.deferred.statements →
      t.spelling ∈ p.names ∧ ∀ c ∈ p.consts, c.name.spelling ≠ t.spelling) ↔
    ∀ t e, .assign t e ∈ p.statements →
      t.spelling ∈ p.names ∧ ∀ c ∈ p.consts, c.name.spelling ≠ t.spelling := by
  constructor
  · intro every t e member
    exact every t e (List.mem_append_right _ member)
  · intro every t e member
    rcases List.mem_append.mp member with first | later
    · have there := List.mem_map_of_mem (f := (·.name.spelling)) (mem_assignments_iff.mp first)
      refine ⟨List.mem_append_right _ there, ?_⟩
      intro c constant
      exact (List.nodup_append.mp distinct).2.2 _ (List.mem_map_of_mem constant) _ there
    · exact every t e later

/-- The rules for names are kept by both programs or by none. -/
theorem isWellNamed_deferred_iff : p.deferred.IsWellNamed ↔ p.IsWellNamed := by
  constructor
  · intro found
    rcases found with ⟨distinct, _, statements, targets⟩
    rw [names_deferred] at distinct targets
    obtain ⟨initializers, statements⟩ := p.statements_deferred_iff.mp statements
    exact ⟨distinct, initializers, statements, (p.targets_deferred_iff distinct).mp targets⟩
  · intro found
    rcases found with ⟨distinct, initializers, statements, targets⟩
    refine ⟨p.names_deferred.symm ▸ distinct, ?_, ?_, ?_⟩
    · intro before v after split e initial
      have member : v ∈ p.deferred.vars := split ▸ List.mem_append_right _ List.mem_cons_self
      obtain ⟨w, _, rfl⟩ := List.mem_map.mp member
      cases initial
    · exact p.statements_deferred_iff.mpr ⟨initializers, statements⟩
    · rw [names_deferred]
      exact (p.targets_deferred_iff distinct).mpr targets

theorem code_deferred (distinct : p.names.Nodup) (stores : Bool) :
    p.deferred.code stores = p.code stores := by
  have plain : p.deferred.vars.flatMap (VariableDeclaration.code p.names stores) = [] := by
    simp [deferred, VariableDeclaration.plain, VariableDeclaration.code]
  have valued : p.deferred.valued = p.consts.map fun c => c.name.spelling := by
    simp [valued, deferred, VariableDeclaration.plain]
  rw [code, names_deferred, plain, valued, List.append_nil]
  simp only [deferred]
  rw [codeAll_assignments distinct, code, List.append_assoc]
  rfl

theorem declarations_deferred (distinct : p.names.Nodup) :
    p.deferred.declarations = p.declarations := by
  have assigned : ∀ v ∈ p.vars, Statement.assigns p.deferred.statements v.name.spelling =
      (v.initial.isSome || Statement.assigns p.statements v.name.spelling) := by
    intro v member
    have vars : (p.vars.map (·.name.spelling)).Nodup := distinct.of_append_right
    rw [deferred, Statement.assigns_append, assigns_assignments vars member]
  rw [declarations, declarations]
  congr 1
  simp only [deferred, List.map_map]
  apply List.map_congr_left
  intro v member
  simp [plain, ← assigned v member, deferred]

theorem deferred_map (f : Token → Token) : (p.map f).deferred = p.deferred.map f := by
  have assignment (v : VariableDeclaration) :
      (v.map f).assignment? = v.assignment?.map (.map f) := by
    rcases v with ⟨t, _ | e⟩ <;> rfl
  have plain (v : VariableDeclaration) : (v.map f).plain = v.plain.map f := rfl
  simp [deferred, map, List.filterMap_map, List.map_filterMap, Function.comp_def, assignment, plain]

theorem numbers_deferred : p.deferred.numbers = p.numbers := by
  have assignments (vs : List VariableDeclaration) :
      (vs.filterMap assignment?).flatMap Statement.numbers =
        vs.flatMap VariableDeclaration.numbers := by
    induction vs with
    | nil => rfl
    | cons v vs others =>
      rcases v with ⟨t, _ | e⟩
      · exact others
      · exact congrArg (e.numbers ++ ·) others
  have plain (v : VariableDeclaration) : v.plain.numbers = [] := rfl
  simp [numbers, deferred, List.flatMap_map, plain, assignments]

end Program

/-! ### Tokens -/

/-- Declarations contain the tokens of those without initializers and of the assignments. -/
theorem DerivesEach.deferred {ts : List Token} {vs : List VariableDeclaration}
    (h : DerivesEach VariableDeclaration.Derives ts vs) :
    ∃ us ws, DerivesEach VariableDeclaration.Derives us (vs.map plain) ∧
      DerivesEach Statement.Derives ws (vs.filterMap assignment?) ∧ us ⊆ ts ∧ ws ⊆ ts := by
  induction h with
  | nil => exact ⟨[], [], .nil, .nil, List.nil_subset _, List.nil_subset _⟩
  | cons first _ others =>
    obtain ⟨us, ws, plains, assignments, inside, within⟩ := others
    cases first with
    | @plain start name stop startKind nameKind stopKind =>
      refine ⟨[start, name, stop] ++ us, ws, .cons (.plain startKind nameKind stopKind) plains,
        assignments, ?_, ?_⟩
      · grind
      · grind
    | @initialized start name equals stop ts e startKind nameKind equalsKind initial stopKind =>
      refine ⟨[start, name, stop] ++ us, (name :: equals :: ts ++ [stop]) ++ ws,
        .cons (.plain startKind nameKind stopKind) plains,
        .cons (.assign nameKind equalsKind initial stopKind) assignments, ?_, ?_⟩
      · grind
      · grind

theorem Program.Derives.deferred {ts : List Token} {p : Program} (h : Program.Derives ts p) :
    ∃ us, Program.Derives us p.deferred ∧ us ⊆ ts := by
  cases h with
  | @mk start finish last cs vs ss p startKind consts vars statements finishKind lastKind =>
    obtain ⟨us, ws, plains, assignments, inside, within⟩ := vars.deferred
    refine ⟨start :: cs ++ us ++ (ws ++ ss) ++ [finish, last], ?_, ?_⟩
    · exact .mk startKind consts plains (assignments.append statements) finishKind lastKind
    · grind

end OnePass
