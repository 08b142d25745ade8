import OnePass.Proofs.Machine.Cells

/-!
Code that stores first values, on the machine whose slots are the cells of its stack. Between
statements the stack holds the constants and nothing else, as nothing reserves the cells of
variables. So the first store of a program meets a fault, and only programs without stores run to
their end.
-/

namespace OnePass

def Statement.isAssignment : Statement → Bool
  | .assign _ _ => true
  | .print _ | .empty => false

/-- No variable ever gets a value. -/
structure Program.StoresNothing (p : Program) : Prop where
  initializers : ∀ v ∈ p.vars, v.initial = none
  assignments : ∀ x ∈ p.statements, x.isAssignment = false

namespace Machine.Cells

variable {a : Arithmetic} {names : List String} {ks : Knowledge} {s : Cells} {store : Store}

theorem exec_cons (a : Arithmetic) (s : Cells) (i : Instruction) (is : List Instruction) :
    exec a s (i :: is) = (s.step a i).andThen fun s => exec a s is := rfl

/-- A value that has been pushed cannot be stored above the height of the stack. -/
theorem exec_store_fault {e : Expression} {slot : Nat} (is : List Instruction)
    (total : ∀ o left right, (a o left right).isSome)
    (loads : (operands a).Loads names store s e) (outside : s.length ≤ slot) :
    exec a s (e.code names ++ .sto slot :: is) = .silent (.error .unset) := by
  have pushed : exec a s (e.code names) = _ := Operands.exec_expression loads
  rw [exec_append, pushed]
  rcases e.evaluate_cases a loads.isSome with ⟨n, value⟩ | ⟨o, left, right, stuck, _⟩
  · rw [value]
    change exec a (n :: s) (.sto slot :: is) = _
    rw [exec_cons, step, set?_eq_none n outside]
    rfl
  · simpa [stuck] using total o left right

theorem exec_print {e : Expression} (is : List Instruction)
    (total : ∀ o left right, (a o left right).isSome)
    (loads : (operands a).Loads names store s e) :
    ∃ n, exec a s (e.code names ++ .wrt :: is) = (⟨[n], .ok s⟩ : Run Cells).andThen (exec a · is) ∧
      (Statement.print e).evaluate a store = ⟨[n], .ok store⟩ := by
  have pushed : exec a s (e.code names) = _ := Operands.exec_expression loads
  rcases e.evaluate_cases a loads.isSome with ⟨n, value⟩ | ⟨o, left, right, stuck, _⟩
  · refine ⟨n, ?_, by rw [Statement.evaluate, value]⟩
    rw [exec_append, pushed, value]
    rfl
  · simpa [stuck] using total o left right

/-- The constants are all that has a value, and they have the first slots. -/
structure OnlyConstants (names : List String) (ks : Knowledge) : Prop where
  valued : ks.valued = ks.constants
  initial : ks.constants <+: names

theorem OnlyConstants.outside (only : OnlyConstants names ks) (here : Holds ks s store)
    {name : String} (other : name ∉ ks.constants) : s.length ≤ names.idxOf name := by
  rw [here.length_eq, only.valued]
  apply Nat.le_of_not_lt
  intro inside
  apply other
  exact (only.initial.mem_iff_idxOf_lt_length name).mpr inside

theorem OnlyConstants.loads (a : Arithmetic) (only : OnlyConstants names ks)
    (distinct : names.Nodup) (initial : ks.names <+: names) {e : Expression}
    (allowed : ks.firstViolation? e.events = none) (here : Holds ks s store) :
    (operands a).Loads names store s e :=
  (keeps a distinct).reads initial (only.valued ▸ only.initial) allowed here

theorem OnlyConstants.push (only : OnlyConstants names ks) (t : Token) :
    OnlyConstants names (ks ++ [⟨t, false, false⟩]) := by
  have same : Knowledge.constants (ks ++ [⟨t, false, false⟩]) = ks.constants := by
    simp [Knowledge.constants, Knowledge.having]
  constructor
  · rw [same, ← only.valued]
    simp
  · rw [same]
    exact only.initial

/-- Declarations do nothing, unless there is an initializer. -/
theorem exec_declarations (total : ∀ o left right, (a o left right).isSome)
    (distinct : names.Nodup) {vs : List VariableDeclaration}
    (initial : ks.names ++ vs.map (·.name.spelling) <+: names) (only : OnlyConstants names ks)
    (allowed : ks.firstViolation? (vs.flatMap VariableDeclaration.events) = none)
    (here : Holds ks s store) :
    ((∀ v ∈ vs, v.initial = none) ∧
        exec a s (vs.flatMap (VariableDeclaration.code names true)) = .silent (.ok s) ∧
        evaluateEach (VariableDeclaration.evaluate a) store vs = .silent (.ok store)) ∨
      (¬∀ v ∈ vs, v.initial = none) ∧
        exec a s (vs.flatMap (VariableDeclaration.code names true)) = .silent (.error .unset) := by
  induction vs generalizing ks with
  | nil => exact .inl ⟨by simp, rfl, rfl⟩
  | cons v vs inductionHypothesis =>
    rw [List.flatMap_cons, Knowledge.firstViolation?_append, Option.or_eq_none_iff,
      Knowledge.firstViolation?_variable_iff, Knowledge.afterAll_variable] at allowed
    obtain ⟨⟨new, quiet⟩, later⟩ := allowed
    rcases v with ⟨t, _ | e⟩
    · have rest := inductionHypothesis (by simpa using initial) (only.push t) later
        (by simpa [Holds] using here)
      simpa [VariableDeclaration.code, evaluateEach, VariableDeclaration.evaluate] using rest
    · refine .inr ⟨by simp, ?_⟩
      have known : ks.names <+: names := (List.prefix_append _ _).trans initial
      have outside : s.length ≤ names.idxOf t.spelling :=
        only.outside here fun constant => new (Knowledge.mem_names_of_mem_having constant)
      have loads := only.loads a distinct known (quiet e rfl) here
      have fault := exec_store_fault (vs.flatMap (VariableDeclaration.code names true)) total loads
        outside
      simpa [VariableDeclaration.code] using fault

/-- Statements do nothing but write, up to the first assignment. -/
theorem exec_statements (total : ∀ o left right, (a o left right).isSome)
    (distinct : names.Nodup) {xs : List Statement} (initial : ks.names <+: names)
    (only : OnlyConstants names ks)
    (allowed : ks.firstViolation? (xs.flatMap Statement.events) = none) (here : Holds ks s store) :
    ((∀ x ∈ xs, x.isAssignment = false) ∧
        exec a s (Statement.codeAll names true ks.valued xs) =
          ⟨(evaluateEach (Statement.evaluate a) store xs).output, .ok s⟩) ∨
      (¬∀ x ∈ xs, x.isAssignment = false) ∧
        ∃ output, output <+: (evaluateEach (Statement.evaluate a) store xs).output ∧
          exec a s (Statement.codeAll names true ks.valued xs) = ⟨output, .error .unset⟩ := by
  have nodup := initial.sublist.nodup distinct
  induction xs with
  | nil => exact .inl ⟨by simp, rfl⟩
  | cons x xs inductionHypothesis =>
    rw [List.flatMap_cons, Knowledge.firstViolation?_append, Option.or_eq_none_iff] at allowed
    cases x with
    | assign t e =>
      refine .inr ⟨by simp [Statement.isAssignment], [], List.nil_prefix, ?_⟩
      rw [Statement.events, List.cons_append, Knowledge.firstViolation?_cons, Option.or_eq_none_iff,
        Knowledge.after_targeted, Knowledge.firstViolation?_append, Option.or_eq_none_iff,
        Knowledge.violation?_targeted_iff nodup] at allowed
      have outside := only.outside here allowed.1.1.2
      have loads := only.loads a distinct initial allowed.1.2.1 here
      have fault := exec_store_fault (Statement.codeAll names true (t.spelling :: ks.valued) xs)
        total loads outside
      simpa [Statement.codeAll, Run.silent] using fault
    | print e =>
      rw [Statement.events, Knowledge.afterAll_expression] at allowed
      have loads := only.loads a distinct initial allowed.1 here
      obtain ⟨n, written, value⟩ :=
        exec_print (Statement.codeAll names true ks.valued xs) total loads
      rw [Statement.codeAll, written, evaluateEach, value]
      rcases inductionHypothesis allowed.2 with ⟨none, ran⟩ | ⟨some, output, before, ran⟩
      · refine .inl ⟨by simpa [Statement.isAssignment] using none, ?_⟩
        simp only [Run.andThen, ran]
      · refine .inr ⟨by simpa [Statement.isAssignment] using some, n :: output, ?_, ?_⟩
        · simpa [Run.andThen] using before
        · simp [Run.andThen, ran]
    | empty =>
      simpa [Statement.codeAll, evaluateEach, Statement.evaluate, Statement.isAssignment,
        Statement.events] using inductionHypothesis allowed.2

theorem onlyConstants_declared {cs : List ConstantDeclaration} {vs : List VariableDeclaration}
    (quiet : ∀ v ∈ vs, v.initial = none) (initial : cs.map (·.name.spelling) <+: names) :
    OnlyConstants names (Knowledge.declared cs vs) := by
  have none : vs.filter (·.initial.isSome) = [] := by
    simpa [List.filter_eq_nil_iff] using quiet
  constructor
  · rw [Knowledge.valued_declared, Knowledge.constants_declared, none, List.map_nil,
      List.append_nil]
  · rwa [Knowledge.constants_declared]

/-- A program either stores nothing and ends, or stops at its first store. -/
theorem exec_program {p : Program} (total : ∀ o left right, (a o left right).isSome)
    (wellNamed : p.IsWellNamed) :
    (p.StoresNothing ∧ ∃ s, exec a [] (p.code true) = ⟨(p.evaluate a).output, .ok s⟩) ∨
      ¬p.StoresNothing ∧ ∃ output, output <+: (p.evaluate a).output ∧
        exec a [] (p.code true) = ⟨output, .error .unset⟩ := by
  obtain ⟨varsAllowed, statementsAllowed⟩ := p.allowed_parts (Program.isWellNamed_iff.mp wellNamed)
  have distinct := wellNamed.distinct
  have here := holds_constants distinct
  have constants : p.consts.map (·.name.spelling) <+: p.names := List.prefix_append _ _
  have initial := p.names_before (List.append_nil _).symm
  have only : OnlyConstants p.names (Knowledge.declared p.consts []) :=
    onlyConstants_declared (by simp) constants
  rw [p.code_eq, exec_append, exec_constants, Run.silent_ok_andThen, List.append_nil,
    Program.bodyCode, exec_append]
  rcases exec_declarations total distinct initial only varsAllowed here with
    ⟨quiet, ran, evaluated⟩ | ⟨loud, ran⟩
  · have onlyNow : OnlyConstants p.names p.declared := onlyConstants_declared quiet constants
    have later : Holds p.declared (p.consts.map ConstantDeclaration.value).reverse
        (Store.ofConstants p.consts) := by
      have same : p.declared.valued = (Knowledge.declared p.consts []).valued := by
        rw [onlyNow.valued, only.valued, p.constants_declared, Knowledge.constants_declared]
      rwa [Holds, same]
    have output : (p.evaluate a).output =
        (evaluateEach (Statement.evaluate a) (Store.ofConstants p.consts) p.statements).output := by
      change ((evaluateEach _ (Store.ofConstants p.consts) p.vars).andThen _).output = _
      rw [evaluated]
      rfl
    rw [ran, Run.silent_ok_andThen, output, ← p.valued_declared]
    rcases exec_statements total distinct p.names_declared_initial onlyNow statementsAllowed later
      with ⟨none, ended⟩ | ⟨some, stopped⟩
    · exact .inl ⟨⟨quiet, none⟩, _, ended⟩
    · refine .inr ⟨?_, stopped⟩
      intro nothing
      exact some nothing.assignments
  · refine .inr ⟨?_, [], List.nil_prefix, ?_⟩
    · intro nothing
      exact loud nothing.initializers
    · rw [ran]
      rfl

/-- On the machine whose slots are the cells of its stack, code that stores first values runs to its
end if and only if it stores nothing. Otherwise it stops at the first store, which finds no cell,
and has written no more than the beginning of what it should. -/
theorem storing_code_ends_iff {o : Options} {file source : String} {c : Compilation}
    (stores : o.storesFirst = true) (accepted : o.compile file source = .ok c)
    (total : ∀ o left right, (a o left right).isSome) :
    ∃ ts p, o.tokens file source = .ok ts ∧ Program.Derives ts p ∧
      ((∃ s, exec a [] c.code = ⟨(p.evaluate a).output, .ok s⟩) ↔ p.StoresNothing) ∧
      (¬p.StoresNothing → ∃ output, output <+: (p.evaluate a).output ∧
        exec a [] c.code = ⟨output, .error .unset⟩) := by
  obtain ⟨ts, p, tokens, derives, wellNamed, code, _⟩ := Options.accepted_of_compile accepted
  refine ⟨ts, p, tokens, derives, ?_⟩
  rw [code, stores]
  rcases exec_program total wellNamed with ⟨nothing, ran⟩ | ⟨something, output, before, ran⟩
  · refine ⟨iff_of_true ran nothing, ?_⟩
    intro something
    exact absurd nothing something
  · refine ⟨iff_of_false ?_ something, fun _ => ⟨output, before, ran⟩⟩
    intro found
    rcases found with ⟨s, ended⟩
    simp [ran] at ended

theorem compile_initialized :
    ({ limit := 9 } : Options).compile "" "begin var x=5; print(x); end" =
      .ok ⟨"", [.lit 5, .sto 0, .lod 0, .wrt], ⟨[⟨"x", false, true, some ⟨"", 1, 11⟩⟩], by decide⟩,
        13⟩ := by
  cbv

theorem storing_code_ends_iff_initialized :
    ∃ ts p, ({ limit := 9 } : Options).tokens "" "begin var x=5; print(x); end" = .ok ts ∧
      Program.Derives ts p ∧
      ((∃ s, exec .integers [] [.lit 5, .sto 0, .lod 0, .wrt] =
          ⟨(p.evaluate .integers).output, .ok s⟩) ↔ p.StoresNothing) ∧
      (¬p.StoresNothing → ∃ output, output <+: (p.evaluate .integers).output ∧
        exec .integers [] [.lit 5, .sto 0, .lod 0, .wrt] = ⟨output, .error .unset⟩) :=
  storing_code_ends_iff rfl compile_initialized Arithmetic.integers_isSome

/-- The first value of a variable finds no cell to be stored in. -/
theorem initializer_finds_no_cell :
    ¬∀ (o : Options) (file source : String) (c : Compilation) (a : Arithmetic),
      o.storesFirst = true → o.compile file source = .ok c →
      (∀ o left right, (a o left right).isSome) →
      ∃ output s, exec a [] c.code = ⟨output, .ok s⟩ := by
  intro every
  obtain ⟨output, s, ended⟩ := every { limit := 9 } "" "begin var x=5; print(x); end" _ .integers
    rfl compile_initialized Arithmetic.integers_isSome
  have stopped : exec .integers [] [.lit 5, .sto 0, .lod 0, .wrt] = ⟨[], .error .unset⟩ := rfl
  simp [stopped] at ended

end Machine.Cells
end OnePass
