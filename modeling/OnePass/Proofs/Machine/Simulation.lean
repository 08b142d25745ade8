import OnePass.Proofs.Machine.Operands

/-!
Running the code of a program beside evaluating its tree. What one declaration and one statement
keep is kept by all of them in turn.
-/

namespace OnePass

/-! ### The values of constants -/

section

variable {cs : List ConstantDeclaration} {store : Store} {name : String}

/-- The store that holds the constants and nothing else. -/
def Store.ofConstants (cs : List ConstantDeclaration) : Store :=
  cs.foldl ConstantDeclaration.evaluate fun _ => none

theorem foldl_evaluate_of_not_mem (other : name ∉ cs.map (·.name.spelling)) :
    cs.foldl ConstantDeclaration.evaluate store name = store name := by
  induction cs generalizing store with
  | nil => rfl
  | cons c cs inductionHypothesis =>
    simp only [List.map_cons, List.mem_cons, not_or] at other
    rw [List.foldl_cons, inductionHypothesis other.2]
    exact if_neg other.1

theorem map_foldl_evaluate (distinct : (cs.map (·.name.spelling)).Nodup) :
    (cs.map (·.name.spelling)).map (cs.foldl ConstantDeclaration.evaluate store) =
      (cs.map ConstantDeclaration.value).map some := by
  induction cs generalizing store with
  | nil => rfl
  | cons c cs inductionHypothesis =>
    obtain ⟨new, rest⟩ := List.nodup_cons.mp distinct
    have here : (store.set c.name.spelling c.value) c.name.spelling = some c.value := if_pos rfl
    rw [List.map_cons, List.foldl_cons, List.map_cons, inductionHypothesis rest,
      foldl_evaluate_of_not_mem new, ConstantDeclaration.evaluate, here]
    rfl

theorem Store.map_ofConstants (distinct : (cs.map (·.name.spelling)).Nodup) :
    (cs.map ConstantDeclaration.value).map some =
      (cs.map (·.name.spelling)).map (Store.ofConstants cs) :=
  (map_foldl_evaluate distinct).symm

/-- Where values stand in the order of their names, a name finds its value at its position. -/
theorem getElem?_idxOf_of_map_eq {values : List Int} {l : List String}
    (same : values.map some = l.map store) (member : name ∈ l) :
    values[l.idxOf name]? = store name := by
  have there := congrArg (·[l.idxOf name]?) same
  simp only [List.getElem?_map, List.getElem?_idxOf member, Option.map_some] at there
  cases value : values[l.idxOf name]? <;> simp_all

end

namespace Program

/-- The code behind that of the constants. -/
def bodyCode (p : Program) (stores : Bool) : List Instruction :=
  p.vars.flatMap (VariableDeclaration.code p.names stores) ++
    Statement.codeAll p.names stores p.valued p.statements

theorem code_eq (p : Program) (stores : Bool) :
    p.code stores = (p.consts.map fun c => .lit c.value) ++ p.bodyCode stores := by
  rw [code, bodyCode, ← List.append_assoc, List.map_eq_flatMap]
  rfl

/-- What is known has a property wherever a declaration of a variable or a statement ends. -/
structure Throughout (p : Program) (ordered : Knowledge → Prop) : Prop where
  vars : ∀ before after, p.vars = before ++ after → ordered (Knowledge.declared p.consts before)
  statements : ∀ before after, p.statements = before ++ after →
    ordered (p.declared.afterAll (before.flatMap Statement.events))

end Program

namespace Machine.Operands

variable {a : Arithmetic} {σ : Type} {m : Operands a σ} {names : List String} {stores : Bool}
  {ordered : Knowledge → Prop} {related : Knowledge → σ → Store → Prop} {ks : Knowledge} {s : σ}
  {store : Store}

/-- A relation that is kept where a variable is declared and where a name gets a value, as long as
what is known of names is in order. The value has been pushed and may then be stored. -/
structure Keeps (m : Operands a σ) (names : List String) (stores : Bool)
    (ordered : Knowledge → Prop) (related : Knowledge → σ → Store → Prop) : Prop where
  distinct : names.Nodup
  loads : ∀ {ks s store e}, ks.names <+: names → ordered ks → related ks s store →
    (∀ t ∈ e.reads, t.spelling ∈ ks.valued) → m.Loads names store s e
  declared : ∀ {ks s store} (t : Token), related ks s store →
    related (ks ++ [⟨t, false, false⟩]) s store
  initialized : ∀ {ks s store} {t : Token} (n : Int), ks.names ++ [t.spelling] <+: names →
    ordered ks → related ks s store →
    ∃ s', m.exec (m.push s n) (if stores then [.sto (names.idxOf t.spelling)] else []) =
      .silent (.ok s') ∧ related (ks ++ [⟨t, false, true⟩]) s' (store.set t.spelling n)
  assigned : ∀ {ks s store} {t : Token} (n : Int), ks.names <+: names → ordered ks →
    ordered (ks.after (.assigned t)) → t.spelling ∈ ks.names → related ks s store →
    ∃ s', m.exec (m.push s n)
        (if stores || ks.valued.contains t.spelling then [.sto (names.idxOf t.spelling)] else []) =
      .silent (.ok s') ∧ related (ks.after (.assigned t)) s' (store.set t.spelling n)

variable (keeps : m.Keeps names stores ordered related)

include keeps

theorem Keeps.reads {e : Expression} (initial : ks.names <+: names) (inOrder : ordered ks)
    (allowed : ks.firstViolation? e.events = none) (here : related ks s store) :
    m.Loads names store s e := by
  have nodup : ks.names.Nodup := initial.sublist.nodup keeps.distinct
  exact keeps.loads initial inOrder here
    ((Knowledge.firstViolation?_expression_iff nodup e).mp allowed)

theorem Keeps.declaration {v : VariableDeclaration}
    (initial : ks.names ++ [v.name.spelling] <+: names) (inOrder : ordered ks)
    (allowed : ks.firstViolation? v.events = none) (here : related ks s store) :
    (m.exec s (v.code names stores)).Alike a (related (ks.afterAll v.events))
      (v.evaluate a store) := by
  rw [Knowledge.afterAll_variable]
  rcases v with ⟨t, _ | e⟩
  · rw [VariableDeclaration.code, m.exec_nil]
    exact .ok (keeps.declared t here)
  · have quiet := (Knowledge.firstViolation?_variable_iff.mp allowed).2 e rfl
    have loads := keeps.reads ((List.prefix_append _ _).trans initial) inOrder quiet here
    exact alike_bind loads fun n => keeps.initialized n initial inOrder here

theorem Keeps.statement {x : Statement} (initial : ks.names <+: names) (before : ordered ks)
    (after : ordered (ks.afterAll x.events)) (allowed : ks.firstViolation? x.events = none)
    (here : related ks s store) :
    (m.exec s (Statement.codeAll names stores ks.valued [x])).Alike a
      (related (ks.afterAll x.events)) (x.evaluate a store) := by
  cases x with
  | assign t e =>
    rw [Statement.events, List.cons_append, Knowledge.firstViolation?_cons, Option.or_eq_none_iff,
      Knowledge.after_targeted, Knowledge.firstViolation?_append, Option.or_eq_none_iff] at allowed
    obtain ⟨k, found, _⟩ := Knowledge.find?_of_targeted allowed.1
    have loads := keeps.reads initial before allowed.2.1 here
    have same : ks.afterAll (Statement.assign t e).events = ks.after (.assigned t) := by
      simp [Statement.events]
    rw [same] at after ⊢
    rw [Statement.codeAll, Statement.codeAll, List.append_nil]
    exact alike_bind loads fun n =>
      keeps.assigned n initial before after (Knowledge.mem_names_of_find? found) here
  | print e =>
    rw [Statement.events, Knowledge.afterAll_expression]
    exact alike_print (keeps.reads initial before allowed here) here
  | empty =>
    rw [Statement.codeAll, Statement.codeAll, m.exec_nil]
    exact .ok here

theorem Keeps.declarations {vs : List VariableDeclaration}
    (initial : ks.names ++ vs.map (·.name.spelling) <+: names)
    (inOrder : ∀ before after, vs = before ++ after →
      ordered (ks.afterAll (before.flatMap VariableDeclaration.events)))
    (allowed : ks.firstViolation? (vs.flatMap VariableDeclaration.events) = none)
    (here : related ks s store) :
    (m.exec s (vs.flatMap (VariableDeclaration.code names stores))).Alike a
      (related (ks.afterAll (vs.flatMap VariableDeclaration.events)))
      (evaluateEach (VariableDeclaration.evaluate a) store vs) := by
  induction vs generalizing ks s store with
  | nil =>
    rw [List.flatMap_nil, List.flatMap_nil, m.exec_nil]
    exact .ok here
  | cons v vs inductionHypothesis =>
    rw [List.flatMap_cons, Knowledge.firstViolation?_append, Option.or_eq_none_iff] at allowed
    have later : (ks.afterAll v.events).names ++ vs.map (·.name.spelling) <+: names := by
      simpa using initial
    have now : ks.names ++ [v.name.spelling] <+: names := by
      simpa using (List.prefix_append _ _).trans later
    have first := keeps.declaration now (inOrder [] (v :: vs) rfl) allowed.1 here
    rw [List.flatMap_cons, List.flatMap_cons, m.exec_append, evaluateEach,
      Knowledge.afterAll_append]
    apply first.andThen
    intro s store here
    refine inductionHypothesis later ?_ allowed.2 here
    intro before after same
    subst same
    rw [← Knowledge.afterAll_append, ← List.flatMap_cons]
    exact inOrder (v :: before) after rfl

theorem Keeps.statements {xs : List Statement}
    (initial : ks.names <+: names)
    (inOrder : ∀ before after, xs = before ++ after →
      ordered (ks.afterAll (before.flatMap Statement.events)))
    (allowed : ks.firstViolation? (xs.flatMap Statement.events) = none)
    (here : related ks s store) :
    (m.exec s (Statement.codeAll names stores ks.valued xs)).Alike a
      (related (ks.afterAll (xs.flatMap Statement.events)))
      (evaluateEach (Statement.evaluate a) store xs) := by
  induction xs generalizing ks s store with
  | nil =>
    rw [Statement.codeAll, m.exec_nil]
    exact .ok here
  | cons x xs inductionHypothesis =>
    rw [List.flatMap_cons, Knowledge.firstViolation?_append, Option.or_eq_none_iff] at allowed
    have later : (ks.afterAll x.events).names <+: names := by simpa using initial
    have rest (before after : List Statement) (split : xs = before ++ after) :
        ordered ((ks.afterAll x.events).afterAll (before.flatMap Statement.events)) := by
      rw [← Knowledge.afterAll_append, ← List.flatMap_cons]
      exact inOrder (x :: before) after (by rw [split]; rfl)
    have first := keeps.statement initial (inOrder [] (x :: xs) rfl) (rest [] xs rfl) allowed.1 here
    rw [Statement.codeAll_cons allowed.1, List.flatMap_cons, m.exec_append, evaluateEach,
      Knowledge.afterAll_append]
    apply first.andThen
    intro s store here
    exact inductionHypothesis later rest allowed.2 here

omit keeps in
/-- A relation that holds behind the constants is kept to the end of the program. -/
theorem Keeps.program {p : Program} (keeps : m.Keeps p.names stores ordered related)
    (allowed : p.violation? = none) (inOrder : p.Throughout ordered)
    (here : related (Knowledge.declared p.consts []) s (Store.ofConstants p.consts)) :
    (m.exec s (p.bodyCode stores)).Alike a (related (Knowledge.afterAll [] p.events))
      (p.evaluate a) := by
  obtain ⟨varsAllowed, statementsAllowed⟩ := p.allowed_parts allowed
  have initial := p.names_before (List.append_nil _).symm
  rw [Program.bodyCode, m.exec_append, Program.events, Knowledge.afterAll_append,
    Knowledge.afterAll_declarations]
  refine (keeps.declarations initial ?_ varsAllowed here).andThen ?_
  · intro before after split
    rw [Knowledge.declared_afterAll_vars]
    exact inOrder.vars before after split
  · intro s store here
    rw [Knowledge.declared_afterAll_vars] at here
    rw [← p.valued_declared]
    exact keeps.statements p.names_declared_initial inOrder.statements statementsAllowed here

end Machine.Operands
end OnePass
