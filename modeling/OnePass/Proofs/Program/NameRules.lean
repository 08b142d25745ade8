import OnePass.Proofs.Program.Knowledge

/-!
The rules for names as conditions on the tree: names are distinct, what is read has a value by then,
and what is assigned is a variable. A tree keeps them if and only if no occurrence of a name in it
is a violation.
-/

namespace OnePass

/-- The names that an expression reads. -/
def Expression.reads : Expression → List Token
  | .name t => [t]
  | .number _ => []
  | .group e | .positive e | .negative e => e.reads
  | .binary _ l r => l.reads ++ r.reads

def Statement.reads : Statement → List Token
  | .assign _ e | .print e => e.reads
  | .empty => []

/-- The names that have a value behind such declarations and statements. -/
inductive HasValue (cs : List ConstantDeclaration) (vs : List VariableDeclaration)
    (ss : List Statement) : String → Prop where
  | constant {c} : c ∈ cs → HasValue cs vs ss c.name.spelling
  | initialized {v} : v ∈ vs → v.initial.isSome → HasValue cs vs ss v.name.spelling
  | assigned {t e} : .assign t e ∈ ss → HasValue cs vs ss t.spelling

structure Program.IsWellNamed (p : Program) : Prop where
  distinct : p.names.Nodup
  /-- What an initializer reads has a value behind the declarations before it. -/
  initializers : ∀ before v after, p.vars = before ++ v :: after → ∀ e, v.initial = some e →
    ∀ t ∈ e.reads, HasValue p.consts before [] t.spelling
  /-- What a statement reads has a value behind the statements before it. -/
  statements : ∀ before x after, p.statements = before ++ x :: after →
    ∀ t ∈ x.reads, HasValue p.consts p.vars before t.spelling
  targets : ∀ t e, .assign t e ∈ p.statements →
    t.spelling ∈ p.names ∧ ∀ c ∈ p.consts, c.name.spelling ≠ t.spelling

section

variable {α β : Type}

theorem forall_splits_cons {P : List α → α → Prop} {y : α} {ys : List α} :
    (∀ before x after, y :: ys = before ++ x :: after → P before x) ↔
      P [] y ∧ ∀ before x after, ys = before ++ x :: after → P (y :: before) x := by
  constructor
  · intro every
    refine ⟨every [] y ys rfl, ?_⟩
    intro before x after same
    subst same
    exact every (y :: before) x after rfl
  · rintro ⟨first, later⟩ before x after same
    cases before with
    | nil =>
      obtain ⟨rfl, rfl⟩ := List.cons.inj same
      exact first
    | cons z before =>
      obtain ⟨rfl, rest⟩ := List.cons.inj same
      exact later before x after rest

theorem forall_splits_append {P : List α → α → Prop} {xs ys : List α} :
    (∀ before x after, xs ++ ys = before ++ x :: after → P before x) ↔
      (∀ before x after, xs = before ++ x :: after → P before x) ∧
        ∀ before x after, ys = before ++ x :: after → P (xs ++ before) x := by
  induction xs generalizing P with
  | nil => simp
  | cons x xs inductionHypothesis =>
    rw [List.cons_append, forall_splits_cons, forall_splits_cons, inductionHypothesis, and_assoc]
    rfl

theorem forall_splits_filterMap {P : List β → β → Prop} {f : α → Option β} {xs : List α} :
    (∀ before y after, xs.filterMap f = before ++ y :: after → P before y) ↔
      ∀ before x after, xs = before ++ x :: after →
        ∀ y, f x = some y → P (before.filterMap f) y := by
  induction xs generalizing P with
  | nil => simp
  | cons x xs inductionHypothesis =>
    rw [forall_splits_cons]
    cases found : f x with
    | none =>
      rw [List.filterMap_cons_none found, inductionHypothesis]
      simp [found]
    | some y =>
      rw [List.filterMap_cons_some found, forall_splits_cons, inductionHypothesis]
      simp [found]

/-- Values are distinct if each one is new where it stands. -/
theorem nodup_append_map_iff {f : α → β} {l : List β} {xs : List α} :
    (l ++ xs.map f).Nodup ↔
      l.Nodup ∧ ∀ before x after, xs = before ++ x :: after → f x ∉ l ++ before.map f := by
  induction xs generalizing l with
  | nil => simp
  | cons y ys inductionHypothesis =>
    have moved : l ++ (y :: ys).map f = (l ++ [f y]) ++ ys.map f := by simp
    have one : (l ++ [f y]).Nodup ↔ l.Nodup ∧ f y ∉ l := by
      rw [← List.concat_eq_append, List.nodup_concat, and_comm]
    rw [moved, inductionHypothesis, one, forall_splits_cons, and_assoc]
    simp

end

namespace Knowledge

variable {ks : Knowledge} {t : Token}

/-! ### What is no violation -/

theorem violation?_introduced_iff :
    ks.violation? (.introduced t) = none ↔ t.spelling ∉ ks.names := by
  rw [violation?, Option.map_eq_none_iff, find?_eq_none_iff]

theorem violation?_read_iff (nodup : ks.names.Nodup) :
    ks.violation? (.read t) = none ↔ t.spelling ∈ ks.valued := by
  cases found : ks.find? t with
  | none =>
    have undeclared : t.spelling ∉ ks.valued := by
      intro valued
      exact find?_eq_none_iff.mp found (mem_names_of_mem_having valued)
    simp [violation?, found, undeclared]
  | some k => simp [violation?, found, mem_valued_iff nodup found]

theorem violation?_targeted_iff (nodup : ks.names.Nodup) :
    ks.violation? (.targeted t) = none ↔ t.spelling ∈ ks.names ∧ t.spelling ∉ ks.constants := by
  cases found : ks.find? t with
  | none => simp [violation?, found, find?_eq_none_iff.mp found]
  | some k =>
    simp [violation?, found, mem_constants_iff nodup found, mem_names_of_find? found]

theorem firstViolation?_expression_iff (nodup : ks.names.Nodup) (e : Expression) :
    ks.firstViolation? e.events = none ↔ ∀ t ∈ e.reads, t.spelling ∈ ks.valued := by
  induction e with
  | name t =>
    rw [Expression.events, firstViolation?_cons, Option.or_eq_none_iff, violation?_read_iff nodup]
    simp [Expression.reads, firstViolation?]
  | number t => simp [Expression.events, Expression.reads, firstViolation?]
  | group e inductionHypothesis => exact inductionHypothesis
  | positive e inductionHypothesis => exact inductionHypothesis
  | negative e inductionHypothesis => exact inductionHypothesis
  | binary o l r left right =>
    rw [Expression.events, firstViolation?_append, afterAll_expression, Option.or_eq_none_iff, left,
      right, Expression.reads, List.forall_mem_append]

theorem firstViolation?_constant_iff {c : ConstantDeclaration} :
    ks.firstViolation? c.events = none ↔ c.name.spelling ∉ ks.names := by
  rw [← violation?_introduced_iff, ConstantDeclaration.events, firstViolation?_cons,
    Option.or_eq_none_iff]
  simp [firstViolation?, violation?]

theorem firstViolation?_variable_iff {v : VariableDeclaration} :
    ks.firstViolation? v.events = none ↔
      v.name.spelling ∉ ks.names ∧
        ∀ e, v.initial = some e → ks.firstViolation? e.events = none := by
  rw [← violation?_introduced_iff, VariableDeclaration.events, firstViolation?_cons,
    Option.or_eq_none_iff, after_introduced]
  rcases v with ⟨name, _ | e⟩ <;> simp [firstViolation?, firstViolation?_append, violation?]

theorem firstViolation?_statement_iff (nodup : ks.names.Nodup) {x : Statement} :
    ks.firstViolation? x.events = none ↔
      (∀ t e, x = .assign t e → t.spelling ∈ ks.names ∧ t.spelling ∉ ks.constants) ∧
        ∀ t ∈ x.reads, t.spelling ∈ ks.valued := by
  cases x with
  | assign t e =>
    rw [Statement.events, List.cons_append, firstViolation?_cons, Option.or_eq_none_iff,
      violation?_targeted_iff nodup, after_targeted, firstViolation?_append, Option.or_eq_none_iff,
      firstViolation?_expression_iff nodup]
    simp [Statement.reads, firstViolation?, violation?]
  | print e =>
    rw [Statement.events, firstViolation?_expression_iff nodup]
    simp [Statement.reads]
  | empty => simp [Statement.events, Statement.reads, firstViolation?]

/-- Nothing in a row of things is a violation if nothing in any of them is, where it stands. -/
theorem firstViolation?_flatMap_iff {α : Type} {events : α → List NameEvent} {xs : List α} :
    ks.firstViolation? (xs.flatMap events) = none ↔
      ∀ before x after, xs = before ++ x :: after →
        (ks.afterAll (before.flatMap events)).firstViolation? (events x) = none := by
  induction xs generalizing ks with
  | nil => simp [firstViolation?]
  | cons y ys inductionHypothesis =>
    rw [List.flatMap_cons, firstViolation?_append, Option.or_eq_none_iff, inductionHypothesis,
      forall_splits_cons]
    simp

end Knowledge

/-! ### What statements add -/

namespace Statement

variable {ss : List Statement} {name : String}

/-- A name is assigned by one of the statements. -/
def assigns (ss : List Statement) (name : String) : Bool :=
  ss.any fun
    | .assign t _ => t.spelling == name
    | .print _ | .empty => false

theorem assigns_iff : assigns ss name = true ↔ ∃ t e, .assign t e ∈ ss ∧ t.spelling = name := by
  simp only [assigns, List.any_eq_true]
  constructor
  · intro found
    rcases found with ⟨x, member, same⟩
    cases x with
    | assign t e => exact ⟨t, e, member, by simpa using same⟩
    | print e => simp at same
    | empty => simp at same
  · intro found
    rcases found with ⟨t, e, member, rfl⟩
    exact ⟨_, member, by simp⟩

end Statement

namespace Knowledge

variable (ks : Knowledge) (ss : List Statement)

/-- Statements give names values and do nothing else to what is known. -/
theorem afterAll_statements :
    ks.afterAll (ss.flatMap Statement.events) =
      ks.map fun k =>
        { k with hasValue := k.hasValue || Statement.assigns ss k.first.spelling } := by
  induction ss generalizing ks with
  | nil => simp [Statement.assigns]
  | cons x ss inductionHypothesis =>
    rw [List.flatMap_cons, afterAll_append, inductionHypothesis]
    cases x with
    | assign t e =>
      simp only [Statement.events, List.cons_append, afterAll_cons, afterAll_append,
        afterAll_expression, afterAll_nil, after, List.map_map]
      congr 1
      funext k
      by_cases same : k.first.spelling = t.spelling
      · simp [Statement.assigns, same]
      · have other : (t.spelling == k.first.spelling) = false := by simpa using Ne.symm same
        simp [Statement.assigns, same, other]
    | print e => simp [Statement.events, Statement.assigns]
    | empty => simp [Statement.events, Statement.assigns]

@[simp]
theorem constants_afterAll_statements :
    (ks.afterAll (ss.flatMap Statement.events)).constants = ks.constants := by
  simp [afterAll_statements, constants, having, List.filter_map, Function.comp_def]

theorem mem_valued_afterAll_statements {name : String} :
    name ∈ (ks.afterAll (ss.flatMap Statement.events)).valued ↔
      name ∈ ks.valued ∨ name ∈ ks.names ∧ ∃ t e, .assign t e ∈ ss ∧ t.spelling = name := by
  rw [← Statement.assigns_iff, afterAll_statements]
  simp only [valued, having, names, List.mem_map, List.mem_filter]
  constructor
  · intro found
    rcases found with ⟨_, ⟨⟨k, member, rfl⟩, hasValue⟩, rfl⟩
    rcases Bool.or_eq_true_iff.mp hasValue with before | now
    · exact .inl ⟨k, ⟨member, before⟩, rfl⟩
    · exact .inr ⟨⟨k, member, rfl⟩, now⟩
  · intro found
    rcases found with ⟨k, ⟨member, hasValue⟩, rfl⟩ | ⟨⟨k, member, rfl⟩, now⟩
    · exact ⟨_, ⟨⟨k, member, rfl⟩, by simp [hasValue]⟩, rfl⟩
    · exact ⟨_, ⟨⟨k, member, rfl⟩, by simp [now]⟩, rfl⟩

end Knowledge

theorem hasValue_iff {cs : List ConstantDeclaration} {vs : List VariableDeclaration}
    {ss : List Statement} {name : String} :
    HasValue cs vs ss name ↔
      (∃ c ∈ cs, c.name.spelling = name) ∨
        (∃ v ∈ vs, v.initial.isSome ∧ v.name.spelling = name) ∨
          ∃ t e, .assign t e ∈ ss ∧ t.spelling = name := by
  constructor
  · intro h
    cases h with
    | constant member => exact .inl ⟨_, member, rfl⟩
    | initialized member initial => exact .inr (.inl ⟨_, member, initial, rfl⟩)
    | assigned member => exact .inr (.inr ⟨_, _, member, rfl⟩)
  · intro found
    rcases found with ⟨c, member, rfl⟩ | ⟨v, member, initial, rfl⟩ | ⟨t, e, member, rfl⟩
    · exact .constant member
    · exact .initialized member initial
    · exact .assigned member

namespace Program

variable {p : Program}

theorem hasValue_of_declarations_iff {before : List VariableDeclaration} {name : String} :
    name ∈ (Knowledge.declared p.consts before).valued ↔ HasValue p.consts before [] name := by
  rw [Knowledge.valued_declared, hasValue_iff]
  simp [and_assoc]

theorem hasValue_of_statements_iff {before : List Statement} {name : String}
    (declared : ∀ t e, .assign t e ∈ before → t.spelling ∈ p.names) :
    name ∈ (p.declared.afterAll (before.flatMap Statement.events)).valued ↔
      HasValue p.consts p.vars before name := by
  rw [Knowledge.mem_valued_afterAll_statements, p.valued_declared, p.names_declared, hasValue_iff]
  have assigned : (name ∈ p.names ∧ ∃ t e, .assign t e ∈ before ∧ t.spelling = name) ↔
      ∃ t e, .assign t e ∈ before ∧ t.spelling = name := by
    apply and_iff_right_of_imp
    intro found
    rcases found with ⟨t, e, member, rfl⟩
    exact declared t e member
  rw [assigned, ← or_assoc]
  simp [Program.valued, and_assoc]

/-- Names are distinct if no declaration introduces a name again. -/
theorem distinct_iff :
    p.names.Nodup ↔
      Knowledge.firstViolation? [] (p.consts.flatMap ConstantDeclaration.events) = none ∧
        ∀ before v after, p.vars = before ++ v :: after →
          v.name.spelling ∉ (Knowledge.declared p.consts before).names := by
  have consts : (p.consts.map fun c => c.name.spelling).Nodup ↔
      Knowledge.firstViolation? [] (p.consts.flatMap ConstantDeclaration.events) = none := by
    rw [← List.nil_append (List.map _ _), nodup_append_map_iff,
      Knowledge.firstViolation?_flatMap_iff]
    simp [Knowledge.firstViolation?_constant_iff, Knowledge.afterAll_consts, Knowledge.names,
      Function.comp_def]
  rw [names, nodup_append_map_iff, consts]
  simp only [Knowledge.names_declared]

theorem violation?_eq_none_iff :
    p.violation? = none ↔
      p.names.Nodup ∧
        (∀ before v after, p.vars = before ++ v :: after → ∀ e, v.initial = some e →
          (Knowledge.declared p.consts before).firstViolation? e.events = none) ∧
        p.declared.firstViolation? (p.statements.flatMap Statement.events) = none := by
  rw [violation?, events, Knowledge.firstViolation?_append, Option.or_eq_none_iff,
    Knowledge.firstViolation?_append, Option.or_eq_none_iff, distinct_iff,
    @Knowledge.firstViolation?_flatMap_iff (Knowledge.afterAll [] _)]
  simp only [← Knowledge.afterAll_append, Knowledge.afterAll_declarations,
    Knowledge.firstViolation?_variable_iff]
  constructor
  · intro found
    rcases found with ⟨⟨consts, vars⟩, statements⟩
    refine ⟨⟨consts, ?_⟩, ?_, statements⟩
    · intro before v after split
      exact (vars before v after split).1
    · intro before v after split
      exact (vars before v after split).2
  · intro found
    rcases found with ⟨⟨consts, new⟩, initializers, statements⟩
    refine ⟨⟨consts, ?_⟩, statements⟩
    intro before v after split
    exact ⟨new before v after split, initializers before v after split⟩

theorem nodup_before {before after : List VariableDeclaration} {v : VariableDeclaration}
    (distinct : p.names.Nodup) (split : p.vars = before ++ v :: after) :
    (Knowledge.declared p.consts before).names.Nodup := by
  have same : p.names =
      (Knowledge.declared p.consts before).names ++ (v :: after).map (·.name.spelling) := by
    simp [names, Knowledge.names_declared, split]
  rw [same] at distinct
  exact distinct.of_append_left

theorem initializer_allowed_iff {before after : List VariableDeclaration} {v : VariableDeclaration}
    (distinct : p.names.Nodup) (split : p.vars = before ++ v :: after) (e : Expression) :
    (Knowledge.declared p.consts before).firstViolation? e.events = none ↔
      ∀ t ∈ e.reads, HasValue p.consts before [] t.spelling := by
  rw [Knowledge.firstViolation?_expression_iff (nodup_before distinct split)]
  simp only [hasValue_of_declarations_iff]

theorem statement_allowed_iff {before : List Statement} (distinct : p.names.Nodup)
    (declared : ∀ t e, .assign t e ∈ before → t.spelling ∈ p.names) (x : Statement) :
    (p.declared.afterAll (before.flatMap Statement.events)).firstViolation? x.events = none ↔
      (∀ t e, x = .assign t e →
        t.spelling ∈ p.names ∧ ∀ c ∈ p.consts, c.name.spelling ≠ t.spelling) ∧
        ∀ t ∈ x.reads, HasValue p.consts p.vars before t.spelling := by
  have nodup : (p.declared.afterAll (before.flatMap Statement.events)).names.Nodup := by
    simpa [p.names_declared] using distinct
  rw [Knowledge.firstViolation?_statement_iff nodup, Knowledge.constants_afterAll_statements,
    Knowledge.names_afterAll_statements, p.names_declared, constants_declared]
  simp [hasValue_of_statements_iff declared]

theorem declared_before {before after : List Statement} {x : Statement}
    (targets : ∀ t e, .assign t e ∈ p.statements →
      t.spelling ∈ p.names ∧ ∀ c ∈ p.consts, c.name.spelling ≠ t.spelling)
    (split : p.statements = before ++ x :: after) :
    ∀ t e, .assign t e ∈ before → t.spelling ∈ p.names := by
  intro t e member
  have there : .assign t e ∈ p.statements := by
    rw [split]
    exact List.mem_append_left _ member
  exact (targets t e there).1

/-- The rules are kept if and only if no occurrence of a name breaks one. -/
theorem isWellNamed_iff : p.IsWellNamed ↔ p.violation? = none := by
  rw [violation?_eq_none_iff, Knowledge.firstViolation?_flatMap_iff]
  constructor
  · intro found
    rcases found with ⟨distinct, initialized, valued, targets⟩
    refine ⟨distinct, ?_, ?_⟩
    · intro before v after split e initial
      exact (initializer_allowed_iff distinct split e).mpr
        (initialized before v after split e initial)
    · intro before x after split
      have declared := declared_before targets split
      refine (statement_allowed_iff distinct declared x).mpr ⟨?_, valued before x after split⟩
      intro t e same
      subst same
      exact targets t e (split ▸ by simp)
  · intro found
    rcases found with ⟨distinct, initialized, allowed⟩
    -- The targets come first: by them the names that are assigned before a statement are declared.
    have targets : ∀ t e, .assign t e ∈ p.statements →
        t.spelling ∈ p.names ∧ ∀ c ∈ p.consts, c.name.spelling ≠ t.spelling := by
      intro t e member
      obtain ⟨before, after, split⟩ := List.append_of_mem member
      have target := allowed before _ after split
      rw [Knowledge.firstViolation?_statement_iff (by simpa [p.names_declared] using distinct)]
        at target
      simpa [Knowledge.constants_afterAll_statements, p.names_declared, constants_declared]
        using target.1 t e rfl
    refine ⟨distinct, ?_, ?_, targets⟩
    · intro before v after split e initial
      exact (initializer_allowed_iff distinct split e).mp
        (initialized before v after split e initial)
    · intro before x after split
      have declared := declared_before targets split
      exact ((statement_allowed_iff distinct declared x).mp (allowed before x after split)).2

/-- The declarations in their order. A variable has a value at the end if it has an initializer or
is assigned. -/
def declarations (p : Program) : List Declaration :=
  (p.consts.map fun c => ⟨c.name.spelling, true, true, some c.name.start⟩) ++
    p.vars.map fun v =>
      ⟨v.name.spelling, false, v.initial.isSome || Statement.assigns p.statements v.name.spelling,
        some v.name.start⟩

theorem names_declarations (p : Program) : p.declarations.map Declaration.name = p.names := by
  simp [declarations, names, Function.comp_def]

theorem declarations_eq :
    (Knowledge.afterAll [] p.events).map Known.declaration = p.declarations := by
  rw [events, Knowledge.afterAll_append, Knowledge.afterAll_declarations,
    Knowledge.afterAll_statements]
  simp [declarations, Knowledge.declared, Known.declaration, Function.comp_def]

end Program
end OnePass
