import Mathlib.Data.List.Nodup
import OnePass.Program.Code
import OnePass.Program.Names
import OnePass.Scope

/-!
What is known of names, as declarations of a scope. A name has the same slot in both. The code of
statements asks only which names have values.
-/

namespace OnePass

namespace Scope

theorem find?_mapIdx (ds : List Declaration) (name : String) (n : Nat) :
    (ds.mapIdx fun slot d => (⟨d, slot + n⟩ : Entry)).find? (·.declaration.name == name) =
      (ds.find? (·.name == name)).map fun d => ⟨d, (ds.map Declaration.name).idxOf name + n⟩ := by
  induction ds generalizing n with
  | nil => rfl
  | cons d ds inductionHypothesis =>
    rw [List.mapIdx_cons, List.find?_cons, List.find?_cons, List.map_cons, List.idxOf_cons]
    by_cases here : d.name = name
    · simp [here]
    · simp only [beq_eq_false_iff_ne.mpr here, cond_false, Nat.add_assoc, Nat.add_comm 1 n]
      exact inductionHypothesis (n + 1)

theorem find?_eq_map (s : Scope) (name : String) :
    s.find? name =
      (s.declarations.find? (·.name == name)).map fun d => ⟨d, s.names.idxOf name⟩ :=
  find?_mapIdx s.declarations name 0

theorem declarations_of_declare {s s' : Scope} {d : Declaration} (h : s.declare d = .ok s') :
    s'.declarations = s.declarations ++ [d] := by
  unfold declare at h
  split at h
  · cases h
  · cases h
    rfl

end Scope

/-- What a scope holds of a name that is known. -/
def Known.declaration (k : Known) : Declaration :=
  ⟨k.first.spelling, k.isConstant, k.hasValue, some k.first.start⟩

namespace Knowledge

variable {ks : Knowledge} {t : Token} {k : Known}

def names (ks : Knowledge) : List String := ks.map fun k => k.first.spelling

@[simp]
theorem names_append (ks ls : Knowledge) : names (ks ++ ls) = names ks ++ names ls :=
  List.map_append

@[simp]
theorem names_nil : names [] = [] := rfl

@[simp]
theorem names_cons (k : Known) (ks : Knowledge) : names (k :: ks) = k.first.spelling :: names ks :=
  rfl

@[simp]
theorem length_names (ks : Knowledge) : ks.names.length = ks.length := List.length_map _

theorem find?_eq_none_iff : ks.find? t = none ↔ t.spelling ∉ ks.names := by
  simp [find?, names]

theorem spelling_of_find? (found : ks.find? t = some k) : k.first.spelling = t.spelling := by
  simpa using List.find?_some found

theorem mem_names_of_find? (found : ks.find? t = some k) : t.spelling ∈ ks.names :=
  List.mem_map.mpr ⟨k, List.mem_of_find?_eq_some found, spelling_of_find? found⟩

theorem exists_find?_of_mem_names (declared : t.spelling ∈ ks.names) :
    ∃ k, ks.find? t = some k := by
  cases found : ks.find? t with
  | none => exact absurd declared (find?_eq_none_iff.mp found)
  | some k => exact ⟨k, rfl⟩

@[simp]
theorem names_after_assigned (ks : Knowledge) (t : Token) :
    (ks.after (.assigned t)).names = ks.names := by
  simp only [after, names, List.map_map]
  congr 1
  funext k
  simp only [Function.comp]
  split <;> rfl

theorem names_scope {s : Scope} (same : s.declarations = ks.map Known.declaration) :
    s.names = ks.names := by
  simp [Scope.names, same, Knowledge.names, Known.declaration, Function.comp_def]

/-- A scope finds the names that are known, in the slots of their positions. -/
theorem find?_scope {s : Scope} (same : s.declarations = ks.map Known.declaration) :
    s.find? t.spelling =
      (ks.find? t).map fun k => ⟨k.declaration, ks.names.idxOf t.spelling⟩ := by
  rw [Scope.find?_eq_map, same, names_scope same, List.find?_map, Option.map_map]
  rfl

theorem firstViolation?_cons (ks : Knowledge) (e : NameEvent) (es : List NameEvent) :
    ks.firstViolation? (e :: es) = (ks.violation? e).or ((ks.after e).firstViolation? es) := by
  rw [firstViolation?]
  cases ks.violation? e <;> rfl

@[simp]
theorem afterAll_nil (ks : Knowledge) : ks.afterAll [] = ks := rfl

@[simp]
theorem afterAll_cons (ks : Knowledge) (e : NameEvent) (es : List NameEvent) :
    ks.afterAll (e :: es) = (ks.after e).afterAll es := rfl

@[simp]
theorem after_introduced (ks : Knowledge) (t : Token) : ks.after (.introduced t) = ks := rfl

@[simp]
theorem after_declared (ks : Knowledge) (t : Token) (isConstant hasValue : Bool) :
    ks.after (.declared t isConstant hasValue) = ks ++ [⟨t, isConstant, hasValue⟩] := rfl

@[simp]
theorem after_targeted (ks : Knowledge) (t : Token) : ks.after (.targeted t) = ks := rfl

@[simp]
theorem afterAll_append (ks : Knowledge) (a b : List NameEvent) :
    ks.afterAll (a ++ b) = (ks.afterAll a).afterAll b := List.foldl_append

@[simp]
theorem afterAll_expression (ks : Knowledge) (e : Expression) : ks.afterAll e.events = ks := by
  induction e with
  | name t => rfl
  | number t => rfl
  | group e inductionHypothesis => exact inductionHypothesis
  | positive e inductionHypothesis => exact inductionHypothesis
  | negative e inductionHypothesis => exact inductionHypothesis
  | binary o l r left right => rw [Expression.events, afterAll_append, left, right]

/-- The names that are known to have a property. -/
def having (ks : Knowledge) (property : Known → Bool) : List String :=
  (ks.filter property).map fun k => k.first.spelling

/-- The names that have a value. -/
def valued (ks : Knowledge) : List String := ks.having Known.hasValue

def constants (ks : Knowledge) : List String := ks.having Known.isConstant

theorem eq_of_spelling_eq {j : Known} (nodup : ks.names.Nodup) (jMember : j ∈ ks) (kMember : k ∈ ks)
    (same : j.first.spelling = k.first.spelling) : j = k :=
  List.inj_on_of_nodup_map nodup jMember kMember same

theorem mem_having_iff {property : Known → Bool} (nodup : ks.names.Nodup)
    (found : ks.find? t = some k) : t.spelling ∈ ks.having property ↔ property k = true := by
  have member := List.mem_of_find?_eq_some found
  have spelling := spelling_of_find? found
  simp only [having, List.mem_map, List.mem_filter]
  constructor
  · intro found
    rcases found with ⟨j, ⟨jMember, holds⟩, same⟩
    rwa [← eq_of_spelling_eq nodup jMember member (same.trans spelling.symm)]
  · intro holds
    exact ⟨k, ⟨member, holds⟩, spelling⟩

theorem mem_valued_iff (nodup : ks.names.Nodup) (found : ks.find? t = some k) :
    t.spelling ∈ ks.valued ↔ k.hasValue = true :=
  mem_having_iff nodup found

theorem mem_constants_iff (nodup : ks.names.Nodup) (found : ks.find? t = some k) :
    t.spelling ∈ ks.constants ↔ k.isConstant = true :=
  mem_having_iff nodup found

/-- A name that has a value already does not become known better. -/
theorem after_assigned_of_hasValue (nodup : ks.names.Nodup) (found : ks.find? t = some k)
    (hasValue : k.hasValue = true) : ks.after (.assigned t) = ks := by
  simp only [after]
  conv_rhs => rw [← List.map_id ks]
  apply List.map_congr_left
  intro j jMember
  split
  next same =>
    have spelling := spelling_of_find? found
    rw [eq_of_spelling_eq nodup jMember (List.mem_of_find?_eq_some found)
      (same.trans spelling.symm)]
    cases k
    simp_all
  next => rfl

@[simp]
theorem having_append (ks ls : Knowledge) (property : Known → Bool) :
    having (ks ++ ls) property = having ks property ++ having ls property := by
  simp [having]

@[simp]
theorem valued_push (ks : Knowledge) (t : Token) (isConstant hasValue : Bool) :
    valued (ks ++ [⟨t, isConstant, hasValue⟩]) =
      ks.valued ++ if hasValue then [t.spelling] else [] := by
  cases hasValue <;> simp [valued, having]

theorem mem_names_of_mem_having {property : Known → Bool} {name : String}
    (h : name ∈ ks.having property) : name ∈ ks.names := by
  obtain ⟨k, member, rfl⟩ := List.mem_map.mp h
  exact List.mem_map.mpr ⟨k, List.mem_of_mem_filter member, rfl⟩

theorem mem_valued_after_assigned {name : String} :
    name ∈ (ks.after (.assigned t)).valued ↔
      (name = t.spelling ∧ name ∈ ks.names) ∨ name ∈ ks.valued := by
  simp only [valued, having, after, names, List.mem_map, List.mem_filter]
  constructor
  · intro found
    rcases found with ⟨_, ⟨⟨k, member, rfl⟩, hasValue⟩, rfl⟩
    split at hasValue
    next same =>
      rw [if_pos same]
      exact .inl ⟨same, k, member, rfl⟩
    next other =>
      rw [if_neg other]
      exact .inr ⟨k, ⟨member, hasValue⟩, rfl⟩
  · intro found
    rcases found with ⟨same, k, member, rfl⟩ | ⟨k, ⟨member, hasValue⟩, rfl⟩
    · exact ⟨{ k with hasValue := true }, ⟨⟨k, member, if_pos same⟩, rfl⟩, rfl⟩
    · by_cases same : k.first.spelling = t.spelling
      · exact ⟨{ k with hasValue := true }, ⟨⟨k, member, if_pos same⟩, rfl⟩, rfl⟩
      · exact ⟨k, ⟨⟨k, member, if_neg same⟩, hasValue⟩, rfl⟩

/-! ### What is known after parts of a program -/

@[simp]
theorem afterAll_constant (ks : Knowledge) (c : ConstantDeclaration) :
    ks.afterAll c.events = ks ++ [⟨c.name, true, true⟩] := rfl

@[simp]
theorem afterAll_variable (ks : Knowledge) (v : VariableDeclaration) :
    ks.afterAll v.events = ks ++ [⟨v.name, false, v.initial.isSome⟩] := by
  rcases v with ⟨name, _ | e⟩ <;> simp [VariableDeclaration.events]

@[simp]
theorem names_afterAll_statement (ks : Knowledge) (x : Statement) :
    (ks.afterAll x.events).names = ks.names := by
  cases x <;> simp [Statement.events]

theorem afterAll_consts (ks : Knowledge) (cs : List ConstantDeclaration) :
    ks.afterAll (cs.flatMap ConstantDeclaration.events) =
      ks ++ cs.map fun c => ⟨c.name, true, true⟩ := by
  induction cs generalizing ks with
  | nil => simp
  | cons c cs inductionHypothesis => simp [inductionHypothesis]

theorem afterAll_vars (ks : Knowledge) (vs : List VariableDeclaration) :
    ks.afterAll (vs.flatMap VariableDeclaration.events) =
      ks ++ vs.map fun v => ⟨v.name, false, v.initial.isSome⟩ := by
  induction vs generalizing ks with
  | nil => simp
  | cons v vs inductionHypothesis => simp [inductionHypothesis]

@[simp]
theorem names_afterAll_statements (ks : Knowledge) (xs : List Statement) :
    (ks.afterAll (xs.flatMap Statement.events)).names = ks.names := by
  induction xs generalizing ks with
  | nil => rfl
  | cons x xs inductionHypothesis => simp [inductionHypothesis]

theorem find?_of_targeted (allowed : ks.violation? (.targeted t) = none) :
    ∃ k, ks.find? t = some k ∧ k.isConstant = false := by
  cases found : ks.find? t <;> simp_all [violation?]

/-- What is known behind declarations. -/
def declared (cs : List ConstantDeclaration) (vs : List VariableDeclaration) : Knowledge :=
  cs.map (fun c => ⟨c.name, true, true⟩) ++ vs.map fun v => ⟨v.name, false, v.initial.isSome⟩

theorem afterAll_constants (cs : List ConstantDeclaration) :
    afterAll [] (cs.flatMap ConstantDeclaration.events) = declared cs [] := by
  simp [afterAll_consts, declared]

theorem declared_afterAll_vars (cs : List ConstantDeclaration) (vs ws : List VariableDeclaration) :
    (declared cs vs).afterAll (ws.flatMap VariableDeclaration.events) = declared cs (vs ++ ws) := by
  simp [afterAll_vars, declared]

theorem afterAll_declarations (cs : List ConstantDeclaration) (vs : List VariableDeclaration) :
    afterAll [] (cs.flatMap ConstantDeclaration.events ++ vs.flatMap VariableDeclaration.events) =
      declared cs vs := by
  rw [afterAll_append, afterAll_constants, declared_afterAll_vars, List.nil_append]

theorem names_declared (cs : List ConstantDeclaration) (vs : List VariableDeclaration) :
    (declared cs vs).names = cs.map (·.name.spelling) ++ vs.map (·.name.spelling) := by
  simp [declared, names, Function.comp_def]

theorem valued_declared (cs : List ConstantDeclaration) (vs : List VariableDeclaration) :
    (declared cs vs).valued =
      cs.map (·.name.spelling) ++ (vs.filter (·.initial.isSome)).map (·.name.spelling) := by
  simp [declared, valued, having, List.filter_map, Function.comp_def]

theorem constants_declared (cs : List ConstantDeclaration) (vs : List VariableDeclaration) :
    (declared cs vs).constants = cs.map (·.name.spelling) := by
  simp [declared, constants, having, List.filter_map, Function.comp_def]

end Knowledge

/-- What is known once everything is declared. -/
def Program.declared (p : Program) : Knowledge := Knowledge.declared p.consts p.vars

theorem Program.names_declared (p : Program) : p.declared.names = p.names :=
  Knowledge.names_declared p.consts p.vars

theorem Program.valued_declared (p : Program) : p.declared.valued = p.valued :=
  Knowledge.valued_declared p.consts p.vars

theorem Program.names_declared_initial (p : Program) : p.declared.names <+: p.names := by
  simp only [p.names_declared, List.prefix_rfl]

/-- The names of a program begin with those of the constants and of the first variables. -/
theorem Program.names_before (p : Program) {before after : List VariableDeclaration}
    (split : p.vars = before ++ after) :
    (Knowledge.declared p.consts []).names ++ before.map (·.name.spelling) <+: p.names := by
  simp [Knowledge.names_declared, names, split]

/-- A program without violations has none in its parts, where they stand. -/
theorem Program.allowed_parts (p : Program) (allowed : p.violation? = none) :
    (Knowledge.declared p.consts []).firstViolation?
        (p.vars.flatMap VariableDeclaration.events) = none ∧
      p.declared.firstViolation? (p.statements.flatMap Statement.events) = none := by
  rw [violation?, events, Knowledge.firstViolation?_append, Option.or_eq_none_iff,
    Knowledge.firstViolation?_append, Option.or_eq_none_iff, Knowledge.afterAll_constants,
    Knowledge.afterAll_declarations] at allowed
  exact ⟨allowed.1.2, allowed.2⟩

theorem Program.constants_declared (p : Program) :
    p.declared.constants = p.consts.map (·.name.spelling) :=
  Knowledge.constants_declared p.consts p.vars

/-! ### The code of statements -/

namespace Statement

variable {names valued others : List String} {stores : Bool}

theorem codeAll_congr (same : ∀ name, name ∈ valued ↔ name ∈ others) (ss : List Statement) :
    codeAll names stores valued ss = codeAll names stores others ss := by
  induction ss generalizing valued others with
  | nil => rfl
  | cons x ss inductionHypothesis =>
    cases x with
    | assign t e =>
      have contains : valued.contains t.spelling = others.contains t.spelling := by
        simp [same]
      have still : ∀ name, name ∈ t.spelling :: valued ↔ name ∈ t.spelling :: others := by
        simp [same]
      simp only [codeAll, contains, inductionHypothesis still]
    | print e => simp only [codeAll, inductionHypothesis same]
    | empty => simp only [codeAll, inductionHypothesis same]

/-- The code of statements is that of the first one and that of the others in turn. -/
theorem codeAll_cons {ks : Knowledge} {x : Statement} (allowed : ks.firstViolation? x.events = none)
    (ss : List Statement) :
    codeAll names stores ks.valued (x :: ss) =
      codeAll names stores ks.valued [x] ++
        codeAll names stores (ks.afterAll x.events).valued ss := by
  cases x with
  | assign t e =>
    rw [events, List.cons_append, Knowledge.firstViolation?_cons, Option.or_eq_none_iff] at allowed
    obtain ⟨k, found, _⟩ := Knowledge.find?_of_targeted allowed.1
    have declared := Knowledge.mem_names_of_find? found
    have valued (name : String) :
        name ∈ t.spelling :: ks.valued ↔ name ∈ (ks.after (.assigned t)).valued := by
      rw [List.mem_cons, Knowledge.mem_valued_after_assigned]
      exact or_congr_left ⟨fun same => ⟨same, same ▸ declared⟩, And.left⟩
    have rest : codeAll names stores (t.spelling :: ks.valued) ss =
        codeAll names stores (ks.after (.assigned t)).valued ss :=
      codeAll_congr valued ss
    simp [codeAll, events, rest]
  | print e => simp [codeAll, events]
  | empty => simp [codeAll, events]

end Statement
end OnePass
