import OnePass.Proofs.Pass.Completeness

/-!
The states that a pass goes through on its way over a program: behind each declaration of a
variable and behind each statement there is one, which knows what the tree says up to there. Whether
names get their first values in the order of their slots can be checked along the way.
-/

namespace OnePass

theorem filter_eq_take {α : Type} {l : List α} {property : α → Bool} {m : Nat}
    (h : ∀ i x, l[i]? = some x → (property x = true ↔ i < m)) : l.filter property = l.take m := by
  induction l generalizing m with
  | nil => simp
  | cons y l inductionHypothesis =>
    have first := h 0 y rfl
    cases m with
    | zero =>
      have none : l.filter property = l.take 0 := by
        apply inductionHypothesis
        intro i x there
        simpa using h (i + 1) x there
      simp_all
    | succ m =>
      have rest : l.filter property = l.take m := by
        apply inductionHypothesis
        intro i x there
        simpa using h (i + 1) x there
      simp_all

namespace Scope

variable {s : Scope} {ks : Knowledge}

/-- The names that have a value are those with the first slots. -/
def FillsInOrder (s : Scope) : Prop :=
  ∃ m, ∀ e ∈ s.entries, e.declaration.isInitialized = true ↔ e.slot < m

theorem initialized_eq_take {m : Nat}
    (fills : ∀ e ∈ s.entries, e.declaration.isInitialized = true ↔ e.slot < m) :
    s.declarations.filter Declaration.isInitialized = s.declarations.take m := by
  apply filter_eq_take
  intro slot d there
  exact fills ⟨d, slot⟩ (mem_entries_iff.mpr there)

theorem fillsInOrder_iff :
    s.FillsInOrder ↔ ∀ e ∈ s.entries, e.declaration.isInitialized = true ↔
      e.slot < (s.declarations.filter Declaration.isInitialized).length := by
  constructor
  · rintro ⟨m, fills⟩ e member
    have bound : e.slot < s.declarations.length :=
      (List.getElem?_eq_some_iff.mp (mem_entries_iff.mp member)).1
    rw [fills e member, initialized_eq_take fills, List.length_take]
    omega
  · intro fills
    exact ⟨_, fills⟩

instance : DecidablePred FillsInOrder := fun _ => decidable_of_iff _ fillsInOrder_iff.symm

theorem FillsInOrder.valued_initial (fills : s.FillsInOrder)
    (same : s.declarations = ks.map Known.declaration) : ks.valued <+: ks.names := by
  obtain ⟨m, fills⟩ := fills
  have take := initialized_eq_take fills
  rw [same, List.filter_map, ← List.map_take] at take
  have valued : ks.valued = ks.names.take m := by
    simpa [Knowledge.valued, Knowledge.having, Knowledge.names, Function.comp_def,
      Known.declaration, ← List.map_take] using congrArg (List.map Declaration.name) take
  rw [valued]
  exact List.take_prefix m _

end Scope

namespace PassM

variable {s : Pass} {stores : Bool} {ts : List Token} {p : Program} {gs : List Goal}

theorem passes_of_reaches {g : Goal} {goals : List Goal} {good : Pass → Prop}
    (h : Reaches (g :: goals, s) gs good none) : ∃ s', Passes (g :: goals) s s' ∧ good s' := by
  obtain ⟨s', moves, arrived⟩ := h
  exact ⟨s', ⟨gs, moves⟩, arrived⟩

/-- What is allowed is allowed up to any place in it. -/
theorem firstViolation?_before {ks : Knowledge} {a b : List NameEvent}
    (allowed : ks.firstViolation? (a ++ b) = none) : ks.firstViolation? a = none := by
  rw [Knowledge.firstViolation?_append, Option.or_eq_none_iff] at allowed
  exact allowed.1

theorem passes_vars (h : Program.Derives ts p) (allowed : p.violation? = none)
    (here : s.At stores ts [] []) {before after : List VariableDeclaration}
    (split : p.vars = before ++ after) :
    ∃ s', Passes Goal.program s s' ∧
      s'.scope.declarations = (Knowledge.declared p.consts before).map Known.declaration := by
  cases h with
  | @mk start finish last cs vs ss p startKind consts vars statements finishKind lastKind =>
    simp only [List.cons_append, List.append_assoc] at here
    have stop := heads_vars vars (heads_statements statements finishKind (r := [last]))
    have begun := reaches_program_vars startKind consts stop here
    rw [split] at vars
    obtain ⟨us, ws, rfl, first, _⟩ := vars.append_inv
    simp only [List.append_assoc] at begun
    have reached := begun.trans fun _ s here =>
      reaches_vars first (p.names_before split) here
        (.statements :: [.expect .endWord, .expect .eof])
    have quiet : Knowledge.firstViolation? [] (p.consts.flatMap ConstantDeclaration.events ++
        before.flatMap VariableDeclaration.events) = none := by
      rw [Program.violation?, Program.events, split, List.flatMap_append, ← List.append_assoc]
        at allowed
      exact firstViolation?_before (firstViolation?_before allowed)
    rw [Knowledge.firstViolation?_append, Knowledge.afterAll_constants] at quiet
    rw [quiet, Knowledge.declared_afterAll_vars] at reached
    exact passes_of_reaches (reached.imp fun s here => here.declarations)

theorem passes_statements (h : Program.Derives ts p) (allowed : p.violation? = none)
    (here : s.At stores ts [] []) {before after : List Statement}
    (split : p.statements = before ++ after) :
    ∃ s', Passes Goal.program s s' ∧
      s'.scope.declarations =
        (p.declared.afterAll (before.flatMap Statement.events)).map Known.declaration := by
  cases h with
  | @mk start finish last cs vs ss p startKind consts vars statements finishKind lastKind =>
    simp only [List.cons_append, List.append_assoc] at here
    have begun := reaches_program_statements startKind consts vars
      (heads_statements statements finishKind) here
    rw [split] at statements
    obtain ⟨us, ws, rfl, first, _⟩ := statements.append_inv
    simp only [List.append_assoc] at begun
    have reached := begun.trans fun _ s here =>
      reaches_statements first p.names_declared_initial here [.expect .endWord, .expect .eof]
    have quiet : Knowledge.firstViolation? [] ((p.consts.flatMap ConstantDeclaration.events ++
        p.vars.flatMap VariableDeclaration.events) ++ before.flatMap Statement.events) = none := by
      rw [Program.violation?, Program.events, split, List.flatMap_append, ← List.append_assoc]
        at allowed
      exact firstViolation?_before allowed
    rw [Knowledge.firstViolation?_append, Knowledge.afterAll_declarations] at quiet
    change Option.or _ (p.declared.firstViolation? _) = none at quiet
    rw [quiet] at reached
    exact passes_of_reaches (reached.imp fun s here => here.declarations)

/-! ### Checking all states of a run -/

/-- Whether all states of a run are good. -/
def always (good : Pass → Bool) (goals : List Goal) (s : Pass) : Bool :=
  match goals with
  | [] => good s
  | g :: rest =>
    match _taken : step g s with
    | .ok goals s' => good s && always good (goals ++ rest) s'
    | .error _ _ => good s
termination_by (s.size, Goal.weights goals)
decreasing_by
  exact step_decreases _taken

theorem always_cons (good : Pass → Bool) (g : Goal) (rest : List Goal) (s : Pass) :
    always good (g :: rest) s =
      match step g s with
      | .ok goals s' => good s && always good (goals ++ rest) s'
      | .error _ _ => good s := by
  rw [always]
  split <;> simp_all

theorem good_of_always {good : Pass → Bool} {goals : List Goal} (all : always good goals s = true) :
    good s = true := by
  cases goals with
  | nil => rwa [always] at all
  | cons g rest =>
    rw [always_cons] at all
    split at all
    · exact (Bool.and_eq_true_iff.mp all).1
    · exact all

theorem always_of_moves {good : Pass → Bool} {c c' : List Goal × Pass}
    (moves : Relation.ReflTransGen Move c c') (all : always good c.1 c.2 = true) :
    always good c'.1 c'.2 = true := by
  induction moves with
  | refl => exact all
  | tail _ move inductionHypothesis =>
    cases move with
    | take taken =>
      rw [always_cons, taken] at inductionHypothesis
      exact (Bool.and_eq_true_iff.mp inductionHypothesis).2

theorem always_iff {good : Pass → Bool} {goals : List Goal} :
    always good goals s = true ↔ ∀ s', Passes goals s s' → good s' = true := by
  constructor
  · intro all s' found
    rcases found with ⟨rest, moves⟩
    exact good_of_always (always_of_moves moves all)
  · intro every
    have first := every s ⟨goals, .refl⟩
    fun_induction always good goals s with
    | case1 s => exact first
    | case2 s g rest goals s₁ taken inductionHypothesis =>
      have later : ∀ s', Passes (goals ++ rest) s₁ s' → good s' = true := by
        intro s' found
        rcases found with ⟨others, moves⟩
        exact every s' ⟨others, .head (.take taken) moves⟩
      rw [first, Bool.true_and]
      exact inductionHypothesis later (later s₁ ⟨goals ++ rest, .refl⟩)
    | case3 s g rest d s₁ taken => exact first

end PassM
end OnePass
