import OnePass.Pass.Run
import OnePass.Program.Grammar
import OnePass.Proofs.Pass.Stream

/-!
A pass that ends well has read a program of the grammar. Each goal stands for the token sequences
that the grammar allows in its place, and a step takes the beginning of such a sequence when its
new goals find the rest.
-/

namespace OnePass

namespace Goal

/-- The token sequences that a goal stands for. A goal that goes on with something that has been
begun says what may follow there. -/
def Finds : Goal → List Token → Prop
  | expect k, ts => ∃ t, ts = [t] ∧ t.kind = k
  | emit _, ts => ts = []
  | consts, ts => ∃ cs, DerivesEach ConstantDeclaration.Derives ts cs
  | constantName, ts =>
    ∀ start, start.kind = .constWord → ∃ c, ConstantDeclaration.Derives (start :: ts) c
  | constantValue _, ts =>
    ∀ start name equals, start.kind = .constWord → name.kind = .ident → equals.kind = .equals →
      ∃ c, ConstantDeclaration.Derives (start :: name :: equals :: ts) c
  | vars, ts => ∃ vs, DerivesEach VariableDeclaration.Derives ts vs
  | variableName, ts =>
    ∀ start, start.kind = .varWord → ∃ v, VariableDeclaration.Derives (start :: ts) v
  | variableValue _, ts =>
    ∀ start name, start.kind = .varWord → name.kind = .ident →
      ∃ v, VariableDeclaration.Derives (start :: name :: ts) v
  | constantEnd _ _, ts | variableEnd _ _, ts | assignmentEnd _ _, ts =>
    ∃ stop, ts = [stop] ∧ stop.kind = .semicolon
  | statements, ts => ∃ ss, DerivesEach Statement.Derives ts ss
  | statement, ts | assignment, ts | output, ts => ∃ x, Statement.Derives ts x
  | expression, ts => ∃ e, Expression.Derives .expression ts e
  | moreItems, ts =>
    ∀ us a, Expression.Derives .expression us a → ∃ e, Expression.Derives .expression (us ++ ts) e
  | item, ts => ∃ e, Expression.Derives .item ts e
  | moreFactors, ts =>
    ∀ us a, Expression.Derives .item us a → ∃ e, Expression.Derives .item (us ++ ts) e
  | factor, ts => ∃ e, Expression.Derives .factor ts e
  | operand, ts => ∃ e, Expression.Derives .operand ts e

/-- The token sequences that goals stand for, one after the other. -/
def FindAll : List Goal → List Token → Prop
  | [], ts => ts = []
  | g :: gs, ts => ∃ us vs, ts = us ++ vs ∧ g.Finds us ∧ FindAll gs vs

theorem findAll_append {gs hs : List Goal} {ts : List Token} :
    FindAll (gs ++ hs) ts ↔ ∃ us vs, ts = us ++ vs ∧ FindAll gs us ∧ FindAll hs vs := by
  induction gs generalizing ts with
  | nil =>
    constructor
    · intro rest
      exact ⟨[], ts, rfl, rfl, rest⟩
    · rintro ⟨_, _, rfl, rfl, rest⟩
      exact rest
  | cons g gs inductionHypothesis =>
    simp only [List.cons_append, FindAll, inductionHypothesis]
    constructor
    · rintro ⟨us, _, rfl, found, vs, ws, rfl, founds, rest⟩
      exact ⟨us ++ vs, ws, by simp, ⟨us, vs, rfl, found, founds⟩, rest⟩
    · rintro ⟨_, ws, rfl, ⟨us, vs, rfl, found, founds⟩, rest⟩
      exact ⟨us, vs ++ ws, by simp, found, vs, ws, rfl, founds, rest⟩

variable {g : Goal} {gs : List Goal} {k : Token.Kind} {ts : List Token}

/-- Behind tokens that begin what a goal stands for, its new goals stand before the others. -/
theorem findAll_cons {goals : List Goal} {us : List Token}
    (begins : ∀ us, FindAll goals us → g.Finds (ts ++ us)) (found : FindAll (goals ++ gs) us) :
    FindAll (g :: gs) (ts ++ us) := by
  obtain ⟨us, vs, rfl, now, later⟩ := findAll_append.mp found
  exact ⟨ts ++ us, vs, by simp, begins us now, later⟩

theorem findAll_singleton : FindAll [g] ts ↔ g.Finds ts := by
  simp [FindAll]

theorem findAll_expect :
    FindAll (expect k :: gs) ts ↔ ∃ t us, ts = t :: us ∧ t.kind = k ∧ FindAll gs us := by
  constructor
  · intro found
    obtain ⟨_, us, rfl, ⟨t, rfl, kind⟩, rest⟩ := found
    exact ⟨t, us, rfl, kind, rest⟩
  · intro found
    obtain ⟨t, us, rfl, kind, rest⟩ := found
    exact ⟨[t], us, rfl, ⟨t, rfl, kind⟩, rest⟩

theorem findAll_emit {i : Instruction} : FindAll (emit i :: gs) ts ↔ FindAll gs ts := by
  constructor
  · intro found
    obtain ⟨us, vs, rfl, nothing, rest⟩ := found
    cases nothing
    exact rest
  · intro rest
    exact ⟨[], ts, rfl, rfl, rest⟩

end Goal

namespace PassM

open Goal

variable {s s' : Pass} {goals : List Goal}

theorem constantValue_leads {n : Int} (h : constantValue s = .ok n s') :
    ∃ ts sign number, Sign.Derives ts sign ∧ number.kind = .uint ∧
      (∀ name, ConstantDeclaration.value ⟨name, sign, number⟩ = n) ∧
      s.Leads (ts ++ [number]) s' := by
  simp only [constantValue, bind_eq_ok] at h
  obtain ⟨minus, u, signed, h⟩ := h
  obtain ⟨minusKind, first⟩ := nextIf_leads signed
  cases minus with
  | some t =>
    simp only [Option.isSome_some, if_true, bind_eq_ok, pure_eq_ok] at h
    obtain ⟨number, _, found, value, rfl⟩ := h
    obtain ⟨kind, second⟩ := expect_leads found
    refine ⟨[t], .minus, number, .minus (minusKind t rfl), kind, ?_, first.trans second⟩
    exact fun _ => value
  | none =>
    simp only [Option.isSome_none, Bool.false_eq_true, if_false, bind_eq_ok, pure_eq_ok] at h
    obtain ⟨plus, v, looked, number, _, found, value, rfl⟩ := h
    obtain ⟨plusKind, second⟩ := nextIf_leads looked
    obtain ⟨kind, third⟩ := expect_leads found
    have all := first.trans (second.trans third)
    cases plus with
    | some t => exact ⟨[t], .plus, number, .plus (plusKind t rfl), kind, fun _ => value, all⟩
    | none => exact ⟨[], .none, number, .none, kind, fun _ => value, all⟩

/-- The tokens that a step takes stand before whatever its new goals find. -/
def Refines (g : Goal) (goals : List Goal) (s s' : Pass) : Prop :=
  ∃ ts, s.Leads ts s' ∧ ∀ us, FindAll goals us → g.Finds (ts ++ us)

/-- A step without new goals has taken all that its goal stands for. -/
theorem Refines.done {g : Goal} {ts : List Token} (leads : s.Leads ts s') (found : g.Finds ts) :
    Refines g [] s s' := by
  refine ⟨ts, leads, ?_⟩
  intro us none
  cases none
  rwa [List.append_nil]

theorem assignment_refines (h : assignment s = .ok goals s') :
    Refines .assignment goals s s' := by
  simp only [assignment, bind_eq_ok, pure_eq_ok] at h
  obtain ⟨name, _, found, _, _, resolved, rfl, rfl⟩ := h
  rw [assignable_ok resolved]
  obtain ⟨nameKind, leads⟩ := expect_leads found
  refine ⟨[name], leads, ?_⟩
  intro us found
  obtain ⟨equals, us, rfl, equalsKind, found⟩ := findAll_expect.mp found
  obtain ⟨ts, us, rfl, ⟨e, derives⟩, last⟩ := found
  obtain ⟨stop, rfl, stopKind⟩ := findAll_singleton.mp last
  exact ⟨_, .assign nameKind equalsKind derives stopKind⟩

theorem output_refines (h : output s = .ok goals s') : Refines .output goals s s' := by
  simp only [output, bind_eq_ok, pure_eq_ok] at h
  obtain ⟨start, _, found, rfl, rfl⟩ := h
  obtain ⟨startKind, leads⟩ := expect_leads found
  refine ⟨[start], leads, ?_⟩
  intro us found
  obtain ⟨l, us, rfl, lKind, found⟩ := findAll_expect.mp found
  obtain ⟨ts, us, rfl, ⟨e, derives⟩, found⟩ := found
  obtain ⟨r, us, rfl, rKind, found⟩ := findAll_expect.mp found
  obtain ⟨stop, us, rfl, stopKind, last⟩ := findAll_expect.mp found
  cases findAll_emit.mp last
  exact ⟨_, .print startKind lKind derives rKind stopKind⟩

theorem statement_refines (h : statement s = .ok goals s') : Refines .statement goals s s' := by
  simp only [statement, bind_eq_ok] at h
  obtain ⟨t, u, peeked, h⟩ := h
  obtain ⟨held, first⟩ := peek_leads peeked
  cases kind : t.kind <;> simp only [kind] at h
  case ident =>
    obtain ⟨ts, second, finds⟩ := assignment_refines h
    exact ⟨ts, first.trans second, finds⟩
  case printWord =>
    obtain ⟨ts, second, finds⟩ := output_refines h
    exact ⟨ts, first.trans second, finds⟩
  case semicolon =>
    simp only [bind_eq_ok, pure_eq_ok] at h
    obtain ⟨_, _, dropped, rfl, rfl⟩ := h
    exact .done (first.trans (drop_leads held dropped)) ⟨.empty, .empty kind⟩
  all_goals
    obtain ⟨_, _, _, refused⟩ := bind_eq_ok.1 h
    exact absurd refused refuse_ne_ok

theorem operand_refines (h : step .operand s = .ok goals s') : Refines .operand goals s s' := by
  simp only [step] at h
  obtain ⟨t, u, peeked, h⟩ := bind_eq_ok.1 h
  obtain ⟨held, first⟩ := peek_leads peeked
  cases kind : t.kind <;> simp only [kind] at h
  case ident =>
    simp only [bind_eq_ok, pure_eq_ok] at h
    obtain ⟨_, _, dropped, _, _, resolved, _, _, emitted, rfl, rfl⟩ := h
    rw [readable_ok resolved] at emitted
    have leads := first.trans ((drop_leads held dropped).trans (emit_leads emitted))
    exact .done leads ⟨.name t, .name kind⟩
  case uint =>
    simp only [bind_eq_ok, pure_eq_ok] at h
    obtain ⟨_, _, dropped, _, _, emitted, rfl, rfl⟩ := h
    have leads := first.trans ((drop_leads held dropped).trans (emit_leads emitted))
    exact .done leads ⟨.number t, .number kind⟩
  case lparen =>
    simp only [bind_eq_ok, pure_eq_ok] at h
    obtain ⟨_, _, dropped, rfl, rfl⟩ := h
    refine ⟨[t], first.trans (drop_leads held dropped), ?_⟩
    intro us found
    obtain ⟨ts, us, rfl, ⟨e, derives⟩, last⟩ := found
    obtain ⟨r, rfl, rKind⟩ := findAll_singleton.mp last
    exact ⟨.group e, .group kind derives rKind⟩
  all_goals exact absurd h refuse_ne_ok

theorem factor_refines (h : step .factor s = .ok goals s') : Refines .factor goals s s' := by
  simp only [step] at h
  obtain ⟨minus, u, signed, h⟩ := bind_eq_ok.1 h
  obtain ⟨minusKind, first⟩ := nextIf_leads signed
  cases minus with
  | some t =>
    simp only [Option.isSome_some, if_true, bind_eq_ok, pure_eq_ok] at h
    obtain ⟨_, _, emitted, rfl, rfl⟩ := h
    refine ⟨[t], first.trans (emit_leads emitted), ?_⟩
    intro us found
    obtain ⟨ts, us, rfl, ⟨e, derives⟩, last⟩ := found
    cases findAll_emit.mp last
    rw [List.append_nil]
    exact ⟨.negative e, .negative (minusKind t rfl) derives⟩
  | none =>
    simp only [Option.isSome_none, Bool.false_eq_true, if_false, bind_eq_ok, pure_eq_ok] at h
    obtain ⟨plus, _, looked, rfl, rfl⟩ := h
    obtain ⟨plusKind, second⟩ := nextIf_leads looked
    refine ⟨plus.toList, first.trans second, ?_⟩
    intro us found
    obtain ⟨e, derives⟩ := findAll_singleton.mp found
    cases plus with
    | some t => exact ⟨.positive e, .positive (plusKind t rfl) derives⟩
    | none => exact ⟨e, .operand derives⟩

theorem Adds.refines {g part : Goal} {level : Expression.Level}
    {operator? : Token.Kind → Option Operation} {derives : List Token → Expression → Prop}
    (adds : Adds g part operator?)
    (more : ∀ {ts}, g.Finds ts ↔
      ∀ us a, Expression.Derives level us a → ∃ e, Expression.Derives level (us ++ ts) e)
    (finds : ∀ {ts}, part.Finds ts ↔ ∃ e, derives ts e)
    (binary : ∀ {t o us vs a b}, operator? t.kind = some o → Expression.Derives level us a →
      derives vs b → Expression.Derives level (us ++ t :: vs) (.binary o a b))
    (h : step g s = .ok goals s') : Refines g goals s s' := by
  obtain ⟨t, u, peeked, turn⟩ := adds.eq_ok h
  obtain ⟨held, first⟩ := peek_leads peeked
  rcases turn with ⟨_, rfl, rfl⟩ | ⟨o, operator, rfl, dropped⟩
  · apply Refines.done first
    apply more.mpr
    intro us a begun
    exact ⟨a, by simpa using begun⟩
  · refine ⟨[t], first.trans (drop_leads held dropped), ?_⟩
    intro us found
    obtain ⟨vs, ws, rfl, found, rest⟩ := found
    obtain ⟨b, derived⟩ := finds.mp found
    have rest := more.mp (findAll_singleton.mp (findAll_emit.mp rest))
    apply more.mpr
    intro us a begun
    obtain ⟨e, whole⟩ := rest _ _ (binary operator begun derived)
    exact ⟨e, by simpa using whole⟩

theorem Repeats.refines {α : Type} {g first : Goal} {k : Token.Kind}
    {derives : List Token → α → Prop} (repeats : Repeats g first k)
    (each : ∀ {ts}, g.Finds ts ↔ ∃ xs, DerivesEach derives ts xs)
    (finds : ∀ {ts}, first.Finds ts → ∀ t, t.kind = k → ∃ x, derives (t :: ts) x)
    (h : step g s = .ok goals s') : Refines g goals s s' := by
  rcases repeats.eq_ok h with ⟨looked, rfl⟩ | ⟨t, looked, rfl⟩
  · exact .done (nextIf_leads looked).2 (each.mpr ⟨[], .nil⟩)
  · obtain ⟨kind, leads⟩ := nextIf_leads looked
    refine ⟨[t], leads, ?_⟩
    intro us found
    obtain ⟨vs, ws, rfl, begun, rest⟩ := found
    obtain ⟨x, derived⟩ := finds begun t (kind t rfl)
    obtain ⟨xs, others⟩ := each.mp (findAll_singleton.mp rest)
    have whole := DerivesEach.cons derived others
    exact each.mpr ⟨x :: xs, whole⟩

/-- What a step takes is the beginning of what its goal stands for. -/
theorem step_refines {g : Goal} (h : step g s = .ok goals s') : Refines g goals s s' := by
  cases g
  case expect k =>
    simp only [step, bind_eq_ok, pure_eq_ok] at h
    obtain ⟨t, _, found, rfl, rfl⟩ := h
    obtain ⟨kind, leads⟩ := expect_leads found
    exact .done leads ⟨t, rfl, kind⟩
  case emit i =>
    simp only [step, bind_eq_ok, pure_eq_ok] at h
    obtain ⟨_, _, emitted, rfl, rfl⟩ := h
    exact .done (emit_leads emitted) rfl
  case consts => exact repeats_consts.refines Iff.rfl id h
  case vars => exact repeats_vars.refines Iff.rfl id h
  case constantName =>
    simp only [step, bind_eq_ok, pure_eq_ok] at h
    obtain ⟨name, _, found, _, _, isNew, rfl, rfl⟩ := h
    rw [checkNew_ok isNew]
    obtain ⟨kind, leads⟩ := expect_leads found
    refine ⟨[name], leads, ?_⟩
    intro us found start startKind
    obtain ⟨equals, us, rfl, equalsKind, last⟩ := findAll_expect.mp found
    exact findAll_singleton.mp last start name equals startKind kind equalsKind
  case variableName =>
    simp only [step, bind_eq_ok, pure_eq_ok] at h
    obtain ⟨name, _, found, _, _, isNew, rfl, rfl⟩ := h
    rw [checkNew_ok isNew]
    obtain ⟨kind, leads⟩ := expect_leads found
    refine ⟨[name], leads, ?_⟩
    intro us found start startKind
    exact findAll_singleton.mp found start name startKind kind
  case constantValue name =>
    simp only [step, bind_eq_ok, pure_eq_ok] at h
    obtain ⟨n, _, found, rfl, rfl⟩ := h
    obtain ⟨ts, sign, number, signDerives, numberKind, _, leads⟩ := constantValue_leads found
    refine ⟨ts ++ [number], leads, ?_⟩
    intro us found start name equals startKind nameKind equalsKind
    obtain ⟨stop, rfl, stopKind⟩ := findAll_singleton.mp found
    refine ⟨⟨name, sign, number⟩, ?_⟩
    simpa using ConstantDeclaration.Derives.mk startKind nameKind equalsKind signDerives numberKind
      stopKind
  case variableValue name =>
    simp only [step] at h
    obtain ⟨found, _, looked, h⟩ := bind_eq_ok.1 h
    obtain ⟨kind, leads⟩ := nextIf_leads looked
    cases found with
    | some equals =>
      obtain ⟨rfl, rfl⟩ := pure_eq_ok.1 h
      refine ⟨[equals], leads, ?_⟩
      intro us found start name startKind nameKind
      obtain ⟨ts, us, rfl, ⟨e, derives⟩, last⟩ := found
      obtain ⟨stop, rfl, stopKind⟩ := findAll_singleton.mp last
      exact ⟨⟨name, some e⟩, .initialized startKind nameKind (kind equals rfl) derives stopKind⟩
    | none =>
      obtain ⟨rfl, rfl⟩ := pure_eq_ok.1 h
      refine ⟨[], leads, ?_⟩
      intro us found start name startKind nameKind
      obtain ⟨stop, rfl, stopKind⟩ := findAll_singleton.mp found
      exact ⟨⟨name, none⟩, .plain startKind nameKind stopKind⟩
  case constantEnd name value =>
    simp only [step, bind_eq_ok, pure_eq_ok] at h
    obtain ⟨stop, _, found, _, _, declared, _, _, emitted, rfl, rfl⟩ := h
    obtain ⟨kind, leads⟩ := expect_leads found
    have later := (declare_leads declared).trans (emit_leads emitted)
    exact .done (leads.trans later) ⟨stop, rfl, kind⟩
  case variableEnd name hasValue =>
    simp only [step, bind_eq_ok] at h
    obtain ⟨stop, _, found, _, _, declared, h⟩ := h
    obtain ⟨kind, leads⟩ := expect_leads found
    have declaredLeads := leads.trans (declare_leads declared)
    split at h
    · simp only [bind_eq_ok, pure_eq_ok] at h
      obtain ⟨_, _, stored, rfl, rfl⟩ := h
      exact .done (declaredLeads.trans (storeFirst_leads stored)) ⟨stop, rfl, kind⟩
    · obtain ⟨rfl, rfl⟩ := pure_eq_ok.1 h
      exact .done declaredLeads ⟨stop, rfl, kind⟩
  case statements =>
    simp only [step] at h
    obtain ⟨t, _, peeked, h⟩ := bind_eq_ok.1 h
    obtain ⟨_, first⟩ := peek_leads peeked
    split at h
    · simp only [bind_eq_ok, pure_eq_ok] at h
      obtain ⟨parts, _, taken, rfl, rfl⟩ := h
      obtain ⟨ts, second, finds⟩ := statement_refines taken
      refine ⟨ts, first.trans second, ?_⟩
      intro us found
      obtain ⟨vs, ws, rfl, founds, last⟩ := findAll_append.mp found
      obtain ⟨x, derives⟩ := finds vs founds
      obtain ⟨ss, rest⟩ := findAll_singleton.mp last
      exact ⟨x :: ss, by simpa using DerivesEach.cons derives rest⟩
    · obtain ⟨rfl, rfl⟩ := pure_eq_ok.1 h
      exact .done first ⟨[], .nil⟩
  case statement => exact statement_refines h
  case assignment => exact assignment_refines h
  case assignmentEnd name target =>
    simp only [step] at h
    obtain ⟨stop, _, found, h⟩ := bind_eq_ok.1 h
    obtain ⟨kind, leads⟩ := expect_leads found
    split at h
    · simp only [bind_eq_ok, pure_eq_ok] at h
      obtain ⟨_, _, emitted, rfl, rfl⟩ := h
      exact .done (leads.trans (emit_leads emitted)) ⟨stop, rfl, kind⟩
    · simp only [bind_eq_ok, pure_eq_ok] at h
      obtain ⟨_, _, marked, _, _, stored, rfl, rfl⟩ := h
      have later := (markInitialized_leads marked).trans (storeFirst_leads stored)
      exact .done (leads.trans later) ⟨stop, rfl, kind⟩
  case output => exact output_refines h
  case expression =>
    obtain ⟨rfl, rfl⟩ := pure_eq_ok.1 h
    refine ⟨[], Pass.Leads.refl s, ?_⟩
    intro us found
    obtain ⟨ts, us, rfl, ⟨a, derives⟩, last⟩ := found
    exact findAll_singleton.mp last ts a (.item derives)
  case item =>
    obtain ⟨rfl, rfl⟩ := pure_eq_ok.1 h
    refine ⟨[], Pass.Leads.refl s, ?_⟩
    intro us found
    obtain ⟨ts, us, rfl, ⟨a, derives⟩, last⟩ := found
    exact findAll_singleton.mp last ts a (.factor derives)
  case moreItems => exact adds_items.refines Iff.rfl Iff.rfl .sum h
  case moreFactors => exact adds_factors.refines Iff.rfl Iff.rfl .product h
  case factor => exact factor_refines h
  case operand => exact operand_refines h

/-- Goals that have been worked off have found what they stand for. -/
theorem run_finds (h : run goals s = .ok () s') : ∃ ts, s.Leads ts s' ∧ FindAll goals ts := by
  fun_induction run goals s with
  | case1 s =>
    cases h
    exact ⟨[], Pass.Leads.refl _, rfl⟩
  | case2 s g rest goals s₁ taken inductionHypothesis =>
    obtain ⟨ts, first, finds⟩ := step_refines taken
    obtain ⟨us, second, found⟩ := inductionHypothesis h
    exact ⟨ts ++ us, first.trans second, findAll_cons finds found⟩
  | case3 s g rest d s₁ taken => cases h

end PassM

/-- What the goals of a whole program find is a program. -/
theorem Goal.derives_of_findAll {ts : List Token} (h : FindAll Goal.program ts) :
    ∃ p, Program.Derives ts p := by
  obtain ⟨start, ts, rfl, startKind, h⟩ := findAll_expect.mp h
  obtain ⟨cs, ts, rfl, ⟨consts, derivesConsts⟩, h⟩ := h
  obtain ⟨vs, ts, rfl, ⟨vars, derivesVars⟩, h⟩ := h
  obtain ⟨ss, ts, rfl, ⟨statements, derivesStatements⟩, h⟩ := h
  obtain ⟨finish, ts, rfl, finishKind, h⟩ := findAll_expect.mp h
  obtain ⟨last, rfl, lastKind⟩ := findAll_singleton.mp h
  have whole : Program.Derives (start :: cs ++ vs ++ ss ++ [finish, last])
      ⟨consts, vars, statements⟩ :=
    .mk startKind derivesConsts derivesVars derivesStatements finishKind lastKind
  exact ⟨_, by simpa using whole⟩

end OnePass
