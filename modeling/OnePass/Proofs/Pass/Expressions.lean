import OnePass.Program.Code
import OnePass.Proofs.Pass.Soundness
import OnePass.Proofs.Pass.Steps
import OnePass.Proofs.Program.NameRules
import OnePass.Proofs.Program.Scopes
import OnePass.Proofs.Program.Unambiguous

/-!
Reading expressions. Where tokens of the grammar stand before a pass, whatever else it has found so
far, it either meets the first operand that cannot be read, or takes these tokens, emits the code of
their tree and leaves the names alone. And whatever a pass has found as part of an expression was of
the grammar, and has been read in this way.
-/

namespace OnePass

/-- The goal that looks for things of a level. -/
@[simp]
def Expression.Level.goal : Expression.Level → Goal
  | expression => .expression
  | item => .item
  | factor => .factor
  | operand => .operand

/-- The goals that are left when something of a level has been read that might go on. -/
@[simp]
def Expression.Level.more : Expression.Level → List Goal
  | expression => [.moreItems]
  | item => [.moreFactors]
  | factor | operand => []

/-- A sum is left as it is only where no product goes on. -/
def Expression.Level.Ready : Expression.Level → List Token → Prop
  | expression, us => Heads (·.multiplicative? = none) us
  | item, _ | factor, _ | operand, _ => True

namespace Pass

variable {s s' s'' : Pass} {ts us vs ws : List Token} {is js : List Instruction}

/-- Between two states tokens have been taken and code has been emitted, and nothing else has been
done. Other tokens come next. -/
structure Emits (s : Pass) (ts us : List Token) (is : List Instruction) (s' : Pass) : Prop where
  leads : s.Leads ts s'
  yields : s'.Yields us
  scope : s'.scope = s.scope
  mode : s'.storesFirst = s.storesFirst
  code : s'.code.toList = s.code.toList ++ is

theorem Emits.of_moved {cursor : Cursor} {lookahead : Option Token} {scanned : Nat}
    (leads : s.Leads ts (s.moved cursor lookahead scanned))
    (after : (s.moved cursor lookahead scanned).Yields us) :
    s.Emits ts us [] (s.moved cursor lookahead scanned) :=
  ⟨leads, after, rfl, rfl, (List.append_nil _).symm⟩

theorem Emits.trans (first : s.Emits ts vs is s') (second : s'.Emits us ws js s'') :
    s.Emits (ts ++ us) ws (is ++ js) s'' := by
  refine ⟨first.leads.trans second.leads, second.yields, second.scope.trans first.scope,
    second.mode.trans first.mode, ?_⟩
  rw [second.code, first.code, List.append_assoc]

/-- Where a pass stands says where it stands behind the tokens. -/
theorem At.emits {stores : Bool} {ks : Knowledge} (here : s.At stores vs ks is)
    (emits : s.Emits ts us js s') : s'.At stores us ks (is ++ js) := by
  refine ⟨emits.yields, ?_, ?_, emits.mode.trans here.mode⟩
  · rw [emits.scope, here.declarations]
  · rw [emits.code, here.code]

end Pass

/-- The rule that an operand breaks, if it breaks one. -/
def Scope.unreadable? (scope : Scope) (t : Token) : Option Violation :=
  match scope.find? t.spelling with
  | none => some (.undeclared t)
  | some e => if e.declaration.isInitialized then none else some (.uninitialized t)

theorem Scope.unreadable?_eq_none_iff {scope : Scope} {t : Token} :
    scope.unreadable? t = none ↔
      ∃ e, scope.find? t.spelling = some e ∧ e.declaration.isInitialized = true := by
  unfold unreadable?
  cases scope.find? t.spelling <;> simp

namespace PassM

open Goal

variable {s : Pass} {t : Token} {ts us vs ws : List Token} {goals gs hs rest : List Goal} {g : Goal}
  {is js : List Instruction} {names : List String} {k : Token.Kind} {v w : Option Violation}
  {c : List Goal × Pass}

/-! ### Tokens and code -/

theorem peek_emits (before : s.Yields (t :: us)) :
    ∃ s', peek s = .ok t s' ∧ s.Emits [] (t :: us) [] s' ∧
      ∃ s'', drop s' = .ok () s'' ∧ s.Emits [t] us [] s'' := by
  obtain ⟨cursor, scanned, peeked, after⟩ := peek_of_yields before
  obtain ⟨ahead, leads⟩ := peek_leads peeked
  refine ⟨_, peeked, .of_moved leads (Pass.moved_some_yields_iff.mpr after), _, drop_moved, ?_⟩
  exact .of_moved (leads.trans (drop_leads ahead drop_moved)) after

theorem nextIf_emits (before : s.Yields (t :: us)) (kind : t.kind = k) :
    ∃ s', nextIf k s = .ok (some t) s' ∧ s.Emits [t] us [] s' := by
  obtain ⟨cursor, scanned, found, after⟩ := nextIf_of_yields before kind
  exact ⟨_, found, .of_moved (nextIf_leads found).2 after⟩

theorem nextIf_emits_ne (before : s.Yields (t :: us)) (kind : t.kind ≠ k) :
    ∃ s', nextIf k s = .ok none s' ∧ s.Emits [] (t :: us) [] s' := by
  obtain ⟨cursor, scanned, passed, after⟩ := nextIf_of_yields_ne before kind
  exact ⟨_, passed, .of_moved (nextIf_leads passed).2 (Pass.moved_some_yields_iff.mpr after)⟩

theorem emit_emits (before : s.Yields us) (i : Instruction) :
    ∃ s', emit i s = .ok () s' ∧ s.Emits [] us [i] s' :=
  ⟨_, rfl, .of_same rfl rfl rfl rfl, before, rfl, rfl, Array.toList_push⟩

theorem step_emit (before : s.Yields us) (i : Instruction) :
    ∃ s', step (.emit i) s = .ok [] s' ∧ s.Emits [] us [i] s' := by
  obtain ⟨s', emitted, after⟩ := emit_emits before i
  refine ⟨s', ?_, after⟩
  rw [step, bind_of_ok emitted]
  rfl

theorem step_expect (before : s.Yields (t :: us)) (kind : t.kind = k) :
    ∃ s', step (.expect k) s = .ok [] s' ∧ s.Emits [t] us [] s' := by
  obtain ⟨cursor, scanned, found, after⟩ := expect_of_yields before kind
  refine ⟨_, ?_, .of_moved (expect_leads found).2 after⟩
  rw [step, bind_of_ok found]
  rfl

theorem Adds.stop {part : Goal} {operator? : Token.Kind → Option Operation}
    (adds : Adds g part operator?) (before : s.Yields us) (stop : Heads (operator? · = none) us) :
    ∃ s', step g s = .ok [] s' ∧ s.Emits [] us [] s' := by
  obtain ⟨t, rest, rfl, none⟩ := stop
  obtain ⟨s₁, peeked, ahead, _⟩ := peek_emits before
  refine ⟨s₁, ?_, ahead⟩
  rw [adds, bind_of_ok peeked]
  simp only [none]
  rfl

theorem Adds.go {part : Goal} {operator? : Token.Kind → Option Operation} {o : Operation}
    (adds : Adds g part operator?) (before : s.Yields (t :: us)) (operator : operator? t.kind = some o) :
    ∃ s', step g s = .ok [part, .emit (.operate o), g] s' ∧ s.Emits [t] us [] s' := by
  obtain ⟨s₁, peeked, _, s₂, dropped, after⟩ := peek_emits before
  refine ⟨s₂, ?_, after⟩
  rw [adds, bind_of_ok peeked]
  simp only [operator]
  rw [bind_of_ok dropped]
  rfl

/-! ### Operands and signs -/

theorem readable_of_allowed (allowed : s.scope.unreadable? t = none) :
    ∃ e, s.scope.find? t.spelling = some e ∧ readable t s = .ok e s := by
  obtain ⟨e, found, valued⟩ := Scope.unreadable?_eq_none_iff.mp allowed
  refine ⟨e, found, ?_⟩
  rw [readable, bind_of_ok (resolve_eq_ok found), if_pos valued]
  rfl

theorem readable_of_violation {v : Violation} (violation : s.scope.unreadable? t = some v) :
    ∃ d, readable t s = .error d s ∧ v.Explains d := by
  cases found : s.scope.find? t.spelling with
  | none =>
    obtain rfl : Violation.undeclared t = v := by simpa [Scope.unreadable?, found] using violation
    obtain ⟨d, failed, explains⟩ := resolve_of_unknown found
    exact ⟨d, bind_of_error failed, explains⟩
  | some e =>
    obtain ⟨unset, same⟩ : e.declaration.isInitialized = false ∧ Violation.uninitialized t = v := by
      simpa [Scope.unreadable?, found] using violation
    subst same
    rw [readable, bind_of_ok (resolve_eq_ok found), if_neg (by simp [unset])]
    exact ⟨_, rfl, rfl, rfl⟩

theorem reaches_name (before : s.Yields (t :: us)) (kind : t.kind = .ident)
    (initial : s.scope.names <+: names) (gs : List Goal) :
    Reaches (.operand :: gs, s) gs (s.Emits [t] us ((Expression.name t).code names))
      (s.scope.unreadable? t) := by
  obtain ⟨s₁, peeked, _, s₂, dropped, after⟩ := peek_emits before
  have begun : step .operand s = (do
      let e ← readable t
      PassM.emit (.lod e.slot)
      return []) s₂ := by
    rw [step, bind_of_ok peeked]
    simp only [kind]
    rw [bind_of_ok dropped]
  rw [← after.scope] at initial ⊢
  cases violation : s₂.scope.unreadable? t with
  | some v =>
    obtain ⟨d, failed, explains⟩ := readable_of_violation violation
    exact .refused (begun.trans (bind_of_error failed)) explains
  | none =>
    obtain ⟨e, found, read⟩ := readable_of_allowed violation
    obtain ⟨s₃, emitted, done⟩ := emit_emits after.yields (.lod e.slot)
    rw [bind_of_ok read, bind_of_ok emitted] at begun
    refine .step begun (.here ?_)
    rw [Expression.code, ← initial.idxOf_eq_of_mem (Scope.mem_names_of_find? found),
      Scope.idxOf_names found]
    exact after.trans done

theorem step_operand_number (before : s.Yields (t :: us)) (kind : t.kind = .uint) :
    ∃ s', step .operand s = .ok [] s' ∧ s.Emits [t] us [.lit t.number] s' := by
  obtain ⟨s₁, peeked, _, s₂, dropped, after⟩ := peek_emits before
  obtain ⟨s₃, emitted, done⟩ := emit_emits after.yields (.lit t.number)
  refine ⟨s₃, ?_, after.trans done⟩
  rw [step, bind_of_ok peeked]
  simp only [kind]
  rw [bind_of_ok dropped, bind_of_ok emitted]
  rfl

theorem step_operand_group (before : s.Yields (t :: us)) (kind : t.kind = .lparen) :
    ∃ s', step .operand s = .ok [.expression, .expect .rparen] s' ∧ s.Emits [t] us [] s' := by
  obtain ⟨s₁, peeked, _, s₂, dropped, after⟩ := peek_emits before
  refine ⟨s₂, ?_, after⟩
  rw [step, bind_of_ok peeked]
  simp only [kind]
  rw [bind_of_ok dropped]
  rfl

theorem step_factor_minus (before : s.Yields (t :: us)) (kind : t.kind = .minus) :
    ∃ s', step .factor s = .ok [.operand, .emit (.operate .sub)] s' ∧
      s.Emits [t] us [.lit 0] s' := by
  obtain ⟨s₁, found, after⟩ := nextIf_emits before kind
  obtain ⟨s₂, emitted, done⟩ := emit_emits after.yields (.lit 0)
  refine ⟨s₂, ?_, after.trans done⟩
  rw [step, bind_of_ok found, Option.isSome_some, if_pos rfl, bind_of_ok emitted]
  rfl

theorem step_factor_plus (before : s.Yields (t :: us)) (kind : t.kind = .plus) :
    ∃ s', step .factor s = .ok [.operand] s' ∧ s.Emits [t] us [] s' := by
  obtain ⟨s₁, passed, ahead⟩ := nextIf_emits_ne (k := .minus) before (by simp [kind])
  obtain ⟨s₂, found, after⟩ := nextIf_emits ahead.yields kind
  refine ⟨s₂, ?_, ahead.trans after⟩
  rw [step, bind_of_ok passed, if_neg (by simp), bind_of_ok found]
  rfl

theorem step_factor_unsigned (before : s.Yields (t :: us))
    (kind : t.kind ∈ [Token.Kind.ident, .uint, .lparen]) :
    ∃ s', step .factor s = .ok [.operand] s' ∧ s.Emits [] (t :: us) [] s' := by
  have notMinus : t.kind ≠ .minus := by
    intro minus
    rw [minus] at kind
    exact absurd kind (by decide)
  have notPlus : t.kind ≠ .plus := by
    intro plus
    rw [plus] at kind
    exact absurd kind (by decide)
  obtain ⟨s₁, passed, ahead⟩ := nextIf_emits_ne before notMinus
  obtain ⟨s₂, again, still⟩ := nextIf_emits_ne ahead.yields notPlus
  refine ⟨s₂, ?_, ahead.trans still⟩
  rw [step, bind_of_ok passed, if_neg (by simp), bind_of_ok again]
  rfl

/-! ### Parts of expressions -/

namespace Reaches

/-- A step comes first. -/
theorem begins {s₁ : Pass} (taken : PassM.step g s = .ok goals s₁) (first : s.Emits ts vs is s₁)
    (h : Reaches (goals ++ rest, s₁) gs (s₁.Emits us ws js) v) :
    Reaches (g :: rest, s) gs (s.Emits (ts ++ us) ws (is ++ js)) v :=
  .step taken (h.imp fun _ later => first.trans later)

/-- A step comes last. -/
theorem ends (h : Reaches c (g :: gs) (s.Emits ts vs is) v)
    (taken : ∀ s₁ : Pass, s₁.Yields vs →
      ∃ s', PassM.step g s₁ = .ok goals s' ∧ s₁.Emits us ws js s') :
    Reaches c (goals ++ gs) (s.Emits (ts ++ us) ws (is ++ js)) v := by
  refine h.take fun s₁ here => ?_
  obtain ⟨s', took, after⟩ := taken s₁ here.yields
  exact ⟨s', took, here.trans after⟩

/-- Other tokens are read behind the first ones. -/
theorem continues (h : Reaches c gs (s.Emits ts vs is) v)
    (next : ∀ s₁ : Pass, s₁.Yields vs → s₁.scope = s.scope →
      Reaches (gs, s₁) hs (s₁.Emits us ws js) w) :
    Reaches c hs (s.Emits (ts ++ us) ws (is ++ js)) (v.or w) :=
  h.trans fun _ s₁ here => (next s₁ here.yields here.scope).imp fun _ later => here.trans later

end Reaches

/-- A pass reads whatever the grammar derives as part of an expression. -/
theorem reaches_part {l : Expression.Level} {e : Expression} (h : Expression.Derives l ts e)
    (initial : s.scope.names <+: names) (before : s.Yields (ts ++ us)) (ready : l.Ready us)
    (gs : List Goal) :
    Reaches (l.goal :: gs, s) (l.more ++ gs) (s.Emits ts us (e.code names))
      (e.reads.findSome? s.scope.unreadable?) := by
  induction h generalizing s gs us with
  | name kind =>
    have read := reaches_name before kind initial gs
    simpa [Expression.reads] using read
  | number kind =>
    obtain ⟨s₁, taken, after⟩ := step_operand_number before kind
    exact .step taken (.here after)
  | @group l r ts e lKind _ rKind inductionHypothesis =>
    rw [List.append_assoc] at before
    obtain ⟨s₁, begun, first⟩ := step_operand_group before lKind
    obtain ⟨noSum, noProduct⟩ :=
      Expression.Level.stops_expression_iff.mp (Expression.stops_rparen rKind us)
    rw [← first.scope] at initial ⊢
    have whole := inductionHypothesis initial first.yields noProduct (.expect .rparen :: gs)
    have closed := (whole.ends fun s₁ here => adds_items.stop here noSum).ends fun s₁ here =>
      step_expect here rKind
    simpa [Expression.code, Expression.reads] using Reaches.begins begun first closed
  | operand derives inductionHypothesis =>
    obtain ⟨t, rest, rfl, kind⟩ := derives.operand_heads
    obtain ⟨s₁, begun, first⟩ := step_factor_unsigned before kind
    rw [← first.scope] at initial ⊢
    exact Reaches.begins begun first (inductionHypothesis initial first.yields trivial gs)
  | positive kind _ inductionHypothesis =>
    obtain ⟨s₁, begun, first⟩ := step_factor_plus before kind
    rw [← first.scope] at initial ⊢
    exact Reaches.begins begun first (inductionHypothesis initial first.yields trivial gs)
  | negative kind _ inductionHypothesis =>
    obtain ⟨s₁, begun, first⟩ := step_factor_minus before kind
    rw [← first.scope] at initial ⊢
    have inside := inductionHypothesis initial first.yields trivial (.emit (.operate .sub) :: gs)
    have whole := inside.ends fun s₁ here => step_emit here _
    simpa [Expression.code, Expression.reads] using Reaches.begins begun first whole
  | factor _ inductionHypothesis =>
    exact Reaches.step rfl (inductionHypothesis initial before trivial (.moreFactors :: gs))
  | @product t o ts vs a b operator _ _ first second =>
    rw [List.append_assoc] at before
    have left := (first initial before trivial gs).ends fun s₁ here => adds_factors.go here operator
    have right := left.continues fun s₁ here same =>
      same ▸ second (s := s₁) (same ▸ initial) here trivial _
    have whole := right.ends fun s₁ here => step_emit here _
    simpa [Expression.code, Expression.reads] using whole
  | item _ inductionHypothesis =>
    have inside := (inductionHypothesis initial before trivial (.moreItems :: gs)).ends
      fun s₁ here => adds_factors.stop here ready
    exact Reaches.step rfl (by simpa using inside)
  | @sum t o ts vs a b operator _ _ first second =>
    rw [List.append_assoc] at before
    have notProduct : t.kind.multiplicative? = none := by
      cases kind : t.kind <;> simp_all [Token.Kind.additive?, Token.Kind.multiplicative?]
    have left := (first initial before ⟨t, vs ++ us, rfl, notProduct⟩ gs).ends fun s₁ here =>
      adds_items.go here operator
    have right := left.continues fun s₁ here same =>
      same ▸ second (s := s₁) (same ▸ initial) here trivial _
    have stopped := right.ends fun s₁ here => adds_factors.stop here ready
    have whole := stopped.ends fun s₁ here => step_emit here _
    simpa [Expression.code, Expression.reads] using whole

/-- A pass reads a whole part of an expression where nothing goes on with it. -/
theorem reaches_level {l : Expression.Level} {e : Expression} (h : Expression.Derives l ts e)
    (initial : s.scope.names <+: names) (before : s.Yields (ts ++ us)) (stop : l.Stops us)
    (gs : List Goal) :
    Reaches (l.goal :: gs, s) gs (s.Emits ts us (e.code names))
      (e.reads.findSome? s.scope.unreadable?) := by
  cases l with
  | expression =>
    obtain ⟨noSum, noProduct⟩ := Expression.Level.stops_expression_iff.mp stop
    have whole := (reaches_part h initial before noProduct gs).ends fun s₁ here =>
      adds_items.stop here noSum
    simpa using whole
  | item =>
    have whole := (reaches_part h initial before trivial gs).ends fun s₁ here =>
      adds_factors.stop here stop
    simpa using whole
  | factor | operand => exact reaches_part h initial before trivial gs

/-! ### Parts that have been found -/

variable {s' : Pass}

theorem stops_of_peek {l : Expression.Level} (h : peek s = .ok t s')
    (stops : l.Stops s.lookahead.toList) : l.Stops [t] := by
  rcases peek_eq_ok h with ⟨ahead, _⟩ | ⟨ahead, _⟩
  · simpa [ahead] using stops
  · rw [ahead] at stops
    cases l with
    | expression | item => simp [Expression.Level.Stops, Heads] at stops
    | factor | operand => trivial

theorem lookahead_of_run_emit {i : Instruction} (h : run [.emit i] s = .ok () s') :
    s'.lookahead = s.lookahead := by
  obtain ⟨goals, u, taken, rest⟩ := run_cons_eq_ok.mp h
  cases taken
  rw [List.append_nil, run_nil] at rest
  cases rest
  rfl

/-- Behind a loop that adds parts, the next token neither goes on with a part nor adds another
one. -/
theorem Adds.stops (lower upper : Expression.Level) {operator? : Token.Kind → Option Operation}
    (adds : Adds g lower.goal operator?)
    (parts : ∀ {u v}, run [lower.goal] u = .ok () v → lower.Stops v.lookahead.toList)
    (whole : ∀ {t}, lower.Stops [t] → operator? t.kind = none → upper.Stops [t])
    (gs : List Goal) (first : ∀ u, run gs s = .ok () u → lower.Stops u.lookahead.toList)
    (h : run (gs ++ [g]) s = .ok () s') : upper.Stops s'.lookahead.toList := by
  generalize all : gs ++ [g] = goals at h
  -- The loop stays at the end of the goals, and whatever stands before it ends behind a part.
  fun_induction run goals s generalizing gs with
  | case1 s => simp at all
  | case2 s h rest goals u taken inductionHypothesis =>
    cases gs with
    | cons k gs =>
      obtain ⟨rfl, rfl⟩ := List.cons.inj all
      have before (v : Pass) (ran : run (goals ++ gs) u = .ok () v) :
          lower.Stops v.lookahead.toList :=
        first v (run_cons_eq_ok.mpr ⟨goals, u, taken, ran⟩)
      exact inductionHypothesis (goals ++ gs) before (List.append_assoc ..) h
    | nil =>
      obtain ⟨rfl, rfl⟩ := List.cons.inj all
      obtain ⟨t, v, peeked, ⟨operator, rfl, rfl⟩ | ⟨o, _, rfl, _⟩⟩ := adds.eq_ok taken
      · rw [List.append_nil, run_nil] at h
        cases h
        rw [(peek_leads peeked).1]
        exact whole (stops_of_peek peeked (first s (run_nil s))) operator
      · refine inductionHypothesis [lower.goal, .emit (.operate o)] ?_ rfl h
        intro w ran
        obtain ⟨x, found, emitted⟩ := run_append_eq_ok (a := [lower.goal]).mp ran
        rw [lookahead_of_run_emit emitted]
        exact parts found
  | case3 s g rest d u failed => cases h

/-- Where a part of an expression has been found, the next token does not go on with it. -/
theorem stops_of_run {l : Expression.Level} (h : run [l.goal] s = .ok () s') :
    l.Stops s'.lookahead.toList := by
  have item {u v : Pass} (ran : run [.item] u = .ok () v) :
      Expression.Level.item.Stops v.lookahead.toList := by
    obtain ⟨goals, w, taken, rest⟩ := run_cons_eq_ok.mp ran
    cases taken
    refine Adds.stops .factor .item adds_factors ?_ ?_ [.factor] ?_ rest
    · intros
      trivial
    · intro t _ noProduct
      exact ⟨t, [], rfl, noProduct⟩
    · intros
      trivial
  cases l with
  | factor | operand => trivial
  | item => exact item h
  | expression =>
    obtain ⟨goals, w, taken, rest⟩ := run_cons_eq_ok.mp h
    cases taken
    refine Adds.stops .item .expression adds_items item ?_ [.item] (fun _ => item) rest
    intro t noProduct noSum
    exact Expression.Level.stops_expression_iff.mpr ⟨heads_cons.mpr noSum, noProduct⟩

/-- Whatever has been found as part of an expression is one whose operands can be read, and its code
has been emitted. -/
theorem emits_of_run {l : Expression.Level} (h : run [l.goal] s = .ok () s') :
    ∃ ts e, Expression.Derives l ts e ∧ e.reads.findSome? s.scope.unreadable? = none ∧
      s.Emits ts s'.lookahead.toList (e.code s.scope.names) s' := by
  obtain ⟨ts, leads, found⟩ := run_finds h
  obtain ⟨e, derives⟩ : ∃ e, Expression.Derives l ts e := by
    cases l <;> exact findAll_singleton.mp found
  -- The same tokens stand before the pass, so it reads them, and there is only one way to end.
  have reaches := reaches_level derives (List.prefix_refl _) (leads.yields s'.yields_lookahead)
    (stops_of_run h) []
  cases violation : e.reads.findSome? s.scope.unreadable? with
  | some v =>
    rw [violation] at reaches
    obtain ⟨d, u, failed, _⟩ := reaches.run_eq_error
    rw [h] at failed
    cases failed
  | none =>
    rw [violation] at reaches
    obtain ⟨u, ran, emits⟩ := reaches.run_eq_ok
    rw [h] at ran
    cases ran
    exact ⟨ts, e, derives, violation, emits⟩

end PassM
end OnePass
