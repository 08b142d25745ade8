import OnePass.Proofs.Pass.Failing
import OnePass.Proofs.Pass.Lookahead

/-!
Semicolons. What a declaration or a statement says takes effect at its semicolon, and a step that
fails takes none. So where a loop over declarations fails, whatever it has taken behind the last
declaration that took effect is a declaration without its end.
-/

namespace OnePass

/-- Between two states tokens have been taken, and no semicolon is among them. Texts that are no
tokens may have been passed over. -/
def Pass.Spares (s s' : Pass) : Prop := ∃ ts, s.Took ts s' ∧ ∀ t ∈ ts, t.kind ≠ .semicolon

namespace Pass.Spares

variable {s s' s'' : Pass} {ts : List Token}

theorem of_leads (leads : s.Leads ts s') (others : ∀ t ∈ ts, t.kind ≠ .semicolon) : s.Spares s' :=
  ⟨ts, leads.took, others⟩

theorem refl (s : Pass) : s.Spares s := of_leads (.refl s) (by simp)

theorem trans (first : s.Spares s') (second : s'.Spares s'') : s.Spares s'' := by
  obtain ⟨ts, took, others⟩ := first
  obtain ⟨us, took', others'⟩ := second
  refine ⟨ts ++ us, took.trans took', ?_⟩
  rw [List.forall_mem_append]
  exact ⟨others, others'⟩

/-- Behind tokens that are no semicolons nothing else is taken. -/
theorem after (leads : s.Leads ts s') (others : ∀ t ∈ ts, t.kind ≠ .semicolon)
    (later : s'.Spares s'') : s.Spares s'' :=
  (of_leads leads others).trans later

end Pass.Spares

namespace PassM

open Goal

variable {s s' : Pass} {t : Token} {d : Diagnostic} {k : Token.Kind}

/-! ### Operations that fail -/

theorem lookUp_spares {l : Lookup} (h : lookUp l s = .error d s') : s.Spares s' := by
  have took := took_of_lookUp l s
  rw [h] at took
  exact ⟨[], took, by simp⟩

theorem checkNew_error (h : checkNew t s = .error d s') : s' = s := by
  rw [checkNew, bind_of_ok (find?_eq_ok ..)] at h
  cases found : s.scope.find? t.spelling <;> rw [found] at h <;> cases h
  rfl

theorem resolve_error (h : resolve t s = .error d s') : s' = s := by
  rw [resolve, bind_of_ok (find?_eq_ok ..)] at h
  cases found : s.scope.find? t.spelling <;> rw [found] at h <;> cases h
  rfl

theorem assignable_error (h : assignable t s = .error d s') : s' = s := by
  rcases bind_eq_error.mp h with unknown | ⟨e, u, resolved, refused⟩
  · exact resolve_error unknown
  · rw [resolve_ok resolved] at refused
    split at refused <;> cases refused
    rfl

theorem readable_error (h : readable t s = .error d s') : s' = s := by
  rcases bind_eq_error.mp h with unknown | ⟨e, u, resolved, refused⟩
  · exact resolve_error unknown
  · rw [resolve_ok resolved] at refused
    split at refused <;> cases refused
    rfl

theorem constantValue_spares (h : constantValue s = .error d s') : s.Spares s' := by
  rcases bind_eq_error.mp h with refused | ⟨minus, u, signed, h⟩
  · exact lookUp_spares (l := .nextIf .minus) refused
  · obtain ⟨minusKind, leads⟩ := nextIf_leads signed
    apply Pass.Spares.after leads (by simp +contextual [minusKind])
    cases minus with
    | some t =>
      exact lookUp_spares (l := .expect .uint) (bind_pure_eq_error.mp h)
    | none =>
      rcases bind_eq_error.mp h with refused | ⟨plus, v, looked, h⟩
      · exact lookUp_spares (l := .nextIf .plus) refused
      · obtain ⟨plusKind, leads⟩ := nextIf_leads looked
        apply Pass.Spares.after leads (by simp +contextual [plusKind])
        exact lookUp_spares (l := .expect .uint) (bind_pure_eq_error.mp h)

theorem introduced_spares {next : Token → List Goal}
    (h : (do
      let name ← expect .ident
      checkNew name
      return next name : PassM (List Goal)) s = .error d s') : s.Spares s' := by
  rcases bind_eq_error.mp h with refused | ⟨t, u, found, h⟩
  · exact lookUp_spares (l := .expect .ident) refused
  · obtain ⟨kind, leads⟩ := expect_leads found
    rw [checkNew_error (bind_pure_eq_error.mp h)]
    exact .of_leads leads (by simp [kind])

theorem assignment_spares (h : assignment s = .error d s') : s.Spares s' := by
  rcases bind_eq_error.mp h with refused | ⟨t, u, found, h⟩
  · exact lookUp_spares (l := .expect .ident) refused
  · obtain ⟨kind, leads⟩ := expect_leads found
    rw [assignable_error (bind_pure_eq_error.mp h)]
    exact .of_leads leads (by simp [kind])

/-- A token that begins no statement is taken, but a semicolon is a statement. -/
theorem statement_spares (h : statement s = .error d s') : s.Spares s' := by
  rcases bind_eq_error.mp h with refused | ⟨t, u, peeked, h⟩
  · exact lookUp_spares (l := .peek) refused
  · obtain ⟨held, leads⟩ := peek_leads peeked
    apply Pass.Spares.after leads (by simp)
    cases kind : t.kind <;> simp only [kind] at h
    case ident => exact assignment_spares h
    case printWord =>
      exact lookUp_spares (l := .expect .printWord) (bind_pure_eq_error.mp h)
    case semicolon => cases h
    all_goals
      rcases bind_eq_error.mp h with failed | ⟨_, v, dropped, refused⟩
      · cases failed
      · cases refused
        exact .of_leads (drop_leads held dropped) (by simp [kind])

theorem operand_spares (h : step .operand s = .error d s') : s.Spares s' := by
  rcases bind_eq_error.mp h with refused | ⟨t, u, peeked, h⟩
  · exact lookUp_spares (l := .peek) refused
  · obtain ⟨held, leads⟩ := peek_leads peeked
    apply Pass.Spares.after leads (by simp)
    cases kind : t.kind <;> simp only [kind] at h
    case ident =>
      rcases bind_eq_error.mp h with failed | ⟨_, v, dropped, h⟩
      · cases failed
      · rcases bind_eq_error.mp h with refused | ⟨_, _, _, failed⟩
        · rw [readable_error refused]
          exact .of_leads (drop_leads held dropped) (by simp [kind])
        · cases failed
    case uint => cases h
    case lparen => cases h
    all_goals
      cases h
      exact .of_leads (.refl _) (List.forall_mem_nil _)

theorem Adds.spares {g part : Goal} {operator? : Token.Kind → Option Operation}
    (adds : Adds g part operator?) (h : step g s = .error d s') : s.Spares s' := by
  exact lookUp_spares (l := .peek) (adds.eq_error h)

theorem Repeats.spares {g first : Goal} (repeats : Repeats g first k)
    (h : step g s = .error d s') : s.Spares s' := by
  exact lookUp_spares (l := .nextIf k) (repeats.eq_error h)

/-- A step that fails takes no semicolon: a declaration or an assignment fails only where its
semicolon is missing. -/
theorem spares_of_step_error {g : Goal} (fits : g.Fits s.scope) (h : step g s = .error d s') :
    s.Spares s' := by
  cases g
  case expect k =>
    exact lookUp_spares (l := .expect k) (bind_pure_eq_error.mp h)
  case emit i => cases h
  case consts => exact repeats_consts.spares h
  case vars => exact repeats_vars.spares h
  case constantName | variableName => exact introduced_spares h
  case constantValue name =>
    exact constantValue_spares (bind_pure_eq_error.mp h)
  case variableValue name =>
    rcases bind_eq_error.mp h with refused | ⟨_, _, _, h⟩
    · exact lookUp_spares (l := .nextIf .equals) refused
    · split at h <;> cases h
  case constantEnd | variableEnd | assignmentEnd =>
    exact lookUp_spares (l := .expect .semicolon) (expect_of_completes fits rfl h)
  case statements =>
    rcases bind_eq_error.mp h with refused | ⟨t, u, peeked, h⟩
    · exact lookUp_spares (l := .peek) refused
    · apply Pass.Spares.after (peek_leads peeked).2 (by simp)
      split at h
      · exact statement_spares (bind_pure_eq_error.mp h)
      · cases h
  case statement | assignment | output => exact fits.elim
  case expression | item => cases h
  case moreItems => exact adds_items.spares h
  case moreFactors => exact adds_factors.spares h
  case factor =>
    rcases bind_eq_error.mp h with refused | ⟨minus, u, signed, h⟩
    · exact lookUp_spares (l := .nextIf .minus) refused
    · obtain ⟨minusKind, leads⟩ := nextIf_leads signed
      apply Pass.Spares.after leads (by simp +contextual [minusKind])
      split at h
      · cases h
      · exact lookUp_spares (l := .nextIf .plus) (bind_pure_eq_error.mp h)
  case operand => exact operand_spares h

/-! ### Loops -/

/-- What each step of a loop keeps up holds where the loop ends. Where it fails, it held before the
step that fails, and this step takes no semicolon and changes neither names nor code. -/
theorem run_of_loop {loop : Goal} {good : List Goal → Pass → Prop} {left : List Goal}
    (kept : ∀ {left g rest goals t t'}, good left t → Settled t.scope (left ++ [loop]) →
      left ++ [loop] = g :: rest → step g t = .ok goals t' →
        (∃ left', goals ++ rest = left' ++ [loop] ∧ good left' t') ∨
          goals ++ rest = [] ∧ good [] t')
    (begun : good left s) (settled : Settled s.scope (left ++ [loop])) :
    match run (left ++ [loop]) s with
    | .ok _ s' => good [] s'
    | .error _ s' => ∃ left t, good left t ∧ t.Spares s' ∧ s'.scope = t.scope ∧ s'.code = t.code := by
  generalize all : left ++ [loop] = goals at settled
  -- The loop stays at the end of the goals, so the run ends only where it is taken up last.
  fun_induction run goals s generalizing left with
  | case1 s => simp at all
  | case2 s g rest goals t taken inductionHypothesis =>
    have later : Settled t.scope (goals ++ rest) := settled_of_step settled taken
    rcases kept begun (all ▸ settled) all taken with ⟨left', whole, good'⟩ | ⟨none, good'⟩
    · exact inductionHypothesis good' whole.symm later
    · rw [none, run_nil]
      exact good'
  | case3 s g rest d t failed =>
    exact ⟨left, s, begun, spares_of_step_error (settled.fits g List.mem_cons_self) failed,
      scope_of_step_error failed, (coded_of_step_error failed).1⟩

end PassM
end OnePass
