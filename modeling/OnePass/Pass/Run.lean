import OnePass.Pass.Goal

/-!
Working off goals, one step at a time. Each step makes the rest of the input smaller or leaves
lighter goals, so every run ends.
-/

namespace OnePass

namespace Goal

/-- How many steps a goal can take without reading a token, at most. -/
def weight : Goal → Nat
  | variableValue _ => 2
  | expression => 8
  | item => 5
  | factor => 3
  | _ => 1

def weights : List Goal → Nat
  | [] => 0
  | g :: goals => g.weight + weights goals

end Goal

namespace PassM

open Goal

theorem constantValue_ok {s s' : Pass} {n : Int} (h : constantValue s = .ok n s') :
    s'.size < s.size := by
  simp only [constantValue, bind_eq_ok] at h
  obtain ⟨_, u, signed, h⟩ := h
  have first := (nextIf_ok signed).1
  split at h
  · simp only [bind_eq_ok, pure_eq_ok] at h
    obtain ⟨_, _, number, _, rfl⟩ := h
    exact Nat.lt_of_lt_of_le ((expect_ok number).2.2 (by decide)) first
  · simp only [bind_eq_ok, pure_eq_ok] at h
    obtain ⟨_, v, plus, _, _, number, _, rfl⟩ := h
    have second := (nextIf_ok plus).1
    have third := (expect_ok number).2.2 (by decide)
    omega

theorem assignable_ok {s s' : Pass} {name : Token} {e : Entry} (h : assignable name s = .ok e s') :
    s' = s := by
  simp only [assignable, bind_eq_ok] at h
  obtain ⟨_, _, resolved, h⟩ := h
  split at h
  · exact absurd h refuse_ne_ok
  · rw [← (pure_eq_ok.1 h).2, resolve_ok resolved]

theorem readable_ok {s s' : Pass} {name : Token} {e : Entry} (h : readable name s = .ok e s') :
    s' = s := by
  simp only [readable, bind_eq_ok] at h
  obtain ⟨_, _, resolved, h⟩ := h
  split at h
  · rw [← (pure_eq_ok.1 h).2, resolve_ok resolved]
  · exact absurd h refuse_ne_ok

theorem assignment_ok {s s' : Pass} {goals : List Goal} (h : assignment s = .ok goals s') :
    s'.size < s.size := by
  simp only [assignment, bind_eq_ok, pure_eq_ok] at h
  obtain ⟨_, _, found, _, _, resolved, _, rfl⟩ := h
  rw [assignable_ok resolved]
  exact (expect_ok found).2.2 (by decide)

theorem output_ok {s s' : Pass} {goals : List Goal} (h : output s = .ok goals s') :
    s'.size < s.size := by
  simp only [output, bind_eq_ok, pure_eq_ok] at h
  obtain ⟨_, _, found, _, rfl⟩ := h
  exact (expect_ok found).2.2 (by decide)

theorem statement_ok {s s' : Pass} {goals : List Goal} (h : statement s = .ok goals s') :
    s'.size < s.size := by
  simp only [statement, bind_eq_ok] at h
  obtain ⟨t, u, peeked, h⟩ := h
  obtain ⟨before, ahead⟩ := peek_ok peeked
  cases kind : t.kind <;> simp only [kind] at h
  case ident => exact Nat.lt_of_lt_of_le (assignment_ok h) before
  case printWord => exact Nat.lt_of_lt_of_le (output_ok h) before
  case semicolon =>
    simp only [bind_eq_ok, pure_eq_ok] at h
    obtain ⟨_, _, dropped, _, rfl⟩ := h
    exact Nat.lt_of_lt_of_le ((size_drop ahead dropped).2 (by simp [kind])) before
  all_goals
    obtain ⟨_, _, _, refused⟩ := bind_eq_ok.1 h
    exact absurd refused refuse_ne_ok

/-- A step makes the rest of the input smaller, or keeps it and leaves lighter goals. -/
theorem step_progress {g : Goal} {goals : List Goal} {s s' : Pass}
    (h : step g s = .ok goals s') :
    s'.size < s.size ∨ s'.size ≤ s.size ∧ weights goals < g.weight := by
  cases g <;> simp only [step] at h
  case expect k =>
    simp only [bind_eq_ok, pure_eq_ok] at h
    obtain ⟨_, _, found, rfl, rfl⟩ := h
    exact .inr ⟨(expect_ok found).2.1, by simp [weights, weight]⟩
  case emit i =>
    simp only [bind_eq_ok, pure_eq_ok] at h
    obtain ⟨_, _, emitted, rfl, rfl⟩ := h
    exact .inr ⟨Nat.le_of_eq (size_emit emitted), by simp [weights, weight]⟩
  case consts | vars =>
    obtain ⟨_, _, looked, h⟩ := bind_eq_ok.1 h
    obtain ⟨before, strict⟩ := nextIf_ok looked
    split at h
    next found =>
      obtain ⟨_, rfl⟩ := pure_eq_ok.1 h
      exact .inl (strict found (by decide))
    next =>
      obtain ⟨rfl, rfl⟩ := pure_eq_ok.1 h
      exact .inr ⟨before, by decide⟩
  case constantName | variableName =>
    simp only [bind_eq_ok, pure_eq_ok] at h
    obtain ⟨_, _, found, _, _, isNew, _, rfl⟩ := h
    rw [checkNew_ok isNew]
    exact .inl ((expect_ok found).2.2 (by decide))
  case constantValue name =>
    simp only [bind_eq_ok, pure_eq_ok] at h
    obtain ⟨_, _, found, _, rfl⟩ := h
    exact .inl (constantValue_ok found)
  case constantEnd name value =>
    simp only [bind_eq_ok, pure_eq_ok] at h
    obtain ⟨_, _, found, _, _, declared, _, _, emitted, _, rfl⟩ := h
    rw [size_emit emitted, size_declare declared]
    exact .inl ((expect_ok found).2.2 (by decide))
  case variableValue name =>
    obtain ⟨_, _, looked, h⟩ := bind_eq_ok.1 h
    obtain ⟨before, strict⟩ := nextIf_ok looked
    split at h
    next found =>
      obtain ⟨_, rfl⟩ := pure_eq_ok.1 h
      exact .inl (strict found (by decide))
    next =>
      obtain ⟨rfl, rfl⟩ := pure_eq_ok.1 h
      exact .inr ⟨before, by simp [weights, weight]⟩
  case variableEnd name hasValue =>
    simp only [bind_eq_ok] at h
    obtain ⟨_, _, found, _, _, declared, h⟩ := h
    have shorter := (expect_ok found).2.2 (by decide)
    rw [← size_declare declared] at shorter
    split at h
    · simp only [bind_eq_ok, pure_eq_ok] at h
      obtain ⟨_, _, stored, _, rfl⟩ := h
      exact .inl (size_storeFirst stored ▸ shorter)
    · exact .inl ((pure_eq_ok.1 h).2 ▸ shorter)
  case statements =>
    obtain ⟨t, _, peeked, h⟩ := bind_eq_ok.1 h
    obtain ⟨before, ahead⟩ := peek_ok peeked
    split at h
    · simp only [bind_eq_ok, pure_eq_ok] at h
      obtain ⟨_, _, found, _, rfl⟩ := h
      exact .inl (Nat.lt_of_lt_of_le (statement_ok found) before)
    · obtain ⟨rfl, rfl⟩ := pure_eq_ok.1 h
      exact .inr ⟨before, by decide⟩
  case statement => exact .inl (statement_ok h)
  case assignment => exact .inl (assignment_ok h)
  case assignmentEnd name target =>
    obtain ⟨_, _, found, h⟩ := bind_eq_ok.1 h
    have shorter := (expect_ok found).2.2 (by decide)
    split at h
    · simp only [bind_eq_ok, pure_eq_ok] at h
      obtain ⟨_, _, emitted, _, rfl⟩ := h
      exact .inl (size_emit emitted ▸ shorter)
    · simp only [bind_eq_ok, pure_eq_ok] at h
      obtain ⟨_, _, marked, _, _, stored, _, rfl⟩ := h
      rw [size_storeFirst stored, size_markInitialized marked]
      exact .inl shorter
  case output => exact .inl (output_ok h)
  case expression | item =>
    obtain ⟨rfl, rfl⟩ := pure_eq_ok.1 h
    exact .inr ⟨Nat.le_refl _, by decide⟩
  case moreItems =>
    obtain ⟨t, _, peeked, h⟩ := bind_eq_ok.1 h
    obtain ⟨before, ahead⟩ := peek_ok peeked
    cases operator : t.kind.additive? <;> simp only [operator] at h
    case some o =>
      simp only [bind_eq_ok, pure_eq_ok] at h
      obtain ⟨_, _, dropped, _, rfl⟩ := h
      have strict := (size_drop ahead dropped).2 (Token.Kind.ne_eof_of_additive? operator)
      exact .inl (Nat.lt_of_lt_of_le strict before)
    case none =>
      obtain ⟨rfl, rfl⟩ := pure_eq_ok.1 h
      exact .inr ⟨before, by decide⟩
  case moreFactors =>
    obtain ⟨t, _, peeked, h⟩ := bind_eq_ok.1 h
    obtain ⟨before, ahead⟩ := peek_ok peeked
    cases operator : t.kind.multiplicative? <;> simp only [operator] at h
    case some o =>
      simp only [bind_eq_ok, pure_eq_ok] at h
      obtain ⟨_, _, dropped, _, rfl⟩ := h
      have strict := (size_drop ahead dropped).2 (Token.Kind.ne_eof_of_multiplicative? operator)
      exact .inl (Nat.lt_of_lt_of_le strict before)
    case none =>
      obtain ⟨rfl, rfl⟩ := pure_eq_ok.1 h
      exact .inr ⟨before, by decide⟩
  case factor =>
    obtain ⟨_, _, signed, h⟩ := bind_eq_ok.1 h
    obtain ⟨before, strict⟩ := nextIf_ok signed
    split at h
    next found =>
      simp only [bind_eq_ok, pure_eq_ok] at h
      obtain ⟨_, _, emitted, _, rfl⟩ := h
      exact .inl (size_emit emitted ▸ strict found (by decide))
    next =>
      simp only [bind_eq_ok, pure_eq_ok] at h
      obtain ⟨_, _, plus, rfl, rfl⟩ := h
      exact .inr ⟨Nat.le_trans (nextIf_ok plus).1 before, by decide⟩
  case operand =>
    obtain ⟨t, _, peeked, h⟩ := bind_eq_ok.1 h
    obtain ⟨before, ahead⟩ := peek_ok peeked
    cases kind : t.kind <;> simp only [kind] at h
    case ident =>
      simp only [bind_eq_ok, pure_eq_ok] at h
      obtain ⟨_, _, dropped, _, _, resolved, _, _, emitted, _, rfl⟩ := h
      rw [size_emit emitted, readable_ok resolved]
      exact .inl (Nat.lt_of_lt_of_le ((size_drop ahead dropped).2 (by simp [kind])) before)
    case uint =>
      simp only [bind_eq_ok, pure_eq_ok] at h
      obtain ⟨_, _, dropped, _, _, emitted, _, rfl⟩ := h
      rw [size_emit emitted]
      exact .inl (Nat.lt_of_lt_of_le ((size_drop ahead dropped).2 (by simp [kind])) before)
    case lparen =>
      simp only [bind_eq_ok, pure_eq_ok] at h
      obtain ⟨_, _, dropped, _, rfl⟩ := h
      exact .inl (Nat.lt_of_lt_of_le ((size_drop ahead dropped).2 (by simp [kind])) before)
    all_goals exact absurd h refuse_ne_ok

@[simp]
theorem weights_append (a b : List Goal) : weights (a ++ b) = weights a + weights b := by
  induction a with
  | nil => simp [weights]
  | cons g a inductionHypothesis => simp [weights, inductionHypothesis, Nat.add_assoc]

/-- A step leaves less to do, whatever other goals there are. -/
theorem step_decreases {g : Goal} {goals rest : List Goal} {s s' : Pass}
    (h : step g s = .ok goals s') :
    Prod.Lex (· < ·) (· < ·) (s'.size, weights (goals ++ rest)) (s.size, weights (g :: rest)) := by
  rw [Prod.lex_def, weights_append]
  rcases step_progress h with smaller | ⟨same, lighter⟩
  · exact .inl smaller
  · simp only [weights] at lighter ⊢
    omega

/-- Work off goals, the first one first. -/
def run (goals : List Goal) (s : Pass) : EStateM.Result Diagnostic Pass Unit :=
  match goals with
  | [] => .ok () s
  | g :: rest =>
    match _taken : step g s with
    | .ok goals s' => run (goals ++ rest) s'
    | .error d s' => .error d s'
termination_by (s.size, weights goals)
decreasing_by
  exact step_decreases _taken

@[simp]
theorem run_nil (s : Pass) : run [] s = .ok () s := by
  rw [run]

theorem run_cons (g : Goal) (rest : List Goal) (s : Pass) :
    run (g :: rest) s =
      match step g s with
      | .ok goals s' => run (goals ++ rest) s'
      | .error d s' => .error d s' := by
  rw [run]
  split <;> simp_all

/-- Goals that follow others are worked off from the state that those lead to. -/
theorem run_append (a b : List Goal) (s : Pass) :
    run (a ++ b) s =
      match run a s with
      | .ok _ s' => run b s'
      | .error d s' => .error d s' := by
  fun_induction run a s with
  | case1 => simp
  | case2 s g rest goals s' taken inductionHypothesis =>
    rw [List.cons_append, run_cons, taken]
    simpa using inductionHypothesis
  | case3 s g rest d s' taken =>
    rw [List.cons_append, run_cons, taken]

theorem run_cons_eq_ok {g : Goal} {rest : List Goal} {s s' : Pass} :
    run (g :: rest) s = .ok () s' ↔
      ∃ goals t, step g s = .ok goals t ∧ run (goals ++ rest) t = .ok () s' := by
  rw [run_cons]
  cases step g s <;> simp [and_assoc]

theorem run_append_eq_ok {a b : List Goal} {s s' : Pass} :
    run (a ++ b) s = .ok () s' ↔ ∃ t, run a s = .ok () t ∧ run b t = .ok () s' := by
  rw [run_append]
  cases run a s <;> simp

/-- Pass over a whole program. -/
def program : PassM Unit := do
  run Goal.program
  modify fun s =>
    { s with log := s.log.push (.analysed s.cursor.file s.scope.size s.code.size) }

end PassM
end OnePass
