import OnePass.Proofs.Pass.Pulls
import OnePass.Proofs.Pass.Steps

/-!
Every part of the grammar comes to an end. A step takes characters or leaves lighter goals, so the
steps of a run are bounded by what is left of the text, and no goal comes up again before something
has been taken. A loop takes a token for each turn, and an expression stands in another one behind a
parenthesis that has been taken.
-/

namespace OnePass

open Relation

namespace Goal

/-- The goals that come up again as long as there is another turn. -/
def loops : List Goal := [consts, vars, statements, moreItems, moreFactors]

/-- The goals that an expression leaves, without the expressions in it. -/
def isInner : Goal → Bool
  | moreItems | item | moreFactors | factor | operand | emit _ | expect .rparen => true
  | _ => false

theorem weight_pos (g : Goal) : 0 < g.weight := by
  cases g <;> simp [weight]

end Goal

namespace PassM

open Goal

/-- So many goals are taken up, one after the other. -/
inductive Moves : Nat → List Goal × Pass → List Goal × Pass → Prop
  | none {c} : Moves 0 c c
  | next {n c c' c''} : Moves n c c' → Move c' c'' → Moves (n + 1) c c''

variable {s s' : Pass} {g : Goal} {goals gs rest : List Goal} {c c' : List Goal × Pass} {n : Nat}
  {k : Token.Kind}

/-! ### Steps are bounded -/

theorem weights_of_step (h : step g s = .ok goals s') : weights goals ≤ 13 := by
  obtain ⟨added, does, _⟩ := does_of_step h
  generalize s'.scope = scope' at does
  cases does with
  | continues continues =>
    cases continues with
    | anotherStatement begins | statement begins | assignment begins | output begins =>
      cases begins <;> simp [weights, weight]
    | _ => simp [weights, weight]
  | _ => simp [weights, weight]

/-- How many goals can be taken up, at most. -/
def potential (c : List Goal × Pass) : Nat := 13 * c.2.size + weights c.1

theorem potential_of_move (move : Move c c') : potential c' < potential c := by
  cases move with
  | @take g goals rest s s' taken =>
    have light := weights_of_step taken
    have some := g.weight_pos
    simp only [potential, weights_append, weights]
    rcases step_progress taken with smaller | ⟨same, lighter⟩ <;> omega

theorem le_potential (moves : Moves n c c') : n + potential c' ≤ potential c := by
  induction moves with
  | none => exact Nat.le_of_eq (Nat.zero_add _)
  | next _ move inductionHypothesis =>
    have less := potential_of_move move
    omega

theorem size_le (s : Pass) : s.size ≤ s.cursor.rest.length + 1 := by
  unfold Pass.size
  split
  · split <;> omega
  · omega

/-- A run goes on until no goals are left or one of them cannot be taken up. -/
theorem run_ends (goals : List Goal) (s : Pass) :
    (∃ s', ReflTransGen Move (goals, s) ([], s') ∧ run goals s = .ok () s') ∨
      ∃ g rest u d s', ReflTransGen Move (goals, s) (g :: rest, u) ∧ step g u = .error d s' ∧
        run goals s = .error d s' := by
  induction goals, s using run.induct with
  | case1 s => exact .inl ⟨s, .refl, run_nil s⟩
  | case2 s g rest goals u taken inductionHypothesis =>
    have first : Move (g :: rest, s) (goals ++ rest, u) := .take taken
    have same : run (g :: rest) s = run (goals ++ rest) u := by rw [run_cons, taken]
    rw [same]
    rcases inductionHypothesis with ⟨s', moves, ended⟩ | ⟨h, rest', v, d, s', moves, refused, failed⟩
    · exact .inl ⟨s', .head first moves, ended⟩
    · exact .inr ⟨h, rest', v, d, s', .head first moves, refused, failed⟩
  | case3 s g rest d u failed =>
    exact .inr ⟨g, rest, s, d, u, .refl, failed, by rw [run_cons, failed]⟩

/-! ### Goals that come up again -/

theorem decreases_of_moves (moves : TransGen Move c c') :
    Prod.Lex (· < ·) (· < ·) (c'.2.size, weights c'.1) (c.2.size, weights c.1) := by
  induction moves with
  | single move =>
    cases move with
    | take taken => exact step_decreases taken
  | tail _ move inductionHypothesis =>
    cases move with
    | take taken => exact (step_decreases taken).trans inductionHypothesis

/-- Before a goal comes up again, the rest of the text has become smaller. -/
theorem size_of_cycle (moves : TransGen Move ([g], s) (g :: gs, s')) : s'.size < s.size := by
  have less := decreases_of_moves moves
  simp only [Prod.lex_def, weights] at less
  omega

theorem leads_of_moves (moves : ReflTransGen Move c c') : ∃ ts, c.2.Leads ts c'.2 := by
  induction moves with
  | refl => exact ⟨[], .refl _⟩
  | tail _ move inductionHypothesis =>
    obtain ⟨ts, leads⟩ := inductionHypothesis
    cases move with
    | take taken =>
      obtain ⟨us, later, _⟩ := step_refines taken
      exact ⟨ts ++ us, leads.trans later⟩

/-! ### Loops -/

/-- A loop takes nothing and ends, or takes a token and comes up again. -/
def Turns (g : Goal) (goals : List Goal) (s s' : Pass) : Prop :=
  goals = [] ∧ s.Leads [] s' ∨
    ∃ turn t, goals = turn ++ [g] ∧ t.kind ≠ .eof ∧ s.Leads [t] s'

theorem assignment_takes (h : assignment s = .ok goals s') :
    ∃ t, t.kind ≠ .eof ∧ s.Leads [t] s' := by
  simp only [assignment, bind_eq_ok, pure_eq_ok] at h
  obtain ⟨t, u, found, _, _, resolved, _, rfl⟩ := h
  obtain ⟨kind, leads⟩ := expect_leads found
  rw [assignable_ok resolved]
  exact ⟨t, by simp [kind], leads⟩

theorem output_takes (h : output s = .ok goals s') : ∃ t, t.kind ≠ .eof ∧ s.Leads [t] s' := by
  simp only [output, bind_eq_ok, pure_eq_ok] at h
  obtain ⟨t, _, found, _, rfl⟩ := h
  obtain ⟨kind, leads⟩ := expect_leads found
  exact ⟨t, by simp [kind], leads⟩

theorem statement_takes (h : statement s = .ok goals s') :
    ∃ t, t.kind ≠ .eof ∧ s.Leads [t] s' := by
  obtain ⟨t, u, peeked, h⟩ := bind_eq_ok.mp h
  obtain ⟨held, first⟩ := peek_leads peeked
  cases kind : t.kind <;> simp only [kind] at h
  case ident =>
    obtain ⟨v, more, later⟩ := assignment_takes h
    exact ⟨v, more, first.trans later⟩
  case printWord =>
    obtain ⟨v, more, later⟩ := output_takes h
    exact ⟨v, more, first.trans later⟩
  case semicolon =>
    obtain ⟨_, _, dropped, h⟩ := bind_eq_ok.mp h
    obtain ⟨_, rfl⟩ := pure_eq_ok.mp h
    exact ⟨t, by simp [kind], first.trans (drop_leads held dropped)⟩
  all_goals
    obtain ⟨_, _, _, refused⟩ := bind_eq_ok.mp h
    exact absurd refused refuse_ne_ok

theorem Adds.turns {part : Goal} {operator? : Token.Kind → Option Operation}
    (adds : Adds g part operator?) (more : operator? .eof = none)
    (h : step g s = .ok goals s') : Turns g goals s s' := by
  obtain ⟨t, u, peeked, turn⟩ := adds.eq_ok h
  obtain ⟨held, first⟩ := peek_leads peeked
  rcases turn with ⟨_, rfl, rfl⟩ | ⟨o, operator, rfl, dropped⟩
  · exact .inl ⟨rfl, first⟩
  · have other : t.kind ≠ .eof := by
      intro kind
      rw [kind, more] at operator
      cases operator
    exact .inr ⟨[part, .emit (.operate o)], t, rfl, other, first.trans (drop_leads held dropped)⟩

theorem Repeats.turns {first : Goal} (repeats : Repeats g first k) (more : k ≠ .eof)
    (h : step g s = .ok goals s') : Turns g goals s s' := by
  rcases repeats.eq_ok h with ⟨looked, rfl⟩ | ⟨t, looked, rfl⟩
  · exact .inl ⟨rfl, (nextIf_leads looked).2⟩
  · obtain ⟨kind, leads⟩ := nextIf_leads looked
    exact .inr ⟨[first], t, rfl, by rw [kind t rfl]; exact more, leads⟩

theorem turns_of_step (loop : g ∈ loops) (h : step g s = .ok goals s') : Turns g goals s s' := by
  simp only [loops, List.mem_cons, List.not_mem_nil, or_false] at loop
  rcases loop with rfl | rfl | rfl | rfl | rfl
  · exact repeats_consts.turns (by decide) h
  · exact repeats_vars.turns (by decide) h
  · obtain ⟨t, u, peeked, h⟩ := bind_eq_ok.mp h
    obtain ⟨_, first⟩ := peek_leads peeked
    split at h
    · obtain ⟨turn, v, found, h⟩ := bind_eq_ok.mp h
      obtain ⟨rfl, rfl⟩ := pure_eq_ok.mp h
      obtain ⟨w, more, later⟩ := statement_takes found
      exact .inr ⟨turn, w, rfl, more, first.trans later⟩
    · obtain ⟨rfl, rfl⟩ := pure_eq_ok.mp h
      exact .inl ⟨rfl, first⟩
  · exact adds_items.turns rfl h
  · exact adds_factors.turns rfl h

/-! ### Expressions in expressions -/

theorem group_of_operand (h : step .operand s = .ok (.expression :: gs) s') :
    ∃ t, t.kind = .lparen ∧ s.Leads [t] s' := by
  obtain ⟨t, u, peeked, h⟩ := bind_eq_ok.mp h
  obtain ⟨held, first⟩ := peek_leads peeked
  cases kind : t.kind <;> simp only [kind] at h
  case lparen =>
    obtain ⟨_, _, dropped, h⟩ := bind_eq_ok.mp h
    obtain ⟨_, rfl⟩ := pure_eq_ok.mp h
    exact ⟨t, kind, first.trans (drop_leads held dropped)⟩
  case ident =>
    simp only [bind_eq_ok, pure_eq_ok] at h
    obtain ⟨_, _, _, _, _, _, _, _, _, none, _⟩ := h
    cases none
  case uint =>
    simp only [bind_eq_ok, pure_eq_ok] at h
    obtain ⟨_, _, _, _, _, _, none, _⟩ := h
    cases none
  all_goals exact absurd h refuse_ne_ok

/-- Within an expression, only a parenthesis leads to another one. -/
theorem inner_of_step (inner : g.isInner = true ∨ g = .expression)
    (h : step g s = .ok goals s') :
    (∀ g' ∈ goals, g'.isInner = true) ∨
      goals = [.expression, .expect .rparen] ∧ ∃ t, t.kind = .lparen ∧ s.Leads [t] s' := by
  have group : goals = [.expression, .expect .rparen] → g = .operand →
      ∃ t, t.kind = .lparen ∧ s.Leads [t] s' := by
    rintro rfl rfl
    exact group_of_operand h
  obtain ⟨added, does, _⟩ := does_of_step h
  generalize s'.scope = scope' at does
  cases does with
  | continues continues =>
    cases continues with
    | group => exact .inr ⟨rfl, group rfl rfl⟩
    | _ => first | (simp [isInner] at inner; done) | exact .inl (by simp [isInner])
  | _ => first | (simp [isInner] at inner; done) | exact .inl (by simp [isInner])

/-- What is left of an expression is inner, but for another one that may stand first, behind a
parenthesis. -/
def Nests (s : Pass) (c : List Goal × Pass) : Prop :=
  (∀ g ∈ c.1, g.isInner = true) ∨
    ∃ gs ts t, c.1 = .expression :: gs ∧ (∀ g ∈ gs, g.isInner = true) ∧ t.kind = .lparen ∧
      s.Leads (ts ++ [t]) c.2

theorem nests_of_step {u : Pass} {ts : List Token} (leads : s.Leads ts u)
    (inner : g.isInner = true ∨ g = .expression) (others : ∀ g ∈ rest, g.isInner = true)
    (taken : step g u = .ok goals s') : Nests s (goals ++ rest, s') := by
  rcases inner_of_step inner taken with all | ⟨rfl, t, kind, later⟩
  · exact .inl (List.forall_mem_append.mpr ⟨all, others⟩)
  · refine .inr ⟨.expect .rparen :: rest, ts, t, rfl, ?_, kind, leads.trans later⟩
    exact List.forall_mem_cons.mpr ⟨rfl, others⟩

theorem nests_of_moves (moves : TransGen Move ([.expression], s) c) : Nests s c := by
  induction moves with
  | single move =>
    cases move with
    | take taken => exact nests_of_step (.refl s) (.inr rfl) (List.forall_mem_nil _) taken
  | tail moves move inductionHypothesis =>
    obtain ⟨ts, leads⟩ := leads_of_moves moves.to_reflTransGen
    cases move with
    | take taken =>
      rcases inductionHypothesis with inner | ⟨gs, _, _, same, inner, _, _⟩
      · obtain ⟨first, others⟩ := List.forall_mem_cons.mp inner
        exact nests_of_step leads (.inl first) others taken
      · obtain ⟨rfl, rfl⟩ := List.cons.inj same
        exact nests_of_step leads (.inr rfl) inner taken

/-- An expression comes up in another one behind a parenthesis that has been taken. -/
theorem paren_of_moves (moves : TransGen Move ([.expression], s) (.expression :: gs, s')) :
    ∃ ts t, t.kind = .lparen ∧ s.Leads (ts ++ [t]) s' := by
  rcases nests_of_moves moves with inner | ⟨_, ts, t, _, _, kind, leads⟩
  · cases inner .expression List.mem_cons_self
  · exact ⟨ts, t, kind, leads⟩

/-! ### Everything comes to an end -/

/-- From whatever state, whatever is done scans no more often than there are characters left, and
once, whether it succeeds or fails. A run takes up a bounded number of goals until none are left or
one is refused. An expression stands in another one behind a parenthesis that has been taken, a loop
takes a token for each turn, and no goal comes up again before the rest of the text is smaller. -/
theorem procedures_end (s : Pass) :
    (∀ a : Action,
      match act a s with
      | .ok _ s' | .error _ s' =>
        ∃ n, s.Pulls n s' ∧ (∀ m, s.Pulls m s' → m = n) ∧ n ≤ s.cursor.rest.length + 1) ∧
    (∀ goals,
      (∀ n c, Moves n (goals, s) c → n ≤ 13 * (s.cursor.rest.length + 1) + weights goals) ∧
      ((∃ s', ReflTransGen Move (goals, s) ([], s') ∧ run goals s = .ok () s') ∨
        ∃ g rest u d s', ReflTransGen Move (goals, s) (g :: rest, u) ∧ step g u = .error d s' ∧
          run goals s = .error d s')) ∧
    (∀ gs s', TransGen Move ([.expression], s) (.expression :: gs, s') →
      ∃ ts t, t.kind = .lparen ∧ s.Leads (ts ++ [t]) s') ∧
    (∀ g ∈ loops, ∀ goals s', step g s = .ok goals s' → Turns g goals s s') ∧
    ∀ g gs s', TransGen Move ([g], s) (g :: gs, s') → s'.size < s.size := by
  refine ⟨fun a => ?_, fun goals => ⟨fun n c moves => ?_, run_ends goals s⟩,
    fun gs s' => paren_of_moves, fun g loop goals s' => turns_of_step loop,
    fun g gs s' => size_of_cycle⟩
  · have bounded := bounded_act a s
    have most := s.reserve_le
    unfold Bounded at bounded
    cases ran : act a s with
    | ok _ s' | error _ s' =>
      rw [ran] at bounded
      obtain ⟨n, pulls, few⟩ := bounded
      exact ⟨n, pulls, fun m again => again.unique pulls, by omega⟩
  · have bound := le_potential moves
    have small := size_le s
    simp only [potential] at bound
    omega

end PassM
end OnePass
