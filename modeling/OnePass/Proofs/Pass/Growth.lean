import OnePass.Proofs.Pass.Causes
import OnePass.Proofs.Pass.Constants
import OnePass.Proofs.Pass.Heights
import OnePass.Proofs.Pass.Variables

/-!
What is left of whatever is done with a pass, and above all of what fails. Code and names only grow,
but for names that receive values. An assignment that fails has changed no names, and declarations
leave the names of those that have been completed.
-/

namespace OnePass

/-- Names go on from other ones: those keep their slots and all that is known of them, but that
names without a value may have received one. -/
def Scope.Extends (s s' : Scope) : Prop :=
  ∀ (slot : Nat) (d : Declaration), s.declarations[slot]? = some d →
    s'.declarations[slot]? = some d ∨ s'.declarations[slot]? = some d.initialized

namespace Scope.Extends

variable {s s' s'' : Scope} {d : Declaration}

theorem refl (s : Scope) : s.Extends s := fun _ _ there => .inl there

theorem trans (first : s.Extends s') (second : s'.Extends s'') : s.Extends s'' := by
  intro slot d there
  rcases first slot d there with same | valued
  · exact second slot d same
  · exact .inr ((or_self_iff).mp (second slot d.initialized valued))

theorem of_declare (declared : s.declare d = .ok s') : s.Extends s' := by
  intro slot d there
  obtain ⟨bound, _⟩ := List.getElem?_eq_some_iff.mp there
  rw [declarations_of_declare declared, List.getElem?_append_left bound]
  exact .inl there

theorem withValue (s : Scope) (name : String) : s.Extends (s.withValue name) := by
  intro slot d there
  simp only [Scope.withValue, List.getElem?_map, there, Option.map_some]
  split <;> simp

end Scope.Extends

/-- Code and names have grown only. -/
structure Pass.Appends (s s' : Pass) : Prop where
  code : s.code.toList <+: s'.code.toList
  scope : s.scope.Extends s'.scope

namespace Pass.Appends

variable {s s' s'' : Pass}

theorem of_same (scope : s'.scope = s.scope) (code : s'.code = s.code) : s.Appends s' :=
  ⟨by rw [code], scope ▸ .refl _⟩

theorem trans (first : s.Appends s') (second : s'.Appends s'') : s.Appends s'' :=
  ⟨first.code.trans second.code, first.scope.trans second.scope⟩

end Pass.Appends

namespace Goal.Does

variable {scope scope' : Scope} {g : Goal} {goals : List Goal} {added : Bool → List Instruction}
  {t : Token} {e : Entry}

theorem extends_scope (does : Does scope g goals scope' added) : scope.Extends scope' := by
  cases does with
  | constantEnd declared | variableEnd declared => exact .of_declare declared
  | firstAssignment _ marked =>
    rw [Scope.eq_withValue_of_markInitialized? marked]
    exact .withValue scope _
  | _ => exact .refl scope

/-- The end of an assignment gives its target a value. -/
theorem of_assignmentEnd (does : Does scope (.assignmentEnd t e) goals scope' added)
    (found : scope.find? t.spelling = some e) :
    goals = [] ∧ scope' = scope.withValue t.spelling := by
  cases does with
  | continues continues => cases continues
  | assignmentAgain valued => exact ⟨rfl, (Scope.withValue_of_initialized found valued).symm⟩
  | firstAssignment _ marked => exact ⟨rfl, Scope.eq_withValue_of_markInitialized? marked⟩

end Goal.Does

namespace PassM

open Goal

variable {s s' : Pass} {t : Token} {e : Entry} {goals : List Goal} {x : PassM Unit}

/-! ### Growth -/

theorem appends_of_step {g : Goal} (taken : step g s = .ok goals s') : s.Appends s' := by
  obtain ⟨added, does, _, code, _⟩ := does_of_step taken
  exact ⟨code ▸ List.prefix_append _ _, does.extends_scope⟩

theorem appends_of_run (goals : List Goal) (s : Pass) : s.Appends (final (run goals s)) := by
  fun_induction run goals s with
  | case1 s => exact .of_same rfl rfl
  | case2 s g rest goals t taken inductionHypothesis =>
    exact (appends_of_step taken).trans inductionHypothesis
  | case3 s g rest d t failed =>
    exact .of_same (scope_of_step_error failed) (coded_of_step_error failed).1

/-- What only looks changes neither names nor code, also where it fails. -/
theorem same_of_looks (looks : Looks x) (s : Pass) :
    (final (x s)).scope = s.scope ∧ (final (x s)).code = s.code := by
  cases ran : x s with
  | ok u t => exact ⟨(looks.same ran).1, (looks.same ran).2.2⟩
  | error d t => exact looks.same_of_error ran

theorem appends_of_looks (looks : Looks x) (s : Pass) : s.Appends (final (x s)) :=
  .of_same (same_of_looks looks s).1 (same_of_looks looks s).2

theorem looks_discard {α : Type} {x : PassM α} (looks : Looks x) : Looks (discard x) :=
  looks.bind fun _ => looks_pure ()

/-- Whatever is done, code and names only grow, also where it fails. -/
theorem appends_of_act (a : Action) (s : Pass) : s.Appends (final (act a s)) := by
  cases a with
  | peek => exact appends_of_looks (looks_discard looks_peek) s
  | next =>
    have looks : Looks next := looks_peek.bind fun _ => looks_drop.bind fun _ => looks_pure _
    exact appends_of_looks (looks_discard looks) s
  | check k =>
    have looks : Looks (check k) := looks_peek.bind fun _ => looks_pure _
    exact appends_of_looks (looks_discard looks) s
  | nextIf k => exact appends_of_looks (looks_discard (looks_nextIf k)) s
  | expect k => exact appends_of_looks (looks_discard (looks_expect k)) s
  | constantValue => exact appends_of_looks (looks_discard looks_constantValue) s
  | find part => exact appends_of_run part.goals s
  | pass =>
    have ends := appends_of_run Goal.program s
    cases ran : run Goal.program s with
    | ok u t =>
      rw [ran] at ends
      rw [act, program, bind_of_ok ran]
      exact ⟨ends.code, ends.scope⟩
    | error d t =>
      rw [ran] at ends
      rw [act, program, bind_of_error ran]
      exact ends
  | add name isConstant isInitialized =>
    rw [act, add, get_bind]
    cases declared : s.scope.declare ⟨name, isConstant, isInitialized, none⟩ with
    | ok scope => exact ⟨List.prefix_rfl, .of_declare declared⟩
    | error e => exact .of_same rfl rfl

/-! ### Names that stay -/

/-- Goals that touch no names leave them as they are. -/
theorem scope_of_run (settled : Settled s.scope goals)
    (untouched : ∀ g ∈ goals, g.touches = false) :
    (final (run goals s)).scope = s.scope := by
  fun_induction run goals s with
  | case1 s => rfl
  | case2 s g rest goals t taken inductionHypothesis =>
    obtain ⟨now, later⟩ := List.forall_mem_cons.mp untouched
    obtain ⟨same, still⟩ := untouched_of_step settled now taken
    have all : ∀ h ∈ goals ++ rest, h.touches = false := List.forall_mem_append.mpr ⟨still, later⟩
    exact (inductionHypothesis (settled_of_step settled taken) all).trans same
  | case3 s g rest d t failed => exact scope_of_step_error failed

theorem output_eq_ok (h : output s = .ok goals s') :
    s'.scope = s.scope ∧ (∃ t, t.kind = .printWord ∧ s.Leads [t] s') ∧
      goals = [.expect .lparen, expression, .expect .rparen, .expect .semicolon, .emit .wrt] := by
  simp only [output, bind_eq_ok, pure_eq_ok] at h
  obtain ⟨t, _, found, rfl, rfl⟩ := h
  obtain ⟨kind, leads⟩ := expect_leads found
  exact ⟨(looks_expect .printWord).scope _ _ _ found, ⟨t, kind, leads⟩, rfl⟩

theorem settled_of_output (scope : Scope) : Settled scope
    [.expect .lparen, expression, .expect .rparen, .expect .semicolon, .emit .wrt] :=
  (Begins.output.leaves (g := .statement) rfl).settled

/-- An output leaves the names as they are. -/
theorem scope_of_output (s : Pass) : (final (run [.output] s)).scope = s.scope := by
  rw [run_cons]
  cases taken : step .output s with
  | ok goals u =>
    obtain ⟨same, _, rfl⟩ := output_eq_ok taken
    have silent := scope_of_run (settled_of_output u.scope) (by simp [Goal.touches])
    exact silent.trans same
  | error d u => exact scope_of_step_error taken

/-- A goal that relies on no names and touches none leaves them as they are. -/
theorem scope_of_run_one {g : Goal} (fits : g.Fits s.scope) (untouched : g.touches = false) :
    (final (run [g] s)).scope = s.scope := by
  apply scope_of_run
  · exact ⟨by simpa using fits, by simp⟩
  · simpa using untouched

/-! ### Assignments -/

/-- What is left of an assignment gives its target a value at its end, and changes nothing else. -/
theorem scope_of_assignment (found : s.scope.find? t.spelling = some e) :
    match run [.expect .equals, expression, assignmentEnd t e] s with
    | .ok _ s' => s'.scope = s.scope.withValue t.spelling
    | .error _ s' => s'.scope = s.scope := by
  have split : [.expect .equals, expression, assignmentEnd t e] =
      [.expect .equals, expression] ++ [assignmentEnd t e] := rfl
  have settled : Settled s.scope [.expect .equals, expression] := ⟨by simp [Fits], by decide⟩
  have before := scope_of_run settled (by simp [Goal.touches])
  rw [split, run_append]
  cases ran : run [.expect .equals, expression] s with
  | error d u =>
    rw [ran] at before
    exact before
  | ok _ u =>
    rw [ran] at before
    have same : u.scope = s.scope := before
    simp only [run_cons]
    cases taken : step (assignmentEnd t e) u with
    | error d v => exact (scope_of_step_error taken).trans same
    | ok goals v =>
      obtain ⟨_, does, _⟩ := does_of_step taken
      rw [← same] at found ⊢
      obtain ⟨rfl, ends⟩ := does.of_assignmentEnd found
      simp only [List.append_nil, run_nil]
      exact ends

theorem assignment_eq_ok (h : assignment s = .ok goals s') :
    ∃ t e, t.kind = .ident ∧ s.Leads [t] s' ∧ s'.scope = s.scope ∧
      s'.scope.find? t.spelling = some e ∧
      goals = [.expect .equals, expression, assignmentEnd t e] := by
  simp only [assignment, bind_eq_ok, pure_eq_ok] at h
  obtain ⟨t, u, found, e, _, resolved, rfl, rfl⟩ := h
  obtain ⟨kind, leads⟩ := expect_leads found
  have same := (looks_expect .ident).scope _ _ _ found
  rw [assignable_ok resolved]
  exact ⟨t, e, kind, leads, same, (find?_of_assignable resolved).1, rfl⟩

/-- What an assignment or another statement does to the names: it gives its target a value, if it
has one, and only if it is found as a whole. -/
def Assigns (s : Pass) : EStateM.Result Diagnostic Pass Unit → Prop
  | .ok _ s' => ∃ t ts, s.Leads (t :: ts) s' ∧
      s'.scope = if t.kind = .ident then s.scope.withValue t.spelling else s.scope
  | .error _ s' => s'.scope = s.scope

theorem assigns_of_assignment {u : Pass} (h : assignment u = .ok goals s') (leads : s.Leads [] u)
    (same : u.scope = s.scope) : Assigns s (run goals s') := by
  obtain ⟨t, e, kind, first, still, found, rfl⟩ := assignment_eq_ok h
  have ends := scope_of_assignment found
  cases ran : run [.expect .equals, expression, assignmentEnd t e] s' with
  | ok _ v =>
    rw [ran] at ends
    obtain ⟨ts, later, _⟩ := run_finds ran
    refine ⟨t, ts, leads.trans (first.trans later), ?_⟩
    rw [if_pos kind, ← same, ← still]
    exact ends
  | error d v =>
    rw [ran] at ends
    exact ends.trans (still.trans same)

/-- A statement that is no assignment leaves the names as they are. -/
theorem assigns_of_scope {u : Pass} (leads : s.Leads [t] u) (other : t.kind ≠ .ident)
    (same : u.scope = s.scope) (still : (final (run goals u)).scope = u.scope) :
    Assigns s (run goals u) := by
  cases ran : run goals u with
  | ok _ v =>
    rw [ran] at still
    obtain ⟨ts, later, _⟩ := run_finds ran
    refine ⟨t, ts, leads.trans later, ?_⟩
    rw [if_neg other]
    exact still.trans same
  | error d v =>
    rw [ran] at still
    exact still.trans same

theorem assigns_of_statement (h : statement s = .ok goals s') : Assigns s (run goals s') := by
  obtain ⟨t, u, peeked, h⟩ := bind_eq_ok.mp h
  obtain ⟨held, leads⟩ := peek_leads peeked
  have same := looks_peek.scope _ _ _ peeked
  cases kind : t.kind <;> simp only [kind] at h
  case ident => exact assigns_of_assignment h leads same
  case printWord =>
    obtain ⟨still, ⟨p, print, first⟩, rfl⟩ := output_eq_ok h
    have silent := scope_of_run (settled_of_output s'.scope) (by simp [Goal.touches])
    exact assigns_of_scope (leads.trans first) (by simp [print]) (still.trans same) silent
  case semicolon =>
    obtain ⟨_, _, dropped, h⟩ := bind_eq_ok.mp h
    obtain ⟨rfl, rfl⟩ := pure_eq_ok.mp h
    refine assigns_of_scope (leads.trans (drop_leads held dropped)) (by simp [kind])
      ((looks_drop.scope _ _ _ dropped).trans same) ?_
    rw [run_nil]
    rfl
  all_goals
    obtain ⟨_, _, _, refused⟩ := bind_eq_ok.mp h
    exact absurd refused refuse_ne_ok

theorem assigns_of_run_assignment (s : Pass) : Assigns s (run [.assignment] s) := by
  rw [run_cons]
  cases taken : step .assignment s with
  | ok goals u =>
    simp only [List.append_nil]
    exact assigns_of_assignment taken (.refl s) rfl
  | error d u => exact scope_of_step_error taken

theorem assigns_of_run_statement (s : Pass) : Assigns s (run [.statement] s) := by
  rw [run_cons]
  cases taken : step .statement s with
  | ok goals u =>
    simp only [List.append_nil]
    exact assigns_of_statement taken
  | error d u => exact scope_of_step_error taken

/-! ### Declarations -/

/-- Where the reading of constants ends, those that have been read up to their semicolons are
declared, and nothing else has been done. -/
theorem exists_declares_consts (s : Pass) :
    ∃ us cs u, s.Declares us cs u ∧ u.Spares (final (run [consts] s)) ∧
      (final (run [consts] s)).scope = u.scope ∧ (final (run [consts] s)).code = u.code := by
  obtain ⟨us, cs, u, declares, ends⟩ := declares_of_run_consts s
  refine ⟨us, cs, u, declares, ?_⟩
  cases ran : run [consts] s with
  | ok _ t =>
    rw [ran] at ends
    subst ends
    exact ⟨.refl t, rfl, rfl⟩
  | error d t =>
    rw [ran] at ends
    exact ends

/-- Where the reading of variables ends, those that have been read up to their semicolons are
declared. -/
theorem exists_declares_vars (s : Pass) :
    ∃ us vs u, s.DeclaresVariables us vs u ∧ u.Spares (final (run [vars] s)) ∧
      (final (run [vars] s)).scope = u.scope := by
  obtain ⟨us, vs, u, declares, ends⟩ := declares_of_run_vars s
  refine ⟨us, vs, u, declares, ?_⟩
  cases ran : run [vars] s with
  | ok _ t =>
    rw [ran] at ends
    subst ends
    exact ⟨.refl t, rfl⟩
  | error d t =>
    rw [ran] at ends
    exact ends

/-- Whatever is done from whatever state, and whether it fails or not, code is added behind the code
so far, and names behind the names so far, of which those without a value may have received one.
Expressions and outputs change no names. A statement that fails has changed none, and one that is
found has given a value to the name that it assigns, if any. Declarations have added the names of
those that have been read up to their semicolons, and constants one instruction for each of them. -/
theorem act_appends (s : Pass) :
    (∀ a, s.code.toList <+: (final (act a s)).code.toList ∧
      s.scope.Extends (final (act a s)).scope) ∧
    ((final (act .constantValue s)).scope = s.scope ∧
      (final (act (.find .expression) s)).scope = s.scope ∧
      (final (act (.find .item) s)).scope = s.scope ∧
      (final (act (.find .factor) s)).scope = s.scope ∧
      (final (act (.find .output) s)).scope = s.scope) ∧
    (Assigns s (act (.find .assignment) s) ∧ Assigns s (act (.find .statement) s)) ∧
    (∃ us cs u, s.Declares us cs u ∧ u.Spares (final (act (.find .consts) s)) ∧
      (final (act (.find .consts) s)).scope = u.scope ∧
      (final (act (.find .consts) s)).code = u.code) ∧
    ∃ us vs u, s.DeclaresVariables us vs u ∧ u.Spares (final (act (.find .vars) s)) ∧
      (final (act (.find .vars) s)).scope = u.scope := by
  have value := same_of_looks (looks_discard looks_constantValue) s
  refine ⟨?_, ⟨value.1, ?_, ?_, ?_, scope_of_output s⟩, ?_, exists_declares_consts s,
    exists_declares_vars s⟩
  · intro a
    obtain ⟨code, scope⟩ := appends_of_act a s
    exact ⟨code, scope⟩
  · exact scope_of_run_one (g := .expression) trivial rfl
  · exact scope_of_run_one (g := .item) trivial rfl
  · exact scope_of_run_one (g := .factor) trivial rfl
  · exact ⟨assigns_of_run_assignment s, assigns_of_run_statement s⟩

end PassM
end OnePass
