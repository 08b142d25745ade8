import OnePass.Pass.Action
import OnePass.Proofs.Pass.Failing
import OnePass.Proofs.Pass.Steps
import OnePass.Proofs.Token.Literals

/-!
Why an action can fail. From whatever state, there are seven causes that errors of a text can have.
A numeral that is too long to be read is one more, if the limit is low enough, and a token that
begins no statement is one more where just a statement is to be found. A declaration or assignment
that is complete never fails.
-/

namespace OnePass

open Relation

namespace Diagnostic

/-- The causes that lie in a text. -/
def Cause.IsOrdinary : Cause → Prop
  | invalidCharacter _ | integerOutOfRange _ _ | unexpected _ _ => True
  | redeclared _ _ | undeclared _ | uninitialized _ | constantTarget _ => True
  | worded _ _ _ | tooManyDigits _ | notAStatement _ => False

/-- A numeral is too long to be read, and the limit so low that its text is that long as well. -/
def Cause.IsUnreadable (limit : Int) (cause : Cause) : Prop :=
  ∃ count, cause = .tooManyDigits count ∧ Text.Numeral.maxDigits < count ∧
    limit ≤ -(10 ^ (Text.Numeral.maxDigits - 1))

variable {cause : Cause} {limit : Int} {x : Lexeme} {name : String}

theorem Cause.of_fault (fault : x.fault? limit = some cause) :
    cause.IsOrdinary ∨ cause.IsUnreadable limit := by
  cases x with
  | word cs => cases fault
  | numeral ds =>
    simp only [Lexeme.fault?] at fault
    split at fault
    · cases fault
    · split at fault
      next low =>
        cases fault
        exact .inr ⟨_, rfl, low.2.1, Token.low_of_isUnread low⟩
      next =>
        cases fault
        exact .inl trivial
  | mark c =>
    simp only [Lexeme.fault?] at fault
    split at fault <;> cases fault
    exact .inl trivial

theorem Cause.isOrdinary_of_name (named : cause.name? = some name) : cause.IsOrdinary := by
  cases cause <;> cases named <;> trivial

end Diagnostic

/-- What a pass that has to find something runs into. -/
theorem Pass.Fails.cause {language : List Token → Prop} {s s' : Pass} {d : Diagnostic}
    (h : s.Fails language d s') : d.cause.IsOrdinary ∨ d.cause.IsUnreadable s.limit := by
  cases h with
  | unread leads _ _ refused =>
    obtain ⟨_, _, _, _, _, _, _, same, _⟩ :=
      Token.exists_lexeme_of_scan refused (by simp [Except.toOption])
    obtain ⟨cause, fault, rfl⟩ := Token.ofLexeme_eq_error.mp same.symm
    have limit := leads.1
    rw [limit] at fault
    exact Diagnostic.Cause.of_fault fault
  | unexpected _ _ shown _ _ =>
    subst shown
    exact .inl trivial
  | misnamed _ _ _ named shown =>
    subst shown
    exact .inl (Diagnostic.Cause.isOrdinary_of_name named)

/-! ### Parts of the grammar -/

namespace Goal

variable {scope scope' : Scope} {g : Goal} {goals : List Goal} {added : Bool → List Instruction}

/-- The goals for one statement, which are never left for later. -/
def isStatement : Goal → Bool
  | statement | assignment | output => true
  | _ => false

/-- What is left of a statement behind its first token is settled. -/
theorem Does.settled_of_isStatement (does : Does scope g goals scope' added)
    (direct : g.isStatement = true) : Settled scope' goals := by
  cases does with
  | continues continues =>
    cases continues with
    | statement begins | assignment begins | output begins =>
      exact (begins.leaves (g := statement) rfl).settled
    | _ => cases direct
  | _ => cases direct

theorem settled_of_part (part : Part) (scope : Scope) :
    Settled scope part.goals ∨ ∃ g, part.goals = [g] ∧ g.isStatement = true := by
  cases part with
  | statement | assignment | output => exact .inr ⟨_, rfl, rfl⟩
  | program => exact .inl (settled_program scope)
  | _ => exact .inl ⟨by simp [Part.goals, body, Fits], by decide⟩

end Goal

namespace PassM

open Goal

variable {s s' : Pass} {d : Diagnostic} {c c' : List Goal × Pass} {goals rest : List Goal}
  {g : Goal} {part : Part}

theorem settled_of_moves (settled : Settled c.2.scope c.1) (moves : ReflTransGen Move c c') :
    Settled c'.2.scope c'.1 := by
  induction moves with
  | refl => exact settled
  | tail _ move inductionHypothesis =>
    cases move with
    | take taken => exact settled_of_step inductionHypothesis taken

/-- Whatever a part of the grammar has left is settled, once it has begun. -/
theorem settled_of_begun (moves : ReflTransGen Move (part.goals, s) (g :: rest, s'))
    (later : g.isStatement = false) : Settled s'.scope (g :: rest) := by
  rcases Goal.settled_of_part part s.scope with settled | ⟨first, alone, direct⟩
  · exact settled_of_moves settled moves
  · rw [alone] at moves
    rcases ReflTransGen.cases_head moves with same | ⟨_, ⟨taken⟩, moves⟩
    · cases same
      rw [direct] at later
      cases later
    · obtain ⟨_, does, _⟩ := does_of_step taken
      refine settled_of_moves ?_ moves
      rw [List.append_nil]
      exact does.settled_of_isStatement direct

/-- A cause that lies in a text, or in a numeral too long to be read. -/
theorem run_cause (settled : Settled s.scope goals) (h : run goals s = .error d s') :
    d.cause.IsOrdinary ∨ d.cause.IsUnreadable s.limit :=
  (run_fails settled h).cause

theorem statement_cause (h : statement s = .error d s') :
    (d.cause.IsOrdinary ∨ d.cause.IsUnreadable s.limit) ∨
      ∃ t, d.cause = .notAStatement t ∧ t.kind ∉ Token.Kind.statementStarts := by
  rcases bind_eq_error.mp h with refused | ⟨t, u, peeked, failed⟩
  · exact .inl (peek_fails (L := fun _ => True) refused).cause
  · obtain ⟨held, leads⟩ := peek_leads peeked
    have again : statement u = .error d s' := by rwa [statement, bind_of_ok (peek_of_held held)]
    by_cases starts : t.kind ∈ Token.Kind.statementStarts
    · rw [← show u.limit = s.limit from leads.1]
      exact .inl (statement_fails (L := fun _ => True) held starts again).cause
    · cases kind : t.kind <;> simp only [kind] at failed starts
      case ident | printWord | semicolon => exact absurd starts (by decide)
      all_goals
        cases failed
        exact .inr ⟨t, rfl, by rwa [kind]⟩

theorem assignment_cause (h : assignment s = .error d s') :
    d.cause.IsOrdinary ∨ d.cause.IsUnreadable s.limit := by
  rcases bind_eq_error.mp h with refused | ⟨t, u, found, h⟩
  · exact (expect_fails (L := fun _ => True) refused ⟨[], fun _ _ => trivial⟩).cause
  · obtain ⟨kind, leads⟩ := expect_leads found
    have refused := bind_pure_eq_error.mp h
    exact (assignable_fails (L := fun _ => True) leads (expect_ahead found) kind refused).cause

theorem output_cause (h : output s = .error d s') :
    d.cause.IsOrdinary ∨ d.cause.IsUnreadable s.limit := by
  have refused := bind_pure_eq_error.mp h
  exact (expect_fails (L := fun _ => True) refused ⟨[], fun _ _ => trivial⟩).cause

/-- A token that begins no statement is refused only where a statement is asked for. -/
theorem find_cause (h : run part.goals s = .error d s') :
    (d.cause.IsOrdinary ∨ d.cause.IsUnreadable s.limit) ∨
      part = .statement ∧ ∃ t, d.cause = .notAStatement t ∧
        t.kind ∉ Token.Kind.statementStarts := by
  rcases Goal.settled_of_part part s.scope with settled | ⟨g, alone, direct⟩
  · exact .inl (run_cause settled h)
  · rw [alone, run_cons] at h
    cases taken : step g s with
    | ok goals u =>
      rw [taken] at h
      obtain ⟨_, does, _⟩ := does_of_step taken
      obtain ⟨_, leads, _⟩ := step_refines taken
      have settled : Settled u.scope (goals ++ []) := by
        rw [List.append_nil]
        exact does.settled_of_isStatement direct
      rw [← show u.limit = s.limit from leads.1]
      exact .inl (run_cause settled h)
    | error e u =>
      rw [taken] at h
      cases h
      cases part with
      | statement =>
        cases alone
        exact (statement_cause taken).imp_right fun other => ⟨rfl, other⟩
      | assignment =>
        cases alone
        exact .inl (assignment_cause taken)
      | output =>
        cases alone
        exact .inl (output_cause taken)
      | _ => cases alone <;> cases direct

theorem discard_eq_error {α : Type} {x : PassM α} :
    (discard x : PassM Unit) s = .error d s' ↔ x s = .error d s' := by
  change EStateM.map (fun _ => ()) x s = .error d s' ↔ _
  unfold EStateM.map
  cases x s <;> simp

/-- Why an action fails. -/
theorem act_cause {a : Action} (h : act a s = .error d s') :
    (d.cause.IsOrdinary ∨ d.cause.IsUnreadable s.limit) ∨
      a = .find .statement ∧ ∃ t, d.cause = .notAStatement t ∧
        t.kind ∉ Token.Kind.statementStarts := by
  cases a with
  | peek => exact .inl (peek_fails (L := fun _ => True) (discard_eq_error.mp h)).cause
  | next =>
    rcases bind_eq_error.mp (discard_eq_error.mp h) with refused | ⟨_, _, _, none⟩
    · exact .inl (peek_fails (L := fun _ => True) refused).cause
    · cases none
  | check k =>
    rcases bind_eq_error.mp (discard_eq_error.mp h) with refused | ⟨_, _, _, none⟩
    · exact .inl (peek_fails (L := fun _ => True) refused).cause
    · cases none
  | nextIf k => exact .inl (nextIf_fails (L := fun _ => True) (discard_eq_error.mp h)).cause
  | expect k =>
    exact .inl (expect_fails (L := fun _ => True) (discard_eq_error.mp h)
      ⟨[], fun _ _ => trivial⟩).cause
  | constantValue =>
    have fails : s.Fails (Goal.Finds (.constantValue (.ofKind .ident))) d s' :=
      constantValue_fails (discard_eq_error.mp h)
    exact .inl fails.cause
  | find part =>
    exact (find_cause h).imp_right fun ⟨same, other⟩ => ⟨congrArg Action.find same, other⟩
  | pass =>
    rcases bind_eq_error.mp h with refused | ⟨_, _, _, none⟩
    · exact .inl (run_cause (settled_program s.scope) refused)
    · cases none
  | add name isConstant isInitialized =>
    change add name isConstant isInitialized s = .error d s' at h
    rw [add, get_bind] at h
    cases result : s.scope.declare ⟨name, isConstant, isInitialized, none⟩ with
    | ok scope =>
      rw [result] at h
      cases h
    | error e =>
      rw [result] at h
      cases h
      exact .inl (.inl trivial)

/-- A pass over a text that is one lexeme and no token fails for the fault of the lexeme. -/
theorem runPass_of_fault {o : Options} (file : String) {source : String} {x : Lexeme}
    {cause : Diagnostic.Cause} (text : source.toList = x.spelling) (formed : x.isFormed = true)
    (fault : x.fault? o.limit = some cause) :
    ∃ d s, o.runPass file source = .error d s ∧ d.cause = cause := by
  obtain ⟨d, next, refused, why⟩ : ∃ d next,
      Token.scan o.limit (.start file source) = (.error d, next) ∧ d.cause = cause := by
    have ahead : (Cursor.start file source).rest = [] ++ (x.spelling ++ []) := by
      rw [List.append_nil]
      exact text
    rw [Token.scan_of_lexeme o.limit ahead (by simp) formed (by simp), Token.ofLexeme, fault]
    exact ⟨_, _, rfl, rfl⟩
  have scanned : ∃ s, scan (o.pass file source) = .error d s := by
    simp only [scan, Options.pass, Pass.start, refused]
    exact ⟨_, rfl⟩
  obtain ⟨s, scanned⟩ := scanned
  have peeked : peek (o.pass file source) = .error d s := by
    rw [peek, get_bind]
    exact bind_of_error scanned
  have expected : expect .beginWord (o.pass file source) = .error d s := bind_of_error peeked
  have taken : step (.expect .beginWord) (o.pass file source) = .error d s :=
    bind_of_error expected
  have ran : run Goal.program (o.pass file source) = .error d s := by
    rw [Goal.program, List.cons_append, run_cons, taken]
  exact ⟨d, s, bind_of_error ran, why⟩

end PassM

namespace Options

open PassM

/-- A failing pass fails for a cause that lies in the text, if the limit is not so low that numerals
too long to be read are as long as the limit's text. From any state at all, and so whatever actions
came before, an action fails for such a cause, or it asks for a statement where a token begins none.
Within each part of the grammar, a declaration or an assignment fails only for want of its
semicolon: the name is still new or known. An instruction always has the operand that it takes. -/
theorem failures_closed (o : Options) (file source : String) (s : Pass) :
    (∀ d s', o.runPass file source = .error d s' →
      d.cause.IsOrdinary ∨ d.cause.IsUnreadable o.limit) ∧
    (∀ a d s', act a s = .error d s' →
      (d.cause.IsOrdinary ∨ d.cause.IsUnreadable s.limit) ∨
        a = .find .statement ∧ ∃ t, d.cause = .notAStatement t ∧
          t.kind ∉ Token.Kind.statementStarts) ∧
    (∀ (part : Part) g rest u d s', ReflTransGen Move (part.goals, s) (g :: rest, u) →
      g.completes = true → step g u = .error d s' → expect .semicolon u = .error d s') ∧
    ∀ i ∈ s.code, Instruction.ofParts i.opcode i.operand? = .ok i := by
  refine ⟨?_, fun a d s' => act_cause, ?_, ?_⟩
  · intro d s' failed
    exact (fails_of_runPass_error failed).cause
  · intro part g rest u d s' moves completes failed
    have later : g.isStatement = false := by cases g <;> first | rfl | cases completes
    have settled := settled_of_begun moves later
    exact expect_of_completes (settled.fits g List.mem_cons_self) completes failed
  · intro i _
    exact Instruction.ofParts_eq_ok_iff.mpr ⟨rfl, rfl⟩

/-- At a low limit a numeral is too long to be read, although it has no more digits than the text of
the limit has characters. -/
theorem runPass_tooManyDigits :
    ∃ d s, ({ limit := -(10 ^ (Text.Numeral.maxDigits - 1)) } : Options).runPass "<input>"
        (String.ofList ('1' :: List.replicate Text.Numeral.maxDigits '0')) = .error d s ∧
      d.cause = .tooManyDigits (Text.Numeral.maxDigits + 1) ∧ ¬d.cause.IsOrdinary := by
  have formed : (Lexeme.numeral ('1' :: List.replicate Text.Numeral.maxDigits '0')).isFormed =
      true := by
    simp only [Lexeme.isFormed, Lexeme.isValid, List.isEmpty_cons, List.all_cons,
      List.all_replicate]
    decide
  obtain ⟨d, s, failed, cause⟩ :=
    runPass_of_fault (o := { limit := -(10 ^ (Text.Numeral.maxDigits - 1)) }) "<input>"
      String.toList_ofList formed (Lexeme.fault?_of_zeros (Nat.le_refl _))
  exact ⟨d, s, failed, cause, by rw [cause]; exact id⟩

end Options
end OnePass
