import OnePass.Compilation
import OnePass.Machine.Height
import OnePass.Proofs.Pass.Agreement
import OnePass.Proofs.Pass.Settled

/-!
The height of the stack along the code that a pass emits. At the bottom there is a cell for each
name whose value stays on the stack, and above it there are the operands that the goals to come
take. So no instruction takes anything that it should not, wherever the pass ends.
-/

namespace OnePass

namespace Scope

variable {scope scope' : Scope} {d : Declaration} {e : Entry} {name : String}

/-- How many names have their values on the stack: the constants, and where first values are not
stored, all names that have a value. -/
def base (stores : Bool) (scope : Scope) : Nat :=
  scope.declarations.countP fun d => if stores then d.isConstant else d.isInitialized

theorem base_of_declare (stores : Bool) (h : scope.declare d = .ok scope') :
    scope'.base stores =
      scope.base stores + if (if stores then d.isConstant else d.isInitialized) then 1 else 0 := by
  rw [base, declarations_of_declare h, List.countP_append, List.countP_singleton]
  rfl

/-- A variable that receives its first value leaves it on the stack, unless it is stored. -/
theorem base_withValue (stores : Bool) (found : scope.find? name = some e)
    (assigned : e.declaration.isConstant = false) (unset : e.declaration.isInitialized = false) :
    (scope.withValue name).base stores = scope.base stores + if stores then 0 else 1 := by
  have member := (mem_entries_of_find? found).1
  obtain ⟨bound, there⟩ := List.getElem?_eq_some_iff.mp (mem_entries_iff.mp member)
  rw [base, declarations_withValue found, List.countP_set bound, there]
  cases stores <;> simp [base, Declaration.initialized, assigned, unset]

end Scope

namespace PassM

/-- The instructions that a run emits, each with the names there are when it is emitted. -/
def emissions (goals : List Goal) (s : Pass) : List (Scope × Instruction) :=
  match goals with
  | [] => []
  | g :: rest =>
    match _taken : step g s with
    | .ok goals s' =>
      (s'.code.toList.drop s.code.size).map (s'.scope, ·) ++ emissions (goals ++ rest) s'
    | .error _ _ => []
termination_by (s.size, Goal.weights goals)
decreasing_by
  exact step_decreases _taken

theorem emissions_cons (g : Goal) (rest : List Goal) (s : Pass) :
    emissions (g :: rest) s =
      match step g s with
      | .ok goals s' =>
        (s'.code.toList.drop s.code.size).map (s'.scope, ·) ++ emissions (goals ++ rest) s'
      | .error _ _ => [] := by
  rw [emissions]
  split <;> simp_all

/-- The height of the stack behind instructions, unless one of them takes a cell below the base that
there is when it is emitted. -/
def height? (stores : Bool) (height : Nat) : List (Scope × Instruction) → Option Nat
  | [] => some height
  | (scope, i) :: rest =>
    if i.pops = 0 ∨ scope.base stores + i.pops ≤ height then
      height? stores (height - i.pops + i.pushes) rest
    else none

theorem height?_append (stores : Bool) (height : Nat) (is js : List (Scope × Instruction)) :
    height? stores height (is ++ js) = (height? stores height is).bind (height? stores · js) := by
  induction is generalizing height with
  | nil => rfl
  | cons first is inductionHypothesis =>
    simp only [List.cons_append, height?, inductionHypothesis]
    split <;> rfl

variable {stores : Bool} {scope scope' : Scope} {i : Instruction} {n height : Nat} {slot : Int}

theorem height?_push (quiet : i.pops = 0) :
    height? stores height [(scope, i)] = some (height + i.pushes) := by
  rw [height?, if_pos (.inl quiet), quiet]
  rfl

theorem height?_pop (some : i.pops ≤ n) :
    height? stores (scope.base stores + n) [(scope, i)] =
      .some (scope.base stores + (n - i.pops + i.pushes)) := by
  rw [height?, if_pos (.inr (by omega)), height?]
  congr 1
  omega

/-- A first value is stored, or raises the base. -/
theorem height?_first (some : 1 ≤ n)
    (grows : scope'.base stores = scope.base stores + if stores then 0 else 1) :
    height? stores (scope.base stores + n) ((if stores then [.sto slot] else []).map (scope', ·)) =
      .some (scope'.base stores + (n - 1)) := by
  cases stores with
  | true =>
    rw [if_pos rfl, Nat.add_zero] at grows
    rw [← grows]
    exact height?_pop some
  | false =>
    rw [if_neg Bool.false_ne_true] at grows
    rw [grows]
    change Option.some _ = _
    congr 1
    omega

end PassM

namespace Goal

/-- How many operands there are behind a goal, from how many there are before it. -/
def operands? (n : Nat) : Goal → Option Nat
  | expression | item | factor | operand => some (n + 1)
  | moreItems | moreFactors => if 1 ≤ n then some n else none
  | assignmentEnd _ _ | variableEnd _ true => if 1 ≤ n then some (n - 1) else none
  | emit i => if i.pops ≤ n then some (n - i.pops + i.pushes) else none
  | _ => some n

/-- How many operands there are behind goals. -/
def operandsAll? (n : Nat) : List Goal → Option Nat
  | [] => some n
  | g :: gs => (g.operands? n).bind fun n => operandsAll? n gs

theorem operandsAll?_append (n : Nat) (gs hs : List Goal) :
    operandsAll? n (gs ++ hs) = (operandsAll? n gs).bind fun n => operandsAll? n hs := by
  induction gs generalizing n with
  | nil => rfl
  | cons g gs inductionHypothesis =>
    simp only [List.cons_append, operandsAll?, inductionHypothesis, Option.bind_assoc]

variable {scope scope' : Scope} {g : Goal} {goals : List Goal} {added : Bool → List Instruction}
  {m n : Nat}

theorem Begins.operands (begins : Begins scope goals) (n : Nat) :
    operandsAll? n goals = some n := by
  cases begins <;> simp [operandsAll?, operands?, Instruction.pops, Instruction.pushes]

theorem Continues.operands (continues : Continues scope g goals) (fits : g.Fits scope)
    (before : g.operands? n = some m) : operandsAll? n goals = some m := by
  cases continues
  case anotherStatement begins =>
    rw [operandsAll?_append, begins.operands]
    exact before
  case statement | assignment | output => exact fits.elim
  case anotherItem | anotherFactor | noItem | noFactor =>
    obtain ⟨some, rfl⟩ : 1 ≤ n ∧ n = m := by simpa [operands?] using before
    simp [operandsAll?, operands?, Instruction.pops, Instruction.pushes, some]
  case expression | item =>
    rw [← before]
    simp [operandsAll?, operands?]
  all_goals simpa [operandsAll?, operands?] using before

/-- What a step emits finds its operands above the base, and leaves what the goals to come need. -/
theorem Does.operands (does : Does scope g goals scope' added) (fits : g.Fits scope) (stores : Bool)
    (before : g.operands? n = some m) :
    ∃ n', PassM.height? stores (scope.base stores + n) ((added stores).map (scope', ·)) =
        some (scope'.base stores + n') ∧ operandsAll? n' goals = some m := by
  cases does with
  | continues continues => exact ⟨n, rfl, continues.operands fits before⟩
  | @emit i =>
    obtain ⟨some, rfl⟩ : i.pops ≤ n ∧ n - i.pops + i.pushes = m := by
      simpa [operands?] using before
    exact ⟨_, PassM.height?_pop some, rfl⟩
  | negative =>
    refine ⟨n + 1, PassM.height?_push rfl, ?_⟩
    rw [← before]
    simp [operandsAll?, operands?, Instruction.pops, Instruction.pushes]
  | name | number => exact ⟨n + 1, PassM.height?_push rfl, before⟩
  | constantEnd declared =>
    refine ⟨n, (PassM.height?_push rfl).trans ?_, before⟩
    rw [Scope.base_of_declare stores declared, Nat.add_right_comm]
    cases stores <;> rfl
  | @variableEnd name hasValue _ declared =>
    have grows := Scope.base_of_declare stores declared
    cases hasValue with
    | true =>
      obtain ⟨some, rfl⟩ : 1 ≤ n ∧ n - 1 = m := by simpa [operands?] using before
      refine ⟨n - 1, ?_, rfl⟩
      apply PassM.height?_first some
      rw [grows]
      cases stores <;> rfl
    | false =>
      refine ⟨n, ?_, before⟩
      rw [grows]
      cases stores <;> rfl
  | assignmentAgain valued =>
    obtain ⟨some, rfl⟩ : 1 ≤ n ∧ n - 1 = m := by simpa [operands?] using before
    exact ⟨n - 1, PassM.height?_pop some, rfl⟩
  | firstAssignment unset marked =>
    obtain ⟨some, rfl⟩ : 1 ≤ n ∧ n - 1 = m := by simpa [operands?] using before
    obtain ⟨found, assigned⟩ := fits
    refine ⟨n - 1, ?_, rfl⟩
    rw [Scope.eq_withValue_of_markInitialized? marked]
    exact PassM.height?_first some (Scope.base_withValue stores found assigned unset)

end Goal

namespace PassM

open Goal

variable {s s' : Pass} {goals : List Goal} {m n : Nat} {d : Diagnostic}

theorem emissions_of_step {g : Goal} {rest : List Goal} {is : List Instruction}
    (taken : step g s = .ok goals s') (code : s'.code.toList = s.code.toList ++ is) :
    emissions (g :: rest) s = is.map (s'.scope, ·) ++ emissions (goals ++ rest) s' := by
  rw [emissions_cons, taken]
  simp [code]

/-- The state in which a run ends, well or not. -/
def final : EStateM.Result Diagnostic Pass Unit → Pass
  | .ok _ s => s
  | .error _ s => s

/-- All code comes from what is emitted. -/
theorem code_of_run (goals : List Goal) (s : Pass) :
    (final (run goals s)).code.toList = s.code.toList ++ (emissions goals s).map Prod.snd := by
  fun_induction run goals s with
  | case1 s => simp [final, emissions]
  | case2 s g rest goals s' taken inductionHypothesis =>
    obtain ⟨added, _, _, code, _⟩ := does_of_step taken
    rw [inductionHypothesis, emissions_of_step taken code, code]
    simp [Function.comp_def]
  | case3 s g rest d s' failed =>
    obtain ⟨code, _⟩ := coded_of_step_error failed
    rw [emissions_cons, failed]
    simp [final, code]

/-- Along a run, the operands of the goals to come are on the stack above the base. -/
theorem height?_of_run (settled : Settled s.scope goals) (before : operandsAll? n goals = some m) :
    ∃ height, height? s.storesFirst (s.scope.base s.storesFirst + n) (emissions goals s) =
        some height ∧
      ∀ s', run goals s = .ok () s' → height = s'.scope.base s.storesFirst + m := by
  fun_induction run goals s generalizing n with
  | case1 s =>
    refine ⟨_, by rw [emissions]; rfl, ?_⟩
    rintro _ ⟨⟩
    cases before
    rfl
  | case2 s g rest goals s' taken inductionHypothesis =>
    obtain ⟨added, does, mode, code, _⟩ := does_of_step taken
    obtain ⟨n₁, now, between⟩ := Option.bind_eq_some_iff.mp before
    obtain ⟨n₂, height, later⟩ :=
      does.operands (settled.fits g List.mem_cons_self) s.storesFirst now
    have all : operandsAll? n₂ (goals ++ rest) = some m := by
      rw [operandsAll?_append, later]
      exact between
    obtain ⟨_, others, ends⟩ := inductionHypothesis (settled_of_step settled taken) all
    rw [mode] at others ends
    refine ⟨_, ?_, ends⟩
    rw [emissions_of_step taken code, height?_append, height]
    exact others
  | case3 s g rest d s' failed =>
    rw [emissions_cons, failed]
    exact ⟨_, rfl, fun _ ended => by cases ended⟩

end PassM

namespace Options

/-- The instructions that a pass emits, each with the names there are when it is emitted. -/
def emissions (o : Options) (file source : String) : List (Scope × Instruction) :=
  PassM.emissions Goal.program (o.pass file source)

/-- Whether a pass ends well or not, its code takes nothing off the stack that is not an operand: no
instruction pops a cell below the base. Where the pass ends well, only the base is left. -/
theorem runPass_height (o : Options) (file source : String) :
    (PassM.final (o.runPass file source)).code.toList =
        (o.emissions file source).map Prod.snd ∧
      ∃ height, PassM.height? o.storesFirst 0 (o.emissions file source) = some height ∧
        ∀ s, o.runPass file source = .ok () s → height = s.scope.base o.storesFirst := by
  have code := PassM.code_of_run Goal.program (o.pass file source)
  obtain ⟨height, walks, ends⟩ := PassM.height?_of_run
    (Goal.settled_program (o.pass file source).scope)
    (show Goal.operandsAll? 0 Goal.program = some 0 from rfl)
  cases ran : PassM.run Goal.program (o.pass file source) with
  | ok u s =>
    have whole : o.runPass file source = _ := PassM.bind_of_ok ran
    rw [ran] at code
    rw [whole]
    refine ⟨code, height, walks, ?_⟩
    rintro _ ⟨⟩
    exact ends s ran
  | error d s =>
    have whole : o.runPass file source = _ := PassM.bind_of_error ran
    rw [ran] at code
    rw [whole]
    exact ⟨code, height, walks, fun _ ended => by cases ended⟩

end Options
end OnePass
