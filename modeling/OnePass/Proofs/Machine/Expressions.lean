import OnePass.Proofs.Machine.Operands
import OnePass.Proofs.Pass.Effects
import OnePass.Proofs.Pass.Writings

/-!
Expressions computed on top of a stack. Whatever names a pass knows and whatever code it has emitted
before: where it finds an expression, the code that it adds pushes the value of this expression, on
any machine whose slots have values for the names that have one.
-/

namespace OnePass

open Expression

namespace Scope

/-- The values that names have in a store of slots. -/
def store (scope : Scope) (slots : Int → Option Int) : Store :=
  fun name => (scope.find? name).bind fun e => slots e.slot

/-- The slots of all names that have a value are set. -/
def IsSetIn (scope : Scope) (slots : Int → Option Int) : Prop :=
  ∀ e ∈ scope.entries, e.declaration.isInitialized = true → (slots e.slot).isSome

end Scope

namespace Machine.Slots

variable {a : Arithmetic} {m : Slots} {scope : Scope} {e : Expression}

/-- The operands of an expression that can be read are in their slots. -/
theorem loads_of_readable (readable : e.reads.findSome? scope.unreadable? = none)
    (set : scope.IsSetIn m.slots) :
    (operands a).Loads scope.names (scope.store m.slots) m e := by
  intro t member
  obtain ⟨entry, found, valued⟩ :=
    Scope.unreadable?_eq_none_iff.mp (List.findSome?_eq_none_iff.mp readable t member)
  have declared := (Scope.mem_entries_of_find? found).1
  obtain ⟨n, here⟩ := Option.isSome_iff_exists.mp (set entry declared valued)
  refine ⟨n, ?_, ?_⟩
  · rw [Scope.store, found]
    exact here
  · rw [Scope.idxOf_names found]
    exact here

/-- Code that pushes a value above everything else and writes nothing; or, where there is no value
because an operation has no result, stops at this operation and has written nothing. -/
def Computes (a : Arithmetic) (m : Slots) (is : List Instruction) (value : Except Fault Int) :
    Prop :=
  (∃ n, value = .ok n ∧ m.exec a is = ⟨[], .ok (m.push n)⟩) ∨
    ∃ o left right, a o left right = none ∧ value = .error (.undefined o left right) ∧
      m.exec a is = ⟨[], .error (.undefined o left right)⟩

theorem computes_code (readable : e.reads.findSome? scope.unreadable? = none)
    (set : scope.IsSetIn m.slots) :
    m.Computes a (e.code scope.names) (e.evaluate a (scope.store m.slots)) := by
  have loads := loads_of_readable (a := a) readable set
  have ran : m.exec a (e.code scope.names) =
      .silent ((e.evaluate a (scope.store m.slots)).map m.push) :=
    Operands.exec_expression loads
  rcases e.evaluate_cases a loads.isSome with ⟨n, value⟩ | ⟨o, left, right, stuck, failed⟩
  · rw [value] at ran
    exact .inl ⟨n, value, ran⟩
  · rw [failed] at ran
    exact .inr ⟨o, left, right, stuck, failed, ran⟩

end Machine.Slots

/-- The level of the expressions that a part of the grammar looks for. -/
def Part.level? : Part → Option Level
  | expression => some .expression
  | item => some .item
  | factor => some .factor
  | _ => none

theorem Part.goals_of_level? {part : Part} {l : Level} (level : part.level? = some l) :
    part.goals = [l.goal] := by
  cases part <;> cases level <;> rfl

/-- The tokens of a part of an expression derive nothing else. -/
theorem Expression.Derives.tree_eq {l : Level} {ts : List Token} {e f : Expression}
    (h : Derives l ts e) (h' : Derives l ts f) : e = f := by
  have loosest : l.looseness ≤ Level.expression.looseness := by cases l <;> decide
  have stop := stops_semicolon (t := ⟨.semicolon, .text ";", .start "", .start ""⟩) rfl []
  exact ((h.loosen loosest).unique (h'.loosen loosest) rfl stop stop).2

namespace PassM

/-- From any state, whatever its names and its code: where an expression, an item or a factor is
found, the tokens taken derive one tree, and the code added computes the value of this tree on any
stack, with names read from their slots. Slots and the cells below are left alone, nothing is
written, and the run stops where the tree meets an operation without a result. Behind any other code
the same is found and the same code is added. -/
theorem computes_of_find {part : Part} {l : Level} {s s' : Pass} (level : part.level? = some l)
    (found : act (.find part) s = .ok () s') :
    ∃ ts e is, s.Leads ts s' ∧ Derives l ts e ∧ (∀ f, Derives l ts f → f = e) ∧
      s'.code.toList = s.code.toList ++ is ∧
      (∀ (a : Arithmetic) (m : Machine.Slots), s.scope.IsSetIn m.slots →
        m.Computes a is (e.evaluate a (s.scope.store m.slots))) ∧
      ∀ code, act (.find part) { s with code } = .ok () { s' with code := code ++ is } := by
  have goals := Part.goals_of_level? level
  have ran : run part.goals s = .ok () s' := found
  obtain ⟨is, added, others⟩ := run_behind ran
  rw [goals] at ran
  obtain ⟨ts, e, derives, readable, emits⟩ := emits_of_run ran
  obtain rfl : is = e.code s.scope.names :=
    List.append_cancel_left (added.symm.trans emits.code)
  refine ⟨ts, e, _, emits.leads, derives, ?_, added, ?_, others⟩
  · intro f other
    exact other.tree_eq derives
  · intro a m set
    exact Machine.Slots.computes_code readable set

/-- The code of a sign and a group, behind other code and above another value. -/
theorem computes_of_find_signed :
    ∃ s' is n,
      act (.find .expression)
        { ({ limit := 9 } : Options).pass "" "-(x-2)*3;" with
          scope := ⟨[⟨"x", false, true, none⟩, ⟨"y", false, false, none⟩], by simp⟩
          code := #[.wrt] } = .ok () s' ∧
      s'.code.toList = .wrt :: is ∧
      Machine.Slots.exec .integers ⟨[7], fun slot => if slot = 0 then some 5 else none⟩ is =
        ⟨[], .ok ⟨[n, 7], fun slot => if slot = 0 then some 5 else none⟩⟩ := by
  obtain ⟨s', found⟩ : ∃ s', act (.find .expression)
      { ({ limit := 9 } : Options).pass "" "-(x-2)*3;" with
        scope := ⟨[⟨"x", false, true, none⟩, ⟨"y", false, false, none⟩], by simp⟩
        code := #[.wrt] } = .ok () s' := ⟨_, by cbv⟩
  obtain ⟨ts, e, is, _, _, _, added, computes, _⟩ := computes_of_find rfl found
  have set : Scope.IsSetIn ⟨[⟨"x", false, true, none⟩, ⟨"y", false, false, none⟩], by simp⟩
      fun slot => if slot = 0 then some 5 else none := by
    simp [Scope.IsSetIn, Scope.entries]
  rcases computes .integers ⟨[7], fun slot => if slot = 0 then some 5 else none⟩ set with
    ⟨n, _, ran⟩ | ⟨o, left, right, stuck, _⟩
  · exact ⟨s', is, n, found, added, ran⟩
  · have result := Arithmetic.integers_isSome o left right
    rw [stuck] at result
    cases result

end PassM
end OnePass
