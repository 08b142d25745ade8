import Mathlib.Logic.Relation
import OnePass.Pass.Run
import OnePass.Proofs.Pass.Position

/-!
The steps of a run, one goal at a time, and the states that a run goes through.
-/

namespace OnePass.PassM

open Relation

/-- The first goal is taken up. -/
inductive Move : List Goal × Pass → List Goal × Pass → Prop
  | take {g goals rest s s'} : step g s = .ok goals s' → Move (g :: rest, s) (goals ++ rest, s')

/-- The state stands somewhere in the run of these goals from a state. -/
def Passes (goals : List Goal) (s s' : Pass) : Prop :=
  ∃ rest, ReflTransGen Move (goals, s) (rest, s')

/-- Unless a violation is met on the way, some goals are left at a state as described. -/
def Reaches (c : List Goal × Pass) (goals : List Goal) (good : Pass → Prop) :
    Option Violation → Prop
  | none => ∃ s, ReflTransGen Move c (goals, s) ∧ good s
  | some v => ∃ g rest s d s', ReflTransGen Move c (g :: rest, s) ∧ step g s = .error d s' ∧
      v.Explains d

variable {g : Goal} {goals rest gs hs : List Goal} {s s' : Pass} {c c' : List Goal × Pass}
  {good better : Pass → Prop} {v w : Option Violation}

theorem run_eq_of_moves (h : ReflTransGen Move c c') : run c.1 c.2 = run c'.1 c'.2 := by
  induction h with
  | refl => rfl
  | tail _ move inductionHypothesis =>
    cases move with
    | take taken =>
      rw [inductionHypothesis, run_cons, taken]

namespace Reaches

theorem here (arrived : good s) : Reaches (goals, s) goals good none :=
  ⟨s, .refl, arrived⟩

theorem step (taken : step g s = .ok goals s') (h : Reaches (goals ++ rest, s') gs good v) :
    Reaches (g :: rest, s) gs good v := by
  cases v with
  | none =>
    obtain ⟨t, moves, arrived⟩ := h
    exact ⟨t, .head (.take taken) moves, arrived⟩
  | some v =>
    obtain ⟨g', rest', t, d, t', moves, failed, explains⟩ := h
    exact ⟨g', rest', t, d, t', .head (.take taken) moves, failed, explains⟩

theorem refused {v : Violation} {d : Diagnostic} (failed : PassM.step g s = .error d s')
    (explains : v.Explains d) : Reaches (g :: rest, s) gs good (some v) :=
  ⟨g, rest, s, d, s', .refl, failed, explains⟩

/-- Go on from where the first part leads; the first violation counts. -/
theorem trans (h : Reaches c gs good v)
    (next : v = none → ∀ s, good s → Reaches (gs, s) hs better w) :
    Reaches c hs better (v.or w) := by
  cases v with
  | some v => exact h
  | none =>
    obtain ⟨s, moves, arrived⟩ := h
    have later := next rfl s arrived
    cases w with
    | none =>
      obtain ⟨t, others, arrived⟩ := later
      exact ⟨t, moves.trans others, arrived⟩
    | some w =>
      obtain ⟨g', rest', t, d, t', others, failed, explains⟩ := later
      exact ⟨g', rest', t, d, t', moves.trans others, failed, explains⟩

/-- Take up the next goal of those that are left. -/
theorem take (h : Reaches c (g :: gs) good v)
    (taken : ∀ s, good s → ∃ s', PassM.step g s = .ok goals s' ∧ better s') :
    Reaches c (goals ++ gs) better v := by
  have next (_ : v = none) (s : Pass) (arrived : good s) :
      Reaches (g :: gs, s) (goals ++ gs) better none := by
    obtain ⟨s', took, after⟩ := taken s arrived
    exact .step took (.here after)
  simpa using h.trans next

theorem imp (h : Reaches c gs good v) (every : ∀ s, good s → better s) :
    Reaches c gs better v := by
  cases v with
  | some v => exact h
  | none =>
    obtain ⟨s, moves, arrived⟩ := h
    exact ⟨s, moves, every s arrived⟩

/-- What is reached with no goals left is the end of the run. -/
theorem run_eq_ok (h : Reaches (goals, s) [] good none) :
    ∃ s', run goals s = .ok () s' ∧ good s' := by
  obtain ⟨t, moves, arrived⟩ := h
  exact ⟨t, (run_eq_of_moves moves).trans (run_nil t), arrived⟩

theorem run_eq_error {v : Violation} (h : Reaches (goals, s) gs good (some v)) :
    ∃ d s', run goals s = .error d s' ∧ v.Explains d := by
  obtain ⟨g, rest, t, d, t', moves, failed, explains⟩ := h
  refine ⟨d, t', ?_, explains⟩
  rw [run_eq_of_moves moves, run_cons, failed]

end Reaches
end OnePass.PassM
