import OnePass.Proofs.Pass.Effects
import OnePass.Proofs.Program.Scopes

/-!
What the goals of a run take for granted about names. Between the place where a declaration checks
its name and the place where it adds it, no name is added, so the name is still new there. And
between the place where an assignment finds its target and the place where it gives it a value, no
name changes, so the entry found is still the entry of the name.
-/

namespace OnePass

namespace Goal

/-- The goals that may lead to a change of names. -/
def touches : Goal → Bool
  | consts | constantName | constantValue _ | constantEnd _ _ => true
  | vars | variableName | variableValue _ | variableEnd _ _ => true
  | statements | statement | assignment | assignmentEnd _ _ => true
  | _ => false

/-- The goals that rely on what was known of a name before. -/
def relies : Goal → Bool
  | constantValue _ | constantEnd _ _ | variableValue _ | variableEnd _ _ => true
  | assignmentEnd _ _ => true
  | _ => false

/-- What a goal takes for granted about names. A statement is taken up where it arises, and is never
left for later; and no store is, since it depends on the mode. -/
def Fits (scope : Scope) : Goal → Prop
  | constantValue t | constantEnd t _ | variableValue t | variableEnd t _ =>
    t.spelling ∉ scope.names
  | assignmentEnd t target =>
    scope.find? t.spelling = some target ∧ target.declaration.isConstant = false
  | emit i => ∀ slot, i ≠ .sto slot
  | statement | assignment | output => False
  | _ => True

/-- All goals fit, and nothing that changes names stands before a goal that relies on them. -/
structure Settled (scope : Scope) (goals : List Goal) : Prop where
  fits : ∀ g ∈ goals, g.Fits scope
  apart : goals.Pairwise fun g h => g.touches = true → h.relies = false

variable {scope scope' : Scope} {g h : Goal} {goals rest : List Goal}
  {added : Bool → List Instruction}

theorem Fits.other (fits : g.Fits scope) (free : g.relies = false) : g.Fits scope' := by
  cases g <;> first | exact fits | cases free

theorem settled_program (scope : Scope) : Settled scope program :=
  ⟨by simp [program, body, Fits], by decide⟩

/-- What a goal leaves relies on the names that it leaves. -/
structure Leaves (scope scope' : Scope) (g : Goal) (goals : List Goal) : Prop where
  changes : scope' = scope ∨ g.touches = true
  settled : Settled scope' goals
  touches : ∀ h ∈ goals, h.touches = true → g.touches = true

theorem Leaves.of_nil (changes : scope' = scope ∨ g.touches = true) : Leaves scope scope' g [] :=
  ⟨changes, ⟨by simp, .nil⟩, by simp⟩

/-- Goals that rely on no names may be left by any goal that changes as much as they do. -/
theorem Leaves.of_free (free : ∀ h ∈ goals, h.Fits scope ∧ h.relies = false)
    (touches : ∀ h ∈ goals, h.touches = true → g.touches = true) : Leaves scope scope g goals := by
  refine ⟨.inl rfl, ⟨fun h member => (free h member).1, ?_⟩, touches⟩
  rw [List.pairwise_iff_forall_sublist]
  intro _ h sublist _
  exact (free h (sublist.subset (by simp))).2

/-- Other goals still fit after a step. -/
theorem Settled.step (settled : Settled scope (g :: rest)) (leaves : Leaves scope scope' g goals) :
    Settled scope' (goals ++ rest) := by
  obtain ⟨fits, apart⟩ := settled
  rw [List.pairwise_cons] at apart
  constructor
  · intro h member
    rcases List.mem_append.mp member with now | later
    · exact leaves.settled.fits h now
    · have before := fits h (List.mem_cons_of_mem g later)
      rcases leaves.changes with same | touches
      · rwa [same]
      · exact before.other (apart.1 h later touches)
  · rw [List.pairwise_append]
    refine ⟨leaves.settled.apart, apart.2, ?_⟩
    intro h member k later touches
    exact apart.1 k later (leaves.touches h member touches)

/-- One goal that relies on names may be left behind goals that change none. -/
theorem Leaves.of_relies (others : List Goal) (fits : h.Fits scope) (touching : g.touches = true)
    (free : ∀ k ∈ others, k.Fits scope ∧ k.relies = false ∧ k.touches = false) :
    Leaves scope scope g (others ++ [h]) := by
  refine ⟨.inl rfl, ⟨?_, ?_⟩, fun _ _ _ => touching⟩
  · rw [List.forall_mem_append]
    exact ⟨fun k member => (free k member).1, by simpa using fits⟩
  · rw [List.pairwise_append]
    refine ⟨?_, by simp, ?_⟩
    · rw [List.pairwise_iff_forall_sublist]
      intro _ k sublist _
      exact (free k (sublist.subset (by simp))).2.1
    · intro k member _ _ touches
      rw [(free k member).2.2] at touches
      cases touches

theorem Begins.leaves (begins : Begins scope goals) (touching : g.touches = true) :
    Leaves scope scope g goals := by
  cases begins with
  | @assignment name e found assigned =>
    exact .of_relies [.expect .equals, expression] ⟨found, assigned⟩ touching
      (by simp [Fits, relies, Goal.touches])
  | output => exact .of_free (by simp [Fits, relies]) fun _ _ _ => touching
  | empty => exact .of_nil (.inl rfl)

theorem Continues.leaves (continues : Continues scope g goals) (fits : g.Fits scope) :
    Leaves scope scope g goals := by
  cases continues
  case constantName new =>
    exact .of_relies [.expect .equals] new rfl (by simp [Fits, relies, Goal.touches])
  case variableName new => exact .of_relies [] new rfl (by simp)
  case constantValue | plain => exact .of_relies [] fits rfl (by simp)
  case initialized =>
    exact .of_relies [Goal.expression] fits rfl (by simp [Fits, relies, Goal.touches])
  case anotherStatement begins =>
    obtain ⟨_, settled, _⟩ := begins.leaves (g := statements) rfl
    refine ⟨.inl rfl, ⟨?_, ?_⟩, fun _ _ _ => rfl⟩
    · rw [List.forall_mem_append]
      exact ⟨settled.fits, by simp [Fits]⟩
    · rw [List.pairwise_append]
      exact ⟨settled.apart, by simp, by simp [relies]⟩
  case statement | assignment | output => exact fits.elim
  all_goals exact .of_free (by simp [Fits, relies]) (by simp [Goal.touches])

/-- Whatever a step leaves fits the names that it leaves. -/
theorem Does.leaves (does : Does scope g goals scope' added) (fits : g.Fits scope) :
    Leaves scope scope' g goals := by
  cases does with
  | continues continues => exact continues.leaves fits
  | negative => exact .of_free (by simp [Fits, relies]) (by simp [touches])
  | constantEnd | variableEnd | assignmentAgain | firstAssignment => exact .of_nil (.inr rfl)
  | emit | name | number => exact .of_nil (.inl rfl)

end Goal

namespace PassM

open Goal

variable {s s' : Pass} {g : Goal} {goals rest : List Goal}

/-- Goals that fit the names of a state fit after each step. -/
theorem settled_of_step (settled : Settled s.scope (g :: rest)) (h : step g s = .ok goals s') :
    Settled s'.scope (goals ++ rest) := by
  obtain ⟨_, does, _⟩ := does_of_step h
  exact settled.step (does.leaves (settled.fits g List.mem_cons_self))

/-- A goal that touches no names changes none, and neither does what it leaves. -/
theorem untouched_of_step (settled : Settled s.scope (g :: rest)) (untouched : g.touches = false)
    (h : step g s = .ok goals s') :
    s'.scope = s.scope ∧ ∀ h ∈ goals, h.touches = false := by
  obtain ⟨_, does, _⟩ := does_of_step h
  have leaves := does.leaves (settled.fits g List.mem_cons_self)
  refine ⟨leaves.changes.resolve_right (by simp [untouched]), ?_⟩
  intro h member
  rw [Bool.eq_false_iff]
  intro touching
  have := leaves.touches h member touching
  rw [untouched] at this
  cases this

end PassM
end OnePass
