import OnePass.Compilation
import OnePass.Proofs.Pass.Agreement
import OnePass.Proofs.Pass.Settled

/-!
The two modes on one text. Both passes take the same tokens, know the same names and fail alike; the
code differs by the first store into each slot, which only one of them emits. What keeps them
together is that the slots stored into so far are those of the variables with a value.
-/

namespace OnePass

namespace Instruction

/-- The code without the first store into each slot, where some slots have been stored into. -/
def withoutFirstStores (stored : List Int) : List Instruction → List Instruction
  | [] => []
  | .sto slot :: is =>
    if slot ∈ stored then .sto slot :: withoutFirstStores stored is
    else withoutFirstStores (slot :: stored) is
  | i :: is => i :: withoutFirstStores stored is

variable {stored : List Int} {is : List Instruction} {i : Instruction} {slot : Int}

theorem withoutFirstStores_cons (other : ∀ slot, i ≠ .sto slot) :
    withoutFirstStores stored (i :: is) = i :: withoutFirstStores stored is := by
  cases i with
  | sto slot => exact absurd rfl (other slot)
  | _ => rfl

theorem withoutFirstStores_sto :
    withoutFirstStores stored (.sto slot :: is) =
      if slot ∈ stored then .sto slot :: withoutFirstStores stored is
      else withoutFirstStores (slot :: stored) is := rfl

/-- What is no store is kept at the end. -/
theorem withoutFirstStores_push (other : ∀ slot, i ≠ .sto slot) :
    withoutFirstStores stored (is ++ [i]) = withoutFirstStores stored is ++ [i] := by
  induction is generalizing stored with
  | nil => exact withoutFirstStores_cons other
  | cons j is inductionHypothesis =>
    by_cases store : ∃ slot, j = .sto slot
    · obtain ⟨slot, rfl⟩ := store
      simp only [List.cons_append, withoutFirstStores_sto, inductionHypothesis]
      split <;> rfl
    · have others : ∀ slot, j ≠ .sto slot := fun slot same => store ⟨slot, same⟩
      rw [List.cons_append, withoutFirstStores_cons others, withoutFirstStores_cons others,
        inductionHypothesis, List.cons_append]

/-- A store at the end is kept unless it is the first one into its slot. -/
theorem withoutFirstStores_push_sto :
    withoutFirstStores stored (is ++ [.sto slot]) =
      withoutFirstStores stored is ++
        if slot ∈ stored ∨ .sto slot ∈ is then [.sto slot] else [] := by
  induction is generalizing stored with
  | nil =>
    rw [List.nil_append, withoutFirstStores_sto]
    simp [withoutFirstStores]
  | cons j is inductionHypothesis =>
    by_cases store : ∃ slot, j = .sto slot
    · obtain ⟨slot', rfl⟩ := store
      simp only [List.cons_append, withoutFirstStores_sto, inductionHypothesis]
      by_cases before : slot' ∈ stored
      · by_cases same : slot = slot' <;> simp [before, same]
      · by_cases same : slot = slot' <;> simp [before, same]
    · have others : ∀ slot, j ≠ .sto slot := fun slot same => store ⟨slot, same⟩
      have different : .sto slot ≠ j := (others slot).symm
      rw [List.cons_append, withoutFirstStores_cons others, withoutFirstStores_cons others,
        inductionHypothesis, List.cons_append]
      simp [different]

example : withoutFirstStores [] [.lit 1, .sto 0, .lit 2, .sto 0] = [.lit 1, .lit 2, .sto 0] := rfl

end Instruction

open Instruction

namespace Scope

variable {scope scope' : Scope} {d : Declaration} {e : Entry} {name : String} {slot : Int}

/-- A variable that has a value is in this slot. -/
def Holds (scope : Scope) (slot : Int) : Prop :=
  ∃ e ∈ scope.entries, (e.slot : Int) = slot ∧ e.declaration.isConstant = false ∧
    e.declaration.isInitialized = true

theorem holds_slot_iff (member : e ∈ scope.entries) (assigned : e.declaration.isConstant = false) :
    scope.Holds e.slot ↔ e.declaration.isInitialized = true := by
  constructor
  · rintro ⟨e', member', same, _, valued⟩
    rwa [eq_of_slot_eq member member' (Int.ofNat_inj.mp same).symm]
  · intro valued
    exact ⟨e, member, rfl, assigned, valued⟩

theorem not_holds_size (scope : Scope) : ¬scope.Holds scope.size := by
  rintro ⟨e, member, same, _⟩
  exact Nat.ne_of_lt (slot_lt_length member) (Int.ofNat_inj.mp same)

theorem holds_of_declare (h : scope.declare d = .ok scope') :
    scope'.Holds slot ↔
      scope.Holds slot ∨
        slot = scope.size ∧ d.isConstant = false ∧ d.isInitialized = true := by
  simp only [Holds, mem_entries_of_declare h, or_and_right, exists_or, exists_eq_left]
  rw [@eq_comm _ slot]

theorem holds_withValue (found : scope.find? name = some e)
    (assigned : e.declaration.isConstant = false) :
    (scope.withValue name).Holds slot ↔ scope.Holds slot ∨ slot = e.slot := by
  have member := (mem_entries_of_find? found).1
  simp only [Holds, mem_entries_withValue found]
  constructor
  · rintro ⟨e', rfl | ⟨member', _⟩, same, rest⟩
    · exact .inr same.symm
    · exact .inl ⟨e', member', same, rest⟩
  · rintro (⟨e', member', same, rest⟩ | same)
    · by_cases here : e'.slot = e.slot
      · exact ⟨_, .inl rfl, by rw [← same, here], assigned, rfl⟩
      · exact ⟨e', .inr ⟨member', here⟩, same, rest⟩
    · exact ⟨_, .inl rfl, same.symm, assigned, rfl⟩

/-- The slots stored into are those of the variables that have a value. -/
def Stored (scope : Scope) (is : List Instruction) : Prop :=
  ∀ slot, .sto slot ∈ is ↔ scope.Holds slot

variable {is : List Instruction} {i : Instruction}

/-- What is no store may be added in both modes. -/
theorem Stored.push (stored : scope.Stored is) (other : ∀ slot, i ≠ .sto slot)
    (same : ∀ slot, scope'.Holds slot ↔ scope.Holds slot) :
    scope'.Stored (is ++ [i]) ∧
      withoutFirstStores [] (is ++ [i]) = withoutFirstStores [] is ++ [i] := by
  refine ⟨?_, withoutFirstStores_push other⟩
  intro slot
  rw [same, ← stored slot, List.mem_append, List.mem_singleton, or_iff_left (other slot).symm]

/-- The first store into a slot is added in one mode only. -/
theorem Stored.push_first (stored : scope.Stored is) (new : ¬scope.Holds slot)
    (grows : ∀ slot', scope'.Holds slot' ↔ scope.Holds slot' ∨ slot' = slot) :
    scope'.Stored (is ++ [.sto slot]) ∧
      withoutFirstStores [] (is ++ [.sto slot]) = withoutFirstStores [] is ++ [] := by
  constructor
  · intro slot'
    rw [grows, ← stored slot']
    simp
  · rw [withoutFirstStores_push_sto, if_neg]
    rw [stored slot]
    simpa using new

/-- A later store is added in both modes. -/
theorem Stored.push_again (stored : scope.Stored is) (again : scope.Holds slot) :
    scope.Stored (is ++ [.sto slot]) ∧
      withoutFirstStores [] (is ++ [.sto slot]) = withoutFirstStores [] is ++ [.sto slot] := by
  constructor
  · intro slot'
    rw [← stored slot', List.mem_append, List.mem_singleton, or_iff_left_iff_imp]
    rintro ⟨⟩
    exact (stored slot).mpr again
  · rw [withoutFirstStores_push_sto, if_pos (.inr ((stored slot).mpr again))]

end Scope

namespace Goal

variable {scope scope' : Scope} {g : Goal} {goals : List Goal} {is : List Instruction}
  {added : Bool → List Instruction}

/-- What a step adds in the one mode is what it adds in the other without first stores. -/
theorem Does.stored (does : Does scope g goals scope' added) (fits : g.Fits scope)
    (stored : scope.Stored is) :
    scope'.Stored (is ++ added true) ∧
      withoutFirstStores [] (is ++ added true) = withoutFirstStores [] is ++ added false := by
  cases does with
  | continues => simpa using stored
  | emit => exact stored.push fits fun _ => Iff.rfl
  | negative | name | number => exact stored.push (by simp) fun _ => Iff.rfl
  | constantEnd declared =>
    apply stored.push (by simp)
    intro slot
    rw [Scope.holds_of_declare declared]
    simp
  | @variableEnd name hasValue _ declared =>
    cases hasValue with
    | true =>
      apply stored.push_first scope.not_holds_size
      intro slot
      rw [Scope.holds_of_declare declared]
      simp
    | false =>
      simp only [Bool.false_and, Bool.false_eq_true, if_false, List.append_nil, and_true]
      intro slot
      rw [stored, Scope.holds_of_declare declared]
      simp
  | assignmentAgain valued =>
    obtain ⟨found, assigned⟩ := fits
    have member := (Scope.mem_entries_of_find? found).1
    exact stored.push_again ((Scope.holds_slot_iff member assigned).mpr valued)
  | firstAssignment unset marked =>
    obtain ⟨found, assigned⟩ := fits
    have member := (Scope.mem_entries_of_find? found).1
    rw [Scope.eq_withValue_of_markInitialized? marked]
    apply stored.push_first
    · rw [Scope.holds_slot_iff member assigned, unset]
      simp
    · intro slot
      exact Scope.holds_withValue found assigned

end Goal

/-- The same pass in the mode that leaves first values on the stack. -/
def Pass.leaving (s : Pass) : Pass := s.coded false (withoutFirstStores [] s.code.toList)

namespace PassM

open Goal

variable {s s' : Pass} {g : Goal} {goals : List Goal}

/-- A step of the one mode is a step of the other, and keeps them together. -/
theorem leaving_of_step (mode : s.storesFirst = true) (fits : g.Fits s.scope)
    (stored : s.scope.Stored s.code.toList) (h : step g s = .ok goals s') :
    s'.scope.Stored s'.code.toList ∧ step g s.leaving = .ok goals s'.leaving := by
  obtain ⟨added, does, _, code, same⟩ := does_of_step h
  rw [mode] at code
  obtain ⟨after, without⟩ := does.stored fits stored
  refine ⟨code ▸ after, ?_⟩
  rw [Pass.leaving, same, Pass.leaving, code, without]

/-- A run of the one mode is a run of the other. -/
theorem run_leaving (mode : s.storesFirst = true) (settled : Settled s.scope goals)
    (stored : s.scope.Stored s.code.toList) :
    run goals s.leaving =
      match run goals s with
      | .ok u s' => .ok u s'.leaving
      | .error d s' => .error d s'.leaving := by
  fun_induction run goals s with
  | case1 s => exact run_nil s.leaving
  | case2 s g rest goals s' taken inductionHypothesis =>
    have fits := settled.fits g List.mem_cons_self
    obtain ⟨after, other⟩ := leaving_of_step mode fits stored taken
    obtain ⟨_, _, same, _⟩ := does_of_step taken
    rw [run_cons, other]
    exact inductionHypothesis (same.trans mode) (settled_of_step settled taken) after
  | case3 s g rest d s' failed =>
    obtain ⟨code, same⟩ := coded_of_step_error failed
    rw [run_cons, Pass.leaving, same, ← code]
    rfl

end PassM

/-- The two modes on one text. Both end well, with the same names, or both fail with the same error
and the same names; and the code of the one is that of the other without the first store into each
slot. -/
theorem Options.runPass_leaving (o : Options) (file source : String) :
    match { o with storesFirst := true }.runPass file source,
      { o with storesFirst := false }.runPass file source with
    | .ok _ s, .ok _ s' =>
      s'.scope = s.scope ∧ s'.code.toList = withoutFirstStores [] s.code.toList
    | .error d s, .error d' s' =>
      d' = d ∧ s'.scope = s.scope ∧ s'.code.toList = withoutFirstStores [] s.code.toList
    | _, _ => False := by
  have stored : Scope.empty.Stored [] := by
    intro slot
    simp [Scope.Holds, Scope.empty, Scope.entries]
  have other := PassM.run_leaving (s := { o with storesFirst := true }.pass file source) rfl
    (Goal.settled_program _) stored
  cases ran : PassM.run Goal.program ({ o with storesFirst := true }.pass file source) with
  | ok u s =>
    rw [ran] at other
    have first : { o with storesFirst := true }.runPass file source = _ := PassM.bind_of_ok ran
    have second : { o with storesFirst := false }.runPass file source = _ := PassM.bind_of_ok other
    rw [first, second]
    exact ⟨rfl, rfl⟩
  | error d s =>
    rw [ran] at other
    have first : { o with storesFirst := true }.runPass file source = _ := PassM.bind_of_error ran
    have second : { o with storesFirst := false }.runPass file source = _ :=
      PassM.bind_of_error other
    rw [first, second]
    exact ⟨rfl, rfl, rfl⟩

end OnePass
