import OnePass.Machine.Slots

/-!
How instructions change the height of the operand stack. The values do not matter: an instruction
lacks an operand exactly when the stack is lower than what it pops.
-/

namespace OnePass

namespace Instruction

/-- How many operands an instruction takes off the stack. -/
def pops : Instruction → Nat
  | .lit _ | .lod _ => 0
  | .sto _ | .wrt => 1
  | .operate _ => 2

/-- How many values an instruction puts on the stack. -/
def pushes : Instruction → Nat
  | .lit _ | .lod _ | .operate _ => 1
  | .sto _ | .wrt => 0

end Instruction

namespace Machine.Slots

variable {a : Arithmetic} {s s' : Slots} {i : Instruction}

theorem step_underflow_iff :
    (s.step a i).result = .error .underflow ↔ s.stack.length < i.pops := by
  obtain ⟨stack, slots⟩ := s
  cases i with
  | lit n => simp [step, Run.silent, Instruction.pops]
  | lod slot => cases there : slots slot <;> simp [step, Run.silent, Instruction.pops, there]
  | sto slot => cases stack <;> simp [step, Run.silent, Instruction.pops]
  | wrt => cases stack <;> simp [step, Run.silent, Instruction.pops]
  | operate o =>
    rcases stack with _ | ⟨right, _ | ⟨left, stack⟩⟩
    · simp [step, Run.silent, Instruction.pops]
    · simp [step, Run.silent, Instruction.pops]
    · cases value : a o left right <;>
        simp [step, Run.silent, Instruction.pops, Arithmetic.apply, Except.map, value]

theorem length_of_step (h : (s.step a i).result = .ok s') :
    s'.stack.length = s.stack.length - i.pops + i.pushes := by
  obtain ⟨stack, slots⟩ := s
  cases i with
  | lit n =>
    cases h
    rfl
  | lod slot =>
    cases there : slots slot with
    | none => simp [step, Run.silent, there] at h
    | some n =>
      simp only [step, Run.silent, there, Except.ok.injEq] at h
      subst h
      rfl
  | sto slot =>
    cases stack <;> cases h
    rfl
  | wrt =>
    cases stack <;> cases h
    rfl
  | operate o =>
    rcases stack with _ | ⟨right, _ | ⟨left, stack⟩⟩
    · cases h
    · cases h
    · cases value : a o left right with
      | none => simp [step, Run.silent, Arithmetic.apply, Except.map, value] at h
      | some n =>
        simp only [step, Run.silent, Arithmetic.apply, Except.map, value, Except.ok.injEq] at h
        subst h
        rfl

end Machine.Slots
end OnePass
