import OnePass.Instruction

/-!
What running a program means, whatever the operations compute: each operation may have a result or
none, and a run writes numbers until it ends or meets a fault.
-/

namespace OnePass

/-- The results of operations, where they have one. -/
abbrev Arithmetic := Operation → Int → Int → Option Int

inductive Fault where
  /-- An operation without a result. -/
  | undefined (o : Operation) (left right : Int)
  /-- A name or slot that has no value. -/
  | unset
  /-- A stack with too few values. -/
  | underflow
  deriving DecidableEq

/-- The result of an operation. -/
def Arithmetic.apply (a : Arithmetic) (o : Operation) (left right : Int) : Except Fault Int :=
  match a o left right with
  | some n => .ok n
  | none => .error (.undefined o left right)

/-- The numbers written, and the state or the fault at the end. -/
structure Run (σ : Type) where
  output : List Int
  result : Except Fault σ

namespace Run

variable {σ τ υ : Type}

/-- A run that writes nothing. -/
def silent (result : Except Fault σ) : Run σ := ⟨[], result⟩

/-- Go on after a run that has not met a fault. -/
def andThen (r : Run σ) (next : σ → Run τ) : Run τ :=
  match r.result with
  | .ok s => ⟨r.output ++ (next s).output, (next s).result⟩
  | .error f => ⟨r.output, .error f⟩

@[simp]
theorem silent_ok_andThen (s : σ) (next : σ → Run τ) : (silent (.ok s)).andThen next = next s := rfl

@[simp]
theorem silent_error_andThen (f : Fault) (next : σ → Run τ) :
    (silent (.error f)).andThen next = silent (.error f) := rfl

theorem andThen_assoc (r : Run σ) (f : σ → Run τ) (g : τ → Run υ) :
    (r.andThen f).andThen g = r.andThen fun s => (f s).andThen g := by
  rcases r with ⟨output, f' | s⟩
  · rfl
  · simp only [andThen]
    cases (f s).result <;> simp

end Run
end OnePass
