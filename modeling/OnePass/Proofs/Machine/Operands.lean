import OnePass.Machine.Cells
import OnePass.Machine.Slots
import OnePass.Program.Evaluation
import OnePass.Proofs.Program.NameRules

/-!
The code of an expression pushes its value, on any machine whose states have a place for operands
that the slots do not depend on. Both machines are of that kind.
-/

namespace OnePass

namespace Run

variable {σ τ σ' τ' : Type} {a : Arithmetic} {related : σ → τ → Prop} {later : σ' → τ' → Prop}
  {r : Run σ} {r' : Run τ}

/-- Two runs write the same, and end in related states or at the same operation without a
result. -/
inductive Alike (a : Arithmetic) (related : σ → τ → Prop) : Run σ → Run τ → Prop where
  | ok {output s t} : related s t → Alike a related ⟨output, .ok s⟩ ⟨output, .ok t⟩
  | undefined {output o left right} : a o left right = none →
      Alike a related ⟨output, .error (.undefined o left right)⟩
        ⟨output, .error (.undefined o left right)⟩

namespace Alike

theorem andThen {f : σ → Run σ'} {g : τ → Run τ'} (first : Alike a related r r')
    (next : ∀ s t, related s t → Alike a later (f s) (g t)) :
    Alike a later (r.andThen f) (r'.andThen g) := by
  cases first with
  | @ok output s t here =>
    have rest := next s t here
    simp only [Run.andThen]
    generalize f s = x at rest
    generalize g t = y at rest
    cases rest with
    | ok there => exact .ok there
    | undefined stuck => exact .undefined stuck
  | undefined stuck => exact .undefined stuck

theorem imp {stronger : σ → τ → Prop} (h : Alike a related r r')
    (every : ∀ s t, related s t → stronger s t) : Alike a stronger r r' := by
  cases h with
  | ok here => exact .ok (every _ _ here)
  | undefined stuck => exact .undefined stuck

end Alike

end Run

/-- The integers, with division towards zero. -/
def Arithmetic.integers : Arithmetic
  | .add, left, right => some (left + right)
  | .sub, left, right => some (left - right)
  | .mul, left, right => some (left * right)
  | .div, left, right => some (left.tdiv right)

theorem Arithmetic.integers_isSome (o : Operation) (left right : Int) :
    (integers o left right).isSome := by
  cases o <;> rfl

theorem Arithmetic.apply_cases (a : Arithmetic) (o : Operation) (left right : Int) :
    (∃ n, a.apply o left right = .ok n) ∨
      a o left right = none ∧ a.apply o left right = .error (.undefined o left right) := by
  unfold apply
  cases a o left right with
  | some n => exact .inl ⟨n, rfl⟩
  | none => exact .inr ⟨rfl, rfl⟩

/-- An expression whose names have values has a value, or meets an operation without a result. -/
theorem Expression.evaluate_cases (a : Arithmetic) {store : Store} {e : Expression}
    (valued : ∀ t ∈ e.reads, (store t.spelling).isSome) :
    (∃ n, e.evaluate a store = .ok n) ∨
      ∃ o left right, a o left right = none ∧
        e.evaluate a store = .error (.undefined o left right) := by
  induction e with
  | name t =>
    obtain ⟨n, value⟩ := Option.isSome_iff_exists.mp (valued t (by simp [reads]))
    exact .inl ⟨n, by simp [evaluate, value]⟩
  | number t => exact .inl ⟨_, rfl⟩
  | group e inductionHypothesis => exact inductionHypothesis valued
  | positive e inductionHypothesis => exact inductionHypothesis valued
  | negative e inductionHypothesis =>
    rcases inductionHypothesis valued with ⟨n, value⟩ | ⟨o, left, right, stuck, failed⟩
    · rw [evaluate, value]
      rcases a.apply_cases .sub 0 n with result | ⟨stuck, failed⟩
      · exact .inl result
      · exact .inr ⟨_, _, _, stuck, failed⟩
    · exact .inr ⟨o, left, right, stuck, by rw [evaluate, failed]; rfl⟩
  | binary o l r first second =>
    simp only [reads, List.mem_append] at valued
    rcases first fun t member => valued t (.inl member) with
      ⟨left, leftValue⟩ | ⟨o, left, right, stuck, failed⟩
    · rcases second fun t member => valued t (.inr member) with
        ⟨right, rightValue⟩ | ⟨o, left, right, stuck, failed⟩
      · rw [evaluate, leftValue, rightValue]
        rcases a.apply_cases o left right with result | ⟨stuck, failed⟩
        · exact .inl result
        · exact .inr ⟨_, _, _, stuck, failed⟩
      · exact .inr ⟨o, left, right, stuck, by rw [evaluate, leftValue, failed]; rfl⟩
    · exact .inr ⟨o, left, right, stuck, by rw [evaluate, failed]; rfl⟩

namespace Machine

/-- A machine on whose states operands are pushed, above everything that can be loaded. -/
structure Operands (a : Arithmetic) (σ : Type) where
  exec : σ → List Instruction → Run σ
  push : σ → Int → σ
  load? : σ → Int → Option Int
  exec_nil : ∀ s, exec s [] = .silent (.ok s)
  exec_append : ∀ s is js, exec s (is ++ js) = (exec s is).andThen fun s => exec s js
  exec_lit : ∀ s n, exec s [.lit n] = .silent (.ok (push s n))
  exec_lod : ∀ {s slot n}, load? s slot = some n → exec s [.lod slot] = .silent (.ok (push s n))
  exec_operate : ∀ s o left right, exec (push (push s left) right) [.operate o] =
    .silent ((a.apply o left right).map (push s))
  exec_wrt : ∀ s n, exec (push s n) [.wrt] = ⟨[n], .ok s⟩
  load?_push : ∀ {s slot n} (m : Int), load? s slot = some n → load? (push s m) slot = some n

theorem Slots.exec_singleton (a : Arithmetic) (s : Slots) (i : Instruction) :
    s.exec a [i] = s.step a i := by
  simp only [exec]
  rcases s.step a i with ⟨output, f | s'⟩ <;> simp [Run.andThen, Run.silent]

theorem Cells.exec_singleton (a : Arithmetic) (s : Cells) (i : Instruction) :
    Cells.exec a s [i] = Cells.step a s i := by
  simp only [exec]
  rcases s.step a i with ⟨output, f | s'⟩ <;> simp [Run.andThen, Run.silent]

def Slots.operands (a : Arithmetic) : Operands a Slots where
  exec s is := s.exec a is
  push := Slots.push
  load? s slot := s.slots slot
  exec_nil _ := rfl
  exec_append := Slots.exec_append a
  exec_lit _ _ := rfl
  exec_lod {s slot n} loads := by
    rw [Slots.exec_singleton, Slots.step, loads]
  exec_operate s o left right := by
    rw [Slots.exec_singleton]
    rfl
  exec_wrt s n := by
    rw [Slots.exec_singleton]
    rfl
  load?_push _ loads := loads

theorem Cells.cell?_cons {s : Cells} {slot n : Int} (m : Int) (loads : s.cell? slot = some n) :
    Cells.cell? (m :: s) slot = some n := by
  unfold cell? at *
  split at loads
  next notNegative =>
    rw [if_pos notNegative, List.reverse_cons]
    exact List.getElem?_append_left (List.getElem?_eq_some_iff.mp loads).1 ▸ loads
  next => cases loads

def Cells.operands (a : Arithmetic) : Operands a Cells where
  exec := Cells.exec a
  push s n := n :: s
  load? := Cells.cell?
  exec_nil _ := rfl
  exec_append := Cells.exec_append a
  exec_lit _ _ := rfl
  exec_lod {s slot n} loads := by
    rw [Cells.exec_singleton, Cells.step, loads]
  exec_operate s o left right := by
    rw [Cells.exec_singleton]
    rfl
  exec_wrt s n := by
    rw [Cells.exec_singleton]
    rfl
  load?_push m loads := Cells.cell?_cons m loads

namespace Operands

variable {a : Arithmetic} {σ : Type} {m : Operands a σ} {names : List String} {store : Store}
  {s : σ}

/-- The names of an expression have values, and these can be loaded. -/
def Loads (m : Operands a σ) (names : List String) (store : Store) (s : σ) (e : Expression) :
    Prop :=
  ∀ t ∈ e.reads, ∃ n, store t.spelling = some n ∧ m.load? s (names.idxOf t.spelling) = some n

theorem Loads.isSome {e : Expression} (loads : m.Loads names store s e) :
    ∀ t ∈ e.reads, (store t.spelling).isSome := by
  intro t member
  obtain ⟨n, value, _⟩ := loads t member
  simp [value]

theorem Loads.push {e : Expression} (loads : m.Loads names store s e) (n : Int) :
    m.Loads names store (m.push s n) e := by
  intro t member
  obtain ⟨k, value, loaded⟩ := loads t member
  exact ⟨k, value, m.load?_push n loaded⟩

theorem exec_expression {e : Expression} (loads : m.Loads names store s e) :
    m.exec s (e.code names) = .silent ((e.evaluate a store).map (m.push s)) := by
  induction e generalizing s with
  | name t =>
    obtain ⟨n, value, loaded⟩ := loads t (by simp [Expression.reads])
    simp [Expression.code, Expression.evaluate, value, m.exec_lod loaded, Except.map]
  | number t => exact m.exec_lit s _
  | group e inductionHypothesis => exact inductionHypothesis loads
  | positive e inductionHypothesis => exact inductionHypothesis loads
  | negative e inductionHypothesis =>
    have inner := inductionHypothesis (Loads.push loads 0)
    rw [Expression.code, ← List.singleton_append, List.append_assoc, m.exec_append, m.exec_lit,
      Run.silent_ok_andThen, m.exec_append, inner, Expression.evaluate]
    cases e.evaluate a store with
    | ok n => exact m.exec_operate s .sub 0 n
    | error f => rfl
  | binary o l r first second =>
    have leftLoads : m.Loads names store s l := by
      intro t member
      exact loads t (List.mem_append_left _ member)
    have rightLoads : m.Loads names store s r := by
      intro t member
      exact loads t (List.mem_append_right _ member)
    have left := first leftLoads
    have right (n : Int) := second (rightLoads.push n)
    rw [Expression.code, List.append_assoc, m.exec_append, left, Expression.evaluate]
    cases l.evaluate a store with
    | ok n =>
      change m.exec (m.push s n) (r.code names ++ [.operate o]) = _
      rw [m.exec_append, right n]
      cases r.evaluate a store with
      | ok k => exact m.exec_operate s o n k
      | error f => rfl
    | error f => rfl

/-- Giving a name the value of an expression, whatever is done with the value on the stack. -/
theorem alike_bind {e : Expression} {related : σ → Store → Prop} {name : String}
    {is : List Instruction} (loads : m.Loads names store s e)
    (stored : ∀ n, ∃ s', m.exec (m.push s n) is = .silent (.ok s') ∧
      related s' (store.set name n)) :
    (m.exec s (e.code names ++ is)).Alike a related (store.bind a name e) := by
  rw [m.exec_append, exec_expression loads, Store.bind]
  rcases e.evaluate_cases a loads.isSome with ⟨n, value⟩ | ⟨o, left, right, stuck, failed⟩
  · obtain ⟨s', ran, there⟩ := stored n
    rw [value]
    change (m.exec (m.push s n) is).Alike a related _
    rw [ran]
    exact .ok there
  · rw [failed]
    exact .undefined stuck

theorem alike_print {e : Expression} {related : σ → Store → Prop} (loads : m.Loads names store s e)
    (here : related s store) :
    (m.exec s (e.code names ++ [.wrt])).Alike a related ((Statement.print e).evaluate a store) := by
  rw [m.exec_append, exec_expression loads, Statement.evaluate]
  rcases e.evaluate_cases a loads.isSome with ⟨n, value⟩ | ⟨o, left, right, stuck, failed⟩
  · rw [value]
    change (m.exec (m.push s n) [.wrt]).Alike a related _
    rw [m.exec_wrt]
    exact .ok here
  · rw [failed]
    exact .undefined stuck

end Operands
end Machine
end OnePass
