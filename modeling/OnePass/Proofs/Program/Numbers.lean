import OnePass.Program.Grammar
import OnePass.Program.Replacement

/-!
The numbers of a program. They are the numerals among its tokens, in the same order.
-/

namespace OnePass

def Expression.numbers : Expression → List Token
  | .name _ => []
  | .number t => [t]
  | .group e | .positive e | .negative e => e.numbers
  | .binary _ l r => l.numbers ++ r.numbers

def VariableDeclaration.numbers (v : VariableDeclaration) : List Token :=
  v.initial.elim [] Expression.numbers

def Statement.numbers : Statement → List Token
  | .assign _ e | .print e => e.numbers
  | .empty => []

def Program.numbers (p : Program) : List Token :=
  p.consts.map ConstantDeclaration.number ++ p.vars.flatMap VariableDeclaration.numbers ++
    p.statements.flatMap Statement.numbers

/-- The numerals among tokens. -/
def Token.numerals (ts : List Token) : List Token := ts.filter fun t => t.kind = .uint

namespace Token

theorem mem_numerals_iff {ts : List Token} {t : Token} :
    t ∈ numerals ts ↔ t ∈ ts ∧ t.kind = .uint := by
  simp [numerals]

theorem numerals_append (ts us : List Token) : numerals (ts ++ us) = numerals ts ++ numerals us :=
  List.filter_append ts us

theorem numerals_cons_of_ne {t : Token} (other : t.kind ≠ .uint) (ts : List Token) :
    numerals (t :: ts) = numerals ts := by
  simp [numerals, other]

end Token

variable {ts : List Token}

open Expression in
theorem Expression.Derives.numerals {l : Level} {e : Expression} (h : Derives l ts e) :
    Token.numerals ts = e.numbers := by
  induction h with
  | name kind => simp [Token.numerals, numbers, kind]
  | number kind => simp [Token.numerals, numbers, kind]
  | group lKind _ rKind inner => simp_all [Token.numerals, numbers]
  | operand _ inner => exact inner
  | positive kind _ inner => simp_all [Token.numerals, numbers]
  | negative kind _ inner => simp_all [Token.numerals, numbers]
  | factor _ inner => exact inner
  | @product t o ts us a b operator _ _ left right =>
    have other : t.kind ≠ .uint := by
      intro kind
      rw [kind] at operator
      cases operator
    rw [Token.numerals_append, Token.numerals_cons_of_ne other, left, right, numbers]
  | item _ inner => exact inner
  | @sum t o ts us a b operator _ _ left right =>
    have other : t.kind ≠ .uint := by
      intro kind
      rw [kind] at operator
      cases operator
    rw [Token.numerals_append, Token.numerals_cons_of_ne other, left, right, numbers]

theorem DerivesEach.numerals {α : Type} {derives : List Token → α → Prop} {numbers : α → List Token}
    {xs : List α} (each : ∀ {ts x}, derives ts x → Token.numerals ts = numbers x)
    (h : DerivesEach derives ts xs) : Token.numerals ts = xs.flatMap numbers := by
  induction h with
  | nil => rfl
  | cons first _ others => rw [Token.numerals_append, each first, others, List.flatMap_cons]

theorem ConstantDeclaration.Derives.numerals {c : ConstantDeclaration}
    (h : ConstantDeclaration.Derives ts c) : Token.numerals ts = [c.number] := by
  cases h with
  | mk startKind nameKind equalsKind sign numberKind stopKind =>
    cases sign <;> simp_all [Token.numerals]

theorem VariableDeclaration.Derives.numerals {v : VariableDeclaration}
    (h : VariableDeclaration.Derives ts v) : Token.numerals ts = v.numbers := by
  cases h with
  | plain startKind nameKind stopKind => simp_all [Token.numerals, numbers]
  | initialized startKind nameKind equalsKind initial stopKind =>
    have inner := initial.numerals
    simp_all [Token.numerals, numbers]

theorem Statement.Derives.numerals {x : Statement} (h : Statement.Derives ts x) :
    Token.numerals ts = x.numbers := by
  cases h with
  | assign nameKind equalsKind value stopKind =>
    have inner := value.numerals
    simp_all [Token.numerals, numbers]
  | print startKind lKind value rKind stopKind =>
    have inner := value.numerals
    simp_all [Token.numerals, numbers]
  | empty stopKind => simp_all [Token.numerals, numbers]

theorem Program.Derives.numerals {p : Program} (h : Program.Derives ts p) :
    Token.numerals ts = p.numbers := by
  cases h with
  | mk startKind consts vars statements finishKind lastKind =>
    have first := consts.numerals fun c => c.numerals
    have second := vars.numerals fun v => v.numerals
    have third := statements.numerals fun x => x.numerals
    rw [Program.numbers, ← second, ← third, List.map_eq_flatMap, ← first]
    simp [Token.numerals, startKind, finishKind, lastKind]

/-! ### Other tokens -/

theorem Expression.numbers_map (f : Token → Token) (e : Expression) :
    (e.map f).numbers = e.numbers.map f := by
  induction e with
  | name t => rfl
  | number t => rfl
  | group e inner => exact inner
  | positive e inner => exact inner
  | negative e inner => exact inner
  | binary o l r left right => simp only [map, numbers, left, right, List.map_append]

theorem VariableDeclaration.numbers_map (f : Token → Token) (v : VariableDeclaration) :
    (v.map f).numbers = v.numbers.map f := by
  rcases v with ⟨name, _ | e⟩
  · rfl
  · exact e.numbers_map f

theorem Statement.numbers_map (f : Token → Token) (x : Statement) :
    (x.map f).numbers = x.numbers.map f := by
  cases x with
  | assign t e => exact e.numbers_map f
  | print e => exact e.numbers_map f
  | empty => rfl

theorem Program.numbers_map (f : Token → Token) (p : Program) :
    (p.map f).numbers = p.numbers.map f := by
  have consts (c : ConstantDeclaration) : (c.map f).number = f c.number := rfl
  simp [numbers, map, List.flatMap_map, List.map_flatMap, Function.comp_def, consts,
    VariableDeclaration.numbers_map, Statement.numbers_map]

end OnePass
