import OnePass.Program
import OnePass.Token.Operator

/-!
The grammar: which token sequences a tree stands for. The rules look at the kinds of tokens only.
Operations of one level associate to the left, and a sign belongs to one operand.
-/

namespace OnePass

namespace Expression

/-- How tightly an expression holds together. -/
inductive Level where
  | expression
  | item
  | factor
  | operand
  deriving DecidableEq

inductive Derives : Level → List Token → Expression → Prop where
  | name {t} : t.kind = .ident → Derives .operand [t] (.name t)
  | number {t} : t.kind = .uint → Derives .operand [t] (.number t)
  | group {l r ts e} : l.kind = .lparen → Derives .expression ts e → r.kind = .rparen →
      Derives .operand (l :: ts ++ [r]) (.group e)
  | operand {ts e} : Derives .operand ts e → Derives .factor ts e
  | positive {s ts e} : s.kind = .plus → Derives .operand ts e →
      Derives .factor (s :: ts) (.positive e)
  | negative {s ts e} : s.kind = .minus → Derives .operand ts e →
      Derives .factor (s :: ts) (.negative e)
  | factor {ts e} : Derives .factor ts e → Derives .item ts e
  | product {t o ts us a b} : t.kind.multiplicative? = some o →
      Derives .item ts a → Derives .factor us b → Derives .item (ts ++ t :: us) (.binary o a b)
  | item {ts e} : Derives .item ts e → Derives .expression ts e
  | sum {t o ts us a b} : t.kind.additive? = some o →
      Derives .expression ts a → Derives .item us b →
      Derives .expression (ts ++ t :: us) (.binary o a b)

end Expression

/-- A run of token sequences, each of which derives its own thing. -/
inductive DerivesEach {α : Type} (derives : List Token → α → Prop) :
    List Token → List α → Prop where
  | nil : DerivesEach derives [] []
  | cons {ts us x xs} : derives ts x → DerivesEach derives us xs →
      DerivesEach derives (ts ++ us) (x :: xs)

inductive Sign.Derives : List Token → Sign → Prop where
  | none : Sign.Derives [] .none
  | plus {t} : t.kind = .plus → Sign.Derives [t] .plus
  | minus {t} : t.kind = .minus → Sign.Derives [t] .minus

inductive ConstantDeclaration.Derives : List Token → ConstantDeclaration → Prop where
  | mk {start name equals number stop ts sign} :
      start.kind = .constWord → name.kind = .ident → equals.kind = .equals →
      sign.Derives ts → number.kind = .uint → stop.kind = .semicolon →
      ConstantDeclaration.Derives (start :: name :: equals :: ts ++ [number, stop])
        ⟨name, sign, number⟩

inductive VariableDeclaration.Derives : List Token → VariableDeclaration → Prop where
  | plain {start name stop} :
      start.kind = .varWord → name.kind = .ident → stop.kind = .semicolon →
      VariableDeclaration.Derives [start, name, stop] ⟨name, none⟩
  | initialized {start name equals stop ts e} :
      start.kind = .varWord → name.kind = .ident → equals.kind = .equals →
      Expression.Derives .expression ts e → stop.kind = .semicolon →
      VariableDeclaration.Derives (start :: name :: equals :: ts ++ [stop]) ⟨name, some e⟩

inductive Statement.Derives : List Token → Statement → Prop where
  | assign {name equals stop ts e} :
      name.kind = .ident → equals.kind = .equals →
      Expression.Derives .expression ts e → stop.kind = .semicolon →
      Statement.Derives (name :: equals :: ts ++ [stop]) (.assign name e)
  | print {start l r stop ts e} :
      start.kind = .printWord → l.kind = .lparen →
      Expression.Derives .expression ts e → r.kind = .rparen → stop.kind = .semicolon →
      Statement.Derives (start :: l :: ts ++ [r, stop]) (.print e)
  | empty {stop} : stop.kind = .semicolon → Statement.Derives [stop] .empty

/-- The token sequences of a program, the end of the input included. -/
inductive Program.Derives : List Token → Program → Prop where
  | mk {start finish last cs vs ss p} :
      start.kind = .beginWord →
      DerivesEach ConstantDeclaration.Derives cs p.consts →
      DerivesEach VariableDeclaration.Derives vs p.vars →
      DerivesEach Statement.Derives ss p.statements →
      finish.kind = .endWord → last.kind = .eof →
      Program.Derives (start :: cs ++ vs ++ ss ++ [finish, last]) p

/-- The sequences of token kinds that some program has. -/
def IsSentence (ks : List Token.Kind) : Prop :=
  ∃ ts p, Program.Derives ts p ∧ ts.map Token.kind = ks

theorem Expression.Derives.ne_nil {l : Expression.Level} {ts : List Token} {e : Expression}
    (h : Expression.Derives l ts e) : ts ≠ [] := by
  induction h <;> simp_all

end OnePass
