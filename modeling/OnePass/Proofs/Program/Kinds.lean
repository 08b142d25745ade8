import OnePass.Program.Grammar

/-!
The grammar looks at kinds only: tokens of the same kinds derive trees of the same shape. So whether
tokens begin a program is a question about their kinds.
-/

namespace OnePass

/-- Some token of a kind. -/
def Token.ofKind (k : Kind) : Token := ⟨k, .nothing, .start "", .start ""⟩

/-- Tokens of the same kinds, in the same order. -/
def SameKinds (us ts : List Token) : Prop := us.map Token.kind = ts.map Token.kind

namespace SameKinds

variable {t : Token} {us ts vs : List Token}

theorem of_nil (same : SameKinds us []) : us = [] := List.map_eq_nil_iff.mp same

theorem of_cons (same : SameKinds us (t :: ts)) :
    ∃ u us', us = u :: us' ∧ u.kind = t.kind ∧ SameKinds us' ts :=
  List.map_eq_cons_iff.mp same

theorem of_append (same : SameKinds us (ts ++ vs)) :
    ∃ us' ws, us = us' ++ ws ∧ SameKinds us' ts ∧ SameKinds ws vs := by
  rw [SameKinds, List.map_append] at same
  exact List.map_eq_append_iff.mp same

end SameKinds

/-- Tokens are derived whenever tokens of the same kinds are. -/
def OfKinds {α : Type} (derives : List Token → α → Prop) : Prop :=
  ∀ {ts x us}, derives ts x → SameKinds us ts → ∃ y, derives us y

open Expression in
theorem Expression.Derives.ofKinds (l : Level) : OfKinds (Derives l) := by
  intro ts e us h same
  induction h generalizing us with
  | name kind =>
    obtain ⟨u, _, rfl, uKind, rest⟩ := same.of_cons
    cases rest.of_nil
    exact ⟨_, .name (uKind.trans kind)⟩
  | number kind =>
    obtain ⟨u, _, rfl, uKind, rest⟩ := same.of_cons
    cases rest.of_nil
    exact ⟨_, .number (uKind.trans kind)⟩
  | group lKind _ rKind inductionHypothesis =>
    rw [List.cons_append] at same
    obtain ⟨first, _, rfl, firstKind, rest⟩ := same.of_cons
    obtain ⟨inner, _, rfl, innerSame, rest⟩ := rest.of_append
    obtain ⟨last, _, rfl, lastKind, rest⟩ := rest.of_cons
    cases rest.of_nil
    obtain ⟨e, derives⟩ := inductionHypothesis innerSame
    exact ⟨_, .group (firstKind.trans lKind) derives (lastKind.trans rKind)⟩
  | operand _ inductionHypothesis =>
    obtain ⟨e, derives⟩ := inductionHypothesis same
    exact ⟨e, .operand derives⟩
  | positive kind _ inductionHypothesis =>
    obtain ⟨u, _, rfl, uKind, rest⟩ := same.of_cons
    obtain ⟨e, derives⟩ := inductionHypothesis rest
    exact ⟨_, .positive (uKind.trans kind) derives⟩
  | negative kind _ inductionHypothesis =>
    obtain ⟨u, _, rfl, uKind, rest⟩ := same.of_cons
    obtain ⟨e, derives⟩ := inductionHypothesis rest
    exact ⟨_, .negative (uKind.trans kind) derives⟩
  | factor _ inductionHypothesis =>
    obtain ⟨e, derives⟩ := inductionHypothesis same
    exact ⟨e, .factor derives⟩
  | product operator _ _ left right =>
    obtain ⟨vs, _, rfl, leftSame, rest⟩ := same.of_append
    obtain ⟨u, ws, rfl, uKind, rightSame⟩ := rest.of_cons
    obtain ⟨a, first⟩ := left leftSame
    obtain ⟨b, second⟩ := right rightSame
    exact ⟨_, .product (uKind ▸ operator) first second⟩
  | item _ inductionHypothesis =>
    obtain ⟨e, derives⟩ := inductionHypothesis same
    exact ⟨e, .item derives⟩
  | sum operator _ _ left right =>
    obtain ⟨vs, _, rfl, leftSame, rest⟩ := same.of_append
    obtain ⟨u, ws, rfl, uKind, rightSame⟩ := rest.of_cons
    obtain ⟨a, first⟩ := left leftSame
    obtain ⟨b, second⟩ := right rightSame
    exact ⟨_, .sum (uKind ▸ operator) first second⟩

theorem DerivesEach.ofKinds {α : Type} {derives : List Token → α → Prop}
    (each : OfKinds derives) : OfKinds (DerivesEach derives) := by
  intro ts xs us h same
  induction h generalizing us with
  | nil =>
    cases same.of_nil
    exact ⟨[], .nil⟩
  | cons first _ inductionHypothesis =>
    obtain ⟨vs, ws, rfl, firstSame, rest⟩ := same.of_append
    obtain ⟨y, derived⟩ := each first firstSame
    obtain ⟨ys, others⟩ := inductionHypothesis rest
    exact ⟨y :: ys, .cons derived others⟩

theorem Sign.Derives.ofKinds : OfKinds Sign.Derives := by
  intro ts sign us h same
  cases h with
  | none =>
    cases same.of_nil
    exact ⟨_, .none⟩
  | plus kind =>
    obtain ⟨u, _, rfl, uKind, rest⟩ := same.of_cons
    cases rest.of_nil
    exact ⟨_, .plus (uKind.trans kind)⟩
  | minus kind =>
    obtain ⟨u, _, rfl, uKind, rest⟩ := same.of_cons
    cases rest.of_nil
    exact ⟨_, .minus (uKind.trans kind)⟩

theorem ConstantDeclaration.Derives.ofKinds : OfKinds ConstantDeclaration.Derives := by
  intro ts c us h same
  cases h with
  | mk startKind nameKind equalsKind sign numberKind stopKind =>
    simp only [List.cons_append] at same
    obtain ⟨start, _, rfl, startSame, same⟩ := same.of_cons
    obtain ⟨name, _, rfl, nameSame, same⟩ := same.of_cons
    obtain ⟨equals, _, rfl, equalsSame, same⟩ := same.of_cons
    obtain ⟨signs, _, rfl, signSame, same⟩ := same.of_append
    obtain ⟨number, _, rfl, numberSame, same⟩ := same.of_cons
    obtain ⟨stop, _, rfl, stopSame, same⟩ := same.of_cons
    cases same.of_nil
    obtain ⟨sign', derives⟩ := Sign.Derives.ofKinds sign signSame
    exact ⟨_, .mk (startSame.trans startKind) (nameSame.trans nameKind)
      (equalsSame.trans equalsKind) derives (numberSame.trans numberKind)
      (stopSame.trans stopKind)⟩

theorem VariableDeclaration.Derives.ofKinds : OfKinds VariableDeclaration.Derives := by
  intro ts v us h same
  cases h with
  | plain startKind nameKind stopKind =>
    obtain ⟨start, _, rfl, startSame, same⟩ := same.of_cons
    obtain ⟨name, _, rfl, nameSame, same⟩ := same.of_cons
    obtain ⟨stop, _, rfl, stopSame, same⟩ := same.of_cons
    cases same.of_nil
    exact ⟨_, .plain (startSame.trans startKind) (nameSame.trans nameKind)
      (stopSame.trans stopKind)⟩
  | initialized startKind nameKind equalsKind initial stopKind =>
    simp only [List.cons_append] at same
    obtain ⟨start, _, rfl, startSame, same⟩ := same.of_cons
    obtain ⟨name, _, rfl, nameSame, same⟩ := same.of_cons
    obtain ⟨equals, _, rfl, equalsSame, same⟩ := same.of_cons
    obtain ⟨inner, _, rfl, innerSame, same⟩ := same.of_append
    obtain ⟨stop, _, rfl, stopSame, same⟩ := same.of_cons
    cases same.of_nil
    obtain ⟨e, derives⟩ := Expression.Derives.ofKinds _ initial innerSame
    exact ⟨_, .initialized (startSame.trans startKind) (nameSame.trans nameKind)
      (equalsSame.trans equalsKind) derives (stopSame.trans stopKind)⟩

theorem Statement.Derives.ofKinds : OfKinds Statement.Derives := by
  intro ts x us h same
  cases h with
  | assign nameKind equalsKind value stopKind =>
    simp only [List.cons_append] at same
    obtain ⟨name, _, rfl, nameSame, same⟩ := same.of_cons
    obtain ⟨equals, _, rfl, equalsSame, same⟩ := same.of_cons
    obtain ⟨inner, _, rfl, innerSame, same⟩ := same.of_append
    obtain ⟨stop, _, rfl, stopSame, same⟩ := same.of_cons
    cases same.of_nil
    obtain ⟨e, derives⟩ := Expression.Derives.ofKinds _ value innerSame
    exact ⟨_, .assign (nameSame.trans nameKind) (equalsSame.trans equalsKind) derives
      (stopSame.trans stopKind)⟩
  | print startKind lKind value rKind stopKind =>
    simp only [List.cons_append] at same
    obtain ⟨start, _, rfl, startSame, same⟩ := same.of_cons
    obtain ⟨l, _, rfl, lSame, same⟩ := same.of_cons
    obtain ⟨inner, _, rfl, innerSame, same⟩ := same.of_append
    obtain ⟨r, _, rfl, rSame, same⟩ := same.of_cons
    obtain ⟨stop, _, rfl, stopSame, same⟩ := same.of_cons
    cases same.of_nil
    obtain ⟨e, derives⟩ := Expression.Derives.ofKinds _ value innerSame
    exact ⟨_, .print (startSame.trans startKind) (lSame.trans lKind) derives (rSame.trans rKind)
      (stopSame.trans stopKind)⟩
  | empty stopKind =>
    obtain ⟨stop, _, rfl, stopSame, same⟩ := same.of_cons
    cases same.of_nil
    exact ⟨_, .empty (stopSame.trans stopKind)⟩

theorem Program.Derives.ofKinds : OfKinds Program.Derives := by
  intro ts p us h same
  cases h with
  | mk startKind consts vars statements finishKind lastKind =>
    simp only [List.cons_append, List.append_assoc] at same
    obtain ⟨start, _, rfl, startSame, same⟩ := same.of_cons
    obtain ⟨cs, _, rfl, constsSame, same⟩ := same.of_append
    obtain ⟨vs, _, rfl, varsSame, same⟩ := same.of_append
    obtain ⟨ss, _, rfl, statementsSame, same⟩ := same.of_append
    obtain ⟨finish, _, rfl, finishSame, same⟩ := same.of_cons
    obtain ⟨last, _, rfl, lastSame, same⟩ := same.of_cons
    cases same.of_nil
    obtain ⟨consts', derivesConsts⟩ :=
      DerivesEach.ofKinds ConstantDeclaration.Derives.ofKinds consts constsSame
    obtain ⟨vars', derivesVars⟩ :=
      DerivesEach.ofKinds VariableDeclaration.Derives.ofKinds vars varsSame
    obtain ⟨statements', derivesStatements⟩ :=
      DerivesEach.ofKinds Statement.Derives.ofKinds statements statementsSame
    have whole : Program.Derives (start :: cs ++ vs ++ ss ++ [finish, last])
        ⟨consts', vars', statements'⟩ :=
      .mk (startSame.trans startKind) derivesConsts derivesVars derivesStatements
        (finishSame.trans finishKind) (lastSame.trans lastKind)
    exact ⟨_, by simpa using whole⟩

/-- Tokens derive a program if and only if their kinds are those of one. -/
theorem isSentence_iff {ts : List Token} :
    IsSentence (ts.map Token.kind) ↔ ∃ p, Program.Derives ts p := by
  constructor
  · rintro ⟨us, p, derives, same⟩
    exact Program.Derives.ofKinds derives same.symm
  · rintro ⟨p, derives⟩
    exact ⟨ts, p, derives, rfl⟩

end OnePass
