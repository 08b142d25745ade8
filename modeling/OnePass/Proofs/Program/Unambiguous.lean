import OnePass.Program.Grammar

/-!
The grammar is unambiguous: what a sequence of tokens begins with can be read in one way only, if
the tokens behind it do not go on with it. The rules for sums and products name the last operation
first, so such a thing is taken apart from the left, as its first part and the operations that
follow it.
-/

namespace OnePass

variable {ts us r r' : List Token}

/-- A sequence of tokens has a first one, of such a kind. -/
def Heads (kinds : Token.Kind → Prop) (ts : List Token) : Prop :=
  ∃ t rest, ts = t :: rest ∧ kinds t.kind

section

variable {kinds others : Token.Kind → Prop}

@[simp]
theorem heads_cons {t : Token} : Heads kinds (t :: ts) ↔ kinds t.kind := by
  simp [Heads]

theorem Heads.imp (h : Heads kinds ts) (every : ∀ k, kinds k → others k) : Heads others ts := by
  obtain ⟨t, rest, rfl, kind⟩ := h
  exact ⟨t, rest, rfl, every _ kind⟩

theorem Heads.append (h : Heads kinds ts) (us : List Token) : Heads kinds (ts ++ us) := by
  obtain ⟨t, rest, rfl, kind⟩ := h
  exact ⟨t, rest ++ us, rfl, kind⟩

theorem Heads.both (h : Heads kinds ts) (h' : Heads others ts) : ∃ k, kinds k ∧ others k := by
  obtain ⟨t, rest, rfl, kind⟩ := h
  exact ⟨t.kind, kind, heads_cons.mp h'⟩

end

namespace Expression

/-- Operations with parts as right operands make one expression of what stands before them. -/
inductive Continues (operator? : Token.Kind → Option Operation)
    (part : List Token → Expression → Prop) : Expression → List Token → Expression → Prop
  | done {a} : Continues operator? part a [] a
  | more {t o us vs a b e} : operator? t.kind = some o → part us b →
      Continues operator? part (.binary o a b) vs e → Continues operator? part a (t :: us ++ vs) e

section

variable {operator? : Token.Kind → Option Operation} {part : List Token → Expression → Prop}
  {a b e f : Expression}

theorem Continues.add {t : Token} {o : Operation} (first : Continues operator? part a ts e)
    (operator : operator? t.kind = some o) (last : part us b) :
    Continues operator? part a (ts ++ t :: us) (.binary o e b) := by
  induction first with
  | done => simpa using Continues.more operator last .done
  | more next derives _ inductionHypothesis =>
    simpa using Continues.more next derives inductionHypothesis

/-- Whatever has to stop before an operator can be followed by operations. -/
theorem Continues.stops {stops : List Token → Prop}
    (h : Continues operator? part a ts e) (stop : stops r)
    (between : ∀ t rest, (operator? t.kind).isSome → stops (t :: rest)) : stops (ts ++ r) := by
  cases h with
  | done => exact stop
  | more operator _ _ => exact between _ _ (by simp [operator])

theorem Continues.unique {stops : List Token → Prop} {bound : Nat}
    (between : ∀ t rest, (operator? t.kind).isSome → stops (t :: rest))
    (unique : ∀ {ts us b c r r'}, ts.length ≤ bound → part ts b → part us c → ts ++ r = us ++ r' →
      stops r → stops r' → ts = us ∧ b = c)
    (h : Continues operator? part a ts e) (h' : Continues operator? part a us f)
    (short : ts.length ≤ bound) (same : ts ++ r = us ++ r')
    (last : Heads (operator? · = none) r) (last' : Heads (operator? · = none) r')
    (stop : stops r) (stop' : stops r') : ts = us ∧ e = f := by
  induction h generalizing us with
  | done =>
    cases h' with
    | done => exact ⟨rfl, rfl⟩
    | more operator _ _ =>
      rw [List.nil_append] at same
      simp [same, operator] at last
  | @more t o vs ws a b e operator derives rest inductionHypothesis =>
    cases h' with
    | done =>
      rw [List.nil_append] at same
      simp [← same, operator] at last'
    | @more t' o' vs' ws' _ b' _ operator' derives' rest' =>
      simp only [List.cons_append, List.append_assoc, List.cons.injEq] at same
      obtain ⟨rfl, same⟩ := same
      obtain rfl : o = o' := by simpa [operator] using operator'
      have bounded : vs.length + ws.length + 1 ≤ bound := by simpa [Nat.add_right_comm] using short
      obtain ⟨rfl, rfl⟩ := unique (by omega) derives derives' same (rest.stops stop between)
        (rest'.stops stop' between)
      obtain ⟨rfl, rfl⟩ := inductionHypothesis rest' (by omega) (List.append_cancel_left same)
      exact ⟨rfl, rfl⟩

end

/-- An item is a factor and what goes on with it. -/
theorem Derives.item_continues {e : Expression} (h : Derives .item ts e) :
    ∃ us vs a, ts = us ++ vs ∧ Derives .factor us a ∧
      Continues Token.Kind.multiplicative? (Derives .factor) a vs e := by
  generalize level : Level.item = l at h
  induction h with
  | factor derives _ => exact ⟨_, [], _, by simp, derives, .done⟩
  | product operator _ right first _ =>
    obtain ⟨us, vs, a, rfl, derives, rest⟩ := first level
    exact ⟨us, _, a, List.append_assoc .., derives, rest.add operator right⟩
  | _ => cases level

/-- An expression is an item and what goes on with it. -/
theorem Derives.expression_continues {e : Expression} (h : Derives .expression ts e) :
    ∃ us vs a, ts = us ++ vs ∧ Derives .item us a ∧
      Continues Token.Kind.additive? (Derives .item) a vs e := by
  generalize level : Level.expression = l at h
  induction h with
  | item derives _ => exact ⟨_, [], _, by simp, derives, .done⟩
  | sum operator _ right first _ =>
    obtain ⟨us, vs, a, rfl, derives, rest⟩ := first level
    exact ⟨us, _, a, List.append_assoc .., derives, rest.add operator right⟩
  | _ => cases level

/-- The next token does not go on with something of a level. -/
def Level.Stops : Level → List Token → Prop
  | expression, r => Heads (fun k => k.additive? = none ∧ k.multiplicative? = none) r
  | item, r => Heads (·.multiplicative? = none) r
  | factor, _ | operand, _ => True

theorem Level.stops_expression_iff :
    Level.Stops .expression r ↔
      Heads (·.additive? = none) r ∧ Heads (·.multiplicative? = none) r := by
  constructor
  · intro found
    rcases found with ⟨t, rest, rfl, additive, multiplicative⟩
    exact ⟨heads_cons.mpr additive, heads_cons.mpr multiplicative⟩
  · intro found
    rcases found with ⟨⟨t, rest, rfl, additive⟩, multiplicative⟩
    exact ⟨t, rest, rfl, additive, heads_cons.mp multiplicative⟩

/-- Short things of a level can be read in one way. -/
def Level.Unique (l : Level) (bound : Nat) : Prop :=
  ∀ {ts us e f r r'}, ts.length ≤ bound → Derives l ts e → Derives l us f → ts ++ r = us ++ r' →
    l.Stops r → l.Stops r' → ts = us ∧ e = f

theorem stops_rparen {t : Token} (kind : t.kind = .rparen) (r : List Token) :
    Level.Stops .expression (t :: r) := by
  simp [Level.Stops, kind, Token.Kind.additive?, Token.Kind.multiplicative?]

theorem unique_operand {bound : Nat} (smaller : ∀ n < bound, Level.Unique .expression n) :
    Level.Unique .operand bound := by
  intro ts us e f r r' short h h' same _ _
  cases h with
  | name kind =>
    cases h' <;> simp_all
  | number kind =>
    cases h' <;> simp_all
  | @group l stop vs e lKind derives stopKind =>
    cases h' with
    | name kind => simp_all
    | number kind => simp_all
    | @group l' stop' ws f lKind' derives' stopKind' =>
      simp only [List.cons_append, List.append_assoc, List.cons.injEq, List.nil_append] at same
      obtain ⟨rfl, same⟩ := same
      have bounded : vs.length + 2 ≤ bound := by
        simp only [List.length_cons, List.length_append, List.length_nil] at short
        omega
      obtain ⟨rfl, rfl⟩ := smaller vs.length (by omega) (Nat.le_refl _) derives derives' same
        (stops_rparen stopKind r) (stops_rparen stopKind' r')
      obtain ⟨rfl, rfl⟩ : stop = stop' ∧ r = r' := by simpa using same
      exact ⟨rfl, rfl⟩

theorem Derives.operand_heads {e : Expression} (h : Derives .operand ts e) :
    Heads (· ∈ [Token.Kind.ident, .uint, .lparen]) ts := by
  cases h <;> simp_all

theorem unique_factor {bound : Nat} (operand : Level.Unique .operand bound) :
    Level.Unique .factor bound := by
  intro ts us e f r r' short h h' same _ _
  have unsigned {vs ws x y : List Token} {k : Token.Kind} {g : Expression}
      (derives : Derives .operand vs g) (signed : Heads (· = k) ws) (same : vs ++ x = ws ++ y) :
      k ∈ [Token.Kind.ident, .uint, .lparen] := by
    have signed : Heads (· = k) (vs ++ x) := same ▸ signed.append y
    obtain ⟨_, operand, rfl⟩ := (derives.operand_heads.append x).both signed
    exact operand
  cases h with
  | operand derives =>
    cases h' with
    | operand derives' => exact operand short derives derives' same trivial trivial
    | positive kind _ => exact absurd (unsigned derives (heads_cons.mpr kind) same) (by decide)
    | negative kind _ => exact absurd (unsigned derives (heads_cons.mpr kind) same) (by decide)
  | positive kind derives =>
    cases h' with
    | operand derives' =>
      exact absurd (unsigned derives' (heads_cons.mpr kind) same.symm) (by decide)
    | positive kind' derives' =>
      obtain ⟨rfl, inner⟩ := List.cons.inj same
      obtain ⟨rfl, rfl⟩ := operand (Nat.le_of_succ_le short) derives derives' inner trivial trivial
      exact ⟨rfl, rfl⟩
    | negative kind' _ => simp_all
  | negative kind derives =>
    cases h' with
    | operand derives' =>
      exact absurd (unsigned derives' (heads_cons.mpr kind) same.symm) (by decide)
    | positive kind' _ => simp_all
    | negative kind' derives' =>
      obtain ⟨rfl, inner⟩ := List.cons.inj same
      obtain ⟨rfl, rfl⟩ := operand (Nat.le_of_succ_le short) derives derives' inner trivial trivial
      exact ⟨rfl, rfl⟩

theorem unique_item {bound : Nat} (factor : Level.Unique .factor bound) :
    Level.Unique .item bound := by
  intro ts us e f r r' short h h' same stop stop'
  obtain ⟨vs, ws, a, rfl, derives, rest⟩ := h.item_continues
  obtain ⟨vs', ws', a', rfl, derives', rest'⟩ := h'.item_continues
  rw [List.length_append] at short
  rw [List.append_assoc, List.append_assoc] at same
  obtain ⟨rfl, rfl⟩ := factor (by omega) derives derives' same trivial trivial
  have between : ∀ (t : Token) (rest : List Token), t.kind.multiplicative?.isSome →
      Level.Stops .factor (t :: rest) := fun _ _ _ => trivial
  obtain ⟨rfl, rfl⟩ := rest.unique between factor rest' (by omega) (List.append_cancel_left same)
    stop stop' trivial trivial
  exact ⟨rfl, rfl⟩

theorem unique_expression {bound : Nat} (item : Level.Unique .item bound) :
    Level.Unique .expression bound := by
  intro ts us e f r r' short h h' same stop stop'
  have between : ∀ (t : Token) (rest : List Token), t.kind.additive?.isSome →
      Level.Stops .item (t :: rest) := by
    intro t rest additive
    cases kind : t.kind <;> simp_all [Level.Stops, Token.Kind.additive?, Token.Kind.multiplicative?]
  obtain ⟨sumStop, itemStop⟩ := Level.stops_expression_iff.mp stop
  obtain ⟨sumStop', itemStop'⟩ := Level.stops_expression_iff.mp stop'
  obtain ⟨vs, ws, a, rfl, derives, rest⟩ := h.expression_continues
  obtain ⟨vs', ws', a', rfl, derives', rest'⟩ := h'.expression_continues
  rw [List.length_append] at short
  rw [List.append_assoc, List.append_assoc] at same
  obtain ⟨rfl, rfl⟩ := item (by omega) derives derives' same (rest.stops itemStop between)
    (rest'.stops itemStop' between)
  obtain ⟨rfl, rfl⟩ := rest.unique between item rest' (by omega) (List.append_cancel_left same)
    sumStop sumStop' itemStop itemStop'
  exact ⟨rfl, rfl⟩

/-- An expression is read in one way where it stops. -/
theorem Derives.unique {e f : Expression} (h : Derives .expression ts e)
    (h' : Derives .expression us f) (same : ts ++ r = us ++ r') (stop : Level.Stops .expression r)
    (stop' : Level.Stops .expression r') : ts = us ∧ e = f := by
  have all : ∀ bound, Level.Unique .expression bound := by
    intro bound
    induction bound using Nat.strongRecOn with
    | ind bound inductionHypothesis =>
      exact unique_expression (unique_item (unique_factor (unique_operand inductionHypothesis)))
  exact all ts.length (Nat.le_refl _) h h' same stop stop'

theorem Derives.kind_ne_eof {l : Level} {e : Expression} (h : Derives l ts e) :
    ∀ t ∈ ts, t.kind ≠ .eof := by
  induction h with
  | product operator _ _ first second =>
    simp_all [or_imp, Token.Kind.ne_eof_of_multiplicative? operator]
  | sum operator _ _ first second =>
    simp_all [or_imp, Token.Kind.ne_eof_of_additive? operator]
  | _ => simp_all [or_imp]

end Expression

theorem stops_semicolon {t : Token} (kind : t.kind = .semicolon) (r : List Token) :
    Expression.Level.Stops .expression (t :: r) := by
  simp [Expression.Level.Stops, kind, Token.Kind.additive?, Token.Kind.multiplicative?]

theorem ConstantDeclaration.Derives.unique {c d : ConstantDeclaration}
    (h : ConstantDeclaration.Derives ts c) (h' : ConstantDeclaration.Derives us d)
    (same : ts ++ r = us ++ r') : ts = us ∧ c = d := by
  obtain ⟨_, _, _, sign, number, _⟩ := h
  obtain ⟨_, _, _, sign', number', _⟩ := h'
  cases sign <;> cases sign' <;> simp_all

theorem VariableDeclaration.Derives.unique {v w : VariableDeclaration}
    (h : VariableDeclaration.Derives ts v) (h' : VariableDeclaration.Derives us w)
    (same : ts ++ r = us ++ r') : ts = us ∧ v = w := by
  cases h with
  | plain _ _ stopKind =>
    cases h' with
    | plain _ _ stopKind' => simp_all
    | initialized _ _ equalsKind' _ _ => simp_all
  | initialized _ _ equalsKind derives stopKind =>
    cases h' with
    | plain _ _ stopKind' => simp_all
    | initialized _ _ _ derives' stopKind' =>
      simp only [List.cons_append, List.append_assoc, List.cons.injEq, List.nil_append] at same
      obtain ⟨rfl, rfl, rfl, same⟩ := same
      obtain ⟨rfl, rfl⟩ := derives.unique derives' same (stops_semicolon stopKind _)
        (stops_semicolon stopKind' _)
      simp_all

theorem Statement.Derives.unique {x y : Statement} (h : Statement.Derives ts x)
    (h' : Statement.Derives us y) (same : ts ++ r = us ++ r') : ts = us ∧ x = y := by
  cases h with
  | assign nameKind _ derives stopKind =>
    cases h' with
    | assign _ _ derives' stopKind' =>
      simp only [List.cons_append, List.append_assoc, List.cons.injEq, List.nil_append] at same
      obtain ⟨rfl, rfl, same⟩ := same
      obtain ⟨rfl, rfl⟩ := derives.unique derives' same (stops_semicolon stopKind _)
        (stops_semicolon stopKind' _)
      simp_all
    | print _ _ _ _ _ => simp_all
    | empty _ => simp_all
  | print startKind _ derives rKind _ =>
    cases h' with
    | assign _ _ _ _ => simp_all
    | print _ _ derives' rKind' _ =>
      simp only [List.cons_append, List.append_assoc, List.cons.injEq, List.nil_append] at same
      obtain ⟨rfl, rfl, same⟩ := same
      obtain ⟨rfl, rfl⟩ := derives.unique derives' same (Expression.stops_rparen rKind _)
        (Expression.stops_rparen rKind' _)
      simp_all
    | empty _ => simp_all
  | empty _ => cases h' <;> simp_all

namespace DerivesEach

variable {α : Type} {derives : List Token → α → Prop} {starts stops : Token.Kind → Prop}
  {xs ys : List α}

theorem heads (h : DerivesEach derives ts xs) (begins : ∀ {ts x}, derives ts x → Heads stops ts)
    (next : Heads stops r) : Heads stops (ts ++ r) := by
  cases h with
  | nil => exact next
  | cons derives _ =>
    rw [List.append_assoc]
    exact (begins derives).append _

theorem unique (h : DerivesEach derives ts xs) (h' : DerivesEach derives us ys)
    (begins : ∀ {ts x}, derives ts x → Heads starts ts)
    (unique : ∀ {ts us x y r r'}, derives ts x → derives us y → ts ++ r = us ++ r' →
      ts = us ∧ x = y)
    (same : ts ++ r = us ++ r') (stop : Heads (¬starts ·) r) (stop' : Heads (¬starts ·) r') :
    ts = us ∧ xs = ys := by
  induction h generalizing us ys with
  | nil =>
    cases h' with
    | nil => exact ⟨rfl, rfl⟩
    | cons derives _ =>
      have start : Heads starts r := by
        rw [← List.nil_append r, same, List.append_assoc]
        exact (begins derives).append _
      obtain ⟨_, starts, stops⟩ := start.both stop
      exact absurd starts stops
  | cons derives rest inductionHypothesis =>
    cases h' with
    | nil =>
      have start : Heads starts r' := by
        rw [← List.nil_append r', ← same, List.append_assoc]
        exact (begins derives).append _
      obtain ⟨_, starts, stops⟩ := start.both stop'
      exact absurd starts stops
    | cons derives' rest' =>
      rw [List.append_assoc, List.append_assoc] at same
      obtain ⟨rfl, rfl⟩ := unique derives derives' same
      obtain ⟨rfl, rfl⟩ := inductionHypothesis rest' (List.append_cancel_left same)
      exact ⟨rfl, rfl⟩

theorem append {us : List Token} (first : DerivesEach derives ts xs)
    (second : DerivesEach derives us ys) : DerivesEach derives (ts ++ us) (xs ++ ys) := by
  induction first with
  | nil => exact second
  | cons derived _ others =>
    rw [List.append_assoc]
    exact .cons derived others

theorem concat {us : List Token} (before : DerivesEach derives ts xs) (last : derives us x) :
    DerivesEach derives (ts ++ us) (xs ++ [x]) := by
  have one := cons last .nil
  rw [List.append_nil] at one
  exact before.append one

theorem append_inv (h : DerivesEach derives ts (xs ++ ys)) :
    ∃ us vs, ts = us ++ vs ∧ DerivesEach derives us xs ∧ DerivesEach derives vs ys := by
  induction xs generalizing ts with
  | nil => exact ⟨[], ts, rfl, .nil, h⟩
  | cons x xs inductionHypothesis =>
    obtain _ | ⟨first, rest⟩ := h
    obtain ⟨us, vs, rfl, before, after⟩ := inductionHypothesis rest
    exact ⟨_, vs, (List.append_assoc ..).symm, .cons first before, after⟩

theorem kind_ne_eof (h : DerivesEach derives ts xs)
    (each : ∀ {ts x}, derives ts x → ∀ t ∈ ts, t.kind ≠ .eof) : ∀ t ∈ ts, t.kind ≠ .eof := by
  induction h with
  | nil => simp
  | cons derives _ inductionHypothesis =>
    intro t member
    rcases List.mem_append.mp member with here | later
    · exact each derives t here
    · exact inductionHypothesis t later

end DerivesEach

theorem ConstantDeclaration.Derives.heads {c : ConstantDeclaration}
    (h : ConstantDeclaration.Derives ts c) : Heads (· = .constWord) ts := by
  cases h
  simpa

theorem VariableDeclaration.Derives.heads {v : VariableDeclaration}
    (h : VariableDeclaration.Derives ts v) : Heads (· = .varWord) ts := by
  cases h <;> simpa

theorem Statement.Derives.heads {x : Statement} (h : Statement.Derives ts x) :
    Heads (· ∈ Token.Kind.statementStarts) ts := by
  cases h <;> simp_all [Token.Kind.statementStarts]

theorem ConstantDeclaration.Derives.kind_ne_eof {c : ConstantDeclaration}
    (h : ConstantDeclaration.Derives ts c) : ∀ t ∈ ts, t.kind ≠ .eof := by
  obtain ⟨_, _, _, sign, _, _⟩ := h
  cases sign <;> simp_all

theorem VariableDeclaration.Derives.kind_ne_eof {v : VariableDeclaration}
    (h : VariableDeclaration.Derives ts v) : ∀ t ∈ ts, t.kind ≠ .eof := by
  cases h with
  | plain => simp_all
  | initialized _ _ _ derives _ =>
    have inner := derives.kind_ne_eof
    simp_all [or_imp]

theorem Statement.Derives.kind_ne_eof {x : Statement} (h : Statement.Derives ts x) :
    ∀ t ∈ ts, t.kind ≠ .eof := by
  cases h with
  | assign _ _ derives _ =>
    have inner := derives.kind_ne_eof
    simp_all [or_imp]
  | print _ _ derives _ _ =>
    have inner := derives.kind_ne_eof
    simp_all [or_imp]
  | empty => simp_all

/-- The end of the input stands at the end of a program and nowhere else. -/
theorem Program.Derives.eof_last {p : Program} (h : Program.Derives ts p) :
    ∃ us t, ts = us ++ [t] ∧ t.kind = .eof ∧ ∀ u ∈ us, u.kind ≠ .eof := by
  cases h with
  | @mk start finish last cs vs ss p startKind consts vars statements finishKind lastKind =>
    refine ⟨start :: cs ++ vs ++ ss ++ [finish], last, by simp, lastKind, ?_⟩
    have inConsts := consts.kind_ne_eof (·.kind_ne_eof)
    have inVars := vars.kind_ne_eof (·.kind_ne_eof)
    have inStatements := statements.kind_ne_eof (·.kind_ne_eof)
    intro t member
    simp only [List.cons_append, List.append_assoc, List.mem_cons, List.mem_append,
      List.not_mem_nil, or_false] at member
    rcases member with rfl | const | var | statement | rfl
    · simp [startKind]
    · exact inConsts t const
    · exact inVars t var
    · exact inStatements t statement
    · simp [finishKind]

section

variable {ss vs : List Token} {xs : List Statement} {ws : List VariableDeclaration}
  {finish : Token}

theorem heads_statements (h : DerivesEach Statement.Derives ss xs)
    (finishKind : finish.kind = .endWord) :
    Heads (fun k => k ∈ Token.Kind.statementStarts ∨ k = .endWord) (ss ++ finish :: r) :=
  h.heads (fun derives => derives.heads.imp fun _ => .inl) (by simp [finishKind])

theorem heads_vars (h : DerivesEach VariableDeclaration.Derives vs ws)
    (next : Heads (fun k => k ∈ Token.Kind.statementStarts ∨ k = .endWord) r) :
    Heads (· ≠ .constWord) (vs ++ r) := by
  refine h.heads (fun derives => derives.heads.imp ?_) (next.imp ?_)
  · intro _ same
    subst same
    decide
  · intro _ starts same
    subst same
    exact absurd starts (by decide)

theorem heads_body (next : Heads (fun k => k ∈ Token.Kind.statementStarts ∨ k = .endWord) r) :
    Heads (· ≠ .varWord) r := by
  apply next.imp
  intro _ starts same
  subst same
  exact absurd starts (by decide)

end

/-- A sequence of tokens is a program in one way at most. -/
theorem Program.Derives.unique {p q : Program} (h : Program.Derives ts p)
    (h' : Program.Derives us q) (same : ts = us) : p = q := by
  cases h with
  | @mk start finish last cs vs ss p startKind consts vars statements finishKind lastKind =>
  cases h' with
  | @mk start' finish' last' cs' vs' ss' q startKind' consts' vars' statements' finishKind'
      lastKind' =>
  simp only [List.cons_append, List.append_assoc, List.cons.injEq] at same
  obtain ⟨-, same⟩ := same
  have body := heads_statements statements finishKind (r := [last])
  have body' := heads_statements statements' finishKind' (r := [last'])
  obtain ⟨rfl, sameConsts⟩ := consts.unique consts' (·.heads) (·.unique) same
    (heads_vars vars body) (heads_vars vars' body')
  have same := List.append_cancel_left same
  obtain ⟨rfl, sameVars⟩ := vars.unique vars' (·.heads) (·.unique) same
    (heads_body body) (heads_body body')
  have same := List.append_cancel_left same
  obtain ⟨rfl, sameStatements⟩ := statements.unique statements' (·.heads) (·.unique) same
    (by simp [finishKind, Token.Kind.statementStarts])
    (by simp [finishKind', Token.Kind.statementStarts])
  cases p
  cases q
  simp_all

end OnePass
