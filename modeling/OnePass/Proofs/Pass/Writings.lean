import OnePass.Pass.Action
import OnePass.Program.Writing
import OnePass.Proofs.Pass.Expressions
import OnePass.Proofs.Token.Spellings

/-!
What is written is read. The tokens of a formula that is written with the parentheses it needs, and
with any others, derive an expression that says the formula. So a pass emits the formula's code.
-/

namespace OnePass

/-- An expression has the code and the operands of a formula. -/
structure Expression.Says (e : Expression) (f : Formula) : Prop where
  code : ∀ names, e.code names = f.code names
  names : e.reads.map Token.spelling = f.names

namespace Expression

variable {ts us vs : List Token} {e a b : Expression} {f g : Formula} {t : Token} {o : Operation}

def Level.looseness : Level → Nat
  | operand => 0
  | factor => 1
  | item => 2
  | expression => 3

theorem Derives.loosen {l l' : Level} (h : Derives l ts e) (le : l.looseness ≤ l'.looseness) :
    Derives l' ts e := by
  cases l <;> cases l' <;> simp [Level.looseness] at le
  all_goals first
    | exact h
    | exact h.operand
    | exact h.operand.factor
    | exact h.operand.factor.item
    | exact h.factor
    | exact h.factor.item
    | exact h.item

theorem Says.negative (meaning : e.Says f) : (Expression.negative e).Says (.negative f) := by
  refine ⟨fun names => ?_, meaning.names⟩
  rw [Expression.code, Formula.code, meaning.code]

theorem Says.binary (left : a.Says f) (right : b.Says g) (o : Operation) :
    (Expression.binary o a b).Says (.binary o f g) := by
  refine ⟨fun names => ?_, ?_⟩
  · rw [Expression.code, Formula.code, left.code, right.code]
  · rw [reads, Formula.names, List.map_append, left.names, right.names]

end Expression

namespace Writing

open Expression

variable {ts us vs : List Token} {w : Writing} {o : Operation} {f : Formula} {inner : List Token}

/-- The level of the grammar on which things of a shape are found. -/
def Shape.level : Shape → Level
  | atom => .operand
  | signed => .factor
  | product => .item
  | sum => .expression

theorem Shape.looseness_level (shape : Shape) : shape.level.looseness = shape.looseness := by
  cases shape <;> rfl

/-- Tokens with these kinds and values derive an expression that says a formula. -/
def Written (l : Level) (inner : List Token) (f : Formula) : Prop :=
  ∀ ts, ts.map Token.unplaced = inner → ∃ e, Derives l ts e ∧ e.Says f

theorem Written.loosen {l l' : Level} (h : Written l inner f) (le : l.looseness ≤ l'.looseness) :
    Written l' inner f := by
  intro ts same
  obtain ⟨e, derives, meaning⟩ := h ts same
  exact ⟨e, derives.loosen le, meaning⟩

theorem written_grouped (h : Written .expression inner f) : Written .operand (grouped inner) f := by
  intro ts same
  obtain ⟨us, vs, rfl, whole, last⟩ := List.map_eq_append_iff.mp same
  obtain ⟨l, us, rfl, lSame, inside⟩ := List.map_eq_cons_iff.mp whole
  obtain ⟨r, rfl, rSame⟩ := List.map_eq_singleton_iff.mp last
  obtain ⟨e, derives, meaning⟩ := h us inside
  have lKind : l.kind = .lparen := congrArg Token.kind lSame
  have rKind : r.kind = .rparen := congrArg Token.kind rSame
  exact ⟨.group e, .group lKind derives rKind, meaning.code, meaning.names⟩

/-- What stands in parentheses where it has to is as tight as it has to be. -/
theorem written_enclosed {shape : Shape} (h : Written shape.level inner f) (loosest : Shape) :
    Written loosest.level (enclosed loosest shape inner) f := by
  unfold enclosed
  split
  next tight =>
    rw [← Shape.looseness_level, ← Shape.looseness_level] at tight
    exact h.loosen tight
  next loose =>
    have whole : Written .expression inner f := h.loosen (by cases shape <;> decide)
    exact (written_grouped whole).loosen (Nat.zero_le _)

theorem written_sign {k : Token.Kind} {c : Char} {g : Formula}
    (h : Written .operand inner f)
    (signed : ∀ s ts e, s.kind = k → Derives .operand ts e → e.Says f →
      ∃ e', Derives .factor (s :: ts) e' ∧ e'.Says g) :
    Written .factor (mark k c :: inner) g := by
  intro ts same
  obtain ⟨s, us, rfl, sSame, behind⟩ := List.map_eq_cons_iff.mp same
  obtain ⟨e, derives, meaning⟩ := h us behind
  exact signed s us e (congrArg Token.kind sSame) derives meaning

theorem written_tokens (w : Writing) : Written w.shape.level w.tokens w.formula := by
  induction w with
  | number n =>
    intro ts same
    obtain ⟨t, rfl, tSame⟩ := List.map_eq_singleton_iff.mp same
    have kind : t.kind = .uint := congrArg Token.kind tSame
    have number : t.number = n := congrArg Token.number tSame
    refine ⟨.number t, .number kind, fun names => ?_, rfl⟩
    rw [Expression.code, number]
    rfl
  | name x =>
    intro ts same
    obtain ⟨t, rfl, tSame⟩ := List.map_eq_singleton_iff.mp same
    have kind : t.kind = .ident := congrArg Token.kind tSame
    have spelling : t.spelling = x := congrArg Token.spelling tSame
    refine ⟨.name t, .name kind, fun names => ?_, ?_⟩
    · rw [Expression.code, spelling]
      rfl
    · rw [reads, List.map_singleton, spelling]
      rfl
  | negative w inductionHypothesis =>
    exact written_sign (written_enclosed inductionHypothesis .atom) fun s ts e kind derives meaning =>
      ⟨.negative e, .negative kind derives, meaning.negative⟩
  | positive w inductionHypothesis =>
    exact written_sign (written_enclosed inductionHypothesis .atom) fun s ts e kind derives meaning =>
      ⟨.positive e, .positive kind derives, meaning.code, meaning.names⟩
  | group w inductionHypothesis =>
    exact written_grouped (inductionHypothesis.loosen (by cases w.shape <;> decide))
  | binary o l r first second =>
    have left := written_enclosed first (.ofOperation o)
    have right := written_enclosed second (.ofRight o)
    intro ts same
    obtain ⟨us, vs, rfl, before, behind⟩ := List.map_eq_append_iff.mp same
    obtain ⟨t, vs, rfl, tSame, behind⟩ := List.map_eq_cons_iff.mp behind
    obtain ⟨a, aDerives, aMeaning⟩ := left us before
    obtain ⟨b, bDerives, bMeaning⟩ := right vs behind
    have kind : t.unplaced.kind = (operator o).kind := congrArg Token.kind tSame
    change t.kind = _ at kind
    refine ⟨.binary o a b, ?_, aMeaning.binary bMeaning o⟩
    cases o with
    | add | sub => exact .sum (by rw [kind]; rfl) aDerives bDerives
    | mul | div => exact .product (by rw [kind]; rfl) aDerives bDerives

/-! ### Texts -/

section

variable {limit : Int} {t : Token}

theorem isSpelled_mark {c : Char} {k : Token.Kind} (known : Token.Kind.ofMark? c = some k) :
    (mark k c).IsSpelled limit := by
  have valid : (Lexeme.mark c).isValid = true := by simp [Lexeme.isValid, known]
  refine ⟨.mark c, ⟨Lexeme.isFormed_of_isValid valid, by simp [Lexeme.fault?, known]⟩, ?_⟩
  simp [Lexeme.token, Lexeme.kind, Lexeme.value, Token.unplaced, mark, known]

theorem isSpelled_grouped (all : ∀ t ∈ inner, t.IsSpelled limit) :
    ∀ t ∈ grouped inner, t.IsSpelled limit := by
  rw [grouped, List.cons_append, List.forall_mem_cons, List.forall_mem_append,
    List.forall_mem_singleton]
  exact ⟨isSpelled_mark rfl, all, isSpelled_mark rfl⟩

theorem isSpelled_enclosed (loosest shape : Shape) (all : ∀ t ∈ inner, t.IsSpelled limit) :
    ∀ t ∈ enclosed loosest shape inner, t.IsSpelled limit := by
  unfold enclosed
  split
  · exact all
  · exact isSpelled_grouped all

theorem isSpelled_of_mem_tokens (w : Writing) (writable : w.formula.IsWritable limit) :
    ∀ t ∈ w.tokens, t.IsSpelled limit := by
  induction w with
  | number n =>
    have digits := Nat.ofDigitChars_ten_toDigits (n := n)
    have formed : (Lexeme.numeral (Nat.toDigits 10 n)).isFormed = true :=
      Lexeme.isValid_numeral.mpr ⟨Nat.toDigits_ne_nil, fun c member =>
        Nat.isDigit_of_mem_toDigits (by decide) (by decide) member⟩
    refine List.forall_mem_singleton.mpr ⟨.numeral (Nat.toDigits 10 n), ⟨formed, ?_⟩, ?_⟩
    · rw [Lexeme.fault?_numeral_iff, digits]
      exact writable.numbers n List.mem_cons_self
    · simp [Lexeme.token, Lexeme.kind, Lexeme.value, Token.unplaced, digits]
  | name x =>
    obtain ⟨valid, notKeyword⟩ := writable.names x List.mem_cons_self
    refine List.forall_mem_singleton.mpr ⟨.word x.toList, ⟨valid, rfl⟩, ?_⟩
    simp [Lexeme.token, Lexeme.kind, Lexeme.value, Token.unplaced, notKeyword]
  | negative w inductionHypothesis | positive w inductionHypothesis =>
    refine List.forall_mem_cons.mpr ⟨isSpelled_mark rfl, isSpelled_enclosed _ _ ?_⟩
    exact inductionHypothesis ⟨writable.names, writable.numbers⟩
  | group w inductionHypothesis =>
    exact isSpelled_grouped (inductionHypothesis ⟨writable.names, writable.numbers⟩)
  | binary o l r first second =>
    obtain ⟨names, numbers⟩ := writable
    obtain ⟨lNames, rNames⟩ := List.forall_mem_append.mp names
    obtain ⟨lNumbers, rNumbers⟩ := List.forall_mem_append.mp numbers
    have left := isSpelled_enclosed (.ofOperation o) l.shape (first ⟨lNames, lNumbers⟩)
    have right := isSpelled_enclosed (.ofRight o) r.shape (second ⟨rNames, rNumbers⟩)
    have between : (operator o).IsSpelled limit := by cases o <;> exact isSpelled_mark rfl
    exact List.forall_mem_append.mpr ⟨left, List.forall_mem_cons.mpr ⟨between, right⟩⟩

/-- Whatever is written has a text, if its names and numbers have one. -/
theorem exists_text (w : Writing) (o : Options) (file : String)
    (writable : w.formula.IsWritable o.limit) :
    ∃ source ts t, o.tokens file source = .ok (ts ++ [t]) ∧ ts.map Token.unplaced = w.tokens ∧
      t.kind = .eof := by
  obtain ⟨ys, all, same⟩ := Token.exists_lexemes (isSpelled_of_mem_tokens w writable)
  obtain ⟨source, us, tokens, unplaced⟩ := Options.exists_text_of_lexemes o file all
  rw [same] at unplaced
  obtain ⟨ts, last, rfl, before, behind⟩ := List.map_eq_append_iff.mp unplaced
  obtain ⟨t, rfl, ended⟩ := List.map_eq_singleton_iff.mp behind
  exact ⟨source, ts, t, tokens, before, congrArg Token.kind ended⟩

end

/-! ### All ways to write -/

section

variable {limit : Int} {t : Token}

/-- A token is known by its kind, names and numbers apart. -/
theorem unplaced_of_isSpelled {c : Char} {k : Token.Kind} (spelled : t.unplaced.IsSpelled limit)
    (kind : t.kind = k) (known : (c, k) ∈ Token.Kind.marks) : t.unplaced = mark k c := by
  obtain ⟨y, ⟨formed, accepted⟩, same⟩ := spelled
  have valid := Lexeme.isValid_of_isFormed formed accepted
  have yKind : y.kind = k := (congrArg Token.kind same).trans kind
  cases y with
  | word cs =>
    have other : ∀ m ∈ Token.Kind.marks, m.2 ∉ Token.Kind.ident :: Token.Kind.keywords.map Prod.snd := by
      decide
    exact absurd yKind (Lexeme.kind_word_ne (other _ known))
  | numeral ds =>
    have other : ∀ m ∈ Token.Kind.marks, Token.Kind.uint ≠ m.2 := by decide
    exact absurd yKind (other _ known)
  | mark ch =>
    obtain ⟨k', found⟩ := Option.isSome_iff_exists.mp valid
    obtain rfl : k' = k := by simpa [Lexeme.kind, found] using yKind
    have unique : ∀ m ∈ Token.Kind.marks, ∀ m' ∈ Token.Kind.marks, m.2 = m'.2 → m = m' := by decide
    obtain rfl : ch = c :=
      congrArg Prod.fst (unique _ (Token.Kind.mem_marks found) _ known rfl)
    rw [← same]
    simp [Lexeme.token, Lexeme.kind, Lexeme.value, Token.unplaced, mark, found]

theorem exists_name (spelled : t.unplaced.IsSpelled limit) (kind : t.kind = .ident) :
    ∃ x, t.unplaced = ⟨.ident, .text x, .start "", .start ""⟩ := by
  obtain ⟨y, ⟨formed, accepted⟩, same⟩ := spelled
  have yKind : y.kind = .ident := (congrArg Token.kind same).trans kind
  cases y with
  | word cs =>
    refine ⟨String.ofList cs, ?_⟩
    rw [← same, ← yKind]
    rfl
  | numeral ds => cases yKind
  | mark c =>
    have valid := Lexeme.isValid_of_isFormed formed accepted
    exact absurd yKind (Lexeme.kind_mark_ne valid (by decide))

theorem exists_number (spelled : t.unplaced.IsSpelled limit) (kind : t.kind = .uint) :
    ∃ n : Nat, t.unplaced = ⟨.uint, .number n, .start "", .start ""⟩ := by
  obtain ⟨y, ⟨formed, accepted⟩, same⟩ := spelled
  have yKind : y.kind = .uint := (congrArg Token.kind same).trans kind
  cases y with
  | word cs => exact absurd yKind (Lexeme.kind_word_ne (by decide))
  | numeral ds =>
    refine ⟨Nat.ofDigitChars 10 ds 0, ?_⟩
    rw [← same]
    rfl
  | mark c =>
    have valid := Lexeme.isValid_of_isFormed formed accepted
    exact absurd yKind (Lexeme.kind_mark_ne valid (by decide))

theorem unplaced_operator (spelled : t.unplaced.IsSpelled limit)
    (operator? : t.kind.additive? = some o ∨ t.kind.multiplicative? = some o) :
    t.unplaced = operator o := by
  cases kind : t.kind <;> simp [kind, Token.Kind.additive?, Token.Kind.multiplicative?] at operator?
  all_goals
    subst operator?
    exact unplaced_of_isSpelled spelled kind (by decide)

theorem shapes_of_additive? {k : Token.Kind} (h : k.additive? = some o) :
    Shape.ofOperation o = .sum ∧ Shape.ofRight o = .product := by
  cases k <;> cases h <;> exact ⟨rfl, rfl⟩

theorem shapes_of_multiplicative? {k : Token.Kind} (h : k.multiplicative? = some o) :
    Shape.ofOperation o = .product ∧ Shape.ofRight o = .signed := by
  cases k <;> cases h <;> exact ⟨rfl, rfl⟩

theorem enclosed_of_le {loosest shape : Shape} (le : shape.looseness ≤ loosest.looseness) :
    enclosed loosest shape inner = inner := if_pos le

/-- Operands that are tight enough are written as they are. -/
theorem unplaced_binary {l r : Writing} (lSame : ts.map Token.unplaced = l.tokens)
    (between : t.unplaced = operator o) (rSame : us.map Token.unplaced = r.tokens)
    (left : l.shape.looseness ≤ (Shape.ofOperation o).looseness)
    (right : r.shape.looseness ≤ (Shape.ofRight o).looseness) :
    (ts ++ t :: us).map Token.unplaced = (binary o l r).tokens := by
  rw [List.map_append, List.map_cons, lSame, between, rSame, tokens, enclosed_of_le left,
    enclosed_of_le right]

/-- Whatever derives an expression is a way to write a formula. -/
theorem exists_of_derives {l : Level} {e : Expression} (derives : Derives l ts e)
    (spelled : ∀ t ∈ ts, t.unplaced.IsSpelled limit) :
    ∃ w : Writing, w.shape.looseness ≤ l.looseness ∧ ts.map Token.unplaced = w.tokens := by
  induction derives with
  | @name t kind =>
    obtain ⟨x, same⟩ := exists_name (spelled t List.mem_cons_self) kind
    exact ⟨.name x, Nat.le_refl _, congrArg ([·]) same⟩
  | @number t kind =>
    obtain ⟨n, same⟩ := exists_number (spelled t List.mem_cons_self) kind
    exact ⟨.number n, Nat.le_refl _, congrArg ([·]) same⟩
  | @group l r ts e lKind _ rKind inductionHypothesis =>
    rw [List.forall_mem_append, List.forall_mem_cons, List.forall_mem_singleton] at spelled
    obtain ⟨⟨lSpelled, inside⟩, rSpelled⟩ := spelled
    obtain ⟨w, _, same⟩ := inductionHypothesis inside
    have lSame : l.unplaced = mark .lparen '(' := unplaced_of_isSpelled lSpelled lKind (by decide)
    have rSame : r.unplaced = mark .rparen ')' := unplaced_of_isSpelled rSpelled rKind (by decide)
    refine ⟨.group w, Nat.le_refl _, ?_⟩
    rw [List.map_append, List.map_cons, List.map_singleton, same, lSame, rSame]
    rfl
  | operand _ inductionHypothesis | factor _ inductionHypothesis | item _ inductionHypothesis =>
    obtain ⟨w, tight, same⟩ := inductionHypothesis spelled
    exact ⟨w, Nat.le_trans tight (by decide), same⟩
  | @positive s ts e sKind _ inductionHypothesis =>
    rw [List.forall_mem_cons] at spelled
    obtain ⟨w, tight, same⟩ := inductionHypothesis spelled.2
    have sSame : s.unplaced = mark .plus '+' := unplaced_of_isSpelled spelled.1 sKind (by decide)
    refine ⟨.positive w, Nat.le_refl _, ?_⟩
    rw [List.map_cons, same, sSame, tokens, enclosed_of_le tight]
  | @negative s ts e sKind _ inductionHypothesis =>
    rw [List.forall_mem_cons] at spelled
    obtain ⟨w, tight, same⟩ := inductionHypothesis spelled.2
    have sSame : s.unplaced = mark .minus '-' := unplaced_of_isSpelled spelled.1 sKind (by decide)
    refine ⟨.negative w, Nat.le_refl _, ?_⟩
    rw [List.map_cons, same, sSame, tokens, enclosed_of_le tight]
  | @product t o ts us a b kind _ _ first second =>
    rw [List.forall_mem_append, List.forall_mem_cons] at spelled
    obtain ⟨before, tSpelled, behind⟩ := spelled
    obtain ⟨l, lTight, lSame⟩ := first before
    obtain ⟨r, rTight, rSame⟩ := second behind
    obtain ⟨shape, right⟩ := shapes_of_multiplicative? kind
    have between := unplaced_operator tSpelled (.inr kind)
    exact ⟨.binary o l r, by simp [Writing.shape, shape, Level.looseness, Shape.looseness],
      unplaced_binary lSame between rSame (by rwa [shape]) (by rwa [right])⟩
  | @sum t o ts us a b kind _ _ first second =>
    rw [List.forall_mem_append, List.forall_mem_cons] at spelled
    obtain ⟨before, tSpelled, behind⟩ := spelled
    obtain ⟨l, lTight, lSame⟩ := first before
    obtain ⟨r, rTight, rSame⟩ := second behind
    obtain ⟨shape, right⟩ := shapes_of_additive? kind
    have between := unplaced_operator tSpelled (.inl kind)
    exact ⟨.binary o l r, by simp [Writing.shape, shape, Level.looseness, Shape.looseness],
      unplaced_binary lSame between rSame (by rwa [shape]) (by rwa [right])⟩

end

/-! ### Reading -/

theorem run_expression {s : Pass} {t : Token} (w : Writing)
    (same : ts.map Token.unplaced = w.tokens) (before : s.Yields (ts ++ t :: us))
    (noSum : t.kind.additive? = none) (noProduct : t.kind.multiplicative? = none)
    (initialized : ∀ x ∈ w.formula.names, ∃ e, s.scope.find? x = some e ∧
      e.declaration.isInitialized = true) :
    ∃ s', PassM.run [.expression] s = .ok () s' ∧
      s.Emits ts (t :: us) (w.formula.code s.scope.names) s' := by
  obtain ⟨e, derives, meaning⟩ := written_tokens w ts same
  have whole : Derives .expression ts e := derives.loosen (by cases w.shape <;> decide)
  have readable : e.reads.findSome? s.scope.unreadable? = none := by
    rw [List.findSome?_eq_none_iff]
    intro t member
    have named : t.spelling ∈ w.formula.names := meaning.names ▸ List.mem_map_of_mem member
    exact Scope.unreadable?_eq_none_iff.mpr (initialized t.spelling named)
  have stop : Level.Stops .expression (t :: us) :=
    Level.stops_expression_iff.mpr ⟨heads_cons.mpr noSum, heads_cons.mpr noProduct⟩
  have reaches := PassM.reaches_level whole (List.prefix_refl _) before stop []
  rw [readable, meaning.code] at reaches
  exact reaches.run_eq_ok

/-- However a formula is written, with the parentheses it needs and with any others, and with plus
signs: a pass that has the tokens before it, and nothing that goes on with them, takes them, emits
the code of the formula and leaves the names alone. What is written has a text, and the grammar
knows no other ways to write. -/
theorem expression_of_writing :
    (∀ (w : Writing) (s : Pass) (ts us : List Token) (t : Token),
      ts.map Token.unplaced = w.tokens → s.Yields (ts ++ t :: us) →
      t.kind.additive? = none → t.kind.multiplicative? = none →
      (∀ x ∈ w.formula.names, ∃ e, s.scope.find? x = some e ∧ e.declaration.isInitialized = true) →
      ∃ s', PassM.act (.find .expression) s = .ok () s' ∧ s.Leads ts s' ∧ s'.Yields (t :: us) ∧
        s'.scope = s.scope ∧
        s'.code.toList = s.code.toList ++ w.formula.code s.scope.names) ∧
    (∀ (w : Writing) (o : Options) (file : String), w.formula.IsWritable o.limit →
      ∃ source ts t, o.tokens file source = .ok (ts ++ [t]) ∧ ts.map Token.unplaced = w.tokens ∧
        t.kind = .eof) ∧
    ∀ (o : Options) (file source : String) (ts us : List Token) (e : Expression),
      o.tokens file source = .ok us → ts ⊆ us → Derives .expression ts e →
      ∃ w : Writing, ts.map Token.unplaced = w.tokens := by
  refine ⟨?_, exists_text, ?_⟩
  · intro w s ts us t same before noSum noProduct initialized
    obtain ⟨s', run, emits⟩ := run_expression w same before noSum noProduct initialized
    exact ⟨s', run, emits.leads, emits.yields, emits.scope, emits.code⟩
  · intro o file source ts us e tokens inside derives
    have spelled : ∀ t ∈ ts, t.unplaced.IsSpelled o.limit := fun t member =>
      Options.isSpelled_of_kind tokens (inside member) (derives.kind_ne_eof t member)
    obtain ⟨w, _, same⟩ := exists_of_derives derives spelled
    exact ⟨w, same⟩

/-- The sign of `3` stands behind an operator, and the plus sign is not needed. -/
theorem expression_of_writing_signs :
    ∃ s', PassM.act (.find .expression)
        { ({ limit := 9 } : Options).pass "" "1-(x--3)*+2;" with
          scope := ⟨[⟨"x", false, true, none⟩], by simp⟩ } = .ok () s' ∧
      s'.code.toList = [.lit 1, .lod 0, .lit 0, .lit 3, .operate .sub, .operate .sub, .lit 2,
        .operate .mul, .operate .sub] := by
  obtain ⟨ts, split, same⟩ : ∃ ts, (Token.scanAll 9 (.start "" "1-(x--3)*+2;")).tokens =
      ts ++ ⟨.semicolon, .text ";", ⟨"", 1, 12⟩, ⟨"", 1, 13⟩⟩ ::
        [⟨.eof, .nothing, ⟨"", 1, 13⟩, ⟨"", 1, 13⟩⟩] ∧
      ts.map Token.unplaced = (binary .sub (.number 1) (.binary .mul
        (.binary .sub (.name "x") (.negative (.number 3))) (.positive (.number 2)))).tokens :=
    ⟨(Token.scanAll 9 (.start "" "1-(x--3)*+2;")).tokens.take 11, by cbv, by cbv⟩
  have before := Token.yields_tokens_scanAll 9 (.start "" "1-(x--3)*+2;")
  rw [split] at before
  have initialized : ∃ e : Entry, Scope.find? ⟨[⟨"x", false, true, none⟩], by simp⟩ "x" = some e ∧
      e.declaration.isInitialized = true := ⟨⟨⟨"x", false, true, none⟩, 0⟩, rfl, rfl⟩
  obtain ⟨s', read, _, _, _, code⟩ := expression_of_writing.1 _
    { ({ limit := 9 } : Options).pass "" "1-(x--3)*+2;" with
      scope := ⟨[⟨"x", false, true, none⟩], by simp⟩ }
    _ _ _ same before rfl rfl (List.forall_mem_singleton.mpr initialized)
  exact ⟨s', read, code⟩

end Writing
end OnePass
