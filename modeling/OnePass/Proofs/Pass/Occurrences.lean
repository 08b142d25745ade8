import Mathlib
import OnePass.Program.Occurrences
import OnePass.Proofs.Pass.Acceptance
import OnePass.Proofs.Program.Kinds

/-!
The events of a program, read off its tokens, are those of its tree. So a pass over tokens of the
grammar is refused at the first name that breaks a rule, and nowhere else.
-/

namespace OnePass

namespace NameEvent

variable {previous : Token.Kind} {pending : Option NameEvent} {t : Token} {ts us : List Token}

/-- Behind such a token a name is read. -/
def Plain (k : Token.Kind) : Prop :=
  k ∉ [Token.Kind.constWord, .varWord, .beginWord, .semicolon]

/-- Such a token has no event, and behind it a name is read. -/
def Quiet (k : Token.Kind) : Prop :=
  k ∉ [Token.Kind.constWord, .varWord, .beginWord, .semicolon, .ident, .equals]

/-- Behind such a token there is a new declaration or statement. -/
def Fresh (k : Token.Kind) : Prop := k ∈ [Token.Kind.beginWord, .semicolon]

instance : DecidablePred Plain := fun _ => inferInstanceAs (Decidable (_ ∉ _))

instance : DecidablePred Quiet := fun _ => inferInstanceAs (Decidable (_ ∉ _))

instance : DecidablePred Fresh := fun _ => inferInstanceAs (Decidable (_ ∈ _))

theorem Quiet.plain {k : Token.Kind} (quiet : Quiet k) : Plain k := by
  simp_all [Quiet, Plain]

theorem quiet_of_additive {k : Token.Kind} {o : Operation} (h : k.additive? = some o) :
    Quiet k := by
  cases k <;> simp_all [Token.Kind.additive?, Quiet]

theorem quiet_of_multiplicative {k : Token.Kind} {o : Operation} (h : k.multiplicative? = some o) :
    Quiet k := by
  cases k <;> simp_all [Token.Kind.multiplicative?, Quiet]

theorem ofTokens_name (kind : t.kind = .ident) (us : List Token) :
    ofTokens previous pending (t :: us) =
      ofName previous t :: ofTokens .ident (begun previous t pending) us := by
  rw [ofTokens, kind]

theorem ofTokens_read (plain : Plain previous) (kind : t.kind = .ident) (us : List Token) :
    ofTokens previous pending (t :: us) = .read t :: ofTokens .ident pending us := by
  rw [ofTokens_name kind]
  cases previous <;> simp_all [Plain, ofName, begun]

/-- Only names, `=` and `;` matter to names. -/
theorem ofTokens_other (other : t.kind ∉ [Token.Kind.ident, .equals, .semicolon])
    (us : List Token) : ofTokens previous pending (t :: us) = ofTokens t.kind pending us := by
  rw [ofTokens]
  cases kind : t.kind <;> simp_all

theorem ofTokens_equals (kind : t.kind = .equals) (us : List Token) :
    ofTokens previous pending (t :: us) = ofTokens .equals (pending.map initialized) us := by
  rw [ofTokens, kind]

theorem ofTokens_semicolon (kind : t.kind = .semicolon) (us : List Token) :
    ofTokens previous pending (t :: us) = pending.toList ++ ofTokens .semicolon none us := by
  rw [ofTokens, kind]

/-- Tokens are passed with these events, and what stands behind them stands behind a plain one. -/
def Passed (previous : Token.Kind) (pending : Option NameEvent) (ts : List Token)
    (es : List NameEvent) : Prop :=
  ∃ last, Plain last ∧ ∀ us,
    ofTokens previous pending (ts ++ us) = es ++ ofTokens last pending us

theorem Passed.append {es fs : List NameEvent} (first : Passed previous pending ts es)
    (second : ∀ last, Plain last → Passed last pending us fs) :
    Passed previous pending (ts ++ us) (es ++ fs) := by
  obtain ⟨middle, plain, first⟩ := first
  obtain ⟨last, lastPlain, second⟩ := second middle plain
  refine ⟨last, lastPlain, ?_⟩
  intro vs
  rw [List.append_assoc, first, second, List.append_assoc]

theorem passed_quiet (quiet : Quiet t.kind) : Passed previous pending [t] [] := by
  refine ⟨t.kind, quiet.plain, ?_⟩
  intro us
  have other : t.kind ∉ [Token.Kind.ident, .equals, .semicolon] := by simp_all [Quiet]
  exact ofTokens_other other us

theorem Passed.cons {es : List NameEvent} (quiet : Quiet t.kind)
    (rest : ∀ last, Plain last → Passed last pending ts es) :
    Passed previous pending (t :: ts) es :=
  (passed_quiet quiet).append rest

/-- The names of an expression are read, in the order of the text. -/
theorem passed_expression {l : Expression.Level} {e : Expression}
    (h : Expression.Derives l ts e) (plain : Plain previous) (pending : Option NameEvent) :
    Passed previous pending ts e.events := by
  have quiet {t : Token} {k : Token.Kind} (kind : t.kind = k) (quiet : Quiet k) : Quiet t.kind :=
    kind ▸ quiet
  induction h generalizing previous with
  | name kind =>
    refine ⟨.ident, by decide, ?_⟩
    intro us
    exact ofTokens_read plain kind us
  | number kind => exact passed_quiet (quiet kind (by decide))
  | group lKind _ rKind inductionHypothesis =>
    apply Passed.cons (quiet lKind (by decide))
    intro last lastPlain
    have closed := (inductionHypothesis lastPlain).append fun _ _ =>
      passed_quiet (quiet rKind (by decide))
    simpa [Expression.events] using closed
  | operand _ inductionHypothesis => exact inductionHypothesis plain
  | positive kind _ inductionHypothesis =>
    exact .cons (quiet kind (by decide)) fun _ lastPlain => inductionHypothesis lastPlain
  | negative kind _ inductionHypothesis =>
    exact .cons (quiet kind (by decide)) fun _ lastPlain => inductionHypothesis lastPlain
  | factor _ inductionHypothesis => exact inductionHypothesis plain
  | product operator _ _ left right =>
    apply (left plain).append
    intro _ _
    exact .cons (quiet_of_multiplicative operator) fun _ lastPlain => right lastPlain
  | item _ inductionHypothesis => exact inductionHypothesis plain
  | sum operator _ _ left right =>
    apply (left plain).append
    intro _ _
    exact .cons (quiet_of_additive operator) fun _ lastPlain => right lastPlain

/-- What is begun afresh and ended by `;` has these events. -/
def Completes {α : Type} (derives : List Token → α → Prop) (events : α → List NameEvent) : Prop :=
  ∀ {previous ts x}, derives ts x → Fresh previous → ∀ us,
    ofTokens previous none (ts ++ us) = events x ++ ofTokens .semicolon none us

theorem completes_constants : Completes ConstantDeclaration.Derives ConstantDeclaration.events := by
  intro previous ts c h fresh us
  cases h with
  | @mk start name equals number stop signs sign startKind nameKind equalsKind derives numberKind
      stopKind =>
    have rest : ofTokens .equals (some (.declared name true true)) (signs ++ number :: stop :: us) =
        .declared name true true :: ofTokens .semicolon none us := by
      cases derives with
      | none =>
        rw [List.nil_append, ofTokens_other (by simp [numberKind]), ofTokens_semicolon stopKind]
        rfl
      | plus kind | minus kind =>
        rw [List.cons_append, List.nil_append, ofTokens_other (by simp [kind]),
          ofTokens_other (by simp [numberKind]), ofTokens_semicolon stopKind]
        rfl
    simp only [List.cons_append, List.append_assoc, List.nil_append]
    rw [ofTokens_other (by simp [startKind]), startKind, ofTokens_name nameKind]
    simp only [ofName, begun]
    rw [ofTokens_equals equalsKind, Option.map_some, initialized, rest]
    rfl

theorem completes_variables : Completes VariableDeclaration.Derives VariableDeclaration.events := by
  intro previous ts v h fresh us
  cases h with
  | @plain start name stop startKind nameKind stopKind =>
    simp only [List.cons_append, List.nil_append]
    rw [ofTokens_other (by simp [startKind]), startKind, ofTokens_name nameKind]
    simp only [ofName, begun]
    rw [ofTokens_semicolon stopKind]
    rfl
  | @initialized start name equals stop ts e startKind nameKind equalsKind derives stopKind =>
    have plain : Plain .equals := by decide
    obtain ⟨last, _, passed⟩ :=
      passed_expression derives plain (some (.declared name false true))
    simp only [List.cons_append, List.append_assoc, List.nil_append]
    rw [ofTokens_other (by simp [startKind]), startKind, ofTokens_name nameKind]
    simp only [ofName, begun]
    rw [ofTokens_equals equalsKind, Option.map_some, initialized, passed,
      ofTokens_semicolon stopKind]
    simp [VariableDeclaration.events]

theorem completes_statements : Completes Statement.Derives Statement.events := by
  intro previous ts x h fresh us
  cases h with
  | @assign name equals stop ts e nameKind equalsKind derives stopKind =>
    have plain : Plain .equals := by decide
    obtain ⟨last, _, passed⟩ := passed_expression derives plain (some (.assigned name))
    have target : ofName previous name = .targeted name ∧
        begun previous name none = some (.assigned name) := by
      cases previous <;> simp_all [Fresh, ofName, begun]
    simp only [List.cons_append, List.append_assoc, List.nil_append]
    rw [ofTokens_name nameKind, target.1, target.2, ofTokens_equals equalsKind, Option.map_some,
      initialized, passed, ofTokens_semicolon stopKind]
    · simp [Statement.events]
    · simp
  | @print start l r stop ts e startKind lKind derives rKind stopKind =>
    have plain : Plain .lparen := by decide
    obtain ⟨last, _, passed⟩ := passed_expression derives plain none
    simp only [List.cons_append, List.append_assoc, List.nil_append]
    rw [ofTokens_other (by simp [startKind]), ofTokens_other (by simp [lKind]), lKind, passed,
      ofTokens_other (by simp [rKind]), ofTokens_semicolon stopKind]
    rfl
  | empty stopKind => exact ofTokens_semicolon stopKind us

theorem Completes.each {α : Type} {derives : List Token → α → Prop} {events : α → List NameEvent}
    {xs : List α} (completes : Completes derives events) (h : DerivesEach derives ts xs)
    (fresh : Fresh previous) :
    ∃ last, Fresh last ∧ ∀ us,
      ofTokens previous none (ts ++ us) = xs.flatMap events ++ ofTokens last none us := by
  induction h generalizing previous with
  | nil => exact ⟨previous, fresh, fun us => rfl⟩
  | cons derived _ inductionHypothesis =>
    have again : Fresh .semicolon := by decide
    obtain ⟨last, lastFresh, rest⟩ := inductionHypothesis again
    refine ⟨last, lastFresh, ?_⟩
    intro us
    rw [List.append_assoc, completes derived fresh, rest, List.flatMap_cons, List.append_assoc]

end NameEvent

/-- The tokens of a program have the events of its tree. -/
theorem Program.Derives.ofTokens_eq {ts : List Token} {p : Program} (h : Program.Derives ts p) :
    NameEvent.ofTokens .eof none ts = p.events := by
  cases h with
  | @mk start finish last cs vs ss p startKind consts vars statements finishKind lastKind =>
    have fresh : NameEvent.Fresh .beginWord := by decide
    obtain ⟨_, fresh, constsRead⟩ := NameEvent.completes_constants.each consts fresh
    obtain ⟨_, fresh, varsRead⟩ := NameEvent.completes_variables.each vars fresh
    obtain ⟨_, _, statementsRead⟩ := NameEvent.completes_statements.each statements fresh
    simp only [List.cons_append, List.append_assoc]
    rw [NameEvent.ofTokens_other (by simp [startKind]), startKind, constsRead, varsRead,
      statementsRead, NameEvent.ofTokens_other (by simp [finishKind]),
      NameEvent.ofTokens_other (by simp [lastKind])]
    simp [events, NameEvent.ofTokens]

namespace Options

variable {o : Options} {file source : String} {ts : List Token}

/-- A pass over tokens of the grammar fails if and only if a name breaks a rule, and then at the
first one that does. -/
theorem runPass_first_violation (tokens : o.tokens file source = .ok ts)
    (sentence : IsSentence (ts.map Token.kind)) :
    match Knowledge.firstViolation? [] (NameEvent.ofTokens .eof none ts) with
    | none => ∃ s, o.runPass file source = .ok () s
    | some v => ∃ d s, o.runPass file source = .error d s ∧ d.cause = v.cause ∧
        d.location = some v.token.start := by
  obtain ⟨p, derives⟩ := isSentence_iff.mp sentence
  have ends := runPass_of_derives tokens derives
  rw [derives.ofTokens_eq]
  change match p.violation? with
    | none => _
    | some v => _
  cases violation : p.violation? with
  | none =>
    rw [violation] at ends
    obtain ⟨s, ran, _⟩ := ends
    exact ⟨s, ran⟩
  | some v =>
    rw [violation] at ends
    exact ends

theorem runPass_first_violation_undeclared :
    ∃ d s, ({ limit := 9 } : Options).runPass "" "begin x=1;end" = .error d s ∧
      d.cause = .undeclared "x" ∧ d.location = some ⟨"", 1, 7⟩ := by
  have tokens : ({ limit := 9 } : Options).tokens "" "begin x=1;end" =
      .ok [⟨.beginWord, .text "begin", ⟨"", 1, 1⟩, ⟨"", 1, 6⟩⟩,
        ⟨.ident, .text "x", ⟨"", 1, 7⟩, ⟨"", 1, 8⟩⟩, ⟨.equals, .text "=", ⟨"", 1, 8⟩, ⟨"", 1, 9⟩⟩,
        ⟨.uint, .number 1, ⟨"", 1, 9⟩, ⟨"", 1, 10⟩⟩,
        ⟨.semicolon, .text ";", ⟨"", 1, 10⟩, ⟨"", 1, 11⟩⟩,
        ⟨.endWord, .text "end", ⟨"", 1, 11⟩, ⟨"", 1, 14⟩⟩,
        ⟨.eof, .nothing, ⟨"", 1, 14⟩, ⟨"", 1, 14⟩⟩] := by
    cbv
  have value : Expression.Derives .expression [.ofKind .uint] _ :=
    .item (.factor (.operand (.number rfl)))
  have statement : Statement.Derives
      ([.ofKind .ident, .ofKind .equals, .ofKind .uint] ++ [.ofKind .semicolon]) _ :=
    .assign rfl rfl value rfl
  have program : Program.Derives
      (.ofKind .beginWord :: [] ++ [] ++ _ ++ [.ofKind .endWord, .ofKind .eof]) ⟨[], [], [_]⟩ :=
    .mk rfl .nil .nil (.cons statement .nil) rfl rfl
  exact runPass_first_violation tokens ⟨_, _, program, rfl⟩

end Options
end OnePass
