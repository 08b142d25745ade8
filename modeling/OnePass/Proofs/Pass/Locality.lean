import OnePass.Proofs.Pass.Failing
import OnePass.Proofs.Token.Layouts

/-!
What a pass reports depends on nothing behind the lexeme that it reports. A failing pass has scanned
no token behind that lexeme, so it fails alike on any text that begins in the same way and does not
continue the lexeme.
-/

namespace OnePass

namespace Diagnostic

/-- A cause lies in a lexeme at a place: a numeral or character that is no token, the token that is
not expected, or the name that breaks a rule. -/
def Cause.LiesIn (here : Location) (x : Lexeme) : Cause → Prop
  | invalidCharacter ch => x = .mark ch
  | integerOutOfRange literal _ => x = .numeral literal.toList
  | unexpected _ t | notAStatement t => x.isValid = true ∧ t = x.token here
  | redeclared name _ | undeclared name | uninitialized name | constantTarget name =>
    x = .word name.toList
  | tooManyDigits _ | worded _ _ _ => False

/-- The cause is that the input ends. -/
def Cause.IsEnd : Cause → Prop
  | unexpected _ t | notAStatement t => t.kind = .eof
  | _ => False

/-- A diagnostic points to a lexeme at a place. -/
def PointsTo (d : Diagnostic) (here : Location) (x : Lexeme) : Prop :=
  d.location = some here ∧ d.cause.LiesIn here x

end Diagnostic

namespace Lexeme

variable {limit : Int} {x y : Lexeme} {here : Location} {cause : Diagnostic.Cause}

theorem liesIn_of_fault (fault : x.fault? limit = some cause) :
    cause.isInternal = true ∨ cause.LiesIn here x := by
  cases x with
  | word cs => cases fault
  | numeral ds =>
    simp only [fault?] at fault
    repeat' split at fault
    all_goals cases fault
    · exact .inl rfl
    · exact .inr (by simp [Diagnostic.Cause.LiesIn])
  | mark c =>
    simp only [fault?] at fault
    split at fault <;> cases fault
    exact .inr rfl

/-- An identifier's token comes from a word. -/
theorem eq_word_of_kind (valid : x.isValid = true) (kind : (x.token here).kind = .ident) :
    x = word (x.token here).spelling.toList := by
  cases x with
  | word cs => simp [token, Token.spelling, value]
  | numeral ds => cases kind
  | mark c => exact absurd kind (kind_mark_ne valid (by decide))

end Lexeme

/-! ### Lexemes that have been scanned -/

namespace Cursor

variable {limit : Int} {file source : String} {c c' next : Cursor} {ts : List Token}
  {gap rest rest' : List Char} {x : Lexeme} {result : Except Diagnostic Token}

/-- Nothing but the end is scanned at the end. -/
theorem Scans.rest_eq_nil (ended : c.rest = []) (scans : c.Scans limit ts c') : c'.rest = [] := by
  induction ts generalizing c with
  | nil =>
    cases scans
    exact ended
  | cons t ts inductionHypothesis =>
    obtain ⟨next, scanned, scans⟩ := scans
    have blank : ∀ ch ∈ c.rest, Text.isBlank ch = true := by simp [ended]
    rw [Token.scan_of_blank limit blank] at scanned
    cases scanned
    exact inductionHypothesis (by simp) scans

/-- Where there is more of a text, its end has not been scanned. -/
theorem Scans.kind_ne_eof (scans : c.Scans limit ts c') (more : c'.rest ≠ []) :
    ∀ t ∈ ts, t.kind ≠ .eof := by
  induction ts generalizing c with
  | nil => simp
  | cons t ts inductionHypothesis =>
    obtain ⟨next, scanned, scans⟩ := scans
    rw [List.forall_mem_cons]
    refine ⟨?_, inductionHypothesis scans⟩
    intro ended
    rcases Token.exists_lexeme c.rest with blank | ⟨gap, x, rest, ahead, blank, formed, maximal⟩
    · rw [Token.scan_of_blank limit blank] at scanned
      cases scanned
      exact more (scans.rest_eq_nil (by simp))
    · rw [Token.scan_of_lexeme limit ahead blank formed maximal] at scanned
      obtain ⟨accepted, rfl⟩ := Token.ofLexeme_eq_ok.mp (Prod.mk.inj scanned).1
      exact Lexeme.kind_ne_eof (Lexeme.isValid_of_isFormed formed accepted) ended

/-- Where the same lexeme comes next, the next scans agree. -/
theorem agree_of_lexeme (here : c.here = c'.here) (ahead : c.rest = gap ++ (x.spelling ++ rest))
    (ahead' : c'.rest = gap ++ (x.spelling ++ rest')) (blank : ∀ ch ∈ gap, Text.isBlank ch = true)
    (formed : x.isFormed = true) (maximal : ∀ ch ∈ rest.head?, x.continues ch = false)
    (maximal' : ∀ ch ∈ rest'.head?, x.continues ch = false) : Agree limit limit 1 c c' := by
  have place : (c'.advanceBy gap.length).here = (c.advanceBy gap.length).here := by
    rw [here_behind ahead, here_behind ahead', here]
  rw [Agree, Token.scan_of_lexeme limit ahead blank formed maximal,
    Token.scan_of_lexeme limit ahead' blank formed maximal', Token.ofLexeme, Token.ofLexeme]
  cases x.fault? limit with
  | none => exact .inl ⟨_, _, _, rfl, by rw [place], trivial⟩
  | some cause =>
    simp only [Token.refusal_advanceBy, place]
    exact .inr ⟨_, _, _, _, rfl, rfl⟩

/-- Where lexemes are read, the scans agree on texts that begin with them and the next one. -/
theorem agree_of_reads {xs : List (List Char × Lexeme)} (here : c.here = c'.here)
    (ahead : c.rest = Layout.text ⟨xs, gap⟩ ++ (x.spelling ++ rest))
    (ahead' : c'.rest = Layout.text ⟨xs, gap⟩ ++ (x.spelling ++ rest'))
    (reads : Layout.Reads limit xs (gap ++ (x.spelling ++ rest)))
    (blank : ∀ ch ∈ gap, Text.isBlank ch = true) (formed : x.isFormed = true)
    (maximal : ∀ ch ∈ rest.head?, x.continues ch = false)
    (maximal' : ∀ ch ∈ rest'.head?, x.continues ch = false) :
    Agree limit limit ((Layout.lexemeTokens c.here xs).length + 1) c c' := by
  have reads' : Layout.Reads limit xs (gap ++ (x.spelling ++ rest')) :=
    (Layout.reads_lexeme_iff blank formed).mpr ((Layout.reads_lexeme_iff blank formed).mp reads)
  rw [← Layout.text_append] at ahead ahead'
  have scans := Layout.scans_of_reads ahead reads
  have scans' := Layout.scans_of_reads ahead' reads'
  rw [← here] at scans'
  rw [Layout.text_eq] at ahead ahead'
  have place : (c.advanceBy (Layout.text ⟨xs, []⟩).length).here =
      (c'.advanceBy (Layout.text ⟨xs, []⟩).length).here := by
    rw [here_behind ahead, here_behind ahead', here]
  exact agree_of_scans scans scans' (agree_of_lexeme place (rest_behind ahead) (rest_behind ahead')
    blank formed maximal maximal')

/-- Another text with the same beginning is scanned alike, up to a lexeme that it does not
continue. -/
def AgreesOver (limit : Int) (file source : String) (before : List Char) (x : Lexeme) (n : Nat) :
    Prop :=
  ∀ source' rest, source'.toList = before ++ (x.spelling ++ rest) →
    (∀ ch ∈ rest.head?, x.continues ch = false) →
    Agree limit limit n (.start file source) (.start file source')

/-- The last scan has taken a lexeme of the text, and texts agree over it. -/
theorem exists_lexeme_of_scans (scans : (start file source).Scans limit ts c)
    (scanned : Token.scan limit c = (result, next))
    (more : ∀ t ∈ result.toOption, t.kind ≠ .eof) :
    ∃ before x rest, source.toList = before ++ (x.spelling ++ rest) ∧ x.isFormed = true ∧
      (∀ ch ∈ rest.head?, x.continues ch = false) ∧
      result = Token.ofLexeme limit ((start file source).advanceBy before.length) x ∧
      AgreesOver limit file source before x (ts.length + 1) := by
  obtain ⟨gap, x, rest, ahead, blank, formed, maximal, same, _⟩ :=
    Token.exists_lexeme_of_scan scanned more
  have unfinished : c.rest ≠ [] := by
    rw [ahead]
    simp [Token.spelling_ne_nil_of_isFormed formed]
  obtain ⟨xs, tail, split, reads, same', stopped⟩ :=
    Layout.exists_reads_of_scans scans (scans.kind_ne_eof unfinished)
  have behind : tail = gap ++ (x.spelling ++ rest) := by
    rw [Layout.text_eq] at split
    rw [← ahead, stopped, rest_behind split]
  rw [behind] at split reads
  rw [Layout.text_append] at split
  refine ⟨Layout.text ⟨xs, gap⟩, x, rest, split, formed, maximal, ?_, ?_⟩
  · rw [Layout.text_eq, List.length_append, advanceBy_add, ← stopped]
    exact same
  · intro source' rest' split' maximal'
    rw [same']
    exact agree_of_reads rfl split split' reads blank formed maximal maximal'

/-- A token that has been scanned is that of a lexeme of the text. -/
theorem exists_lexeme_of_scans_append {t : Token}
    (scans : (start file source).Scans limit (ts ++ [t]) c) (more : t.kind ≠ .eof) :
    ∃ before x rest, source.toList = before ++ (x.spelling ++ rest) ∧ x.isValid = true ∧
      (∀ ch ∈ rest.head?, x.continues ch = false) ∧
      t = x.token ((Location.start file).afterAll before) ∧
      AgreesOver limit file source before x (ts ++ [t]).length := by
  obtain ⟨d, first, next, last, _⟩ := scans.of_append
  obtain ⟨before, x, rest, split, formed, maximal, same, agrees⟩ :=
    exists_lexeme_of_scans first last (by simpa [Except.toOption] using more)
  have place : ((start file source).advanceBy before.length).here =
      (Location.start file).afterAll before := here_behind split
  obtain ⟨accepted, token⟩ := Token.ofLexeme_eq_ok.mp same.symm
  rw [place] at token
  have valid := Lexeme.isValid_of_isFormed formed accepted
  rw [List.length_append]
  exact ⟨before, x, rest, split, valid, maximal, token, agrees⟩

end Cursor

/-! ### Failures -/

namespace Diagnostic

variable {d : Diagnostic} {x y : Lexeme} {here : Location} {file : String}
  {a b text rest rest' : List Char}

theorem Cause.scans_of_name {cause : Cause} {name : String} (named : cause.name? = some name) :
    cause.scans = 0 := by
  cases cause <;> cases named <;> rfl

theorem Cause.liesIn_of_name {cause : Cause} {name : String} (named : cause.name? = some name)
    (word : x = .word name.toList) : cause.LiesIn here x := by
  cases cause <;> cases named <;> exact word

theorem PointsTo.isInternal_eq (points : d.PointsTo here x) : d.cause.isInternal = false := by
  obtain ⟨_, lies⟩ := points
  cases cause : d.cause <;> rw [cause] at lies
  case tooManyDigits => exact lies.elim
  all_goals rfl

theorem PointsTo.not_isEnd (points : d.PointsTo here x) : ¬d.cause.IsEnd := by
  obtain ⟨_, lies⟩ := points
  intro ended
  cases cause : d.cause <;> rw [cause] at lies ended
  case unexpected | notAStatement =>
    obtain ⟨valid, rfl⟩ := lies
    exact Lexeme.kind_ne_eof valid ended
  all_goals exact ended

/-- A cause lies in one of the lexemes at a place only. -/
theorem Cause.LiesIn.unique {cause : Cause} (first : cause.LiesIn here x)
    (second : cause.LiesIn here y) (same : x.spelling ++ rest = y.spelling ++ rest') : x = y := by
  cases cause with
  | unexpected _ t | notAStatement t =>
    obtain ⟨valid, rfl⟩ := first
    obtain ⟨valid', token⟩ := second
    apply Lexeme.eq_of_spelling_eq (Lexeme.isFormed_of_isValid valid)
      (Lexeme.isFormed_of_isValid valid')
    exact Location.eq_of_afterAll_eq (List.prefix_append x.spelling rest)
      (same ▸ List.prefix_append y.spelling rest') (congrArg Token.stop token)
  | tooManyDigits | worded => exact first.elim
  | _ => exact first.trans second.symm

/-- A diagnostic points to one lexeme of a text only. -/
theorem PointsTo.unique (first : d.PointsTo ((Location.start file).afterAll a) x)
    (second : d.PointsTo ((Location.start file).afterAll b) y)
    (split : text = a ++ (x.spelling ++ rest)) (split' : text = b ++ (y.spelling ++ rest')) :
    a = b ∧ x = y := by
  have place := Option.some.inj (first.1.symm.trans second.1)
  have same : a = b := Location.eq_of_afterAll_eq (split ▸ List.prefix_append a _)
    (split' ▸ List.prefix_append b _) place
  subst same
  rw [split] at split'
  exact ⟨rfl, first.2.unique second.2 (List.append_cancel_left split')⟩

end Diagnostic

namespace Options

variable {o : Options} {file source : String} {d : Diagnostic} {s : Pass} {ts : List Token}
  {t : Token} {c next : Cursor} {before : List Char} {x : Lexeme}

/-- A failure is at a lexeme of the text, and texts are scanned alike over this lexeme. -/
def FailsAtLexeme (o : Options) (file source : String) (d : Diagnostic) (s : Pass) : Prop :=
  ∃ before x rest, source.toList = before ++ (x.spelling ++ rest) ∧ x.isFormed = true ∧
    (∀ ch ∈ rest.head?, x.continues ch = false) ∧
    d.PointsTo ((Location.start file).afterAll before) x ∧
    Cursor.AgreesOver o.limit file source before x (s.scanned + d.cause.scans)

theorem failsAtLexeme_of_refused (scans : (Cursor.start file source).Scans o.limit ts c)
    (scanned : s.scanned = ts.length) (refused : Token.scan o.limit c = (.error d, next)) :
    d.cause.isInternal = true ∨ o.FailsAtLexeme file source d s := by
  obtain ⟨before, x, rest, split, formed, maximal, same, agrees⟩ :=
    Cursor.exists_lexeme_of_scans scans refused (by simp [Except.toOption])
  have place : ((Cursor.start file source).advanceBy before.length).here =
      (Location.start file).afterAll before := Cursor.here_behind split
  obtain ⟨cause, fault, rfl⟩ := Token.ofLexeme_eq_error.mp same.symm
  have lexical : cause.scans = 1 := if_pos (Token.phase_of_fault fault)
  rcases Lexeme.liesIn_of_fault fault with internal | lies
  · exact .inl internal
  · rw [← lexical, ← scanned] at agrees
    exact .inr ⟨before, x, rest, split, formed, maximal, ⟨congrArg some place, lies⟩, agrees⟩

theorem failsAtLexeme_of_token {cause : Diagnostic.Cause}
    (scans : (Cursor.start file source).Scans o.limit (ts ++ [t]) c)
    (scanned : s.scanned = (ts ++ [t]).length) (more : t.kind ≠ .eof) (syntactic : cause.scans = 0)
    (lies : ∀ here x, x.isValid = true → t = x.token here → cause.LiesIn here x) :
    o.FailsAtLexeme file source (c.shows cause t.start) s := by
  obtain ⟨before, x, rest, split, valid, maximal, same, agrees⟩ :=
    Cursor.exists_lexeme_of_scans_append scans more
  have formed := Lexeme.isFormed_of_isValid valid
  have inside := lies _ x valid same
  rw [← scanned, ← Nat.add_zero s.scanned, ← syntactic] at agrees
  subst same
  exact ⟨before, x, rest, split, formed, maximal, ⟨rfl, inside⟩, agrees⟩

theorem failsAtLexeme_of_error (failed : o.runPass file source = .error d s) :
    d.cause.isInternal = true ∨ d.cause.IsEnd ∨ o.FailsAtLexeme file source d s := by
  cases fails_of_runPass_error failed with
  | unread leads ahead scanned refused =>
    obtain ⟨scans, count⟩ := scans_of_leads leads
    rw [ahead, Option.toList_none, List.append_nil] at scans count
    have limit := leads.1
    rw [limit] at refused
    rcases failsAtLexeme_of_refused scans (scanned.trans count) refused with internal | fails
    · exact .inl internal
    · exact .inr (.inr fails)
  | @unexpected _ actual _ leads ahead shown _ _ =>
    subst shown
    by_cases ended : actual.kind = .eof
    · exact .inr (.inl ended)
    · obtain ⟨scans, count⟩ := scans_of_leads leads
      rw [ahead, Option.toList_some] at scans count
      exact .inr (.inr (failsAtLexeme_of_token scans count ended rfl fun _ _ => And.intro))
  | misnamed leads ahead kind name shown =>
    subst shown
    obtain ⟨scans, count⟩ := scans_of_leads leads
    rw [ahead, Option.toList_none, List.append_nil] at scans count
    refine .inr (.inr (failsAtLexeme_of_token scans count (by rw [kind]; nofun)
      (Diagnostic.Cause.scans_of_name name) ?_))
    rintro here x valid rfl
    exact Diagnostic.Cause.liesIn_of_name name (Lexeme.eq_word_of_kind valid kind)

/-- The line shown for a lexeme goes on as the text does behind it only. -/
theorem lineText_start {rest : List Char} (file : String)
    (split : source.toList = before ++ (x.spelling ++ rest)) (formed : x.isFormed = true) :
    (Cursor.start file source).lineText ((Location.start file).afterAll before).line =
      String.ofList (Text.lastLine before ++ x.spelling ++ rest.takeWhile (· ≠ '\n')) := by
  have inLine : ∀ ch ∈ x.spelling, decide (ch ≠ '\n') = true := by
    intro ch member
    exact decide_eq_true (Lexeme.ne_feed_of_mem_spelling formed ch member)
  rw [Cursor.lineText, Cursor.start, split, Location.lineAt_afterAll,
    List.takeWhile_append_of_pos inLine, List.append_assoc]

/-- A pass that fails for a reason of the language, and not because the text ends, fails at a
lexeme of the text. It fails for the same reason at the same place, with the same code and names, on
any text that is the same up to the end of that lexeme and does not continue it. The lines shown are
the same up to there. -/
theorem runPass_error_local (failed : o.runPass file source = .error d s) :
    (d.cause.isInternal = true ∨ d.cause.IsEnd ∨
      ∃ before x rest, source.toList = before ++ (x.spelling ++ rest) ∧ x.isFormed = true ∧
        (∀ ch ∈ rest.head?, x.continues ch = false) ∧
        d.PointsTo ((Location.start file).afterAll before) x) ∧
    ∀ before x rest, source.toList = before ++ (x.spelling ++ rest) →
      d.PointsTo ((Location.start file).afterAll before) x →
      ∀ source' rest', source'.toList = before ++ (x.spelling ++ rest') →
        (∀ ch ∈ rest'.head?, x.continues ch = false) →
        ∃ d' s', o.runPass file source' = .error d' s' ∧
          d'.cause = d.cause ∧ d'.location = d.location ∧ s'.code = s.code ∧ s'.scope = s.scope ∧
          let shown := Text.lastLine before ++ x.spelling
          d.sourceLine = some (String.ofList (shown ++ rest.takeWhile (· ≠ '\n'))) ∧
            d'.sourceLine = some (String.ofList (shown ++ rest'.takeWhile (· ≠ '\n'))) := by
  have fails := failsAtLexeme_of_error failed
  refine ⟨?_, ?_⟩
  · rcases fails with internal | ended | ⟨before, x, rest, split, formed, maximal, points, _⟩
    · exact .inl internal
    · exact .inr (.inl ended)
    · exact .inr (.inr ⟨before, x, rest, split, formed, maximal, points⟩)
  · intro before x rest split points source' rest' split' maximal'
    rcases fails with internal | ended | ⟨before', x', _, whole, formed, _, points', agrees⟩
    · exact absurd internal (by simp [points.isInternal_eq])
    · exact absurd ended points.not_isEnd
    · obtain ⟨rfl, rfl⟩ := points.unique points' split whole
      obtain ⟨cause, l, e, rfl, failed'⟩ :=
        runPass_error_of_agree failed (agrees source' rest' split' maximal')
      have place : l = (Location.start file).afterAll before := Option.some.inj points.1
      subst place
      exact ⟨_, _, failed', rfl, rfl, rfl, rfl, congrArg some (lineText_start file split formed),
        congrArg some (lineText_start file split' formed)⟩

theorem runPass_error_local_undeclared :
    ∃ d s, ({ limit := 9 } : Options).runPass "" "begin print(1);x=2;" = .error d s ∧
      d.cause = .undeclared "x" ∧ d.location = some ⟨"", 1, 16⟩ ∧ s.code = #[.lit 1, .wrt] ∧
      d.sourceLine = some "begin print(1);x=2;" := by
  have failed : ({ limit := 9 } : Options).runPass "" "begin print(1);x" =
      .error ⟨.undeclared "x", some ⟨"", 1, 16⟩, some "begin print(1);x"⟩
        ⟨⟨"begin print(1);x".toList, [], ⟨"", 1, 17⟩, ⟨"", 1, 16⟩⟩, 9, true,
          none, .empty, #[.lit 1, .wrt], #[], 7⟩ := by
    cbv
  obtain ⟨d, s, again, cause, place, code, _, _, line⟩ := (runPass_error_local failed).2
    "begin print(1);".toList (.word ['x']) [] rfl ⟨rfl, rfl⟩
    "begin print(1);x=2;" ['=', '2', ';'] rfl (by rintro _ ⟨⟩; rfl)
  exact ⟨d, s, again, cause, place, code, line⟩

end Options
end OnePass
