import OnePass.Proofs.Pass.Correspondence
import OnePass.Proofs.Pass.Locality
import OnePass.Proofs.Text.Lines

/-!
What a report shows. A diagnostic points to the first character of the lexeme that it is about, or
to the end of the text, and shows the line of this place. Its report has one line for the message,
the line shown, a line with a caret under the place, and the hint, and no line more.
-/

namespace OnePass

/-! ### The tokens of a text -/

/-- A token of a text: it is scanned behind some others. -/
def Cursor.Meets (limit : Int) (c : Cursor) (t : Token) : Prop :=
  ∃ ts next, c.Scans limit (ts ++ [t]) next

namespace Cursor

variable {limit : Int} {c c' : Cursor} {ts : List Token} {t : Token} {file source : String}

/-- Scanning never changes where the text ends. -/
theorem Scans.afterAll_rest (scans : c.Scans limit ts c') :
    c'.here.afterAll c'.rest = c.here.afterAll c.rest := by
  obtain ⟨n, rfl⟩ := scans.exists_advanceBy
  rw [here_advanceBy, rest_advanceBy, ← Location.afterAll_append, List.take_append_drop]

/-- The end of the input stands at the end of the text, and any other token at its lexeme. -/
theorem Meets.end_or_lexeme (meets : (start file source).Meets limit t) :
    (t.kind = .eof ∧ t.value = .nothing ∧
        t.start = (Location.start file).afterAll source.toList) ∨
      ∃ (before : List Char) (x : Lexeme) (rest : List Char),
        source.toList = before ++ (x.spelling ++ rest) ∧ x.isValid = true ∧
          t = x.token ((Location.start file).afterAll before) := by
  obtain ⟨ts, next, scans⟩ := meets
  by_cases ended : t.kind = .eof
  · obtain ⟨c, before, _, scanned, _⟩ := scans.of_append
    rcases Token.exists_lexeme c.rest with blank | ⟨_, _, _, ahead, blank, formed, maximal⟩
    · rw [Token.scan_of_blank limit blank, before.afterAll_rest] at scanned
      cases scanned
      exact .inl ⟨rfl, rfl, rfl⟩
    · rw [Token.scan_of_lexeme limit ahead blank formed maximal] at scanned
      obtain ⟨accepted, rfl⟩ := Token.ofLexeme_eq_ok.mp (Prod.mk.inj scanned).1
      exact absurd ended (Lexeme.kind_ne_eof (Lexeme.isValid_of_isFormed formed accepted))
  · obtain ⟨before, x, rest, split, valid, _, same, _⟩ :=
      exists_lexeme_of_scans_append scans ended
    exact .inr ⟨before, x, rest, split, valid, same⟩

theorem Meets.file_start (meets : (start file source).Meets limit t) : t.start.file = file := by
  rcases meets.end_or_lexeme with ⟨_, _, stop⟩ | ⟨before, x, _, _, _, rfl⟩
  · rw [stop]
    exact Location.file_afterAll (.start file) source.toList
  · exact Location.file_afterAll (.start file) before

theorem agree_refl (limit : Int) (c : Cursor) (n : Nat) : Agree limit limit n c c := by
  induction n generalizing c with
  | zero => trivial
  | succ n inductionHypothesis =>
    cases scanned : Token.scan limit c with
    | mk result next =>
      cases result with
      | ok t => exact .inl ⟨t, next, next, scanned, scanned, inductionHypothesis next⟩
      | error d =>
        obtain ⟨cause, l, rfl, _⟩ := Token.exists_shows_of_scan scanned
        exact .inr ⟨cause, l, next, next, scanned, scanned⟩

end Cursor

namespace Pairing

/-- A text beside itself. -/
def diagonal (limit : Int) (c : Cursor) : Pairing where
  Pairs t u := u = t ∧ c.Meets limit t
  kind := by
    rintro _ _ ⟨rfl, _⟩
    rfl
  number := by
    rintro _ _ ⟨rfl, _⟩ _
    rfl
  name := by
    rintro _ _ _ _ ⟨rfl, _⟩ ⟨rfl, _⟩ _ _
    rfl

theorem cursors_diagonal {limit : Int} {c c' : Cursor} {ts : List Token}
    (scans : c.Scans limit ts c') (n : Nat) : (diagonal limit c).Cursors limit limit n c' c' := by
  induction n generalizing ts c' with
  | zero => trivial
  | succ n inductionHypothesis =>
    cases scanned : Token.scan limit c' with
    | mk result next =>
      cases result with
      | ok t =>
        have further : c.Scans limit (ts ++ [t]) next := scans.append ⟨next, scanned, rfl⟩
        exact .inl ⟨t, t, next, next, scanned, scanned, ⟨rfl, ts, next, further⟩,
          inductionHypothesis further⟩
      | error d => exact .inr ⟨d, d, next, next, scanned, scanned⟩

end Pairing

namespace Options

variable {o : Options} {file source : String} {d : Diagnostic} {s : Pass}

theorem shows_of_runPass_error (failed : o.runPass file source = .error d s) :
    ∃ cause l, d = (Cursor.start file source).shows cause l := by
  obtain ⟨cause, l, _, shown, _⟩ :=
    runPass_error_of_agree failed (Cursor.agree_refl o.limit (.start file source) _)
  exact ⟨cause, l, shown⟩

/-- Unless a text cannot be read, a failure is about tokens of the text. -/
theorem exists_token_of_runPass_error (failed : o.runPass file source = .error d s) :
    d.cause.phase = .lexical ∨
      let meets (t _ : Token) := (Cursor.start file source).Meets o.limit t
      ∃ t, meets t t ∧ d.location = some t.start ∧ d.cause.Corresponds meets t t d.cause := by
  have nothing : (Cursor.start file source).Scans o.limit [] (.start file source) := rfl
  have results := o.runPass_results (Pairing.cursors_diagonal nothing)
  rw [failed] at results
  obtain ⟨⟨lexical, _⟩ | ⟨t, _, ⟨rfl, met⟩, place, _, causes⟩, _⟩ := results
  · exact .inl lexical
  · exact .inr ⟨_, met, place, causes.imp fun _ _ names => names.1.2⟩

end Options

/-! ### Messages and hints -/

open Text

theorem Lexeme.oneLine_spelling {x : Lexeme} (formed : x.isFormed = true) :
    OneLine (String.ofList x.spelling) := by
  rw [oneLine_ofList]
  exact fun member => ne_feed_of_mem_spelling formed _ member rfl

theorem Lexeme.oneLine_value {x : Lexeme} (valid : x.isValid = true) (here : Location) :
    OneLine (x.token here).spelling := by
  have line := oneLine_spelling (isFormed_of_isValid valid)
  cases x with
  | word cs => exact line
  | numeral ds =>
    change OneLine ""
    decide
  | mark c => exact line

theorem Cursor.Meets.oneLine_spelling {limit : Int} {file source : String} {t : Token}
    (meets : (Cursor.start file source).Meets limit t) : OneLine t.spelling := by
  rcases meets.end_or_lexeme with ⟨_, none, _⟩ | ⟨before, x, _, _, valid, rfl⟩
  · rw [Token.spelling, none]
    decide
  · exact x.oneLine_value valid _

namespace Diagnostic

/-- The message and the hint have one line each. -/
structure Cause.OneLine (cause : Cause) : Prop where
  message : Text.OneLine cause.message
  hint : ∀ hint ∈ cause.hint, Text.OneLine hint

variable {cause : Cause} {here : Location} {x : Lexeme} {file source : String} {limit : Int}

theorem Cause.oneLine_of_liesIn (lexical : cause.phase = .lexical) (formed : x.isFormed = true)
    (lies : cause.LiesIn here x) : cause.OneLine := by
  have line := Lexeme.oneLine_spelling formed
  cases cause with
  | invalidCharacter ch =>
    cases lies
    refine ⟨?_, by simp [hint]⟩
    unfold message
    simp only [characterNumber, oneLine_append, oneLine_hex, and_true]
    exact ⟨⟨⟨⟨by decide, line⟩, by decide⟩, by decide⟩, by decide⟩
  | integerOutOfRange literal limit =>
    cases lies
    rw [Lexeme.spelling, String.ofList_toList] at line
    constructor
    · unfold message
      simp only [oneLine_append, line, and_true]
      decide
    · rintro _ ⟨⟩
      exact oneLine_append.mpr ⟨by decide, oneLine_int limit⟩
  | tooManyDigits | worded => exact lies.elim
  | _ => cases lexical

theorem Cause.oneLine_of_corresponds {cause' : Cause} {t u : Token} (named : Text.OneLine file)
    (met : (Cursor.start file source).Meets limit t)
    (causes : cause.Corresponds (fun t _ => (Cursor.start file source).Meets limit t) t u cause') :
    cause.OneLine := by
  have line := met.oneLine_spelling
  cases causes with
  | @unexpected expected =>
    refine ⟨?_, by simp [hint]⟩
    have names : ∀ name ∈ expected.map Token.Kind.name, Text.OneLine name := by
      simp only [List.forall_mem_map]
      exact fun k _ => k.oneLine_name
    have listed := oneLine_intercalate (s := " or ") (by decide) names
    unfold message
    simp only [oneLine_append, listed, Token.oneLine_describe line, and_true]
    decide
  | @redeclared first _ declared =>
    have place := Location.oneLine_text (l := first.start) (declared.file_start ▸ named)
    constructor
    · unfold message
      simp only [oneLine_append, line, and_true]
      decide
    · rintro _ ⟨⟩
      simp only [oneLine_append, line, place, and_true]
      decide
  | undeclared | uninitialized | constantTarget =>
    constructor
    · unfold message
      simp only [oneLine_append, line, and_true]
      decide
    · rintro _ ⟨⟩
      simp only [oneLine_append, line, and_true]
      decide
  | notAStatement =>
    refine ⟨?_, by simp [hint]⟩
    unfold message
    simp only [oneLine_append, Token.oneLine_describe line, true_and]
    decide

theorem Cause.IsEnd.phase (ended : cause.IsEnd) : cause.phase = .syntactic := by
  cases cause with
  | unexpected | notAStatement => rfl
  | _ => exact ended.elim

theorem Cause.Corresponds.kind {names : Token → Token → Prop} {t u : Token} {cause' : Cause}
    (causes : cause.Corresponds names t u cause') (ended : cause.IsEnd) : t.kind = .eof := by
  cases causes with
  | unexpected | notAStatement => exact ended
  | _ => exact ended.elim

theorem reportLines_eq {d : Diagnostic} {l : Location} {column : Nat} {shown : String}
    (place : d.location = some l) (behind : l.column = column + 1)
    (sourceLine : d.sourceLine = some shown) :
    d.reportLines = (l.text ++ ": error: " ++ d.message) :: ("    " ++ shown) ::
      String.ofList (List.replicate (column + 4) ' ' ++ ['^']) ::
        (d.hint.filter (· ≠ "")).toList.map fun hint => "hint: " ++ hint := by
  have indent : 3 + (column + 1 : Int).toNat = column + 4 := by omega
  simp only [reportLines, place, sourceLine, excerpt, behind, indent]
  rw [if_pos (by omega)]
  cases d.hint with
  | none => simp [String.append_assoc]
  | some hint => by_cases empty : hint = "" <;> simp [String.append_assoc, Option.filter, empty]

/-- A report has the lines that it is made of, and no line more. -/
theorem lines_report {d : Diagnostic} {l : Location} {column : Nat} {shown : List Char}
    (external : d.cause.isInternal = false) (place : d.location = some l)
    (behind : l.column = column + 1) (sourceLine : d.sourceLine = some (String.ofList shown))
    (named : Text.OneLine l.file) (oneLine : d.cause.OneLine) (whole : '\n' ∉ shown) :
    lines d.report.toList =
      (l.text ++ ": error: " ++ d.message).toList :: ("    ".toList ++ shown) ::
        (List.replicate (column + 4) ' ' ++ ['^']) ::
          (d.hint.filter (· ≠ "")).toList.map fun hint => ("hint: " ++ hint).toList := by
  have made := reportLines_eq place behind sourceLine
  have all : ∀ s ∈ d.reportLines, Text.OneLine s := by
    rw [made, List.forall_mem_cons, List.forall_mem_cons, List.forall_mem_cons, List.forall_mem_map]
    refine ⟨?_, ?_, ?_, ?_⟩
    · simp only [oneLine_append, Location.oneLine_text named, true_and]
      exact ⟨by decide, oneLine.message⟩
    · exact oneLine_append.mpr ⟨by decide, oneLine_ofList.mpr whole⟩
    · rw [oneLine_ofList]
      simp
    · intro hint member
      rw [Option.mem_toList, Option.filter_eq_some_iff] at member
      exact oneLine_append.mpr ⟨by decide, oneLine.hint hint member.1⟩
  rw [report, if_neg (by simp [external]), lines_intercalate (by simp [made]) all, made]
  simp

end Diagnostic

namespace Options

variable {o : Options} {file source : String} {d : Diagnostic} {s : Pass}

/-- What a pass reports has one line each for the message and the hint. -/
theorem oneLine_of_runPass_error (failed : o.runPass file source = .error d s)
    (external : d.cause.isInternal = false) (named : OneLine file) : d.cause.OneLine := by
  rcases exists_token_of_runPass_error failed with lexical | ⟨t, met, _, causes⟩
  · rcases failsAtLexeme_of_error failed with internal | ended | ⟨_, x, _, _, formed, _, points, _⟩
    · rw [internal] at external
      cases external
    · rw [ended.phase] at lexical
      cases lexical
    · exact Diagnostic.Cause.oneLine_of_liesIn lexical formed points.2
  · exact Diagnostic.Cause.oneLine_of_corresponds named met causes

/-- A diagnostic points to the lexeme that it is about, or to the end of the text. -/
theorem exists_place_of_runPass_error (failed : o.runPass file source = .error d s)
    (external : d.cause.isInternal = false) :
    ∃ before rest, source.toList = before ++ rest ∧
      d.location = some ((Location.start file).afterAll before) ∧
      (d.cause.IsEnd → rest = []) ∧
      (¬d.cause.IsEnd → ∃ (x : Lexeme) (behind : List Char), rest = x.spelling ++ behind ∧
        x.isFormed = true ∧ (∀ ch ∈ behind.head?, x.continues ch = false) ∧
        d.cause.LiesIn ((Location.start file).afterAll before) x) := by
  rcases failsAtLexeme_of_error failed with
    internal | ended | ⟨before, x, behind, split, formed, maximal, points, _⟩
  · rw [internal] at external
    cases external
  · refine ⟨source.toList, [], (List.append_nil _).symm, ?_, fun _ => rfl, absurd ended⟩
    rcases exists_token_of_runPass_error failed with lexical | ⟨t, met, place, causes⟩
    · rw [ended.phase] at lexical
      cases lexical
    · rcases met.end_or_lexeme with ⟨_, _, stop⟩ | ⟨_, x, _, _, valid, rfl⟩
      · rw [place, stop]
      · exact absurd (causes.kind ended) (Lexeme.kind_ne_eof valid)
  · exact ⟨before, x.spelling ++ behind, split, points.1,
      fun ended => absurd ended points.not_isEnd,
      fun _ => ⟨x, behind, rfl, formed, maximal, points.2⟩⟩

theorem exists_runPass_of_compile (failed : o.compile file source = .error d) :
    ∃ s, o.runPass file source = .error d s := by
  unfold compile at failed
  cases ran : o.runPass file source with
  | ok _ s =>
    rw [ran] at failed
    cases failed
  | error e s =>
    rw [ran] at failed
    cases failed
    exact ⟨s, rfl⟩

/-- An error of the language points to the first character of the lexeme that it is about, or to
the end of the text if that is what is not expected. It shows the line of this place. Its report has
the place with the message, the line, and a caret under the place, and the hint if there is one. -/
theorem compile_error_report (o : Options) (failed : o.compile file source = .error d)
    (external : d.cause.isInternal = false) :
    ∃ before rest shown, source.toList = before ++ rest ∧
      d.location = some ⟨file, before.count '\n' + 1, (lastLine before).length + 1⟩ ∧
      d.sourceLine = some (String.ofList shown) ∧
      (lines source.toList)[before.count '\n']? = some shown ∧
      (lastLine before).length ≤ shown.length ∧
      (d.cause.IsEnd → rest = [] ∧ shown.length = (lastLine before).length) ∧
      (¬d.cause.IsEnd → ∃ (x : Lexeme) (behind : List Char), rest = x.spelling ++ behind ∧
        x.isFormed = true ∧ (∀ ch ∈ behind.head?, x.continues ch = false) ∧
        d.cause.LiesIn ((Location.start file).afterAll before) x ∧
        ∃ ch, x.spelling.head? = some ch ∧ shown[(lastLine before).length]? = some ch) ∧
      ('\n' ∉ file.toList → lines d.report.toList =
        (file ++ ":" ++ toString (before.count '\n' + 1) ++ ":" ++
            toString ((lastLine before).length + 1) ++ ": error: " ++ d.message).toList ::
          ("    ".toList ++ shown) ::
            (List.replicate ((lastLine before).length + 4) ' ' ++ ['^']) ::
              (d.hint.filter (· ≠ "")).toList.map fun hint => ("hint: " ++ hint).toList) := by
  obtain ⟨s, failed⟩ := exists_runPass_of_compile failed
  obtain ⟨before, rest, split, place, atEnd, inside⟩ :=
    exists_place_of_runPass_error failed external
  have sourceLine : d.sourceLine =
      some (String.ofList (lastLine before ++ rest.takeWhile (· ≠ '\n'))) := by
    obtain ⟨cause, l, rfl⟩ := shows_of_runPass_error failed
    obtain rfl : l = (Location.start file).afterAll before := Option.some.inj place
    rw [Cursor.shows, Cursor.lineText, Cursor.start, split, Location.lineAt_afterAll]
  have known := Location.afterAll_start file before
  refine ⟨before, rest, _, split, known ▸ place, sourceLine, split ▸ getElem?_lines before rest,
    by simp, ?_, ?_, ?_⟩
  · intro ended
    simp [atEnd ended]
  · intro more
    obtain ⟨x, behind, rfl, formed, maximal, lies⟩ := inside more
    refine ⟨x, behind, rfl, formed, maximal, lies, ?_⟩
    have feedless := Lexeme.ne_feed_of_mem_spelling formed
    cases spelling : x.spelling with
    | nil => exact absurd spelling (Token.spelling_ne_nil_of_isFormed formed)
    | cons ch cs =>
      rw [spelling, List.forall_mem_cons] at feedless
      refine ⟨ch, rfl, ?_⟩
      rw [List.getElem?_append_right (Nat.le_refl _), Nat.sub_self, List.cons_append,
        List.takeWhile_cons_of_pos (by simpa using feedless.1)]
      rfl
  · intro named
    rw [known] at place
    rw [Diagnostic.lines_report external place rfl sourceLine named
      (oneLine_of_runPass_error failed external named) (not_mem_line before rest),
      Location.text_counted]

theorem compile_error_report_undeclared :
    ∃ d, ({ limit := 9 } : Options).compile "a" "begin\n  x = 1;" = .error d ∧
      d.cause.isInternal = false ∧ '\n' ∉ "a".toList ∧
      lines d.report.toList =
        ["a:2:3: error: undeclared identifier 'x'", "      x = 1;", "      ^",
          "hint: declare it with 'var x;' or 'const x = ...;'"].map String.toList := by
  have failed : ({ limit := 9 } : Options).compile "a" "begin\n  x = 1;" =
      .error ⟨.undeclared "x", some ⟨"a", 2, 3⟩, some "  x = 1;"⟩ := by
    cbv
  have named : '\n' ∉ "a".toList := by decide
  obtain ⟨before, rest, shown, _, place, sourceLine, _, _, _, _, report⟩ :=
    compile_error_report _ failed rfl
  have line : before.count '\n' = 1 := by
    have := congrArg Location.line (Option.some.inj place)
    simp only at this
    omega
  have column : (lastLine before).length = 2 := by
    have := congrArg Location.column (Option.some.inj place)
    simp only at this
    omega
  have same : shown = "  x = 1;".toList := by
    rw [Option.some.inj sourceLine, String.toList_ofList]
  refine ⟨_, failed, rfl, named, ?_⟩
  rw [report named, line, column, same]
  decide

end Options
end OnePass
