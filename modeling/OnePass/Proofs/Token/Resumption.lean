import OnePass.Proofs.Pass.Lookahead
import OnePass.Proofs.Token.Layouts

/-!
Scanning on and on. Each time the blanks ahead and one longest lexeme are passed over, whether it is
a token or not, so that nothing is lost and nothing is read twice. The limits decide about refusals
only. At the end of the text there is the end of the input, time after time.
-/

namespace OnePass

/-- Only a numeral above the limit and a character that is no mark are refused. -/
theorem Lexeme.fault?_eq_some {limit : Int} {x : Lexeme} {cause : Diagnostic.Cause}
    (fault : x.fault? limit = some cause) :
    (∃ ds, x = numeral ds ∧ limit < Nat.ofDigitChars 10 ds 0) ∨
      ∃ ch, x = mark ch ∧ Token.Kind.ofMark? ch = none := by
  cases x with
  | word cs => cases fault
  | numeral ds =>
    refine .inl ⟨ds, rfl, Int.not_le.mp fun within => ?_⟩
    rw [fault?_numeral_iff.mpr within] at fault
    cases fault
  | mark ch =>
    refine .inr ⟨ch, rfl, ?_⟩
    cases known : Token.Kind.ofMark? ch with
    | none => rfl
    | some k => simp [fault?, known] at fault

namespace Layout

/-- Each lexeme has blanks before it and is not continued by what follows it. -/
def Tiles : List (List Char × Lexeme) → List Char → Prop
  | [], _ => True
  | (gap, x) :: xs, tail =>
    (∀ ch ∈ gap, Text.isBlank ch = true) ∧ x.isFormed = true ∧
      (∀ ch ∈ (text ⟨xs, tail⟩).head?, x.continues ch = false) ∧ Tiles xs tail

/-- What a lexeme gives at a place of a text: a token, or a refusal with its line. -/
def outcome (source : List Char) (limit : Int) (here : Location) (x : Lexeme) :
    Except Diagnostic Token :=
  match x.fault? limit with
  | none => .ok (x.token here)
  | some cause =>
    .error ⟨cause, some here, some (String.ofList (Text.lineAt source here.line))⟩

/-- What lexemes give one after the other, each under a limit of its own. -/
def outcomes (source : List Char) (start : Location) :
    List Int → List (List Char × Lexeme) → List (Except Diagnostic Token)
  | limit :: limits, (gap, x) :: xs =>
    let here := start.afterAll gap
    outcome source limit here x :: outcomes source (here.afterAll x.spelling) limits xs
  | _, _ => []

theorem ofLexeme_eq_outcome (limit : Int) (c : Cursor) (x : Lexeme) :
    Token.ofLexeme limit c x = outcome c.source limit c.here x := by
  unfold Token.ofLexeme outcome
  cases x.fault? limit <;> rfl

variable {xs : List (List Char × Lexeme)} {tail : List Char}

/-- There are not more lexemes than characters. -/
theorem length_le_of_tiles (tiles : Tiles xs tail) : xs.length ≤ (text ⟨xs, tail⟩).length := by
  induction xs with
  | nil => exact Nat.zero_le _
  | cons first xs inductionHypothesis =>
    obtain ⟨gap, x⟩ := first
    obtain ⟨_, formed, _, others⟩ := tiles
    have some := List.length_pos_iff.mpr (Token.spelling_ne_nil_of_isFormed formed)
    have fewer := inductionHypothesis others
    rw [text_cons, List.length_append, List.length_append, List.length_cons]
    omega

/-- No lexeme is the end of the input. -/
theorem kind_ne_eof_of_tiles (source : List Char) (start : Location) (limits : List Int)
    (tiles : Tiles xs tail) :
    ∀ result ∈ outcomes source start limits xs, ∀ t ∈ result.toOption, t.kind ≠ .eof := by
  induction xs generalizing start limits with
  | nil => cases limits <;> simp [outcomes]
  | cons first xs inductionHypothesis =>
    obtain ⟨gap, x⟩ := first
    obtain ⟨_, formed, _, others⟩ := tiles
    cases limits with
    | nil => simp [outcomes]
    | cons limit limits =>
      rw [outcomes, List.forall_mem_cons]
      refine ⟨?_, inductionHypothesis _ limits others⟩
      intro t member
      cases fault : x.fault? limit with
      | none =>
        rw [outcome, fault] at member
        cases member
        exact Lexeme.kind_ne_eof (Lexeme.isValid_of_isFormed formed fault)
      | some cause =>
        rw [outcome, fault] at member
        cases member

end Layout

/-- The text ahead begins with blanks and one whole lexeme. -/
structure Cursor.Begins (c : Cursor) (gap : List Char) (x : Lexeme) (rest : List Char) : Prop where
  ahead : c.rest = gap ++ (x.spelling ++ rest)
  blank : ∀ ch ∈ gap, Text.isBlank ch = true
  formed : x.isFormed = true
  maximal : ∀ ch ∈ rest.head?, x.continues ch = false

namespace Token

open Layout

variable {c : Cursor}

/-- The end of the input. -/
def ending (here : Location) : Token := ⟨.eof, .nothing, here, here⟩

/-- Tokens, and behind them one end of the input or one refusal. -/
def IsComplete (results : List (Except Diagnostic Token)) : Prop :=
  ∃ (ts : List Token) (last : Except Diagnostic Token), results = ts.map .ok ++ [last] ∧
    (∀ t ∈ ts, t.kind ≠ .eof) ∧ ∀ t ∈ last.toOption, t.kind = .eof

theorem IsComplete.cons {results : List (Except Diagnostic Token)} {t : Token}
    (complete : IsComplete results) (more : t.kind ≠ .eof) : IsComplete (.ok t :: results) := by
  obtain ⟨ts, last, rfl, others, ended⟩ := complete
  exact ⟨t :: ts, last, rfl, List.forall_mem_cons.mpr ⟨more, others⟩, ended⟩

/-- Where only blanks are left there is nothing but the end of the input. -/
theorem scanEach_of_blank (blank : ∀ ch ∈ c.rest, Text.isBlank ch = true) (limits : List Int) :
    (scanEach limits c).1 = List.replicate limits.length
        (.ok (ending (c.here.afterAll c.rest))) ∧
      (limits ≠ [] → (scanEach limits c).2 = c.advanceBy c.rest.length) := by
  induction limits generalizing c with
  | nil => exact ⟨rfl, absurd rfl⟩
  | cons limit limits inductionHypothesis =>
    have whole : c.rest = c.rest ++ [] := (List.append_nil _).symm
    have nothing := Cursor.rest_behind whole
    obtain ⟨results, last⟩ := inductionHypothesis (c := c.advanceBy c.rest.length) (by simp)
    rw [scanEach_cons, scan_of_blank limit blank, results, nothing, Cursor.here_behind whole]
    refine ⟨rfl, fun _ => ?_⟩
    cases limits with
    | nil => rfl
    | cons limit' limits =>
      rw [nothing] at last
      exact last (List.cons_ne_nil _ _)

/-- The calls of the scanner cut the text ahead into lexemes with the blanks before them. -/
theorem scanEach_eq (limits : List Int) (c : Cursor) :
    ∃ xs tail, c.rest = Layout.text ⟨xs, tail⟩ ∧ Tiles xs tail ∧ xs.length ≤ limits.length ∧
      (xs.length < limits.length → ∀ ch ∈ tail, Text.isBlank ch = true) ∧
      (scanEach limits c).1 = outcomes c.source c.here limits xs ++
        List.replicate (limits.length - xs.length)
          (.ok (ending (c.here.afterAll c.rest))) ∧
      (scanEach limits c).2 = c.advanceBy
        (if xs.length < limits.length then c.rest else Layout.text ⟨xs, []⟩).length := by
  induction limits generalizing c with
  | nil => exact ⟨[], c.rest, rfl, trivial, Nat.le_refl 0, by simp, rfl, rfl⟩
  | cons limit limits inductionHypothesis =>
    rcases exists_lexeme c.rest with blank | ⟨gap, x, rest, ahead, blank, formed, maximal⟩
    · obtain ⟨results, last⟩ := scanEach_of_blank blank (limit :: limits)
      refine ⟨[], c.rest, rfl, trivial, Nat.zero_le _, fun _ => blank, ?_, ?_⟩
      · rw [results]
        rfl
      · rw [last (List.cons_ne_nil _ _)]
        rfl
    · obtain ⟨xs, tail, left, tiles, fewer, ends, results, last⟩ :=
        inductionHypothesis (c.advanceBy (gap.length + x.spelling.length))
      rw [Cursor.rest_behind_append ahead] at left results last
      rw [Cursor.here_behind_append ahead, Cursor.source_advanceBy] at results
      refine ⟨(gap, x) :: xs, tail, ?_, ⟨blank, formed, ?_, tiles⟩, Nat.succ_le_succ fewer, ?_, ?_,
        ?_⟩
      · rw [ahead, left, text_cons]
      · rwa [← left]
      · intro shorter
        exact ends (Nat.lt_of_succ_lt_succ shorter)
      · rw [scanEach_cons, scan_of_lexeme limit ahead blank formed maximal, results, outcomes]
        simp only [ofLexeme_eq_outcome, Cursor.here_behind ahead, Cursor.source_advanceBy,
          List.cons_append, List.length_cons, Nat.succ_sub_succ, ahead, Location.afterAll_append]
      · rw [scanEach_cons, scan_of_lexeme limit ahead blank formed maximal, last,
          ← Cursor.advanceBy_add]
        congr 1
        simp only [List.length_cons, Nat.succ_lt_succ_iff]
        split
        · rw [ahead]
          simp [Nat.add_assoc]
        · simp [text_cons, Nat.add_assoc]

/-- Unless only blanks are left, one whole lexeme is taken. It is refused only if it is a numeral
above the limit, or a character that is no mark. -/
theorem scan_takes (limit : Int) (more : ¬∀ ch ∈ c.rest, Text.isBlank ch = true) :
    ∃ gap x rest, c.Begins gap x rest ∧ x.spelling ≠ [] ∧
      scan limit c = (ofLexeme limit (c.advanceBy gap.length) x,
        c.advanceBy (gap.length + x.spelling.length)) ∧
      ∀ d, ofLexeme limit (c.advanceBy gap.length) x = .error d →
        (∃ ds, x = .numeral ds ∧ limit < Nat.ofDigitChars 10 ds 0) ∨
          ∃ ch, x = .mark ch ∧ Kind.ofMark? ch = none := by
  rcases exists_lexeme c.rest with blank | ⟨gap, x, rest, ahead, blank, formed, maximal⟩
  · exact absurd blank more
  · refine ⟨gap, x, rest, ⟨ahead, blank, formed, maximal⟩, spelling_ne_nil_of_isFormed formed,
      scan_of_lexeme limit ahead blank formed maximal, ?_⟩
    intro d refused
    obtain ⟨cause, fault, _⟩ := ofLexeme_eq_error.mp refused
    exact Lexeme.fault?_eq_some fault

/-! ### Up to the end of the input or a refusal -/

/-- The tokens and the refusal behind them, if there is one. -/
def Sequence.results (s : Sequence) : List (Except Diagnostic Token) :=
  s.tokens.map .ok ++ s.stopped.toList.map .error

theorem isComplete_scanAll (limit : Int) (c : Cursor) :
    IsComplete (scanAll limit c).results ∧ ∃ n, scanEach (List.replicate n limit) c =
      ((scanAll limit c).results, (scanAll limit c).cursor) := by
  fun_induction scanAll limit c with
  | case1 c d next refused =>
    refine ⟨⟨[], .error d, rfl, by simp, by simp [Except.toOption]⟩, 1, ?_⟩
    rw [List.replicate_one, scanEach_cons, refused]
    rfl
  | case2 c t next scanned ended =>
    refine ⟨⟨[], .ok t, rfl, by simp, by simpa [Except.toOption] using ended⟩, 1, ?_⟩
    rw [List.replicate_one, scanEach_cons, scanned]
    rfl
  | case3 c t next scanned more inductionHypothesis =>
    obtain ⟨complete, n, scans⟩ := inductionHypothesis
    refine ⟨complete.cons more, n + 1, ?_⟩
    rw [List.replicate_succ, scanEach_cons, scanned, scans]
    rfl

/-- Results have a first one that is the end of the input or a refusal, if they have any. -/
theorem exists_isComplete {results : List (Except Diagnostic Token)}
    {result : Except Diagnostic Token} (member : result ∈ results)
    (ended : ∀ t ∈ result.toOption, t.kind = .eof) :
    ∃ first later, results = first ++ later ∧ IsComplete first := by
  induction results with
  | nil => cases member
  | cons head results inductionHypothesis =>
    by_cases last : ∀ t ∈ head.toOption, t.kind = .eof
    · exact ⟨[head], results, rfl, [], head, rfl, by simp, last⟩
    · have further : result ∈ results := by
        rcases List.mem_cons.mp member with rfl | further
        · exact absurd ended last
        · exact further
      obtain ⟨first, later, rfl, complete⟩ := inductionHypothesis further
      cases head with
      | error d => exact absurd (by simp [Except.toOption]) last
      | ok t =>
        have more : t.kind ≠ .eof := by simpa [Except.toOption] using last
        exact ⟨.ok t :: first, later, rfl, complete.cons more⟩

/-- However often a text is scanned, and under whatever limits, its lexemes are taken one after the
other with the blanks before them, and each gives a token or a refusal. There are not more of them
than characters, and behind them there is the end of the input, time after time. So whoever scans up
to the first end of the input or refusal comes to it. At any place, one call takes one whole lexeme,
or all calls give the end of the input. -/
theorem scanEach_resumes (file source : String) (limits : List Int) :
    (∃ xs tail, source.toList = Layout.text ⟨xs, tail⟩ ∧ Tiles xs tail ∧
      xs.length ≤ limits.length ∧ xs.length ≤ source.length ∧
      (xs.length < limits.length → ∀ ch ∈ tail, Text.isBlank ch = true) ∧
      (scanEach limits (.start file source)).1 = outcomes source.toList (.start file) limits xs ++
        List.replicate (limits.length - xs.length)
          (.ok (ending ((Location.start file).afterAll source.toList))) ∧
      (∀ result ∈ outcomes source.toList (.start file) limits xs,
        ∀ t ∈ result.toOption, t.kind ≠ .eof) ∧
      (scanEach limits (.start file source)).2.rest =
        if xs.length < limits.length then [] else tail) ∧
    (source.length < limits.length → ∃ first later,
      (scanEach limits (.start file source)).1 = first ++ later ∧ IsComplete first) ∧
    (∀ limit, IsComplete (scanAll limit (.start file source)).results ∧ ∃ n,
      scanEach (List.replicate n limit) (.start file source) =
        ((scanAll limit (.start file source)).results,
          (scanAll limit (.start file source)).cursor)) ∧
    ∀ c : Cursor,
      ((∀ ch ∈ c.rest, Text.isBlank ch = true) → ∀ limits, (scanEach limits c).1 =
        List.replicate limits.length (.ok (ending (c.here.afterAll c.rest)))) ∧
      (¬(∀ ch ∈ c.rest, Text.isBlank ch = true) → ∀ limit, ∃ gap x rest, c.Begins gap x rest ∧
        x.spelling ≠ [] ∧
        scan limit c = (ofLexeme limit (c.advanceBy gap.length) x,
          c.advanceBy (gap.length + x.spelling.length)) ∧
        ∀ d, ofLexeme limit (c.advanceBy gap.length) x = .error d →
          (∃ ds, x = .numeral ds ∧ limit < Nat.ofDigitChars 10 ds 0) ∨
            ∃ ch, x = .mark ch ∧ Kind.ofMark? ch = none) := by
  obtain ⟨xs, tail, text, tiles, fewer, ends, results, last⟩ :=
    scanEach_eq limits (.start file source)
  change source.toList = _ at text
  have bound : xs.length ≤ source.length := by
    rw [← String.length_toList, text]
    exact length_le_of_tiles tiles
  refine ⟨⟨xs, tail, text, tiles, fewer, bound, ends, results, kind_ne_eof_of_tiles _ _ _ tiles, ?_⟩,
    ?_, fun limit => isComplete_scanAll limit _, fun c => ⟨fun blank limits =>
      (scanEach_of_blank blank limits).1, fun more limit => scan_takes limit more⟩⟩
  · rw [last]
    split
    · exact Cursor.rest_behind (List.append_nil _).symm
    · exact Cursor.rest_behind (text.trans (text_eq xs tail))
  · intro long
    have ended : .ok (ending ((Location.start file).afterAll source.toList)) ∈
        (scanEach limits (.start file source)).1 := by
      rw [results]
      refine List.mem_append_right _ (List.mem_replicate.mpr ⟨?_, rfl⟩)
      omega
    exact exists_isComplete ended (by simp [Except.toOption, ending])

end Token
end OnePass
