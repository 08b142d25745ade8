import OnePass.Compilation
import OnePass.Proofs.Pass.Stream
import OnePass.Proofs.Text.Places
import OnePass.Proofs.Token.Lexing

/-!
The tokens of a whole text. Every text is laid out as longest lexemes that are tokens, up to its end
or up to the first longest lexeme that is none. In the one case its tokens are those of the layout,
in the other it is refused at that lexeme.
-/

namespace OnePass

namespace Lexeme

variable {limit : Int} {x y : Lexeme}

/-- Marks are no blanks, and belong to no word and to no numeral. -/
theorem notBlank_of_isValid_mark {c : Char} (valid : (mark c).isValid = true) :
    Text.isBlank c = false ∧ c.isAlphanum = false := by
  have all : ∀ m ∈ Token.Kind.marks, Text.isBlank m.1 = false ∧ m.1.isAlphanum = false := by
    decide
  obtain ⟨k, known⟩ := Option.isSome_iff_exists.mp valid
  exact all (c, k) (Token.Kind.mem_marks known)

theorem isFormed_of_isValid (valid : x.isValid = true) : x.isFormed = true := by
  cases x with
  | word cs => exact valid
  | numeral ds => exact valid
  | mark c =>
    obtain ⟨notBlank, notAlphanum⟩ := notBlank_of_isValid_mark valid
    simp [isFormed, notBlank, notAlphanum]

/-- A lexeme is a token if and only if there is no reason against it. -/
theorem isValid_of_isFormed (formed : x.isFormed = true) (accepted : x.fault? limit = none) :
    x.isValid = true := by
  cases x with
  | word cs => exact formed
  | numeral ds => exact formed
  | mark c =>
    by_cases known : (Token.Kind.ofMark? c).isSome
    · exact known
    · simp [fault?, known] at accepted

theorem kind_word_ne {cs : List Char} {k : Token.Kind}
    (other : k ∉ Token.Kind.ident :: Token.Kind.keywords.map Prod.snd) : (word cs).kind ≠ k := by
  intro same
  subst same
  exact other (Token.Kind.ofWord_mem (String.ofList cs))

theorem kind_mark_ne {c : Char} {k : Token.Kind} (valid : (mark c).isValid = true)
    (others : ∀ m ∈ Token.Kind.marks, m.2 ≠ k) : (mark c).kind ≠ k := by
  obtain ⟨k', known⟩ := Option.isSome_iff_exists.mp valid
  intro same
  have found : k' = k := by simpa [kind, known] using same
  exact others (c, k') (Token.Kind.mem_marks known) found

theorem kind_ne_eof (valid : x.isValid = true) : x.kind ≠ .eof := by
  cases x with
  | word cs => exact kind_word_ne (by decide)
  | numeral ds => simp [kind]
  | mark c => exact kind_mark_ne valid (by decide)

theorem fault?_numeral_iff {ds : List Char} :
    (numeral ds).fault? limit = none ↔ (Nat.ofDigitChars 10 ds 0 : Int) ≤ limit := by
  by_cases within : (Nat.ofDigitChars 10 ds 0 : Int) ≤ limit
  · simp [fault?, within]
  · simp only [fault?, within, if_false, iff_false]
    split <;> simp

/-- What is a token is one under any greater limit. -/
theorem fault?_eq_none_mono {limit' : Int} (le : limit ≤ limit')
    (accepted : x.fault? limit = none) : x.fault? limit' = none := by
  cases x with
  | word cs => rfl
  | numeral ds => exact fault?_numeral_iff.mpr (Int.le_trans (fault?_numeral_iff.mp accepted) le)
  | mark c => exact accepted

/-- No lexeme goes on with a blank. -/
theorem continues_blank {ch : Char} (x : Lexeme) (blank : Text.isBlank ch = true) :
    x.continues ch = false := by
  have notAlphanum : ch.isAlphanum = false := by
    by_cases alphanum : ch.isAlphanum = true
    · simp [Text.isBlank_of_isAlphanum alphanum] at blank
    · exact Bool.eq_false_iff.mpr alphanum
  cases x with
  | word cs => exact notAlphanum
  | numeral ds =>
    rw [Char.isAlphanum, Bool.or_eq_false_iff] at notAlphanum
    exact notAlphanum.2
  | mark c => rfl

/-- The lexeme of a spelling, known by the first character. -/
def ofSpelling : List Char → Lexeme
  | [] => word []
  | c :: cs => if c.isDigit then numeral (c :: cs) else if c.isAlpha then word (c :: cs) else mark c

theorem ofSpelling_spelling (formed : x.isFormed = true) : ofSpelling x.spelling = x := by
  cases x with
  | word cs =>
    obtain ⟨c, cs, rfl, letter, _⟩ := isValid_word.mp formed
    simp [ofSpelling, spelling, letter, Text.isDigit_of_isAlpha letter]
  | numeral ds =>
    obtain ⟨some, digits⟩ := isValid_numeral.mp formed
    obtain ⟨d, ds, rfl⟩ := List.exists_cons_of_ne_nil some
    simp [ofSpelling, spelling, digits d List.mem_cons_self]
  | mark c =>
    obtain ⟨_, letter, digit⟩ : _ ∧ c.isAlpha = false ∧ c.isDigit = false := by
      simpa [isFormed, Char.isAlphanum] using formed
    simp [ofSpelling, spelling, letter, digit]

theorem eq_of_spelling_eq (formed : x.isFormed = true) (other : y.isFormed = true)
    (same : x.spelling = y.spelling) : x = y := by
  rw [← ofSpelling_spelling formed, same, ofSpelling_spelling other]

theorem notBlank_of_mem_spelling (formed : x.isFormed = true) :
    ∀ ch ∈ x.spelling, Text.isBlank ch = false := by
  cases x with
  | word cs =>
    intro ch member
    exact Text.isBlank_of_isAlphanum (isAlphanum_of_isValid_word formed ch member)
  | numeral ds =>
    obtain ⟨_, digits⟩ := isValid_numeral.mp formed
    intro ch member
    apply Text.isBlank_of_isAlphanum
    simp [Char.isAlphanum, digits ch member]
  | mark c =>
    obtain ⟨notBlank, _⟩ : Text.isBlank c = false ∧ _ := by simpa [isFormed] using formed
    simpa [spelling] using notBlank

theorem ne_feed_of_mem_spelling (formed : x.isFormed = true) : ∀ ch ∈ x.spelling, ch ≠ '\n' := by
  rintro ch member rfl
  exact absurd (notBlank_of_mem_spelling formed _ member) (by decide)

end Lexeme

namespace Layout

variable {limit : Int} {tail gap rest : List Char} {x y : Lexeme}
  {xs : List (List Char × Lexeme)}

theorem text_cons (gap : List Char) (x : Lexeme) (xs : List (List Char × Lexeme))
    (tail : List Char) :
    text ⟨(gap, x) :: xs, tail⟩ = gap ++ (x.spelling ++ text ⟨xs, tail⟩) := by
  simp [text]

theorem text_eq (xs : List (List Char × Lexeme)) (tail : List Char) :
    text ⟨xs, tail⟩ = text ⟨xs, []⟩ ++ tail := by
  simp [text]

theorem text_append (xs : List (List Char × Lexeme)) (gap rest : List Char) :
    text ⟨xs, gap ++ rest⟩ = text ⟨xs, gap⟩ ++ rest := by
  simp [text]

/-- Each lexeme is a token, has blanks before it, and is not continued by what follows it. -/
def Reads (limit : Int) : List (List Char × Lexeme) → List Char → Prop
  | [], _ => True
  | (gap, x) :: xs, tail =>
    (∀ ch ∈ gap, Text.isBlank ch = true) ∧ x.isFormed = true ∧ x.fault? limit = none ∧
      (∀ ch ∈ (text ⟨xs, tail⟩).head?, x.continues ch = false) ∧ Reads limit xs tail

/-- Lexemes end where the text is blank, or where a lexeme is no token. -/
def Ends (limit : Int) (tail : List Char) : Prop :=
  (∀ ch ∈ tail, Text.isBlank ch = true) ∨
    ∃ (gap : List Char) (x : Lexeme) (rest : List Char) (cause : Diagnostic.Cause),
      tail = gap ++ (x.spelling ++ rest) ∧ (∀ ch ∈ gap, Text.isBlank ch = true) ∧
        x.isFormed = true ∧ (∀ ch ∈ rest.head?, x.continues ch = false) ∧
        x.fault? limit = some cause

theorem exists_reads (limit : Int) (cs : List Char) :
    ∃ xs tail, cs = text ⟨xs, tail⟩ ∧ Reads limit xs tail ∧ Ends limit tail := by
  induction length : cs.length using Nat.strongRecOn generalizing cs with
  | ind n inductionHypothesis =>
    rcases Token.exists_lexeme cs with blank | ⟨gap, x, rest, same, blank, formed, maximal⟩
    · exact ⟨[], cs, rfl, trivial, .inl blank⟩
    · cases fault : x.fault? limit with
      | some cause =>
        exact ⟨[], cs, rfl, trivial,
          .inr ⟨gap, x, rest, cause, same, blank, formed, maximal, fault⟩⟩
      | none =>
        have some := List.length_pos_iff.mpr (Token.spelling_ne_nil_of_isFormed formed)
        have shorter : rest.length < n := by
          rw [← length, same, List.length_append, List.length_append]
          omega
        obtain ⟨xs, tail, split, reads, ends⟩ := inductionHypothesis _ shorter rest rfl
        refine ⟨(gap, x) :: xs, tail, ?_, ⟨blank, formed, fault, ?_, reads⟩, ends⟩
        · rw [text_cons, ← split, same]
        · rwa [← split]

/-! ### Layouts that are read -/

theorem not_continued_iff (blank : ∀ ch ∈ gap, Text.isBlank ch = true) (formed : y.isFormed = true)
    (x : Lexeme) (rest : List Char) :
    (∀ ch ∈ (gap ++ (y.spelling ++ rest)).head?, x.continues ch = false) ↔
      (!gap.isEmpty || !(y.spelling.head?.any x.continues)) = true := by
  cases gap with
  | nil =>
    obtain ⟨ch, cs, spelled⟩ :=
      List.exists_cons_of_ne_nil (Token.spelling_ne_nil_of_isFormed formed)
    simp [spelled]
  | cons ch gap =>
    have stops := x.continues_blank (blank ch List.mem_cons_self)
    simp [stops]

theorem isSeparated_concat (xs : List (List Char × Lexeme)) (gap : List Char) (y : Lexeme) :
    isSeparated (xs ++ [(gap, y)]) = true ↔ isSeparated xs = true ∧
      ∀ last ∈ xs.getLast?, (!gap.isEmpty || !(y.spelling.head?.any last.2.continues)) = true := by
  induction xs with
  | nil => simp [isSeparated]
  | cons first xs inductionHypothesis =>
    cases xs with
    | nil => simp [isSeparated]
    | cons second xs =>
      rw [List.getLast?_cons_cons]
      simp only [List.cons_append, isSeparated, Bool.and_eq_true] at inductionHypothesis ⊢
      rw [inductionHypothesis, and_assoc]

/-- Lexemes are read if and only if each is a token, none is continued by the next one, and the last
one is not continued by the text behind it. -/
theorem reads_iff :
    Reads limit xs tail ↔
      (∀ p ∈ xs, (∀ ch ∈ p.1, Text.isBlank ch = true) ∧ p.2.isFormed = true ∧
        p.2.fault? limit = none) ∧
      isSeparated xs = true ∧
      ∀ last ∈ xs.getLast?, ∀ ch ∈ tail.head?, last.2.continues ch = false := by
  induction xs with
  | nil => simp [Reads, isSeparated]
  | cons first xs inductionHypothesis =>
    obtain ⟨gap, x⟩ := first
    rw [Reads, inductionHypothesis, List.forall_mem_cons]
    cases xs with
    | nil => simp [text, isSeparated, and_assoc]
    | cons second xs =>
      obtain ⟨gap', y⟩ := second
      rw [List.getLast?_cons_cons, text_cons, List.forall_mem_cons, isSeparated, Bool.and_eq_true]
      constructor
      · rintro ⟨blank, formed, accepted, apart, ⟨next, all⟩, separated, last⟩
        rw [not_continued_iff next.1 next.2.1] at apart
        exact ⟨⟨⟨blank, formed, accepted⟩, next, all⟩, ⟨apart, separated⟩, last⟩
      · rintro ⟨⟨⟨blank, formed, accepted⟩, next, all⟩, ⟨apart, separated⟩, last⟩
        rw [← not_continued_iff next.1 next.2.1] at apart
        exact ⟨blank, formed, accepted, apart, ⟨next, all⟩, separated, last⟩

theorem isValid_isWithin_iff :
    (isValid ⟨xs, gap⟩ = true ∧ isWithin limit ⟨xs, gap⟩ = true) ↔
      (∀ p ∈ xs, (∀ ch ∈ p.1, Text.isBlank ch = true) ∧ p.2.isFormed = true ∧
        p.2.fault? limit = none) ∧
      isSeparated xs = true ∧ ∀ ch ∈ gap, Text.isBlank ch = true := by
  have token (x : Lexeme) : (x.isValid = true ∧ x.fault? limit = none) ↔
      (x.isFormed = true ∧ x.fault? limit = none) :=
    ⟨fun h => ⟨Lexeme.isFormed_of_isValid h.1, h.2⟩,
      fun h => ⟨Lexeme.isValid_of_isFormed h.1 h.2, h.2⟩⟩
  simp only [isValid, isWithin, Bool.and_eq_true, List.all_eq_true, Option.isNone_iff_eq_none]
  constructor
  · rintro ⟨⟨⟨valid, trailing⟩, separated⟩, accepted⟩
    refine ⟨?_, separated, trailing⟩
    intro p member
    exact ⟨(valid p member).1, (token p.2).mp ⟨(valid p member).2, accepted p member⟩⟩
  · rintro ⟨all, separated, trailing⟩
    refine ⟨⟨⟨?_, trailing⟩, separated⟩, ?_⟩
    · intro p member
      exact ⟨(all p member).1, ((token p.2).mpr (all p member).2).1⟩
    · intro p member
      exact (all p member).2.2

theorem reads_blank_iff (blank : ∀ ch ∈ tail, Text.isBlank ch = true) :
    Reads limit xs tail ↔ isValid ⟨xs, tail⟩ = true ∧ isWithin limit ⟨xs, tail⟩ = true := by
  have stops (x : Lexeme) : ∀ ch ∈ tail.head?, x.continues ch = false := by
    intro ch head
    exact x.continues_blank (blank ch (List.mem_of_mem_head? head))
  rw [reads_iff, isValid_isWithin_iff]
  constructor
  · rintro ⟨all, separated, _⟩
    exact ⟨all, separated, blank⟩
  · rintro ⟨all, separated, _⟩
    exact ⟨all, separated, fun last _ => stops last.2⟩

theorem reads_lexeme_iff (blank : ∀ ch ∈ gap, Text.isBlank ch = true) (formed : y.isFormed = true) :
    Reads limit xs (gap ++ (y.spelling ++ rest)) ↔
      isValid ⟨xs, gap⟩ = true ∧ isWithin limit ⟨xs, gap⟩ = true ∧
        isSeparated (xs ++ [(gap, y)]) = true := by
  simp only [reads_iff, isSeparated_concat, not_continued_iff blank formed]
  constructor
  · rintro ⟨all, separated, apart⟩
    obtain ⟨valid, within⟩ := isValid_isWithin_iff.mpr ⟨all, separated, blank⟩
    exact ⟨valid, within, separated, apart⟩
  · rintro ⟨valid, within, separated, apart⟩
    obtain ⟨all, _, _⟩ := isValid_isWithin_iff.mp ⟨valid, within⟩
    exact ⟨all, separated, apart⟩

/-- The tokens of lexemes, without the end of the input. -/
def lexemeTokens (start : Location) : List (List Char × Lexeme) → List Token
  | [] => []
  | (gap, x) :: xs =>
    let here := start.afterAll gap
    x.token here :: lexemeTokens (here.afterAll x.spelling) xs

theorem tokensFrom_eq (start : Location) (xs : List (List Char × Lexeme)) (gap : List Char) :
    tokensFrom start xs gap =
      lexemeTokens start xs ++ [⟨.eof, .nothing, start.afterAll (text ⟨xs, gap⟩),
        start.afterAll (text ⟨xs, gap⟩)⟩] := by
  induction xs generalizing start with
  | nil => rfl
  | cons first xs inductionHypothesis =>
    obtain ⟨blanks, x⟩ := first
    simp [tokensFrom, lexemeTokens, inductionHypothesis, text_cons]

theorem kind_ne_eof_of_reads (start : Location) (reads : Reads limit xs tail) :
    ∀ t ∈ lexemeTokens start xs, t.kind ≠ .eof := by
  induction xs generalizing start with
  | nil => simp [lexemeTokens]
  | cons first xs inductionHypothesis =>
    obtain ⟨_, formed, accepted, _, rest⟩ := reads
    rw [lexemeTokens, List.forall_mem_cons]
    exact ⟨Lexeme.kind_ne_eof (Lexeme.isValid_of_isFormed formed accepted),
      inductionHypothesis _ rest⟩

/-- Lexemes that are read are scanned, one after the other. -/
theorem scans_of_reads {c : Cursor} (ahead : c.rest = text ⟨xs, tail⟩)
    (reads : Reads limit xs tail) :
    c.Scans limit (lexemeTokens c.here xs) (c.advanceBy (text ⟨xs, []⟩).length) := by
  induction xs generalizing c with
  | nil => rfl
  | cons first xs inductionHypothesis =>
    obtain ⟨gap, x⟩ := first
    obtain ⟨blank, formed, accepted, maximal, rest⟩ := reads
    rw [text_cons] at ahead
    have scans := inductionHypothesis (Cursor.rest_behind_append ahead) rest
    rw [Cursor.here_behind_append ahead, ← Cursor.advanceBy_add, Nat.add_assoc] at scans
    rw [text_cons, List.length_append, List.length_append]
    refine ⟨_, ?_, scans⟩
    rw [Token.scan_of_lexeme limit ahead blank formed maximal, Token.ofLexeme, accepted,
      Cursor.here_behind ahead]

/-- Tokens that are scanned come from lexemes that are read. -/
theorem exists_reads_of_scans {c c' : Cursor} {ts : List Token} (scans : c.Scans limit ts c')
    (more : ∀ t ∈ ts, t.kind ≠ .eof) :
    ∃ xs tail, c.rest = text ⟨xs, tail⟩ ∧ Reads limit xs tail ∧ ts = lexemeTokens c.here xs ∧
      c' = c.advanceBy (text ⟨xs, []⟩).length := by
  induction ts generalizing c with
  | nil =>
    cases scans
    exact ⟨[], _, rfl, trivial, rfl, rfl⟩
  | cons t ts inductionHypothesis =>
    obtain ⟨next, first, scans⟩ := scans
    rw [List.forall_mem_cons] at more
    obtain ⟨gap, x, rest, ahead, blank, formed, maximal, same, rfl⟩ :=
      Token.exists_lexeme_of_scan first (by simpa [Except.toOption] using more.1)
    obtain ⟨accepted, token⟩ := Token.ofLexeme_eq_ok.mp same.symm
    obtain ⟨xs, tail, left, reads, same, stopped⟩ := inductionHypothesis scans more.2
    rw [Cursor.rest_behind_append ahead] at left
    refine ⟨(gap, x) :: xs, tail, ?_, ⟨blank, formed, accepted, ?_, reads⟩, ?_, ?_⟩
    · rw [text_cons, ← left, ahead]
    · rwa [← left]
    · rw [lexemeTokens, same, token, Cursor.here_behind_append ahead, Cursor.here_behind ahead]
    · rw [stopped, ← Cursor.advanceBy_add, Nat.add_assoc, text_cons, List.length_append,
        List.length_append]

theorem lexemeTokens_append (start : Location) (xs ys : List (List Char × Lexeme)) :
    lexemeTokens start (xs ++ ys) =
      lexemeTokens start xs ++ lexemeTokens (start.afterAll (text ⟨xs, []⟩)) ys := by
  induction xs generalizing start with
  | nil => rfl
  | cons first xs inductionHypothesis =>
    obtain ⟨gap, x⟩ := first
    simp [lexemeTokens, inductionHypothesis, text_cons]

end Layout

namespace Token

open Layout

variable {limit : Int} {c c' : Cursor} {ts : List Token} {tail gap rest : List Char} {x : Lexeme}
  {xs : List (List Char × Lexeme)} {cause : Diagnostic.Cause}

theorem scanAll_eq (limit : Int) (c : Cursor) :
    scanAll limit c =
      match scan limit c with
      | (.error d, next) => ⟨[], some d, next⟩
      | (.ok t, next) =>
        if t.kind = .eof then ⟨[t], none, next⟩ else (scanAll limit next).cons t := by
  rw [scanAll]
  split <;> simp_all

theorem scanAll_of_scans (scans : c.Scans limit ts c') (more : ∀ t ∈ ts, t.kind ≠ .eof) :
    (scanAll limit c).tokens = ts ++ (scanAll limit c').tokens ∧
      (scanAll limit c).stopped = (scanAll limit c').stopped := by
  induction ts generalizing c with
  | nil =>
    cases scans
    exact ⟨rfl, rfl⟩
  | cons t ts inductionHypothesis =>
    obtain ⟨next, first, scans⟩ := scans
    rw [List.forall_mem_cons] at more
    obtain ⟨tokens, stopped⟩ := inductionHypothesis scans more.2
    simp only [scanAll_eq limit c, first, if_neg more.1, Sequence.cons]
    exact ⟨by rw [tokens, List.cons_append], stopped⟩

/-- A text that is blank behind its lexemes has the tokens of its layout. -/
theorem result_of_blank (ahead : c.rest = text ⟨xs, tail⟩) (reads : Reads limit xs tail)
    (blank : ∀ ch ∈ tail, Text.isBlank ch = true) :
    (scanAll limit c).result = .ok (tokens ⟨xs, tail⟩ c.here) := by
  have split : c.rest = text ⟨xs, []⟩ ++ tail := by rw [ahead, ← text_eq]
  have behind := Cursor.rest_behind split
  have place := Cursor.here_behind split
  obtain ⟨all, stopped⟩ :=
    scanAll_of_scans (scans_of_reads ahead reads) (kind_ne_eof_of_reads c.here reads)
  rw [scanAll_eq limit (c.advanceBy _), scan_of_blank limit (by rwa [behind]), behind, place]
    at all stopped
  simp only [Sequence.result, stopped, all, if_pos, tokens, tokensFrom_eq, text_eq xs tail,
    Location.afterAll_append]

/-- A text is refused at the first lexeme that is no token. -/
theorem result_of_fault (ahead : c.rest = text ⟨xs, gap ++ (x.spelling ++ rest)⟩)
    (reads : Reads limit xs (gap ++ (x.spelling ++ rest)))
    (blank : ∀ ch ∈ gap, Text.isBlank ch = true) (formed : x.isFormed = true)
    (maximal : ∀ ch ∈ rest.head?, x.continues ch = false) (fault : x.fault? limit = some cause) :
    (scanAll limit c).result =
      .error ⟨cause, some (c.here.afterAll (text ⟨xs, gap⟩)),
        some (c.lineText (c.here.afterAll (text ⟨xs, gap⟩)).line)⟩ := by
  have split : c.rest = text ⟨xs, []⟩ ++ (gap ++ (x.spelling ++ rest)) := by
    rw [ahead, ← text_eq]
  have behind := Cursor.rest_behind split
  have place := Cursor.here_behind behind
  rw [Cursor.here_behind split] at place
  obtain ⟨_, stopped⟩ :=
    scanAll_of_scans (scans_of_reads ahead reads) (kind_ne_eof_of_reads c.here reads)
  rw [scanAll_eq limit (c.advanceBy _), scan_of_lexeme limit behind blank formed maximal, ofLexeme,
    fault] at stopped
  simp only [Sequence.result, stopped, refusal, place, text_eq xs gap, Location.afterAll_append,
    Cursor.lineText, Cursor.source_advanceBy]

end Token

namespace Layout

variable {limit : Int} {source : String} {l : Layout} {x : Lexeme} {rest : List Char}
  {cause : Diagnostic.Cause}

/-- A text is laid out so, with tokens under a limit only. -/
def IsOf (limit : Int) (l : Layout) (source : String) : Prop :=
  l.isValid = true ∧ l.isWithin limit = true ∧ source.toList = l.text

/-- A text begins so, with tokens under a limit only, and goes on with a lexeme that is none. -/
def IsStopped (limit : Int) (l : Layout) (x : Lexeme) (cause : Diagnostic.Cause) (source : String) :
    Prop :=
  l.isValid = true ∧ l.isWithin limit = true ∧ isSeparated (l.lexemes ++ [(l.trailing, x)]) = true ∧
    x.isFormed = true ∧ x.fault? limit = some cause ∧
    ∃ rest, source.toList = l.text ++ (x.spelling ++ rest) ∧
      ∀ ch ∈ rest.head?, x.continues ch = false

theorem exists_isOf_or_isStopped (limit : Int) (source : String) :
    (∃ l : Layout, l.IsOf limit source) ∨ ∃ (l : Layout) (x : Lexeme) (cause : Diagnostic.Cause),
      l.IsStopped limit x cause source := by
  obtain ⟨xs, tail, same, reads, ends⟩ := exists_reads limit source.toList
  rcases ends with blank | ⟨gap, x, rest, cause, rfl, blank, formed, maximal, fault⟩
  · obtain ⟨valid, within⟩ := (reads_blank_iff blank).mp reads
    exact .inl ⟨⟨xs, tail⟩, valid, within, same⟩
  · obtain ⟨valid, within, separated⟩ := (reads_lexeme_iff blank formed).mp reads
    rw [text_append] at same
    exact .inr ⟨⟨xs, gap⟩, x, cause, valid, within, separated, formed, fault, rest, same, maximal⟩

end Layout

namespace Options

variable {o : Options} {file source : String} {l : Layout} {x : Lexeme} {cause : Diagnostic.Cause}

theorem tokens_of_isOf (h : l.IsOf o.limit source) :
    o.tokens file source = .ok (l.tokens (.start file)) := by
  obtain ⟨valid, within, same⟩ := h
  have blank := (Layout.isValid_isWithin_iff.mp ⟨valid, within⟩).2.2
  have reads := (Layout.reads_blank_iff blank).mpr ⟨valid, within⟩
  exact Token.result_of_blank (c := .start file source) same reads blank

theorem tokens_of_isStopped (h : l.IsStopped o.limit x cause source) :
    o.tokens file source =
      .error ⟨cause, some ((Location.start file).afterAll l.text),
        some (String.ofList
          (Text.lineAt source.toList ((Location.start file).afterAll l.text).line))⟩ := by
  obtain ⟨valid, within, separated, formed, fault, rest, same, maximal⟩ := h
  have blank := (Layout.isValid_isWithin_iff.mp ⟨valid, within⟩).2.2
  have reads : Layout.Reads o.limit l.lexemes (l.trailing ++ (x.spelling ++ rest)) :=
    (Layout.reads_lexeme_iff blank formed).mpr ⟨valid, within, separated⟩
  rw [← Layout.text_append] at same
  exact Token.result_of_fault (c := .start file source) same reads blank formed maximal fault

end Options
end OnePass
