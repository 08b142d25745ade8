import Mathlib
import OnePass.Lexeme
import OnePass.Token.Sequence

/-!
Scanning is reading lexemes. Every text that is not blank begins with blanks and one longest lexeme,
and scanning gives the token of that lexeme, or refuses it, and leads behind it.
-/

namespace OnePass

namespace Text

theorem isAlpha_iff {c : Char} :
    c.isAlpha = true ↔ (65 ≤ c.toNat ∧ c.toNat ≤ 90) ∨ (97 ≤ c.toNat ∧ c.toNat ≤ 122) := by
  simp only [Char.isAlpha, Char.isUpper, Char.isLower, Bool.or_eq_true, Bool.and_eq_true,
    decide_eq_true_eq, ge_iff_le, UInt32.le_iff_toNat_le]
  exact Iff.rfl

theorem isDigit_iff {c : Char} : c.isDigit = true ↔ 48 ≤ c.toNat ∧ c.toNat ≤ 57 := by
  simp only [Char.isDigit, Bool.and_eq_true, decide_eq_true_eq, ge_iff_le, UInt32.le_iff_toNat_le]
  exact Iff.rfl

theorem isDigit_of_isAlpha {c : Char} (h : c.isAlpha = true) : c.isDigit = false := by
  rw [isAlpha_iff] at h
  rw [Bool.eq_false_iff, ne_eq, isDigit_iff]
  omega

/-- Blanks separate: they belong to no word and to no numeral. -/
theorem isBlank_of_isAlphanum {c : Char} (h : c.isAlphanum = true) : isBlank c = false := by
  rw [Char.isAlphanum, Bool.or_eq_true, isAlpha_iff, isDigit_iff] at h
  rw [isBlank, Bool.eq_false_iff, ne_eq, Ranges.contains_iff]
  simp only [blanks, List.mem_cons, List.not_mem_nil, or_false, exists_eq_or_imp, exists_eq_left]
  omega

end Text

namespace Cursor

variable {c : Cursor} {v w r : List Char} {p : Char → Bool}

theorem advanceBy_add (c : Cursor) (m n : Nat) :
    c.advanceBy (m + n) = (c.advanceBy m).advanceBy n := by
  induction m generalizing c with
  | zero => simp [advanceBy]
  | succ m inductionHypothesis =>
    rw [Nat.add_right_comm, advanceBy, advanceBy, inductionHypothesis]

theorem rest_behind (ahead : c.rest = w ++ r) : (c.advanceBy w.length).rest = r := by
  rw [rest_advanceBy, ahead, List.drop_left]

theorem here_behind (ahead : c.rest = w ++ r) :
    (c.advanceBy w.length).here = c.here.afterAll w := by
  rw [here_advanceBy, ahead, List.take_left]

theorem rest_behind_append (ahead : c.rest = w ++ (v ++ r)) :
    (c.advanceBy (w.length + v.length)).rest = r := by
  rw [advanceBy_add, rest_behind (rest_behind ahead)]

theorem here_behind_append (ahead : c.rest = w ++ (v ++ r)) :
    (c.advanceBy (w.length + v.length)).here = (c.here.afterAll w).afterAll v := by
  rw [advanceBy_add, here_behind (rest_behind ahead), here_behind ahead]

/-- A run of a class ends where a character does not belong to it. -/
theorem run_eq (ahead : c.rest = w ++ r) (belongs : ∀ ch ∈ w, p ch = true)
    (stops : ∀ ch ∈ r.head?, p ch = false) : c.run p = w := by
  have nothing : r.takeWhile p = [] := by
    cases r with
    | nil => rfl
    | cons ch r => simp [stops ch rfl]
  rw [run, ahead, List.takeWhile_append_of_pos belongs, nothing, List.append_nil]

end Cursor

namespace Token

open Lexeme

/-! ### Numerals -/

theorem ofDigitChars_dropWhile (ds : List Char) :
    Nat.ofDigitChars 10 (ds.dropWhile (· == '0')) 0 = Nat.ofDigitChars 10 ds 0 := by
  induction ds with
  | nil => rfl
  | cons d ds inductionHypothesis =>
    by_cases zero : d = '0'
    · subst zero
      rw [List.dropWhile_cons_of_pos (by simp), inductionHypothesis, Nat.ofDigitChars_cons]
      rfl
    · rw [List.dropWhile_cons_of_neg (by simpa using zero)]

theorem ofDigitChars_significant (ds : List Char) :
    Nat.ofDigitChars 10 (significant ds) 0 = Nat.ofDigitChars 10 ds 0 := by
  rw [← ofDigitChars_dropWhile ds]
  unfold significant
  split
  next none => rw [none]; rfl
  next => rfl

theorem pow_le_ofDigitChars {d : Char} (digit : d.isDigit = true) (positive : d ≠ '0')
    (ds : List Char) : 10 ^ ds.length ≤ Nat.ofDigitChars 10 (d :: ds) 0 := by
  have code : d.toNat ≠ '0'.toNat := fun same => positive (Char.toNat_inj.mp same)
  have low : '0'.toNat ≤ d.toNat := (Text.isDigit_iff.mp digit).1
  rw [Nat.ofDigitChars_cons, Nat.ofDigitChars_eq_ofDigitChars_zero]
  have first : 1 ≤ 10 * 0 + (d.toNat - '0'.toNat) := by omega
  calc 10 ^ ds.length = 10 ^ ds.length * 1 := (Nat.mul_one _).symm
    _ ≤ 10 ^ ds.length * (10 * 0 + (d.toNat - '0'.toNat)) := Nat.mul_le_mul_left _ first
    _ ≤ _ := Nat.le_add_right ..

/-- A literal with more digits than the limit's text is above the limit. -/
theorem lt_of_length_lt {limit : Int} {ds : List Char} (digits : ∀ d ∈ ds, d.isDigit = true)
    (long : (toString limit).length < (significant ds).length) :
    limit < (Nat.ofDigitChars 10 ds 0 : Int) := by
  cases limit with
  | negSucc n => omega
  | ofNat n =>
    have written : (toString (Int.ofNat n)).length = n.repr.length := rfl
    have some := @Nat.length_repr_pos n
    rw [written] at long
    rw [← ofDigitChars_dropWhile ds]
    cases kept : ds.dropWhile (· == '0') with
    | nil =>
      simp only [significant, kept, List.length_singleton] at long
      omega
    | cons d rest =>
      simp only [significant, kept, List.length_cons] at long
      have member : d ∈ ds := (List.dropWhile_sublist _).mem (kept ▸ List.mem_cons_self)
      have positive : d ≠ '0' := by
        have := List.head?_dropWhile_not (· == '0') ds
        simpa [kept] using this
      have bound : n < 10 ^ n.repr.length := (Nat.length_repr_le_iff some).mp (Nat.le_refl _)
      have grows : 10 ^ n.repr.length ≤ 10 ^ rest.length :=
        Nat.pow_le_pow_right (by omega) (by omega)
      have least := pow_le_ofDigitChars (digits d member) positive rest
      exact Int.ofNat_lt.mpr (by omega)

theorem length_toString_pos (n : Int) : 0 < (toString n).length := by
  cases n with
  | ofNat n => exact Nat.length_repr_pos
  | negSucc n =>
    change 0 < ("-" ++ (n + 1).repr).length
    rw [String.length_append]
    exact Nat.lt_of_lt_of_le Nat.length_repr_pos (Nat.le_add_left ..)

theorem length_significant (ds : List Char) :
    (significant ds).length = max 1 (ds.dropWhile (· == '0')).length := by
  unfold significant
  split
  next none => simp [none]
  next kept =>
    cases rest : ds.dropWhile (· == '0') with
    | nil => exact absurd rest kept
    | cons d ds => simp

/-- Reading a literal is comparing its value with the limit. -/
theorem literalValue_eq {limit : Int} {ds : List Char} (digits : ∀ d ∈ ds, d.isDigit = true) :
    literalValue limit ds =
      match (numeral ds).fault? limit with
      | none => .ok (Nat.ofDigitChars 10 ds 0)
      | some cause => .error cause := by
  have above : (toString limit).length < (significant ds).length →
      limit < (Nat.ofDigitChars 10 ds 0 : Int) := lt_of_length_lt digits
  have written := length_toString_pos limit
  simp only [literalValue, fault?, ofDigitChars_significant]
  rw [length_significant] at above ⊢
  generalize (ds.dropWhile (· == '0')).length = count at above ⊢
  by_cases long : (toString limit).length < max 1 count
  · have tooLarge : ¬(Nat.ofDigitChars 10 ds 0 : Int) ≤ limit := by
      have := above long
      omega
    have short : ¬(limit < 0 ∧ Text.Numeral.maxDigits < count ∧
        count ≤ (toString limit).length) := by omega
    rw [if_pos long, if_neg tooLarge, if_neg short]
  · rw [if_neg long]
    by_cases unread : limit < 0 ∧ Text.Numeral.maxDigits < max 1 count
    · have tooLarge : ¬(Nat.ofDigitChars 10 ds 0 : Int) ≤ limit := by omega
      have same : max 1 count = count := by
        have many := unread.2
        rw [Text.Numeral.maxDigits] at many
        omega
      rw [same] at unread long ⊢
      rw [if_pos unread, if_neg tooLarge, if_pos ⟨unread.1, unread.2, by omega⟩]
    · have read : ¬(limit < 0 ∧ Text.Numeral.maxDigits < count ∧
          count ≤ (toString limit).length) := by omega
      rw [if_neg unread, if_neg read]
      by_cases within : (Nat.ofDigitChars 10 ds 0 : Int) ≤ limit
      · rw [if_pos within, if_pos within]
      · rw [if_neg within, if_neg within]

/-! ### One lexeme -/

variable {limit : Int} {c : Cursor} {ch : Char} {cs gap rest : List Char} {x : Lexeme}

theorem longest_run (p : Char → Bool) (cs : List Char) :
    (∀ ch ∈ cs.takeWhile p, p ch = true) ∧ ∀ ch ∈ (cs.dropWhile p).head?, p ch = false := by
  refine ⟨List.all_eq_true.mp List.all_takeWhile, ?_⟩
  intro ch head
  have stops := List.head?_dropWhile_not p cs
  rwa [Option.mem_def.mp head] at stops

/-- A text that is not blank begins with blanks and one longest lexeme. -/
theorem exists_lexeme (cs : List Char) :
    (∀ ch ∈ cs, Text.isBlank ch = true) ∨
      ∃ (gap : List Char) (x : Lexeme) (rest : List Char),
        cs = gap ++ (x.spelling ++ rest) ∧ (∀ ch ∈ gap, Text.isBlank ch = true) ∧
          x.isFormed = true ∧ ∀ ch ∈ rest.head?, x.continues ch = false := by
  obtain ⟨blank, stops⟩ := longest_run Text.isBlank cs
  have split := List.takeWhile_append_dropWhile (p := Text.isBlank) (l := cs)
  cases left : cs.dropWhile Text.isBlank with
  | nil =>
    rw [left, List.append_nil] at split
    exact .inl (split ▸ blank)
  | cons ch more =>
    rw [left] at split
    refine .inr ⟨cs.takeWhile Text.isBlank, ?_⟩
    by_cases digit : ch.isDigit = true
    · have stops := (longest_run Char.isDigit more).2
      refine ⟨numeral (ch :: more.takeWhile Char.isDigit), more.dropWhile Char.isDigit, ?_, blank,
        ?_, stops⟩
      · simpa [Lexeme.spelling] using split.symm
      · simp [isFormed, isValid, digit]
    · by_cases letter : ch.isAlpha = true
      · have stops := (longest_run Char.isAlphanum more).2
        refine ⟨word (ch :: more.takeWhile Char.isAlphanum), more.dropWhile Char.isAlphanum, ?_,
          blank, ?_, stops⟩
        · simpa [Lexeme.spelling] using split.symm
        · simp [isFormed, isValid, letter]
      · have notBlank : Text.isBlank ch = false := stops ch (by simp [left])
        refine ⟨mark ch, more, ?_, blank, ?_, by simp [continues]⟩
        · simpa [Lexeme.spelling] using split.symm
        · simp [isFormed, notBlank, Char.isAlphanum, digit, letter]

/-- At the end of a text there is only the end of the input. -/
theorem scan_of_blank (limit : Int) (blank : ∀ ch ∈ c.rest, Text.isBlank ch = true) :
    scan limit c =
      (.ok ⟨.eof, .nothing, c.here.afterAll c.rest, c.here.afterAll c.rest⟩,
        c.advanceBy c.rest.length) := by
  have whole : c.rest = c.rest ++ [] := (List.append_nil _).symm
  have run := Cursor.run_eq whole blank (by simp)
  unfold scan
  simp only [Cursor.skip, run, Cursor.rest_behind whole, Cursor.here_behind whole]

/-- What scanning makes of a lexeme. -/
def ofLexeme (limit : Int) (c : Cursor) (x : Lexeme) : Except Diagnostic Token :=
  match x.fault? limit with
  | none => .ok (x.token c.here)
  | some cause => .error (refusal c cause)

theorem ofLexeme_eq_ok {t : Token} :
    ofLexeme limit c x = .ok t ↔ x.fault? limit = none ∧ t = x.token c.here := by
  unfold ofLexeme
  cases x.fault? limit <;> simp [eq_comm]

theorem ofLexeme_eq_error {d : Diagnostic} :
    ofLexeme limit c x = .error d ↔ ∃ cause, x.fault? limit = some cause ∧ d = refusal c cause := by
  unfold ofLexeme
  cases x.fault? limit <;> simp [eq_comm]

theorem spelling_ne_nil_of_isFormed (formed : x.isFormed = true) : x.spelling ≠ [] := by
  cases x with
  | mark ch => simp [Lexeme.spelling]
  | word cs => exact Lexeme.spelling_ne_nil formed
  | numeral ds => exact Lexeme.spelling_ne_nil formed

/-- Blanks are passed over. The first other character says what to scan. -/
theorem scan_at (ahead : c.rest = gap ++ ch :: cs) (blank : ∀ ch ∈ gap, Text.isBlank ch = true)
    (notBlank : Text.isBlank ch = false) :
    scan limit c =
      if ch.isDigit then scanNumeral limit (c.advanceBy gap.length)
      else if ch.isAlpha then scanWord (c.advanceBy gap.length)
      else scanMark (c.advanceBy gap.length) ch := by
  have run : c.run Text.isBlank = gap := by
    apply Cursor.run_eq ahead blank
    rintro _ ⟨⟩
    exact notBlank
  unfold scan
  simp only [Cursor.skip, run, Cursor.rest_behind ahead]

theorem scanNumeral_eq {ds : List Char} (ahead : c.rest = ds ++ rest)
    (digits : ∀ d ∈ ds, d.isDigit = true) (stops : ∀ d ∈ rest.head?, d.isDigit = false) :
    scanNumeral limit c = (ofLexeme limit c (numeral ds), c.advanceBy ds.length) := by
  have run := Cursor.run_eq ahead digits stops
  simp only [scanNumeral, Cursor.skip, run, literalValue_eq digits, ofLexeme]
  cases (numeral ds).fault? limit with
  | none => simp only [Lexeme.token, Cursor.here_behind ahead]; rfl
  | some cause => rfl

theorem scanWord_eq {cs : List Char} (ahead : c.rest = cs ++ rest)
    (letters : ∀ ch ∈ cs, ch.isAlphanum = true) (stops : ∀ ch ∈ rest.head?, ch.isAlphanum = false) :
    scanWord c = (ofLexeme limit c (word cs), c.advanceBy cs.length) := by
  have run := Cursor.run_eq ahead letters stops
  simp only [scanWord, Cursor.skip, run, ofLexeme, fault?, Lexeme.token,
    Cursor.here_behind ahead]
  rfl

theorem scanMark_eq (ahead : c.rest = ch :: rest) :
    scanMark c ch = (ofLexeme limit c (mark ch), c.advanceBy 1) := by
  have here : c.advance.here = c.here.after ch := by simp [Cursor.here_advance, ahead]
  simp only [scanMark, ofLexeme, fault?]
  cases known : Kind.ofMark? ch with
  | none => rfl
  | some k => simp [Lexeme.token, Lexeme.kind, Lexeme.value, Lexeme.spelling, known, here,
      Cursor.advanceBy]

/-- Scanning takes the longest lexeme ahead and the blanks before it. -/
theorem scan_of_lexeme (limit : Int) (ahead : c.rest = gap ++ (x.spelling ++ rest))
    (blank : ∀ ch ∈ gap, Text.isBlank ch = true) (formed : x.isFormed = true)
    (maximal : ∀ ch ∈ rest.head?, x.continues ch = false) :
    scan limit c =
      (ofLexeme limit (c.advanceBy gap.length) x,
        c.advanceBy (gap.length + x.spelling.length)) := by
  have behind := Cursor.rest_behind ahead
  rw [Cursor.advanceBy_add]
  cases x with
  | word cs =>
    have all := isAlphanum_of_isValid_word formed
    obtain ⟨ch, cs, rfl, letter, _⟩ := isValid_word.mp formed
    have notBlank := Text.isBlank_of_isAlphanum (all ch List.mem_cons_self)
    rw [scan_at ahead blank notBlank, Text.isDigit_of_isAlpha letter, letter]
    exact scanWord_eq behind all maximal
  | numeral ds =>
    obtain ⟨some, digits⟩ := isValid_numeral.mp formed
    obtain ⟨d, ds, rfl⟩ := List.exists_cons_of_ne_nil some
    have digit := digits d List.mem_cons_self
    have notBlank := Text.isBlank_of_isAlphanum (c := d) (by simp [Char.isAlphanum, digit])
    rw [scan_at ahead blank notBlank, digit]
    exact scanNumeral_eq behind digits maximal
  | mark ch =>
    obtain ⟨notBlank, notLetter, notDigit⟩ :
        Text.isBlank ch = false ∧ ch.isAlpha = false ∧ ch.isDigit = false := by
      simpa [isFormed, Char.isAlphanum] using formed
    rw [scan_at ahead blank notBlank, notDigit, notLetter]
    exact scanMark_eq behind

/-- Scanning goes on in the text, whatever it gives. -/
theorem exists_advanceBy_of_scan (limit : Int) (c : Cursor) :
    ∃ n, (scan limit c).2 = c.advanceBy n := by
  rcases exists_lexeme c.rest with blank | ⟨gap, x, rest, ahead, blank, formed, maximal⟩
  · exact ⟨_, congrArg Prod.snd (scan_of_blank limit blank)⟩
  · exact ⟨_, congrArg Prod.snd (scan_of_lexeme limit ahead blank formed maximal)⟩

/-- Unless it gives the end of the input, scanning takes a lexeme. -/
theorem exists_lexeme_of_scan {result : Except Diagnostic Token} {next : Cursor}
    (scanned : scan limit c = (result, next)) (more : ∀ t ∈ result.toOption, t.kind ≠ .eof) :
    ∃ gap x rest, c.rest = gap ++ (x.spelling ++ rest) ∧ (∀ ch ∈ gap, Text.isBlank ch = true) ∧
      x.isFormed = true ∧ (∀ ch ∈ rest.head?, x.continues ch = false) ∧
      result = ofLexeme limit (c.advanceBy gap.length) x ∧
      next = c.advanceBy (gap.length + x.spelling.length) := by
  rcases exists_lexeme c.rest with blank | ⟨gap, x, rest, ahead, blank, formed, maximal⟩
  · rw [scan_of_blank limit blank] at scanned
    cases scanned
    exact absurd rfl (more _ rfl)
  · rw [scan_of_lexeme limit ahead blank formed maximal] at scanned
    cases scanned
    exact ⟨gap, x, rest, ahead, blank, formed, maximal, rfl, rfl⟩

end Token

end OnePass
