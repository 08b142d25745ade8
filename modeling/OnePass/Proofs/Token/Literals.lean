import OnePass.Proofs.Token.Lexing

/-!
Numerals and their limit. The digits that count are counted first, and only as many as the limit's
text is long are ever read as a number. What comes out is a comparison of the two numbers, however
many zeros lead. The sign in the text of a negative limit is counted like a digit, though: a numeral
above such a limit can have one digit more than are ever read.
-/

namespace OnePass

namespace Text.Numeral

variable {limit : Int} {k : Nat}

theorem length_toString_le (some : 0 < k) (positive : 0 ≤ limit) (within : limit.natAbs < 10 ^ k) :
    (toString limit).length ≤ k := by
  obtain ⟨n, rfl⟩ := Int.eq_ofNat_of_zero_le positive
  exact (Nat.length_repr_le_iff some).mpr within

/-- A negative number with a long text is low. -/
theorem le_of_length_toString (some : 0 < k) (negative : limit < 0)
    (long : k + 1 < (toString limit).length) : limit ≤ -(10 ^ k) := by
  cases limit with
  | ofNat n => exact absurd negative (by simp)
  | negSucc n =>
    have written : (toString (Int.negSucc n)).length = 1 + (n + 1).repr.length := by
      change ("-" ++ (n + 1).repr).length = _
      rw [String.length_append]
      rfl
    have large : ¬n + 1 < 10 ^ k := by
      rw [← Nat.length_repr_le_iff some]
      omega
    have : ((10 ^ k : Nat) : Int) ≤ (n + 1 : Nat) := Int.ofNat_le.mpr (Nat.le_of_not_lt large)
    rw [Int.negSucc_eq]
    push_cast at this
    omega

/-- The text of a negative power of ten has its sign and one digit more than the exponent says. -/
theorem length_toString_neg_pow (some : 0 < k) : k + 1 < (toString (-(10 ^ k : Int))).length := by
  have positive : 0 < 10 ^ k := Nat.pow_pos (by decide)
  obtain ⟨n, power⟩ := Nat.exists_eq_succ_of_ne_zero positive.ne'
  have same : (-(10 ^ k : Int)) = Int.negSucc n := by
    have : ((10 ^ k : Nat) : Int) = (n + 1 : Nat) := congrArg _ power
    rw [Int.negSucc_eq]
    push_cast at this
    omega
  have digits : ¬(n + 1).repr.length ≤ k := by
    rw [Nat.length_repr_le_iff some]
    omega
  rw [same]
  change k + 1 < ("-" ++ (n + 1).repr).length
  rw [String.length_append]
  change k + 1 < 1 + (n + 1).repr.length
  omega

theorem natAbs_neg_pow_lt (some : 0 < k) : (-(10 ^ (k - 1) : Int)).natAbs < 10 ^ k := by
  rw [Int.natAbs_neg, Int.natAbs_pow]
  exact Nat.pow_lt_pow_right (by decide) (Nat.sub_lt some Nat.one_pos)

end Text.Numeral

open Text.Numeral

/-- A one with zeros behind it is not read at a limit whose text is as long. -/
theorem Lexeme.fault?_of_zeros {n : Nat} (many : maxDigits ≤ n) :
    (numeral ('1' :: List.replicate n '0')).fault? (-(10 ^ (n - 1))) =
      some (.tooManyDigits (n + 1)) := by
  have count : (('1' :: List.replicate n '0').dropWhile (· == '0')).length = n + 1 := by
    simp
  have some : 1 < n := Nat.lt_of_lt_of_le (by decide) many
  have long := length_toString_neg_pow (k := n - 1) (by omega)
  have positive : (0 : Int) < 10 ^ (n - 1) := Int.pow_pos (by decide)
  simp only [fault?, count]
  rw [if_neg (by omega), if_pos ⟨by omega, by omega, by omega⟩]

namespace Token

/-- The number of a run of digits, unless they are too many to be read. -/
def convert (ds : List Char) : Except Diagnostic.Cause Nat :=
  if maxDigits < ds.length then .error (.tooManyDigits ds.length)
  else .ok (Nat.ofDigitChars 10 ds 0)

/-- The value of a literal, with the reading of its digits left open. -/
def literalValueWith (convert : List Char → Except Diagnostic.Cause Nat) (limit : Int)
    (literal : List Char) : Except Diagnostic.Cause Nat :=
  let ds := significant literal
  let outOfRange := .integerOutOfRange (String.ofList literal) limit
  if (toString limit).length < ds.length then .error outOfRange
  else
    match convert ds with
    | .ok n => if (n : Int) ≤ limit then .ok n else .error outOfRange
    | .error cause => .error cause

variable {limit : Int} {c : Cursor} {ds rest : List Char}

/-- A limit that is itself no longer than what can be read lets no longer literal pass, unless it
is negative. -/
theorem literalValueWith_convert (within : limit.natAbs < 10 ^ maxDigits) (literal : List Char) :
    literalValueWith convert limit literal = literalValue limit literal := by
  unfold literalValueWith literalValue convert
  by_cases long : (toString limit).length < (significant literal).length
  · simp only [if_pos long]
  · by_cases many : maxDigits < (significant literal).length
    · have negative : limit < 0 := by
        by_contra positive
        have := length_toString_le (by decide) (Int.not_lt.mp positive) within
        omega
      simp only [if_neg long, if_pos many, if_pos (And.intro negative many)]
    · have read : ¬(limit < 0 ∧ maxDigits < (significant literal).length) := fun h => many h.2
      simp only [if_neg long, if_neg many, if_neg read]

theorem literalValueWith_congr {read read' : List Char → Except Diagnostic.Cause Nat}
    (same : ∀ ts : List Char, ts.length ≤ (toString limit).length → read ts = read' ts)
    (literal : List Char) :
    literalValueWith read limit literal = literalValueWith read' limit literal := by
  unfold literalValueWith
  by_cases long : (toString limit).length < (significant literal).length
  · simp only [if_pos long]
  · simp only [if_neg long, same _ (Nat.le_of_not_lt long)]

/-- A numeral is too long to be read, and yet no longer than the text of a negative limit. -/
def IsUnread (limit : Int) (ds : List Char) : Prop :=
  let count := (ds.dropWhile (· == '0')).length
  limit < 0 ∧ maxDigits < count ∧ count ≤ (toString limit).length

theorem low_of_isUnread (unread : IsUnread limit ds) : limit ≤ -(10 ^ (maxDigits - 1)) :=
  le_of_length_toString (by decide) unread.1 (Nat.lt_of_lt_of_le unread.2.1 unread.2.2)

/-- A run of digits is a token exactly if its number is within the limit, and that number is then
its value. Otherwise it is refused at its place, as it is written and with the limit, unless it is
too long to be read, which takes a low limit. At a limit that can itself be read, whatever reads
digits is given no more of them than the limit's text has characters. -/
theorem scanNumeral_compares (limit : Int) (ahead : c.rest = ds ++ rest)
    (digits : ∀ d ∈ ds, d.isDigit = true) (stops : ∀ d ∈ rest.head?, d.isDigit = false) :
    (∀ t, (scanNumeral limit c).1 = .ok t ↔
      (Nat.ofDigitChars 10 ds 0 : Int) ≤ limit ∧
        t = ⟨.uint, .number (Nat.ofDigitChars 10 ds 0), c.here, c.here.afterAll ds⟩) ∧
    (limit < Nat.ofDigitChars 10 ds 0 → -(10 ^ (maxDigits - 1)) < limit →
      (scanNumeral limit c).1 = .error ⟨.integerOutOfRange (String.ofList ds) limit, some c.here,
        some (c.lineText c.here.line)⟩) ∧
    (limit < Nat.ofDigitChars 10 ds 0 → ¬IsUnread limit ds →
      (scanNumeral limit c).1 = .error ⟨.integerOutOfRange (String.ofList ds) limit, some c.here,
        some (c.lineText c.here.line)⟩) ∧
    (scanNumeral limit c).2.rest = rest ∧
    (limit.natAbs < 10 ^ maxDigits → ∀ read : List Char → Except Diagnostic.Cause Nat,
      (∀ ts : List Char, ts.length ≤ (toString limit).length → read ts = convert ts) →
        literalValueWith read limit ds = literalValue limit ds) := by
  have outcome : scanNumeral limit c = (ofLexeme limit c (.numeral ds), c.advanceBy ds.length) :=
    scanNumeral_eq ahead digits stops
  have fault : (Lexeme.numeral ds).fault? limit = none ↔
      (Nat.ofDigitChars 10 ds 0 : Int) ≤ limit := by
    simp only [Lexeme.fault?]
    split
    next within => simp [within]
    next above => split <;> simp [above]
  have refused (above : limit < Nat.ofDigitChars 10 ds 0) (read : ¬IsUnread limit ds) :
      (scanNumeral limit c).1 = .error ⟨.integerOutOfRange (String.ofList ds) limit, some c.here,
        some (c.lineText c.here.line)⟩ := by
    rw [outcome]
    refine ofLexeme_eq_error.mpr ⟨_, ?_, rfl⟩
    simp only [Lexeme.fault?]
    rw [if_neg (Int.not_le.mpr above)]
    exact if_neg read
  refine ⟨fun t => ?_, fun above high => ?_, refused, ?_, fun within read same => ?_⟩
  · rw [outcome, ofLexeme_eq_ok, fault]
    rfl
  · exact refused above fun unread => Int.not_le.mpr high (low_of_isUnread unread)
  · rw [outcome]
    exact Cursor.rest_behind ahead
  · rw [literalValueWith_congr same, literalValueWith_convert within]

/-- Two leading zeros count for nothing. -/
theorem scanNumeral_compares_seven :
    (Cursor.start "<input>" "007+").rest = ['0', '0', '7'] ++ ['+'] ∧
    (∀ d ∈ ['0', '0', '7'], d.isDigit = true) ∧ (∀ d ∈ ['+'].head?, d.isDigit = false) ∧
    (scanNumeral 7 (.start "<input>" "007+")).1 =
      .ok ⟨.uint, .number 7, ⟨"<input>", 1, 1⟩, ⟨"<input>", 1, 4⟩⟩ ∧
    (scanNumeral (-7) (.start "<input>" "007+")).1 =
      .error ⟨.integerOutOfRange "007" (-7), some ⟨"<input>", 1, 1⟩, some "007+"⟩ := by
  have ahead : (Cursor.start "<input>" "007+").rest = ['0', '0', '7'] ++ ['+'] := by decide
  have digits : ∀ d ∈ ['0', '0', '7'], d.isDigit = true := by simp
  have stops : ∀ d ∈ ['+'].head?, d.isDigit = false := by simp
  have read : ¬IsUnread (-7) ['0', '0', '7'] := fun unread => absurd unread.2.1 (by decide)
  refine ⟨ahead, digits, stops, ?_, ?_⟩
  · exact ((scanNumeral_compares 7 ahead digits stops).1 _).mpr ⟨by decide, by decide⟩
  · exact (scanNumeral_compares (-7) ahead digits stops).2.2.1 (by decide) read

theorem scanNumeral_of_zeros {n : Nat} (many : maxDigits ≤ n) :
    let limit : Int := -(10 ^ (n - 1))
    let ds := '1' :: List.replicate n '0'
    let c := Cursor.start "<input>" (String.ofList ds)
    limit.natAbs < 10 ^ n ∧ (∀ d ∈ ds, d.isDigit = true) ∧ limit < Nat.ofDigitChars 10 ds 0 ∧
      (scanNumeral limit c).1 = .error (refusal c (.tooManyDigits (n + 1))) := by
  intro limit ds c
  have digits : ∀ d ∈ ds, d.isDigit = true := by
    simp only [ds, List.forall_mem_cons, List.mem_replicate]
    exact ⟨rfl, fun d same => same.2 ▸ rfl⟩
  have ahead : c.rest = ds ++ [] := by
    rw [List.append_nil]
    exact String.toList_ofList
  have some : 0 < n := Nat.lt_of_lt_of_le (by decide) many
  have negative : limit < 0 := Int.neg_neg_of_pos (Int.pow_pos (by decide))
  refine ⟨natAbs_neg_pow_lt some, digits,
    Int.lt_of_lt_of_le negative (Int.natCast_nonneg _), ?_⟩
  rw [scanNumeral_eq ahead digits (by simp)]
  exact ofLexeme_eq_error.mpr ⟨_, Lexeme.fault?_of_zeros many, rfl⟩

/-- At the lowest limits there is a numeral above the limit that is not refused as out of range. -/
theorem scanNumeral_tooManyDigits :
    let limit : Int := -(10 ^ (maxDigits - 1))
    let ds := '1' :: List.replicate maxDigits '0'
    let c := Cursor.start "<input>" (String.ofList ds)
    limit.natAbs < 10 ^ maxDigits ∧ (∀ d ∈ ds, d.isDigit = true) ∧
      limit < Nat.ofDigitChars 10 ds 0 ∧
      (scanNumeral limit c).1 = .error (refusal c (.tooManyDigits (maxDigits + 1))) ∧
      (scanNumeral limit c).1 ≠
        .error (refusal c (.integerOutOfRange (String.ofList ds) limit)) := by
  intro limit ds c
  obtain ⟨readable, digits, above, refused⟩ := scanNumeral_of_zeros (Nat.le_refl maxDigits)
  refine ⟨readable, digits, above, refused, ?_⟩
  rw [refused]
  intro same
  cases congrArg (·.cause) (Except.error.inj same)

end Token
end OnePass
