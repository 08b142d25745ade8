import OnePass.Proofs.Text.Lines
import OnePass.Proofs.Token.Lexing
import OnePass.Text.NumeralForm

/-!
Reading integers in settings. A text is read as a number exactly if it has the form of an integer
with this value, and every number that has not too many digits is read back from its decimal text.
-/

namespace OnePass.Text

/-! ### Trimming -/

section Trimming

variable {p : Char → Bool} {before core after cs : List Char}

theorem dropWhile_of_head? (h : ∀ c ∈ cs.head?, p c = false) : cs.dropWhile p = cs := by
  cases cs with
  | nil => rfl
  | cons c cs => rw [List.dropWhile_cons_of_neg (by simpa using h)]

/-- What neither begins nor ends with a character of the class is all that is left. -/
theorem trim_eq_of_ends (leading : ∀ c ∈ before, p c = true) (trailing : ∀ c ∈ after, p c = true)
    (some : core ≠ []) (first : ∀ c ∈ core.head?, p c = false)
    (last : ∀ c ∈ core.getLast?, p c = false) : trim p (before ++ core ++ after) = core := by
  have kept : ∀ c ∈ (core ++ after).head?, p c = false := by
    rwa [List.head?_append_of_ne_nil _ some]
  have ends : ∀ c ∈ core.reverse.head?, p c = false := by rwa [List.head?_reverse]
  rw [trim, List.append_assoc, List.dropWhile_append_of_pos leading, dropWhile_of_head? kept,
    List.reverse_append, List.dropWhile_append_of_pos fun c member =>
      trailing c (List.mem_reverse.mp member), dropWhile_of_head? ends, List.reverse_reverse]

/-- Only characters of the class are trimmed. -/
theorem exists_margins (p : Char → Bool) (cs : List Char) :
    ∃ before after, cs = before ++ trim p cs ++ after ∧ (∀ c ∈ before, p c = true) ∧
      ∀ c ∈ after, p c = true := by
  refine ⟨cs.takeWhile p, ((cs.dropWhile p).reverse.takeWhile p).reverse, ?_, ?_, ?_⟩
  · rw [trim, List.append_assoc, ← List.reverse_append, List.takeWhile_append_dropWhile,
      List.reverse_reverse, List.takeWhile_append_dropWhile]
  · exact fun c member => List.mem_takeWhile_imp member
  · exact fun c member => List.mem_takeWhile_imp (List.mem_reverse.mp member)

end Trimming

namespace Numeral

variable {c : Char} {d n : Nat} {cs : List Char} {ds : List Nat} {s : String}

/-! ### Digits -/

/-- No digit is a blank: the tables have no code point in common. -/
theorem isBlank_of_digitValue? (h : digitValue? c = some d) : isBlank c = false := by
  have apart : ∀ z ∈ zeros, ∀ r ∈ blanks, z + 10 ≤ r.1 ∨ r.2 < z := by decide
  obtain ⟨z, found, _⟩ := Option.map_eq_some_iff.mp h
  have within := List.find?_some found
  simp only [Bool.and_eq_true, decide_eq_true_eq] at within
  rw [Bool.eq_false_iff, Ne, isBlank, Ranges.contains_iff]
  rintro ⟨r, member, low, high⟩
  rcases apart z (List.mem_of_find?_eq_some found) r member with below | above <;> omega

theorem isMargin_of_digitValue? (h : digitValue? c = some d) : isMargin c = false := by
  rw [isMargin, isBlank_of_digitValue? h, Bool.false_and]

theorem digitValue?_of_isDigit (h : c.isDigit = true) : digitValue? c = some (c.toNat - 48) := by
  obtain ⟨low, high⟩ := isDigit_iff.mp h
  have found : (zeros.find? fun z => decide (z ≤ c.toNat) && decide (c.toNat < z + 10)) =
      some 48 := by
    refine List.find?_cons_of_pos ?_
    simp only [Bool.and_eq_true, decide_eq_true_eq]
    omega
  rw [digitValue?, found]
  rfl

/-- Neither underscores nor signs are digits. -/
theorem ne_of_digitValue? {other : Char} (h : digitValue? c = some d)
    (none : digitValue? other = none) : c ≠ other := by
  rintro rfl
  rw [none] at h
  cases h

/-- A run of digits begins with one. -/
theorem IsDigits.exists_cons (h : IsDigits cs ds) :
    ∃ c d rest, cs = c :: rest ∧ digitValue? c = some d := by
  cases h with
  | single first | next first rest | apart first rest => exact ⟨_, _, _, rfl, first⟩

theorem IsDigits.exists_concat (h : IsDigits cs ds) :
    ∃ c d before, cs = before ++ [c] ∧ digitValue? c = some d := by
  induction h with
  | single first => exact ⟨_, _, [], rfl, first⟩
  | next first rest inductionHypothesis =>
    obtain ⟨c, d, before, rfl, last⟩ := inductionHypothesis
    exact ⟨c, d, _ :: before, rfl, last⟩
  | apart first rest inductionHypothesis =>
    obtain ⟨c, d, before, rfl, last⟩ := inductionHypothesis
    exact ⟨c, d, _ :: '_' :: before, rfl, last⟩

theorem digits?_of_isDigits (h : IsDigits cs ds) : digits? cs = some ds := by
  induction h with
  | single first =>
    rw [digits?, first]
    rfl
  | next first rest inductionHypothesis =>
    obtain ⟨c', d', rest', rfl, second⟩ := rest.exists_cons
    have other := ne_of_digitValue? second (by decide : digitValue? '_' = none)
    rw [digits?, first, inductionHypothesis]
    · rfl
    · exact other
  | apart first rest inductionHypothesis =>
    rw [digits?, first, inductionHypothesis]
    rfl

theorem isDigits_of_digits? (h : digits? cs = some ds) : IsDigits cs ds := by
  fun_induction digits? cs generalizing ds with
  | case1 => cases h
  | case2 c =>
    obtain ⟨d, first, rfl⟩ := Option.map_eq_some_iff.mp h
    exact .single first
  | case3 c cs inductionHypothesis =>
    simp only [Option.bind_eq_bind, Option.bind_eq_some_iff] at h
    obtain ⟨d, first, ds', rest, same⟩ := h
    cases same
    exact .apart first (inductionHypothesis rest)
  | case4 c c' cs _ inductionHypothesis =>
    simp only [Option.bind_eq_bind, Option.bind_eq_some_iff] at h
    obtain ⟨d, first, ds', rest, same⟩ := h
    cases same
    exact .next first (inductionHypothesis rest)

theorem digits?_eq_some_iff : digits? cs = some ds ↔ IsDigits cs ds :=
  ⟨isDigits_of_digits?, digits?_of_isDigits⟩

/-! ### Values -/

/-- Reading from the left gives the number with these decimal digits. -/
theorem value_eq_ofDigits (ds : List Nat) : value ds = Nat.ofDigits 10 ds.reverse := by
  induction ds using List.reverseRecOn with
  | nil => rfl
  | append_singleton ds d inductionHypothesis =>
    rw [List.reverse_append, List.reverse_singleton, List.singleton_append, Nat.ofDigits_cons,
      ← inductionHypothesis, value, List.foldl_append]
    exact Nat.add_comm ..

theorem magnitude?_eq_some_iff :
    magnitude? cs = some n ↔
      ∃ ds, IsDigits cs ds ∧ ds.length ≤ maxDigits ∧ Nat.ofDigits 10 ds.reverse = n := by
  simp only [magnitude?, Option.bind_eq_bind, Option.bind_eq_some_iff, digits?_eq_some_iff,
    Option.ite_none_right_eq_some, Option.some.injEq, value_eq_ofDigits]

/-! ### Integers -/

theorem read?_of_trim {sign : Sign} (digits : IsDigits cs ds)
    (left : trim isMargin s.toList = sign.chars ++ cs) :
    read? s = (magnitude? cs).map sign.apply := by
  obtain ⟨c, d, rest, rfl, first⟩ := digits.exists_cons
  rw [read?, left]
  cases sign with
  | plus | minus =>
    simp only [Sign.chars, List.cons_append, List.nil_append]
    cases magnitude? (c :: rest) <;> rfl
  | none =>
    have noMinus := ne_of_digitValue? first (by decide : digitValue? '-' = none)
    have noPlus := ne_of_digitValue? first (by decide : digitValue? '+' = none)
    dsimp only [Sign.chars, List.nil_append]
    split
    · next same => exact absurd (List.cons.inj same).1 noMinus
    · next same => exact absurd (List.cons.inj same).1 noPlus
    · cases magnitude? (c :: rest) <;> rfl

/-- What is read has a sign and a magnitude. -/
theorem exists_sign_of_read? {n : Int} (h : read? s = some n) :
    ∃ (sign : Sign) (cs : List Char) (m : Nat), trim isMargin s.toList = sign.chars ++ cs ∧
      magnitude? cs = some m ∧ sign.apply m = n := by
  rw [read?] at h
  split at h
  · next cs left =>
    cases read : magnitude? cs with
    | none => rw [read] at h; cases h
    | some m => rw [read] at h; exact ⟨.minus, cs, m, left, read, Option.some.inj h⟩
  · next cs left =>
    cases read : magnitude? cs with
    | none => rw [read] at h; cases h
    | some m => rw [read] at h; exact ⟨.plus, cs, m, left, read, Option.some.inj h⟩
  · next cs _ _ =>
    cases read : magnitude? (trim isMargin s.toList) with
    | none => rw [read] at h; cases h
    | some m => rw [read] at h; exact ⟨.none, _, m, rfl, read, Option.some.inj h⟩

/-- Signs and digits are no blanks, so nothing of a number is trimmed. -/
theorem Form.trim_text (f : Form) : trim isMargin f.text = f.sign.chars ++ f.digits := by
  obtain ⟨c, d, rest, begins, first⟩ := f.isDigits.exists_cons
  obtain ⟨c', d', before, ends, last⟩ := f.isDigits.exists_concat
  apply trim_eq_of_ends f.isMargin_before f.isMargin_after
  · simp [begins]
  · cases f.sign with
    | none => simpa [Sign.chars, begins] using isMargin_of_digitValue? first
    | plus | minus =>
      intro c head
      obtain rfl := Option.some.inj head
      decide
  · rw [ends, ← List.append_assoc, List.getLast?_concat]
    simpa using isMargin_of_digitValue? last

/-- A text is read as a number exactly if it is written in the form of it. -/
theorem read?_eq_some_iff {n : Int} : read? s = some n ↔ Denotes s n := by
  constructor
  · intro read
    obtain ⟨sign, digits, m, left, size, rfl⟩ := exists_sign_of_read? read
    obtain ⟨values, isDigits, length_le, rfl⟩ := magnitude?_eq_some_iff.mp size
    obtain ⟨before, after, split, leading, trailing⟩ := exists_margins isMargin s.toList
    rw [left] at split
    exact ⟨⟨before, sign, digits, values, after, leading, isDigits, length_le, trailing⟩,
      split.symm, rfl⟩
  · rintro ⟨f, text, rfl⟩
    have left := f.trim_text
    rw [text] at left
    rw [read?_of_trim f.isDigits left,
      magnitude?_eq_some_iff.mpr ⟨f.values, f.isDigits, f.length_le, rfl⟩]
    rfl

/-- Digits of two scripts, and an underscore between them. -/
example : read? " +1_\u0660 " = some 10 := by decide

theorem isDigits_of_isDigit (some : cs ≠ []) (all : ∀ c ∈ cs, c.isDigit = true) :
    IsDigits cs (cs.map fun c => c.toNat - 48) := by
  induction cs with
  | nil => exact absurd rfl some
  | cons c cs inductionHypothesis =>
    rw [List.forall_mem_cons] at all
    cases cs with
    | nil => exact .single (digitValue?_of_isDigit all.1)
    | cons c' cs =>
      exact .next (digitValue?_of_isDigit all.1) (inductionHypothesis (by simp) all.2)

theorem magnitude?_toString {n : Nat} (short : n < 10 ^ maxDigits) :
    magnitude? (toString n).toList = some n := by
  have written : (toString n).toList = Nat.toDigits 10 n := Nat.toList_repr
  have digits : ∀ c ∈ Nat.toDigits 10 n, c.isDigit = true := fun c member =>
    Nat.isDigit_of_mem_toDigits (by decide) (by decide) member
  have some : Nat.toDigits 10 n ≠ [] := List.ne_nil_of_length_pos Nat.length_toDigits_pos
  rw [written, magnitude?_eq_some_iff]
  refine ⟨_, isDigits_of_isDigit some digits, ?_, ?_⟩
  · rw [List.length_map]
    exact (Nat.length_toDigits_le_iff (by decide) (by decide)).mpr short
  · rw [← value_eq_ofDigits, value, List.foldl_map]
    exact Nat.ofDigitChars_eq_foldl.symm.trans Nat.ofDigitChars_ten_toDigits

theorem denotes_signed (sign : Sign) {n : Nat} (short : n < 10 ^ maxDigits)
    (text : s.toList = sign.chars ++ (toString n).toList) : Denotes s (sign.apply n) := by
  obtain ⟨values, isDigits, length_le, value⟩ :=
    magnitude?_eq_some_iff.mp (magnitude?_toString short)
  refine ⟨⟨[], sign, (toString n).toList, values, [], by simp, isDigits, length_le, by simp⟩, ?_,
    congrArg sign.apply value⟩
  rw [Form.text, text, List.nil_append, List.append_nil]

/-- The decimal text of a number with not too many digits is read as this number. -/
theorem read?_toString {n : Int} (short : n.natAbs < 10 ^ maxDigits) :
    read? (toString n) = some n := by
  rw [read?_eq_some_iff]
  cases n with
  | ofNat n => exact denotes_signed .none short rfl
  | negSucc n =>
    refine denotes_signed .minus short ?_
    change ("-" ++ toString (n + 1)).toList = _
    rw [String.toList_append]
    rfl

end Numeral
end OnePass.Text
