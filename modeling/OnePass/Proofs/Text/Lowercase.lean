import OnePass.Proofs.Token.Lexing
import OnePass.Text.Lowercase

/-!
Lower case in all scripts and in ASCII. Outside of ASCII only two characters have an ASCII letter in
lower case: the capital I with a dot, and the Kelvin sign. So a word without `i` and `k` is the lower
case of a text exactly if it is so in ASCII.
-/

namespace OnePass.Text

variable {c ch : Char} {cs word before after : List Char} {endsWord : List Char → List Char → Bool}

/-- The ASCII letters and digits that only ASCII characters have in lower case. -/
def IsAsciiOnly (ch : Char) : Prop := ch.isAlphanum = true ∧ ch ≠ 'i' ∧ ch ≠ 'k'

instance (ch : Char) : Decidable (IsAsciiOnly ch) := inferInstanceAs (Decidable (_ ∧ _))

theorem toNat_lt_of_isAlphanum (h : ch.isAlphanum = true) : ch.toNat < 128 := by
  rw [Char.isAlphanum, Bool.or_eq_true, isAlpha_iff, isDigit_iff] at h
  omega

/-- What is no code point becomes U+0000, which is no letter. -/
theorem toNat_ofNat_of_isAlphanum {n : Nat} (h : (Char.ofNat n).isAlphanum = true) :
    (Char.ofNat n).toNat = n := by
  unfold Char.ofNat at h ⊢
  split at h
  · next valid =>
    rw [dif_pos valid]
    rfl
  · exact absurd h (by decide)

/-! ### Characters of ASCII -/

theorem findSome?_capitals (h : c.toNat < 128) :
    (capitals.findSome? fun r => r.small? c) = Capitals.ascii.small? c := by
  have later : ∀ r ∈ capitals.tail, 128 ≤ r.first := by decide +kernel
  have none : (capitals.tail.findSome? fun r => r.small? c) = none := by
    rw [List.findSome?_eq_none_iff]
    intro r member
    have above := later r member
    rw [Capitals.small?, if_neg (by omega)]
  have split : capitals = .ascii :: capitals.tail := rfl
  rw [split, List.findSome?_cons, none]
  cases Capitals.ascii.small? c <;> rfl

theorem lower_of_toNat_lt (h : c.toNat < 128) : lower c = [c.toLower] := by
  have all : ∀ n < 128, (Capitals.ascii.small? (Char.ofNat n)).getD (Char.ofNat n) =
      (Char.ofNat n).toLower := by decide +kernel
  have here := all c.toNat h
  rw [Char.ofNat_toNat] at here
  have other : c ≠ '\u0130' := by
    rintro rfl
    exact absurd h (by decide)
  rw [lower, if_neg other, findSome?_capitals h, here]

/-! ### Other characters -/

theorem toLower_of_le_toNat (h : 128 ≤ c.toNat) : c.toLower = c := by
  rw [Char.toLower, dif_neg]
  rintro ⟨_, high⟩
  have : c.toNat ≤ 90 := high
  omega

theorem not_isAsciiOnly_of_small? {r : Capitals} (member : r ∈ capitals) (outside : 128 ≤ c.toNat)
    (small : r.small? c = some ch) : ¬ IsAsciiOnly ch := by
  have table : ∀ r ∈ capitals, r.last < 128 ∨ 128 ≤ r.small ∨
      (r.first = r.last ∧ r.small = 'k'.toNat) := by decide +kernel
  rintro ⟨letter, _, other⟩
  have low := toNat_lt_of_isAlphanum letter
  rw [Capitals.small?] at small
  split at small
  · next within =>
    obtain rfl := Option.some.inj small
    rw [toNat_ofNat_of_isAlphanum letter] at low
    rcases table r member with ascii | high | ⟨single, kelvin⟩
    · omega
    · omega
    · have same : r.small + (c.toNat - r.first) = 'k'.toNat := by omega
      exact other (by rw [same, Char.ofNat_toNat])
  · cases small

theorem not_isAsciiOnly_of_mem_lower (outside : 128 ≤ c.toNat) (member : ch ∈ lower c) :
    ¬ IsAsciiOnly ch := by
  rw [lower] at member
  split at member
  · intro own
    simp only [List.mem_cons, List.not_mem_nil, or_false] at member
    rcases member with rfl | rfl <;> exact absurd own (by decide)
  · rw [List.mem_singleton] at member
    cases small : capitals.findSome? fun r => r.small? c with
    | none =>
      rw [small] at member
      obtain rfl : ch = c := member
      intro own
      have low := toNat_lt_of_isAlphanum own.1
      omega
    | some d =>
      rw [small] at member
      obtain rfl : ch = d := member
      obtain ⟨r, there, found⟩ := List.exists_of_findSome?_eq_some small
      exact not_isAsciiOnly_of_small? there outside found

/-! ### Texts -/

theorem lowerBetween_ne_nil (endsWord : List Char → List Char → Bool) (before : List Char) (c : Char)
    (after : List Char) : lowerBetween endsWord before c after ≠ [] := by
  unfold lowerBetween lower
  split
  · simp
  · split <;> simp

/-- A letter of ASCII alone is all that a character is in lower case, and it is so in ASCII. -/
theorem eq_singleton_of_mem_lowerBetween (own : IsAsciiOnly ch)
    (member : ch ∈ lowerBetween endsWord before c after) :
    lowerBetween endsWord before c after = [ch] ∧ c.toLower = ch := by
  unfold lowerBetween at member ⊢
  split at member
  · obtain rfl := List.mem_singleton.mp member
    exact absurd own (by decide)
  · next other =>
    rw [if_neg other]
    by_cases ascii : c.toNat < 128
    · rw [lower_of_toNat_lt ascii] at member ⊢
      obtain rfl := List.mem_singleton.mp member
      exact ⟨rfl, rfl⟩
    · exact absurd own (not_isAsciiOnly_of_mem_lower (by omega) member)

theorem lowerBetween_of_isAsciiOnly (own : IsAsciiOnly c.toLower) :
    lowerBetween endsWord before c after = [c.toLower] := by
  have ascii : c.toNat < 128 := by
    by_contra outside
    have low := toNat_lt_of_isAlphanum own.1
    rw [toLower_of_le_toNat (by omega)] at low
    exact outside low
  have other : c ≠ '\u03a3' := by
    rintro rfl
    exact absurd ascii (by decide)
  rw [lowerBetween, if_neg fun both => other both.1, lower_of_toNat_lt ascii]

theorem lowercaseAfter_eq_iff (own : ∀ ch ∈ word, IsAsciiOnly ch) :
    lowercaseAfter endsWord before cs = word ↔ cs.map Char.toLower = word := by
  induction cs generalizing before word with
  | nil => rfl
  | cons c cs inductionHypothesis =>
    rw [lowercaseAfter, List.map_cons]
    constructor
    · rintro rfl
      obtain ⟨ch, more, first⟩ :=
        List.exists_cons_of_ne_nil (lowerBetween_ne_nil endsWord before c cs)
      have here : ch ∈ lowerBetween endsWord before c cs := first ▸ List.mem_cons_self
      have mine := own ch (List.mem_append_left _ here)
      obtain ⟨only, same⟩ := eq_singleton_of_mem_lowerBetween mine here
      have rest := fun d member => own d (List.mem_append_right _ member)
      rw [only, same, (inductionHypothesis rest).mp rfl]
      rfl
    · rintro rfl
      rw [List.forall_mem_cons] at own
      rw [lowerBetween_of_isAsciiOnly own.1, (inductionHypothesis own.2).mpr rfl]
      rfl

/-- For such words it does not matter which small letters there are outside of ASCII, nor how a sigma
is written. -/
theorem lowercase_eq_iff (own : ∀ ch ∈ word, IsAsciiOnly ch) :
    lowercase endsWord cs = word ↔ cs.map Char.toLower = word :=
  lowercaseAfter_eq_iff own

/-- The Kelvin sign. -/
example : lower '\u212a' = ['k'] := by decide +kernel

end OnePass.Text
