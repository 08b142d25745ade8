import Mathlib.Data.Nat.Digits.Defs
import OnePass.Proofs.Text.Places
import OnePass.Diagnostic

/-!
Texts of one line. Lines that are joined by line feeds can be told apart again, and what diagnostics
are made of is on one line: names of kinds, numbers, and places in a text with a name of one line.
-/

namespace OnePass

/-- The text has no line feed. -/
def Text.OneLine (s : String) : Prop := '\n' ∉ s.toList

namespace Text

variable {s t : String} {cs : List Char} {c : Char}

instance (s : String) : Decidable (OneLine s) := inferInstanceAs (Decidable (_ ∉ _))

@[simp]
theorem oneLine_append : OneLine (s ++ t) ↔ OneLine s ∧ OneLine t := by
  simp [OneLine]

theorem oneLine_ofList : OneLine (String.ofList cs) ↔ '\n' ∉ cs := by
  rw [OneLine, String.toList_ofList]

theorem oneLine_intercalate {ss : List String} (between : OneLine s) (all : ∀ t ∈ ss, OneLine t) :
    OneLine (s.intercalate ss) := by
  induction ss with
  | nil => simp [OneLine]
  | cons t ss inductionHypothesis =>
    rw [List.forall_mem_cons] at all
    cases ss with
    | nil => simpa using all.1
    | cons u ss =>
      rw [String.intercalate_cons_cons, oneLine_append, oneLine_append]
      exact ⟨⟨all.1, between⟩, inductionHypothesis all.2⟩

theorem pieces_eq_singleton {separator : Char} (absent : separator ∉ cs) :
    pieces separator cs = [cs] := by
  induction cs with
  | nil => rfl
  | cons c cs inductionHypothesis =>
    rw [List.mem_cons, not_or] at absent
    rw [pieces_cons, inductionHypothesis absent.2, addToPieces, if_neg (Ne.symm absent.1)]

theorem pieces_append_of_not_mem {separator : Char} (absent : separator ∉ cs) (ds : List Char) :
    pieces separator (cs ++ separator :: ds) = cs :: pieces separator ds := by
  rw [pieces_append_separator, pieces_eq_singleton absent]
  rfl

theorem not_mem_piece {separator : Char} {p : List Char} (member : p ∈ pieces separator cs) :
    separator ∉ p := by
  induction cs generalizing p with
  | nil => simp_all
  | cons c cs inductionHypothesis =>
    rw [pieces_cons] at member
    unfold addToPieces at member
    by_cases same : c = separator
    · rw [if_pos same, List.mem_cons] at member
      rcases member with rfl | later
      · simp
      · exact inductionHypothesis later
    · rw [if_neg same] at member
      cases first : pieces separator cs with
      | nil => exact absurd first (pieces_ne_nil separator cs)
      | cons q ps =>
        rw [first] at member inductionHypothesis
        rw [List.mem_cons] at member
        rcases member with rfl | later
        · rw [List.mem_cons, not_or]
          exact ⟨Ne.symm same, inductionHypothesis List.mem_cons_self⟩
        · exact inductionHypothesis (List.mem_cons_of_mem q later)

theorem lineAt_eq_nil {n : Int} (outside : n < 1 ∨ (lines cs).length < n) :
    lineAt cs n = [] := by
  unfold lineAt
  by_cases low : 1 ≤ n
  · have beyond : (lines cs).length ≤ (n - 1).toNat := by omega
    rw [if_pos low, List.getD_eq_getElem?_getD, List.getElem?_eq_none beyond]
    rfl
  · rw [if_neg low]

/-- The line of a place has no line feed. -/
theorem not_mem_line (before rest : List Char) :
    '\n' ∉ lastLine before ++ rest.takeWhile (· ≠ '\n') := by
  intro member
  rw [lastLine, List.mem_append, List.mem_reverse] at member
  rcases member with behind | further
  · simpa using List.all_eq_true.mp List.all_takeWhile _ behind
  · simpa using List.all_eq_true.mp List.all_takeWhile _ further

/-- Lines that are joined by line feeds are the lines of the text. -/
theorem lines_intercalate {ss : List String} (some : ss ≠ []) (all : ∀ s ∈ ss, OneLine s) :
    lines ("\n".intercalate ss).toList = ss.map String.toList := by
  induction ss with
  | nil => exact absurd rfl some
  | cons s ss inductionHypothesis =>
    rw [List.forall_mem_cons] at all
    cases ss with
    | nil =>
      rw [String.intercalate_singleton]
      exact pieces_eq_singleton all.1
    | cons t ss =>
      have split : ("\n".intercalate (s :: t :: ss)).toList =
          s.toList ++ '\n' :: ("\n".intercalate (t :: ss)).toList := by
        simp [String.intercalate_cons_cons]
      rw [split, lines, pieces_append_of_not_mem all.1, ← lines, inductionHypothesis (by simp) all.2]
      rfl

theorem isDigit_of_mem_nat {n : Nat} (member : c ∈ (toString n).toList) : c.isDigit = true := by
  change c ∈ n.repr.toList at member
  rw [Nat.toList_repr] at member
  exact Nat.isDigit_of_mem_toDigits (by decide) (by decide) member

theorem isDigit_of_mem_int {n : Int} (member : c ∈ (toString n).toList) :
    c.isDigit = true ∨ c = '-' := by
  cases n with
  | ofNat n => exact .inl (isDigit_of_mem_nat member)
  | negSucc n =>
    change c ∈ ("-" ++ toString (n + 1)).toList at member
    rw [String.toList_append, List.mem_append] at member
    rcases member with sign | digit
    · exact .inr (by simpa using sign)
    · exact .inl (isDigit_of_mem_nat digit)

theorem not_mem_int (n : Int) (other : c.isDigit = false) (sign : c ≠ '-') :
    c ∉ (toString n).toList := by
  intro member
  rcases isDigit_of_mem_int member with digit | same
  · rw [digit] at other
    cases other
  · exact sign same

theorem oneLine_int (n : Int) : OneLine (toString n) := not_mem_int n rfl (by decide)

/-- The digits of a number, in any base. -/
theorem exists_digit_of_mem {b n : Nat} {c : Char} (base : 1 < b)
    (member : c ∈ Nat.toDigits b n) : ∃ d, d < b ∧ c = Nat.digitChar d := by
  induction n using Nat.strongRecOn with
  | ind n inductionHypothesis =>
    rw [Nat.toDigits_eq_if base] at member
    split at member
    next small => exact ⟨n, small, by simpa using member⟩
    next large =>
      rw [List.mem_append, List.mem_singleton] at member
      rcases member with before | last
      · exact inductionHypothesis (n / b) (Nat.div_lt_self (by omega) base) before
      · exact ⟨n % b, Nat.mod_lt n (by omega), last⟩

theorem oneLine_hex (width n : Nat) : OneLine (String.ofList ((hex width n).map Char.toUpper)) := by
  have digits : ∀ d < 16, (Nat.digitChar d).toUpper ≠ '\n' := by decide
  rw [oneLine_ofList, List.mem_map]
  rintro ⟨c, member, feed⟩
  rw [hex, List.leftpad, List.mem_append, List.mem_replicate] at member
  rcases member with ⟨_, rfl⟩ | member
  · exact absurd feed (by decide)
  · obtain ⟨d, small, rfl⟩ := exists_digit_of_mem (by decide) member
    exact digits d small feed

end Text

open Text

theorem Location.oneLine_text {l : Location} (file : OneLine l.file) : OneLine l.text := by
  simp only [Location.text, oneLine_append, file, oneLine_int, and_true, true_and]
  decide

/-- A place that counts lines and columns from one. -/
theorem Location.text_counted (file : String) (line column : Nat) :
    (⟨file, line + 1, column + 1⟩ : Location).text =
      file ++ ":" ++ toString (line + 1) ++ ":" ++ toString (column + 1) := rfl

theorem Token.Kind.oneLine_name (k : Token.Kind) : OneLine k.name := by
  cases k <;> decide

theorem Token.oneLine_describe {t : Token} (spelling : OneLine t.spelling) :
    OneLine t.describe := by
  unfold describe
  split
  · decide
  · cases value : t.value with
    | nothing => decide
    | text s =>
      have same : t.spelling = s := by rw [Token.spelling, value]
      rw [same] at spelling
      simp only [oneLine_append, spelling, and_true]
      decide
    | number n =>
      simp only [oneLine_append, oneLine_int, and_true]
      decide

end OnePass
