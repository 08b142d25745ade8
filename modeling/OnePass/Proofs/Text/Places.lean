import Mathlib.Data.List.Induction
import OnePass.Cursor

/-!
Places and lines. A place tells how much of a text stands before it, and the line of a place is what
stands before it on the line, and the rest of the line.
-/

namespace OnePass

namespace Text

variable {separator : Char} {a b cs rest : List Char}

theorem pieces_append_separator (a b : List Char) :
    pieces separator (a ++ separator :: b) = pieces separator a ++ pieces separator b := by
  induction a with
  | nil => simp
  | cons c a inductionHypothesis =>
    rw [List.cons_append, pieces_cons, pieces_cons, inductionHypothesis]
    unfold addToPieces
    split
    · rfl
    · cases first : pieces separator a with
      | nil => exact absurd first (pieces_ne_nil separator a)
      | cons p ps => rfl

theorem length_pieces (separator : Char) (cs : List Char) :
    (pieces separator cs).length = cs.count separator + 1 := by
  induction cs with
  | nil => rfl
  | cons c cs inductionHypothesis =>
    rw [pieces_cons]
    unfold addToPieces
    by_cases same : c = separator
    · rw [if_pos same, List.length_cons, inductionHypothesis, same, List.count_cons_self]
    · rw [if_neg same, List.count_cons_of_ne same, ← inductionHypothesis]
      cases first : pieces separator cs with
      | nil => exact absurd first (pieces_ne_nil separator cs)
      | cons p ps => rfl

theorem getElem?_pieces_zero (separator : Char) (cs : List Char) :
    (pieces separator cs)[0]? = some (cs.takeWhile (· ≠ separator)) := by
  induction cs with
  | nil => rfl
  | cons c cs inductionHypothesis =>
    rw [pieces_cons]
    unfold addToPieces
    by_cases same : c = separator
    · simp [same]
    · cases first : pieces separator cs with
      | nil => exact absurd first (pieces_ne_nil separator cs)
      | cons p ps =>
        rw [first] at inductionHypothesis
        simpa [same] using inductionHypothesis

/-- What stands on the last line. -/
def lastLine (cs : List Char) : List Char := (cs.reverse.takeWhile (· ≠ '\n')).reverse

theorem getElem?_lines (cs rest : List Char) :
    (lines (cs ++ rest))[cs.count '\n']? =
      some (lastLine cs ++ rest.takeWhile (· ≠ '\n')) := by
  induction cs using List.reverseRecOn generalizing rest with
  | nil => exact getElem?_pieces_zero '\n' rest
  | append_singleton cs c inductionHypothesis =>
    rw [List.append_assoc, List.singleton_append]
    by_cases feed : c = '\n'
    · subst feed
      have behind : (pieces '\n' cs).length = (cs ++ ['\n']).count '\n' := by
        simp [length_pieces]
      rw [lines, pieces_append_separator, ← behind, List.getElem?_append_right (Nat.le_refl _),
        Nat.sub_self, getElem?_pieces_zero]
      simp [lastLine]
    · rw [List.count_append, List.count_singleton, if_neg (by simpa using feed), Nat.add_zero,
        inductionHypothesis]
      simp [lastLine, feed]

end Text

namespace Location

/-- A place counts the line feeds before it, and the characters since the last of them. -/
theorem afterAll_start (file : String) (cs : List Char) :
    (start file).afterAll cs = ⟨file, cs.count '\n' + 1, (Text.lastLine cs).length + 1⟩ := by
  induction cs using List.reverseRecOn with
  | nil => rfl
  | append_singleton cs ch inductionHypothesis =>
    rw [afterAll_append, inductionHypothesis, afterAll_cons, afterAll_nil, after]
    by_cases feed : ch = '\n'
    · simp [feed, Text.lastLine]
    · simp [feed, Text.lastLine]

/-- The line of a place in a text. -/
theorem lineAt_afterAll (file : String) (cs rest : List Char) :
    Text.lineAt (cs ++ rest) ((start file).afterAll cs).line =
      Text.lastLine cs ++ rest.takeWhile (· ≠ '\n') := by
  have first : (1 : Int) ≤ cs.count '\n' + 1 := by omega
  have index : ((cs.count '\n' : Int) + 1 - 1).toNat = cs.count '\n' := by omega
  rw [afterAll_start, Text.lineAt, if_pos first, index, List.getD_eq_getElem?_getD,
    Text.getElem?_lines, Option.getD_some]

theorem afterAll_grows (l : Location) (cs : List Char) :
    l.line ≤ (l.afterAll cs).line ∧
      ((l.afterAll cs).line = l.line → (l.afterAll cs).column = l.column + cs.length) := by
  induction cs generalizing l with
  | nil => simp
  | cons c cs inductionHypothesis =>
    obtain ⟨further, same⟩ := inductionHypothesis (l.after c)
    rw [afterAll_cons]
    by_cases feed : c = '\n'
    · simp only [after, if_pos feed] at further ⊢
      omega
    · simp only [after, if_neg feed] at further same ⊢
      refine ⟨further, ?_⟩
      intro line
      rw [same line, List.length_cons]
      omega

/-- Earlier in a text, by line and then by column. -/
def Before (l m : Location) : Prop := l.line < m.line ∨ l.line = m.line ∧ l.column < m.column

theorem before_afterAll (l : Location) {cs : List Char} (some : cs ≠ []) :
    l.Before (l.afterAll cs) := by
  obtain ⟨further, same⟩ := afterAll_grows l cs
  have positive := List.length_pos_iff.mpr some
  by_cases line : (l.afterAll cs).line = l.line
  · refine .inr ⟨line.symm, ?_⟩
    rw [same line]
    omega
  · exact .inl (by omega)

/-- No two places of a text are the same. -/
theorem eq_of_afterAll_eq {l : Location} {a b cs : List Char} (first : a <+: cs) (second : b <+: cs)
    (same : l.afterAll a = l.afterAll b) : a = b := by
  have nothing {a r : List Char} (same : l.afterAll a = l.afterAll (a ++ r)) : r = [] := by
    rw [afterAll_append] at same
    obtain ⟨_, column⟩ := afterAll_grows (l.afterAll a) r
    rw [← same] at column
    have none : (r.length : Int) = 0 := by
      have := column rfl
      omega
    exact List.length_eq_zero_iff.mp (Int.ofNat_eq_zero.mp none)
  rcases List.prefix_or_prefix_of_prefix first second with ⟨r, rfl⟩ | ⟨r, rfl⟩
  · rw [nothing same, List.append_nil]
  · rw [nothing same.symm, List.append_nil]

end Location
end OnePass
