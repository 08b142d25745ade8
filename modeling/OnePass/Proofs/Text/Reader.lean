import OnePass.Proofs.Text.Lines
import OnePass.Reader

/-!
What a reader answers. Whatever has been asked before, the answers are those that the text gives at
the place behind what has been taken from it: the counters that go along with each character agree
with a split of the whole text into lines, and only taking a character changes later answers.
-/

namespace OnePass

namespace Reader

open Text

variable {file : String} {seen rest : List Char} {r u : Reader} {q : Request} {qs : List Request}

/-- The answer at a place, with what stands before it and behind it in the text. -/
def reply (file : String) (seen rest : List Char) : Request → Answer
  | .peek | .advance => .char rest.head?
  | .atEnd => .flag rest.isEmpty
  | .location => .place ⟨file, seen.count '\n' + 1, (lastLine seen).length + 1⟩
  | .previous =>
    .place ⟨file, seen.dropLast.count '\n' + 1, (lastLine seen.dropLast).length + 1⟩
  | .lines => .lines ((Text.lines (seen ++ rest)).map String.ofList)
  | .lineText n => .text (String.ofList (lineAt (seen ++ rest) n))

/-- The reader stands between two parts of its text. The lines that it keeps, if it keeps any, are
those of the text. -/
structure Stands (r : Reader) (file : String) (seen rest : List Char) : Prop where
  source : r.cursor.source = seen ++ rest
  ahead : r.cursor.rest = rest
  here : r.cursor.here = (Location.start file).afterAll seen
  previous : r.cursor.previous = (Location.start file).afterAll seen.dropLast
  kept : ∀ ls ∈ r.kept, ls = r.cursor.lines

theorem stands_start (file source : String) :
    (start file source).Stands file [] source.toList :=
  ⟨rfl, rfl, rfl, rfl, by simp [start]⟩

theorem lineIn_map (cs : List (List Char)) (n : Int) :
    lineIn (cs.map String.ofList) n =
      String.ofList (if 1 ≤ n then cs.getD (n - 1).toNat [] else []) := by
  unfold lineIn
  by_cases low : 1 ≤ n
  · by_cases high : n ≤ cs.length
    · have within : (n - 1).toNat < cs.length := by omega
      rw [if_pos ⟨low, by simpa using high⟩, if_pos low, List.getD_eq_getElem?_getD,
        List.getD_eq_getElem?_getD, List.getElem?_map, List.getElem?_eq_getElem within]
      rfl
    · have beyond : cs.length ≤ (n - 1).toNat := by omega
      rw [if_neg (by simp [high]), if_pos low, List.getD_eq_getElem?_getD,
        List.getElem?_eq_none beyond]
      rfl
  · simp [low]

namespace Stands

theorem lines_eq (h : r.Stands file seen rest) :
    r.lines.1 = (Text.lines (seen ++ rest)).map String.ofList := by
  have split : r.cursor.lines = (Text.lines (seen ++ rest)).map String.ofList := by
    rw [Cursor.lines, h.source]
  unfold Reader.lines
  cases kept : r.kept with
  | none => exact split
  | some ls => exact (h.kept ls kept).trans split

theorem lines (h : r.Stands file seen rest) : r.lines.2.Stands file seen rest := by
  unfold Reader.lines
  cases kept : r.kept with
  | some ls => exact h
  | none => exact ⟨h.source, h.ahead, h.here, h.previous, by simp⟩

theorem answer_eq (h : r.Stands file seen rest) (q : Request) :
    (r.answer q).1 = reply file seen rest q := by
  cases q with
  | peek | advance => exact congrArg (fun cs : List Char => Answer.char cs.head?) h.ahead
  | atEnd => exact congrArg (fun cs : List Char => Answer.flag cs.isEmpty) h.ahead
  | location => exact congrArg Answer.place (h.here.trans (Location.afterAll_start ..))
  | previous => exact congrArg Answer.place (h.previous.trans (Location.afterAll_start ..))
  | lines => exact congrArg Answer.lines h.lines_eq
  | lineText n =>
    simp only [answer, reply, h.lines_eq]
    exact congrArg Answer.text (lineIn_map ..)

/-- Taking a character moves the place behind it. -/
theorem advance {c : Char} (h : r.Stands file seen (c :: rest)) :
    (r.answer .advance).2.Stands file (seen ++ [c]) rest := by
  have step : r.cursor.advance =
      { r.cursor with rest := rest, here := r.cursor.here.after c, previous := r.cursor.here } := by
    rw [Cursor.advance, h.ahead]
  refine ⟨?_, ?_, ?_, ?_, ?_⟩ <;> simp only [answer, step]
  · rw [h.source, List.append_assoc, List.singleton_append]
  · rw [h.here, Location.afterAll_append, Location.afterAll_cons, Location.afterAll_nil]
  · rw [h.here, List.dropLast_concat]
  · exact h.kept

/-- At the end of the text there is nothing to take. -/
theorem advance_end (h : r.Stands file seen []) : (r.answer .advance).2 = r := by
  have stays : r.cursor.advance = r.cursor := by
    rw [Cursor.advance, h.ahead]
  simp only [answer, stays]

/-- Any other request leaves the reader where it is. -/
theorem other (h : r.Stands file seen rest) (other : q ≠ .advance) :
    (r.answer q).2.cursor = r.cursor ∧ (r.answer q).2.Stands file seen rest := by
  have keeps : r.lines.2.cursor = r.cursor := by
    unfold Reader.lines
    split <;> rfl
  cases q with
  | advance => exact absurd rfl other
  | lines | lineText n => exact ⟨keeps, h.lines⟩
  | _ => exact ⟨rfl, h⟩

/-- What a request takes from the text is what stands ahead. -/
theorem answer (h : r.Stands file seen rest) (q : Request) :
    ∃ rest', rest = (r.answer q).1.taken q ++ rest' ∧
      (r.answer q).2.Stands file (seen ++ (r.answer q).1.taken q) rest' := by
  by_cases advances : q = .advance
  · subst advances
    cases rest with
    | nil =>
      have none : (r.answer .advance).1.taken .advance = [] := by
        rw [h.answer_eq]
        rfl
      rw [none, h.advance_end, List.append_nil]
      exact ⟨[], rfl, h⟩
    | cons c rest =>
      have one : (r.answer .advance).1.taken .advance = [c] := by
        rw [h.answer_eq]
        rfl
      rw [one]
      exact ⟨rest, rfl, h.advance⟩
  · have none : (r.answer q).1.taken q = [] := by
      cases q <;> first | rfl | exact absurd rfl advances
    rw [none, List.append_nil]
    exact ⟨rest, rfl, (h.other advances).2⟩

theorem after (h : r.Stands file seen rest) (qs : List Request) :
    ∃ rest', rest = r.taken qs ++ rest' ∧ (r.after qs).Stands file (seen ++ r.taken qs) rest' := by
  induction qs generalizing r seen rest with
  | nil => exact ⟨rest, rfl, by rwa [taken, List.append_nil]⟩
  | cons q qs inductionHypothesis =>
    obtain ⟨_, rfl, first⟩ := h.answer q
    obtain ⟨rest', rfl, last⟩ := inductionHypothesis first
    refine ⟨rest', (List.append_assoc ..).symm, ?_⟩
    rwa [List.append_assoc] at last

/-- Readers at the same place of the same text give the same answers from there on. -/
theorem answers_eq (h : r.Stands file seen rest) (h' : u.Stands file seen rest)
    (qs : List Request) : r.answers qs = u.answers qs := by
  induction qs generalizing r u seen rest with
  | nil => rfl
  | cons q qs inductionHypothesis =>
    have same : (r.answer q).1 = (u.answer q).1 := by rw [h.answer_eq, h'.answer_eq]
    obtain ⟨rest₁, ahead₁, first⟩ := h.answer q
    obtain ⟨rest₂, ahead₂, second⟩ := h'.answer q
    rw [← same, ahead₁] at ahead₂
    rw [← same, ← List.append_cancel_left ahead₂] at second
    rw [answers, answers, same, inductionHypothesis first second]

end Stands

/-- The next character stands behind what has been taken of its line, or ends the line. -/
theorem head?_eq (seen rest : List Char) :
    let cs := lastLine seen ++ rest.takeWhile (· ≠ '\n')
    rest.head? = cs[(lastLine seen).length]? ∨
      (lastLine seen).length = cs.length ∧ (rest.head? = some '\n' ∨ rest = []) := by
  cases rest with
  | nil => exact .inr ⟨by simp, .inr rfl⟩
  | cons c rest =>
    by_cases feed : c = '\n'
    · exact .inr ⟨by simp [feed], .inl (congrArg some feed)⟩
    · exact .inl (by simp [feed])

/-- Whatever a reader has been asked, what it has taken is a beginning of the text, and it answers
as the text is there. Nothing but taking a character changes where it stands or what it answers
later. The line of its place has no line feed, begins with what has been taken of it and goes on
with the next character, which otherwise ends it. The lines are the only texts without line feeds
that give the text when they are joined, and there are no others. -/
theorem answers_of_text (file source : String) (qs : List Request) :
    let r := (start file source).after qs
    let seen := (start file source).taken qs
    let ls := (Text.lines source.toList).map String.ofList
    (∃ rest, source.toList = seen ++ rest ∧
      (∀ q, (r.answer q).1 = reply file seen rest q) ∧
      (∀ q, q ≠ .advance ∨ rest = [] →
        (r.answer q).2.cursor = r.cursor ∧ ∀ qs', (r.answer q).2.answers qs' = r.answers qs') ∧
      ∃ cs : List Char, (Text.lines source.toList)[seen.count '\n']? = some cs ∧
        (r.answer (.lineText (seen.count '\n' + 1))).1 = .text (String.ofList cs) ∧
        '\n' ∉ cs ∧ cs.take (lastLine seen).length = lastLine seen ∧
        (rest.head? = cs[(lastLine seen).length]? ∨
          (lastLine seen).length = cs.length ∧ (rest.head? = some '\n' ∨ rest = []))) ∧
    "\n".intercalate ls = source ∧ (∀ l ∈ ls, OneLine l) ∧
    (∀ ls' : List String, ls' ≠ [] → (∀ l ∈ ls', OneLine l) → "\n".intercalate ls' = source →
      ls' = ls) ∧
    ∀ n : Int, n < 1 ∨ ls.length < n → (r.answer (.lineText n)).1 = .text "" := by
  intro r seen ls
  obtain ⟨rest, split, stands⟩ := (stands_start file source).after qs
  rw [List.nil_append] at stands
  refine ⟨⟨rest, split, stands.answer_eq, fun q still => ?_,
    lastLine seen ++ rest.takeWhile (· ≠ '\n'), ?_, ?_, not_mem_line seen rest, List.take_left,
    head?_eq ..⟩, ?_, ?_, ?_, ?_⟩
  · by_cases advances : q = .advance
    · obtain rfl : rest = [] := still.resolve_left (not_not_intro advances)
      rw [advances, stands.advance_end]
      exact ⟨rfl, fun _ => rfl⟩
    · obtain ⟨same, stays⟩ := stands.other advances
      exact ⟨same, stays.answers_eq stands⟩
  · rw [split]
    exact getElem?_lines ..
  · rw [stands.answer_eq, reply, ← Location.lineAt_afterAll file, Location.afterAll_start]
  · have joined := intercalate_pieces '\n' source.toList
    exact String.toList_inj.mp (by simpa [ls, Text.lines] using joined)
  · simp only [ls, List.forall_mem_map, oneLine_ofList]
    exact fun line member => not_mem_piece member
  · intro ls' some all joined
    have split := lines_intercalate some all
    rw [joined] at split
    simp [ls, split]
  · intro n outside
    have outside : n < 1 ∨ (Text.lines source.toList).length < n := by simpa [ls] using outside
    rw [stands.answer_eq, reply, ← split, lineAt_eq_nil outside]

end Reader
end OnePass
