import Mathlib
import OnePass.Failure
import OnePass.Text.LineEnd

/-!
Texts in files. A text is read back from a file whatever line end it is saved with, so the file
compiles like the text: with the same result, or the same diagnostic at the same place. Bytes that
encode no text are not compiled at all.
-/

namespace OnePass

namespace Text

variable {cs : List Char}

theorem normalizeNewlines_cons {c : Char} (h : c ≠ '\r') (cs : List Char) :
    normalizeNewlines (c :: cs) = c :: normalizeNewlines cs := by
  rw [normalizeNewlines, if_neg h]
  intro _ same
  exact absurd same h

/-- A carriage return is a line end of its own unless a line feed follows. -/
theorem normalizeNewlines_return (h : '\n' ∉ cs) :
    normalizeNewlines ('\r' :: cs) = '\n' :: normalizeNewlines cs := by
  rw [normalizeNewlines, if_pos rfl]
  rintro rest - rfl
  exact h List.mem_cons_self

namespace LineEnd

theorem lineFeed_not_mem_write (cs : List Char) : '\n' ∉ carriageReturn.write cs := by
  induction cs with
  | nil => exact List.not_mem_nil
  | cons c cs inductionHypothesis =>
    by_cases ends : c = '\n'
    · subst ends
      simpa [chars] using inductionHypothesis
    · simpa [write_cons carriageReturn ends, Ne.symm ends] using inductionHypothesis

/-- Whichever line end is written, it is read as a line feed, and nothing else is changed. -/
theorem normalizeNewlines_write (e : LineEnd) (h : '\r' ∉ cs) :
    normalizeNewlines (e.write cs) = cs := by
  induction cs with
  | nil => rfl
  | cons c cs inductionHypothesis =>
    simp only [List.mem_cons, not_or] at h
    have rest := inductionHypothesis h.2
    by_cases ends : c = '\n'
    · subst ends
      rw [write_lineFeed]
      cases e with
      | lineFeed => exact (normalizeNewlines_cons (by decide) _).trans (congrArg _ rest)
      | returnAndLineFeed =>
        change normalizeNewlines ('\r' :: '\n' :: returnAndLineFeed.write cs) = _
        rw [normalizeNewlines, rest]
      | carriageReturn =>
        exact (normalizeNewlines_return (lineFeed_not_mem_write cs)).trans (congrArg _ rest)
    · rw [write_cons e ends, normalizeNewlines_cons (Ne.symm h.1), rest]

end LineEnd
end Text

namespace Disk

variable {bytes : ByteArray} {s : String}

theorem textOf_saved (e : Text.LineEnd) (h : '\r' ∉ s.toList) : textOf (e.saved s) = .ok s := by
  rw [textOf, Text.LineEnd.saved, Text.Utf8.decode_toUTF8, Except.map]
  simp only [String.toList_ofList, e.normalizeNewlines_write h, String.ofList_toList]

/-- Exactly the bytes that encode no text cannot be read. -/
theorem exists_textOf_error_iff :
    (∃ fault, textOf bytes = .error fault) ↔ ∀ s : String, s.toUTF8 ≠ bytes := by
  constructor
  · rintro ⟨fault, failed⟩ s rfl
    rw [textOf, Text.Utf8.decode_toUTF8] at failed
    cases failed
  · intro ill
    rw [textOf]
    cases decoded : Text.Utf8.decode bytes with
    | error fault => exact ⟨fault, rfl⟩
    | ok s => exact absurd (Text.Utf8.toUTF8_of_decode decoded) (ill s)

end Disk

namespace Options

variable {disk : Disk} {path source : String} {bytes : ByteArray} {fault : Text.Utf8.Fault}

theorem nameFor_some {file : String} (o : Options) (h : file ≠ "") : o.nameFor file = file := by
  rw [nameFor, Settings.given?_some h]
  rfl

theorem file_of_compile {o : Options} {file source : String} {c : Compilation}
    (h : o.compile file source = .ok c) : c.file = file := by
  rw [compile] at h
  split at h
  · cases h
    rfl
  · cases h

theorem compileFile_of_read (o : Options) (found : disk.read (.ofString path) = .ok bytes) :
    o.compileFile disk path = (do
      let source ← (Disk.textOf bytes).mapError Failure.undecodable
      (o.compile (o.nameFor path) source).mapError .refused) := by
  rw [compileFile, found]
  rfl

theorem compileFile_of_text (o : Options) (found : disk.read (.ofString path) = .ok bytes)
    (read : Disk.textOf bytes = .ok source) :
    o.compileFile disk path = (o.compile (o.nameFor path) source).mapError .refused := by
  rw [compileFile_of_read o found, read]
  rfl

theorem compileFile_of_fault (o : Options) (found : disk.read (.ofString path) = .ok bytes)
    (failed : Disk.textOf bytes = .error fault) :
    o.compileFile disk path = .error (.undecodable fault) := by
  rw [compileFile_of_read o found, failed]
  rfl

/-- A file that holds a text, saved with any of the line ends, compiles like the text under the
name of the file. A file fails to be read as a text exactly if it holds no text at all. -/
theorem compileFile_saved (o : Options) (disk : Disk) (path : String) (bytes : ByteArray)
    (found : disk.read (.ofString path) = .ok bytes) :
    (∀ (s : String) (e : Text.LineEnd), '\r' ∉ s.toList → bytes = e.saved s →
      match o.compile (o.nameFor path) s with
      | .ok c => o.compileFile disk path = .ok c ∧ (path ≠ "" → c.file = path)
      | .error d => o.compileFile disk path = .error (.refused d)) ∧
    ((∃ fault, o.compileFile disk path = .error (.undecodable fault)) ↔
      ∀ s : String, s.toUTF8 ≠ bytes) := by
  constructor
  · rintro s e noReturn rfl
    have outcome := o.compileFile_of_text found (Disk.textOf_saved e noReturn)
    cases compiled : o.compile (o.nameFor path) s with
    | error d =>
      rw [compiled] at outcome
      exact outcome
    | ok c =>
      rw [compiled] at outcome
      refine ⟨outcome, fun named => ?_⟩
      rw [file_of_compile compiled, o.nameFor_some named]
  · rw [← Disk.exists_textOf_error_iff]
    cases read : Disk.textOf bytes with
    | error fault =>
      have outcome := o.compileFile_of_fault found read
      exact ⟨fun _ => ⟨fault, rfl⟩, fun _ => ⟨fault, outcome⟩⟩
    | ok source =>
      have outcome := o.compileFile_of_text found read
      constructor
      · rintro ⟨fault, undecodable⟩
        rw [outcome] at undecodable
        cases compiled : o.compile (o.nameFor path) source <;> rw [compiled] at undecodable <;>
          cases undecodable
      · rintro ⟨_, failed⟩
        cases failed

/-- Two lines, saved with carriage returns and line feeds. -/
theorem compileFile_saved_twoLines :
    let bytes := Text.LineEnd.returnAndLineFeed.saved "begin\nend"
    let disk : Disk := ⟨fun path => if path = "a" then .file bytes else .missing, fun _ => true⟩
    disk.read (.ofString "a") = .ok bytes ∧ '\r' ∉ "begin\nend".toList ∧
      ({} : Options).compileFile disk "a" = .ok ⟨"a", [], .empty, 3⟩ := by
  intro bytes disk
  have found : disk.read (.ofString "a") = .ok bytes := by cbv
  have compiled : ({} : Options).compile (({} : Options).nameFor "a") "begin\nend" =
      .ok ⟨"a", [], .empty, 3⟩ := by cbv
  have saved := (compileFile_saved {} disk "a" bytes found).1 _ .returnAndLineFeed (by decide) rfl
  rw [compiled] at saved
  exact ⟨found, by decide, saved.1⟩

end Options
end OnePass
