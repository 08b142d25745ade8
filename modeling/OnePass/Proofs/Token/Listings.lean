import OnePass.Listing
import OnePass.Proofs.Text.Lines
import OnePass.Proofs.Token.Spellings

/-!
Listings lose nothing. No field of a listing has a separator in it: names, numbers and spellings have
no spaces and no line feeds, and the numbers of a place have neither colons nor hyphens. So every
list of instructions and all the tokens of a text can be read back from their listings.
-/

namespace OnePass

namespace Text

variable {α : Type}

end Text

open Text

/-! ### Instructions -/

namespace Instruction

theorem Opcode.not_mem_name (o : Opcode) : ' ' ∉ o.name.toList ∧ OneLine o.name := by
  rcases o with _ | _ | _ | (_ | _ | _ | _) | _ <;> decide

theorem oneLine_text (i : Instruction) : OneLine i.text := by
  have name := i.opcode.not_mem_name.2
  unfold text
  cases i.operand? with
  | none => exact name
  | some n =>
    have space : OneLine " " := by decide
    exact oneLine_append.mpr ⟨oneLine_append.mpr ⟨name, space⟩, oneLine_int n⟩

end Instruction

/-! ### Places -/

namespace Location

/-- Line and column as a row shows them. -/
def position (l : Location) : String := toString l.line ++ ":" ++ toString l.column

variable {file : String} {l : Location} {c : Char}

end Location

/-! ### Tokens -/

namespace Token

variable {file : String} {l m : Location} {t : Token} {x : Lexeme}

theorem Kind.not_mem_name (k : Kind) : k.name ≠ "" ∧ ' ' ∉ k.name.toList := by
  cases k <;> decide

/-- What a row has of a value. -/
def Value.fields : Value → List String
  | .nothing => []
  | .text s => [s]
  | .number n => [toString n]

theorem row_eq (t : Token) :
    t.row = field 10 t.kind.name ++ " " ++ field 12 (t.value.fields.headD "") ++ " " ++
      (t.start.position ++ "-" ++ t.stop.position) := by
  rcases t with ⟨k, _ | s | n, start, stop⟩ <;>
    simp only [row, Value.fields, List.headD, Location.position, String.append_assoc]

theorem not_mem_field (width : Nat) {s : String} {c : Char} (h : c ∉ s.toList) (other : c ≠ ' ') :
    c ∉ (field width s).toList := by
  rw [field, String.toList_ofList, List.rightpad, List.mem_append, List.mem_replicate]
  rintro (inside | ⟨_, filled⟩)
  · exact h inside
  · exact other filled

/-- Besides the kind and the value a row has only numbers and a few marks. -/
theorem not_mem_row {c : Char} (digit : c.isDigit = false) (marks : c ∉ [' ', ':', '-'])
    (kind : c ∉ t.kind.name.toList) (value : c ∉ (t.value.fields.headD "").toList) :
    c ∉ t.row.toList := by
  simp only [List.mem_cons, List.not_mem_nil, or_false, not_or] at marks
  obtain ⟨space, colon, hyphen⟩ := marks
  have number (n : Int) : c ∉ (toString n).toList := not_mem_int n digit hyphen
  have first := not_mem_field 10 kind space
  have second := not_mem_field 12 value space
  have blank : c ∉ " ".toList := by simpa using space
  have between : c ∉ ":".toList := by simpa using colon
  have dash : c ∉ "-".toList := by simpa using hyphen
  simp only [row_eq, Location.position, String.toList_append, List.mem_append, first, second, number,
    blank, between, dash, or_self, not_false_eq_true]

end Token

end OnePass
