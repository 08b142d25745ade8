import OnePass.Location
import OnePass.Text.Quoted

/-!
Tokens: a kind, a value, and the places where the token starts and where the text goes on behind
it. Words and marks have their spelling as value, unsigned numbers their number, and the end of the
input has none.
-/

namespace OnePass

namespace Token

inductive Kind where
  | eof
  | beginWord
  | endWord
  | constWord
  | varWord
  | printWord
  | ident
  | uint
  | plus
  | minus
  | times
  | slash
  | equals
  | semicolon
  | lparen
  | rparen
  deriving DecidableEq

namespace Kind

def name : Kind → String
  | eof => "EOF"
  | beginWord => "BEGIN"
  | endWord => "END"
  | constWord => "CONST"
  | varWord => "VAR"
  | printWord => "PRINT"
  | ident => "IDENT"
  | uint => "UINT"
  | plus => "PLUS"
  | minus => "MINUS"
  | times => "MULT"
  | slash => "DIV"
  | equals => "EQUAL"
  | semicolon => "SEMICOLON"
  | lparen => "LPAREN"
  | rparen => "RPAREN"

def all : List Kind :=
  [eof, beginWord, endWord, constWord, varWord, printWord, ident, uint, plus, minus, times, slash,
   equals, semicolon, lparen, rparen]

theorem mem_all (k : Kind) : k ∈ all := by
  cases k <;> decide

def ofName? (name : String) : Option Kind := all.find? fun k => k.name == name

/-- The words that are not identifiers. Case matters. -/
def keywords : List (String × Kind) :=
  [("begin", beginWord), ("end", endWord), ("const", constWord), ("var", varWord),
   ("print", printWord)]

def ofWord (word : String) : Kind := (keywords.lookup word).getD ident

/-- The characters that are tokens by themselves. -/
def marks : List (Char × Kind) :=
  [('+', plus), ('-', minus), ('*', times), ('/', slash), ('=', equals), (';', semicolon),
   ('(', lparen), (')', rparen)]

def ofMark? (c : Char) : Option Kind := marks.lookup c

/-- The kinds that begin a statement. -/
def statementStarts : List Kind := [ident, printWord, semicolon]

theorem mem_marks {c : Char} {k : Kind} (h : ofMark? c = some k) : (c, k) ∈ marks := by
  obtain ⟨before, after, split, _⟩ := List.lookup_eq_some_iff.mp h
  simp [split]

theorem ofWord_mem (word : String) : ofWord word ∈ ident :: keywords.map Prod.snd := by
  cases found : keywords.lookup word with
  | none => simp [ofWord, found]
  | some k =>
    obtain ⟨before, after, split, _⟩ := List.lookup_eq_some_iff.mp found
    rw [ofWord, found, split]
    simp

end Kind

inductive Value where
  | nothing
  | text (s : String)
  | number (n : Int)
  deriving DecidableEq

end Token

structure Token where
  kind : Token.Kind
  value : Token.Value
  start : Location
  stop : Location
  deriving DecidableEq

namespace Token

/-- The spelling of a word or mark. -/
def spelling (t : Token) : String :=
  match t.value with
  | .text s => s
  | _ => ""

/-- The number of a numeral. -/
def number (t : Token) : Int :=
  match t.value with
  | .number n => n
  | _ => 0

/-- The token as a diagnostic mentions it. -/
def describe (t : Token) : String :=
  if t.kind = .eof then "end of input"
  else
    match t.value with
    | .nothing => "'None'"
    | .text s => "'" ++ s ++ "'"
    | .number n => "'" ++ toString n ++ "'"

/-- A field of a listing: a text filled with spaces to a width. -/
def field (width : Nat) (s : String) : String :=
  String.ofList (s.toList.rightpad width ' ')

/-- The token's line in a token listing: kind, value, and the range of places. -/
def row (t : Token) : String :=
  let value :=
    match t.value with
    | .nothing => ""
    | .text s => s
    | .number n => toString n
  field 10 t.kind.name ++ " " ++ field 12 value ++ " " ++
    toString t.start.line ++ ":" ++ toString t.start.column ++ "-" ++
    toString t.stop.line ++ ":" ++ toString t.stop.column

/-- The token as a programmer wants to see it. -/
def debugText (t : Token) : String :=
  let value :=
    match t.value with
    | .nothing => ""
    | .text s => ", " ++ Text.quoted s
    | .number n => ", " ++ toString n
  "Token(" ++ t.kind.name ++ value ++ ", " ++
    toString t.start.line ++ ":" ++ toString t.start.column ++ ")"

/-- One row per token. -/
def listing (tokens : List Token) : String :=
  String.join (tokens.map fun t => t.row ++ "\n")

end Token
end OnePass
