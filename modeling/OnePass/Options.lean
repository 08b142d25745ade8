import OnePass.Log
import OnePass.Text.Numeral

/-!
Options of a compilation, and how two settings of the environment change them.
-/

namespace OnePass

structure Options where
  /-- Whether the first value of a variable is stored in its slot. Without that, an initializer's
  value stays on the stack. -/
  storesFirst : Bool := true
  /-- The greatest literal allowed. -/
  limit : Int := 2147483647
  /-- The name of a text that has none of its own. -/
  file : String := "<input>"
  deriving DecidableEq

/-- The settings that the environment may hold. -/
structure Settings where
  legacyStore : Option String := none
  maxInteger : Option String := none
  deriving DecidableEq

namespace Settings

/-- A setting that is present and not empty. -/
def given? (setting : Option String) : Option String := setting.filter fun s => s ≠ ""

theorem given?_some {s : String} (h : s ≠ "") : given? (some s) = some s := by
  rw [given?, Option.filter_some, if_pos (decide_eq_true h)]

/-- The spellings of yes: blanks around and case do not matter. -/
def isYes (s : String) : Bool :=
  ["1", "true", "yes"].contains
    (String.ofList ((Text.trim Text.isBlank s.toList).map Char.toLower))

def storesFirst (s : Settings) : Bool :=
  match given? s.legacyStore with
  | some text => !isYes text
  | none => ({} : Options).storesFirst

/-- The limit that is set, if one is set and can be read. -/
def limit? (s : Settings) : Option Int := (given? s.maxInteger).bind Text.Numeral.read?

def options (s : Settings) : Options :=
  { storesFirst := s.storesFirst, limit := s.limit?.getD ({} : Options).limit }

/-- A limit that cannot be read is ignored, with a warning. -/
def warnings (s : Settings) : List Event :=
  match given? s.maxInteger with
  | some text => if (Text.Numeral.read? text).isNone then [.ignoredLimit text] else []
  | none => []

end Settings

namespace Options

/-- The name of a text: its own, unless that is missing or empty. -/
def nameFor (o : Options) (file : Option String) : String := (Settings.given? file).getD o.file

end Options
end OnePass
