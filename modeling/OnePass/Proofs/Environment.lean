import OnePass.Options
import OnePass.Proofs.Text.Lowercase
import OnePass.Proofs.Text.Numerals

/-!
What the environment changes. The limit is the number that its setting is written as, or else the
default, with a warning if something else is written. The other setting asks for legacy code if it is
one of three words in any case.
-/

namespace OnePass

namespace Settings

open Text.Numeral

variable {s : Settings} {text : String} {n : Int}

theorem isYes_iff (endsWord : List Char → List Char → Bool) (text : String) :
    isYes text = true ↔
      String.ofList (Text.lowercase endsWord (Text.trim Text.isBlank text.toList)) ∈
        ["1", "true", "yes"] := by
  have own : ∀ word ∈ ["1", "true", "yes"],
      word.toList.all (fun ch => Text.IsAsciiOnly ch) = true := by decide
  have same (word : String) (member : word ∈ ["1", "true", "yes"]) (cs : List Char) :
      String.ofList (Text.lowercase endsWord cs) = word ↔
        String.ofList (cs.map Char.toLower) = word := by
    rw [← String.toList_inj, ← String.toList_inj, String.toList_ofList, String.toList_ofList]
    have letters := List.all_eq_true.mp (own word member)
    exact Text.lowercase_eq_iff fun ch inside => of_decide_eq_true (letters ch inside)
  rw [isYes, List.contains_iff_mem]
  constructor
  · intro member
    exact (same _ member _).mpr rfl ▸ member
  · intro member
    exact (same _ member _).mp rfl ▸ member

theorem storesFirst_eq_false_iff (endsWord : List Char → List Char → Bool) (s : Settings) :
    s.storesFirst = false ↔ ∃ text, s.legacyStore = some text ∧
      String.ofList (Text.lowercase endsWord (Text.trim Text.isBlank text.toList)) ∈
        ["1", "true", "yes"] := by
  simp only [← isYes_iff]
  rw [storesFirst]
  cases setting : s.legacyStore with
  | none => simp [given?]
  | some text =>
    by_cases empty : text = ""
    · subst empty
      decide
    · rw [given?_some empty]
      simp

theorem ne_empty_of_denotes (denotes : Denotes text n) : text ≠ "" := by
  rintro rfl
  rw [← read?_eq_some_iff] at denotes
  exact absurd denotes (by rw [(by decide : read? "" = none)]; exact nofun)

/-- A limit that is written as a number is used without a warning. -/
theorem limit_of_denotes (setting : s.maxInteger = some text) (denotes : Denotes text n) :
    s.options.limit = n ∧ s.warnings = [] := by
  have read := read?_eq_some_iff.mpr denotes
  have given : given? s.maxInteger = some text := by
    rw [setting, given?_some (ne_empty_of_denotes denotes)]
  constructor
  · rw [options, limit?, given, Option.bind_some, read]
    rfl
  · rw [warnings, given]
    simp [read]

theorem limit_of_not_denotes
    (invalid : ∀ text n, s.maxInteger = some text → ¬ Denotes text n) :
    s.options.limit = 2147483647 ∧ s.warnings =
      match s.maxInteger with
      | none => []
      | some text => if text = "" then [] else [.ignoredLimit text] := by
  rw [options, limit?, warnings]
  cases setting : s.maxInteger with
  | none => exact ⟨rfl, rfl⟩
  | some text =>
    by_cases empty : text = ""
    · subst empty
      exact ⟨rfl, rfl⟩
    · have unread : read? text = none := by
        cases read : read? text with
        | none => rfl
        | some n => exact absurd (read?_eq_some_iff.mp read) (invalid text n setting)
      rw [given?_some empty, Option.bind_some, unread]
      exact ⟨rfl, by simp [empty, unread]⟩

/-- The environment's options. The limit is decided by one setting alone: it is the number that the
setting is written as, and the default otherwise, with one warning if something else is written.
Whether first values are stored is decided by the other one. -/
theorem options_exact (s : Settings) :
    (∀ text n, s.maxInteger = some text → Denotes text n →
      s.options.limit = n ∧ s.warnings = []) ∧
    ((∀ text n, s.maxInteger = some text → ¬ Denotes text n) →
      s.options.limit = 2147483647 ∧ s.warnings =
        match s.maxInteger with
        | none => []
        | some text => if text = "" then [] else [.ignoredLimit text]) ∧
    (∀ n : Int, n.natAbs < 10 ^ maxDigits →
      ({ s with maxInteger := some (toString n) } : Settings).options.limit = n) ∧
    (∀ endsWord, s.options.storesFirst = false ↔ ∃ text, s.legacyStore = some text ∧
      String.ofList (Text.lowercase endsWord (Text.trim Text.isBlank text.toList)) ∈
        ["1", "true", "yes"]) ∧
    s.options.file = "<input>" ∧
    ∀ t : Settings, (t.maxInteger = s.maxInteger → t.options.limit = s.options.limit) ∧
      (t.legacyStore = s.legacyStore → t.options.storesFirst = s.options.storesFirst) := by
  refine ⟨fun text n => limit_of_denotes, limit_of_not_denotes, fun n short => ?_,
    fun endsWord => storesFirst_eq_false_iff endsWord s, rfl, fun t => ⟨?_, ?_⟩⟩
  · exact (limit_of_denotes rfl (read?_eq_some_iff.mp (read?_toString short))).1
  · intro same
    rw [options, options, limit?, limit?, same]
  · intro same
    rw [options, options]
    change t.storesFirst = s.storesFirst
    rw [storesFirst, storesFirst, same]

/-- Both settings as people may write them. -/
theorem options_exact_spelled :
    let s : Settings := { legacyStore := " YES\n", maxInteger := " +1_\u0660 " }
    Denotes " +1_\u0660 " 10 ∧ s.options.limit = 10 ∧ s.warnings = [] ∧
      s.options.storesFirst = false := by
  intro s
  have denotes : Denotes " +1_\u0660 " 10 := read?_eq_some_iff.mp (by decide)
  obtain ⟨written, _, _, yes, _⟩ := options_exact s
  obtain ⟨limit, silent⟩ := written _ 10 rfl denotes
  refine ⟨denotes, limit, silent, (yes fun _ _ => false).mpr ⟨" YES\n", rfl, ?_⟩⟩
  decide +kernel

/-- Separators from U+001C to U+001F are blanks, but not around a number, whatever its script is. -/
theorem options_limit_separator :
    let text := "\x1c\u0665"
    (∃ c ∈ text.toList, 128 ≤ c.toNat) ∧
      Denotes (String.ofList (Text.trim Text.isBlank text.toList)) 5 ∧
      ({ maxInteger := some text } : Settings).options.limit = 2147483647 := by
  intro text
  refine ⟨⟨'\u0665', by decide, by decide⟩, ?_, by decide⟩
  exact read?_eq_some_iff.mp (by decide)

end Settings
end OnePass
