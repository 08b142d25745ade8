import OnePass.Diagnostic
import OnePass.Scope

/-!
Texts that differ in their names. A token stands for another one if both have the same kind, the
same number where they are numerals, and names that belong together where they are identifiers. The
places of the tokens do not matter.
-/

namespace OnePass

structure Token.Renamed (rename : String → String) (t u : Token) : Prop where
  kind : u.kind = t.kind
  number : t.kind = .uint → u.number = t.number
  name : t.kind = .ident → u.spelling = rename t.spelling

theorem Token.renamed_iff {rename : String → String} {t u : Token} :
    t.Renamed rename u ↔ u.kind = t.kind ∧ (t.kind = .uint → u.number = t.number) ∧
      (t.kind = .ident → u.spelling = rename t.spelling) :=
  ⟨fun ⟨kind, number, name⟩ => ⟨kind, number, name⟩,
    fun ⟨kind, number, name⟩ => ⟨kind, number, name⟩⟩

/-- Two tokens have the same position in two lists. -/
def Token.Opposite (ts us : List Token) (t u : Token) : Prop :=
  ∃ i : Nat, ts[i]? = some t ∧ us[i]? = some u

structure Declaration.Renamed (rename : String → String) (d e : Declaration) : Prop where
  name : e.name = rename d.name
  isConstant : e.isConstant = d.isConstant
  isInitialized : e.isInitialized = d.isInitialized

/-- The same cause, met at one token of each text. The first declarations of a name may be any
identifiers that stand for each other. -/
inductive Diagnostic.Cause.Corresponds (names : Token → Token → Prop) (t u : Token) :
    Cause → Cause → Prop
  | unexpected {expected} :
      Corresponds names t u (.unexpected expected t) (.unexpected expected u)
  | redeclared {first first'} : names first first' →
      Corresponds names t u (.redeclared t.spelling (some first.start))
        (.redeclared u.spelling (some first'.start))
  | undeclared : Corresponds names t u (.undeclared t.spelling) (.undeclared u.spelling)
  | uninitialized : Corresponds names t u (.uninitialized t.spelling) (.uninitialized u.spelling)
  | constantTarget : Corresponds names t u (.constantTarget t.spelling) (.constantTarget u.spelling)
  | notAStatement : Corresponds names t u (.notAStatement t) (.notAStatement u)

theorem Diagnostic.Cause.Corresponds.imp {names names' : Token → Token → Prop} {t u : Token}
    {cause cause' : Diagnostic.Cause} (all : ∀ t u, names t u → names' t u)
    (h : cause.Corresponds names t u cause') : cause.Corresponds names' t u cause' := by
  cases h with
  | redeclared first => exact .redeclared (all _ _ first)
  | unexpected => exact .unexpected
  | undeclared => exact .undeclared
  | uninitialized => exact .uninitialized
  | constantTarget => exact .constantTarget
  | notAStatement => exact .notAStatement

end OnePass
