import OnePass.Proofs.Pass.Stream
import OnePass.Proofs.Program.Knowledge

/-!
Where a pass stands: which tokens it has before it, which names it knows, and which code it has
emitted. Each operation of the pass is described by the position that it leads to.
-/

namespace OnePass

/-- The pass has these tokens before it, knows these names and has emitted this code. -/
structure Pass.At (s : Pass) (stores : Bool) (ts : List Token) (ks : Knowledge)
    (is : List Instruction) : Prop where
  yields : s.Yields ts
  declarations : s.scope.declarations = ks.map Known.declaration
  code : s.code.toList = is
  mode : s.storesFirst = stores

theorem Pass.At.nodup {s : Pass} {stores : Bool} {ts : List Token} {ks : Knowledge}
    {is : List Instruction} (here : s.At stores ts ks is) : ks.names.Nodup := by
  rw [← Knowledge.names_scope here.declarations]
  exact s.scope.names_nodup

/-- Taking tokens changes neither names nor code. -/
theorem Pass.At.moved {s : Pass} {stores : Bool} {ts us : List Token} {ks : Knowledge}
    {is : List Instruction} (here : s.At stores ts ks is) {cursor : Cursor}
    {lookahead : Option Token} {scanned : Nat}
    (after : (s.moved cursor lookahead scanned).Yields us) :
    (s.moved cursor lookahead scanned).At stores us ks is :=
  ⟨after, here.declarations, here.code, here.mode⟩

namespace Violation

/-- The token that breaks a rule. -/
def token : Violation → Token
  | redeclared t _ | undeclared t | constantTarget t | uninitialized t => t

def cause : Violation → Diagnostic.Cause
  | redeclared t first => .redeclared t.spelling (some first.start)
  | undeclared t => .undeclared t.spelling
  | constantTarget t => .constantTarget t.spelling
  | uninitialized t => .uninitialized t.spelling

/-- A diagnostic names the violation and the place of its token. -/
def Explains (v : Violation) (d : Diagnostic) : Prop :=
  d.cause = v.cause ∧ d.location = some v.token.start

end Violation

namespace PassM

variable {s : Pass} {stores : Bool} {t : Token} {ts : List Token} {ks : Knowledge}
  {is : List Instruction} {k : Token.Kind}

/-! ### Tokens -/

theorem expect_at (here : s.At stores (t :: ts) ks is) (kind : t.kind = k) :
    ∃ s', expect k s = .ok t s' ∧ s'.At stores ts ks is := by
  obtain ⟨cursor, scanned, expected, after⟩ := expect_of_yields here.yields kind
  exact ⟨_, expected, here.moved after⟩

theorem nextIf_at (here : s.At stores (t :: ts) ks is) (kind : t.kind = k) :
    ∃ s', nextIf k s = .ok (some t) s' ∧ s'.At stores ts ks is := by
  obtain ⟨cursor, scanned, found, after⟩ := nextIf_of_yields here.yields kind
  exact ⟨_, found, here.moved after⟩

theorem nextIf_at_ne (here : s.At stores (t :: ts) ks is) (kind : t.kind ≠ k) :
    ∃ s', nextIf k s = .ok none s' ∧ s'.At stores (t :: ts) ks is := by
  obtain ⟨cursor, scanned, passed, after⟩ := nextIf_of_yields_ne here.yields kind
  exact ⟨_, passed, here.moved (Pass.moved_some_yields_iff.mpr after)⟩

/-- The next token can be looked at, and can then be dropped. -/
theorem peek_at (here : s.At stores (t :: ts) ks is) :
    ∃ s', peek s = .ok t s' ∧ s'.At stores (t :: ts) ks is ∧
      ∃ s'', drop s' = .ok () s'' ∧ s''.At stores ts ks is := by
  obtain ⟨cursor, scanned, peeked, after⟩ := peek_of_yields here.yields
  refine ⟨_, peeked, here.moved (Pass.moved_some_yields_iff.mpr after), _, drop_moved, ?_⟩
  exact here.moved after

/-! ### Code -/

theorem emit_at (here : s.At stores ts ks is) (i : Instruction) :
    ∃ s', emit i s = .ok () s' ∧ s'.At stores ts ks (is ++ [i]) := by
  refine ⟨_, rfl, here.yields, here.declarations, ?_, here.mode⟩
  simp [here.code]

theorem storeFirst_at (here : s.At stores ts ks is) (slot : Nat) :
    ∃ s', storeFirst slot s = .ok () s' ∧
      s'.At stores ts ks (is ++ if stores then [.sto slot] else []) := by
  refine ⟨_, rfl, ?_⟩
  dsimp only
  rw [here.mode]
  cases stores with
  | true =>
    rw [if_pos rfl]
    exact ⟨here.yields, here.declarations, by simp [here.code], rfl⟩
  | false => simpa using here

/-! ### Names -/

theorem find?_eq_ok (name : String) (s : Pass) : find? name s = .ok (s.scope.find? name) s := rfl

theorem resolve_eq_ok {e : Entry} (found : s.scope.find? t.spelling = some e) :
    resolve t s = .ok e s := by
  rw [resolve, bind_of_ok (find?_eq_ok ..), found]
  rfl

theorem resolve_of_unknown (unknown : s.scope.find? t.spelling = none) :
    ∃ d, resolve t s = .error d s ∧ (Violation.undeclared t).Explains d := by
  rw [resolve, bind_of_ok (find?_eq_ok ..), unknown]
  exact ⟨_, rfl, rfl, rfl⟩

theorem resolve_at (here : s.At stores ts ks is) {known : Known} (found : ks.find? t = some known) :
    resolve t s = .ok ⟨known.declaration, ks.names.idxOf t.spelling⟩ s := by
  apply resolve_eq_ok
  rw [Knowledge.find?_scope here.declarations, found]
  rfl

theorem resolve_at_none (here : s.At stores ts ks is) (unknown : ks.find? t = none) :
    ∃ d, resolve t s = .error d s ∧ (Violation.undeclared t).Explains d := by
  apply resolve_of_unknown
  rw [Knowledge.find?_scope here.declarations, unknown]
  rfl

theorem checkNew_at (here : s.At stores ts ks is) (new : ks.find? t = none) :
    checkNew t s = .ok () s := by
  rw [checkNew, bind_of_ok (find?_eq_ok ..), Knowledge.find?_scope here.declarations, new]
  rfl

theorem checkNew_at_some (here : s.At stores ts ks is) {known : Known}
    (found : ks.find? t = some known) :
    ∃ d s', checkNew t s = .error d s' ∧ (Violation.redeclared t known.first).Explains d := by
  rw [checkNew, bind_of_ok (find?_eq_ok ..), Knowledge.find?_scope here.declarations, found]
  exact ⟨_, _, rfl, rfl, rfl⟩

theorem assignable_at (here : s.At stores ts ks is) (allowed : ks.violation? (.targeted t) = none) :
    ∃ known, ks.find? t = some known ∧
      assignable t s = .ok ⟨known.declaration, ks.names.idxOf t.spelling⟩ s := by
  cases found : ks.find? t with
  | none => simp [Knowledge.violation?, found] at allowed
  | some known =>
    have assigned : ¬known.declaration.isConstant = true := by
      simpa [Knowledge.violation?, found, Known.declaration] using allowed
    refine ⟨known, rfl, ?_⟩
    rw [assignable, bind_of_ok (resolve_at here found), if_neg assigned]
    rfl

theorem assignable_at_violation (here : s.At stores ts ks is) {v : Violation}
    (violation : ks.violation? (.targeted t) = some v) :
    ∃ d s', assignable t s = .error d s' ∧ v.Explains d := by
  cases found : ks.find? t with
  | none =>
    obtain rfl : Violation.undeclared t = v := by
      simpa [Knowledge.violation?, found] using violation
    obtain ⟨d, failed, explains⟩ := resolve_at_none here found
    exact ⟨d, s, bind_of_error failed, explains⟩
  | some known =>
    obtain ⟨constant, same⟩ : known.isConstant = true ∧ Violation.constantTarget t = v := by
      simpa [Knowledge.violation?, found] using violation
    subst same
    have constant : known.declaration.isConstant = true := constant
    rw [assignable, bind_of_ok (resolve_at here found), if_pos constant]
    exact ⟨_, _, rfl, rfl, rfl⟩

theorem declare_at (here : s.At stores ts ks is) (new : ks.find? t = none)
    (isConstant hasValue : Bool) :
    ∃ s', declare t isConstant hasValue s = .ok ks.length s' ∧
      s'.At stores ts (ks.after (.declared t isConstant hasValue)) is := by
  have unknown : s.scope.find? t.spelling = none := by
    rw [Knowledge.find?_scope here.declarations, new]
    rfl
  have size : s.scope.size = ks.length := by simp [Scope.size, here.declarations]
  cases result : s.scope.declare ⟨t.spelling, isConstant, hasValue, some t.start⟩ with
  | error e =>
    rw [Scope.declare_eq_error_iff] at result
    simp [unknown] at result
  | ok scope =>
    have grown := Scope.declarations_of_declare result
    simp only [declare, get_bind, result, size]
    refine ⟨_, rfl, here.yields, ?_, here.code, here.mode⟩
    simp [grown, here.declarations, Knowledge.after, Known.declaration]

theorem markInitialized_at (here : s.At stores ts ks is) {known : Known}
    (found : ks.find? t = some known) :
    ∃ s', markInitialized t s = .ok () s' ∧ s'.At stores ts (ks.after (.assigned t)) is := by
  have declared : s.scope.contains t.spelling = true := by
    rw [Scope.contains_iff, Knowledge.names_scope here.declarations]
    exact Knowledge.mem_names_of_find? found
  simp only [markInitialized, get_bind, Scope.markInitialized?, declared, if_true]
  refine ⟨_, rfl, here.yields, ?_, here.code, here.mode⟩
  simp only [Scope.withValue, here.declarations, Knowledge.after, List.map_map]
  congr 1
  funext k
  have name : k.declaration.name = k.first.spelling := rfl
  by_cases same : k.first.spelling = t.spelling
  · simp only [Function.comp, if_pos same, if_pos (name.trans same)]
    rfl
  · have different : ¬k.declaration.name = t.spelling := same
    simp only [Function.comp, if_neg same, if_neg different]

end PassM
end OnePass
