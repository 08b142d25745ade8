import OnePass.Program.Code
import OnePass.Program.Grammar
import OnePass.Program.Replacement
import OnePass.Proofs.Program.NameRules

/-!
What a program is made of when its tokens are replaced by others of the same kinds and values. The
grammar sees the kinds only, and names and code come from the values.
-/

namespace OnePass

/-- A replacement changes nothing but places. -/
structure Token.Keeps (f : Token → Token) : Prop where
  kind : ∀ t, (f t).kind = t.kind
  value : ∀ t, (f t).value = t.value

namespace Token

variable {f : Token → Token}

theorem keeps_unplaced : Keeps unplaced := ⟨fun _ => rfl, fun _ => rfl⟩

theorem Keeps.of_kind (keeps : Keeps f) {t : Token} {k : Kind} (kind : t.kind = k) :
    (f t).kind = k := (keeps.kind t).trans kind

theorem Keeps.spelling (keeps : Keeps f) (t : Token) : (f t).spelling = t.spelling := by
  simp only [Token.spelling, keeps.value]

theorem Keeps.number (keeps : Keeps f) (t : Token) : (f t).number = t.number := by
  simp only [Token.number, keeps.value]

end Token

/-! ### Derivations -/

section

variable {f : Token → Token} {ts : List Token} {t : Token}

open Expression in
theorem Expression.Derives.map {l : Level} {e : Expression} (keeps : Token.Keeps f)
    (h : Derives l ts e) : Derives l (ts.map f) (e.map f) := by
  induction h with
  | name kind => exact .name (keeps.of_kind kind)
  | number kind => exact .number (keeps.of_kind kind)
  | group lKind _ rKind inner =>
    rw [List.map_append, List.map_cons]
    exact .group (keeps.of_kind lKind) inner (keeps.of_kind rKind)
  | operand _ inner => exact .operand inner
  | positive kind _ inner => exact .positive (keeps.of_kind kind) inner
  | negative kind _ inner => exact .negative (keeps.of_kind kind) inner
  | factor _ inner => exact .factor inner
  | product operator _ _ left right =>
    rw [List.map_append, List.map_cons]
    exact .product ((keeps.kind _).symm ▸ operator) left right
  | item _ inner => exact .item inner
  | sum operator _ _ left right =>
    rw [List.map_append, List.map_cons]
    exact .sum ((keeps.kind _).symm ▸ operator) left right

theorem DerivesEach.map {α β : Type} {derives : List Token → α → Prop}
    {derives' : List Token → β → Prop} {g : α → β} {xs : List α}
    (each : ∀ {ts x}, derives ts x → derives' (ts.map f) (g x))
    (h : DerivesEach derives ts xs) : DerivesEach derives' (ts.map f) (xs.map g) := by
  induction h with
  | nil => exact .nil
  | cons first _ others =>
    rw [List.map_append]
    exact .cons (each first) others

theorem Sign.Derives.map {sign : Sign} (keeps : Token.Keeps f) (h : sign.Derives ts) :
    sign.Derives (ts.map f) := by
  cases h with
  | none => exact .none
  | plus kind => exact .plus (keeps.of_kind kind)
  | minus kind => exact .minus (keeps.of_kind kind)

theorem ConstantDeclaration.Derives.map {c : ConstantDeclaration} (keeps : Token.Keeps f)
    (h : ConstantDeclaration.Derives ts c) : ConstantDeclaration.Derives (ts.map f) (c.map f) := by
  cases h with
  | mk startKind nameKind equalsKind sign numberKind stopKind =>
    rw [List.map_append]
    exact .mk (keeps.of_kind startKind) (keeps.of_kind nameKind) (keeps.of_kind equalsKind)
      (sign.map keeps) (keeps.of_kind numberKind) (keeps.of_kind stopKind)

theorem VariableDeclaration.Derives.map {v : VariableDeclaration} (keeps : Token.Keeps f)
    (h : VariableDeclaration.Derives ts v) : VariableDeclaration.Derives (ts.map f) (v.map f) := by
  cases h with
  | plain startKind nameKind stopKind =>
    exact .plain (keeps.of_kind startKind) (keeps.of_kind nameKind) (keeps.of_kind stopKind)
  | initialized startKind nameKind equalsKind initial stopKind =>
    rw [List.map_append]
    exact .initialized (keeps.of_kind startKind) (keeps.of_kind nameKind)
      (keeps.of_kind equalsKind) (initial.map keeps) (keeps.of_kind stopKind)

theorem Statement.Derives.map {x : Statement} (keeps : Token.Keeps f)
    (h : Statement.Derives ts x) : Statement.Derives (ts.map f) (x.map f) := by
  cases h with
  | assign nameKind equalsKind value stopKind =>
    rw [List.map_append]
    exact .assign (keeps.of_kind nameKind) (keeps.of_kind equalsKind) (value.map keeps)
      (keeps.of_kind stopKind)
  | print startKind lKind value rKind stopKind =>
    rw [List.map_append]
    exact .print (keeps.of_kind startKind) (keeps.of_kind lKind) (value.map keeps)
      (keeps.of_kind rKind) (keeps.of_kind stopKind)
  | empty stopKind => exact .empty (keeps.of_kind stopKind)

theorem Program.Derives.map {p : Program} (keeps : Token.Keeps f) (h : Program.Derives ts p) :
    Program.Derives (ts.map f) (p.map f) := by
  cases h with
  | mk startKind consts vars statements finishKind lastKind =>
    simp only [List.map_append]
    exact .mk (keeps.of_kind startKind) (consts.map fun c => c.map keeps)
      (vars.map fun v => v.map keeps) (statements.map fun x => x.map keeps)
      (keeps.of_kind finishKind) (keeps.of_kind lastKind)

end

/-! ### Code and names -/

section

variable {f : Token → Token} {names : List String} {stores : Bool}

theorem Expression.code_map (keeps : Token.Keeps f) (e : Expression) :
    (e.map f).code names = e.code names := by
  induction e with
  | name t => simp only [map, code, keeps.spelling]
  | number t => simp only [map, code, keeps.number]
  | group e inner => exact inner
  | positive e inner => exact inner
  | negative e inner => simp only [map, code, inner]
  | binary o l r left right => simp only [map, code, left, right]

theorem ConstantDeclaration.code_map (keeps : Token.Keeps f) (c : ConstantDeclaration) :
    (c.map f).code = c.code := by
  simp only [code, value, map, keeps.number]

theorem VariableDeclaration.code_map (keeps : Token.Keeps f) (v : VariableDeclaration) :
    (v.map f).code names stores = v.code names stores := by
  rcases v with ⟨name, _ | e⟩
  · rfl
  · simp only [code, map, Option.map_some, keeps.spelling, e.code_map keeps]

theorem Statement.codeAll_map (keeps : Token.Keeps f) (valued : List String)
    (ss : List Statement) :
    codeAll names stores valued (ss.map (.map f)) = codeAll names stores valued ss := by
  induction ss generalizing valued with
  | nil => rfl
  | cons x ss others =>
    cases x with
    | assign t e =>
      simp only [List.map_cons, map, codeAll, keeps.spelling, e.code_map keeps, others]
    | print e => simp only [List.map_cons, map, codeAll, e.code_map keeps, others]
    | empty => simp only [List.map_cons, map, codeAll, others]

namespace Program

variable (p : Program)

theorem names_map (keeps : Token.Keeps f) : (p.map f).names = p.names := by
  simp [names, map, ConstantDeclaration.map, VariableDeclaration.map, keeps.spelling,
    Function.comp_def]

theorem valued_map (keeps : Token.Keeps f) : (p.map f).valued = p.valued := by
  simp [valued, map, ConstantDeclaration.map, VariableDeclaration.map, keeps.spelling,
    Function.comp_def, List.filter_map]

theorem code_map (keeps : Token.Keeps f) : (p.map f).code stores = p.code stores := by
  rw [code, p.names_map keeps, p.valued_map keeps]
  simp only [map, List.flatMap_map, ConstantDeclaration.code_map keeps,
    VariableDeclaration.code_map keeps, Statement.codeAll_map keeps, code]

end Program
end

/-! ### Names -/

def NameEvent.map (f : Token → Token) : NameEvent → NameEvent
  | .introduced t => .introduced (f t)
  | .read t => .read (f t)
  | .targeted t => .targeted (f t)
  | .declared t isConstant hasValue => .declared (f t) isConstant hasValue
  | .assigned t => .assigned (f t)

def Known.map (f : Token → Token) (k : Known) : Known := { k with first := f k.first }

def Violation.map (f : Token → Token) : Violation → Violation
  | .redeclared t first => .redeclared (f t) (f first)
  | .undeclared t => .undeclared (f t)
  | .constantTarget t => .constantTarget (f t)
  | .uninitialized t => .uninitialized (f t)

section

variable {f : Token → Token}

theorem Expression.events_map (f : Token → Token) (e : Expression) :
    (e.map f).events = e.events.map (.map f) := by
  induction e with
  | name t => rfl
  | number t => rfl
  | group e inner => exact inner
  | positive e inner => exact inner
  | negative e inner => exact inner
  | binary o l r left right => simp only [map, events, left, right, List.map_append]

theorem VariableDeclaration.events_map (f : Token → Token) (v : VariableDeclaration) :
    (v.map f).events = v.events.map (.map f) := by
  rcases v with ⟨name, _ | e⟩
  · rfl
  · simp [events, map, e.events_map f, NameEvent.map]

theorem Statement.events_map (f : Token → Token) (x : Statement) :
    (x.map f).events = x.events.map (.map f) := by
  cases x with
  | assign t e => simp [events, map, e.events_map f, NameEvent.map]
  | print e => exact e.events_map f
  | empty => rfl

theorem Program.events_map (f : Token → Token) (p : Program) :
    (p.map f).events = p.events.map (.map f) := by
  have consts (c : ConstantDeclaration) : (c.map f).events = c.events.map (.map f) := rfl
  simp only [events, map, List.flatMap_map, List.map_append, List.map_flatMap, consts,
    VariableDeclaration.events_map, Statement.events_map]

theorem Statement.assigns_map (keeps : Token.Keeps f) (ss : List Statement) (name : String) :
    assigns (ss.map (.map f)) name = assigns ss name := by
  rw [assigns, List.any_map, assigns]
  congr 1
  funext x
  cases x with
  | assign t e => simp only [Function.comp, map, keeps.spelling]
  | print e => rfl
  | empty => rfl

namespace Knowledge

variable (ks : Knowledge)

theorem find?_map (keeps : Token.Keeps f) (t : Token) :
    find? (ks.map (.map f)) (f t) = (ks.find? t).map (.map f) := by
  have same : (fun k => k.first.spelling == (f t).spelling) ∘ Known.map f =
      fun k => k.first.spelling == t.spelling := by
    funext k
    simp only [Function.comp, Known.map, keeps.spelling]
  rw [find?, List.find?_map, same, find?]

theorem violation?_map (keeps : Token.Keeps f) (e : NameEvent) :
    violation? (ks.map (.map f)) (e.map f) = (ks.violation? e).map (.map f) := by
  cases e with
  | introduced t =>
    simp only [NameEvent.map, violation?, ks.find?_map keeps]
    cases ks.find? t <;> rfl
  | read t =>
    simp only [NameEvent.map, violation?, ks.find?_map keeps]
    cases ks.find? t with
    | none => rfl
    | some k => cases valued : k.hasValue <;> simp [Known.map, Violation.map, valued]
  | targeted t =>
    simp only [NameEvent.map, violation?, ks.find?_map keeps]
    cases ks.find? t with
    | none => rfl
    | some k => cases constant : k.isConstant <;> simp [Known.map, Violation.map, constant]
  | declared t isConstant hasValue => rfl
  | assigned t => rfl

theorem after_map (keeps : Token.Keeps f) (e : NameEvent) :
    after (ks.map (.map f)) (e.map f) = (ks.after e).map (.map f) := by
  cases e with
  | declared t isConstant hasValue => simp [after, NameEvent.map, Known.map]
  | assigned t =>
    simp only [after, NameEvent.map, List.map_map]
    congr 1
    funext k
    by_cases same : k.first.spelling = t.spelling <;> simp [Known.map, keeps.spelling, same]
  | introduced t => rfl
  | read t => rfl
  | targeted t => rfl

theorem firstViolation?_map (keeps : Token.Keeps f) (es : List NameEvent) :
    firstViolation? (ks.map (.map f)) (es.map (.map f)) =
      (ks.firstViolation? es).map (.map f) := by
  induction es generalizing ks with
  | nil => rfl
  | cons e es others =>
    rw [List.map_cons, firstViolation?, firstViolation?, ks.violation?_map keeps,
      ks.after_map keeps, others]
    cases ks.violation? e <;> rfl

end Knowledge

namespace Program

variable (p : Program)

/-- The first violation is that of the same occurrence. -/
theorem violation?_map (keeps : Token.Keeps f) :
    (p.map f).violation? = p.violation?.map (.map f) := by
  rw [violation?, events_map, violation?]
  exact Knowledge.firstViolation?_map [] keeps p.events

theorem isWellNamed_map_iff (keeps : Token.Keeps f) : (p.map f).IsWellNamed ↔ p.IsWellNamed := by
  rw [isWellNamed_iff, isWellNamed_iff, p.violation?_map keeps, Option.map_eq_none_iff]

theorem declarations_map (keeps : Token.Keeps f) :
    (p.map f).declarations.map Declaration.unplaced = p.declarations.map Declaration.unplaced := by
  simp [declarations, map, ConstantDeclaration.map, VariableDeclaration.map, Declaration.unplaced,
    keeps.spelling, Statement.assigns_map keeps, Function.comp_def]

end Program
end

end OnePass
