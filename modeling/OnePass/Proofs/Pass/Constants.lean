import OnePass.Program.Code
import OnePass.Proofs.Pass.Semicolons
import OnePass.Proofs.Program.Unambiguous

/-!
The constants of a text. A declaration is read as a whole before its name and its instruction are
added. So wherever the reading of constants ends, the names and the code that it has added are those
of the declarations completed so far.
-/

namespace OnePass

/-- What the names hold of a declared constant. -/
def ConstantDeclaration.declaration (c : ConstantDeclaration) : Declaration :=
  ⟨c.name.spelling, true, true, some c.name.start⟩

namespace Pass

/-- Between two states these tokens have been taken, and nothing else has been done. -/
structure Takes (s : Pass) (ts : List Token) (s' : Pass) : Prop where
  leads : s.Leads ts s'
  scope : s'.scope = s.scope
  mode : s'.storesFirst = s.storesFirst
  code : s'.code = s.code

/-- Between two states these constants have been read and declared, and nothing else has been
done. -/
structure Declares (s : Pass) (ts : List Token) (cs : List ConstantDeclaration) (s' : Pass) :
    Prop where
  derives : DerivesEach ConstantDeclaration.Derives ts cs
  leads : s.Leads ts s'
  declarations : s'.scope.declarations =
    s.scope.declarations ++ cs.map ConstantDeclaration.declaration
  mode : s'.storesFirst = s.storesFirst
  code : s'.code.toList = s.code.toList ++ cs.flatMap ConstantDeclaration.code

variable {s s' s'' : Pass} {ts us : List Token} {c : ConstantDeclaration}
  {cs : List ConstantDeclaration}

theorem Takes.refl (s : Pass) : s.Takes [] s := ⟨.refl s, rfl, rfl, rfl⟩

theorem Takes.trans (first : s.Takes ts s') (second : s'.Takes us s'') : s.Takes (ts ++ us) s'' :=
  ⟨first.leads.trans second.leads, second.scope.trans first.scope, second.mode.trans first.mode,
    second.code.trans first.code⟩

theorem Declares.refl (s : Pass) : s.Declares [] [] s := ⟨.nil, .refl s, by simp, rfl, by simp⟩

/-- Looking at the next token changes nothing that has been declared. -/
theorem Declares.peeked (declares : s.Declares us cs s') (takes : s'.Takes [] s'') :
    s.Declares us cs s'' := by
  refine ⟨declares.derives, ?_, ?_, takes.mode.trans declares.mode, ?_⟩
  · simpa using declares.leads.trans takes.leads
  · rw [takes.scope, declares.declarations]
  · rw [takes.code, declares.code]

/-- One more constant is declared. -/
theorem Declares.push (declares : s.Declares us cs s') (derives : c.Derives ts)
    (leads : s'.Leads ts s'')
    (declarations : s''.scope.declarations = s'.scope.declarations ++ [c.declaration])
    (mode : s''.storesFirst = s'.storesFirst)
    (code : s''.code.toList = s'.code.toList ++ c.code) :
    s.Declares (us ++ ts) (cs ++ [c]) s'' := by
  refine ⟨declares.derives.concat derives, declares.leads.trans leads, ?_,
    mode.trans declares.mode, ?_⟩
  · simp [declarations, declares.declarations]
  · simp [code, declares.code]

end Pass

theorem PassM.Looks.takes {α : Type} {x : PassM α} {a : α} {s t : Pass} {ts : List Token}
    (looks : Looks x) (h : x s = .ok a t) (leads : s.Leads ts t) : s.Takes ts t :=
  ⟨leads, (looks.same h).1, (looks.same h).2.1, (looks.same h).2.2⟩

/-- What has been taken of a constant's declaration, and what is left of it. -/
inductive ConstantStage : List Token → List Goal → Prop
  | between : ConstantStage [] []
  | begun {start : Token} : start.kind = .constWord → ConstantStage [start] [.constantName]
  | named {start name : Token} : start.kind = .constWord → name.kind = .ident →
      ConstantStage [start, name] [.expect .equals, .constantValue name]
  | opened {start name equals : Token} : start.kind = .constWord → name.kind = .ident →
      equals.kind = .equals → ConstantStage [start, name, equals] [.constantValue name]
  | valued {ts : List Token} {c : ConstantDeclaration} :
      (∀ stop : Token, stop.kind = .semicolon → c.Derives (ts ++ [stop])) →
      ConstantStage ts [.constantEnd c.name c.value]

/-- The only semicolon of a declaration is its last token. -/
theorem ConstantDeclaration.Derives.ne_semicolon {ts : List Token} {stop : Token}
    {c : ConstantDeclaration} (derives : c.Derives (ts ++ [stop])) :
    ∀ t ∈ ts, t.kind ≠ .semicolon := by
  generalize whole : ts ++ [stop] = all at derives
  cases derives with
  | @mk start name equals number stop' us sign startKind nameKind equalsKind signDerives
      numberKind _ =>
    have split : ts ++ [stop] = (start :: name :: equals :: us ++ [number]) ++ [stop'] := by
      simpa using whole
    rw [List.append_inj_left' split rfl]
    cases signDerives <;> simp_all

/-- No semicolon is taken before the end of a declaration. -/
theorem ConstantStage.ne_semicolon {ts : List Token} {left : List Goal}
    (stage : ConstantStage ts left) : ∀ t ∈ ts, t.kind ≠ .semicolon := by
  cases stage with
  | valued derives => exact (derives (.ofKind .semicolon) rfl).ne_semicolon
  | _ => simp_all

/-- Behind its value only the end of a declaration is left. -/
theorem constantStage_of_value {start name equals number : Token} {ts : List Token} {sign : Sign}
    (startKind : start.kind = .constWord) (nameKind : name.kind = .ident)
    (equalsKind : equals.kind = .equals) (signDerives : sign.Derives ts)
    (numberKind : number.kind = .uint) :
    ConstantStage ([start, name, equals] ++ (ts ++ [number]))
      [.constantEnd name (ConstantDeclaration.value ⟨name, sign, number⟩)] := by
  apply ConstantStage.valued (c := ⟨name, sign, number⟩)
  intro stop stopKind
  simpa using ConstantDeclaration.Derives.mk startKind nameKind equalsKind signDerives numberKind
    stopKind

theorem Goal.Does.of_constantEnd {scope scope' : Scope} {name : Token} {value : Int}
    {goals : List Goal} {added : Bool → List Instruction}
    (does : Does scope (.constantEnd name value) goals scope' added) :
    scope.declare ⟨name.spelling, true, true, some name.start⟩ = .ok scope' ∧
      added = fun _ => [.lit value] := by
  cases does with
  | continues continues => cases continues
  | constantEnd declared => exact ⟨declared, rfl⟩

namespace PassM

open Goal

variable {s t t' : Pass} {g : Goal} {goals rest left : List Goal}

/-- Some constants have been declared, and the next one has been read up to a stage. -/
def ReadsConstants (s : Pass) (left : List Goal) (t : Pass) : Prop :=
  ∃ us cs u ts, s.Declares us cs u ∧ u.Takes ts t ∧ ConstantStage ts left

/-- A step reads on, or completes a declaration. Between two declarations it begins another one or
ends the reading. -/
theorem ReadsConstants.step (reads : ReadsConstants s left t)
    (first : left ++ [consts] = g :: rest) (taken : step g t = .ok goals t') :
    (∃ left', goals ++ rest = left' ++ [consts] ∧ ReadsConstants s left' t') ∨
      goals ++ rest = [] ∧ ReadsConstants s [] t' := by
  obtain ⟨us, cs, u, ts, declares, takes, stage⟩ := reads
  cases stage with
  | between =>
    cases first
    rcases repeats_consts.eq_ok taken with ⟨looked, rfl⟩ | ⟨start, looked, rfl⟩
    · obtain ⟨_, leads⟩ := nextIf_leads looked
      have further := takes.trans ((looks_nextIf .constWord).takes looked leads)
      exact .inr ⟨rfl, us, cs, u, _, declares, further, .between⟩
    · obtain ⟨kind, leads⟩ := nextIf_leads looked
      have further := takes.trans ((looks_nextIf .constWord).takes looked leads)
      exact .inl ⟨[constantName], rfl, us, cs, u, _, declares, further, .begun (kind start rfl)⟩
  | begun startKind =>
    cases first
    simp only [PassM.step, bind_eq_ok, pure_eq_ok] at taken
    obtain ⟨name, _, found, _, _, isNew, rfl, rfl⟩ := taken
    rw [checkNew_ok isNew]
    obtain ⟨kind, leads⟩ := expect_leads found
    have further := takes.trans ((looks_expect .ident).takes found leads)
    exact .inl ⟨[.expect .equals, .constantValue name], rfl, us, cs, u, _, declares, further,
      .named startKind kind⟩
  | named startKind nameKind =>
    cases first
    simp only [PassM.step, bind_eq_ok, pure_eq_ok] at taken
    obtain ⟨equals, _, found, rfl, rfl⟩ := taken
    obtain ⟨kind, leads⟩ := expect_leads found
    have further := takes.trans ((looks_expect .equals).takes found leads)
    exact .inl ⟨_, rfl, us, cs, u, _, declares, further, .opened startKind nameKind kind⟩
  | @opened start name equals startKind nameKind equalsKind =>
    cases first
    simp only [PassM.step, bind_eq_ok, pure_eq_ok] at taken
    obtain ⟨n, _, found, rfl, rfl⟩ := taken
    obtain ⟨ts, sign, number, signDerives, numberKind, value, leads⟩ := constantValue_leads found
    have further := takes.trans (looks_constantValue.takes found leads)
    have stage := constantStage_of_value startKind nameKind equalsKind signDerives numberKind
    rw [value name] at stage
    exact .inl ⟨[constantEnd name n], rfl, us, cs, u, _, declares, further, stage⟩
  | @valued ts c derives =>
    cases first
    obtain ⟨_, does, mode, added, _⟩ := does_of_step taken
    simp only [PassM.step, bind_eq_ok, pure_eq_ok] at taken
    obtain ⟨stop, _, found, _, _, declared, _, _, emitted, rfl, rfl⟩ := taken
    obtain ⟨kind, leads⟩ := expect_leads found
    have later := leads.trans ((declare_leads declared).trans (emit_leads emitted))
    obtain ⟨grown, rfl⟩ := does.of_constantEnd
    rw [takes.scope] at grown
    rw [takes.code] at added
    have pushed := declares.push (derives stop kind) (takes.leads.trans later)
      (Scope.declarations_of_declare grown) (mode.trans takes.mode) added
    exact .inl ⟨[], rfl, _, _, _, [], pushed, .refl _, .between⟩

/-- Constants are declared one by one, whether the reading of them ends well or not. What is taken
behind them where it fails has no semicolon. -/
theorem declares_of_run_consts (s : Pass) :
    ∃ us cs u, s.Declares us cs u ∧
      match run [consts] s with
      | .ok _ s' => s' = u
      | .error _ s' => u.Spares s' ∧ s'.scope = u.scope ∧ s'.code = u.code := by
  have begun : ReadsConstants s [] s := ⟨[], [], s, [], .refl s, .refl s, .between⟩
  have settled : Settled s.scope [consts] := ⟨by simp [Fits], by decide⟩
  have ends := run_of_loop (fun reads _ first taken => reads.step first taken) begun settled
  rw [List.nil_append] at ends
  cases ran : run [consts] s with
  | ok _ s' =>
    rw [ran] at ends
    obtain ⟨us, cs, u, _, declares, takes, stage⟩ := ends
    cases stage
    exact ⟨us, cs, s', declares.peeked takes, rfl⟩
  | error d s' =>
    rw [ran] at ends
    obtain ⟨left, t, ⟨us, cs, u, ts, declares, takes, stage⟩, spares, scope, code⟩ := ends
    exact ⟨us, cs, u, declares, spares.after takes.leads stage.ne_semicolon,
      scope.trans takes.scope, code.trans takes.code⟩

end PassM
end OnePass
