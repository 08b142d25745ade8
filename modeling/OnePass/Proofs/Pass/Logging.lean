import OnePass.Compilation
import OnePass.Proofs.Pass.FrontEnds
import OnePass.Proofs.Pass.Reports
import OnePass.Proofs.Program.Scopes

/-!
What the log of a compilation tells. During a pass the log has one event for each declared name, in
the order of the slots. Only a character that is refused adds another event, and then the pass ends.
So the log of a compilation is known from the names in the end, and from the result.
-/

namespace OnePass

/-- The event of a declaration. -/
def Entry.event (e : Entry) : Event :=
  .declared e.declaration.isConstant e.declaration.name e.slot

namespace Scope

variable {s s' : Scope} {d : Declaration} {name : String}

/-- The events of all declarations, in the order of their slots. -/
def events (s : Scope) : List Event := s.entries.map Entry.event

theorem events_of_declare (h : s.declare d = .ok s') :
    s'.events = s.events ++ [.declared d.isConstant d.name s.size] := by
  rw [events, entries_of_declare h, List.map_append]
  rfl

/-- A name that receives a value keeps its slot and its kind. -/
theorem events_withValue (s : Scope) (name : String) : (s.withValue name).events = s.events := by
  apply List.ext_getElem?
  intro slot
  simp only [events, withValue, List.getElem?_map, getElem?_entries, Option.map_map]
  cases s.declarations[slot]? with
  | none => rfl
  | some d => by_cases same : d.name = name <;> simp [same, Entry.event, Declaration.initialized]

end Scope

/-- The log has the events of the declared names, and then some others. -/
def Pass.Logs (s : Pass) (others : List Event) : Prop :=
  s.log.toList = s.scope.events ++ others

namespace PassM

open Goal

variable {α β : Type} {s s' : Pass} {x : PassM α} {f : α → PassM β}

/-- What succeeds leaves the events of the declared names in the log, if no others were there
before. What fails leaves those, and the event of a character if that is refused. -/
def Reports (x : PassM α) : Prop := ∀ s, s.Logs [] →
  match x s with
  | .ok _ s' => s'.Logs []
  | .error d s' => s'.Logs (Event.ofDiagnostic? d).toList

/-! ### Operations -/

theorem Reports.bind (first : Reports x) (second : ∀ a, Reports (f a)) : Reports (x >>= f) := by
  intro s logs
  have begun := first s logs
  cases ran : x s with
  | ok a u =>
    rw [ran] at begun
    rw [bind_of_ok ran]
    exact second a u begun
  | error d u =>
    rw [ran] at begun
    rw [bind_of_error ran]
    exact begun

theorem reports_pure (a : α) : Reports (pure a) := fun _ logs => logs

theorem reports_get : Reports get := fun _ logs => logs

/-- A change that touches neither names nor the log. -/
theorem reports_modify {f : Pass → Pass} (scope : ∀ s, (f s).scope = s.scope)
    (log : ∀ s, (f s).log = s.log) : Reports (modify f) := by
  intro s logs
  change (f s).Logs []
  rwa [Pass.Logs, scope, log]

/-- What is refused at a token is not a character, and is not logged. -/
theorem reports_refuse (t : Token) {cause : Diagnostic.Cause}
    (unlogged : ∀ place line, Event.ofDiagnostic? ⟨cause, place, line⟩ = none) :
    Reports (refuse t cause : PassM α) := by
  intro s logs
  change s.Logs (Event.ofDiagnostic? _).toList
  rw [unlogged]
  exact logs

theorem reports_scan : Reports scan := by
  intro s logs
  unfold scan
  cases scanned : Token.scan s.limit s.cursor with
  | mk result cursor =>
    cases result with
    | ok t => exact logs
    | error d =>
      have plain : s.log.toList = s.scope.events ++ [] := logs
      simp only [Pass.Logs, Array.toList_append, plain, List.append_nil, Option.toList_toArray]

theorem reports_peek : Reports peek := by
  have scans : Reports (do
      let t ← scan
      modify fun s => { s with lookahead := some t }
      return t) :=
    reports_scan.bind fun t =>
      (reports_modify (fun _ => rfl) fun _ => rfl).bind fun _ => reports_pure t
  intro s logs
  rw [peek, get_bind]
  cases s.lookahead with
  | some t => exact logs
  | none => exact scans s logs

theorem reports_drop : Reports drop := reports_modify (fun _ => rfl) fun _ => rfl

theorem reports_nextIf (k : Token.Kind) : Reports (nextIf k) := by
  refine reports_peek.bind fun t => ?_
  split
  · exact reports_drop.bind fun _ => reports_pure _
  · exact reports_pure none

theorem reports_expect (k : Token.Kind) : Reports (expect k) := by
  refine reports_peek.bind fun t => ?_
  split
  · exact reports_drop.bind fun _ => reports_pure _
  · exact reports_refuse t fun _ _ => rfl

theorem reports_emit (i : Instruction) : Reports (emit i) :=
  reports_modify (fun _ => rfl) fun _ => rfl

theorem reports_storeFirst (slot : Nat) : Reports (storeFirst slot) :=
  reports_modify (fun s => by split <;> rfl) fun s => by split <;> rfl

theorem reports_find? (name : String) : Reports (find? name) :=
  reports_get.bind fun _ => reports_pure _

theorem reports_checkNew (t : Token) : Reports (checkNew t) := by
  refine (reports_find? _).bind fun found => ?_
  cases found with
  | some e => exact reports_refuse t fun _ _ => rfl
  | none => exact reports_pure ()

theorem reports_resolve (t : Token) : Reports (resolve t) := by
  refine (reports_find? _).bind fun found => ?_
  cases found with
  | some e => exact reports_pure e
  | none => exact reports_refuse t fun _ _ => rfl

theorem reports_assignable (t : Token) : Reports (assignable t) := by
  refine (reports_resolve t).bind fun e => ?_
  split
  · exact reports_refuse t fun _ _ => rfl
  · exact reports_pure e

theorem reports_readable (t : Token) : Reports (readable t) := by
  refine (reports_resolve t).bind fun e => ?_
  split
  · exact reports_pure e
  · exact reports_refuse t fun _ _ => rfl

/-- A declaration adds its event behind those of the names before it. -/
theorem reports_declare (t : Token) (isConstant isInitialized : Bool) :
    Reports (declare t isConstant isInitialized) := by
  intro s logs
  rw [declare, get_bind]
  cases result : s.scope.declare ⟨t.spelling, isConstant, isInitialized, some t.start⟩ with
  | error e => exact reports_refuse (α := Nat) t (fun _ _ => rfl) s logs
  | ok scope =>
    have plain : s.log.toList = s.scope.events ++ [] := logs
    change (s.log.push _).toList = scope.events ++ []
    rw [Array.toList_push, plain, Scope.events_of_declare result, List.append_nil, List.append_nil]

theorem reports_markInitialized (t : Token) : Reports (markInitialized t) := by
  intro s logs
  rw [markInitialized, get_bind]
  cases result : s.scope.markInitialized? t.spelling with
  | none => exact reports_refuse (α := Unit) t (fun _ _ => rfl) s logs
  | some scope =>
    change s.log.toList = scope.events ++ []
    rw [Scope.eq_withValue_of_markInitialized? result, Scope.events_withValue]
    exact logs

/-! ### Goals -/

theorem reports_constantValue : Reports constantValue := by
  refine (reports_nextIf .minus).bind fun minus => ?_
  split
  · exact (reports_expect .uint).bind fun _ => reports_pure _
  · exact (reports_nextIf .plus).bind fun _ => (reports_expect .uint).bind fun _ => reports_pure _

theorem reports_assignment : Reports assignment :=
  (reports_expect .ident).bind fun name => (reports_assignable name).bind fun _ => reports_pure _

theorem reports_output : Reports output :=
  (reports_expect .printWord).bind fun _ => reports_pure _

theorem reports_statement : Reports statement := by
  refine reports_peek.bind fun t => ?_
  split
  · exact reports_assignment
  · exact reports_output
  · exact reports_drop.bind fun _ => reports_pure _
  · exact reports_drop.bind fun _ => reports_refuse t fun _ _ => rfl

theorem Adds.reports {g part : Goal} {operator? : Token.Kind → Option Operation}
    (adds : Adds g part operator?) : Reports (step g) := by
  rw [adds]
  refine reports_peek.bind fun t => ?_
  cases operator? t.kind with
  | some o => exact reports_drop.bind fun _ => reports_pure _
  | none => exact reports_pure _

theorem Repeats.reports {g first : Goal} {k : Token.Kind} (repeats : Repeats g first k) :
    Reports (step g) := by
  rw [repeats]
  refine (reports_nextIf k).bind fun found => ?_
  split <;> exact reports_pure _

theorem reports_operand : Reports (step .operand) := by
  refine reports_peek.bind fun t => ?_
  split
  · exact reports_drop.bind fun _ => (reports_readable t).bind fun _ =>
      (reports_emit _).bind fun _ => reports_pure _
  · exact reports_drop.bind fun _ => (reports_emit _).bind fun _ => reports_pure _
  · exact reports_drop.bind fun _ => reports_pure _
  · exact reports_refuse t fun _ _ => rfl

theorem reports_step (g : Goal) : Reports (step g) := by
  cases g with
  | expect k => exact (reports_expect k).bind fun _ => reports_pure _
  | emit i => exact (reports_emit i).bind fun _ => reports_pure _
  | consts => exact repeats_consts.reports
  | vars => exact repeats_vars.reports
  | constantName | variableName =>
    exact (reports_expect .ident).bind fun name =>
      (reports_checkNew name).bind fun _ => reports_pure _
  | constantValue name => exact reports_constantValue.bind fun _ => reports_pure _
  | constantEnd name value =>
    exact (reports_expect .semicolon).bind fun _ => (reports_declare name true true).bind fun _ =>
      (reports_emit _).bind fun _ => reports_pure _
  | variableValue name =>
    refine (reports_nextIf .equals).bind fun equals => ?_
    split <;> exact reports_pure _
  | variableEnd name hasValue =>
    refine (reports_expect .semicolon).bind fun _ =>
      (reports_declare name false hasValue).bind fun slot => ?_
    split
    · exact (reports_storeFirst slot).bind fun _ => reports_pure _
    · exact reports_pure _
  | statements =>
    refine reports_peek.bind fun t => ?_
    split
    · exact reports_statement.bind fun _ => reports_pure _
    · exact reports_pure _
  | statement => exact reports_statement
  | assignment => exact reports_assignment
  | assignmentEnd name e =>
    refine (reports_expect .semicolon).bind fun _ => ?_
    split
    · exact (reports_emit _).bind fun _ => reports_pure _
    · exact (reports_markInitialized name).bind fun _ =>
        (reports_storeFirst _).bind fun _ => reports_pure _
  | output => exact reports_output
  | expression | item => exact reports_pure _
  | moreItems => exact adds_items.reports
  | moreFactors => exact adds_factors.reports
  | factor =>
    refine (reports_nextIf .minus).bind fun minus => ?_
    split
    · exact (reports_emit _).bind fun _ => reports_pure _
    · exact (reports_nextIf .plus).bind fun _ => reports_pure _
  | operand => exact reports_operand

/-- By induction along the run: the events of the declared names are there behind every step. -/
theorem reports_run (goals : List Goal) : Reports (run goals) := by
  intro s logs
  induction goals, s using run.induct with
  | case1 s =>
    rw [run_nil]
    exact logs
  | case2 s g rest goals u taken inductionHypothesis =>
    have here := reports_step g s logs
    rw [taken] at here
    rw [run_cons, taken]
    exact inductionHypothesis here
  | case3 s g rest d u failed =>
    have here := reports_step g s logs
    rw [failed] at here
    rw [run_cons, failed]
    exact here

end PassM

namespace Options

variable {o : Options} {file source : String} {s : Pass} {d : Diagnostic}

/-- A pass that ends well logs the declared names and then their number. -/
theorem logs_of_runPass (h : o.runPass file source = .ok () s) :
    s.Logs [.analysed file s.scope.size s.code.size] := by
  obtain ⟨_, _, _, _, leads⟩ := derives_of_runPass h
  obtain ⟨n, passed⟩ := (scans_of_leads leads).1.exists_advanceBy
  have named : s.cursor.file = file := by
    rw [passed, Cursor.file, Cursor.here_advanceBy, Location.file_afterAll]
    rfl
  obtain ⟨_, u, ran, logged⟩ := PassM.bind_eq_ok.mp h
  have here := PassM.reports_run Goal.program (o.pass file source) rfl
  rw [ran] at here
  obtain rfl := PassM.modify_eq_ok.mp logged
  change u.cursor.file = file at named
  have plain : u.log.toList = u.scope.events ++ [] := here
  change (u.log.push _).toList = u.scope.events ++ _
  rw [Array.toList_push, plain, named, List.append_nil]

theorem logs_of_runPass_error (h : o.runPass file source = .error d s) :
    s.Logs (Event.ofDiagnostic? d).toList := by
  have here := PassM.reports_run Goal.program (o.pass file source) rfl
  rcases PassM.bind_eq_error.mp h with failed | ⟨_, _, _, none⟩
  · rwa [failed] at here
  · cases none

/-- The log of a compilation tells of the text, of the names that are declared in the end, and of the
result: how many names and instructions there are, or which character was refused and where. Other
failures are not told of. -/
theorem compileLog_messages (o : Options) (name? : Option String) (source : String) :
    let file := o.nameFor name?
    let told := (o.compileLog file source).map Event.message
    let opening := "Compiling " ++ file ++ " (" ++ toString source.length ++ " characters)"
    let declared (scope : Scope) := scope.declarations.mapIdx fun slot d =>
      "Declared " ++ (if d.isConstant then "const" else "var") ++ " '" ++ d.name ++
        "' at offset " ++ toString slot
    match o.runPass file source with
    | .ok _ s => ∃ c, o.compile file source = .ok c ∧ c.scope = s.scope ∧
        told = opening :: (declared c.scope ++
          ["Analysed " ++ file ++ ": " ++ toString c.scope.size ++ " symbols, " ++
              toString c.code.length ++ " instructions",
            "Compiled " ++ file ++ ": " ++ toString c.code.length ++ " instructions"])
    | .error d s => o.compile file source = .error d ∧ ∃ last,
        told = opening :: (declared s.scope ++ last) ∧
        (∀ ch, d.cause = .invalidCharacter ch → ∃ l, d.location = some l ∧
          last = ["Unrecognized character " ++ Text.quoted ch.toString ++ " at " ++ l.text]) ∧
        ((∀ ch, d.cause ≠ .invalidCharacter ch) → last = []) := by
  intro file told opening declared
  have declared_eq (scope : Scope) : scope.events.map Event.message = declared scope := by
    apply List.ext_getElem?
    intro slot
    simp only [Scope.events, declared, List.map_map, List.getElem?_map, List.getElem?_mapIdx,
      Scope.getElem?_entries, Option.map_map]
    rfl
  cases ran : o.runPass file source with
  | ok u s =>
    have logs : s.log.toList = s.scope.events ++ _ := logs_of_runPass ran
    refine ⟨⟨file, s.code.toList, s.scope, s.scanned⟩, by rw [compile, ran], rfl, ?_⟩
    change (o.compileLog file source).map Event.message = _
    rw [compileLog, ran, ← declared_eq]
    simp only [logs, List.map_cons, List.map_append, List.append_assoc]
    rfl
  | error d s =>
    have logs : s.log.toList = s.scope.events ++ _ := logs_of_runPass_error ran
    obtain ⟨cause, l, shown⟩ := shows_of_runPass_error ran
    refine ⟨by rw [compile, ran], (Event.ofDiagnostic? d).toList.map Event.message, ?_, ?_, ?_⟩
    · change (o.compileLog file source).map Event.message = _
      rw [compileLog, ran, ← declared_eq]
      simp only [logs, List.map_cons, List.map_append]
      rfl
    · intro ch refused
      subst shown
      obtain rfl : cause = .invalidCharacter ch := refused
      exact ⟨l, rfl, rfl⟩
    · intro other
      subst shown
      cases cause with
      | invalidCharacter ch => exact absurd rfl (other ch)
      | _ => rfl

/-- A failure leaves the names that are declared before it in the log, and adds nothing. -/
example : ({ limit := 9 } : Options).compileLog "a" "begin var y; x" =
    [.compiling "a" 14, .declared false "y" 0] := by
  cbv

end Options
end OnePass
