import OnePass.Pass.Run
import OnePass.Proofs.Pass.Stream
import OnePass.Proofs.Program.Knowledge

/-!
What taking up a goal leads to: the goals that are left, the names then, and the code that is added.
Code is never looked at, and the mode only decides whether a first value is stored. So a step is the
same in both modes and behind any code, but for the instructions that it adds.
-/

namespace OnePass

/-- The same pass in a mode, with other code so far. -/
def Pass.coded (s : Pass) (stores : Bool) (code : List Instruction) : Pass :=
  { s with storesFirst := stores, code := code.toArray }

@[simp]
theorem Pass.coded_self (s : Pass) : s.coded s.storesFirst s.code.toList = s := rfl

namespace Goal

/-- What is left of a statement behind its first token. -/
inductive Begins (scope : Scope) : List Goal → Prop
  | assignment {name e} : scope.find? name.spelling = some e → e.declaration.isConstant = false →
      Begins scope [.expect .equals, expression, assignmentEnd name e]
  | output : Begins scope
      [.expect .lparen, expression, .expect .rparen, .expect .semicolon, .emit .wrt]
  | empty : Begins scope []

/-- What is left of a goal whose step changes neither names nor code. -/
inductive Continues (scope : Scope) : Goal → List Goal → Prop
  | expect {k} : Continues scope (.expect k) []
  | anotherConstant : Continues scope consts [constantName, consts]
  | noConstant : Continues scope consts []
  | constantName {name} : name.spelling ∉ scope.names →
      Continues scope constantName [.expect .equals, constantValue name]
  | constantValue {name value} : Continues scope (constantValue name) [constantEnd name value]
  | anotherVariable : Continues scope vars [variableName, vars]
  | noVariable : Continues scope vars []
  | variableName {name} : name.spelling ∉ scope.names →
      Continues scope variableName [variableValue name]
  | initialized {name} :
      Continues scope (variableValue name) [expression, variableEnd name true]
  | plain {name} : Continues scope (variableValue name) [variableEnd name false]
  | anotherStatement {goals} : Begins scope goals →
      Continues scope statements (goals ++ [statements])
  | noStatement : Continues scope statements []
  | statement {goals} : Begins scope goals → Continues scope statement goals
  | assignment {goals} : Begins scope goals → Continues scope assignment goals
  | output {goals} : Begins scope goals → Continues scope output goals
  | expression : Continues scope expression [item, moreItems]
  | anotherItem {o} : Continues scope moreItems [item, .emit (.operate o), moreItems]
  | noItem : Continues scope moreItems []
  | item : Continues scope item [factor, moreFactors]
  | anotherFactor {o} : Continues scope moreFactors [factor, .emit (.operate o), moreFactors]
  | noFactor : Continues scope moreFactors []
  | factor : Continues scope factor [operand]
  | group : Continues scope operand [expression, .expect .rparen]

/-- What a step leads to: the goals that are left, the names, and the code added in each mode. -/
inductive Does (scope : Scope) : Goal → List Goal → Scope → (Bool → List Instruction) → Prop
  | continues {g goals} : Continues scope g goals → Does scope g goals scope fun _ => []
  | emit {i} : Does scope (.emit i) [] scope fun _ => [i]
  | constantEnd {name value scope'} :
      scope.declare ⟨name.spelling, true, true, some name.start⟩ = .ok scope' →
      Does scope (constantEnd name value) [] scope' fun _ => [.lit value]
  | variableEnd {name hasValue scope'} :
      scope.declare ⟨name.spelling, false, hasValue, some name.start⟩ = .ok scope' →
      Does scope (variableEnd name hasValue) [] scope'
        fun stores => if hasValue && stores then [.sto scope.size] else []
  | assignmentAgain {name target} : target.declaration.isInitialized = true →
      Does scope (assignmentEnd name target) [] scope fun _ => [.sto target.slot]
  | firstAssignment {name target scope'} : target.declaration.isInitialized = false →
      scope.markInitialized? name.spelling = some scope' →
      Does scope (assignmentEnd name target) [] scope'
        fun stores => if stores then [.sto target.slot] else []
  | negative : Does scope factor [operand, .emit (.operate .sub)] scope fun _ => [.lit 0]
  | name {name e} : scope.find? (Token.spelling name) = some e →
      e.declaration.isInitialized = true → Does scope operand [] scope fun _ => [.lod e.slot]
  | number {n} : Does scope operand [] scope fun _ => [.lit n]

end Goal

namespace PassM

open Goal

variable {α β : Type} {s t : Pass} {x : PassM α} {f : α → PassM β} {a : α}

/-! ### Operations without effects -/

/-- The same outcome in a mode, with other code so far. -/
def coded (stores : Bool) (code : List Instruction) :
    EStateM.Result Diagnostic Pass α → EStateM.Result Diagnostic Pass α
  | .ok a s => .ok a (s.coded stores code)
  | .error d s => .error d (s.coded stores code)

/-- Neither names nor code are changed, and code is not looked at. -/
structure Looks (x : PassM α) : Prop where
  scope : ∀ s a t, x s = .ok a t → t.scope = s.scope
  fails : ∀ s d t, x s = .error d t → t.scope = s.scope
  code : ∀ s stores code, x (s.coded stores code) = PassM.coded stores code (x s)

theorem Looks.bind (first : Looks x) (second : ∀ a, Looks (f a)) : Looks (x >>= f) := by
  constructor
  · intro s b u h
    obtain ⟨a, t, begun, ended⟩ := bind_eq_ok.mp h
    exact ((second a).scope t b u ended).trans (first.scope s a t begun)
  · intro s d u h
    rcases bind_eq_error.mp h with failed | ⟨a, t, begun, failed⟩
    · exact first.fails s d u failed
    · exact ((second a).fails t d u failed).trans (first.scope s a t begun)
  · intro s stores code
    have begun := first.code s stores code
    cases ran : x s with
    | ok a t =>
      rw [ran] at begun
      rw [bind_of_ok ran, bind_of_ok begun]
      exact (second a).code t stores code
    | error d t =>
      rw [ran] at begun
      rw [bind_of_error ran, bind_of_error begun]
      rfl

theorem Looks.same (looks : Looks x) (h : x s = .ok a t) :
    t.scope = s.scope ∧ t.storesFirst = s.storesFirst ∧ t.code = s.code := by
  have here := looks.code s s.storesFirst s.code.toList
  rw [s.coded_self, h] at here
  have state : t = t.coded s.storesFirst s.code.toList := by simpa [coded] using here
  refine ⟨looks.scope s a t h, ?_, ?_⟩
  · rw [state]
    rfl
  · rw [state]
    rfl

theorem Looks.same_of_error {d : Diagnostic} (looks : Looks x) (h : x s = .error d t) :
    t.scope = s.scope ∧ t.code = s.code := by
  have here := looks.code s s.storesFirst s.code.toList
  rw [s.coded_self, h] at here
  have state : t = t.coded s.storesFirst s.code.toList := by simpa [coded] using here
  refine ⟨looks.fails s d t h, ?_⟩
  rw [state]
  rfl

theorem looks_pure (a : α) : Looks (pure a) := by
  refine ⟨?_, fun _ _ _ h => (nomatch h), fun _ _ _ => rfl⟩
  intro s b t h
  rw [(pure_eq_ok.mp h).2]

theorem looks_refuse (t : Token) (cause : Diagnostic.Cause) :
    Looks (refuse t cause : PassM α) := by
  refine ⟨fun _ _ _ h => absurd h refuse_ne_ok, ?_, fun _ _ _ => rfl⟩
  intro s d u h
  cases h
  rfl

/-- A change of the place in the text is made in either mode. -/
theorem looks_modify {f : Pass → Pass} (scope : ∀ s, (f s).scope = s.scope)
    (code : ∀ s stores code, f (s.coded stores code) = (f s).coded stores code) :
    Looks (modify f) := by
  refine ⟨?_, fun _ _ _ h => (nomatch h), ?_⟩
  · intro s a t h
    rw [← modify_eq_ok.mp h, scope]
  · intro s stores is
    exact congrArg (EStateM.Result.ok ()) (code s stores is)

theorem looks_scan : Looks scan := by
  constructor
  · intro s t u h
    obtain ⟨_, _, rfl⟩ := scan_eq_ok h
    rfl
  · intro s d u h
    unfold scan at h
    split at h <;> cases h
    rfl
  · intro s stores code
    cases scanned : Token.scan s.limit s.cursor with
    | mk result next => cases result <;> simp [scan, coded, Pass.coded, scanned]

theorem looks_peek : Looks peek := by
  have holds (t : Token) : Looks (modify fun s => { s with lookahead := some t }) :=
    looks_modify (fun _ => rfl) fun _ _ _ => rfl
  have scans : Looks (do
      let t ← scan
      modify fun s => { s with lookahead := some t }
      return t) :=
    looks_scan.bind fun t => (holds t).bind fun _ => looks_pure t
  constructor
  · intro s t u h
    simp only [peek, get_bind] at h
    cases ahead : s.lookahead <;> rw [ahead] at h
    · exact scans.scope s t u h
    · exact (looks_pure _).scope s t u h
  · intro s d u h
    simp only [peek, get_bind] at h
    cases ahead : s.lookahead <;> rw [ahead] at h
    · exact scans.fails s d u h
    · exact (looks_pure _).fails s d u h
  · intro s stores code
    have same : (s.coded stores code).lookahead = s.lookahead := rfl
    simp only [peek, get_bind, same]
    cases s.lookahead
    · exact scans.code s stores code
    · rfl

theorem looks_drop : Looks drop := looks_modify (fun _ => rfl) fun _ _ _ => rfl

theorem looks_nextIf (k : Token.Kind) : Looks (nextIf k) := by
  apply looks_peek.bind
  intro t
  split
  · exact looks_drop.bind fun _ => looks_pure _
  · exact looks_pure none

theorem looks_expect (k : Token.Kind) : Looks (expect k) := by
  apply looks_peek.bind
  intro t
  split
  · exact looks_drop.bind fun _ => looks_pure _
  · exact looks_refuse t _

theorem looks_find? (name : String) : Looks (find? name) := by
  refine ⟨?_, fun _ _ _ h => (nomatch h), fun _ _ _ => rfl⟩
  intro s found t h
  cases h
  rfl

theorem looks_checkNew (t : Token) : Looks (checkNew t) := by
  apply (looks_find? _).bind
  intro found
  cases found with
  | some e => exact looks_refuse t _
  | none => exact looks_pure ()

theorem looks_resolve (t : Token) : Looks (resolve t) := by
  apply (looks_find? _).bind
  intro found
  cases found with
  | some e => exact looks_pure e
  | none => exact looks_refuse t _

theorem looks_assignable (name : Token) : Looks (assignable name) := by
  apply (looks_resolve name).bind
  intro e
  split
  · exact looks_refuse name _
  · exact looks_pure e

theorem looks_readable (name : Token) : Looks (readable name) := by
  apply (looks_resolve name).bind
  intro e
  split
  · exact looks_pure e
  · exact looks_refuse name _

theorem looks_constantValue : Looks constantValue := by
  apply (looks_nextIf .minus).bind
  intro minus
  split
  · exact (looks_expect .uint).bind fun _ => looks_pure _
  · exact (looks_nextIf .plus).bind fun _ => (looks_expect .uint).bind fun _ => looks_pure _

/-- A checked name is new. -/
theorem new_of_checkNew {name : Token} {u : Unit} (h : checkNew name s = .ok u t) :
    name.spelling ∉ s.scope.names := by
  obtain ⟨found, _, looked, h⟩ := bind_eq_ok.mp h
  cases looked
  cases search : s.scope.find? name.spelling with
  | none => exact Scope.find?_eq_none_iff.mp search
  | some e => simp [search] at h

theorem find?_of_resolve {name : Token} {e : Entry} (h : resolve name s = .ok e t) :
    s.scope.find? name.spelling = some e := by
  obtain ⟨found, _, looked, h⟩ := bind_eq_ok.mp h
  cases looked
  cases search : s.scope.find? name.spelling with
  | none => simp [search] at h
  | some e' =>
    rw [search] at h
    rw [(pure_eq_ok.mp h).1]

/-- What can be assigned is declared, and is no constant. -/
theorem find?_of_assignable {name : Token} {e : Entry} (h : assignable name s = .ok e t) :
    s.scope.find? name.spelling = some e ∧ e.declaration.isConstant = false := by
  obtain ⟨e', _, resolved, h⟩ := bind_eq_ok.mp h
  split at h
  · exact absurd h refuse_ne_ok
  · next assigned =>
    obtain ⟨rfl, _⟩ := pure_eq_ok.mp h
    exact ⟨find?_of_resolve resolved, by simpa using assigned⟩

/-- What can be read is declared, and has a value. -/
theorem find?_of_readable {name : Token} {e : Entry} (h : readable name s = .ok e t) :
    s.scope.find? name.spelling = some e ∧ e.declaration.isInitialized = true := by
  obtain ⟨e', _, resolved, h⟩ := bind_eq_ok.mp h
  split at h
  · next valued =>
    obtain ⟨rfl, _⟩ := pure_eq_ok.mp h
    exact ⟨find?_of_resolve resolved, valued⟩
  · exact absurd h refuse_ne_ok

/-! ### Operations with effects -/

/-- What is done from a state: what it gives, the names then, and the code that it adds in each
mode. A failure changes no names and adds no code. -/
def Acts (x : PassM α) (s : Pass) (does : α → Scope → (Bool → List Instruction) → Prop) : Prop :=
  match x s with
  | .ok a t => ∃ added, does a t.scope added ∧
      ∀ stores code, x (s.coded stores code) = .ok a (t.coded stores (code ++ added stores))
  | .error d t => t.scope = s.scope ∧
      ∀ stores code, x (s.coded stores code) = .error d (t.coded stores code)

variable {does : β → Scope → (Bool → List Instruction) → Prop}

/-- Something is done, and cannot fail. -/
def Ends (x : PassM β) (s : Pass) (does : β → Scope → (Bool → List Instruction) → Prop) : Prop :=
  ∃ b t added, x s = .ok b t ∧ does b t.scope added ∧
    ∀ stores code, x (s.coded stores code) = .ok b (t.coded stores (code ++ added stores))

theorem Ends.acts {x : PassM β} (ends : Ends x s does) : Acts x s does := by
  obtain ⟨b, t, added, ran, done, same⟩ := ends
  rw [Acts, ran]
  exact ⟨added, done, same⟩

theorem acts_of_error {d : Diagnostic} (ran : x s = .error d t) (scope : t.scope = s.scope)
    (begun : ∀ stores code, x (s.coded stores code) = .error d (t.coded stores code)) :
    Acts (x >>= f) s does := by
  rw [Acts, bind_of_error ran]
  exact ⟨scope, fun stores code => bind_of_error (begun stores code)⟩

/-- Where something adds no code, what comes behind it adds all the code. -/
theorem ends_of_ok (ran : x s = .ok a t)
    (begun : ∀ stores code, x (s.coded stores code) = .ok a (t.coded stores code))
    (after : Ends (f a) t does) : Ends (x >>= f) s does := by
  obtain ⟨b, u, added, ended, done, same⟩ := after
  refine ⟨b, u, added, (bind_of_ok ran).trans ended, done, ?_⟩
  intro stores code
  rw [bind_of_ok (begun stores code)]
  exact same stores code

theorem acts_of_ok (ran : x s = .ok a t) (scope : t.scope = s.scope)
    (begun : ∀ stores code, x (s.coded stores code) = .ok a (t.coded stores code))
    (after : Acts (f a) t does) : Acts (x >>= f) s does := by
  unfold Acts at after
  cases ended : f a t with
  | error d u =>
    rw [ended] at after
    obtain ⟨still, same⟩ := after
    rw [Acts, bind_of_ok ran, ended]
    refine ⟨still.trans scope, ?_⟩
    intro stores code
    rw [bind_of_ok (begun stores code)]
    exact same stores code
  | ok b u =>
    rw [ended] at after
    obtain ⟨added, done, same⟩ := after
    exact (ends_of_ok ran begun ⟨b, u, added, ended, done, same⟩).acts

theorem Looks.acts (looks : Looks x)
    (after : ∀ a t, x s = .ok a t → t.scope = s.scope → Acts (f a) t does) :
    Acts (x >>= f) s does := by
  have begun := looks.code s
  cases ran : x s with
  | error d t =>
    rw [ran] at begun
    exact acts_of_error ran (looks.fails s d t ran) begun
  | ok a t =>
    rw [ran] at begun
    have scope := looks.scope s a t ran
    exact acts_of_ok ran scope begun (after a t ran scope)

theorem ends_pure {b : β} (done : does b s.scope fun _ => []) : Ends (pure b) s does := by
  refine ⟨b, s, _, rfl, done, ?_⟩
  intro stores code
  rw [List.append_nil]
  rfl

theorem acts_refuse {name : Token} {cause : Diagnostic.Cause} :
    Acts (refuse name cause : PassM β) s does := ⟨rfl, fun _ _ => rfl⟩

theorem ends_emit {i : Instruction} {b : β} (done : does b s.scope fun _ => [i]) :
    Ends (do emit i; return b) s does := by
  refine ⟨b, { s with code := s.code.push i }, _, rfl, done, ?_⟩
  intro stores code
  change EStateM.Result.ok b { s with storesFirst := stores, code := code.toArray.push i } = _
  simp [Pass.coded]

theorem ends_storeFirst {slot : Nat} {b : β}
    (done : does b s.scope fun stores => if stores then [.sto slot] else []) :
    Ends (do storeFirst slot; return b) s does := by
  have ends (u : Pass) : (do storeFirst slot; return b : PassM β) u =
      .ok b (if u.storesFirst then { u with code := u.code.push (.sto slot) } else u) := rfl
  have scope : (if s.storesFirst then { s with code := s.code.push (.sto slot) } else s).scope =
      s.scope := by
    split <;> rfl
  refine ⟨b, _, fun stores => if stores then [.sto slot] else [], ends s, ?_, ?_⟩
  · rw [scope]
    exact done
  · intro stores code
    rw [ends]
    by_cases here : s.storesFirst = true <;> by_cases there : stores = true <;>
      simp [Pass.coded, here, there]

/-- A name is declared in the slot behind all others. -/
theorem acts_declare {name : Token} {isConstant isInitialized : Bool} {f : Nat → PassM β}
    (after : ∀ t, s.scope.declare ⟨name.spelling, isConstant, isInitialized, some name.start⟩ =
      .ok t.scope → Ends (f s.scope.size) t does) :
    Acts (declare name isConstant isInitialized >>= f) s does := by
  cases result : s.scope.declare ⟨name.spelling, isConstant, isInitialized, some name.start⟩ with
  | error e =>
    have refused (stores : Bool) (code : List Instruction) :
        declare name isConstant isInitialized (s.coded stores code) =
          refuse name (.redeclared name.spelling e.declaration.location) (s.coded stores code) := by
      simp only [declare, get_bind, Pass.coded, result]
    exact acts_of_error (refused s.storesFirst s.code.toList) rfl refused
  | ok scope =>
    have declared (stores : Bool) (code : List Instruction) :
        declare name isConstant isInitialized (s.coded stores code) =
          .ok s.scope.size ({ s with
            scope, log := s.log.push (.declared isConstant name.spelling s.scope.size) }.coded
              stores code) := by
      simp only [declare, get_bind, Pass.coded, result]
      rfl
    exact (ends_of_ok (declared s.storesFirst s.code.toList) declared (after _ result)).acts

theorem acts_markInitialized {name : Token} {f : Unit → PassM β}
    (after : ∀ t, s.scope.markInitialized? name.spelling = some t.scope → Ends (f ()) t does) :
    Acts (markInitialized name >>= f) s does := by
  cases result : s.scope.markInitialized? name.spelling with
  | none =>
    have refused (stores : Bool) (code : List Instruction) :
        markInitialized name (s.coded stores code) =
          refuse name (.undeclared name.spelling) (s.coded stores code) := by
      simp only [markInitialized, get_bind, Pass.coded, result]
    exact acts_of_error (refused s.storesFirst s.code.toList) rfl refused
  | some scope =>
    have marked (stores : Bool) (code : List Instruction) :
        markInitialized name (s.coded stores code) =
          .ok () ({ s with scope }.coded stores code) := by
      simp only [markInitialized, get_bind, Pass.coded, result]
      rfl
    exact (ends_of_ok (marked s.storesFirst s.code.toList) marked (after _ result)).acts

theorem Acts.imp {x : PassM β} {does' : β → Scope → (Bool → List Instruction) → Prop}
    (acts : Acts x s does) (every : ∀ b scope added, does b scope added → does' b scope added) :
    Acts x s does' := by
  unfold Acts at acts ⊢
  split at acts
  · obtain ⟨added, done, same⟩ := acts
    exact ⟨added, every _ _ _ done, same⟩
  · exact acts

theorem Acts.map {x : PassM β} {f : β → α} {does' : α → Scope → (Bool → List Instruction) → Prop}
    (acts : Acts x s does)
    (every : ∀ b scope added, does b scope added → does' (f b) scope added) :
    Acts (x >>= fun b => pure (f b)) s does' := by
  unfold Acts at acts
  cases ran : x s with
  | error d t =>
    rw [ran] at acts
    exact acts_of_error ran acts.1 acts.2
  | ok b t =>
    rw [ran] at acts
    obtain ⟨added, done, same⟩ := acts
    rw [Acts, bind_of_ok ran]
    refine ⟨added, every b _ _ done, ?_⟩
    intro stores code
    rw [bind_of_ok (same stores code)]
    rfl

/-! ### Steps -/

/-- A statement begins, and changes nothing so far. -/
def Starts (s : Pass) (goals : List Goal) (scope : Scope) (added : Bool → List Instruction) :
    Prop :=
  Begins s.scope goals ∧ scope = s.scope ∧ added = fun _ => []

theorem acts_assignment (s : Pass) : Acts assignment s (Starts s) := by
  apply (looks_expect .ident).acts
  intro name t _ same
  apply (looks_assignable name).acts
  intro e u resolved still
  obtain ⟨there, assigned⟩ := find?_of_assignable resolved
  rw [same] at there still
  exact (ends_pure ⟨.assignment there assigned, still, rfl⟩).acts

theorem acts_output (s : Pass) : Acts output s (Starts s) := by
  apply (looks_expect .printWord).acts
  intro start t _ same
  exact (ends_pure ⟨.output, same, rfl⟩).acts

theorem acts_statement (s : Pass) : Acts statement s (Starts s) := by
  apply looks_peek.acts
  intro t u _ same
  unfold Starts
  rw [← same]
  split
  · exact acts_assignment u
  · exact acts_output u
  · apply looks_drop.acts
    intro _ v _ still
    exact (ends_pure ⟨.empty, still, rfl⟩).acts
  · exact looks_drop.acts fun _ _ _ _ => acts_refuse

/-- A step that changes neither names nor code continues its goal. -/
theorem acts_continue {g : Goal} {goals : List Goal} (same : t.scope = s.scope)
    (continues : Continues s.scope g goals) :
    Acts (pure goals) t (Does s.scope g) := by
  apply (ends_pure _).acts
  rw [same]
  exact .continues continues

theorem acts_begin {g : Goal} {x : PassM (List Goal)} (acts : Acts x s (Starts s))
    (continues : ∀ goals, Begins s.scope goals → Continues s.scope g goals) :
    Acts x s (Does s.scope g) := by
  apply acts.imp
  intro goals scope added starts
  obtain ⟨begins, rfl, rfl⟩ := starts
  exact .continues (continues goals begins)

theorem Adds.acts {g part : Goal} {operator? : Token.Kind → Option Operation}
    (adds : Adds g part operator?) (more : ∀ o, Continues s.scope g [part, .emit (.operate o), g])
    (done : Continues s.scope g []) : Acts (step g) s (Does s.scope g) := by
  rw [adds]
  apply looks_peek.acts
  intro t u _ same
  cases operator? t.kind with
  | some o =>
    apply looks_drop.acts
    intro _ v _ still
    exact acts_continue (still.trans same) (more o)
  | none => exact acts_continue same done

theorem Repeats.acts {g first : Goal} {k : Token.Kind} (repeats : Repeats g first k)
    (more : Continues s.scope g [first, g]) (done : Continues s.scope g []) :
    Acts (step g) s (Does s.scope g) := by
  rw [repeats]
  apply (looks_nextIf k).acts
  intro found t _ same
  split
  · exact acts_continue same more
  · exact acts_continue same done

/-- The name of a declaration is found, and is new. -/
theorem acts_introduced {g : Goal} {goals : Token → List Goal}
    (continues : ∀ name, Token.spelling name ∉ s.scope.names → Continues s.scope g (goals name)) :
    Acts (do let name ← expect .ident; checkNew name; return goals name) s (Does s.scope g) := by
  apply (looks_expect .ident).acts
  intro name t _ same
  apply (looks_checkNew name).acts
  intro _ u isNew still
  have new := new_of_checkNew isNew
  rw [same] at new still
  exact acts_continue still (continues name new)

theorem acts_operand (s : Pass) : Acts (step .operand) s (Does s.scope .operand) := by
  apply looks_peek.acts
  intro t u _ same
  rw [← same]
  split
  · apply looks_drop.acts
    intro _ v _ still
    apply (looks_readable t).acts
    intro e w resolved again
    obtain ⟨there, valued⟩ := find?_of_readable resolved
    rw [still] at there again
    apply (ends_emit _).acts
    rw [again]
    exact .name there valued
  · apply looks_drop.acts
    intro _ v _ still
    apply (ends_emit _).acts
    rw [still]
    exact .number
  · apply looks_drop.acts
    intro _ v _ still
    exact acts_continue still .group
  · exact acts_refuse

/-- Each step does what its goal asks for. -/
theorem step_acts (g : Goal) (s : Pass) : Acts (step g) s (Does s.scope g) := by
  cases g with
  | expect k =>
    apply (looks_expect k).acts
    intro t u _ same
    exact acts_continue same .expect
  | emit i => exact (ends_emit .emit).acts
  | consts => exact repeats_consts.acts .anotherConstant .noConstant
  | vars => exact repeats_vars.acts .anotherVariable .noVariable
  | constantName => exact acts_introduced fun _ new => .constantName new
  | variableName => exact acts_introduced fun _ new => .variableName new
  | constantValue name =>
    apply looks_constantValue.acts
    intro value t _ same
    exact acts_continue same .constantValue
  | constantEnd name value =>
    apply (looks_expect .semicolon).acts
    intro stop t _ same
    rw [← same]
    apply acts_declare
    intro u declared
    exact ends_emit (.constantEnd declared)
  | variableValue name =>
    apply (looks_nextIf .equals).acts
    intro equals t _ same
    split
    · exact acts_continue same .initialized
    · exact acts_continue same .plain
  | variableEnd name hasValue =>
    apply (looks_expect .semicolon).acts
    intro stop t _ same
    rw [← same]
    apply acts_declare
    intro u declared
    have ended := Does.variableEnd declared
    cases hasValue with
    | true => exact ends_storeFirst ended
    | false => exact ends_pure ended
  | statements =>
    apply looks_peek.acts
    intro t u _ same
    split
    · rw [← same]
      apply (acts_statement u).map
      intro goals scope added starts
      obtain ⟨begins, rfl, rfl⟩ := starts
      exact .continues (.anotherStatement begins)
    · exact acts_continue same .noStatement
  | statement => exact acts_begin (acts_statement s) fun _ => .statement
  | assignment => exact acts_begin (acts_assignment s) fun _ => .assignment
  | assignmentEnd name e =>
    apply (looks_expect .semicolon).acts
    intro stop t _ same
    rw [← same]
    split
    · next valued => exact (ends_emit (.assignmentAgain valued)).acts
    · next unset =>
      apply acts_markInitialized
      intro u marked
      exact ends_storeFirst (.firstAssignment (by simpa using unset) marked)
  | output => exact acts_begin (acts_output s) fun _ => .output
  | expression => exact acts_continue rfl .expression
  | item => exact acts_continue rfl .item
  | moreItems => exact adds_items.acts (fun _ => .anotherItem) .noItem
  | moreFactors => exact adds_factors.acts (fun _ => .anotherFactor) .noFactor
  | factor =>
    apply (looks_nextIf .minus).acts
    intro minus t _ same
    rw [← same]
    split
    · exact (ends_emit .negative).acts
    · apply (looks_nextIf .plus).acts
      intro plus u _ still
      exact acts_continue still .factor
  | operand => exact acts_operand s

variable {g : Goal} {goals : List Goal} {s' : Pass} {d : Diagnostic}

theorem does_of_step (h : step g s = .ok goals s') :
    ∃ added, Does s.scope g goals s'.scope added ∧ s'.storesFirst = s.storesFirst ∧
      s'.code.toList = s.code.toList ++ added s.storesFirst ∧
      ∀ stores code,
        step g (s.coded stores code) = .ok goals (s'.coded stores (code ++ added stores)) := by
  have acts := step_acts g s
  rw [Acts, h] at acts
  obtain ⟨added, does, same⟩ := acts
  have here := same s.storesFirst s.code.toList
  rw [s.coded_self, h] at here
  have state : s' = s'.coded s.storesFirst (s.code.toList ++ added s.storesFirst) := by
    simpa using here
  refine ⟨added, does, ?_, ?_, same⟩
  · rw [state]
    rfl
  · rw [state]
    rfl

/-- A step that fails adds no code, and fails in the same way in both modes. -/
theorem coded_of_step_error (h : step g s = .error d s') :
    s'.code = s.code ∧
      ∀ stores code, step g (s.coded stores code) = .error d (s'.coded stores code) := by
  have acts := step_acts g s
  rw [Acts, h] at acts
  obtain ⟨_, same⟩ := acts
  have here := same s.storesFirst s.code.toList
  rw [s.coded_self, h] at here
  have state : s' = s'.coded s.storesFirst s.code.toList := by simpa using here
  refine ⟨?_, same⟩
  rw [state]
  rfl

/-- A step that fails changes no names. -/
theorem scope_of_step_error (h : step g s = .error d s') : s'.scope = s.scope := by
  have acts := step_acts g s
  rw [Acts, h] at acts
  exact acts.1

/-- A run takes the same course in both modes and behind any code, and the code that it adds depends
on the mode only. -/
theorem run_coded (goals : List Goal) (s : Pass) :
    ∃ added : Bool → List Instruction, ∀ stores code,
      run goals (s.coded stores code) = coded stores (code ++ added stores) (run goals s) := by
  fun_induction run goals s with
  | case1 s =>
    refine ⟨fun _ => [], fun stores code => ?_⟩
    rw [run_nil, List.append_nil]
    rfl
  | case2 s g rest goals t taken inductionHypothesis =>
    obtain ⟨now, _, _, _, first⟩ := does_of_step taken
    obtain ⟨later, others⟩ := inductionHypothesis
    refine ⟨fun stores => now stores ++ later stores, fun stores code => ?_⟩
    rw [run_cons, first, ← List.append_assoc]
    exact others stores _
  | case3 s g rest d t failed =>
    obtain ⟨_, same⟩ := coded_of_step_error failed
    refine ⟨fun _ => [], fun stores code => ?_⟩
    rw [run_cons, same, List.append_nil]
    rfl

/-- A run that ends well adds the same code behind any other code. -/
theorem run_behind (h : run goals s = .ok () s') :
    ∃ is, s'.code.toList = s.code.toList ++ is ∧
      ∀ code, run goals { s with code } = .ok () { s' with code := code ++ is } := by
  obtain ⟨added, same⟩ := run_coded goals s
  simp only [h, coded] at same
  have here := same s.storesFirst s.code.toList
  rw [s.coded_self, h] at here
  have state : s' = s'.coded s.storesFirst (s.code.toList ++ added s.storesFirst) := by
    simpa using here
  have mode : s'.storesFirst = s.storesFirst := by
    rw [state]
    rfl
  refine ⟨added s.storesFirst, ?_, fun code => ?_⟩
  · rw [state]
    rfl
  · have whole : code ++ added s.storesFirst = (code.toList ++ added s.storesFirst).toArray :=
      Array.ext' (by simp)
    have other := same s.storesFirst code.toList
    rw [whole]
    simpa [Pass.coded, mode] using other

end PassM
end OnePass
