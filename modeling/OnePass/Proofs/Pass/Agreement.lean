import OnePass.Compilation
import OnePass.Proofs.Pass.Stream
import OnePass.Proofs.Token.Lexing

/-!
Two passes over two texts. As far as the tokens of the texts agree, the passes do the same: they
know the same names, emit the same code, and fail alike, each with the line of its own text. So
what a pass does depends on nothing behind the last token it has scanned.
-/

namespace OnePass

/-- A diagnostic with the line of a text. -/
def Cursor.shows (c : Cursor) (cause : Diagnostic.Cause) (l : Location) : Diagnostic :=
  ⟨cause, some l, some (c.lineText l.line)⟩

namespace Token

variable {limit : Int} {c : Cursor}

theorem source_scan (limit : Int) (c : Cursor) : (scan limit c).2.source = c.source := by
  obtain ⟨n, passed⟩ := exists_advanceBy_of_scan limit c
  rw [passed, Cursor.source_advanceBy]

theorem refusal_advanceBy (c : Cursor) (n : Nat) (cause : Diagnostic.Cause) :
    refusal (c.advanceBy n) cause = c.shows cause (c.advanceBy n).here := by
  simp only [refusal, Cursor.shows, Cursor.lineText, Cursor.source_advanceBy]

theorem phase_of_fault {x : Lexeme} {cause : Diagnostic.Cause}
    (fault : x.fault? limit = some cause) : cause.phase = .lexical := by
  cases x with
  | word cs => cases fault
  | numeral ds =>
    simp only [Lexeme.fault?] at fault
    repeat' split at fault
    all_goals cases fault <;> rfl
  | mark ch =>
    simp only [Lexeme.fault?] at fault
    split at fault <;> cases fault
    rfl

/-- A refusal has a lexical cause, and shows the line of its place. -/
theorem exists_shows_of_scan {d : Diagnostic} {next : Cursor}
    (h : scan limit c = (.error d, next)) :
    ∃ cause l, d = c.shows cause l ∧ cause.phase = .lexical := by
  obtain ⟨gap, x, _, _, _, _, _, same, _⟩ := exists_lexeme_of_scan h (by simp [Except.toOption])
  obtain ⟨cause, fault, rfl⟩ := ofLexeme_eq_error.mp same.symm
  exact ⟨cause, _, refusal_advanceBy c gap.length cause, phase_of_fault fault⟩

end Token

namespace Cursor

variable {limit limit' : Int} {c c' d d' : Cursor} {ts : List Token} {n : Nat}

theorem shows_congr (same : c.source = c'.source) (cause : Diagnostic.Cause) (l : Location) :
    c.shows cause l = c'.shows cause l := by
  simp only [shows, lineText, same]

/-- What has been scanned is passed over. -/
theorem Scans.exists_advanceBy (scans : c.Scans limit ts c') : ∃ n, c' = c.advanceBy n := by
  induction ts generalizing c with
  | nil => exact ⟨0, scans.symm⟩
  | cons t ts inductionHypothesis =>
    obtain ⟨next, scanned, others⟩ := scans
    obtain ⟨m, passed⟩ := Token.exists_advanceBy_of_scan limit c
    simp only [scanned] at passed
    obtain ⟨n, further⟩ := inductionHypothesis others
    exact ⟨m + n, by rw [further, passed, advanceBy_add]⟩

/-- The next scans from two cursors give the same tokens, or fail for the same cause at the same
place. -/
def Agree (limit limit' : Int) : Nat → Cursor → Cursor → Prop
  | 0, _, _ => True
  | n + 1, c, c' =>
    (∃ t next next', Token.scan limit c = (.ok t, next) ∧ Token.scan limit' c' = (.ok t, next') ∧
      Agree limit limit' n next next') ∨
    ∃ cause l next next', Token.scan limit c = (.error (c.shows cause l), next) ∧
      Token.scan limit' c' = (.error (c'.shows cause l), next')

/-- Cursors that give the same tokens agree as far as those behind them do. -/
theorem agree_of_scans (first : c.Scans limit ts d) (second : c'.Scans limit' ts d')
    (behind : Agree limit limit' n d d') : Agree limit limit' (ts.length + n) c c' := by
  induction ts generalizing c c' with
  | nil =>
    cases first
    cases second
    simpa using behind
  | cons t ts inductionHypothesis =>
    obtain ⟨next, scans, first⟩ := first
    obtain ⟨next', scans', second⟩ := second
    rw [List.length_cons, Nat.add_right_comm]
    exact .inl ⟨t, next, next', scans, scans', inductionHypothesis first second⟩

end Cursor

namespace Pass

/-- The same pass, reading another text. -/
def reading (s : Pass) (cursor : Cursor) (limit : Int) : Pass := { s with cursor, limit }

/-- The pass has gone on in its text. -/
def Grows (s t : Pass) : Prop :=
  t.limit = s.limit ∧ t.cursor.source = s.cursor.source ∧ s.scanned ≤ t.scanned

theorem Grows.refl (s : Pass) : s.Grows s := ⟨rfl, rfl, Nat.le_refl _⟩

theorem Grows.trans {s t u : Pass} (first : s.Grows t) (second : t.Grows u) : s.Grows u :=
  ⟨second.1.trans first.1, second.2.1.trans first.2.1, Nat.le_trans first.2.2 second.2.2⟩

end Pass

/-- A lexical cause takes one scan more, which gives no token. -/
def Diagnostic.Cause.scans (cause : Diagnostic.Cause) : Nat :=
  if cause.phase = .lexical then 1 else 0

namespace PassM

variable {α β : Type} {s t : Pass} {x y : PassM α} {f : α → PassM β}

/-- Of what is done from a state, a pass over another text does the same, unless more tokens are
scanned than some number. -/
def Follows (limit' : Int) (c' : Cursor) (bound : Nat) (s : Pass) :
    EStateM.Result Diagnostic Pass α → EStateM.Result Diagnostic Pass α → Prop
  | .ok a t, r => s.Grows t ∧ (t.scanned ≤ bound → ∃ e, r = .ok a (t.reading e limit') ∧
      e.source = c'.source ∧ Cursor.Agree s.limit limit' (bound - t.scanned) t.cursor e)
  | .error d t, r => s.Grows t ∧ (t.scanned + d.cause.scans ≤ bound → ∃ cause l e,
      d = s.cursor.shows cause l ∧ r = .error (c'.shows cause l) (t.reading e limit'))

/-- From a state, a pass over another text does the same as far as the texts agree. -/
def TracksAt (x : PassM α) (s : Pass) : Prop :=
  ∀ limit' c' bound, Cursor.Agree s.limit limit' (bound - s.scanned) s.cursor c' →
    Follows limit' c' bound s (x s) (x (s.reading c' limit'))

def Tracks (x : PassM α) : Prop := ∀ s, TracksAt x s

theorem TracksAt.congr (same : ∀ c limit, x (s.reading c limit) = y (s.reading c limit))
    (h : TracksAt y s) : TracksAt x s := by
  intro limit' c' bound agree
  have here : x s = y s := same s.cursor s.limit
  rw [here, same]
  exact h limit' c' bound agree

/-- Whatever does not look at the text is done alike. -/
theorem tracksAt_of_ok {a : α} (ok : ∀ c limit, x (s.reading c limit) = .ok a (t.reading c limit))
    (scanned : t.scanned = s.scanned) : TracksAt x s := by
  intro limit' c' bound agree
  have here : x s = .ok a (t.reading s.cursor s.limit) := ok s.cursor s.limit
  rw [here, ok]
  refine ⟨⟨rfl, rfl, Nat.le_of_eq scanned.symm⟩, ?_⟩
  intro _
  refine ⟨c', rfl, rfl, ?_⟩
  rw [← scanned] at agree
  exact agree

/-- What follows a state follows the states before it. -/
theorem Follows.before {limit' : Int} {c' e : Cursor} {bound : Nat}
    {r r' : EStateM.Result Diagnostic Pass α} (grows : s.Grows t) (source : e.source = c'.source)
    (h : Follows limit' e bound t r r') : Follows limit' c' bound s r r' := by
  cases r with
  | ok a u =>
    refine ⟨grows.trans h.1, ?_⟩
    intro within
    rw [← source, ← grows.1]
    exact h.2 within
  | error d u =>
    refine ⟨grows.trans h.1, ?_⟩
    intro within
    obtain ⟨cause, l, e', shown, failed⟩ := h.2 within
    rw [Cursor.shows_congr grows.2.1] at shown
    rw [Cursor.shows_congr source] at failed
    exact ⟨cause, l, e', shown, failed⟩

/-- Nothing has to be the same once too many tokens have been scanned. -/
theorem Follows.beyond {limit' : Int} {c' e : Cursor} {bound : Nat}
    {r r' r'' : EStateM.Result Diagnostic Pass α} (grows : s.Grows t) (many : bound < t.scanned)
    (h : Follows limit' e bound t r r'') : Follows limit' c' bound s r r' := by
  cases r with
  | ok a u =>
    refine ⟨grows.trans h.1, ?_⟩
    have more := h.1.2.2
    omega
  | error d u =>
    refine ⟨grows.trans h.1, ?_⟩
    have more := h.1.2.2
    omega

theorem TracksAt.bind (first : TracksAt x s)
    (second : ∀ a t, x s = .ok a t → TracksAt (f a) t) : TracksAt (x >>= f) s := by
  intro limit' c' bound agree
  have begun := first limit' c' bound agree
  cases ran : x s with
  | error d t =>
    rw [ran] at begun
    rw [bind_of_error ran]
    refine ⟨begun.1, ?_⟩
    intro within
    obtain ⟨cause, l, e, shown, other⟩ := begun.2 within
    exact ⟨cause, l, e, shown, bind_of_error other⟩
  | ok a t =>
    rw [ran] at begun
    rw [bind_of_ok ran]
    obtain ⟨grows, other⟩ := begun
    by_cases within : t.scanned ≤ bound
    · obtain ⟨e, other, source, agree⟩ := other within
      rw [bind_of_ok other]
      rw [← grows.1] at agree
      exact (second a t ran limit' e bound agree).before grows source
    · have nothing : bound - t.scanned = 0 := by omega
      have after := second a t ran limit' c' bound (by rw [nothing]; trivial)
      exact after.beyond grows (by omega)

theorem Tracks.bind (first : Tracks x) (second : ∀ a, Tracks (f a)) : Tracks (x >>= f) :=
  fun s => (first s).bind fun a t _ => second a t

/-! ### The parts of a pass -/

theorem tracks_pure (a : α) : Tracks (pure a) := fun s =>
  tracksAt_of_ok (t := s) (fun _ _ => rfl) rfl

theorem tracks_refuse (t : Token) (cause : Diagnostic.Cause) :
    Tracks (refuse t cause : PassM α) := by
  intro s limit' c' bound agree
  refine ⟨Pass.Grows.refl s, ?_⟩
  intro _
  exact ⟨cause, t.start, c', rfl, rfl⟩

theorem tracks_scan : Tracks scan := by
  intro s limit' c' bound agree
  have source := Token.source_scan s.limit s.cursor
  have source' := Token.source_scan limit' c'
  cases scanned : Token.scan s.limit s.cursor with
  | mk result next =>
    rw [scanned] at source
    cases result with
    | ok t =>
      simp only [scan, scanned]
      refine ⟨⟨rfl, source, Nat.le_succ _⟩, ?_⟩
      intro within
      change s.scanned + 1 ≤ bound at within
      obtain ⟨n, left⟩ : ∃ n, bound - s.scanned = n + 1 := ⟨bound - (s.scanned + 1), by omega⟩
      have rest : bound - (s.scanned + 1) = n := by omega
      rw [left, Cursor.Agree, scanned] at agree
      rcases agree with ⟨_, _, next', ⟨⟩, same, behind⟩ | ⟨_, _, _, _, ⟨⟩, _⟩
      rw [same] at source'
      refine ⟨next', ?_, source', ?_⟩
      · simp only [Pass.reading, same]
      · rwa [rest]
    | error d =>
      simp only [scan, scanned]
      refine ⟨⟨rfl, source, Nat.le_refl _⟩, ?_⟩
      intro within
      obtain ⟨cause, l, shown, lexical⟩ := Token.exists_shows_of_scan scanned
      subst shown
      have one : (s.cursor.shows cause l).cause.scans = 1 := if_pos lexical
      rw [one] at within
      change s.scanned + 1 ≤ bound at within
      obtain ⟨n, left⟩ : ∃ n, bound - s.scanned = n + 1 := ⟨bound - (s.scanned + 1), by omega⟩
      rw [left, Cursor.Agree, scanned] at agree
      rcases agree with ⟨_, _, _, ⟨⟩, _⟩ | ⟨cause', l', _, next', shown, same⟩
      obtain ⟨rfl, rfl, _⟩ : cause = cause' ∧ l = l' ∧ _ := by
        simpa [Cursor.shows] using (Prod.mk.inj shown).1
      refine ⟨cause, l, next', rfl, ?_⟩
      simp only [Pass.reading, same]
      rfl

/-- A change that does not look at the text is made alike. -/
theorem tracks_modify {f : Pass → Pass}
    (same : ∀ s c limit, f (s.reading c limit) = (f s).reading c limit)
    (scanned : ∀ s, (f s).scanned = s.scanned) : Tracks (modify f) := by
  intro s
  refine tracksAt_of_ok (a := ()) (t := f s) ?_ (scanned s)
  intro c limit
  rw [← same]
  rfl

theorem tracks_peek : Tracks peek := by
  intro s
  cases ahead : s.lookahead with
  | some t =>
    refine tracksAt_of_ok (a := t) (t := s) ?_ rfl
    intro c limit
    simp only [peek, get_bind, Pass.reading, ahead]
    rfl
  | none =>
    have holds (t : Token) : Tracks (modify fun s => { s with lookahead := some t }) :=
      tracks_modify (fun _ _ _ => rfl) fun _ => rfl
    have scans : Tracks (do
        let t ← scan
        modify fun s => { s with lookahead := some t }
        return t) :=
      tracks_scan.bind fun t => (holds t).bind fun _ => tracks_pure t
    refine (scans s).congr ?_
    intro c limit
    simp only [peek, get_bind, Pass.reading, ahead]

theorem tracks_drop : Tracks drop := tracks_modify (fun _ _ _ => rfl) fun _ => rfl

theorem tracks_emit (i : Instruction) : Tracks (emit i) :=
  tracks_modify (fun _ _ _ => rfl) fun _ => rfl

theorem tracks_storeFirst (slot : Nat) : Tracks (storeFirst slot) := by
  apply tracks_modify
  · intro s c limit
    by_cases stores : s.storesFirst = true <;> simp [Pass.reading, stores]
  · intro s
    by_cases stores : s.storesFirst = true <;> simp [stores]

theorem tracks_find? (name : String) : Tracks (find? name) := fun s =>
  tracksAt_of_ok (a := s.scope.find? name) (t := s) (fun _ _ => rfl) rfl

theorem tracks_nextIf (k : Token.Kind) : Tracks (nextIf k) := by
  apply tracks_peek.bind
  intro t
  split
  · exact tracks_drop.bind fun _ => tracks_pure _
  · exact tracks_pure none

theorem tracks_expect (k : Token.Kind) : Tracks (expect k) := by
  apply tracks_peek.bind
  intro t
  split
  · exact tracks_drop.bind fun _ => tracks_pure _
  · exact tracks_refuse t _

theorem tracks_checkNew (t : Token) : Tracks (checkNew t) := by
  apply (tracks_find? _).bind
  intro found
  cases found with
  | some e => exact tracks_refuse t _
  | none => exact tracks_pure ()

theorem tracks_resolve (t : Token) : Tracks (resolve t) := by
  apply (tracks_find? _).bind
  intro found
  cases found with
  | some e => exact tracks_pure e
  | none => exact tracks_refuse t _

theorem tracks_declare (t : Token) (isConstant isInitialized : Bool) :
    Tracks (declare t isConstant isInitialized) := by
  intro s
  cases result : s.scope.declare ⟨t.spelling, isConstant, isInitialized, some t.start⟩ with
  | error e =>
    refine (tracks_refuse t (.redeclared t.spelling e.declaration.location) s).congr ?_
    intro c limit
    simp only [declare, get_bind, Pass.reading, result]
  | ok scope =>
    refine tracksAt_of_ok (a := s.scope.size) (t := { s with
      scope, log := s.log.push (.declared isConstant t.spelling s.scope.size) }) ?_ rfl
    intro c limit
    simp only [declare, get_bind, Pass.reading, result]
    rfl

theorem tracks_markInitialized (t : Token) : Tracks (markInitialized t) := by
  intro s
  cases result : s.scope.markInitialized? t.spelling with
  | none =>
    refine (tracks_refuse t (.undeclared t.spelling) s).congr ?_
    intro c limit
    simp only [markInitialized, get_bind, Pass.reading, result]
  | some scope =>
    refine tracksAt_of_ok (a := ()) (t := { s with scope }) ?_ rfl
    intro c limit
    simp only [markInitialized, get_bind, Pass.reading, result]
    rfl

theorem tracks_assignable (name : Token) : Tracks (assignable name) := by
  apply (tracks_resolve name).bind
  intro e
  split
  · exact tracks_refuse name _
  · exact tracks_pure e

theorem tracks_readable (name : Token) : Tracks (readable name) := by
  apply (tracks_resolve name).bind
  intro e
  split
  · exact tracks_pure e
  · exact tracks_refuse name _

theorem tracks_constantValue : Tracks constantValue := by
  apply (tracks_nextIf .minus).bind
  intro minus
  split
  · exact (tracks_expect .uint).bind fun _ => tracks_pure _
  · apply (tracks_nextIf .plus).bind
    intro _
    exact (tracks_expect .uint).bind fun _ => tracks_pure _

theorem tracks_assignment : Tracks assignment :=
  (tracks_expect .ident).bind fun name =>
    (tracks_assignable name).bind fun _ => tracks_pure _

theorem tracks_output : Tracks output :=
  (tracks_expect .printWord).bind fun _ => tracks_pure _

theorem tracks_statement : Tracks statement := by
  apply tracks_peek.bind
  intro t
  split
  · exact tracks_assignment
  · exact tracks_output
  · exact tracks_drop.bind fun _ => tracks_pure _
  · exact tracks_drop.bind fun _ => tracks_refuse t _

open Goal

theorem Adds.tracks {g part : Goal} {operator? : Token.Kind → Option Operation}
    (adds : Adds g part operator?) : Tracks (step g) := by
  rw [adds]
  apply tracks_peek.bind
  intro t
  split
  · exact tracks_drop.bind fun _ => tracks_pure _
  · exact tracks_pure []

theorem Repeats.tracks {g first : Goal} {k : Token.Kind} (repeats : Repeats g first k) :
    Tracks (step g) := by
  rw [repeats]
  apply (tracks_nextIf k).bind
  intro found
  split
  · exact tracks_pure _
  · exact tracks_pure _

theorem tracks_step (g : Goal) : Tracks (step g) := by
  cases g with
  | expect k => exact (tracks_expect k).bind fun _ => tracks_pure _
  | emit i => exact (tracks_emit i).bind fun _ => tracks_pure _
  | consts => exact repeats_consts.tracks
  | vars => exact repeats_vars.tracks
  | constantName | variableName =>
    exact (tracks_expect .ident).bind fun name =>
      (tracks_checkNew name).bind fun _ => tracks_pure _
  | constantValue name => exact tracks_constantValue.bind fun _ => tracks_pure _
  | constantEnd name value =>
    exact (tracks_expect .semicolon).bind fun _ =>
      (tracks_declare name true true).bind fun _ => (tracks_emit _).bind fun _ => tracks_pure _
  | variableValue name =>
    apply (tracks_nextIf .equals).bind
    intro found
    split
    · exact tracks_pure _
    · exact tracks_pure _
  | variableEnd name hasValue =>
    apply (tracks_expect .semicolon).bind
    intro _
    apply (tracks_declare name false hasValue).bind
    intro slot
    split
    · exact (tracks_storeFirst slot).bind fun _ => tracks_pure _
    · exact tracks_pure _
  | statements =>
    apply tracks_peek.bind
    intro t
    split
    · exact tracks_statement.bind fun _ => tracks_pure _
    · exact tracks_pure _
  | statement => exact tracks_statement
  | assignment => exact tracks_assignment
  | assignmentEnd name e =>
    apply (tracks_expect .semicolon).bind
    intro _
    split
    · exact (tracks_emit _).bind fun _ => tracks_pure _
    · exact (tracks_markInitialized name).bind fun _ =>
        (tracks_storeFirst _).bind fun _ => tracks_pure _
  | output => exact tracks_output
  | expression | item => exact tracks_pure _
  | moreItems => exact adds_items.tracks
  | moreFactors => exact adds_factors.tracks
  | factor =>
    apply (tracks_nextIf .minus).bind
    intro minus
    split
    · exact (tracks_emit _).bind fun _ => tracks_pure _
    · exact (tracks_nextIf .plus).bind fun _ => tracks_pure _
  | operand =>
    apply tracks_peek.bind
    intro t
    split
    · exact tracks_drop.bind fun _ => (tracks_readable t).bind fun _ =>
        (tracks_emit _).bind fun _ => tracks_pure _
    · exact tracks_drop.bind fun _ => (tracks_emit _).bind fun _ => tracks_pure _
    · exact tracks_drop.bind fun _ => tracks_pure _
    · exact tracks_refuse t _

theorem run_cons_eq_bind (g : Goal) (rest : List Goal) :
    run (g :: rest) = step g >>= fun goals => run (goals ++ rest) := by
  funext s
  rw [run_cons]
  cases taken : step g s with
  | ok goals t => exact (bind_of_ok (f := fun goals => run (goals ++ rest)) taken).symm
  | error d t => exact (bind_of_error (f := fun goals => run (goals ++ rest)) taken).symm

/-- A run is done alike on texts that agree, step by step. -/
theorem tracks_run (goals : List Goal) : Tracks (run goals) := by
  intro s
  fun_induction run goals s with
  | case1 s => exact (tracks_pure () s).congr fun _ _ => run_nil _
  | case2 s g rest goals t taken inductionHypothesis =>
    rw [run_cons_eq_bind]
    apply (tracks_step g s).bind
    intro goals' t' taken'
    rw [taken] at taken'
    cases taken'
    exact inductionHypothesis
  | case3 s g rest d t failed =>
    rw [run_cons_eq_bind]
    apply (tracks_step g s).bind
    intro goals t' taken
    rw [failed] at taken
    cases taken

end PassM

namespace Options

variable {o : Options} {file source source' : String} {limit' : Int} {d : Diagnostic} {s : Pass}

/-- What a pass runs into, it runs into at one of its goals. -/
theorem run_of_runPass_error (h : o.runPass file source = .error d s) :
    PassM.run Goal.program (o.pass file source) = .error d s := by
  rcases PassM.bind_eq_error.mp h with failed | ⟨_, t, _, logged⟩
  · exact failed
  · cases logged

/-- A pass fails alike on a text with the same tokens up to the failure. -/
theorem runPass_error_of_agree (h : o.runPass file source = .error d s)
    (agree : Cursor.Agree o.limit limit' (s.scanned + d.cause.scans) (.start file source)
      (.start file source')) :
    ∃ cause l e, d = (Cursor.start file source).shows cause l ∧
      { o with limit := limit' }.runPass file source' =
        .error ((Cursor.start file source').shows cause l) (s.reading e limit') := by
  have follows := PassM.tracks_run Goal.program (o.pass file source) limit' (.start file source')
    (s.scanned + d.cause.scans) agree
  rw [run_of_runPass_error h] at follows
  obtain ⟨cause, l, e, shown, failed⟩ := follows.2 (Nat.le_refl _)
  exact ⟨cause, l, e, shown, PassM.bind_of_error failed⟩

end Options
end OnePass
