import OnePass.Pass.Action
import OnePass.Proofs.Pass.Lookahead
import OnePass.Proofs.Pass.Semicolons

/-!
How often a pass scans. Each scan takes characters or reaches the end of the input, and behind the
end nothing is scanned, since no goal but the last one of a program takes the end. So whatever is
done from whatever state, the scans are no more than the characters that are left, and one.
-/

namespace OnePass

namespace Token

variable {limit : Int} {c next : Cursor} {d : Diagnostic}

theorem rest_scan_le (limit : Int) (c : Cursor) :
    (scan limit c).2.rest.length ≤ c.rest.length := by
  rcases scan_progress limit c with ⟨here, next, ended, nothing⟩ | shorter
  · rw [ended, nothing]
    exact Nat.zero_le _
  · exact Nat.le_of_lt shorter

theorem rest_of_refused (refused : scan limit c = (.error d, next)) :
    next.rest.length < c.rest.length := by
  rcases scan_progress limit c with ⟨here, last, ended, _⟩ | shorter
  · rw [refused] at ended
    cases ended
  · rwa [refused] at shorter

theorem rest_scanEach_le (limits : List Int) (c : Cursor) :
    (scanEach limits c).2.rest.length ≤ c.rest.length := by
  induction limits generalizing c with
  | nil => exact Nat.le_refl _
  | cons limit limits inductionHypothesis =>
    rw [scanEach_cons]
    exact Nat.le_trans (inductionHypothesis _) (rest_scan_le limit c)

end Token

namespace Pass

variable {s s' s'' : Pass} {m n : Nat} {t : Token}

/-- Between two states so many scans have been made, refusals among them. -/
def Pulls (s : Pass) (n : Nat) (s' : Pass) : Prop :=
  s'.limit = s.limit ∧ ∃ results,
    Token.scanEach (List.replicate n s.limit) s.cursor = (results, s'.cursor) ∧
    s'.scanned = s.scanned + (results.filterMap Except.toOption).length

/-- How many scans are left, at most. Behind the end of the input there are none. -/
def reserve (s : Pass) : Nat :=
  s.cursor.rest.length + if s.lookahead.any (·.kind = .eof) then 0 else 1

theorem reserve_le (s : Pass) : s.reserve ≤ s.cursor.rest.length + 1 := by
  unfold reserve
  split <;> omega

theorem Pulls.trans (first : s.Pulls m s') (second : s'.Pulls n s'') : s.Pulls (m + n) s'' := by
  obtain ⟨limit, results, scans, scanned⟩ := first
  obtain ⟨limit', results', scans', scanned'⟩ := second
  rw [limit] at scans'
  refine ⟨limit'.trans limit, results ++ results', ?_, ?_⟩
  · rw [Token.scanEach_replicate_add, scans, scans']
  · rw [scanned', scanned, List.filterMap_append, List.length_append, Nat.add_assoc]

/-- No more scans lead to the same state: a token would have been counted, and a refusal passes
characters over. -/
theorem Pulls.not_lt (first : s.Pulls m s') (second : s.Pulls n s') : ¬m < n := by
  intro more
  obtain ⟨_, results, scans, scanned⟩ := first
  obtain ⟨_, results', scans', scanned'⟩ := second
  obtain ⟨k, rfl⟩ := Nat.exists_eq_add_of_lt more
  rw [Nat.add_assoc, Token.scanEach_replicate_add, scans, List.replicate_succ,
    Token.scanEach_cons] at scans'
  obtain ⟨rfl, again⟩ := Prod.mk.inj scans'
  cases result : Token.scan s.limit s'.cursor with
  | mk outcome next =>
    rw [result] at scanned' again
    cases outcome with
    | ok t =>
      simp only [List.filterMap_append, List.length_append, List.filterMap_cons, Except.toOption,
        List.length_cons] at scanned'
      omega
    | error d =>
      have shorter := Token.rest_of_refused result
      have further := Token.rest_scanEach_le (List.replicate k s.limit) next
      rw [again] at further
      omega

theorem Pulls.unique (first : s.Pulls m s') (second : s.Pulls n s') : m = n :=
  Nat.le_antisymm (Nat.le_of_not_lt (second.not_lt first)) (Nat.le_of_not_lt (first.not_lt second))

/-- Names, code and the log may change, and nothing else. -/
structure Idles (s s' : Pass) : Prop where
  cursor : s'.cursor = s.cursor
  limit : s'.limit = s.limit
  lookahead : s'.lookahead = s.lookahead
  scanned : s'.scanned = s.scanned

theorem Idles.pulls (idles : s.Idles s') : s.Pulls 0 s' :=
  ⟨idles.limit, [], congrArg (Prod.mk []) idles.cursor.symm, idles.scanned⟩

theorem Idles.reserve (idles : s.Idles s') : s'.reserve = s.reserve := by
  rw [Pass.reserve, Pass.reserve, idles.cursor, idles.lookahead]

end Pass

namespace PassM

open Goal

variable {α β : Type} {s s' : Pass} {x : PassM α} {f : α → PassM β} {t : Token} {k : Token.Kind}

/-- From a state no more is scanned than there is in reserve, and what succeeds leaves the rest of
it. -/
def Thrifty (x : PassM α) (s : Pass) : Prop :=
  match x s with
  | .ok _ s' => ∃ n, s.Pulls n s' ∧ n + s'.reserve ≤ s.reserve
  | .error _ s' => ∃ n, s.Pulls n s' ∧ n ≤ s.reserve

/-! ### Operations -/

theorem Thrifty.bind (first : Thrifty x s) (second : ∀ a u, x s = .ok a u → Thrifty (f a) u) :
    Thrifty (x >>= f) s := by
  cases begun : x s with
  | error d u =>
    rw [Thrifty, begun] at first
    rwa [Thrifty, bind_of_error begun]
  | ok a u =>
    have later := second a u begun
    rw [Thrifty, begun] at first
    obtain ⟨m, pulls, spent⟩ := first
    rw [Thrifty, bind_of_ok begun]
    unfold Thrifty at later
    cases ended : f a u with
    | ok b v =>
      rw [ended] at later
      obtain ⟨n, more, left⟩ := later
      exact ⟨m + n, pulls.trans more, by omega⟩
    | error d v =>
      rw [ended] at later
      obtain ⟨n, more, left⟩ := later
      exact ⟨m + n, pulls.trans more, by omega⟩

/-- What touches no tokens scans none. -/
theorem thrifty_of_idle (ok : ∀ a s', x s = .ok a s' → s.Idles s')
    (error : ∀ d s', x s = .error d s' → s.Idles s') : Thrifty x s := by
  unfold Thrifty
  cases ran : x s with
  | ok a u =>
    have idles := ok a u ran
    exact ⟨0, idles.pulls, by rw [Nat.zero_add, idles.reserve]⟩
  | error d u => exact ⟨0, (error d u ran).pulls, Nat.zero_le _⟩

theorem idles_refl (s : Pass) : s.Idles s := ⟨rfl, rfl, rfl, rfl⟩

theorem thrifty_pure (a : α) (s : Pass) : Thrifty (pure a) s :=
  thrifty_of_idle (fun _ _ h => (pure_eq_ok.mp h).2 ▸ idles_refl s) fun _ _ h => nomatch h

theorem thrifty_get (s : Pass) : Thrifty (get : PassM Pass) s :=
  thrifty_of_idle (fun _ _ h => (get_eq_ok.mp h).2 ▸ idles_refl s) fun _ _ h => nomatch h

theorem thrifty_refuse (t : Token) (cause : Diagnostic.Cause) (s : Pass) :
    Thrifty (refuse t cause : PassM α) s := by
  refine thrifty_of_idle (fun _ _ h => absurd h refuse_ne_ok) ?_
  intro d s' h
  cases h
  exact idles_refl s

theorem thrifty_modify {f : Pass → Pass} (idles : s.Idles (f s)) :
    Thrifty (modify f : PassM Unit) s :=
  thrifty_of_idle (fun _ _ h => modify_eq_ok.mp h ▸ idles) fun _ _ h => nomatch h

theorem thrifty_set {u : Pass} (idles : s.Idles u) : Thrifty (set u : PassM Unit) s :=
  thrifty_modify (f := fun _ => u) idles

theorem thrifty_emit (i : Instruction) (s : Pass) : Thrifty (emit i) s :=
  thrifty_modify ⟨rfl, rfl, rfl, rfl⟩

theorem thrifty_storeFirst (slot : Nat) (s : Pass) : Thrifty (storeFirst slot) s := by
  apply thrifty_modify
  split <;> exact ⟨rfl, rfl, rfl, rfl⟩

theorem thrifty_find? (name : String) (s : Pass) : Thrifty (find? name) s :=
  (thrifty_get s).bind fun _ _ _ => thrifty_pure ..

theorem thrifty_checkNew (t : Token) (s : Pass) : Thrifty (checkNew t) s := by
  refine (thrifty_find? ..).bind fun found u _ => ?_
  cases found with
  | some e => exact thrifty_refuse ..
  | none => exact thrifty_pure ..

theorem thrifty_resolve (t : Token) (s : Pass) : Thrifty (resolve t) s := by
  refine (thrifty_find? ..).bind fun found u _ => ?_
  cases found with
  | some e => exact thrifty_pure ..
  | none => exact thrifty_refuse ..

theorem thrifty_assignable (t : Token) (s : Pass) : Thrifty (assignable t) s := by
  refine (thrifty_resolve ..).bind fun e u _ => ?_
  split
  · exact thrifty_refuse ..
  · exact thrifty_pure ..

theorem thrifty_readable (t : Token) (s : Pass) : Thrifty (readable t) s := by
  refine (thrifty_resolve ..).bind fun e u _ => ?_
  split
  · exact thrifty_pure ..
  · exact thrifty_refuse ..

theorem thrifty_declare (t : Token) (isConstant isInitialized : Bool) (s : Pass) :
    Thrifty (declare t isConstant isInitialized) s := by
  refine (thrifty_get s).bind fun u v got => ?_
  obtain ⟨rfl, rfl⟩ := get_eq_ok.mp got
  split
  · exact thrifty_refuse ..
  · refine Thrifty.bind (thrifty_set ?_) fun _ _ _ => thrifty_pure ..
    exact ⟨rfl, rfl, rfl, rfl⟩

theorem thrifty_markInitialized (t : Token) (s : Pass) : Thrifty (markInitialized t) s := by
  refine (thrifty_get s).bind fun u v got => ?_
  obtain ⟨rfl, rfl⟩ := get_eq_ok.mp got
  split
  · exact thrifty_set ⟨rfl, rfl, rfl, rfl⟩
  · exact thrifty_refuse ..

/-! ### Tokens -/

theorem pulls_scan {result : Except Diagnostic Token} {cursor : Cursor}
    (scans : Token.scan s.limit s.cursor = (result, cursor)) (same : s'.limit = s.limit)
    (behind : s'.cursor = cursor)
    (scanned : s'.scanned = s.scanned + ([result].filterMap Except.toOption).length) :
    s.Pulls 1 s' := by
  refine ⟨same, [result], ?_, scanned⟩
  rw [List.replicate_one, Token.scanEach_cons, scans, behind]
  rfl

/-- A token is scanned if none is ahead. The end of the input leaves nothing in reserve. -/
theorem thrifty_peek (s : Pass) : Thrifty peek s := by
  unfold Thrifty
  cases ran : peek s with
  | ok t u =>
    rcases peek_eq_ok ran with ⟨_, rfl⟩ | ⟨ahead, cursor, scans, rfl⟩
    · exact ⟨0, (idles_refl u).pulls, by omega⟩
    · refine ⟨1, pulls_scan scans rfl rfl rfl, ?_⟩
      simp only [Pass.reserve, Pass.moved, ahead, Option.any_some, Option.any_none]
      rcases Token.scan_progress s.limit s.cursor with ⟨_, _, ended, nothing⟩ | shorter
      · rw [scans] at ended
        cases ended
        simp [nothing]
      · rw [scans] at shorter
        change cursor.rest.length < s.cursor.rest.length at shorter
        simp only [decide_eq_true_eq, Bool.false_eq_true, if_false]
        split <;> omega
  | error d u =>
    obtain ⟨ahead, cursor, log, refused, rfl⟩ := peek_eq_error ran
    refine ⟨1, pulls_scan refused rfl rfl rfl, ?_⟩
    simp [Pass.reserve, ahead]

/-- Any token but the end of the input can be taken. -/
theorem thrifty_drop (held : s.lookahead = some t) (more : t.kind ≠ .eof) : Thrifty drop s := by
  refine ⟨0, ⟨rfl, [], rfl, rfl⟩, ?_⟩
  simp [Pass.reserve, held, more]

theorem thrifty_nextIf (more : k ≠ .eof) (s : Pass) : Thrifty (nextIf k) s := by
  refine (thrifty_peek s).bind fun t u peeked => ?_
  split
  next kind =>
    exact (thrifty_drop (peek_ok peeked).2 (kind ▸ more)).bind fun _ _ _ => thrifty_pure ..
  next => exact thrifty_pure ..

theorem thrifty_expect (more : k ≠ .eof) (s : Pass) : Thrifty (expect k) s := by
  refine (thrifty_peek s).bind fun t u peeked => ?_
  split
  next kind =>
    exact (thrifty_drop (peek_ok peeked).2 (kind ▸ more)).bind fun _ _ _ => thrifty_pure ..
  next => exact thrifty_refuse ..

/-! ### Goals -/

theorem thrifty_constantValue (s : Pass) : Thrifty constantValue s := by
  refine (thrifty_nextIf (by decide) s).bind fun _ u _ => ?_
  split
  · exact (thrifty_expect (by decide) u).bind fun _ _ _ => thrifty_pure ..
  · exact (thrifty_nextIf (by decide) u).bind fun _ v _ =>
      (thrifty_expect (by decide) v).bind fun _ _ _ => thrifty_pure ..

theorem thrifty_assignment (s : Pass) : Thrifty assignment s :=
  (thrifty_expect (by decide) s).bind fun _ _ _ =>
    (thrifty_assignable ..).bind fun _ _ _ => thrifty_pure ..

theorem thrifty_output (s : Pass) : Thrifty output s :=
  (thrifty_expect (by decide) s).bind fun _ _ _ => thrifty_pure ..

/-- A token that begins no statement is taken before it is refused, even the end of the input. -/
theorem thrifty_statement (s : Pass) : Thrifty statement s := by
  refine (thrifty_peek s).bind fun t u peeked => ?_
  cases kind : t.kind
  case ident => exact thrifty_assignment u
  case printWord => exact thrifty_output u
  case semicolon =>
    exact (thrifty_drop (peek_ok peeked).2 (by simp [kind])).bind fun _ _ _ => thrifty_pure ..
  all_goals exact ⟨0, ⟨rfl, [], rfl, rfl⟩, Nat.zero_le _⟩

theorem Adds.thrifty {g part : Goal} {operator? : Token.Kind → Option Operation}
    (adds : Adds g part operator?) (more : operator? .eof = none) (s : Pass) :
    Thrifty (step g) s := by
  rw [adds]
  refine (thrifty_peek s).bind fun t u peeked => ?_
  cases operator : operator? t.kind with
  | none => exact thrifty_pure ..
  | some o =>
    have other : t.kind ≠ .eof := by
      intro kind
      rw [kind, more] at operator
      cases operator
    exact (thrifty_drop (peek_ok peeked).2 other).bind fun _ _ _ => thrifty_pure ..

theorem Repeats.thrifty {g first : Goal} (repeats : Repeats g first k) (more : k ≠ .eof)
    (s : Pass) : Thrifty (step g) s := by
  rw [repeats]
  refine (thrifty_nextIf more s).bind fun found u _ => ?_
  split <;> exact thrifty_pure ..

theorem thrifty_step {g : Goal} (other : g ≠ .expect .eof) (s : Pass) : Thrifty (step g) s := by
  cases g
  case expect k =>
    have more : k ≠ .eof := fun kind => other (congrArg Goal.expect kind)
    exact (thrifty_expect more s).bind fun _ _ _ => thrifty_pure ..
  case emit i => exact (thrifty_emit i s).bind fun _ _ _ => thrifty_pure ..
  case consts => exact repeats_consts.thrifty (by decide) s
  case vars => exact repeats_vars.thrifty (by decide) s
  case constantName | variableName =>
    exact (thrifty_expect (by decide) s).bind fun _ _ _ =>
      (thrifty_checkNew ..).bind fun _ _ _ => thrifty_pure ..
  case constantValue name =>
    exact (thrifty_constantValue s).bind fun _ _ _ => thrifty_pure ..
  case constantEnd name value =>
    exact (thrifty_expect (by decide) s).bind fun _ _ _ => (thrifty_declare ..).bind fun _ _ _ =>
      (thrifty_emit ..).bind fun _ _ _ => thrifty_pure ..
  case variableValue name =>
    refine (thrifty_nextIf (by decide) s).bind fun _ u _ => ?_
    split <;> exact thrifty_pure ..
  case variableEnd name hasValue =>
    refine (thrifty_expect (by decide) s).bind fun _ _ _ =>
      (thrifty_declare ..).bind fun _ _ _ => ?_
    split
    · exact (thrifty_storeFirst ..).bind fun _ _ _ => thrifty_pure ..
    · exact thrifty_pure ..
  case statements =>
    refine (thrifty_peek s).bind fun t u _ => ?_
    split
    · exact (thrifty_statement u).bind fun _ _ _ => thrifty_pure ..
    · exact thrifty_pure ..
  case statement => exact thrifty_statement s
  case assignment => exact thrifty_assignment s
  case assignmentEnd name target =>
    refine (thrifty_expect (by decide) s).bind fun _ _ _ => ?_
    split
    · exact (thrifty_emit ..).bind fun _ _ _ => thrifty_pure ..
    · exact (thrifty_markInitialized ..).bind fun _ _ _ =>
        (thrifty_storeFirst ..).bind fun _ _ _ => thrifty_pure ..
  case output => exact thrifty_output s
  case expression | item => exact thrifty_pure ..
  case moreItems => exact adds_items.thrifty rfl s
  case moreFactors => exact adds_factors.thrifty rfl s
  case factor =>
    refine (thrifty_nextIf (by decide) s).bind fun _ u _ => ?_
    split
    · exact (thrifty_emit ..).bind fun _ _ _ => thrifty_pure ..
    · exact (thrifty_nextIf (by decide) u).bind fun _ _ _ => thrifty_pure ..
  case operand =>
    refine (thrifty_peek s).bind fun t u peeked => ?_
    have held := (peek_ok peeked).2
    cases kind : t.kind
    case ident =>
      exact (thrifty_drop held (by simp [kind])).bind fun _ _ _ =>
        (thrifty_readable ..).bind fun _ _ _ => (thrifty_emit ..).bind fun _ _ _ => thrifty_pure ..
    case uint =>
      exact (thrifty_drop held (by simp [kind])).bind fun _ _ _ =>
        (thrifty_emit ..).bind fun _ _ _ => thrifty_pure ..
    case lparen =>
      exact (thrifty_drop held (by simp [kind])).bind fun _ _ _ => thrifty_pure ..
    all_goals exact thrifty_refuse ..

/-! ### Runs -/

/-- The end of the input is asked for only at the end of a program. -/
theorem not_mem_of_step {g : Goal} {goals : List Goal} (h : step g s = .ok goals s') :
    .expect .eof ∉ goals := by
  obtain ⟨added, does, _⟩ := does_of_step h
  generalize s'.scope = scope' at does
  cases does with
  | continues continues =>
    cases continues with
    | anotherStatement begins | statement begins | assignment begins | output begins =>
      cases begins <;> simp
    | _ => simp
  | _ => simp

theorem thrifty_run {goals : List Goal} (others : .expect .eof ∉ goals) (s : Pass) :
    Thrifty (run goals) s := by
  induction goals, s using run.induct with
  | case1 s =>
    have none : run [] = (pure () : PassM Unit) := funext run_nil
    rw [none]
    exact thrifty_pure () s
  | case2 s g rest goals u taken inductionHypothesis =>
    rw [List.mem_cons, not_or] at others
    rw [run_cons_eq_bind]
    refine (thrifty_step (Ne.symm others.1) s).bind fun goals' u' again => ?_
    rw [taken] at again
    cases again
    apply inductionHypothesis
    rw [List.mem_append, not_or]
    exact ⟨not_mem_of_step taken, others.2⟩
  | case3 s g rest d u failed =>
    rw [List.mem_cons, not_or] at others
    rw [run_cons_eq_bind]
    refine (thrifty_step (Ne.symm others.1) s).bind fun goals' u' again => ?_
    rw [failed] at again
    cases again

/-- From a state no more is scanned than there is in reserve, whatever is left of it. -/
def Bounded (x : PassM α) (s : Pass) : Prop :=
  match x s with
  | .ok _ s' | .error _ s' => ∃ n, s.Pulls n s' ∧ n ≤ s.reserve

theorem Thrifty.bounded (thrifty : Thrifty x s) : Bounded x s := by
  unfold Thrifty at thrifty
  unfold Bounded
  cases ran : x s with
  | ok a u =>
    rw [ran] at thrifty
    obtain ⟨n, pulls, left⟩ := thrifty
    exact ⟨n, pulls, by omega⟩
  | error d u =>
    rw [ran] at thrifty
    exact thrifty

/-- What is left in reserve can be used up at last. -/
theorem Thrifty.bind_bounded (first : Thrifty x s)
    (second : ∀ a u, x s = .ok a u → Bounded (f a) u) : Bounded (x >>= f) s := by
  cases begun : x s with
  | error d u =>
    rw [Thrifty, begun] at first
    rwa [Bounded, bind_of_error begun]
  | ok a u =>
    have later := second a u begun
    rw [Thrifty, begun] at first
    obtain ⟨m, pulls, spent⟩ := first
    rw [Bounded, bind_of_ok begun]
    unfold Bounded at later
    cases ended : f a u with
    | ok b v | error d v =>
      rw [ended] at later
      obtain ⟨n, more, left⟩ := later
      exact ⟨m + n, pulls.trans more, by omega⟩

/-- What follows without touching tokens scans nothing. -/
theorem Bounded.bind_idle (first : Bounded x s)
    (second : ∀ a u, x s = .ok a u → ∃ b v, f a u = .ok b v ∧ u.Idles v) :
    Bounded (x >>= f) s := by
  cases begun : x s with
  | error d u =>
    rw [Bounded, begun] at first
    rwa [Bounded, bind_of_error begun]
  | ok a u =>
    obtain ⟨b, v, ended, idles⟩ := second a u begun
    rw [Bounded, begun] at first
    obtain ⟨n, pulls, left⟩ := first
    rw [Bounded, bind_of_ok begun, ended]
    exact ⟨n + 0, pulls.trans idles.pulls, left⟩

theorem Bounded.map {g : α → β} (bounded : Bounded x s) : Bounded (x >>= fun a => pure (g a)) s :=
  bounded.bind_idle fun a u _ => ⟨g a, u, rfl, idles_refl u⟩

theorem Bounded.discard (bounded : Bounded x s) : Bounded (discard x : PassM Unit) s := by
  change Bounded (EStateM.map (fun _ => ()) x) s
  unfold Bounded EStateM.map
  unfold Bounded at bounded
  cases ran : x s <;> rw [ran] at bounded <;> exact bounded

theorem bounded_next (s : Pass) : Bounded next s :=
  (thrifty_peek s).bind_bounded fun _ _ _ => ⟨0, ⟨rfl, [], rfl, rfl⟩, Nat.zero_le _⟩

theorem bounded_nextIf (k : Token.Kind) (s : Pass) : Bounded (nextIf k) s := by
  refine (thrifty_peek s).bind_bounded fun t u _ => ?_
  split <;> exact ⟨0, ⟨rfl, [], rfl, rfl⟩, Nat.zero_le _⟩

theorem bounded_expect (k : Token.Kind) (s : Pass) : Bounded (expect k) s := by
  refine (thrifty_peek s).bind_bounded fun t u _ => ?_
  split <;> exact ⟨0, ⟨rfl, [], rfl, rfl⟩, Nat.zero_le _⟩

theorem run_append_eq_bind (a b : List Goal) :
    run (a ++ b) = bind (m := PassM) (run a) fun _ => run b := by
  funext s
  rw [run_append]
  cases ran : run a s with
  | ok u t => exact (bind_of_ok (f := fun _ => run b) ran).symm
  | error d t => exact (bind_of_error (f := fun _ => run b) ran).symm

/-- A program is the only goal that ends with the end of the input. -/
theorem bounded_program (s : Pass) : Bounded (run Goal.program) s := by
  have split : Goal.program =
      (.expect .beginWord :: body ++ [.expect .endWord]) ++ [.expect .eof] := rfl
  rw [split, run_append_eq_bind]
  refine (thrifty_run (by decide) s).bind_bounded fun _ u _ => ?_
  rw [run_cons_eq_bind]
  refine Bounded.bind_idle (bounded_expect .eof u).map fun goals v taken => ?_
  obtain ⟨_, _, _, rfl, _⟩ := bind_eq_ok.mp taken
  exact ⟨(), v, run_nil v, idles_refl v⟩

theorem bounded_act (a : Action) (s : Pass) : Bounded (act a) s := by
  cases a with
  | peek => exact (thrifty_peek s).bounded.discard
  | next => exact (bounded_next s).discard
  | check k => exact (thrifty_peek s).bounded.map.discard
  | nextIf k => exact (bounded_nextIf k s).discard
  | expect k => exact (bounded_expect k s).discard
  | constantValue => exact (thrifty_constantValue s).bounded.discard
  | find part =>
    cases part with
    | program => exact bounded_program s
    | _ => exact (thrifty_run (by decide) s).bounded
  | pass =>
    refine (bounded_program s).bind_idle fun _ u _ => ?_
    exact ⟨(), _, rfl, ⟨rfl, rfl, rfl, rfl⟩⟩
  | add name isConstant isInitialized =>
    apply Thrifty.bounded
    refine (thrifty_get s).bind fun u v got => ?_
    obtain ⟨rfl, rfl⟩ := get_eq_ok.mp got
    split
    · exact thrifty_set ⟨rfl, rfl, rfl, rfl⟩
    · exact ⟨0, (idles_refl s).pulls, Nat.zero_le _⟩

end PassM
end OnePass
