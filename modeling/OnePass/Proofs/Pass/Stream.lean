import OnePass.Pass.Goal
import OnePass.Token.Sequence

/-!
The tokens that a pass has before it. Which tokens come depends on the cursor and the token ahead
only, so taking tokens never touches names or code. After the end of the input the end comes again
and again, so a pass is said to yield any beginning of what it would read.
-/

namespace OnePass

/-- Scanning from a cursor gives these tokens first. -/
def Cursor.Yields (limit : Int) : Cursor → List Token → Prop
  | _, [] => True
  | c, t :: ts => ∃ next, Token.scan limit c = (.ok t, next) ∧ next.Yields limit ts

/-- Scanning from a cursor gives these tokens and leads to another one. -/
def Cursor.Scans (limit : Int) : Cursor → List Token → Cursor → Prop
  | c, [], c' => c = c'
  | c, t :: ts, c' => ∃ next, Token.scan limit c = (.ok t, next) ∧ next.Scans limit ts c'

namespace Cursor

variable {limit : Int} {c c' c'' : Cursor} {ts us : List Token}

theorem Scans.append (first : c.Scans limit ts c') (second : c'.Scans limit us c'') :
    c.Scans limit (ts ++ us) c'' := by
  induction ts generalizing c with
  | nil =>
    cases first
    exact second
  | cons t ts inductionHypothesis =>
    obtain ⟨next, scans, rest⟩ := first
    exact ⟨next, scans, inductionHypothesis rest⟩

/-- The beginning of what has been scanned has been scanned. -/
theorem Scans.of_append (scans : c.Scans limit (ts ++ us) c'') :
    ∃ d, c.Scans limit ts d ∧ d.Scans limit us c'' := by
  induction ts generalizing c with
  | nil => exact ⟨c, rfl, scans⟩
  | cons t ts inductionHypothesis =>
    obtain ⟨next, first, rest⟩ := scans
    obtain ⟨d, before, behind⟩ := inductionHypothesis rest
    exact ⟨d, ⟨next, first, before⟩, behind⟩

theorem Scans.yields (first : c.Scans limit ts c') (after : c'.Yields limit us) :
    c.Yields limit (ts ++ us) := by
  induction ts generalizing c with
  | nil =>
    cases first
    exact after
  | cons t ts inductionHypothesis =>
    obtain ⟨next, scans, rest⟩ := first
    exact ⟨next, scans, inductionHypothesis rest⟩

theorem Yields.before (h : c.Yields limit (ts ++ us)) : c.Yields limit ts := by
  induction ts generalizing c with
  | nil => trivial
  | cons t ts inductionHypothesis =>
    obtain ⟨next, scans, rest⟩ := h
    exact ⟨next, scans, inductionHypothesis rest⟩

end Cursor

/-- The tokens that a pass takes next begin with these. -/
def Pass.Yields (s : Pass) (ts : List Token) : Prop :=
  match s.lookahead, ts with
  | none, ts => s.cursor.Yields s.limit ts
  | some _, [] => True
  | some held, t :: ts => held = t ∧ s.cursor.Yields s.limit ts

/-- The pass with another place in the text and nothing else changed. -/
def Pass.moved (s : Pass) (cursor : Cursor) (lookahead : Option Token) (scanned : Nat) : Pass :=
  { s with cursor, lookahead, scanned }

namespace Pass

variable {s : Pass} {t : Token} {ts : List Token}

@[simp]
theorem yields_nil (s : Pass) : s.Yields [] := by
  unfold Yields
  cases s.lookahead <;> trivial

@[simp]
theorem yields_lookahead (s : Pass) : s.Yields s.lookahead.toList := by
  unfold Yields
  cases s.lookahead with
  | none => trivial
  | some t => exact ⟨rfl, trivial⟩

theorem yields_of_lookahead_none (ahead : s.lookahead = none) :
    s.Yields ts ↔ s.cursor.Yields s.limit ts := by
  simp [Yields, ahead]

@[simp]
theorem moved_yields_iff {cursor : Cursor} {scanned : Nat} :
    (s.moved cursor none scanned).Yields ts ↔ cursor.Yields s.limit ts := Iff.rfl

@[simp]
theorem moved_some_yields_iff {cursor : Cursor} {scanned : Nat} :
    (s.moved cursor (some t) scanned).Yields (t :: ts) ↔ cursor.Yields s.limit ts := by
  simp [Yields, moved]

theorem yields_of_scans {c : Cursor} {us : List Token} (scanned : s.cursor.Scans s.limit ts c)
    (after : c.Yields s.limit us) : s.Yields (s.lookahead.toList ++ (ts ++ us)) := by
  unfold Yields
  cases s.lookahead with
  | none => exact scanned.yields after
  | some t => exact ⟨rfl, scanned.yields after⟩

theorem Yields.before {us : List Token} (h : s.Yields (ts ++ us)) : s.Yields ts := by
  cases ahead : s.lookahead with
  | none =>
    rw [yields_of_lookahead_none ahead] at h ⊢
    exact Cursor.Yields.before h
  | some t =>
    cases ts with
    | nil => exact s.yields_nil
    | cons u ts =>
      simp only [Yields, ahead, List.cons_append] at h ⊢
      exact ⟨h.1, Cursor.Yields.before h.2⟩

/-- Between two states exactly these tokens have been taken: what was ahead and what was scanned,
without what is ahead in the end. -/
def Leads (s : Pass) (ts : List Token) (s' : Pass) : Prop :=
  s'.limit = s.limit ∧ ∃ us, s.lookahead.toList ++ us = ts ++ s'.lookahead.toList ∧
    s.cursor.Scans s.limit us s'.cursor ∧ s'.scanned = s.scanned + us.length

/-- Nothing has been taken where only names and code have changed. -/
theorem Leads.of_same {s' : Pass} (cursor : s'.cursor = s.cursor) (limit : s'.limit = s.limit)
    (lookahead : s'.lookahead = s.lookahead) (scanned : s'.scanned = s.scanned) :
    s.Leads [] s' :=
  ⟨limit, [], by simp [lookahead], cursor.symm, scanned⟩

theorem Leads.refl (s : Pass) : s.Leads [] s := Leads.of_same rfl rfl rfl rfl

theorem Leads.trans {s' s'' : Pass} {us : List Token} (first : s.Leads ts s')
    (second : s'.Leads us s'') : s.Leads (ts ++ us) s'' := by
  obtain ⟨limit, vs, taken, scans, scanned⟩ := first
  obtain ⟨limit', ws, taken', scans', scanned'⟩ := second
  rw [limit] at scans'
  refine ⟨limit'.trans limit, vs ++ ws, ?_, scans.append scans', ?_⟩
  · rw [← List.append_assoc, taken, List.append_assoc, taken', List.append_assoc]
  · rw [scanned', scanned, List.length_append, Nat.add_assoc]

/-- What has been taken stood before what comes next. -/
theorem Leads.yields {s' : Pass} {us : List Token} (h : s.Leads ts s') (after : s'.Yields us) :
    s.Yields (ts ++ us) := by
  obtain ⟨limit, vs, taken, scans, _⟩ := h
  cases ahead : s'.lookahead with
  | none =>
    rw [yields_of_lookahead_none ahead, limit] at after
    have all := yields_of_scans scans after
    rw [← List.append_assoc, taken, ahead] at all
    simpa using all
  | some t =>
    rw [ahead] at taken
    cases us with
    | nil =>
      have all : s.Yields (s.lookahead.toList ++ (vs ++ [])) := yields_of_scans scans trivial
      rw [← List.append_assoc, taken, List.append_nil] at all
      simpa using all.before
    | cons u us =>
      simp only [Yields, ahead, limit] at after
      obtain ⟨same, after⟩ := after
      subst same
      have all := yields_of_scans scans after
      rw [← List.append_assoc, taken] at all
      simpa using all

/-- Where no token was ahead, the tokens taken and the one ahead have been scanned. -/
theorem Leads.scans {s' : Pass} (h : s.Leads ts s') (ahead : s.lookahead = none) :
    s.cursor.Scans s.limit (ts ++ s'.lookahead.toList) s'.cursor ∧
      s'.scanned = s.scanned + (ts ++ s'.lookahead.toList).length := by
  obtain ⟨_, us, taken, scans, scanned⟩ := h
  rw [ahead, Option.toList_none, List.nil_append] at taken
  subst taken
  exact ⟨scans, scanned⟩

end Pass

namespace PassM

variable {α β : Type} {s s' : Pass} {t : Token} {ts : List Token} {k : Token.Kind}

theorem bind_of_ok {x : PassM α} {f : α → PassM β} {a : α} (first : x s = .ok a s') :
    (x >>= f) s = f a s' := by
  simp [bind, EStateM.bind, first]

theorem bind_of_error {x : PassM α} {f : α → PassM β} {d : Diagnostic}
    (first : x s = .error d s') : (x >>= f) s = .error d s' := by
  simp [bind, EStateM.bind, first]

/-- What fails, fails in its first part or behind it. -/
theorem bind_eq_error {x : PassM α} {f : α → PassM β} {d : Diagnostic} :
    (x >>= f) s = .error d s' ↔ x s = .error d s' ∨ ∃ a t, x s = .ok a t ∧ f a t = .error d s' := by
  simp only [bind, EStateM.bind]
  cases x s <;> simp [and_assoc]

/-- What is only given another form does not fail by that. -/
theorem bind_pure_eq_error {x : PassM α} {f : α → β} {d : Diagnostic} :
    (x >>= fun a => pure (f a)) s = .error d s' ↔ x s = .error d s' := by
  rw [bind_eq_error]
  constructor
  · rintro (failed | ⟨_, _, _, none⟩)
    · exact failed
    · cases none
  · exact .inl

theorem get_bind (f : Pass → PassM β) (s : Pass) : (get >>= f) s = f s s := rfl

/-! ### Loops -/

/-- A goal adds parts to what stands before it as long as operators follow. -/
def Adds (g part : Goal) (operator? : Token.Kind → Option Operation) : Prop :=
  step g = do
    let t ← peek
    match operator? t.kind with
    | some o =>
      drop
      return [part, .emit (.operate o), g]
    | none => return []

/-- A goal looks for things as long as a word follows that begins one. -/
def Repeats (g first : Goal) (k : Token.Kind) : Prop :=
  step g = do if (← nextIf k).isSome then return [first, g] else return []

theorem adds_items : Adds .moreItems .item Token.Kind.additive? := rfl

theorem adds_factors : Adds .moreFactors .factor Token.Kind.multiplicative? := rfl

theorem repeats_consts : Repeats .consts .constantName .constWord := rfl

theorem repeats_vars : Repeats .vars .variableName .varWord := rfl

section

variable {g part first : Goal} {goals : List Goal} {operator? : Token.Kind → Option Operation}
  {d : Diagnostic}

/-- A loop over parts ends before a token that is no operator, or takes an operator and comes up
again behind another part. -/
theorem Adds.eq_ok (adds : Adds g part operator?) (h : step g s = .ok goals s') :
    ∃ t u, peek s = .ok t u ∧
      (operator? t.kind = none ∧ goals = [] ∧ s' = u ∨
        ∃ o, operator? t.kind = some o ∧ goals = [part, .emit (.operate o), g] ∧
          drop u = .ok () s') := by
  rw [adds] at h
  obtain ⟨t, u, peeked, h⟩ := bind_eq_ok.mp h
  refine ⟨t, u, peeked, ?_⟩
  cases operator : operator? t.kind with
  | none =>
    simp only [operator] at h
    obtain ⟨rfl, rfl⟩ := pure_eq_ok.mp h
    exact .inl ⟨rfl, rfl, rfl⟩
  | some o =>
    simp only [operator] at h
    obtain ⟨_, _, dropped, h⟩ := bind_eq_ok.mp h
    obtain ⟨rfl, rfl⟩ := pure_eq_ok.mp h
    exact .inr ⟨o, rfl, rfl, dropped⟩

theorem Adds.eq_error (adds : Adds g part operator?) (h : step g s = .error d s') :
    peek s = .error d s' := by
  rw [adds] at h
  rcases bind_eq_error.mp h with refused | ⟨t, u, _, h⟩
  · exact refused
  · cases operator : operator? t.kind <;> simp only [operator] at h <;> cases h

theorem Repeats.eq_ok (repeats : Repeats g first k) (h : step g s = .ok goals s') :
    nextIf k s = .ok none s' ∧ goals = [] ∨
      ∃ t, nextIf k s = .ok (some t) s' ∧ goals = [first, g] := by
  rw [repeats] at h
  obtain ⟨found, _, looked, h⟩ := bind_eq_ok.mp h
  cases found with
  | none =>
    obtain ⟨rfl, rfl⟩ := pure_eq_ok.mp h
    exact .inl ⟨looked, rfl⟩
  | some t =>
    obtain ⟨rfl, rfl⟩ := pure_eq_ok.mp h
    exact .inr ⟨t, looked, rfl⟩

theorem Repeats.eq_error (repeats : Repeats g first k) (h : step g s = .error d s') :
    nextIf k s = .error d s' := by
  rw [repeats] at h
  rcases bind_eq_error.mp h with refused | ⟨found, u, _, h⟩
  · exact refused
  · split at h <;> cases h

end

/-! ### Tokens that are there are taken -/

theorem peek_of_yields (before : s.Yields (t :: ts)) :
    ∃ cursor scanned, peek s = .ok t (s.moved cursor (some t) scanned) ∧
      cursor.Yields s.limit ts := by
  cases ahead : s.lookahead with
  | none =>
    obtain ⟨next, scans, after⟩ := (Pass.yields_of_lookahead_none ahead).mp before
    refine ⟨next, s.scanned + 1, ?_, after⟩
    have scanned : scan s = .ok t { s with cursor := next, scanned := s.scanned + 1 } := by
      simp [scan, scans]
    rw [peek, get_bind, ahead]
    exact bind_of_ok scanned
  | some held =>
    obtain ⟨same, after⟩ : held = t ∧ s.cursor.Yields s.limit ts := by
      simpa [Pass.Yields, ahead] using before
    subst same
    refine ⟨s.cursor, s.scanned, ?_, after⟩
    have unmoved : s.moved s.cursor (some held) s.scanned = s := by
      rw [Pass.moved, ← ahead]
    rw [peek, get_bind, ahead, unmoved]
    rfl

theorem drop_moved {cursor : Cursor} {scanned : Nat} :
    drop (s.moved cursor (some t) scanned) = .ok () (s.moved cursor none scanned) := rfl

theorem expect_of_yields (before : s.Yields (t :: ts)) (kind : t.kind = k) :
    ∃ cursor scanned, expect k s = .ok t (s.moved cursor none scanned) ∧
      cursor.Yields s.limit ts := by
  obtain ⟨cursor, scanned, peeked, after⟩ := peek_of_yields before
  refine ⟨cursor, scanned, ?_, after⟩
  rw [expect, bind_of_ok peeked, if_pos kind]
  rfl

theorem nextIf_of_yields (before : s.Yields (t :: ts)) (kind : t.kind = k) :
    ∃ cursor scanned, nextIf k s = .ok (some t) (s.moved cursor none scanned) ∧
      cursor.Yields s.limit ts := by
  obtain ⟨cursor, scanned, peeked, after⟩ := peek_of_yields before
  refine ⟨cursor, scanned, ?_, after⟩
  rw [nextIf, bind_of_ok peeked, if_pos kind]
  rfl

theorem nextIf_of_yields_ne (before : s.Yields (t :: ts)) (kind : t.kind ≠ k) :
    ∃ cursor scanned, nextIf k s = .ok none (s.moved cursor (some t) scanned) ∧
      cursor.Yields s.limit ts := by
  obtain ⟨cursor, scanned, peeked, after⟩ := peek_of_yields before
  refine ⟨cursor, scanned, ?_, after⟩
  rw [nextIf, bind_of_ok peeked, if_neg kind]
  rfl

/-! ### Tokens that are taken were there -/

theorem scan_eq_ok (h : scan s = .ok t s') :
    ∃ cursor, Token.scan s.limit s.cursor = (.ok t, cursor) ∧
      s' = s.moved cursor s.lookahead (s.scanned + 1) := by
  unfold scan at h
  split at h
  next cursor scans =>
    cases h
    exact ⟨cursor, scans, rfl⟩
  next => cases h

theorem scan_eq_error {d : Diagnostic} (h : scan s = .error d s') :
    ∃ cursor log, Token.scan s.limit s.cursor = (.error d, cursor) ∧
      s' = { s with cursor, log } := by
  unfold scan at h
  split at h
  next => cases h
  next cursor refused =>
    cases h
    exact ⟨cursor, _, refused, rfl⟩

/-- Only where no token is ahead, looking at the next one can fail. Then the text that is refused
has been passed over. -/
theorem peek_eq_error {d : Diagnostic} (h : peek s = .error d s') :
    s.lookahead = none ∧ ∃ cursor log, Token.scan s.limit s.cursor = (.error d, cursor) ∧
      s' = { s with cursor, log } := by
  simp only [peek, get_bind] at h
  cases ahead : s.lookahead with
  | some held =>
    rw [ahead] at h
    cases h
  | none =>
    rw [ahead] at h
    rcases bind_eq_error.mp h with failed | ⟨_, _, _, none⟩
    · obtain ⟨cursor, log, refused, same⟩ := scan_eq_error failed
      exact ⟨rfl, cursor, log, refused, by rw [same, ahead]⟩
    · cases none

/-- What is ahead was ahead before, or has been scanned just now. -/
theorem peek_eq_ok (h : peek s = .ok t s') :
    s.lookahead = some t ∧ s' = s ∨
      s.lookahead = none ∧ ∃ cursor, Token.scan s.limit s.cursor = (.ok t, cursor) ∧
        s' = s.moved cursor (some t) (s.scanned + 1) := by
  simp only [peek, get_bind] at h
  cases ahead : s.lookahead with
  | some held =>
    simp only [ahead, pure_eq_ok] at h
    obtain ⟨rfl, rfl⟩ := h
    exact .inl ⟨rfl, rfl⟩
  | none =>
    simp only [ahead, bind_eq_ok, modify_eq_ok, pure_eq_ok] at h
    obtain ⟨found, middle, scanned, _, _, rfl, rfl, rfl⟩ := h
    obtain ⟨cursor, scans, rfl⟩ := scan_eq_ok scanned
    exact .inr ⟨rfl, cursor, scans, rfl⟩

theorem peek_leads (h : peek s = .ok t s') : s'.lookahead = some t ∧ s.Leads [] s' := by
  rcases peek_eq_ok h with ⟨ahead, rfl⟩ | ⟨ahead, cursor, scans, rfl⟩
  · exact ⟨ahead, Pass.Leads.refl s'⟩
  · exact ⟨rfl, rfl, [t], by rw [ahead]; rfl, ⟨cursor, scans, rfl⟩, rfl⟩

theorem drop_leads {u : Unit} (ahead : s.lookahead = some t) (h : drop s = .ok u s') :
    s.Leads [t] s' := by
  simp only [drop, modify_eq_ok] at h
  subst h
  exact ⟨rfl, [], by simp [ahead], rfl, rfl⟩

theorem expect_leads (h : expect k s = .ok t s') : t.kind = k ∧ s.Leads [t] s' := by
  simp only [expect, bind_eq_ok] at h
  obtain ⟨found, middle, peeked, h⟩ := h
  obtain ⟨held, first⟩ := peek_leads peeked
  split at h
  next kind =>
    simp only [bind_eq_ok, pure_eq_ok] at h
    obtain ⟨_, _, dropped, rfl, rfl⟩ := h
    exact ⟨kind, first.trans (drop_leads held dropped)⟩
  next => exact absurd h refuse_ne_ok

theorem nextIf_leads {found : Option Token} (h : nextIf k s = .ok found s') :
    (∀ t ∈ found, t.kind = k) ∧ s.Leads found.toList s' := by
  simp only [nextIf, bind_eq_ok] at h
  obtain ⟨t, middle, peeked, h⟩ := h
  obtain ⟨held, first⟩ := peek_leads peeked
  split at h
  next kind =>
    simp only [bind_eq_ok, pure_eq_ok] at h
    obtain ⟨_, _, dropped, rfl, rfl⟩ := h
    exact ⟨by simp [kind], first.trans (drop_leads held dropped)⟩
  next =>
    obtain ⟨rfl, rfl⟩ := pure_eq_ok.1 h
    exact ⟨by simp, first⟩

/-! ### Names and code do not touch tokens -/

theorem emit_leads {i : Instruction} {u : Unit} (h : emit i s = .ok u s') : s.Leads [] s' := by
  simp only [emit, modify_eq_ok] at h
  subst h
  exact .of_same rfl rfl rfl rfl

theorem storeFirst_leads {slot : Nat} {u : Unit} (h : storeFirst slot s = .ok u s') :
    s.Leads [] s' := by
  simp only [storeFirst, modify_eq_ok] at h
  subst h
  split
  · exact .of_same rfl rfl rfl rfl
  · exact Pass.Leads.refl s

theorem markInitialized_leads {u : Unit} (h : markInitialized t s = .ok u s') :
    s.Leads [] s' := by
  simp only [markInitialized, get_bind] at h
  cases result : s.scope.markInitialized? t.spelling with
  | none => simp [result] at h
  | some scope =>
    simp only [result] at h
    cases h
    exact .of_same rfl rfl rfl rfl

theorem declare_leads {isConstant isInitialized : Bool} {slot : Nat}
    (h : declare t isConstant isInitialized s = .ok slot s') : s.Leads [] s' := by
  simp only [declare, get_bind] at h
  cases result : s.scope.declare ⟨t.spelling, isConstant, isInitialized, some t.start⟩ with
  | error e => simp [result] at h
  | ok scope =>
    simp only [result] at h
    cases h
    exact .of_same rfl rfl rfl rfl

end PassM

/-! ### The tokens of a whole text -/

namespace Token

variable {limit : Int} {c : Cursor}

theorem yields_tokens_scanAll (limit : Int) (c : Cursor) :
    c.Yields limit (scanAll limit c).tokens := by
  fun_induction scanAll limit c with
  | case1 c d next refused => trivial
  | case2 c t next scans last => exact ⟨next, scans, trivial⟩
  | case3 c t next scans more inductionHypothesis => exact ⟨next, scans, inductionHypothesis⟩

/-- Whatever is yielded up to the end of the input is all that there is. -/
theorem scanAll_of_yields {t : Token} {ts : List Token} (last : t.kind = .eof)
    (more : ∀ u ∈ ts, u.kind ≠ .eof) (yields : c.Yields limit (ts ++ [t])) :
    ∃ next, scanAll limit c = ⟨ts ++ [t], none, next⟩ := by
  induction ts generalizing c with
  | nil =>
    obtain ⟨next, scans, _⟩ := yields
    refine ⟨next, ?_⟩
    rw [scanAll]
    split <;> simp_all
  | cons u ts inductionHypothesis =>
    obtain ⟨middle, scans, rest⟩ := yields
    obtain ⟨next, all⟩ :=
      inductionHypothesis (fun v member => more v (List.mem_cons_of_mem u member)) rest
    refine ⟨next, ?_⟩
    have notLast : u.kind ≠ .eof := more u List.mem_cons_self
    rw [scanAll]
    split <;> simp_all [Sequence.cons]

end Token
end OnePass
