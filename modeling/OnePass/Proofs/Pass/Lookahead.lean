import OnePass.Compilation
import OnePass.Pass.Lookup
import OnePass.Proofs.Pass.Stream

/-!
The token ahead. Whatever is done with the next token, and whatever fails on the way, the tokens
that have been taken and the one ahead are those that scanning gives time after time. Only taking
a token moves on: looking at it, or refusing it, leaves it ahead.
-/

namespace OnePass

namespace Token

variable {limit : Int} {c c' : Cursor} {ts : List Token}

theorem scanEach_cons (limit : Int) (limits : List Int) (c : Cursor) :
    scanEach (limit :: limits) c =
      ((scan limit c).1 :: (scanEach limits (scan limit c).2).1,
        (scanEach limits (scan limit c).2).2) := rfl

theorem scanEach_append (limits limits' : List Int) (c : Cursor) :
    scanEach (limits ++ limits') c =
      ((scanEach limits c).1 ++ (scanEach limits' (scanEach limits c).2).1,
        (scanEach limits' (scanEach limits c).2).2) := by
  induction limits generalizing c with
  | nil => rfl
  | cons limit limits inductionHypothesis =>
    rw [List.cons_append, scanEach_cons, scanEach_cons, inductionHypothesis]
    rfl

theorem scanEach_replicate_add (m n : Nat) (limit : Int) (c : Cursor) :
    scanEach (List.replicate (m + n) limit) c =
      ((scanEach (List.replicate m limit) c).1 ++
        (scanEach (List.replicate n limit) (scanEach (List.replicate m limit) c).2).1,
        (scanEach (List.replicate n limit) (scanEach (List.replicate m limit) c).2).2) := by
  rw [← List.replicate_append_replicate, scanEach_append]

theorem scanEach_of_scans (scans : c.Scans limit ts c') :
    scanEach (List.replicate ts.length limit) c = (ts.map Except.ok, c') := by
  induction ts generalizing c with
  | nil =>
    cases scans
    rfl
  | cons t ts inductionHypothesis =>
    obtain ⟨next, scanned, others⟩ := scans
    rw [List.length_cons, List.replicate_succ, scanEach_cons, scanned, inductionHypothesis others]
    rfl

end Token

/-! ### Tokens taken in spite of failures -/

/-- Between two states these tokens have been taken, and texts that are no tokens may have been
passed over. -/
def Pass.Took (s : Pass) (ts : List Token) (s' : Pass) : Prop :=
  s'.limit = s.limit ∧ ∃ n results,
    Token.scanEach (List.replicate n s.limit) s.cursor = (results, s'.cursor) ∧
    s.lookahead.toList ++ results.filterMap Except.toOption = ts ++ s'.lookahead.toList ∧
    s'.scanned = s.scanned + (results.filterMap Except.toOption).length

namespace Pass

variable {s s' s'' : Pass} {ts us : List Token} {d : Diagnostic}

theorem Leads.took (leads : s.Leads ts s') : s.Took ts s' := by
  obtain ⟨limit, us, taken, scans, scanned⟩ := leads
  have tokens : (us.map Except.ok : List (Except Diagnostic Token)).filterMap Except.toOption =
      us := by
    rw [List.filterMap_map]
    exact List.filterMap_some
  refine ⟨limit, us.length, _, Token.scanEach_of_scans scans, ?_, ?_⟩
  · rw [tokens, taken]
  · rw [tokens, scanned]

theorem Took.trans (first : s.Took ts s') (second : s'.Took us s'') : s.Took (ts ++ us) s'' := by
  obtain ⟨limit, m, results, scans, taken, scanned⟩ := first
  obtain ⟨limit', n, results', scans', taken', scanned'⟩ := second
  rw [limit] at scans'
  refine ⟨limit'.trans limit, m + n, results ++ results', ?_, ?_, ?_⟩
  · rw [Token.scanEach_replicate_add, scans, scans']
  · rw [List.filterMap_append, ← List.append_assoc, taken, List.append_assoc, taken',
      List.append_assoc]
  · rw [scanned', scanned, List.filterMap_append, List.length_append, Nat.add_assoc]

/-- Where no token can be read, none is taken. -/
theorem took_of_peek_error (h : PassM.peek s = .error d s') : s.Took [] s' := by
  obtain ⟨ahead, cursor, log, refused, rfl⟩ := PassM.peek_eq_error h
  refine ⟨rfl, 1, [.error d], ?_, ?_, rfl⟩
  · rw [List.replicate_one, Token.scanEach_cons, refused]
    rfl
  · simp [ahead, Except.toOption]

end Pass

/-! ### Looking at the next token -/

/-- What is made of the token ahead. -/
def Lookup.answer : (l : Lookup) → Token → Pass → EStateM.Result Diagnostic Pass l.Reply
  | peek, t, s => .ok t s
  | next, t, s => .ok t { s with lookahead := none }
  | check k, t, s => .ok (t.kind == k) s
  | nextIf k, t, s => if t.kind = k then .ok (some t) { s with lookahead := none } else .ok none s
  | expect k, t, s =>
    if t.kind = k then .ok t { s with lookahead := none }
    else .error ⟨.unexpected [k] t, some t.start, some (s.cursor.lineText t.start.line)⟩ s

namespace PassM

variable {s s' : Pass} {t : Token} {d : Diagnostic} {l : Lookup}

theorem lookUp_of_peek (h : peek s = .ok t s') (l : Lookup) : lookUp l s = l.answer t s' := by
  cases l with
  | peek => exact h
  | next => exact bind_of_ok h
  | check k => exact bind_of_ok h
  | nextIf k =>
    rw [lookUp, nextIf, bind_of_ok h, Lookup.answer]
    split <;> rfl
  | expect k =>
    rw [lookUp, expect, bind_of_ok h, Lookup.answer]
    split <;> rfl

theorem lookUp_of_peek_error (h : peek s = .error d s') (l : Lookup) : lookUp l s = .error d s' := by
  cases l with
  | peek => exact h
  | next | check k | nextIf k | expect k => exact bind_of_error h

/-- Only what has been taken is gone. -/
theorem took_of_answer (ahead : s.lookahead = some t) (l : Lookup) :
    match l.answer t s with
    | .ok reply s' => s.Took (l.taken? reply).toList s'
    | .error _ s' => s.Took [] s' := by
  have still : s.Took [] s := (Pass.Leads.refl s).took
  have taken : s.Took [t] { s with lookahead := none } := (drop_leads ahead rfl).took
  cases l with
  | peek | check k => exact still
  | next => exact taken
  | nextIf k | expect k =>
    rw [Lookup.answer]
    split
    next found =>
      split at found <;> cases found
      all_goals assumption
    next failed =>
      split at failed <;> cases failed
      all_goals assumption

theorem took_of_lookUp (l : Lookup) (s : Pass) :
    match lookUp l s with
    | .ok reply s' => s.Took (l.taken? reply).toList s'
    | .error _ s' => s.Took [] s' := by
  cases peeked : peek s with
  | error d u =>
    rw [lookUp_of_peek_error peeked l]
    exact Pass.took_of_peek_error peeked
  | ok t u =>
    obtain ⟨ahead, leads⟩ := peek_leads peeked
    have later := took_of_answer ahead l
    rw [lookUp_of_peek peeked l]
    cases answered : l.answer t u with
    | ok reply s' =>
      rw [answered] at later
      exact leads.took.trans later
    | error d s' =>
      rw [answered] at later
      exact leads.took.trans later

/-- Nothing is lost, repeated or swapped, whatever is done and fails. -/
theorem took_of_lookUpAll (ls : List Lookup) (s : Pass) :
    s.Took (lookUpAll ls s).1 (lookUpAll ls s).2 := by
  induction ls generalizing s with
  | nil => exact (Pass.Leads.refl s).took
  | cons l ls inductionHypothesis =>
    have first := took_of_lookUp l s
    cases looked : lookUp l s with
    | ok reply s' =>
      rw [looked] at first
      rw [lookUpAll, looked]
      exact first.trans (inductionHypothesis s')
    | error d s' =>
      rw [looked] at first
      rw [lookUpAll, looked]
      exact first.trans (inductionHypothesis s')

/-- Whatever is done with the tokens of a text, those that have been taken and the one ahead are the
tokens that scanning gives time after time, refusals apart. Whatever is done, it looks at the next
token first. If there is none, it fails as scanning does, and goes on behind the refused text. If
there is one, it stays ahead unless it is taken, and is what a failure is about. -/
theorem lookUpAll_follows_scanEach (o : Options) (file source : String) :
    (∀ ls : List Lookup, ∃ n results,
      Token.scanEach (List.replicate n o.limit) (.start file source) =
        (results, (lookUpAll ls (o.pass file source)).2.cursor) ∧
      (lookUpAll ls (o.pass file source)).1 ++
          (lookUpAll ls (o.pass file source)).2.lookahead.toList =
        results.filterMap Except.toOption) ∧
    ∀ (s : Pass) (l : Lookup),
      match peek s with
      | .ok t s' =>
        (s.lookahead = some t ∧ s' = s ∨
          s.lookahead = none ∧ Token.scan s.limit s.cursor = (.ok t, s'.cursor)) ∧
        s'.lookahead = some t ∧ lookUp l s = l.answer t s'
      | .error d s' =>
        s.lookahead = none ∧ Token.scan s.limit s.cursor = (.error d, s'.cursor) ∧
        s'.lookahead = none ∧ lookUp l s = .error d s' := by
  refine ⟨?_, ?_⟩
  · intro ls
    obtain ⟨_, n, results, scans, taken, _⟩ := took_of_lookUpAll ls (o.pass file source)
    exact ⟨n, results, scans, taken.symm⟩
  · intro s l
    cases peeked : peek s with
    | ok t s' =>
      refine ⟨?_, (peek_leads peeked).1, lookUp_of_peek peeked l⟩
      apply (peek_eq_ok peeked).imp_right
      rintro ⟨ahead, cursor, scans, rfl⟩
      exact ⟨ahead, scans⟩
    | error d s' =>
      obtain ⟨ahead, cursor, log, refused, rfl⟩ := peek_eq_error peeked
      exact ⟨ahead, refused, ahead, lookUp_of_peek_error peeked l⟩

/-- The character that is no token is passed over once, and the name before it is not lost. -/
example : ((lookUpAll [.check .semicolon, .expect .semicolon, .next, .nextIf .ident, .next]
    (({ limit := 9 } : Options).pass "" "x ? ;")).1.map Token.kind) = [.ident, .semicolon] := by
  cbv

end PassM
end OnePass
