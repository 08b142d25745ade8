import OnePass.Proofs.Pass.Acceptance
import OnePass.Proofs.Pass.Locality

/-!
Reading all tokens at once and reading them on demand. Both read the same tokens in the same order,
so a pass that ends well has read every one of them, and a text without tokens is refused by both,
unless the pass has failed before.
-/

namespace OnePass

namespace Token

variable {limit : Int} {c c' next : Cursor} {t : Token} {ts : List Token} {d : Diagnostic}

/-- Behind the end of the input there is the same end again. -/
theorem scan_eof_again (scanned : scan limit c = (.ok t, next)) (ended : t.kind = .eof) :
    scan limit next = (.ok t, next) := by
  rcases exists_lexeme c.rest with blank | ⟨gap, x, rest, ahead, blank, formed, maximal⟩
  · rw [scan_of_blank limit blank] at scanned
    cases scanned
    rw [scan_of_blank limit (by simp)]
    simp [Cursor.advanceBy]
  · rw [scan_of_lexeme limit ahead blank formed maximal] at scanned
    obtain ⟨accepted, rfl⟩ := ofLexeme_eq_ok.mp (Prod.mk.inj scanned).1
    exact absurd ended (Lexeme.kind_ne_eof (Lexeme.isValid_of_isFormed formed accepted))

/-- A token that is scanned is one of all tokens. -/
theorem mem_scanAll_of_scans (scans : c.Scans limit ts c') (member : t ∈ ts) :
    t ∈ (scanAll limit c).tokens := by
  induction ts generalizing c with
  | nil => simp at member
  | cons u ts inductionHypothesis =>
    obtain ⟨next, first, scans⟩ := scans
    rw [scanAll_eq, first]
    rcases List.mem_cons.mp member with same | later
    · subst same
      by_cases ended : t.kind = .eof <;> simp [ended, Sequence.cons]
    · have behind := inductionHypothesis scans later
      by_cases ended : u.kind = .eof
      · rw [scanAll_eq, scan_eof_again first ended] at behind
        simpa [ended] using behind
      · simp [ended, Sequence.cons, behind]

/-- A token other than the end starts at or behind a cursor, and the text goes on behind it. -/
theorem places_of_scan (scanned : scan limit c = (.ok t, next)) (more : t.kind ≠ .eof) :
    ∃ gap cs, cs ≠ [] ∧ t.start = c.here.afterAll gap ∧ next.here = t.start.afterAll cs := by
  obtain ⟨gap, x, rest, ahead, _, formed, _, same, rfl⟩ :=
    exists_lexeme_of_scan scanned (by simpa [Except.toOption] using more)
  obtain ⟨_, rfl⟩ := ofLexeme_eq_ok.mp same.symm
  refine ⟨gap, x.spelling, spelling_ne_nil_of_isFormed formed, Cursor.here_behind ahead, ?_⟩
  rw [Cursor.here_behind_append ahead]
  exact congrArg (·.afterAll x.spelling) (Cursor.here_behind ahead).symm

theorem place_of_refusal (scanned : scan limit c = (.error d, next)) :
    ∃ gap, d.location = some (c.here.afterAll gap) := by
  obtain ⟨gap, x, rest, ahead, _, _, _, same, _⟩ :=
    exists_lexeme_of_scan scanned (by simp [Except.toOption])
  obtain ⟨cause, _, rfl⟩ := ofLexeme_eq_error.mp same.symm
  exact ⟨gap, congrArg some (Cursor.here_behind ahead)⟩

/-- Where a text is refused, all its tokens start before that place. -/
theorem start_before_stopped (stopped : (scanAll limit c).stopped = some d) :
    ∃ cs, d.location = some (c.here.afterAll cs) ∧
      ∀ t ∈ (scanAll limit c).tokens, t.start.Before (c.here.afterAll cs) := by
  fun_induction scanAll limit c with
  | case1 c d next refused =>
    cases stopped
    obtain ⟨gap, place⟩ := place_of_refusal refused
    exact ⟨gap, place, by simp⟩
  | case2 c t next scanned last => cases stopped
  | case3 c t next scanned more inductionHypothesis =>
    obtain ⟨cs, place, before⟩ := inductionHypothesis stopped
    obtain ⟨gap, spelling, some, start, behind⟩ := places_of_scan scanned more
    have whole : c.here.afterAll (gap ++ spelling ++ cs) = next.here.afterAll cs := by
      rw [behind, start, Location.afterAll_append, Location.afterAll_append]
    refine ⟨gap ++ spelling ++ cs, by rw [whole, place], ?_⟩
    rw [whole]
    simp only [Sequence.cons, List.forall_mem_cons]
    refine ⟨?_, before⟩
    rw [behind, ← Location.afterAll_append]
    exact Location.before_afterAll t.start (by simp [some])

/-- What is refused behind some tokens is the refusal of the whole text. -/
theorem result_of_refusal (scans : c.Scans limit ts c')
    (refused : scan limit c' = (.error d, next)) : (scanAll limit c).result = .error d := by
  have unfinished : c'.rest ≠ [] := by
    obtain ⟨gap, x, rest, ahead, _, formed, _⟩ :=
      exists_lexeme_of_scan refused (by simp [Except.toOption])
    simp [ahead, spelling_ne_nil_of_isFormed formed]
  have stopped := (scanAll_of_scans scans (scans.kind_ne_eof unfinished)).2
  rw [scanAll_eq limit c', refused] at stopped
  simp [Sequence.result, stopped]

end Token

theorem Diagnostic.Cause.phase_of_name {cause : Cause} {name : String}
    (named : cause.name? = some name) : cause.phase = .syntactic := by
  cases cause <;> cases named <;> rfl

namespace Options

variable {o : Options} {file source : String} {d : Diagnostic} {s : Pass}

/-- What a pass cannot read is the refusal of the whole text. -/
theorem tokens_of_unread {ts : List Token} {next : Cursor}
    (leads : (o.pass file source).Leads ts s) (ahead : s.lookahead = none)
    (refused : Token.scan s.limit s.cursor = (.error d, next)) :
    o.tokens file source = .error d := by
  obtain ⟨scans, _⟩ := scans_of_leads leads
  rw [ahead, Option.toList_none, List.append_nil] at scans
  rw [leads.1] at refused
  exact Token.result_of_refusal scans refused

/-- A pass fails where a token is refused, or at the start of a token. -/
theorem refused_or_at_token (failed : o.runPass file source = .error d s) :
    o.tokens file source = .error d ∨ d.cause.phase = .syntactic ∧
      ∃ t ∈ (Token.scanAll o.limit (.start file source)).tokens, d.location = some t.start := by
  cases fails_of_runPass_error failed with
  | unread leads ahead scanned refused => exact .inl (tokens_of_unread leads ahead refused)
  | @unexpected ts actual _ leads ahead shown _ _ =>
    subst shown
    obtain ⟨scans, _⟩ := scans_of_leads leads
    exact .inr ⟨rfl, actual, Token.mem_scanAll_of_scans scans (by simp [ahead]), rfl⟩
  | @misnamed ts t _ leads ahead kind name shown =>
    subst shown
    obtain ⟨scans, _⟩ := scans_of_leads leads
    exact .inr ⟨Diagnostic.Cause.phase_of_name name, t,
      Token.mem_scanAll_of_scans scans (by simp), rfl⟩

/-- The last thing that is taken is the end of the input, and nothing is ahead behind it. -/
theorem lookahead_of_runPass (h : o.runPass file source = .ok () s) : s.lookahead = none := by
  obtain ⟨_, s', ran, logged⟩ := PassM.bind_eq_ok.mp h
  have parts : Goal.program =
      (.expect .beginWord :: Goal.body ++ [.expect .endWord]) ++ [.expect .eof] := rfl
  rw [parts] at ran
  obtain ⟨t, _, last⟩ := PassM.run_append_eq_ok.mp ran
  obtain ⟨goals, u, taken, rest⟩ := PassM.run_cons_eq_ok.mp last
  obtain ⟨_, v, found, ended⟩ := PassM.bind_eq_ok.mp taken
  obtain ⟨rfl, rfl⟩ := PassM.pure_eq_ok.mp ended
  rw [List.append_nil, PassM.run_nil] at rest
  cases rest
  rw [← PassM.modify_eq_ok.mp logged]
  change s'.lookahead = none
  exact PassM.expect_ahead found

theorem scanned_of_runPass (h : o.runPass file source = .ok () s) :
    ∃ ts, o.tokens file source = .ok ts ∧ s.scanned = ts.length := by
  obtain ⟨ts, p, tokens, _, leads⟩ := derives_of_runPass h
  have count := (scans_of_leads leads).2
  rw [lookahead_of_runPass h, Option.toList_none, List.append_nil] at count
  exact ⟨ts, tokens, count⟩

/-- Compiling a text follows its tokens. Where there are none, it fails as reading them does, or
with an error of its own at an earlier place. Where there are tokens, it reads all of them, or
fails with an error of its own at one of them. -/
theorem compile_follows_tokens (o : Options) (file source : String) :
    match o.tokens file source, o.compile file source with
    | .error refused, .error d =>
      d = refused ∨ d.cause.phase = .syntactic ∧
        ∃ here there, d.location = some here ∧ refused.location = some there ∧ here.Before there
    | .error _, .ok _ => False
    | .ok ts, .ok c => c.scanned = ts.length
    | .ok ts, .error d => d.cause.phase = .syntactic ∧ ∃ t ∈ ts, d.location = some t.start := by
  unfold compile
  cases ran : o.runPass file source with
  | ok u s =>
    obtain ⟨ts, tokens, scanned⟩ := scanned_of_runPass ran
    rw [tokens]
    exact scanned
  | error d s =>
    rcases refused_or_at_token ran with refused | ⟨syntactic, t, member, place⟩
    · rw [refused]
      exact .inl rfl
    · unfold tokens Token.Sequence.result
      cases stopped : (Token.scanAll o.limit (.start file source)).stopped with
      | none => exact ⟨syntactic, t, member, place⟩
      | some refused =>
        obtain ⟨cs, there, before⟩ := Token.start_before_stopped stopped
        exact .inr ⟨syntactic, t.start, _, place, there, before t member⟩

/-- The name comes before the character that is no token. -/
example : ({ limit := 9 } : Options).compile "" "begin x ?" =
    .error ⟨.undeclared "x", some ⟨"", 1, 7⟩, some "begin x ?"⟩ := by
  cbv

end Options
end OnePass
