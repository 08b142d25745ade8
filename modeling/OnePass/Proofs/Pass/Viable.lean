import OnePass.Proofs.Pass.Acceptance
import OnePass.Proofs.Pass.Failing
import OnePass.Proofs.Token.Spellings

/-!
A pass fails at a token exactly where no program goes on so. The tokens before it are the beginning
of a program, which each expected token could go on with. And if some program went on with the
token itself, then a text of that program would be refused at the token as well, although no
program is.
-/

namespace OnePass

namespace Lexeme

/-- A lexeme of a kind that has one. -/
def ofKind : Token.Kind → Lexeme
  | .beginWord => word ['b', 'e', 'g', 'i', 'n']
  | .endWord => word ['e', 'n', 'd']
  | .constWord => word ['c', 'o', 'n', 's', 't']
  | .varWord => word ['v', 'a', 'r']
  | .printWord => word ['p', 'r', 'i', 'n', 't']
  | .ident => word ['x']
  | .uint => numeral ['0']
  | .plus => mark '+'
  | .minus => mark '-'
  | .times => mark '*'
  | .slash => mark '/'
  | .equals => mark '='
  | .semicolon | .eof => mark ';'
  | .lparen => mark '('
  | .rparen => mark ')'

theorem kind_ofKind {k : Token.Kind} (more : k ≠ .eof) : (ofKind k).kind = k := by
  cases k <;> first | rfl | exact absurd rfl more

theorem isFormed_ofKind (k : Token.Kind) : (ofKind k).isFormed = true := by
  cases k <;> decide

theorem fault?_ofKind {limit : Int} (positive : 0 ≤ limit) (k : Token.Kind) :
    (ofKind k).fault? limit = none := by
  cases k with
  | uint => exact if_pos positive
  | _ => rfl

end Lexeme

theorem Layout.kinds_spaced {ks : List Token.Kind} (more : ∀ k ∈ ks, k ≠ .eof) (start : Location) :
    (lexemeTokens start (spaced (ks.map .ofKind))).map Token.kind = ks := by
  rw [kinds_lexemeTokens, spaced, List.map_map, List.map_map]
  refine (List.map_congr_left ?_).trans (List.map_id ks)
  intro k member
  exact Lexeme.kind_ofKind (more k member)

/-- A sentence ends with the end of the input, which stands nowhere else. -/
theorem IsSentence.ends {ks : List Token.Kind} (sentence : IsSentence ks) :
    ∃ inner, ks = inner ++ [.eof] ∧ ∀ k ∈ inner, k ≠ .eof := by
  obtain ⟨us, p, derives, rfl⟩ := sentence
  obtain ⟨before, last, rfl, lastKind, inside⟩ := derives.eof_last
  refine ⟨before.map Token.kind, ?_, ?_⟩
  · rw [List.map_append, List.map_singleton, lastKind]
  · rw [List.forall_mem_map]
    exact inside

theorem IsSentence.ends_behind {ks ls : List Token.Kind} (sentence : IsSentence (ks ++ ls))
    (more : ∀ k ∈ ks, k ≠ .eof) : ∃ inner, ls = inner ++ [.eof] ∧ ∀ k ∈ inner, k ≠ .eof := by
  obtain ⟨inner, same, inside⟩ := sentence.ends
  rcases ls.eq_nil_or_concat with rfl | ⟨first, k, rfl⟩
  · rw [List.append_nil] at same
    exact absurd rfl (more .eof (by simp [same]))
  · rw [List.concat_eq_append, ← List.append_assoc] at same
    rw [List.concat_eq_append]
    obtain ⟨rfl, ended⟩ := List.append_inj' same rfl
    cases ended
    exact ⟨first, rfl, fun k member => inside k (List.mem_append_right _ member)⟩

theorem IsSentence.ne_eof_before {ks ls : List Token.Kind} {l : Token.Kind}
    (sentence : IsSentence (ks ++ l :: ls)) : ∀ k ∈ ks, k ≠ .eof := by
  obtain ⟨inner, same, inside⟩ := sentence.ends
  have shorter : ks ++ (l :: ls).dropLast = inner := by
    rw [← List.dropLast_append_of_ne_nil (List.cons_ne_nil l ls), same, List.dropLast_concat]
  intro k member
  exact inside k (shorter ▸ List.mem_append_left _ member)

namespace Options

variable {o : Options} {file source : String} {d : Diagnostic} {s : Pass} {ts us : List Token}
  {expected : List Token.Kind} {actual : Token} {c : Cursor}

/-- Where a token is unexpected, it has been scanned behind tokens that have been taken, and each
expected one could stand there. -/
theorem exists_leads_of_unexpected (failed : o.runPass file source = .error d s)
    (cause : d.cause = .unexpected expected actual) :
    ∃ ts, (o.pass file source).Leads ts s ∧ s.lookahead = some actual ∧ expected ≠ [] ∧
      ∀ k ∈ expected, Allows (Goal.FindAll Goal.program) ts k := by
  cases fails_of_runPass_error failed with
  | unread leads ahead scanned refused =>
    obtain ⟨_, _, rfl, lexical⟩ := Token.exists_shows_of_scan refused
    cases cause
    cases lexical
  | unexpected leads ahead shown some allowed =>
    subst shown
    cases cause
    exact ⟨_, leads, ahead, some, allowed⟩
  | misnamed leads ahead kind name shown =>
    subst shown
    cases cause
    cases name

/-- No program is refused at an unexpected token. -/
theorem expected_of_derives {p : Program} (tokens : o.tokens file source = .ok ts)
    (derives : Program.Derives ts p) (failed : o.runPass file source = .error d s) :
    d.cause ≠ .unexpected expected actual := by
  have ends := runPass_of_derives tokens derives
  rw [failed] at ends
  cases violation : p.violation? with
  | none =>
    rw [violation] at ends
    obtain ⟨_, ran, _⟩ := ends
    cases ran
  | some v =>
    rw [violation] at ends
    obtain ⟨_, _, same, explains, _⟩ := ends
    cases same
    rw [explains]
    cases v <;> nofun

/-- Lexemes that are read begin a text with any kinds behind them. Numerals among these may need a
greater limit. -/
theorem exists_text_of_kinds (file : String) {xs : List (List Char × Lexeme)} {tail : List Char}
    (reads : Layout.Reads o.limit xs tail) {ks : List Token.Kind} (more : ∀ k ∈ ks, k ≠ .eof) :
    ∃ source us last c,
      { o with limit := max o.limit 0 }.tokens file source =
        .ok (Layout.lexemeTokens (.start file) xs ++ us ++ [last]) ∧
      us.map Token.kind = ks ∧ last.kind = .eof ∧
      (Cursor.start file source).Scans (max o.limit 0)
        (Layout.lexemeTokens (.start file) xs) c := by
  have lexemes : ∀ y ∈ ks.map Lexeme.ofKind, y.isFormed = true ∧ y.fault? (max o.limit 0) = none :=
    List.forall_mem_map.mpr fun k _ =>
      ⟨Lexeme.isFormed_ofKind k, Lexeme.fault?_ofKind (Int.le_max_right o.limit 0) k⟩
  have others :=
    Layout.reads_spaced (Layout.reads_mono (Int.le_max_left o.limit 0) reads) lexemes
  have text := String.toList_ofList (l := Layout.text ⟨xs ++ Layout.spaced (ks.map .ofKind), []⟩)
  have read := Token.result_of_blank (c := .start file (String.ofList _)) text others (by simp)
  have scans := Layout.scans_of_reads (c := .start file (String.ofList _)) text others
  rw [Layout.tokens, Layout.tokensFrom_eq, Layout.lexemeTokens_append] at read
  rw [Layout.lexemeTokens_append] at scans
  obtain ⟨c, before, _⟩ := scans.of_append
  exact ⟨_, _, _, c, read, Layout.kinds_spaced more _, rfl, before⟩

/-- No program goes on with a token that is unexpected: a text of it would be refused there. -/
theorem not_isSentence_of_unexpected (failed : o.runPass file source = .error d s)
    (cause : d.cause = .unexpected expected actual)
    (scans : (Cursor.start file source).Scans o.limit (ts ++ [actual]) c)
    (scanned : s.scanned = (ts ++ [actual]).length) (more : ∀ t ∈ ts ++ [actual], t.kind ≠ .eof)
    (ks : List Token.Kind) : ¬IsSentence ((ts ++ [actual]).map Token.kind ++ ks) := by
  intro sentence
  have kinds : ∀ k ∈ (ts ++ [actual]).map Token.kind, k ≠ .eof := by
    rw [List.forall_mem_map]
    exact more
  obtain ⟨inner, rfl, inside⟩ := sentence.ends_behind kinds
  obtain ⟨xs, tail, _, reads, same, _⟩ := Layout.exists_reads_of_scans scans more
  obtain ⟨source', us, last, _, tokens, usKinds, lastKind, scans'⟩ :=
    exists_text_of_kinds file reads inside
  have start : Layout.lexemeTokens (.start file) xs = ts ++ [actual] := same.symm
  rw [start] at tokens scans'
  have whole : IsSentence ((ts ++ [actual] ++ us ++ [last]).map Token.kind) := by
    rw [List.map_append, List.map_append, usKinds, List.map_singleton, lastKind, List.append_assoc]
    exact sentence
  obtain ⟨p, derives⟩ := isSentence_iff.mp whole
  have agree := Cursor.agree_of_scans (n := 0) scans scans' trivial
  have far : s.scanned + d.cause.scans = (ts ++ [actual]).length + 0 := by
    rw [scanned, cause]
    rfl
  rw [← far] at agree
  obtain ⟨_, l, _, rfl, again⟩ := runPass_error_of_agree failed agree
  exact expected_of_derives tokens derives again cause

theorem exists_tokens_of_scans (scans : (Cursor.start file source).Scans o.limit (ts ++ [actual]) c)
    (more : ∀ t ∈ ts, t.kind ≠ .eof) :
    ∃ rest, (Token.scanAll o.limit (.start file source)).tokens = ts ++ actual :: rest := by
  obtain ⟨d, before, next, scanned, _⟩ := scans.of_append
  have tokens := (Token.scanAll_of_scans before more).1
  rw [Token.scanAll_eq o.limit d, scanned] at tokens
  dsimp only at tokens
  split at tokens
  · exact ⟨[], tokens⟩
  · exact ⟨_, tokens⟩

/-- The end of the input is unexpected only where a program does not end. -/
theorem not_isSentence_of_unexpected_end (failed : o.runPass file source = .error d s)
    (cause : d.cause = .unexpected expected actual)
    (scans : (Cursor.start file source).Scans o.limit (ts ++ [actual]) c)
    (more : ∀ t ∈ ts, t.kind ≠ .eof) (ended : actual.kind = .eof) :
    ¬IsSentence ((ts ++ [actual]).map Token.kind) := by
  intro sentence
  obtain ⟨p, derives⟩ := isSentence_iff.mp sentence
  have yields : (Cursor.start file source).Yields o.limit (ts ++ [actual] ++ []) :=
    scans.yields trivial
  rw [List.append_nil] at yields
  obtain ⟨next, all⟩ := Token.scanAll_of_yields ended more yields
  have read : o.tokens file source = .ok (ts ++ [actual]) := by
    rw [Options.tokens, all]
    rfl
  exact expected_of_derives read derives failed cause

/-- A pass that meets an unexpected token has taken the tokens before it. No program begins with
these and the token, and with each expected one instead some program does. -/
theorem runPass_unexpected (failed : o.runPass file source = .error d s)
    (cause : d.cause = .unexpected expected actual) :
    ∃ ts rest, (Token.scanAll o.limit (.start file source)).tokens = ts ++ actual :: rest ∧
      s.lookahead = some actual ∧ s.scanned = ts.length + 1 ∧
      (∀ ks, ¬IsSentence (ts.map Token.kind ++ actual.kind :: ks)) ∧
      ∀ k ∈ expected, ∃ ks, IsSentence (ts.map Token.kind ++ k :: ks) := by
  obtain ⟨ts, leads, ahead, some, allowed⟩ := exists_leads_of_unexpected failed cause
  obtain ⟨scans, scanned⟩ := scans_of_leads leads
  rw [ahead] at scans scanned
  have possible : ∀ k ∈ expected, ∃ ks, IsSentence (ts.map Token.kind ++ k :: ks) := by
    intro k member
    obtain ⟨us, every⟩ := allowed k member
    obtain ⟨p, derives⟩ := Goal.derives_of_findAll (every (.ofKind k) rfl)
    exact ⟨us.map Token.kind, _, p, derives, by simp [Token.ofKind]⟩
  have more : ∀ t ∈ ts, t.kind ≠ .eof := by
    obtain ⟨k, member⟩ := List.exists_mem_of_ne_nil _ some
    obtain ⟨ks, sentence⟩ := possible k member
    have kinds := sentence.ne_eof_before
    rwa [List.forall_mem_map] at kinds
  obtain ⟨rest, tokens⟩ := exists_tokens_of_scans scans more
  have count : s.scanned = ts.length + 1 := by rw [scanned, List.length_append]; rfl
  refine ⟨ts, rest, tokens, ahead, count, ?_, possible⟩
  intro ks sentence
  by_cases ended : actual.kind = .eof
  · obtain ⟨inner, same, inside⟩ := sentence.ends_behind (by rwa [List.forall_mem_map])
    cases inner with
    | nil =>
      cases (List.cons.inj same).2
      apply not_isSentence_of_unexpected_end failed cause scans more ended
      rwa [List.map_append]
    | cons k inner =>
      cases (List.cons.inj same).1
      exact absurd ended (inside _ List.mem_cons_self)
  · have none : ∀ t ∈ ts ++ [actual], t.kind ≠ .eof := by
      intro t member
      rcases List.mem_append.mp member with before | last
      · exact more t before
      · rwa [List.mem_singleton.mp last]
    apply not_isSentence_of_unexpected failed cause scans scanned none ks
    rwa [List.map_append, List.append_assoc]

theorem runPass_unexpected_number :
    ∃ ts rest, (Token.scanAll 9 (.start "" "begin print 1")).tokens =
        ts ++ ⟨.uint, .number 1, ⟨"", 1, 13⟩, ⟨"", 1, 14⟩⟩ :: rest ∧
      (∀ ks, ¬IsSentence (ts.map Token.kind ++ .uint :: ks)) ∧
      ∃ ks, IsSentence (ts.map Token.kind ++ .lparen :: ks) := by
  have failed : ({ limit := 9 } : Options).runPass "" "begin print 1" =
      .error ⟨.unexpected [.lparen] ⟨.uint, .number 1, ⟨"", 1, 13⟩, ⟨"", 1, 14⟩⟩, some ⟨"", 1, 13⟩,
          some "begin print 1"⟩
        ⟨⟨"begin print 1".toList, [], ⟨"", 1, 14⟩, ⟨"", 1, 13⟩⟩, 9, true,
          some ⟨.uint, .number 1, ⟨"", 1, 13⟩, ⟨"", 1, 14⟩⟩, .empty, #[], #[], 3⟩ := by
    cbv
  obtain ⟨ts, rest, tokens, _, _, refused, possible⟩ := runPass_unexpected failed rfl
  exact ⟨ts, rest, tokens, refused, possible .lparen (by simp)⟩

end Options
end OnePass
