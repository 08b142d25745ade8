import OnePass.Proofs.Token.Spellings

/-!
Texts one after the other. Behind an accepted text and a line feed, scanning goes on as at the
beginning of a text. Only the numbers of the lines are others.
-/

namespace OnePass

/-- The same place, some lines further down. -/
def Location.lowered (n : Nat) (l : Location) : Location := { l with line := l.line + n }

def Token.lowered (n : Nat) (t : Token) : Token :=
  { t with start := t.start.lowered n, stop := t.stop.lowered n }

def Diagnostic.lowered (n : Nat) (d : Diagnostic) : Diagnostic :=
  { d with location := d.location.map (Location.lowered n) }

@[simp]
theorem Token.kind_lowered (n : Nat) (t : Token) : (t.lowered n).kind = t.kind := rfl

theorem Location.lowered_afterAll (n : Nat) (l : Location) (cs : List Char) :
    (l.afterAll cs).lowered n = (l.lowered n).afterAll cs := by
  induction cs generalizing l with
  | nil => rfl
  | cons c cs inductionHypothesis =>
    have step : (l.after c).lowered n = (l.lowered n).after c := by
      by_cases feed : c = '\n'
      · simp [after, lowered, feed, Int.add_right_comm]
      · simp [after, lowered, feed]
    rw [afterAll_cons, afterAll_cons, inductionHypothesis, step]

/-- Behind a text and a line feed the lines are those of the other text. -/
theorem Text.lineAt_append_feed (cs rest : List Char) {k : Int} (first : 1 ≤ k) :
    lineAt (cs ++ '\n' :: rest) (k + (cs.count '\n' + 1 : Nat)) = lineAt rest k := by
  have index : (k + (cs.count '\n' + 1 : Nat) - 1).toNat = (lines cs).length + (k - 1).toNat := by
    rw [lines, length_pieces]
    omega
  rw [lineAt, lineAt, if_pos (by omega), if_pos first, index, lines, pieces_append_separator,
    ← lines, ← lines, List.getD_append_right _ _ _ _ (Nat.le_add_right ..), Nat.add_sub_cancel_left]

/-! ### Cursors -/

/-- The same text is ahead in another text, some lines further down. -/
structure Cursor.Below (n : Nat) (c d : Cursor) : Prop where
  rest : d.rest = c.rest
  here : d.here = c.here.lowered n
  line : 1 ≤ c.here.line
  lines : ∀ k, 1 ≤ k → d.lineText (k + n) = c.lineText k

namespace Cursor

variable {c d : Cursor} {n : Nat} {gap rest : List Char} {p : Char → Bool}

theorem lineText_advanceBy (c : Cursor) (m : Nat) (k : Int) :
    (c.advanceBy m).lineText k = c.lineText k := by
  rw [lineText, lineText, source_advanceBy]

theorem Below.advanceBy (below : c.Below n d) (m : Nat) :
    (c.advanceBy m).Below n (d.advanceBy m) := by
  refine ⟨?_, ?_, ?_, ?_⟩
  · rw [rest_advanceBy, rest_advanceBy, below.rest]
  · rw [here_advanceBy, here_advanceBy, below.rest, below.here, Location.lowered_afterAll]
  · rw [here_advanceBy]
    exact Int.le_trans below.line (Location.afterAll_grows ..).1
  · intro k first
    rw [lineText_advanceBy, lineText_advanceBy, below.lines k first]

/-- Characters of a class can be passed before the others of the class. -/
theorem skip_advanceBy (ahead : c.rest = gap ++ rest) (belongs : ∀ ch ∈ gap, p ch = true) :
    (c.advanceBy gap.length).skip p = c.skip p := by
  rw [skip, skip, run, run, rest_behind ahead, ahead, List.takeWhile_append_of_pos belongs,
    List.length_append, advanceBy_add]

/-- Behind a text and a line feed another text is as it is at its own beginning. -/
theorem below_start (file s t : String) :
    (start file t).Below (s.toList.count '\n' + 1)
      ((start file (s ++ "\n" ++ t)).advanceBy (s.toList ++ ['\n']).length) := by
  have whole : (start file (s ++ "\n" ++ t)).rest = (s.toList ++ ['\n']) ++ t.toList := by
    simp [start]
  refine ⟨?_, ?_, Int.le_refl 1, ?_⟩
  · rw [rest_behind whole]
    rfl
  · rw [here_behind whole]
    change (Location.start file).afterAll _ = _
    rw [Location.afterAll_append, Location.afterAll_start]
    simp [Location.after, Location.lowered, start, Location.start, Int.add_comm]
  · intro k first
    rw [lineText_advanceBy, lineText, lineText, ← Text.lineAt_append_feed s.toList _ first]
    simp [start]

end Cursor

namespace Token

variable {limit : Int} {c c' d : Cursor} {n : Nat} {gap rest : List Char} {ts : List Token}

theorem refusal_below (below : c.Below n d) (cause : Diagnostic.Cause) :
    refusal d cause = (refusal c cause).lowered n := by
  have line : d.lineText d.here.line = c.lineText c.here.line := by
    rw [below.here]
    exact below.lines _ below.line
  rw [refusal, line, below.here]
  rfl

theorem ofLexeme_below (below : c.Below n d) (limit : Int) (x : Lexeme) :
    ofLexeme limit d x =
      ((ofLexeme limit c x).map (lowered n)).mapError (Diagnostic.lowered n) := by
  unfold ofLexeme
  cases x.fault? limit with
  | none =>
    simp only [Except.map, Except.mapError, Lexeme.token, lowered, Location.lowered_afterAll,
      below.here]
  | some cause =>
    simp only [refusal_below below cause]
    rfl

/-- Scanning gives the same some lines further down, and leaves the same text ahead. -/
theorem scan_below (below : c.Below n d) (limit : Int) :
    (scan limit d).1 = ((scan limit c).1.map (lowered n)).mapError (Diagnostic.lowered n) ∧
      (scan limit c).2.Below n (scan limit d).2 := by
  have same := below.rest
  rcases exists_lexeme c.rest with blank | ⟨gap, x, rest, ahead, blank, formed, maximal⟩
  · rw [scan_of_blank limit blank, scan_of_blank limit (by rwa [same]), same]
    refine ⟨?_, below.advanceBy _⟩
    simp only [Except.map, Except.mapError, lowered, Location.lowered_afterAll, below.here]
  · rw [scan_of_lexeme limit ahead blank formed maximal,
      scan_of_lexeme limit (same.trans ahead) blank formed maximal]
    exact ⟨ofLexeme_below (below.advanceBy _) limit x, below.advanceBy _⟩

theorem Sequence.result_cons (t : Token) (s : Sequence) :
    (s.cons t).result = s.result.map (t :: ·) := by
  unfold result cons
  cases s.stopped <;> rfl

theorem scanAll_below (below : c.Below n d) (limit : Int) :
    (scanAll limit d).result =
      ((scanAll limit c).result.map (List.map (lowered n))).mapError (Diagnostic.lowered n) := by
  fun_induction scanAll limit c generalizing d with
  | case1 c e next refused =>
    obtain ⟨result, _⟩ := scan_below below limit
    rw [refused] at result
    rw [scanAll_eq, ← Prod.mk.eta (p := scan limit d), result]
    rfl
  | case2 c t next scanned ended =>
    obtain ⟨result, _⟩ := scan_below below limit
    rw [scanned] at result
    rw [scanAll_eq, ← Prod.mk.eta (p := scan limit d), result]
    simp only [Except.map, Except.mapError, kind_lowered, ended, if_true, Sequence.result]
    rfl
  | case3 c t next scanned more inductionHypothesis =>
    obtain ⟨result, later⟩ := scan_below below limit
    rw [scanned] at result later
    have others := inductionHypothesis later
    rw [scanAll_eq, ← Prod.mk.eta (p := scan limit d), result]
    simp only [Except.map, Except.mapError, kind_lowered, more, if_false]
    rw [Sequence.result_cons, Sequence.result_cons, others]
    cases (scanAll limit next).result <;> rfl

/-- Blanks ahead change nothing. -/
theorem scan_advanceBy (limit : Int) (ahead : c.rest = gap ++ rest)
    (blank : ∀ ch ∈ gap, Text.isBlank ch = true) :
    scan limit (c.advanceBy gap.length) = scan limit c := by
  unfold scan
  rw [Cursor.skip_advanceBy ahead blank]

theorem result_of_scans (scans : c.Scans limit ts c') (more : ∀ t ∈ ts, t.kind ≠ .eof) :
    (scanAll limit c).result = (scanAll limit c').result.map (ts ++ ·) := by
  obtain ⟨tokens, stopped⟩ := scanAll_of_scans scans more
  rw [Sequence.result, Sequence.result, tokens, stopped]
  cases (scanAll limit c').stopped <;> rfl

end Token

namespace Options

open Layout

variable {o : Options} {file s : String} {ts : List Token}

/-- Behind a text that is accepted and a line feed, any text has the tokens that it has by itself,
or is refused as by itself, some lines further down. -/
theorem tokens_append (first : o.tokens file s = .ok ts) :
    ∃ us last, ts = us ++ [last] ∧ last.kind = .eof ∧ ∀ t : String,
      o.tokens file (s ++ "\n" ++ t) =
        match o.tokens file t with
        | .ok vs => .ok (us ++ vs.map (Token.lowered (s.toList.count '\n' + 1)))
        | .error d => .error (d.lowered (s.toList.count '\n' + 1)) := by
  obtain ⟨l, ⟨valid, within, text⟩, rfl⟩ := exists_layout first
  obtain ⟨all, separated, trailing⟩ := isValid_isWithin_iff.mp ⟨valid, within⟩
  refine ⟨lexemeTokens (.start file) l.lexemes, _, tokensFrom_eq .., rfl, fun t => ?_⟩
  have blank : ∀ ch ∈ l.trailing ++ ['\n'], Text.isBlank ch = true :=
    List.forall_mem_append.mpr ⟨trailing, List.forall_mem_singleton.mpr rfl⟩
  have ahead : (Cursor.start file (s ++ "\n" ++ t)).rest =
      Layout.text ⟨l.lexemes, l.trailing ++ ['\n'] ++ t.toList⟩ := by
    rw [text_append, text_append]
    simp [Cursor.start, text]
  have reads : Reads o.limit l.lexemes (l.trailing ++ ['\n'] ++ t.toList) := by
    refine reads_iff.mpr ⟨all, separated, fun x _ ch head => ?_⟩
    rw [List.head?_append_of_ne_nil _ (by simp)] at head
    exact x.2.continues_blank (blank ch (List.mem_of_mem_head? head))
  have scans := scans_of_reads ahead reads
  have more := kind_ne_eof_of_reads (.start file) reads
  have below := Cursor.below_start file s t
  -- Between the last lexeme of the first text and the other text there are only blanks.
  have seam : (Cursor.start file (s ++ "\n" ++ t)).advanceBy (s.toList ++ ['\n']).length =
      ((Cursor.start file (s ++ "\n" ++ t)).advanceBy (Layout.text ⟨l.lexemes, []⟩).length).advanceBy
        (l.trailing ++ ['\n']).length := by
    rw [← Cursor.advanceBy_add, text, Layout.text, Layout.text]
    congr 1
    simp only [List.length_append, List.length_nil]
    omega
  have same := Token.scan_advanceBy o.limit (Cursor.rest_behind ((text_eq ..) ▸ ahead)) blank
  have later := Token.scanAll_below below o.limit
  rw [seam, Token.scanAll_eq, same, ← Token.scanAll_eq] at later
  rw [tokens, Token.result_of_scans scans more, later, tokens]
  cases (Token.scanAll o.limit (Cursor.start file t)).result <;> rfl

/-- A numeral does not go on in another text, and the blank line counts. -/
theorem tokens_append_numerals :
    ({ limit := 9 } : Options).tokens "" ("1\n" ++ "\n" ++ "2") =
        .ok [⟨.uint, .number 1, ⟨"", 1, 1⟩, ⟨"", 1, 2⟩⟩, ⟨.uint, .number 2, ⟨"", 3, 1⟩, ⟨"", 3, 2⟩⟩,
          ⟨.eof, .nothing, ⟨"", 3, 2⟩, ⟨"", 3, 2⟩⟩] ∧
    ({ limit := 9 } : Options).tokens "" ("1\n" ++ "\n" ++ " 10") =
        .error ⟨.integerOutOfRange "10" 9, some ⟨"", 3, 2⟩, some " 10"⟩ := by
  have first : ({ limit := 9 } : Options).tokens "" "1\n" =
      .ok [⟨.uint, .number 1, ⟨"", 1, 1⟩, ⟨"", 1, 2⟩⟩, ⟨.eof, .nothing, ⟨"", 2, 1⟩, ⟨"", 2, 1⟩⟩] := by
    cbv
  have accepted : ({ limit := 9 } : Options).tokens "" "2" =
      .ok [⟨.uint, .number 2, ⟨"", 1, 1⟩, ⟨"", 1, 2⟩⟩, ⟨.eof, .nothing, ⟨"", 1, 2⟩, ⟨"", 1, 2⟩⟩] := by
    cbv
  have refused : ({ limit := 9 } : Options).tokens "" " 10" =
      .error ⟨.integerOutOfRange "10" 9, some ⟨"", 1, 2⟩, some " 10"⟩ := by
    cbv
  obtain ⟨us, last, same, _, joined⟩ := tokens_append first
  obtain rfl : [_] = us := List.append_inj_left' same rfl
  constructor
  · rw [joined, accepted]
    rfl
  · rw [joined, refused]
    rfl

end Options
end OnePass
