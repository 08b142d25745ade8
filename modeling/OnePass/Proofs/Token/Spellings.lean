import OnePass.Program.Replacement
import OnePass.Proofs.Token.Layouts

/-!
What the tokens of a text are without their places. They come from the lexemes alone: the name of
the text and its blanks do not matter, and the limit only decides which numerals are allowed.
Lexemes with a blank before each of them can be read in any order, so there is a text for every
sequence of tokens that stand somewhere in a text already.
-/

namespace OnePass

theorem Token.number_eq_of_unplaced {t u : Token} (same : t.unplaced = u.unplaced) :
    t.number = u.number := by
  have number : t.unplaced.number = u.unplaced.number := congrArg Token.number same
  exact number

/-- The limit matters to numerals only. -/
theorem Lexeme.fault?_of_number {limit limit' : Int} {x : Lexeme} (accepted : x.fault? limit = none)
    (number : x.kind = .uint → (x.token (.start "")).number ≤ limit') :
    x.fault? limit' = none := by
  cases x with
  | word cs => rfl
  | numeral ds => exact fault?_numeral_iff.mpr (number rfl)
  | mark c => exact accepted

theorem Lexeme.number_le {limit : Int} {x : Lexeme} (formed : x.isFormed = true)
    (accepted : x.fault? limit = none) (kind : x.kind = .uint) :
    (x.token (.start "")).number ≤ limit := by
  have valid := isValid_of_isFormed formed accepted
  cases x with
  | word cs => exact absurd kind (kind_word_ne (by decide))
  | numeral ds => exact fault?_numeral_iff.mp accepted
  | mark c => exact absurd kind (kind_mark_ne valid (by decide))

/-- A token that a lexeme is read as. -/
def Token.IsSpelled (limit : Int) (t : Token) : Prop :=
  ∃ y : Lexeme, (y.isFormed = true ∧ y.fault? limit = none) ∧ (y.token (.start "")).unplaced = t

theorem Token.exists_lexemes {limit : Int} {ts : List Token}
    (all : ∀ t ∈ ts, t.IsSpelled limit) :
    ∃ ys : List Lexeme, (∀ y ∈ ys, y.isFormed = true ∧ y.fault? limit = none) ∧
      (ys.map fun y => (y.token (.start "")).unplaced) = ts := by
  induction ts with
  | nil => exact ⟨[], by simp, rfl⟩
  | cons t ts inductionHypothesis =>
    rw [List.forall_mem_cons] at all
    obtain ⟨⟨y, accepted, rfl⟩, others⟩ := all
    obtain ⟨ys, every, rfl⟩ := inductionHypothesis others
    exact ⟨y :: ys, List.forall_mem_cons.mpr ⟨accepted, every⟩, rfl⟩

/-- A number that has been scanned is within the limit. -/
theorem Cursor.Scans.number_le {limit : Int} {c c' : Cursor} {ts : List Token} {t : Token}
    (scans : c.Scans limit ts c') (member : t ∈ ts) (kind : t.kind = .uint) :
    0 ≤ t.number ∧ t.number ≤ limit := by
  induction ts generalizing c with
  | nil => cases member
  | cons u ts inductionHypothesis =>
    obtain ⟨next, scanned, scans⟩ := scans
    rcases List.mem_cons.mp member with rfl | later
    · obtain ⟨gap, x, _, _, _, formed, _, same, _⟩ :=
        Token.exists_lexeme_of_scan scanned (by simp [Except.toOption, kind])
      obtain ⟨accepted, rfl⟩ := Token.ofLexeme_eq_ok.mp same.symm
      refine ⟨?_, Lexeme.number_le formed accepted kind⟩
      cases x with
      | numeral ds => exact Int.natCast_nonneg _
      | word cs | mark c => exact Int.le_refl 0
    · exact inductionHypothesis scans later

namespace Layout

variable {limit limit' : Int} {xs : List (List Char × Lexeme)} {ys : List Lexeme}
  {tail : List Char} {l : Layout} {source : String}

/-- The tokens of lexemes without their places. -/
def kindsAndValues (l : Layout) : List Token :=
  (l.lexemes.map fun p => (p.2.token (.start "")).unplaced) ++
    [⟨.eof, .nothing, .start "", .start ""⟩]

theorem unplaced_lexemeTokens (start : Location) (xs : List (List Char × Lexeme)) :
    (lexemeTokens start xs).map Token.unplaced =
      xs.map fun p => (p.2.token (.start "")).unplaced := by
  induction xs generalizing start with
  | nil => rfl
  | cons p xs inductionHypothesis =>
    rw [lexemeTokens, List.map_cons, List.map_cons, inductionHypothesis]
    rfl

theorem kinds_lexemeTokens (start : Location) (xs : List (List Char × Lexeme)) :
    (lexemeTokens start xs).map Token.kind = xs.map fun p => p.2.kind := by
  have kinds := congrArg (List.map Token.kind) (unplaced_lexemeTokens start xs)
  rwa [List.map_map, List.map_map] at kinds

theorem unplaced_tokens (start : Location) (l : Layout) :
    (l.tokens start).map Token.unplaced = l.kindsAndValues := by
  rw [tokens, tokensFrom_eq, List.map_append, unplaced_lexemeTokens]
  rfl

theorem isOf_of_faults (h : l.IsOf limit source)
    (accepted : ∀ p ∈ l.lexemes, p.2.fault? limit = none → p.2.fault? limit' = none) :
    l.IsOf limit' source := by
  obtain ⟨valid, within, same⟩ := h
  simp only [isWithin, List.all_eq_true, Option.isNone_iff_eq_none] at within
  refine ⟨valid, ?_, same⟩
  simp only [isWithin, List.all_eq_true, Option.isNone_iff_eq_none]
  intro p member
  exact accepted p member (within p member)

/-- Lexemes with a blank before each of them. -/
def spaced (ys : List Lexeme) : List (List Char × Lexeme) := ys.map fun y => ([' '], y)

theorem isSeparated_spaced (separated : isSeparated xs = true) (ys : List Lexeme) :
    isSeparated (xs ++ spaced ys) = true := by
  induction ys generalizing xs with
  | nil => simpa [spaced] using separated
  | cons y ys inductionHypothesis =>
    have more : isSeparated (xs ++ [([' '], y)]) = true :=
      (isSeparated_concat xs [' '] _).mpr ⟨separated, by simp⟩
    simpa [spaced] using inductionHypothesis more

/-- What is read can be followed by any tokens. -/
theorem reads_spaced (reads : Reads limit xs tail)
    (tokens : ∀ y ∈ ys, y.isFormed = true ∧ y.fault? limit = none) :
    Reads limit (xs ++ spaced ys) [] := by
  obtain ⟨all, separated, _⟩ := reads_iff.mp reads
  refine reads_iff.mpr ⟨?_, isSeparated_spaced separated ys, by simp⟩
  intro p member
  rcases List.mem_append.mp member with before | behind
  · exact all p before
  · obtain ⟨y, there, rfl⟩ := List.mem_map.mp behind
    exact ⟨List.forall_mem_singleton.mpr rfl, tokens y there⟩

theorem reads_mono (le : limit ≤ limit') (reads : Reads limit xs tail) : Reads limit' xs tail := by
  obtain ⟨all, others⟩ := reads_iff.mp reads
  refine reads_iff.mpr ⟨?_, others⟩
  intro p member
  obtain ⟨blank, formed, accepted⟩ := all p member
  exact ⟨blank, formed, Lexeme.fault?_eq_none_mono le accepted⟩

end Layout

namespace Options

variable {o o' : Options} {file file' source : String} {ts us : List Token} {t : Token}

theorem exists_layout (tokens : o.tokens file source = .ok ts) :
    ∃ l : Layout, l.IsOf o.limit source ∧ ts = l.tokens (.start file) := by
  rcases Layout.exists_isOf_or_isStopped o.limit source with ⟨l, whole⟩ | ⟨l, x, cause, stopped⟩
  · rw [tokens_of_isOf whole] at tokens
    exact ⟨l, whole, (Except.ok.inj tokens).symm⟩
  · rw [tokens_of_isStopped stopped] at tokens
    cases tokens

/-- The tokens of a text are those of lexemes and the end of the input. -/
theorem exists_lexeme_of_mem (tokens : o.tokens file source = .ok ts) (member : t ∈ ts) :
    (∃ x : Lexeme, x.isFormed = true ∧ x.fault? o.limit = none ∧
      t.unplaced = (x.token (.start "")).unplaced) ∨
    t.unplaced = ⟨.eof, .nothing, .start "", .start ""⟩ := by
  obtain ⟨l, ⟨valid, within, _⟩, rfl⟩ := exists_layout tokens
  obtain ⟨all, _⟩ := Layout.isValid_isWithin_iff.mp ⟨valid, within⟩
  have there := List.mem_map_of_mem (f := Token.unplaced) member
  rw [Layout.unplaced_tokens] at there
  rcases List.mem_append.mp there with lexeme | last
  · obtain ⟨p, found, same⟩ := List.mem_map.mp lexeme
    obtain ⟨_, formed, accepted⟩ := all p found
    exact .inl ⟨p.2, formed, accepted, same.symm⟩
  · exact .inr (List.mem_singleton.mp last)

/-- A number is within the limit. -/
theorem number_le (tokens : o.tokens file source = .ok ts) (member : t ∈ ts)
    (kind : t.kind = .uint) : t.number ≤ o.limit := by
  rcases exists_lexeme_of_mem tokens member with ⟨x, formed, accepted, same⟩ | last
  · have numeral : x.kind = .uint := (congrArg Token.kind same).symm.trans kind
    rw [Token.number_eq_of_unplaced same]
    exact Lexeme.number_le formed accepted numeral
  · have ended : t.kind = .eof := congrArg Token.kind last
    cases kind.symm.trans ended

/-- The tokens of a text without their places are the same wherever they are allowed. -/
theorem unplaced_tokens_eq (tokens : o.tokens file source = .ok ts)
    (tokens' : o'.tokens file' source = .ok us) :
    ts.map Token.unplaced = us.map Token.unplaced := by
  obtain ⟨l, whole, rfl⟩ := exists_layout tokens
  obtain ⟨l', whole', rfl⟩ := exists_layout tokens'
  -- Under the greater of both limits both layouts are layouts of the text.
  have first : l.IsOf (max o.limit o'.limit) source :=
    Layout.isOf_of_faults whole fun _ _ => Lexeme.fault?_eq_none_mono (Int.le_max_left ..)
  have second : l'.IsOf (max o.limit o'.limit) source :=
    Layout.isOf_of_faults whole' fun _ _ => Lexeme.fault?_eq_none_mono (Int.le_max_right ..)
  have read : ({ limit := max o.limit o'.limit } : Options).tokens "" source =
      .ok (l.tokens (.start "")) := tokens_of_isOf first
  rw [tokens_of_isOf second] at read
  rw [Layout.unplaced_tokens, Layout.unplaced_tokens, ← Layout.unplaced_tokens (.start "") l,
    ← Layout.unplaced_tokens (.start "") l', Except.ok.inj read]

/-- Where every number is within a limit, the lexemes are tokens under it. -/
theorem isOf_of_numbers {l : Layout} (whole : l.IsOf o.limit source)
    (numbers : ∀ t ∈ l.tokens (.start file), t.kind = .uint → t.number ≤ o'.limit) :
    l.IsOf o'.limit source := by
  apply Layout.isOf_of_faults whole
  intro p member accepted
  apply Lexeme.fault?_of_number accepted
  intro kind
  have there :
      (p.2.token (.start "")).unplaced ∈ (l.tokens (.start file)).map Token.unplaced := by
    rw [Layout.unplaced_tokens]
    exact List.mem_append_left _ (List.mem_map_of_mem member)
  obtain ⟨t, found, same⟩ := List.mem_map.mp there
  rw [← Token.number_eq_of_unplaced same]
  exact numbers t found ((congrArg Token.kind same).trans kind)

theorem exists_tokens_of_numbers (file' : String) (tokens : o.tokens file source = .ok ts)
    (numbers : ∀ t ∈ ts, t.kind = .uint → t.number ≤ o'.limit) :
    ∃ us, o'.tokens file' source = .ok us ∧ us.map Token.unplaced = ts.map Token.unplaced := by
  obtain ⟨l, whole, rfl⟩ := exists_layout tokens
  refine ⟨_, tokens_of_isOf (isOf_of_numbers whole numbers), ?_⟩
  rw [Layout.unplaced_tokens, Layout.unplaced_tokens]

theorem isSpelled_of_kind (tokens : o.tokens file source = .ok ts) (member : t ∈ ts)
    (more : t.kind ≠ .eof) : t.unplaced.IsSpelled o.limit := by
  rcases exists_lexeme_of_mem tokens member with ⟨x, formed, accepted, same⟩ | last
  · exact ⟨x, ⟨formed, accepted⟩, same.symm⟩
  · exact absurd (congrArg Token.kind last) more

theorem unplaced_of_kind (tokens : o.tokens file source = .ok ts) (member : t ∈ ts)
    (ended : t.kind = .eof) : t.unplaced = ⟨.eof, .nothing, .start "", .start ""⟩ := by
  rcases exists_lexeme_of_mem tokens member with ⟨x, formed, accepted, same⟩ | last
  · have kind : t.kind = x.kind := congrArg Token.kind same
    exact absurd (kind ▸ ended) (Lexeme.kind_ne_eof (Lexeme.isValid_of_isFormed formed accepted))
  · exact last

/-- Lexemes have a text, in whatever order they stand. -/
theorem exists_text_of_lexemes (o : Options) (file : String) {ys : List Lexeme}
    (all : ∀ y ∈ ys, y.isFormed = true ∧ y.fault? o.limit = none) :
    ∃ source us, o.tokens file source = .ok us ∧ us.map Token.unplaced =
      (ys.map fun y => (y.token (.start "")).unplaced) ++ [⟨.eof, .nothing, .start "", .start ""⟩] := by
  have nothing : Layout.Reads o.limit [] [] := trivial
  have reads := Layout.reads_spaced nothing all
  have text := String.toList_ofList (l := Layout.text ⟨Layout.spaced ys, []⟩)
  have read := Token.result_of_blank (c := .start file (String.ofList _)) text reads (by simp)
  refine ⟨_, _, read, ?_⟩
  rw [Layout.unplaced_tokens, Layout.kindsAndValues, Layout.spaced, List.map_map]
  rfl

/-- Tokens of a text have a text of their own, in whatever order they stand. -/
theorem exists_text_of_tokens (file' : String) (tokens : o.tokens file source = .ok ts)
    (inside : us ++ [t] ⊆ ts) (more : ∀ u ∈ us, u.kind ≠ .eof) (ended : t.kind = .eof) :
    ∃ source' us', o.tokens file' source' = .ok us' ∧
      us'.map Token.unplaced = (us ++ [t]).map Token.unplaced := by
  obtain ⟨others, last⟩ := List.append_subset.mp inside
  have spelled : ∀ u ∈ us.map Token.unplaced, u.IsSpelled o.limit :=
    List.forall_mem_map.mpr fun u member => isSpelled_of_kind tokens (others member) (more u member)
  obtain ⟨ys, all, same⟩ := Token.exists_lexemes spelled
  have final := unplaced_of_kind tokens (last List.mem_cons_self) ended
  obtain ⟨source', us', read, again⟩ := exists_text_of_lexemes o file' all
  refine ⟨source', us', read, ?_⟩
  rw [again, List.map_append, same, List.map_singleton, final]

end Options
end OnePass
