import Mathlib.Data.Set.Function
import OnePass.Proofs.Pass.Correspondence
import OnePass.Proofs.Pass.FrontEnds

/-!
Only kinds, numbers, and the sameness of names matter. Texts whose tokens differ in names and places
only, with different names for different names, compile to the same code, or fail alike at tokens
with the same position.
-/

namespace OnePass

namespace Token

variable {limit limit' : Int} {c c' next next' : Cursor} {ts us : List Token} {t u : Token}
  {rename : String → String} {p : Pairing}

theorem Opposite.renamed (renamed : List.Forall₂ (Renamed rename) ts us)
    (opposite : Opposite ts us t u) : t.Renamed rename u := by
  obtain ⟨i, here, there⟩ := opposite
  obtain ⟨inside, rfl⟩ := List.getElem?_eq_some_iff.mp here
  obtain ⟨inside', rfl⟩ := List.getElem?_eq_some_iff.mp there
  exact renamed.get inside inside'

theorem Opposite.mem (opposite : Opposite ts us t u) : t ∈ ts := by
  obtain ⟨i, here, _⟩ := opposite
  exact List.mem_of_getElem? here

theorem forall₂_opposite (same : ts.length = us.length) : List.Forall₂ (Opposite ts us) ts us := by
  rw [List.forall₂_iff_get]
  refine ⟨same, ?_⟩
  intro i inside inside'
  exact ⟨i, by simp, by simp⟩

/-- Behind the ends of two texts there are the same ends again. -/
theorem cursors_of_ends (pairs : p.Pairs t u) (ended : t.kind = .eof)
    (scanned : scan limit c = (.ok t, next)) (scanned' : scan limit' c' = (.ok u, next'))
    (n : Nat) : p.Cursors limit limit' n c c' := by
  induction n generalizing c c' with
  | zero => trivial
  | succ n inductionHypothesis =>
    have again := scan_eof_again scanned ended
    have again' := scan_eof_again scanned' ((p.kind pairs).trans ended)
    exact .inl ⟨t, u, next, next', scanned, scanned', pairs, inductionHypothesis again again'⟩

/-- The first of all tokens is scanned first, and the others behind it. -/
theorem exists_scan_of_result (read : (scanAll limit c).result = .ok ts) :
    ∃ t rest next, ts = t :: rest ∧ scan limit c = (.ok t, next) ∧
      (t.kind ≠ .eof → (scanAll limit next).result = .ok rest) := by
  rw [scanAll_eq] at read
  cases scanned : scan limit c with
  | mk result next =>
    rw [scanned] at read
    cases result with
    | error d => cases read
    | ok t =>
      by_cases ended : t.kind = .eof
      · simp only [if_pos ended] at read
        cases read
        exact ⟨t, [], next, rfl, rfl, absurd ended⟩
      · simp only [if_neg ended] at read
        cases stopped : (scanAll limit next).stopped with
        | some d => simp [Sequence.result, Sequence.cons, stopped] at read
        | none =>
          simp only [Sequence.result, Sequence.cons, stopped] at read ⊢
          cases read
          exact ⟨t, _, next, rfl, rfl, fun _ => by rw [stopped]⟩

/-- All tokens of two texts that stand for each other are scanned one by one. -/
theorem cursors_of_results (read : (scanAll limit c).result = .ok ts)
    (read' : (scanAll limit' c').result = .ok us) (all : List.Forall₂ p.Pairs ts us) (n : Nat) :
    p.Cursors limit limit' n c c' := by
  induction all generalizing c c' n with
  | nil =>
    obtain ⟨_, _, _, none, _⟩ := exists_scan_of_result read
    cases none
  | @cons t u ts us pairs _ inductionHypothesis =>
    obtain ⟨_, _, next, ⟨⟩, scanned, behind⟩ := exists_scan_of_result read
    obtain ⟨_, _, next', ⟨⟩, scanned', behind'⟩ := exists_scan_of_result read'
    by_cases ended : t.kind = .eof
    · exact cursors_of_ends pairs ended scanned scanned' n
    · have ended' : u.kind ≠ .eof := by rwa [p.kind pairs]
      cases n with
      | zero => trivial
      | succ n =>
        exact .inl ⟨t, u, next, next', scanned, scanned', pairs,
          inductionHypothesis (behind ended) (behind' ended') n⟩

end Token

/-- Tokens with the same position stand for each other where names are renamed to other names. -/
def Pairing.ofRenaming {ts us : List Token} {rename : String → String}
    (renamed : List.Forall₂ (Token.Renamed rename) ts us)
    (injective : Set.InjOn rename {name | ∃ t ∈ ts, t.kind = .ident ∧ t.spelling = name}) :
    Pairing where
  Pairs := Token.Opposite ts us
  kind opposite := (opposite.renamed renamed).kind
  number opposite := (opposite.renamed renamed).number
  name opposite opposite' ident ident' := by
    rw [(opposite.renamed renamed).name ident, (opposite'.renamed renamed).name ident']
    exact (injective.eq_iff ⟨_, opposite.mem, ident, rfl⟩ ⟨_, opposite'.mem, ident', rfl⟩).symm

theorem Pairing.Scopes.renamed {ts us : List Token} {rename : String → String}
    {renamed : List.Forall₂ (Token.Renamed rename) ts us}
    {injective : Set.InjOn rename {name | ∃ t ∈ ts, t.kind = .ident ∧ t.spelling = name}}
    {scope scope' : Scope} (scopes : (ofRenaming renamed injective).Scopes scope scope') :
    List.Forall₂ (Declaration.Renamed rename) scope.declarations scope'.declarations := by
  apply List.Forall₂.imp _ scopes
  rintro _ _ ⟨opposite, ident⟩
  exact ⟨(opposite.renamed renamed).name ident, rfl, rfl⟩

namespace Options

variable {file file' source source' : String} {ts us : List Token}

/-- Where a text has tokens, no failure is at a lexeme that is none. -/
theorem phase_of_runPass_error {o : Options} {d : Diagnostic} {s : Pass}
    (tokens : o.tokens file source = .ok ts) (failed : o.runPass file source = .error d s) :
    d.cause.phase = .syntactic := by
  rcases refused_or_at_token failed with refused | ⟨syntactic, _⟩
  · rw [tokens] at refused
    cases refused
  · exact syntactic

/-- A text whose tokens are those of another one but for their names and places compiles to the same
code, with the same names but for the renaming. If the one fails, the other fails for the same cause
at the token with the same position, with the same code before. -/
theorem runPass_renamed (o : Options) (rename : String → String)
    (tokens : o.tokens file source = .ok ts) (tokens' : o.tokens file' source' = .ok us)
    (renamed : List.Forall₂ (Token.Renamed rename) ts us)
    (injective : Set.InjOn rename {name | ∃ t ∈ ts, t.kind = .ident ∧ t.spelling = name}) :
    match o.runPass file source, o.runPass file' source' with
    | .ok _ s, .ok _ s' => s'.code = s.code ∧ s'.scanned = s.scanned ∧
        List.Forall₂ (Declaration.Renamed rename) s.scope.declarations s'.scope.declarations
    | .error d s, .error e s' => s'.code = s.code ∧
        List.Forall₂ (Declaration.Renamed rename) s.scope.declarations s'.scope.declarations ∧
        ∃ t u, Token.Opposite ts us t u ∧ d.location = some t.start ∧ e.location = some u.start ∧
          d.cause.Corresponds (Token.Opposite ts us) t u e.cause
    | _, _ => False := by
  have all := Token.forall₂_opposite renamed.length_eq
  have results := o.runPass_results (p := .ofRenaming renamed injective)
    (Token.cursors_of_results tokens tokens' all)
  cases ran : o.runPass file source with
  | ok _ s =>
    cases ran' : o.runPass file' source' with
    | ok _ s' =>
      rw [ran, ran'] at results
      obtain ⟨_, passes⟩ := results
      exact ⟨passes.code, passes.scanned, passes.scopes.renamed⟩
    | error e s' =>
      rw [ran, ran'] at results
      exact results
  | error d s =>
    cases ran' : o.runPass file' source' with
    | ok _ s' =>
      rw [ran, ran'] at results
      exact results
    | error e s' =>
      rw [ran, ran'] at results
      obtain ⟨⟨lexical, _⟩ | ⟨t, u, opposite, place, place', causes⟩, finds⟩ := results
      · rw [phase_of_runPass_error tokens ran] at lexical
        cases lexical
      · exact ⟨finds.code, finds.scopes.renamed, t, u, opposite, place, place',
          causes.imp fun _ _ => And.left⟩

/-- Line breaks, blanks, zeros in front of a number, and other names change nothing. -/
theorem runPass_renamed_respaced :
    ∃ u e s', ({ limit := 9 } : Options).runPass "b" "begin\nconst y = 007 ;" = .error e s' ∧
      s'.code = #[.lit 7] ∧ e.location = some u.start ∧ e.cause = .unexpected [.endWord] u := by
  obtain ⟨s, failed, code⟩ : ∃ s, ({ limit := 9 } : Options).runPass "a" "begin const x=7;" =
      .error ⟨.unexpected [.endWord] ⟨.eof, .nothing, ⟨"a", 1, 17⟩, ⟨"a", 1, 17⟩⟩,
        some ⟨"a", 1, 17⟩, some "begin const x=7;"⟩ s ∧ s.code = #[.lit 7] :=
    ⟨_, by cbv, rfl⟩
  have tokens : ({ limit := 9 } : Options).tokens "a" "begin const x=7;" =
      .ok [⟨.beginWord, .text "begin", ⟨"a", 1, 1⟩, ⟨"a", 1, 6⟩⟩,
        ⟨.constWord, .text "const", ⟨"a", 1, 7⟩, ⟨"a", 1, 12⟩⟩,
        ⟨.ident, .text "x", ⟨"a", 1, 13⟩, ⟨"a", 1, 14⟩⟩,
        ⟨.equals, .text "=", ⟨"a", 1, 14⟩, ⟨"a", 1, 15⟩⟩,
        ⟨.uint, .number 7, ⟨"a", 1, 15⟩, ⟨"a", 1, 16⟩⟩,
        ⟨.semicolon, .text ";", ⟨"a", 1, 16⟩, ⟨"a", 1, 17⟩⟩,
        ⟨.eof, .nothing, ⟨"a", 1, 17⟩, ⟨"a", 1, 17⟩⟩] := by
    cbv
  have tokens' : ({ limit := 9 } : Options).tokens "b" "begin\nconst y = 007 ;" =
      .ok [⟨.beginWord, .text "begin", ⟨"b", 1, 1⟩, ⟨"b", 1, 6⟩⟩,
        ⟨.constWord, .text "const", ⟨"b", 2, 1⟩, ⟨"b", 2, 6⟩⟩,
        ⟨.ident, .text "y", ⟨"b", 2, 7⟩, ⟨"b", 2, 8⟩⟩,
        ⟨.equals, .text "=", ⟨"b", 2, 9⟩, ⟨"b", 2, 10⟩⟩,
        ⟨.uint, .number 7, ⟨"b", 2, 11⟩, ⟨"b", 2, 14⟩⟩,
        ⟨.semicolon, .text ";", ⟨"b", 2, 15⟩, ⟨"b", 2, 16⟩⟩,
        ⟨.eof, .nothing, ⟨"b", 2, 16⟩, ⟨"b", 2, 16⟩⟩] := by
    cbv
  have alike := runPass_renamed _ (fun _ => "y") tokens tokens'
    (by simp [Token.renamed_iff, Token.number, Token.spelling]) (by simp)
  rw [failed] at alike
  cases failed' : ({ limit := 9 } : Options).runPass "b" "begin\nconst y = 007 ;" with
  | ok _ s' =>
    rw [failed'] at alike
    exact alike.elim
  | error e s' =>
    rw [failed'] at alike
    obtain ⟨same, _, t, u, _, _, place, causes⟩ := alike
    generalize shown : e.cause = cause at causes
    cases causes
    exact ⟨u, e, s', rfl, same.trans code, place, shown⟩

end Options
end OnePass
