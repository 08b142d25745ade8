import OnePass.Compilation
import OnePass.Program.Deferral
import OnePass.Proofs.Pass.Acceptance
import OnePass.Proofs.Program.Deferral
import OnePass.Proofs.Program.Kinds
import OnePass.Proofs.Program.Replacement
import OnePass.Proofs.Token.Spellings

/-!
Texts of one program. A program without the places of its tokens decides whether its texts are
accepted and what they are turned into, and so the texts of a program with initializers and those
of the program with assignments instead are accepted together and turned into the same.
-/

namespace OnePass

/-- A text says a program: under some limit its tokens derive the program, but for places. -/
def Program.HasText (p : Program) (source : String) : Prop :=
  ∃ (o : Options) (file : String) (ts : List Token) (q : Program),
    o.tokens file source = .ok ts ∧ Program.Derives ts q ∧ q.unplaced = p.unplaced

variable {o : Options} {file source : String} {ts us : List Token} {p q : Program}
  {c : Compilation}

theorem Scope.entries_unplaced (s : Scope) :
    s.entries.map Entry.unplaced =
      (s.declarations.map Declaration.unplaced).mapIdx fun slot d => ⟨d, slot⟩ := by
  apply List.ext_getElem?
  intro slot
  cases found : s.declarations[slot]? <;> simp [found, Entry.unplaced]

namespace Program

theorem isWellNamed_of_unplaced (same : q.unplaced = p.unplaced) (h : q.IsWellNamed) :
    p.IsWellNamed := by
  have unplaced : q.unplaced.IsWellNamed := (q.isWellNamed_map_iff Token.keeps_unplaced).mpr h
  rw [same] at unplaced
  exact (p.isWellNamed_map_iff Token.keeps_unplaced).mp unplaced

theorem code_eq_of_unplaced (same : q.unplaced = p.unplaced) (stores : Bool) :
    q.code stores = p.code stores := by
  rw [← q.code_map Token.keeps_unplaced, ← p.code_map Token.keeps_unplaced]
  exact congrArg (code · stores) same

theorem declarations_eq_of_unplaced (same : q.unplaced = p.unplaced) :
    q.declarations.map Declaration.unplaced = p.declarations.map Declaration.unplaced := by
  rw [← q.declarations_map Token.keeps_unplaced, ← p.declarations_map Token.keeps_unplaced]
  exact congrArg (fun p => p.declarations.map Declaration.unplaced) same

theorem numbers_le_of_unplaced {limit : Int} (same : q.unplaced = p.unplaced)
    (within : ∀ t ∈ q.numbers, t.number ≤ limit) : ∀ t ∈ p.numbers, t.number ≤ limit := by
  have numbers := congrArg Program.numbers same
  rw [unplaced, unplaced, numbers_map, numbers_map] at numbers
  intro t member
  have there : t.unplaced ∈ q.numbers.map Token.unplaced := numbers ▸ List.mem_map_of_mem member
  obtain ⟨u, found, alike⟩ := List.mem_map.mp there
  rw [← Token.number_eq_of_unplaced alike]
  exact within u found

theorem Derives.unplaced_eq (h : Program.Derives ts p) (h' : Program.Derives us q)
    (same : ts.map Token.unplaced = us.map Token.unplaced) : p.unplaced = q.unplaced :=
  (h.map Token.keeps_unplaced).unique (h'.map Token.keeps_unplaced) same

theorem Derives.exists_of_unplaced (h : Program.Derives ts p)
    (same : us.map Token.unplaced = ts.map Token.unplaced) :
    ∃ q, Program.Derives us q ∧ q.unplaced = p.unplaced := by
  have kinds : SameKinds us ts := by
    have mapped := congrArg (List.map Token.kind) same
    rwa [List.map_map, List.map_map] at mapped
  obtain ⟨q, derives⟩ := Program.Derives.ofKinds h kinds
  exact ⟨q, derives, derives.unplaced_eq h same⟩

/-- A text has one program at most, but for places. -/
theorem HasText.unplaced_eq (text : p.HasText source) (tokens : o.tokens file source = .ok ts)
    (derives : Program.Derives ts q) : q.unplaced = p.unplaced := by
  obtain ⟨o', file', us, r, tokens', derives', same⟩ := text
  exact (derives.unplaced_eq derives' (Options.unplaced_tokens_eq tokens tokens')).trans same

end Program

namespace Options

/-- A text of a program is accepted if and only if the names keep the rules and the numbers are
within the limit. -/
theorem compile_ok_iff (text : p.HasText source) (o : Options) (file : String) :
    (∃ c, o.compile file source = .ok c) ↔
      p.IsWellNamed ∧ ∀ t ∈ p.numbers, t.number ≤ o.limit := by
  constructor
  · intro found
    rcases found with ⟨c, compiled⟩
    obtain ⟨ts, q, tokens, derives, wellNamed, _⟩ := accepted_of_compile compiled
    have same := text.unplaced_eq tokens derives
    refine ⟨Program.isWellNamed_of_unplaced same wellNamed, ?_⟩
    apply Program.numbers_le_of_unplaced same
    intro t member
    rw [← derives.numerals, Token.mem_numerals_iff] at member
    exact number_le tokens member.1 member.2
  · intro found
    rcases found with ⟨wellNamed, within⟩
    obtain ⟨o', file', ts, q, tokens, derives, same⟩ := text
    have numbers : ∀ t ∈ ts, t.kind = .uint → t.number ≤ o.limit := by
      intro t member kind
      apply Program.numbers_le_of_unplaced same.symm within
      rw [← derives.numerals, Token.mem_numerals_iff]
      exact ⟨member, kind⟩
    obtain ⟨us, read, alike⟩ := exists_tokens_of_numbers file tokens numbers
    obtain ⟨r, reads, again⟩ := derives.exists_of_unplaced alike
    have same' : p.unplaced = r.unplaced := (again.trans same).symm
    exact exists_compile read reads (Program.isWellNamed_of_unplaced same' wellNamed)

/-- What is accepted has the code and the declarations of the program. -/
theorem compile_eq (text : p.HasText source) (h : o.compile file source = .ok c) :
    p.IsWellNamed ∧ c.code = p.code o.storesFirst ∧
      c.scope.declarations.map Declaration.unplaced = p.declarations.map Declaration.unplaced := by
  obtain ⟨ts, q, tokens, derives, wellNamed, code, declarations⟩ := accepted_of_compile h
  have same := text.unplaced_eq tokens derives
  refine ⟨Program.isWellNamed_of_unplaced same wellNamed, ?_, ?_⟩
  · exact code.trans (Program.code_eq_of_unplaced same o.storesFirst)
  · rw [declarations]
    exact Program.declarations_eq_of_unplaced same

/-- A program with assignments for its initializers has a text if it has one with them. -/
theorem exists_text_of_deferred (text : p.HasText source) :
    ∃ source', p.deferred.HasText source' := by
  obtain ⟨o, file, ts, q, tokens, derives, same⟩ := text
  obtain ⟨us, derives', inside⟩ := derives.deferred
  obtain ⟨us, t, rfl, ended, more⟩ := derives'.eof_last
  obtain ⟨source', vs, read, alike⟩ := exists_text_of_tokens file tokens inside more ended
  obtain ⟨r, reads, again⟩ := derives'.exists_of_unplaced alike
  have deferred : q.deferred.unplaced = p.deferred.unplaced := by
    rw [Program.unplaced, ← q.deferred_map, Program.unplaced, ← p.deferred_map]
    exact congrArg Program.deferred same
  exact ⟨source', o, file, vs, r, read, reads, again.trans deferred⟩

/-- A program with assignments in front of its other statements is accepted if and only if the one
with initializers is, and has the same code and the same names. -/
theorem compile_deferred (o : Options) (file file' : String) (text : p.HasText source) :
    (∃ source', p.deferred.HasText source') ∧
    ∀ source', p.deferred.HasText source' →
      ((∃ c, o.compile file source = .ok c) ↔ ∃ c, o.compile file' source' = .ok c) ∧
      ∀ c c', o.compile file source = .ok c → o.compile file' source' = .ok c' →
        c.code = c'.code ∧
          c.scope.entries.map Entry.unplaced = c'.scope.entries.map Entry.unplaced := by
  refine ⟨exists_text_of_deferred text, ?_⟩
  intro source' text'
  refine ⟨?_, ?_⟩
  · rw [compile_ok_iff text, compile_ok_iff text', p.isWellNamed_deferred_iff, p.numbers_deferred]
  · intro c c' here there
    obtain ⟨wellNamed, code, declarations⟩ := compile_eq text here
    obtain ⟨_, code', declarations'⟩ := compile_eq text' there
    rw [p.code_deferred wellNamed.distinct] at code'
    rw [p.declarations_deferred wellNamed.distinct] at declarations'
    refine ⟨code.trans code'.symm, ?_⟩
    rw [Scope.entries_unplaced, Scope.entries_unplaced, declarations, declarations']

theorem compile_deferred_one :
    ∃ (p : Program) (source : String), p.HasText "begin var x=1;end" ∧ p.deferred.HasText source ∧
      ∃ c, ({ limit := 9 } : Options).compile "" source = .ok c ∧ c.code = [.lit 1, .sto 0] := by
  have compiled : ({ limit := 9 } : Options).compile "" "begin var x=1;end" =
      .ok ⟨"", [.lit 1, .sto 0], ⟨[⟨"x", false, true, some ⟨"", 1, 11⟩⟩], by decide⟩, 8⟩ := by
    cbv
  obtain ⟨ts, p, tokens, derives, _⟩ := accepted_of_compile compiled
  have text : p.HasText "begin var x=1;end" := ⟨_, "", ts, p, tokens, derives, rfl⟩
  obtain ⟨⟨source, text'⟩, alike⟩ := compile_deferred { limit := 9 } "" "" text
  obtain ⟨accepted, same⟩ := alike source text'
  obtain ⟨c, compiled'⟩ := accepted.mp ⟨_, compiled⟩
  exact ⟨p, source, text, text', c, compiled', (same _ c compiled compiled').1.symm⟩

end Options
end OnePass
