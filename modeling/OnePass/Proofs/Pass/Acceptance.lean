import OnePass.Compilation
import OnePass.Proofs.Pass.Completeness
import OnePass.Proofs.Pass.Soundness
import OnePass.Proofs.Program.NameRules

/-!
Which texts are accepted, and what they are turned into. A pass ends well if and only if the text
is made of tokens, these derive a program, and the program keeps the rules for names; the code and
the names are then those of the tree.
-/

namespace OnePass

namespace Options

variable {o : Options} {file source : String} {ts : List Token} {p : Program} {s : Pass}

theorem pass_at (tokens : o.tokens file source = .ok ts) :
    (o.pass file source).At o.storesFirst ts [] [] := by
  have same : (Token.scanAll o.limit (.start file source)).tokens = ts := by
    unfold Options.tokens Token.Sequence.result at tokens
    split at tokens
    · cases tokens
    · exact Except.ok.inj tokens
  refine ⟨?_, rfl, rfl, rfl⟩
  rw [← same]
  exact Token.yields_tokens_scanAll o.limit (.start file source)

/-- The run over a program ends at its first violation, or with its code and its names. -/
theorem runPass_of_derives (tokens : o.tokens file source = .ok ts)
    (derives : Program.Derives ts p) :
    match p.violation? with
    | none => ∃ s, o.runPass file source = .ok () s ∧ s.code.toList = p.code o.storesFirst ∧
        s.scope.declarations = p.declarations
    | some v => ∃ d s, o.runPass file source = .error d s ∧ v.Explains d := by
  have reached := PassM.reaches_program derives (pass_at tokens)
  cases violation : p.violation? with
  | none =>
    rw [violation] at reached
    obtain ⟨s, ran, here⟩ := reached.run_eq_ok
    refine ⟨_, PassM.bind_of_ok ran, here.code, ?_⟩
    exact here.declarations.trans Program.declarations_eq
  | some v =>
    rw [violation] at reached
    obtain ⟨d, s, ran, explains⟩ := reached.run_eq_error
    exact ⟨d, s, PassM.bind_of_error ran, explains⟩

/-- A text that a pass accepts is made of the tokens of a program, and the pass takes them all. -/
theorem derives_of_runPass (h : o.runPass file source = .ok () s) :
    ∃ ts p, o.tokens file source = .ok ts ∧ Program.Derives ts p ∧
      (o.pass file source).Leads ts s := by
  obtain ⟨_, s', ran, logged⟩ := PassM.bind_eq_ok.mp h
  obtain ⟨ts, leads, finds⟩ := PassM.run_finds ran
  obtain ⟨p, derives⟩ := Goal.derives_of_findAll finds
  obtain ⟨us, t, rfl, last, more⟩ := derives.eof_last
  have yields : (o.pass file source).Yields (us ++ [t]) := by
    simpa using leads.yields s'.yields_nil
  obtain ⟨next, all⟩ :=
    Token.scanAll_of_yields last more ((Pass.yields_of_lookahead_none rfl).mp yields)
  change Token.scanAll o.limit (.start file source) = _ at all
  have tokens : o.tokens file source = .ok (us ++ [t]) := by
    rw [Options.tokens, all]
    rfl
  have same : s'.Leads [] s := by
    rw [← PassM.modify_eq_ok.mp logged]
    exact .of_same rfl rfl rfl rfl
  exact ⟨us ++ [t], p, tokens, derives, by simpa using leads.trans same⟩

/-- An accepted text is a program that keeps the rules for names. -/
theorem accepted_of_runPass (h : o.runPass file source = .ok () s) :
    ∃ ts p, o.tokens file source = .ok ts ∧ Program.Derives ts p ∧ p.IsWellNamed ∧
      s.code.toList = p.code o.storesFirst ∧ s.scope.declarations = p.declarations := by
  obtain ⟨ts, p, tokens, derives, _⟩ := derives_of_runPass h
  have ends := runPass_of_derives tokens derives
  refine ⟨ts, p, tokens, derives, ?_⟩
  rw [Program.isWellNamed_iff]
  cases violation : p.violation? with
  | none =>
    simp only [violation] at ends
    obtain ⟨s', ran, code, declarations⟩ := ends
    obtain rfl : s' = s := by simpa [h] using ran.symm
    exact ⟨rfl, code, declarations⟩
  | some v =>
    simp only [violation] at ends
    obtain ⟨d, s', ran, _⟩ := ends
    simp [h] at ran

theorem accepted_of_compile {c : Compilation} (h : o.compile file source = .ok c) :
    ∃ ts p, o.tokens file source = .ok ts ∧ Program.Derives ts p ∧ p.IsWellNamed ∧
      c.code = p.code o.storesFirst ∧ c.scope.declarations = p.declarations := by
  unfold compile at h
  split at h
  next ran =>
    cases h
    exact accepted_of_runPass ran
  next => cases h

/-- A program that keeps the rules is accepted. -/
theorem exists_compile (tokens : o.tokens file source = .ok ts) (derives : Program.Derives ts p)
    (wellNamed : p.IsWellNamed) : ∃ c, o.compile file source = .ok c := by
  have ends := runPass_of_derives tokens derives
  simp only [Program.isWellNamed_iff.mp wellNamed] at ends
  obtain ⟨s, ran, _⟩ := ends
  exact ⟨⟨file, s.code.toList, s.scope, s.scanned⟩, by rw [compile, ran]⟩

/-- A pass over a text ends well if and only if the text is a program whose names keep the rules.
That program is the only one, and its code and its names are what the pass leaves. -/
theorem runPass_ok_iff_derives (o : Options) (file source : String) :
    ((∃ s, o.runPass file source = .ok () s) ↔
      ∃ ts p, o.tokens file source = .ok ts ∧ Program.Derives ts p ∧ p.IsWellNamed) ∧
    ∀ s, o.runPass file source = .ok () s →
      ∃ ts p, o.tokens file source = .ok ts ∧ (∀ q, Program.Derives ts q ↔ q = p) ∧
        s.code.toList = p.code o.storesFirst ∧ s.scope.declarations = p.declarations := by
  refine ⟨⟨?_, ?_⟩, ?_⟩
  · intro found
    rcases found with ⟨s, ran⟩
    obtain ⟨ts, p, tokens, derives, wellNamed, _⟩ := accepted_of_runPass ran
    exact ⟨ts, p, tokens, derives, wellNamed⟩
  · intro found
    rcases found with ⟨ts, p, tokens, derives, wellNamed⟩
    have ends := runPass_of_derives tokens derives
    simp only [Program.isWellNamed_iff.mp wellNamed] at ends
    obtain ⟨s, ran, _⟩ := ends
    exact ⟨s, ran⟩
  · intro s ran
    obtain ⟨ts, p, tokens, derives, _, code, declarations⟩ := accepted_of_runPass ran
    refine ⟨ts, p, tokens, ?_, code, declarations⟩
    intro q
    constructor
    · intro other
      exact other.unique derives rfl
    · intro same
      subst same
      exact derives

end Options
end OnePass
