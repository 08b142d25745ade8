import OnePass.Proofs.Pass.Constants
import OnePass.Proofs.Pass.Failing
import OnePass.Proofs.Pass.Heights
import OnePass.Proofs.Pass.Modes
import OnePass.Proofs.Pass.Steps
import OnePass.Proofs.Token.Spellings

/-!
Operands of instructions. What an operand may be depends on the names there are when its instruction
is emitted, and on the code before it. The constants come first: they fill the first slots, and
their values are the first instructions. Behind them, what is loaded has been given a value before,
and what is stored into is a variable, wherever the pass ends.
-/

namespace OnePass

open Relation

namespace Instruction

/-- What the operand of an instruction may be under a limit, where these are the constants, with the
names there are and the code before it. A value is within the limit, and is negative as that of a
constant only. What is loaded has a value: that of a constant is the instruction at its slot, and
that of a variable has been stored, where first values are stored. What is stored into is a
variable. -/
def Admissible (limit : Int) (stores : Bool) (cs : List ConstantDeclaration) (scope : Scope)
    (before : List Instruction) : Instruction → Prop
  | lit value =>
    (value = 0 ∨ (value.natAbs : Int) ≤ limit) ∧ (value < 0 → before.length < cs.length)
  | lod slot =>
    ∃ e ∈ scope.entries, (e.slot : Int) = slot ∧ e.declaration.isInitialized = true ∧
      if e.declaration.isConstant then
        ∃ c, cs[e.slot]? = some c ∧ e.declaration = c.declaration ∧
          before[e.slot]? = some (.lit c.value)
      else stores = true → .sto slot ∈ before
  | sto slot =>
    ∃ e ∈ scope.entries, (e.slot : Int) = slot ∧ e.declaration.isConstant = false
  | operate _ | wrt => True

end Instruction

/-- An element of two lists in a row stands in the first one or in the second one. -/
theorem mem_append_split {α : Type} {xs ys before after : List α} {x : α}
    (split : xs ++ ys = before ++ x :: after) :
    (∃ others, xs = before ++ x :: others) ∨
      ∃ others, before = xs ++ others ∧ ys = others ++ x :: after := by
  rcases List.append_eq_append_iff.mp split with ⟨others, rfl, rest⟩ | ⟨others, rfl, rest⟩
  · exact .inr ⟨others, rfl, rest⟩
  · cases others with
    | nil => exact .inr ⟨[], by simp, rest.symm⟩
    | cons y others =>
      obtain ⟨rfl, _⟩ := List.cons.inj rest
      exact .inl ⟨others, rfl⟩

/-! ### Where instructions come from -/

/-- A step emits one instruction at most. -/
theorem Goal.Does.length_le {scope scope' : Scope} {g : Goal} {goals : List Goal}
    {added : Bool → List Instruction} (does : Does scope g goals scope' added) (stores : Bool) :
    (added stores).length ≤ 1 := by
  cases does with
  | variableEnd | firstAssignment =>
    dsimp only
    split <;> simp
  | _ => simp

namespace PassM

open Goal

variable {s s' : Pass} {goals : List Goal} {scope : Scope} {i : Instruction}
  {before after : List (Scope × Instruction)}

/-- What is emitted is emitted by a step of the run, and the code then is what has been emitted
before. -/
theorem exists_step_of_emissions (split : emissions goals s = before ++ (scope, i) :: after) :
    ∃ g rest gs t t', ReflTransGen Move (goals, s) (g :: rest, t) ∧ step g t = .ok gs t' ∧
      t'.scope = scope ∧ t.code.toList = s.code.toList ++ before.map Prod.snd ∧
      t'.code.toList = t.code.toList ++ [i] := by
  fun_induction run goals s generalizing before with
  | case1 s => simp [emissions] at split
  | case2 s g rest goals s' taken inductionHypothesis =>
    obtain ⟨added, does, _, code, _⟩ := does_of_step taken
    have short := does.length_le s.storesFirst
    rw [emissions_of_step taken code] at split
    -- The instruction is the one that this step emits, or is emitted behind it.
    cases emitted : added s.storesFirst with
    | nil =>
      rw [emitted] at split code
      obtain ⟨g', rest', gs, t, t', moves, took, names, start, adds⟩ := inductionHypothesis split
      rw [code, List.append_nil] at start
      exact ⟨g', rest', gs, t, t', .head (.take taken) moves, took, names, start, adds⟩
    | cons j js =>
      obtain rfl : js = [] := by simpa [emitted] using short
      rw [emitted] at split code
      cases before with
      | nil =>
        obtain ⟨⟨rfl, rfl⟩, _⟩ : (s'.scope = scope ∧ j = i) ∧ _ := by simpa using split
        exact ⟨g, rest, goals, s, s', .refl, taken, rfl, by simp, code⟩
      | cons first before =>
        obtain ⟨rfl, others⟩ := List.cons.inj split
        obtain ⟨g', rest', gs, t, t', moves, took, names, start, adds⟩ :=
          inductionHypothesis others
        refine ⟨g', rest', gs, t, t', .head (.take taken) moves, took, names, ?_, adds⟩
        rw [start, code, List.append_assoc]
        rfl
  | case3 s g rest d s' failed =>
    rw [emissions_cons, failed] at split
    simp at split

/-- A run ends with the names and the code of the last state that it has reached. -/
theorem exists_moves_to_final (goals : List Goal) (s : Pass) :
    ∃ c, ReflTransGen Move (goals, s) c ∧ (final (run goals s)).scope = c.2.scope ∧
      (final (run goals s)).code = c.2.code := by
  fun_induction run goals s with
  | case1 s => exact ⟨_, .refl, rfl, rfl⟩
  | case2 s g rest goals s' taken inductionHypothesis =>
    obtain ⟨c, moves, scope, code⟩ := inductionHypothesis
    exact ⟨c, .head (.take taken) moves, scope, code⟩
  | case3 s g rest d s' failed =>
    exact ⟨(g :: rest, s), .refl, scope_of_step_error failed, (coded_of_step_error failed).1⟩

end PassM

/-! ### Numbers -/

/-- The numbers of constants stand in the text. -/
theorem DerivesEach.number_mem {ts : List Token} {cs : List ConstantDeclaration}
    {c : ConstantDeclaration} (derives : DerivesEach ConstantDeclaration.Derives ts cs)
    (member : c ∈ cs) : c.number ∈ ts ∧ c.number.kind = .uint := by
  induction derives with
  | nil => cases member
  | cons derived _ inductionHypothesis =>
    rcases List.mem_cons.mp member with rfl | later
    · cases derived with
      | mk _ _ _ _ kind _ => exact ⟨by simp, kind⟩
    · obtain ⟨there, kind⟩ := inductionHypothesis later
      exact ⟨List.mem_append_right _ there, kind⟩

theorem ConstantDeclaration.natAbs_value (c : ConstantDeclaration) :
    c.value.natAbs = c.number.number.natAbs := by
  unfold value
  split
  · exact Int.natAbs_neg _
  · rfl

/-- An operand's number is that of the token taken. -/
theorem PassM.exists_number_of_step {s s' : Pass} {goals : List Goal} {n : Int}
    (taken : step .operand s = .ok goals s') (code : s'.code.toList = s.code.toList ++ [.lit n]) :
    ∃ t, t.kind = .uint ∧ t.number = n ∧ s.Leads [t] s' := by
  simp only [step] at taken
  obtain ⟨t, u, peeked, taken⟩ := bind_eq_ok.1 taken
  obtain ⟨held, first⟩ := peek_leads peeked
  have unchanged := (looks_peek.same peeked).2.2
  cases kind : t.kind <;> simp only [kind] at taken
  case ident =>
    simp only [bind_eq_ok, pure_eq_ok] at taken
    obtain ⟨_, v, dropped, e, w, resolved, _, _, emitted, rfl, rfl⟩ := taken
    have same := (looks_drop.same dropped).2.2
    rw [readable_ok resolved] at emitted
    rw [← modify_eq_ok.mp emitted] at code
    simp [same, unchanged] at code
  case uint =>
    simp only [bind_eq_ok, pure_eq_ok] at taken
    obtain ⟨_, v, dropped, _, _, emitted, rfl, rfl⟩ := taken
    have same := (looks_drop.same dropped).2.2
    have leads := first.trans ((drop_leads held dropped).trans (emit_leads emitted))
    rw [← modify_eq_ok.mp emitted] at code
    refine ⟨t, kind, ?_, leads⟩
    simpa [same, unchanged] using code
  case lparen =>
    simp only [bind_eq_ok, pure_eq_ok] at taken
    obtain ⟨_, _, dropped, rfl, rfl⟩ := taken
    rw [(looks_drop.same dropped).2.2, unchanged] at code
    simp at code
  all_goals exact absurd taken refuse_ne_ok

/-! ### Names and code behind the constants -/

/-- The names begin with these constants, and the other names are variables. -/
def Scope.HasConstants (scope : Scope) (cs : List ConstantDeclaration) : Prop :=
  ∃ ds, scope.declarations = cs.map ConstantDeclaration.declaration ++ ds ∧
    ∀ d ∈ ds, d.isConstant = false

namespace Scope.HasConstants

variable {scope scope' : Scope} {cs : List ConstantDeclaration} {d : Declaration} {e : Entry}
  {name : String}

theorem exists_constant (has : scope.HasConstants cs) (member : e ∈ scope.entries)
    (constant : e.declaration.isConstant = true) :
    ∃ c, cs[e.slot]? = some c ∧ e.declaration = c.declaration := by
  obtain ⟨ds, whole, others⟩ := has
  rw [mem_entries_iff, whole, List.getElem?_append] at member
  split at member
  · rw [List.getElem?_map] at member
    obtain ⟨c, found, same⟩ := Option.map_eq_some_iff.mp member
    exact ⟨c, found, same.symm⟩
  · rw [others _ (List.mem_of_getElem? member)] at constant
    cases constant

theorem declare (has : scope.HasConstants cs) (declared : scope.declare d = .ok scope')
    (assigned : d.isConstant = false) : scope'.HasConstants cs := by
  obtain ⟨ds, whole, others⟩ := has
  refine ⟨ds ++ [d], ?_, ?_⟩
  · rw [declarations_of_declare declared, whole, List.append_assoc]
  · simpa [or_imp, forall_and] using ⟨others, assigned⟩

theorem withValue (has : scope.HasConstants cs) (found : scope.find? name = some e)
    (assigned : e.declaration.isConstant = false) : (scope.withValue name).HasConstants cs := by
  obtain ⟨ds, whole, others⟩ := has
  have there := mem_entries_iff.mp (mem_entries_of_find? found).1
  have behind : (cs.map ConstantDeclaration.declaration).length ≤ e.slot := by
    rw [whole] at there
    by_contra within
    rw [List.getElem?_append_left (Nat.lt_of_not_le within), List.getElem?_map] at there
    obtain ⟨c, _, same⟩ := Option.map_eq_some_iff.mp there
    rw [← same] at assigned
    cases assigned
  refine ⟨ds.set (e.slot - (cs.map ConstantDeclaration.declaration).length)
    e.declaration.initialized, ?_, ?_⟩
  · rw [declarations_withValue found, whole, List.set_append_right _ _ behind]
  · intro d member
    rcases List.mem_or_eq_of_mem_set member with old | rfl
    · exact others d old
    · exact assigned

end Scope.HasConstants

theorem ConstantDeclaration.flatMap_code (cs : List ConstantDeclaration) :
    cs.flatMap ConstantDeclaration.code = cs.map fun c => .lit c.value :=
  List.map_eq_flatMap.symm

theorem ConstantDeclaration.getElem?_code {cs : List ConstantDeclaration} {c : ConstantDeclaration}
    {before : List Instruction} {k : Nat}
    (front : cs.flatMap ConstantDeclaration.code <+: before) (found : cs[k]? = some c) :
    before[k]? = some (.lit c.value) := by
  obtain ⟨rest, rfl⟩ := front
  obtain ⟨bound, _⟩ := List.getElem?_eq_some_iff.mp found
  rw [flatMap_code, List.getElem?_append_left (by simpa using bound), List.getElem?_map, found]
  rfl

namespace Goal

/-- The goals behind the constants. They declare variables only, and what they have left to emit
has no operand. -/
def isLater : Goal → Bool
  | consts | constantName | constantValue _ | constantEnd _ _ => false
  | emit i => i.operand?.isNone
  | _ => true

variable {scope scope' : Scope} {g : Goal} {goals : List Goal} {added : Bool → List Instruction}
  {cs : List ConstantDeclaration} {limit : Int} {stores : Bool} {before : List Instruction}

theorem Begins.later (begins : Begins scope goals) : ∀ h ∈ goals, h.isLater = true := by
  cases begins <;> simp [isLater, Instruction.operand?]

theorem Continues.later (continues : Continues scope g goals) (later : g.isLater = true) :
    ∀ h ∈ goals, h.isLater = true := by
  cases continues
  case anotherStatement begins =>
    rw [List.forall_mem_append]
    exact ⟨begins.later, by simp [isLater]⟩
  case statement begins | assignment begins | output begins => exact begins.later
  case anotherConstant | noConstant | constantName | constantValue => cases later
  all_goals simp [isLater, Instruction.operand?]

theorem Does.later (does : Does scope g goals scope' added) (later : g.isLater = true) :
    ∀ h ∈ goals, h.isLater = true := by
  cases does with
  | continues continues => exact continues.later later
  | negative => simp [isLater, Instruction.operand?]
  | _ => simp

theorem Does.hasConstants (does : Does scope g goals scope' added) (later : g.isLater = true)
    (fits : g.Fits scope) (has : scope.HasConstants cs) : scope'.HasConstants cs := by
  cases does with
  | constantEnd => cases later
  | variableEnd declared => exact has.declare declared rfl
  | firstAssignment _ marked =>
    rw [Scope.eq_withValue_of_markInitialized? marked]
    exact has.withValue fits.1 fits.2
  | _ => exact has

/-- What has a value may be loaded. -/
theorem admissible_lod {e : Entry} (has : scope.HasConstants cs)
    (front : cs.flatMap ConstantDeclaration.code <+: before)
    (stored : stores = true → scope.Stored before) (member : e ∈ scope.entries)
    (valued : e.declaration.isInitialized = true) :
    (Instruction.lod e.slot).Admissible limit stores cs scope before := by
  refine ⟨e, member, rfl, valued, ?_⟩
  split
  · next constant =>
    obtain ⟨c, there, same⟩ := has.exists_constant member constant
    exact ⟨c, there, same, ConstantDeclaration.getElem?_code front there⟩
  · next assigned =>
    intro stores
    rw [stored stores]
    exact (Scope.holds_slot_iff member (by simpa using assigned)).mpr valued

/-- What a step emits behind the constants is admissible. -/
theorem Does.admissible (does : Does scope g goals scope' added) (later : g.isLater = true)
    (fits : g.Fits scope) (has : scope.HasConstants cs)
    (front : cs.flatMap ConstantDeclaration.code <+: before)
    (stored : stores = true → scope.Stored before)
    (number : g = operand → ∀ n, .lit n ∈ added stores → 0 ≤ n ∧ n ≤ limit) :
    ∀ i ∈ added stores, i.Admissible limit stores cs scope' before := by
  intro i emitted
  cases does with
  | continues => cases emitted
  | emit =>
    cases List.mem_singleton.mp emitted
    cases i with
    | operate | wrt => trivial
    | _ => cases later
  | constantEnd => cases later
  | variableEnd declared =>
    dsimp only at emitted
    split at emitted
    · cases List.mem_singleton.mp emitted
      exact ⟨_, (Scope.mem_entries_of_declare declared).mpr (.inr rfl), rfl, rfl⟩
    · cases emitted
  | assignmentAgain =>
    cases List.mem_singleton.mp emitted
    exact ⟨_, (Scope.mem_entries_of_find? fits.1).1, rfl, fits.2⟩
  | firstAssignment _ marked =>
    dsimp only at emitted
    split at emitted
    · cases List.mem_singleton.mp emitted
      rw [Scope.eq_withValue_of_markInitialized? marked]
      exact ⟨_, (Scope.mem_entries_withValue fits.1).mpr (.inl rfl), rfl, fits.2⟩
    · cases emitted
  | negative =>
    cases List.mem_singleton.mp emitted
    exact ⟨.inl rfl, fun negative => absurd negative (by decide)⟩
  | name found valued =>
    cases List.mem_singleton.mp emitted
    exact admissible_lod has front stored (Scope.mem_entries_of_find? found).1 valued
  | @number n =>
    cases List.mem_singleton.mp emitted
    obtain ⟨positive, within⟩ := number rfl n (List.mem_singleton_self _)
    exact ⟨.inr (by omega), by omega⟩

end Goal

namespace PassM

open Goal

variable {start t t' : Pass} {cs : List ConstantDeclaration} {c c' : List Goal × Pass}
  {g : Goal} {goals rest : List Goal} {i : Instruction}

/-- A state of a run behind the constants. -/
structure BehindConstants (start : Pass) (cs : List ConstantDeclaration) (c : List Goal × Pass) :
    Prop where
  leads : ∃ ts, start.Leads ts c.2
  mode : c.2.storesFirst = start.storesFirst
  later : ∀ g ∈ c.1, g.isLater = true
  settled : Settled c.2.scope c.1
  names : c.2.scope.HasConstants cs
  front : cs.flatMap ConstantDeclaration.code <+: c.2.code.toList
  stored : start.storesFirst = true → c.2.scope.Stored c.2.code.toList

theorem BehindConstants.move (behind : BehindConstants start cs c) (move : Move c c') :
    BehindConstants start cs c' := by
  cases move with
  | @take g goals rest t t' taken =>
    obtain ⟨added, does, mode, code, _⟩ := does_of_step taken
    obtain ⟨us, further, _⟩ := step_refines taken
    obtain ⟨ts, leads⟩ := behind.leads
    have later := behind.later g List.mem_cons_self
    have fits := behind.settled.fits g List.mem_cons_self
    refine ⟨⟨_, leads.trans further⟩, mode.trans behind.mode, ?_,
      settled_of_step behind.settled taken, does.hasConstants later fits behind.names, ?_, ?_⟩
    · rw [List.forall_mem_append]
      exact ⟨does.later later, fun h member => behind.later h (List.mem_cons_of_mem g member)⟩
    · rw [code]
      exact behind.front.trans (List.prefix_append _ _)
    · intro stores
      rw [code, behind.mode, stores]
      exact (does.stored fits (behind.stored stores)).1

theorem BehindConstants.moves (behind : BehindConstants start cs c)
    (moves : ReflTransGen Move c c') : BehindConstants start cs c' := by
  induction moves with
  | refl => exact behind
  | tail _ move inductionHypothesis => exact inductionHypothesis.move move

theorem BehindConstants.admissible (behind : BehindConstants start cs (g :: rest, t))
    (ahead : start.lookahead = none) (taken : step g t = .ok goals t')
    (code : t'.code.toList = t.code.toList ++ [i]) :
    i.Admissible start.limit start.storesFirst cs t'.scope t.code.toList := by
  obtain ⟨added, does, mode, adds, _⟩ := does_of_step taken
  have emitted : added start.storesFirst = [i] := by
    rw [← behind.mode]
    exact List.append_cancel_left (adds.symm.trans code)
  apply does.admissible (behind.later g List.mem_cons_self)
    (behind.settled.fits g List.mem_cons_self) behind.names behind.front behind.stored
  · rintro rfl n member
    rw [emitted, List.mem_singleton] at member
    subst member
    obtain ⟨u, kind, rfl, further⟩ := exists_number_of_step taken code
    obtain ⟨ts, leads⟩ := behind.leads
    exact ((leads.trans further).scans ahead).1.number_le (by simp) kind
  · rw [emitted]
    exact List.mem_singleton_self i

/-- What is emitted behind the constants is admissible, wherever the pass ends. -/
theorem BehindConstants.admissible_of_emissions (behind : BehindConstants start cs (goals, t))
    (ahead : start.lookahead = none) {before after : List (Scope × Instruction)} {scope : Scope}
    (split : emissions goals t = before ++ (scope, i) :: after) :
    i.Admissible start.limit start.storesFirst cs scope
      (t.code.toList ++ before.map Prod.snd) := by
  obtain ⟨g, rest, gs, u, u', moves, taken, rfl, code, adds⟩ := exists_step_of_emissions split
  rw [← code]
  exact (behind.moves moves).admissible ahead taken adds

theorem BehindConstants.names_of_final (behind : BehindConstants start cs (goals, t)) :
    (final (run goals t)).scope.HasConstants cs := by
  obtain ⟨c, moves, scope, _⟩ := exists_moves_to_final goals t
  rw [scope]
  exact (behind.moves moves).names

/-- The values of constants are admissible. -/
theorem admissible_of_values {limit : Int} {stores : Bool} {scope : Scope}
    {before after : List (Scope × Instruction)}
    (within : ∀ c ∈ cs, (c.value.natAbs : Int) ≤ limit)
    (values : (before ++ (scope, i) :: after).map Prod.snd = cs.flatMap ConstantDeclaration.code) :
    i.Admissible limit stores cs scope (before.map Prod.snd) := by
  rw [ConstantDeclaration.flatMap_code, List.map_append, List.map_cons, eq_comm,
    List.map_eq_append_iff] at values
  obtain ⟨_, _, rfl, same, rest⟩ := values
  obtain ⟨c, _, rfl, rfl, _⟩ := List.map_eq_cons_iff.mp rest
  refine ⟨.inr (within c (by simp)), fun _ => ?_⟩
  simp [← same]

/-! ### The whole pass -/

theorem emissions_append (a b : List Goal) (s : Pass) :
    emissions (a ++ b) s = emissions a s ++
      match run a s with
      | .ok _ s' => emissions b s'
      | .error _ _ => [] := by
  fun_induction run a s with
  | case1 s => simp [emissions]
  | case2 s g rest goals s' taken inductionHypothesis =>
    rw [List.cons_append, emissions_cons, emissions_cons, taken]
    simpa using inductionHypothesis
  | case3 s g rest d s' failed =>
    rw [List.cons_append, emissions_cons, emissions_cons, failed]
    rfl

/-- Constants that have been declared in the beginning are all the names there are. -/
theorem behindConstants_of_declares {s u : Pass} {ts us : List Token} (opened : start.Takes ts s)
    (empty : start.scope = .empty) (nothing : start.code = #[]) (declares : s.Declares us cs u)
    (later : ∀ g ∈ goals, g.isLater = true) (settled : Settled u.scope goals) :
    BehindConstants start cs (goals, u) := by
  have declarations : u.scope.declarations = cs.map ConstantDeclaration.declaration := by
    rw [declares.declarations, opened.scope, empty]
    rfl
  have code : u.code.toList = cs.flatMap ConstantDeclaration.code := by
    rw [declares.code, opened.code, nothing]
    rfl
  have names : u.scope.HasConstants cs := ⟨[], by simp [declarations], by simp⟩
  refine ⟨⟨_, opened.leads.trans declares.leads⟩, declares.mode.trans opened.mode, later, settled,
    names, code ▸ List.prefix_rfl, ?_⟩
  -- There is no store in the code, and no variable among the names.
  intro _ slot
  constructor
  · intro member
    rw [code] at member
    simp [ConstantDeclaration.code] at member
  · rintro ⟨e, member, _, assigned, _⟩
    have there := List.mem_of_getElem? (Scope.mem_entries_iff.mp member)
    rw [declarations] at there
    obtain ⟨c, _, same⟩ := List.mem_map.mp there
    rw [← same] at assigned
    cases assigned

/-- Reading constants emits their values, and then the other goals are taken up unless it fails. -/
theorem exists_constants_of_run (others : List Goal) (s : Pass) :
    ∃ us cs u first goals, s.Declares us cs u ∧ (goals = others ∨ goals = []) ∧
      first.map Prod.snd = cs.flatMap ConstantDeclaration.code ∧
      emissions ([consts] ++ others) s = first ++ emissions goals u ∧
      (final (run ([consts] ++ others) s)).scope = (final (run goals u)).scope := by
  obtain ⟨us, cs, u, declares, ends⟩ := declares_of_run_consts s
  have added := code_of_run [consts] s
  cases ran : run [consts] s with
  | ok _ t =>
    rw [ran] at added ends
    subst ends
    have values := List.append_cancel_left (added.symm.trans declares.code)
    refine ⟨us, cs, t, emissions [consts] s, others, declares, .inl rfl, values, ?_, ?_⟩
    · rw [emissions_append, ran]
    · rw [run_append, ran]
  | error d t =>
    rw [ran] at added ends
    obtain ⟨_, scope, code⟩ := ends
    rw [final, code] at added
    have values := List.append_cancel_left (added.symm.trans declares.code)
    refine ⟨us, cs, u, emissions [consts] s, [], declares, .inr rfl, values, ?_, ?_⟩
    · rw [emissions_append, ran, emissions]
    · rw [run_append, ran, run_nil]
      exact scope

end PassM

namespace Options

variable {o : Options} {file source : String}

theorem final_runPass (o : Options) (file source : String) :
    (PassM.final (o.runPass file source)).scope =
        (PassM.final (PassM.run Goal.program (o.pass file source))).scope ∧
      (PassM.final (o.runPass file source)).code =
        (PassM.final (PassM.run Goal.program (o.pass file source))).code := by
  cases ran : PassM.run Goal.program (o.pass file source) with
  | ok u s =>
    have whole : o.runPass file source = _ := PassM.bind_of_ok ran
    rw [whole]
    exact ⟨rfl, rfl⟩
  | error d s =>
    have whole : o.runPass file source = _ := PassM.bind_of_error ran
    rw [whole]
    exact ⟨rfl, rfl⟩

theorem code_runPass (o : Options) (file source : String) :
    (PassM.final (o.runPass file source)).code.toList =
      (o.emissions file source).map Prod.snd := by
  rw [(o.final_runPass file source).2, PassM.code_of_run]
  rfl

/-- Constants that have been read behind the first token stand there in the text, and their values
are within the limit. -/
theorem constants_of_leads {start : Token} {us : List Token} {cs : List ConstantDeclaration}
    {u : Pass} (first : start.kind = .beginWord)
    (leads : (o.pass file source).Leads (start :: us) u)
    (derives : DerivesEach ConstantDeclaration.Derives us cs) :
    us <+: (Token.scanAll o.limit (.start file source)).tokens.tail ∧
      ∀ c ∈ cs, (c.value.natAbs : Int) ≤ o.limit := by
  obtain ⟨c, scans, _⟩ := (scans_of_leads leads).1.of_append
  constructor
  · have more : ∀ t ∈ start :: us, t.kind ≠ .eof := by
      intro t member
      rcases List.mem_cons.mp member with rfl | later
      · simp [first]
      · exact derives.kind_ne_eof ConstantDeclaration.Derives.kind_ne_eof t later
    rw [(Token.scanAll_of_scans scans more).1]
    exact List.prefix_append us _
  · intro c member
    obtain ⟨there, kind⟩ := derives.number_mem member
    obtain ⟨positive, within⟩ := scans.number_le (List.mem_cons_of_mem start there) kind
    rw [c.natAbs_value]
    omega

/-- A pass reads constants, whose values it emits, and then goes on behind them unless it ends
there. -/
theorem exists_constants (o : Options) (file source : String) :
    ∃ us cs first goals u,
      us <+: (Token.scanAll o.limit (.start file source)).tokens.tail ∧
      DerivesEach ConstantDeclaration.Derives us cs ∧
      (∀ c ∈ cs, (c.value.natAbs : Int) ≤ o.limit) ∧
      PassM.BehindConstants (o.pass file source) cs (goals, u) ∧
      u.code.toList = cs.flatMap ConstantDeclaration.code ∧
      first.map Prod.snd = cs.flatMap ConstantDeclaration.code ∧
      o.emissions file source = first ++ PassM.emissions goals u ∧
      (PassM.final (o.runPass file source)).scope = (PassM.final (PassM.run goals u)).scope := by
  have program : Goal.program = .expect .beginWord ::
      ([.consts] ++ [.vars, .statements, .expect .endWord, .expect .eof]) := rfl
  rw [(o.final_runPass file source).1, emissions, program]
  cases taken : PassM.step (.expect .beginWord) (o.pass file source) with
  | error d s =>
    refine ⟨[], [], [], [], o.pass file source, List.nil_prefix, .nil, by simp, ?_, rfl, rfl, ?_,
      ?_⟩
    · exact PassM.behindConstants_of_declares (.refl _) rfl rfl (.refl _) (by simp) ⟨by simp, .nil⟩
    · rw [PassM.emissions_cons, taken, PassM.emissions]
      rfl
    · rw [PassM.run_cons, taken, PassM.run_nil]
      exact PassM.scope_of_step_error taken
  | ok goals s =>
    have read := taken
    simp only [PassM.step, PassM.bind_eq_ok, PassM.pure_eq_ok] at read
    obtain ⟨start, t, found, rfl, rfl⟩ := read
    obtain ⟨kind, leads⟩ := PassM.expect_leads found
    have opened := (PassM.looks_expect .beginWord).takes found leads
    have nothing : t.code.toList = (o.pass file source).code.toList ++ [] := by
      rw [opened.code, List.append_nil]
    obtain ⟨us, cs, u, first, goals, declares, follow, values, emitted, ends⟩ :=
      PassM.exists_constants_of_run [.vars, .statements, .expect .endWord, .expect .eof] t
    obtain ⟨there, within⟩ :=
      constants_of_leads kind (opened.leads.trans declares.leads) declares.derives
    refine ⟨us, cs, first, goals, u, there, declares.derives, within, ?_, ?_, values, ?_, ?_⟩
    · apply PassM.behindConstants_of_declares opened rfl rfl declares
      · rcases follow with rfl | rfl <;> simp [Goal.isLater]
      · rcases follow with rfl | rfl
        · exact ⟨by simp [Goal.Fits], by decide⟩
        · exact ⟨by simp, .nil⟩
    · rw [declares.code, opened.code]
      rfl
    · rw [PassM.emissions_of_step taken nothing]
      exact emitted
    · rw [PassM.run_cons, taken]
      exact ends

/-- Whether a pass ends well or not, its constants are declarations that stand in the text behind
its first token. They are the first names, and their values are the first instructions; and the
operand of each instruction is admissible for the names and the code that there are when it is
emitted. -/
theorem runPass_operands (o : Options) (file source : String) :
    (PassM.final (o.runPass file source)).code.toList =
        (o.emissions file source).map Prod.snd ∧
      ∃ us cs, us <+: (Token.scanAll o.limit (.start file source)).tokens.tail ∧
        DerivesEach ConstantDeclaration.Derives us cs ∧
        (PassM.final (o.runPass file source)).scope.HasConstants cs ∧
        cs.flatMap ConstantDeclaration.code <+: (PassM.final (o.runPass file source)).code.toList ∧
        ∀ before scope i after, o.emissions file source = before ++ (scope, i) :: after →
          i.Admissible o.limit o.storesFirst cs scope (before.map Prod.snd) := by
  obtain ⟨us, cs, first, goals, u, there, derives, within, behind, code, values, emitted, scope⟩ :=
    o.exists_constants file source
  refine ⟨o.code_runPass file source, us, cs, there, derives, ?_, ?_, ?_⟩
  · rw [scope]
    exact behind.names_of_final
  · rw [code_runPass, emitted, List.map_append, values]
    exact List.prefix_append _ _
  · intro before scope i after split
    rw [emitted] at split
    rcases mem_append_split split with ⟨others, split⟩ | ⟨others, rfl, rest⟩
    · exact PassM.admissible_of_values within (split ▸ values)
    · rw [List.map_append, values, ← code]
      exact behind.admissible_of_emissions rfl rest

end Options
end OnePass
