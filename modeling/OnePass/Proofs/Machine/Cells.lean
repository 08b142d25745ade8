import Mathlib
import OnePass.Proofs.Machine.Simulation
import OnePass.Proofs.Pass.Acceptance
import OnePass.Proofs.Pass.Visited

/-!
Code on the machine whose slots are the cells of its stack. Code that leaves first values on the
stack is right as long as names get them in the order of their slots: then the cells are the values
of the names that have one. Code that stores first values has no cell to store them in.
-/

namespace OnePass.Machine.Cells

variable {names : List String} {ks : Knowledge} {s : Cells} {store : Store} {t : Token}

@[simp]
theorem cell?_natCast (s : Cells) (slot : Nat) : s.cell? slot = s.reverse[slot]? := by
  simp [cell?]

theorem set?_natCast {slot : Nat} (n : Int) (inside : slot < s.length) :
    s.set? slot n = some (s.reverse.set slot n).reverse := by
  simp [set?, inside]

theorem set?_eq_none {slot : Nat} (n : Int) (outside : s.length ≤ slot) :
    s.set? slot n = none := by
  simp [set?, outside]

theorem exec_sto (a : Arithmetic) {s s' : Cells} {slot n : Int} (set : s.set? slot n = some s') :
    exec a (n :: s) [.sto slot] = .silent (.ok s') := by
  rw [exec_singleton, step, set]

theorem map_set_of_not_mem {l : List String} {x : String} (new : x ∉ l) (n : Int) :
    l.map (store.set x n) = l.map store := by
  apply List.map_congr_left
  intro y member
  have other : y ≠ x := by
    intro same
    apply new
    rwa [← same]
  exact if_neg other

/-- The cells are the values of the names that have one, in the order of their slots. -/
def Holds (ks : Knowledge) (s : Cells) (store : Store) : Prop :=
  s.reverse.map some = ks.valued.map store

theorem Holds.length_eq (here : Holds ks s store) : s.length = ks.valued.length := by
  simpa using congrArg List.length here

/-- A first value is left on top of the others. -/
theorem Holds.push (here : Holds ks s store) (new : t.spelling ∉ ks.valued) (n : Int) :
    (s.reverse ++ [n]).map some = (ks.valued ++ [t.spelling]).map (store.set t.spelling n) := by
  rw [List.map_append, List.map_append, here, map_set_of_not_mem new]
  simp [Store.set]

theorem map_set_idxOf {l : List String} {x : String} (nodup : l.Nodup) (member : x ∈ l) (n : Int) :
    (l.map store).set (l.idxOf x) (some n) = l.map (store.set x n) := by
  induction l with
  | nil => cases member
  | cons y l inductionHypothesis =>
    obtain ⟨new, rest⟩ := List.nodup_cons.mp nodup
    by_cases same : y = x
    · subst same
      simp [map_set_of_not_mem new, Store.set]
    · have later : x ∈ l := (List.mem_cons.mp member).resolve_left (Ne.symm same)
      rw [List.idxOf_cons_ne _ same, List.map_cons, List.map_cons, List.set_cons_succ,
        inductionHypothesis rest later]
      simp [Store.set, same]

/-- A name that gets its first value is the next one in the order of slots. -/
theorem valued_after_first (distinct : names.Nodup) (before : ks.valued <+: names)
    (after : (ks.after (.assigned t)).valued <+: names) (declared : t.spelling ∈ ks.names)
    (new : t.spelling ∉ ks.valued) :
    (ks.after (.assigned t)).valued = ks.valued ++ [t.spelling] := by
  have member (x : String) :
      x ∈ (ks.after (.assigned t)).valued ↔ x = t.spelling ∨ x ∈ ks.valued := by
    rw [Knowledge.mem_valued_after_assigned]
    exact or_congr_left ⟨And.left, fun same => ⟨same, same ▸ declared⟩⟩
  have nodup := before.sublist.nodup distinct
  have nodup' := after.sublist.nodup distinct
  have grows : ks.valued.length ≤ (ks.after (.assigned t)).valued.length :=
    (nodup.subperm fun x valued => (member x).mpr (.inr valued)).length_le
  obtain ⟨rest, same⟩ := List.prefix_of_prefix_length_le before after grows
  rw [← same] at member nodup' ⊢
  have only (x : String) : x ∈ rest ↔ x ∈ [t.spelling] := by
    rw [List.mem_singleton]
    constructor
    · intro inRest
      have outside : x ∉ ks.valued := by
        intro valued
        exact (List.nodup_append.mp nodup').2.2 x valued x inRest rfl
      exact ((member x).mp (List.mem_append_right _ inRest)).resolve_right outside
    · intro same
      subst same
      exact (List.mem_append.mp ((member _).mpr (.inl rfl))).resolve_left new
  have nodupRest := (List.nodup_append.mp nodup').2.1
  have one := (List.perm_ext_iff_of_nodup nodupRest (List.nodup_singleton _)).mpr only
  rw [List.perm_singleton.mp one]

theorem keeps (a : Arithmetic) (distinct : names.Nodup) :
    (operands a).Keeps names false (fun ks => ks.valued <+: names) Holds where
  distinct := distinct
  loads := by
    intro ks s store e _ inOrder here valued t member
    have known := valued t member
    have there : s.reverse[ks.valued.idxOf t.spelling]? = store t.spelling :=
      getElem?_idxOf_of_map_eq here known
    have inside : ks.valued.idxOf t.spelling < s.reverse.length := by
      rw [List.length_reverse, here.length_eq]
      exact List.idxOf_lt_length_of_mem known
    obtain ⟨n, value⟩ : ∃ n, store t.spelling = some n :=
      ⟨_, there.symm.trans (List.getElem?_eq_getElem inside)⟩
    refine ⟨n, value, ?_⟩
    rw [← inOrder.idxOf_eq_of_mem known, ← value]
    exact (cell?_natCast ..).trans there
  declared t here := by simpa [Holds] using here
  initialized := by
    intro ks s store t n initial _ here
    have new : t.spelling ∉ ks.valued := by
      intro valued
      have twice := initial.sublist.nodup distinct
      exact (List.nodup_append.mp twice).2.2 _ (Knowledge.mem_names_of_mem_having valued) _
        (List.mem_singleton_self _) rfl
    refine ⟨n :: s, rfl, ?_⟩
    simpa [Holds] using here.push new n
  assigned := by
    intro ks s store t n initial before after declared here
    rw [Bool.false_or]
    by_cases known : t.spelling ∈ ks.valued
    · have nodup := initial.sublist.nodup distinct
      obtain ⟨k, found⟩ := Knowledge.exists_find?_of_mem_names declared
      have hasValue := (Knowledge.mem_valued_iff nodup found).mp known
      have inside : ks.valued.idxOf t.spelling < s.length := by
        rw [here.length_eq]
        exact List.idxOf_lt_length_of_mem known
      rw [if_pos (by simpa using known), ← before.idxOf_eq_of_mem known,
        Knowledge.after_assigned_of_hasValue nodup found hasValue]
      refine ⟨_, exec_sto a (set?_natCast n inside), ?_⟩
      rw [Holds, List.reverse_reverse, List.map_set, here]
      exact map_set_idxOf (before.sublist.nodup distinct) known n
    · rw [if_neg (by simpa using known)]
      refine ⟨n :: s, rfl, ?_⟩
      rw [Holds, valued_after_first distinct before after declared known, List.reverse_cons]
      exact here.push known n

/-- The constants are the first cells. -/
theorem exec_constants (a : Arithmetic) (s : Cells) (cs : List ConstantDeclaration) :
    exec a s (cs.map fun c => .lit c.value) =
      .silent (.ok ((cs.map ConstantDeclaration.value).reverse ++ s)) := by
  induction cs generalizing s with
  | nil => rfl
  | cons c cs inductionHypothesis =>
    rw [List.map_cons, exec]
    change exec a (c.value :: s) _ = _
    rw [inductionHypothesis]
    simp

theorem holds_constants {p : Program} (distinct : p.names.Nodup) :
    Holds (Knowledge.declared p.consts []) (p.consts.map ConstantDeclaration.value).reverse
      (Store.ofConstants p.consts) := by
  rw [Holds, List.reverse_reverse, Knowledge.valued_declared]
  simpa using Store.map_ofConstants distinct.of_append_left

theorem throughout_of_fillsInOrder {o : Options} {file source : String} {ts : List Token}
    {p : Program} (tokens : o.tokens file source = .ok ts) (derives : Program.Derives ts p)
    (allowed : p.violation? = none)
    (fills : ∀ s, PassM.Passes Goal.program (o.pass file source) s → s.scope.FillsInOrder) :
    p.Throughout fun ks => ks.valued <+: p.names := by
  have here := Options.pass_at tokens
  constructor
  · intro before after split
    obtain ⟨s, visited, same⟩ := PassM.passes_vars derives allowed here split
    apply ((fills s visited).valued_initial same).trans
    simp [Knowledge.names_declared, Program.names, split]
  · intro before after split
    obtain ⟨s, visited, same⟩ := PassM.passes_statements derives allowed here split
    apply ((fills s visited).valued_initial same).trans
    rw [Knowledge.names_afterAll_statements]
    exact p.names_declared_initial

/-- Code that leaves first values on the stack computes what its tree does, if at every moment of
the pass the names that have a value are those with the first slots. When it ends, the cells are the
values of the names that have one, in the order of their slots. -/
theorem leaving_code_alike {o : Options} {file source : String} {c : Compilation}
    (leaves : o.storesFirst = false) (accepted : o.compile file source = .ok c)
    (fills : ∀ s, PassM.Passes Goal.program (o.pass file source) s → s.scope.FillsInOrder)
    (a : Arithmetic) :
    ∃ ts p, o.tokens file source = .ok ts ∧ Program.Derives ts p ∧
      (exec a [] c.code).Alike a
        (fun s store => s.reverse.map some =
          (c.scope.declarations.filter Declaration.isInitialized).map fun d => store d.name)
        (p.evaluate a) := by
  obtain ⟨ts, p, tokens, derives, wellNamed, code, declarations⟩ :=
    Options.accepted_of_compile accepted
  refine ⟨ts, p, tokens, derives, ?_⟩
  have allowed := Program.isWellNamed_iff.mp wellNamed
  have inOrder := throughout_of_fillsInOrder tokens derives allowed fills
  have whole := (keeps a wellNamed.distinct).program allowed inOrder
    (holds_constants wellNamed.distinct)
  rw [code, leaves, p.code_eq, exec_append, exec_constants, Run.silent_ok_andThen, List.append_nil]
  apply whole.imp
  intro s store here
  rw [declarations, ← Program.declarations_eq, here, List.filter_map, List.map_map]
  simp [Knowledge.valued, Knowledge.having, Known.declaration, Function.comp_def]

theorem leaving_code_alike_assigned :
    ∃ ts p,
      ({ storesFirst := false, limit := 9 } : Options).tokens "" "begin var x; x=1; end" = .ok ts ∧
      Program.Derives ts p ∧
      (exec .integers [] [.lit 1]).Alike .integers
        (fun s store => s.reverse.map some = [store "x"]) (p.evaluate .integers) := by
  have accepted : ({ storesFirst := false, limit := 9 } : Options).compile ""
      "begin var x; x=1; end" =
      .ok ⟨"", [.lit 1], ⟨[⟨"x", false, true, some ⟨"", 1, 11⟩⟩], by decide⟩, 10⟩ := by
    cbv
  have fills : ∀ s, PassM.Passes Goal.program
      (({ storesFirst := false, limit := 9 } : Options).pass "" "begin var x; x=1; end") s →
      s.scope.FillsInOrder := by
    intro s visited
    have all : PassM.always (fun s => decide s.scope.FillsInOrder) Goal.program
        (({ storesFirst := false, limit := 9 } : Options).pass "" "begin var x; x=1; end") =
        true := by
      cbv
    exact of_decide_eq_true (PassM.always_iff.mp all s visited)
  exact leaving_code_alike rfl accepted fills .integers

end OnePass.Machine.Cells
