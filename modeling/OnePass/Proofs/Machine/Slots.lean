import Mathlib
import OnePass.Proofs.Machine.Simulation
import OnePass.Proofs.Pass.Acceptance

/-!
Code that stores first values, on the machine with separate slots. Between declarations and
statements there are no operands, and the slot of a name holds what the name has in the store.
-/

namespace OnePass.Machine.Slots

variable {names : List String} {ks js : Knowledge} {s : Slots} {store : Store} {name : String}

structure Holds (names : List String) (ks : Knowledge) (s : Slots) (store : Store) : Prop where
  noOperands : s.stack = []
  slots : ∀ x ∈ names, s.slots (names.idxOf x) = store x
  valued : ∀ x ∈ ks.valued, (store x).isSome

theorem Holds.set (here : Holds names ks s store) (n : Int)
    (gains : ∀ x ∈ js.valued, x = name ∨ x ∈ ks.valued) :
    Holds names js (s.set (names.idxOf name) n) (store.set name n) := by
  refine ⟨here.noOperands, ?_, ?_⟩
  · intro x member
    by_cases same : x = name
    · simp [Slots.set, Store.set, same]
    · have other : ¬(names.idxOf x : Int) = names.idxOf name := by
        rwa [Int.ofNat_inj, List.idxOf_inj member]
      simp only [Slots.set, Store.set, if_neg same, if_neg other]
      exact here.slots x member
  · intro x valued
    by_cases same : x = name
    · simp [Store.set, same]
    · simp only [Store.set, if_neg same]
      exact here.valued x ((gains x valued).resolve_left same)

theorem exec_push_sto (a : Arithmetic) (s : Slots) (n slot : Int) :
    (s.push n).exec a [.sto slot] = .silent (.ok (s.set slot n)) := rfl

theorem keeps (a : Arithmetic) (distinct : names.Nodup) :
    (operands a).Keeps names true (fun _ => True) (Holds names) where
  distinct := distinct
  loads initial _ here valued := by
    intro t member
    have known := valued t member
    obtain ⟨n, value⟩ := Option.isSome_iff_exists.mp (here.valued _ known)
    have declared := initial.subset (Knowledge.mem_names_of_mem_having known)
    exact ⟨n, value, (here.slots _ declared).trans value⟩
  declared t here := ⟨here.noOperands, here.slots, by simpa using here.valued⟩
  initialized n _ _ here := by
    refine ⟨_, exec_push_sto .., here.set n ?_⟩
    simp [or_comm]
  assigned n _ _ _ _ here := by
    refine ⟨_, exec_push_sto .., here.set n ?_⟩
    intro x valued
    exact (Knowledge.mem_valued_after_assigned.mp valued).imp And.left id

/-- The slots hold the constants and nothing else. -/
def ofConstants (cs : List ConstantDeclaration) : Slots where
  stack := []
  slots slot := if 0 ≤ slot then (cs.map ConstantDeclaration.value)[slot.toNat]? else none

theorem holds_ofConstants {p : Program} (distinct : p.names.Nodup) :
    Holds p.names (Knowledge.declared p.consts []) (ofConstants p.consts)
      (Store.ofConstants p.consts) := by
  have same := Store.map_ofConstants distinct.of_append_left
  refine ⟨rfl, ?_, ?_⟩
  · intro x _
    simp only [ofConstants, Int.natCast_nonneg, if_true, Int.toNat_natCast]
    by_cases member : x ∈ p.consts.map (·.name.spelling)
    · rw [Program.names, List.idxOf_append_of_mem member]
      exact getElem?_idxOf_of_map_eq same member
    · rw [Program.names, List.idxOf_append_of_notMem member]
      have unset : Store.ofConstants p.consts x = none := foldl_evaluate_of_not_mem member
      rw [unset]
      exact List.getElem?_eq_none (by simp)
  · intro x valued
    rw [Knowledge.valued_declared, List.filter_nil, List.map_nil, List.append_nil] at valued
    rw [← getElem?_idxOf_of_map_eq same valued]
    simpa using List.idxOf_lt_length_of_mem valued

/-- Code that stores first values computes what its tree does. It begins with the constants; behind
them it writes the same numbers as the tree, and either stops at the same operation without a result
or ends with no operands and with the final value of each name in its slot. -/
theorem storing_code_alike {o : Options} {file source : String} {c : Compilation}
    (stores : o.storesFirst = true) (accepted : o.compile file source = .ok c) (a : Arithmetic) :
    ∃ ts p rest, o.tokens file source = .ok ts ∧ Program.Derives ts p ∧
      c.code = (p.consts.map fun c => .lit c.value) ++ rest ∧
      ((ofConstants p.consts).exec a rest).Alike a
        (fun s store => s.stack = [] ∧
          ∀ e ∈ c.scope.entries, s.slots e.slot = store e.declaration.name)
        (p.evaluate a) := by
  obtain ⟨ts, p, tokens, derives, wellNamed, code, declarations⟩ :=
    Options.accepted_of_compile accepted
  refine ⟨ts, p, p.bodyCode true, tokens, derives, by rw [code, stores, p.code_eq], ?_⟩
  have everywhere : p.Throughout fun _ => True := ⟨fun _ _ _ => trivial, fun _ _ _ => trivial⟩
  have whole := (keeps a wellNamed.distinct).program (Program.isWellNamed_iff.mp wellNamed)
    everywhere (holds_ofConstants wellNamed.distinct)
  apply whole.imp
  intro s store here
  refine ⟨here.noOperands, ?_⟩
  intro e member
  rw [Scope.mem_entries_iff, declarations] at member
  have there : p.names[e.slot]? = some e.declaration.name := by
    rw [← p.names_declarations, List.getElem?_map, member]
    rfl
  obtain ⟨bound, name⟩ := List.getElem?_eq_some_iff.mp there
  have slot : p.names.idxOf e.declaration.name = e.slot := by
    rw [← name]
    exact wellNamed.distinct.idxOf_getElem e.slot bound
  rw [← slot]
  exact here.slots _ (List.mem_of_getElem? there)

theorem storing_code_alike_copy :
    ∃ ts p rest,
      ({ limit := 9 } : Options).tokens "" "begin const a=2;var b=a;end" = .ok ts ∧
      Program.Derives ts p ∧
      [.lit 2, .lod 0, .sto 1] = (p.consts.map fun c => Instruction.lit c.value) ++ rest ∧
      ((ofConstants p.consts).exec .integers rest).Alike .integers
        (fun s store => s.stack = [] ∧
          ∀ e ∈ [⟨⟨"a", true, true, some ⟨"", 1, 13⟩⟩, 0⟩,
              ⟨⟨"b", false, true, some ⟨"", 1, 21⟩⟩, 1⟩],
            s.slots (Entry.slot e) = store e.declaration.name)
        (p.evaluate .integers) := by
  have accepted : ({ limit := 9 } : Options).compile "" "begin const a=2;var b=a;end" =
      .ok ⟨"", [.lit 2, .lod 0, .sto 1],
        ⟨[⟨"a", true, true, some ⟨"", 1, 13⟩⟩, ⟨"b", false, true, some ⟨"", 1, 21⟩⟩], by decide⟩,
        13⟩ := by
    cbv
  exact storing_code_alike rfl accepted .integers

end OnePass.Machine.Slots
