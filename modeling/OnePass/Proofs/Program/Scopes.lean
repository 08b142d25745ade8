import OnePass.Proofs.Program.Knowledge

/-!
Entries of a scope. A name has one entry, which stands in its slot. A declaration adds an entry
behind all others, and a name that receives a value keeps its slot.
-/

namespace OnePass.Scope

variable {s s' : Scope} {d : Declaration} {e e' : Entry} {name : String}

/-- A scope is nothing but its declarations. -/
theorem eq_of_declarations_eq (same : s.declarations = s'.declarations) : s = s' := by
  cases s
  cases s'
  cases same
  rfl

theorem slot_lt_length (member : e ∈ s.entries) : e.slot < s.declarations.length :=
  (List.getElem?_eq_some_iff.mp (mem_entries_iff.mp member)).1

theorem eq_of_slot_eq (first : e ∈ s.entries) (second : e' ∈ s.entries) (same : e.slot = e'.slot) :
    e = e' := by
  rw [mem_entries_iff] at first second
  rw [same, second] at first
  cases e
  cases e'
  simp_all

theorem getElem?_names (member : e ∈ s.entries) : s.names[e.slot]? = some e.declaration.name := by
  rw [names, List.getElem?_map, mem_entries_iff.mp member]
  rfl

theorem eq_of_name_eq (first : e ∈ s.entries) (second : e' ∈ s.entries)
    (same : e.declaration.name = e'.declaration.name) : e = e' := by
  apply eq_of_slot_eq first second
  have bound : e.slot < s.names.length := by simpa [names] using slot_lt_length first
  apply (List.getElem?_inj bound s.names_nodup).mp
  rw [getElem?_names first, getElem?_names second, same]

theorem mem_entries_of_find? (found : s.find? name = some e) :
    e ∈ s.entries ∧ e.declaration.name = name :=
  ⟨List.mem_of_find?_eq_some found, by simpa using List.find?_some found⟩

theorem mem_names_of_find? (found : s.find? name = some e) : name ∈ s.names := by
  obtain ⟨member, rfl⟩ := mem_entries_of_find? found
  exact List.mem_of_getElem? (getElem?_names member)

/-- The slot of a name is its position among the names. -/
theorem idxOf_names (found : s.find? name = some e) : s.names.idxOf name = e.slot := by
  obtain ⟨member, rfl⟩ := mem_entries_of_find? found
  have there := getElem?_names member
  obtain ⟨bound, same⟩ := List.getElem?_eq_some_iff.mp there
  rw [← same]
  exact s.names_nodup.idxOf_getElem e.slot bound

theorem entries_of_declare (h : s.declare d = .ok s') : s'.entries = s.entries ++ [⟨d, s.size⟩] := by
  simp [entries, declarations_of_declare h, List.mapIdx_append, size]

theorem mem_entries_of_declare (h : s.declare d = .ok s') :
    e ∈ s'.entries ↔ e ∈ s.entries ∨ e = ⟨d, s.size⟩ := by
  simp [entries_of_declare h]

/-- A new name can be declared. -/
theorem exists_declare (new : s.find? d.name = none) : ∃ s', s.declare d = .ok s' := by
  cases result : s.declare d with
  | ok s' => exact ⟨s', rfl⟩
  | error e =>
    rw [declare_eq_error_iff, new] at result
    cases result

theorem eq_withValue_of_markInitialized? (h : s.markInitialized? name = some s') :
    s' = s.withValue name := by
  unfold markInitialized? at h
  split at h
  next => exact (Option.some.inj h).symm
  next => cases h

/-- A name that receives a value keeps its slot, and nothing else changes. -/
theorem declarations_withValue (found : s.find? name = some e) :
    (s.withValue name).declarations = s.declarations.set e.slot e.declaration.initialized := by
  obtain ⟨member, named⟩ := mem_entries_of_find? found
  have there := mem_entries_iff.mp member
  apply List.ext_getElem?
  intro slot
  simp only [withValue, List.getElem?_map, List.getElem?_set]
  by_cases here : e.slot = slot
  · subst here
    rw [if_pos rfl, if_pos (slot_lt_length member), there, Option.map_some, if_pos named]
  · rw [if_neg here]
    cases other : s.declarations[slot]? with
    | none => rfl
    | some d =>
      have entry : (⟨d, slot⟩ : Entry) ∈ s.entries := mem_entries_iff.mpr other
      have different : d.name ≠ name := by
        intro same
        exact here (congrArg Entry.slot (eq_of_name_eq member entry (named.trans same.symm)))
      simp [different]

/-- A name that has a value keeps it. -/
theorem withValue_of_initialized (found : s.find? name = some e)
    (valued : e.declaration.isInitialized = true) : s.withValue name = s := by
  have same : e.declaration.initialized = e.declaration := by
    cases declared : e.declaration
    simp_all [Declaration.initialized]
  have there := mem_entries_iff.mp (mem_entries_of_find? found).1
  obtain ⟨bound, here⟩ := List.getElem?_eq_some_iff.mp there
  apply eq_of_declarations_eq
  rw [declarations_withValue found, same, ← here, List.set_getElem_self]

theorem mem_entries_withValue (found : s.find? name = some e) :
    e' ∈ (s.withValue name).entries ↔
      e' = ⟨e.declaration.initialized, e.slot⟩ ∨ e' ∈ s.entries ∧ e'.slot ≠ e.slot := by
  rw [mem_entries_iff, mem_entries_iff, declarations_withValue found, List.getElem?_set]
  by_cases here : e.slot = e'.slot
  · have bound : e.slot < s.declarations.length :=
      slot_lt_length (mem_entries_of_find? found).1
    rw [if_pos here, if_pos bound]
    cases e'
    simp_all [eq_comm]
  · rw [if_neg here]
    cases e'
    simp_all [eq_comm]

end OnePass.Scope
