import Mathlib.Data.List.Nodup
import OnePass.Proofs.Program.Scopes
import OnePass.Table

/-!
What a table holds behind requests. There is one record for each name that was added, in the order
of the additions, and its slot is its position. Only a name without a value can receive one. The
counter is the number of the records, and requests that fail change nothing.
-/

namespace OnePass

namespace Table

variable {t : Table} {name : String} {r : Record} {ps : List (String × Record)} {q : Request}
  {rs : List Request} {d : Declaration} {line : Option String}

/-! ### Records -/

theorem lookup_eq_none_iff : ps.lookup name = none ↔ name ∉ ps.map Prod.fst := by
  rw [List.lookup_eq_none_iff]
  constructor
  · intro others member
    obtain ⟨p, there, rfl⟩ := List.mem_map.mp member
    simpa using others p there
  · intro absent p there
    have different : name ≠ p.1 := fun same => absent (List.mem_map.mpr ⟨p, there, same.symm⟩)
    simpa using different

/-- A name has the record that stands with it. -/
theorem lookup_eq_some_iff (distinct : (ps.map Prod.fst).Nodup) :
    ps.lookup name = some r ↔ (name, r) ∈ ps := by
  induction ps with
  | nil => simp
  | cons p ps inductionHypothesis =>
    obtain ⟨first, r'⟩ := p
    rw [List.map_cons, List.nodup_cons] at distinct
    obtain ⟨new, distinct⟩ := distinct
    by_cases here : name = first
    · subst here
      have later : (name, r) ∉ ps := by
        intro member
        exact new (List.mem_map.mpr ⟨_, member, rfl⟩)
      simp [later, eq_comm]
    · simp [List.lookup_cons, beq_eq_false_iff_ne.mpr here, here, inductionHypothesis distinct]

theorem set_of_not_mem (new : name ∉ ps.map Prod.fst) : set name r ps = ps ++ [(name, r)] := by
  induction ps with
  | nil => rfl
  | cons p ps inductionHypothesis =>
    simp only [List.map_cons, List.mem_cons, not_or] at new
    rw [set, if_neg (Ne.symm new.1), inductionHypothesis new.2, List.cons_append]

/-- The record of a name changes in its place. -/
theorem set_of_lookup (distinct : (ps.map Prod.fst).Nodup) (found : ps.lookup name = some r)
    (f : Record → Record) :
    set name (f r) ps = ps.map fun p => (p.1, if p.1 = name then f p.2 else p.2) := by
  induction ps with
  | nil => simp at found
  | cons p ps inductionHypothesis =>
    obtain ⟨first, r'⟩ := p
    rw [List.map_cons, List.nodup_cons] at distinct
    obtain ⟨new, distinct⟩ := distinct
    by_cases here : first = name
    · subst here
      obtain rfl : r' = r := by simpa using found
      have others : ∀ p ∈ ps, (p.1, if p.1 = first then f p.2 else p.2) = id p := by
        intro p member
        have different : p.1 ≠ first := by
          intro same
          exact new (List.mem_map.mpr ⟨p, member, same⟩)
        rw [if_neg different, id]
      rw [set, if_pos rfl, List.map_cons, if_pos rfl, List.map_congr_left others, List.map_id]
    · have later : ps.lookup name = some r := by
        simpa [List.lookup_cons, beq_eq_false_iff_ne.mpr (Ne.symm here)] using found
      rw [set, if_neg here, List.map_cons, if_neg here, inductionHypothesis distinct later]

/-! ### One request -/

/-- A name has no record: it can be added, with the next slot, and it cannot be marked. -/
structure Lacks (t : Table) (name : String) : Prop where
  find : t.answer (.find name) = (.ok (.found none), t)
  contains : t.answer (.contains name) = (.ok (.flag false), t)
  checkNew : ∀ location line, t.answer (.checkNew name location line) = (.ok .done, t)
  add : ∀ d line, d.name = name → t.answer (.add d line) =
    (.ok (.record (d.record t.nextSlot)),
      ⟨t.records ++ [(name, d.record t.nextSlot)], t.nextSlot + 1⟩)
  markInitialized : t.answer (.markInitialized name) = (.error (.unknown name), t)

/-- A name has a record: it cannot be added again, and it can be marked. -/
structure Has (t : Table) (name : String) (r : Record) : Prop where
  find : t.answer (.find name) = (.ok (.found (some r)), t)
  contains : t.answer (.contains name) = (.ok (.flag true), t)
  checkNew : ∀ location line, t.answer (.checkNew name location line) =
    (.error (.redeclared ⟨.redeclared name r.location, location, line⟩), t)
  add : ∀ d line, d.name = name → t.answer (.add d line) =
    (.error (.redeclared ⟨.redeclared name r.location, d.location, line⟩), t)
  markInitialized : t.answer (.markInitialized name) =
    (.ok (.record r.initialized), { t with
      records := t.records.map fun p => (p.1, if p.1 = name then p.2.initialized else p.2) })

theorem find?_eq_none_iff : t.find? name = none ↔ name ∉ t.names := lookup_eq_none_iff

theorem lacks_of_not_mem (new : name ∉ t.names) : t.Lacks name := by
  have absent := find?_eq_none_iff.mpr new
  refine ⟨?_, ?_, ?_, ?_, ?_⟩
  · rw [answer, absent]
  · rw [answer, contains, absent]
    rfl
  · intro location line
    rw [answer, checkNew, absent]
    rfl
  · rintro d line rfl
    have unused : t.checkNew d.name d.location line = .ok () := by rw [checkNew, absent]
    rw [answer, add, unused]
    simp only [set_of_not_mem new]
    rfl
  · rw [answer, Table.markInitialized, absent]

theorem has_of_find? (distinct : t.names.Nodup) (found : t.find? name = some r) : t.Has name r := by
  refine ⟨?_, ?_, ?_, ?_, ?_⟩
  · rw [answer, found]
  · rw [answer, contains, found]
    rfl
  · intro location line
    rw [answer, checkNew, found]
    rfl
  · rintro d line rfl
    have used : t.checkNew d.name d.location line =
        .error (.redeclared ⟨.redeclared d.name r.location, d.location, line⟩) := by
      rw [checkNew, found]
    rw [answer, add, used]
    rfl
  · rw [answer, Table.markInitialized, found]
    simp only [set_of_lookup distinct found]

/-- What fails changes nothing. -/
theorem answer_eq_of_error {e : Refusal} (failed : (t.answer q).1 = .error e) :
    (t.answer q).2 = t := by
  cases q with
  | add d line =>
    simp only [answer] at failed ⊢
    cases result : t.add d line <;> simp_all
  | markInitialized name =>
    simp only [answer] at failed ⊢
    cases result : t.markInitialized name <;> simp_all
  | _ => rfl

/-- A request adds a name, gives a name a value, or changes nothing. -/
inductive Change (t : Table) (q : Request) : Prop
  | adds (d : Declaration) (line : Option String) (same : q = .add d line)
      (new : d.name ∉ t.names) : t.Change q
  | marks (name : String) (r : Record) (same : q = .markInitialized name)
      (found : t.find? name = some r) : t.Change q
  | keeps (same : (t.answer q).2 = t) (unmarked : ∀ name ∈ t.names, q ≠ .markInitialized name)
      (additions : ∀ rs, t.additions (q :: rs) = t.additions rs) : t.Change q

theorem change_of_answer (distinct : t.names.Nodup) (q : Request) : t.Change q := by
  cases q with
  | add d line =>
    cases found : t.find? d.name with
    | none => exact .adds d line rfl (find?_eq_none_iff.mp found)
    | some r =>
      have failed := (has_of_find? distinct found).add d line rfl
      refine .keeps (by rw [failed]) (by simp) ?_
      intro rs
      simp only [additions, failed]
  | markInitialized name =>
    cases found : t.find? name with
    | some r => exact .marks name r rfl found
    | none =>
      have absent := find?_eq_none_iff.mp found
      have failed := (lacks_of_not_mem absent).markInitialized
      refine .keeps (by rw [failed]) ?_ ?_
      · rintro other member ⟨⟩
        exact absent member
      · intro rs
        simp only [additions, failed]
  | _ => exact .keeps rfl (by simp) fun rs => rfl

theorem names_nodup_answer (distinct : t.names.Nodup) (q : Request) :
    (t.answer q).2.names.Nodup := by
  cases change_of_answer distinct q with
  | adds d line same new =>
    subst same
    rw [(lacks_of_not_mem new).add d line rfl, names, List.map_append, List.nodup_append]
    refine ⟨distinct, by simp, ?_⟩
    rintro name old _ added rfl
    have same : name = d.name := by simpa using added
    exact new (same ▸ old)
  | marks name r same found =>
    subst same
    rw [(has_of_find? distinct found).markInitialized, names, List.map_map]
    exact distinct
  | keeps same _ _ => rwa [same]

theorem names_nodup_after (distinct : t.names.Nodup) (rs : List Request) :
    (t.after rs).names.Nodup := by
  induction rs generalizing t with
  | nil => exact distinct
  | cons q rs inductionHypothesis => exact inductionHypothesis (names_nodup_answer distinct q)

/-! ### All requests -/

/-- What becomes of the record of a name. -/
def Record.behind (r : Record) (name : String) (rs : List Request) : Record :=
  { r with isInitialized := r.isInitialized || rs.contains (.markInitialized name) }

@[simp]
theorem Record.behind_nil (r : Record) (name : String) : r.behind name [] = r := by
  simp [behind]

theorem Record.behind_markInitialized (r : Record) (name : String) (rs : List Request) :
    r.behind name (.markInitialized name :: rs) = r.initialized.behind name rs := by
  simp [behind, initialized]

theorem Record.behind_of_ne (other : q ≠ .markInitialized name) (r : Record) :
    r.behind name (q :: rs) = r.behind name rs := by
  simp [behind, other.symm]

/-- The records behind requests: those that were there, and one for each addition. -/
theorem records_after (distinct : t.names.Nodup) (rs : List Request) :
    (t.after rs).records =
      (t.records.map fun p => (p.1, p.2.behind p.1 rs)) ++
        (t.additions rs).mapIdx (fun i p =>
          (p.1.name, (p.1.record (t.nextSlot + i)).behind p.1.name p.2)) ∧
    (t.after rs).nextSlot = t.nextSlot + (t.additions rs).length := by
  induction rs generalizing t with
  | nil => simp [after, additions]
  | cons q rs inductionHypothesis =>
    have later := inductionHypothesis (names_nodup_answer distinct q)
    rw [after]
    cases change_of_answer distinct q with
    | adds d line same new =>
      subst same
      have added := (lacks_of_not_mem new).add d line rfl
      rw [added] at later ⊢
      obtain ⟨records, nextSlot⟩ := later
      have old : ∀ p ∈ t.records, (p.1, p.2.behind p.1 rs) =
          (p.1, p.2.behind p.1 (.add d line :: rs)) := by
        intro p _
        rw [Record.behind_of_ne (by simp)]
      have grown : t.additions (.add d line :: rs) = (d, rs) ::
          (Table.mk (t.records ++ [(d.name, d.record t.nextSlot)]) (t.nextSlot + 1)).additions rs := by
        simp only [additions, added]
      rw [records, nextSlot, grown, List.map_append, List.map_congr_left old, List.mapIdx_cons,
        List.append_assoc]
      simp only [List.map_singleton, List.singleton_append, Nat.add_zero, List.length_cons,
        Nat.add_right_comm, Nat.add_assoc, Nat.add_comm 1, and_self]
    | marks name r same found =>
      subst same
      have marked := (has_of_find? distinct found).markInitialized
      rw [marked] at later ⊢
      obtain ⟨records, nextSlot⟩ := later
      have old : ∀ p ∈ t.records,
          (p.1, (if p.1 = name then p.2.initialized else p.2).behind p.1 rs) =
            (p.1, p.2.behind p.1 (.markInitialized name :: rs)) := by
        intro p _
        split
        next here => rw [here, Record.behind_markInitialized]
        next other => rw [Record.behind_of_ne (by simpa [eq_comm] using other)]
      have others : t.additions (.markInitialized name :: rs) =
          (Table.mk (t.records.map fun p => (p.1, if p.1 = name then p.2.initialized else p.2))
            t.nextSlot).additions rs := by
        simp only [additions, marked]
      rw [records, nextSlot, others, List.map_map]
      refine ⟨?_, rfl⟩
      exact congrArg (· ++ _) (List.map_congr_left old)
    | keeps same unmarked additions =>
      rw [same] at later ⊢
      have old : ∀ p ∈ t.records, (p.1, p.2.behind p.1 rs) = (p.1, p.2.behind p.1 (q :: rs)) := by
        intro p member
        rw [Record.behind_of_ne (unmarked p.1 (List.mem_map.mpr ⟨p, member, rfl⟩))]
      rw [additions, later.1, later.2, List.map_congr_left old]
      exact ⟨rfl, rfl⟩

theorem names_nodup_empty : empty.names.Nodup := List.nodup_nil

theorem records_after_empty (rs : List Request) :
    (empty.after rs).records = (empty.additions rs).mapIdx (fun slot p =>
      (p.1.name, (p.1.record slot).behind p.1.name p.2)) ∧
    (empty.after rs).nextSlot = (empty.additions rs).length := by
  have first : empty.nextSlot = 0 := rfl
  have nothing : empty.records = [] := rfl
  obtain ⟨records, nextSlot⟩ := records_after names_nodup_empty rs
  simp only [first, nothing, List.map_nil, List.nil_append, Nat.zero_add] at records nextSlot
  exact ⟨records, nextSlot⟩

/-- A fresh table holds what requests have added to it, in this order. The slot of a name is its
position, its constancy and its place are those that it was added with, and it has a value if it was
added with one or marked since. The table answers by these records, fails for no other reason than
that a name has a record or has none, and is unchanged where it fails. -/
theorem holds_additions (rs : List Request) :
    let t := empty.after rs
    let added := empty.additions rs
    t.records =
      added.mapIdx (fun slot p => (p.1.name, (p.1.record slot).behind p.1.name p.2)) ∧
    (added.map fun p => p.1.name).Nodup ∧
    t.answer .names = (.ok (.names (added.map fun p => p.1.name)), t) ∧
    t.answer .slots = (.ok (.slots (added.mapIdx fun slot p => (p.1.name, slot))), t) ∧
    t.answer .size = (.ok (.number added.length), t) ∧
    t.answer .nextSlot = (.ok (.number added.length), t) ∧
    (∀ slot (d : Declaration) since, added[slot]? = some (d, since) →
      t.Has d.name ((d.record slot).behind d.name since)) ∧
    (∀ name, (∀ p ∈ added, p.1.name ≠ name) → t.Lacks name) ∧
    (∀ q e, (t.answer q).1 = .error e → (t.answer q).2 = t) ∧
    ∀ later, (t.records.map fun p => (p.1, p.2.behind p.1 later)) <+: (t.after later).records := by
  intro t added
  have distinct : t.names.Nodup := names_nodup_after names_nodup_empty rs
  obtain ⟨records, nextSlot⟩ : t.records = added.mapIdx (fun slot p =>
      (p.1.name, (p.1.record slot).behind p.1.name p.2)) ∧ t.nextSlot = added.length :=
    records_after_empty rs
  have names : t.names = added.map fun p => p.1.name := by
    apply List.ext_getElem?
    intro slot
    simp [Table.names, records, Function.comp_def]
  have slots : t.slots = added.mapIdx fun slot p => (p.1.name, slot) := by
    apply List.ext_getElem?
    intro slot
    simp [Table.slots, records, Function.comp_def, Record.behind, Declaration.record]
  have size : t.size = added.length := by rw [Table.size, records, List.length_mapIdx]
  refine ⟨records, names ▸ distinct, ?_, ?_, ?_, ?_, ?_, ?_, ?_, ?_⟩
  · rw [answer, names]
  · rw [answer, slots]
  · rw [answer, size]
  · rw [answer, nextSlot]
  · intro slot d since there
    apply has_of_find? distinct
    rw [Table.find?, lookup_eq_some_iff distinct, records, List.mem_iff_getElem?]
    exact ⟨slot, by rw [List.getElem?_mapIdx, there]; rfl⟩
  · intro name others
    apply lacks_of_not_mem
    rw [names, List.mem_map]
    rintro ⟨p, member, same⟩
    exact others p member same
  · intro q e
    exact answer_eq_of_error
  · intro later
    rw [(records_after distinct later).1]
    exact List.prefix_append ..

/-- A name that has been marked and is added again keeps its record. -/
theorem holds_additions_again :
    let t := empty.after [.add ⟨"x", false, false, none⟩ none, .markInitialized "x",
      .add ⟨"x", true, true, none⟩ none]
    t.Has "x" ⟨false, true, 0, none⟩ ∧ t.Lacks "y" := by
  obtain ⟨_, _, _, _, _, _, has, lacks, _⟩ := holds_additions
    [.add ⟨"x", false, false, none⟩ none, .markInitialized "x", .add ⟨"x", true, true, none⟩ none]
  exact ⟨has 0 ⟨"x", false, false, none⟩ _ rfl, lacks "y" (by decide)⟩

end Table

namespace Scope

variable {s s' : Scope} {d : Declaration} {name : String} {line : Option String}

/-- The table of a scope. -/
def table (s : Scope) : Table :=
  ⟨s.entries.map fun e => (e.declaration.name, e.declaration.record e.slot), s.size⟩

theorem names_table (s : Scope) : s.table.names = s.names := by
  apply List.ext_getElem?
  intro slot
  simp [Table.names, table, names, Function.comp_def]

theorem find?_table (s : Scope) (name : String) :
    s.table.find? name = (s.find? name).map fun e => e.declaration.record e.slot := by
  rw [Table.find?, table, find?]
  induction s.entries with
  | nil => rfl
  | cons e es inductionHypothesis =>
    by_cases here : name = e.declaration.name
    · simp [here]
    · simp [List.lookup_cons, beq_eq_false_iff_ne.mpr here, Ne.symm here, inductionHypothesis]

theorem checkNew_table (s : Scope) (name : String) (location : Option Location)
    (line : Option String) :
    s.table.checkNew name location line =
      match s.find? name with
      | some e => .error (.redeclared ⟨.redeclared name e.declaration.location, location, line⟩)
      | none => .ok () := by
  rw [Table.checkNew, find?_table]
  cases s.find? name <;> rfl

theorem table_of_declare (declared : s.declare d = .ok s') : s'.table =
    ⟨s.table.records ++ [(d.name, d.record s.size)], s.table.nextSlot + 1⟩ := by
  have entries := entries_of_declare declared
  have size : s'.size = s.size + 1 := by
    rw [← length_entries, entries, List.length_append, length_entries, List.length_singleton]
  rw [table, entries, size, List.map_append]
  rfl

/-- To declare a name is to add it to the table. -/
theorem add_table (s : Scope) (d : Declaration) (line : Option String) :
    s.table.add d line =
      match s.declare d with
      | .ok s' => .ok (d.record s.size, s'.table)
      | .error e =>
        .error (.redeclared ⟨.redeclared d.name e.declaration.location, d.location, line⟩) := by
  rw [Table.add, checkNew_table]
  cases found : s.find? d.name with
  | some e =>
    rw [declare_eq_error_iff.mpr found]
    rfl
  | none =>
    obtain ⟨s', declared⟩ := exists_declare found
    have absent : d.name ∉ s.table.records.map Prod.fst := by
      rw [← Table.names, names_table]
      exact find?_eq_none_iff.mp found
    simp only [declared, table_of_declare declared, ← Table.set_of_not_mem absent]
    rfl

theorem table_withValue (s : Scope) (name : String) : (s.withValue name).table =
    ⟨s.table.records.map fun p => (p.1, if p.1 = name then p.2.initialized else p.2),
      s.table.nextSlot⟩ := by
  have records : (s.withValue name).table.records =
      s.table.records.map fun p => (p.1, if p.1 = name then p.2.initialized else p.2) := by
    apply List.ext_getElem?
    intro slot
    simp only [table, withValue, List.getElem?_map, getElem?_entries, Option.map_map]
    congr 1
    funext d
    by_cases here : d.name = name <;>
      simp [here, Declaration.initialized, Declaration.record, Table.Record.initialized]
  have nextSlot : (s.withValue name).table.nextSlot = s.table.nextSlot := s.size_withValue name
  rw [← records, ← nextSlot]

/-- To give a name a value is to mark it in the table. -/
theorem markInitialized_table (s : Scope) (name : String) :
    (s.table.markInitialized name).map Prod.snd =
      match s.markInitialized? name with
      | some s' => .ok s'.table
      | none => .error (.unknown name) := by
  rw [Table.markInitialized, find?_table]
  cases found : s.find? name with
  | none =>
    rw [markInitialized?_eq_none_iff.mpr (find?_eq_none_iff.mp found)]
    rfl
  | some e =>
    have distinct : (s.table.records.map Prod.fst).Nodup := by
      rw [← Table.names, names_table]
      exact s.names_nodup
    have record := (find?_table s name).trans (congrArg _ found)
    have marked := Table.set_of_lookup distinct record Table.Record.initialized
    rw [markInitialized?, if_pos (contains_iff.mpr (mem_names_of_find? found))]
    simp only [table_withValue, ← marked]
    rfl

end Scope
end OnePass
