import OnePass.Location

/-!
The declared names of a program. Names are distinct and stand in the order of their declarations;
a name's slot is its position. A declaration never changes but in one way: a name without a value
may receive one.
-/

namespace OnePass

structure Declaration where
  name : String
  isConstant : Bool
  isInitialized : Bool
  location : Option Location
  deriving DecidableEq

namespace Declaration

/-- The declaration once its name has a value. -/
def initialized (d : Declaration) : Declaration := { d with isInitialized := true }

@[simp]
theorem name_initialized (d : Declaration) : d.initialized.name = d.name := rfl

end Declaration

structure Scope where
  declarations : List Declaration
  names_nodup : (declarations.map Declaration.name).Nodup := by simp
  deriving DecidableEq

/-- A declaration together with its slot. -/
structure Entry where
  declaration : Declaration
  slot : Nat
  deriving DecidableEq

namespace Scope

def empty : Scope := ⟨[], by simp⟩

def size (s : Scope) : Nat := s.declarations.length

def names (s : Scope) : List String := s.declarations.map Declaration.name

def entries (s : Scope) : List Entry := s.declarations.mapIdx fun slot d => ⟨d, slot⟩

def slots (s : Scope) : List (String × Nat) := s.entries.map fun e => (e.declaration.name, e.slot)

def contains (s : Scope) (name : String) : Bool := s.names.contains name

def find? (s : Scope) (name : String) : Option Entry :=
  s.entries.find? fun e => e.declaration.name == name

@[simp]
theorem contains_iff {s : Scope} {name : String} : s.contains name = true ↔ name ∈ s.names := by
  simp [contains]

@[simp]
theorem length_entries (s : Scope) : s.entries.length = s.size := by simp [entries, size]

@[simp]
theorem getElem?_entries (s : Scope) (slot : Nat) :
    s.entries[slot]? = s.declarations[slot]?.map fun d => ⟨d, slot⟩ := by
  simp [entries]

theorem mem_entries_iff {s : Scope} {e : Entry} :
    e ∈ s.entries ↔ s.declarations[e.slot]? = some e.declaration := by
  rw [List.mem_iff_getElem?]
  constructor
  · rintro ⟨slot, found⟩
    rw [getElem?_entries] at found
    obtain ⟨d, there, rfl⟩ := Option.map_eq_some_iff.1 found
    exact there
  · intro there
    exact ⟨e.slot, by rw [getElem?_entries, there]; rfl⟩

theorem find?_eq_none_iff {s : Scope} {name : String} :
    s.find? name = none ↔ name ∉ s.names := by
  simp only [find?, List.find?_eq_none, beq_iff_eq, names, List.mem_map, not_exists, not_and]
  constructor
  · intro absent d declared
    obtain ⟨slot, there⟩ := List.mem_iff_getElem?.1 declared
    exact absent ⟨d, slot⟩ (mem_entries_iff.2 there)
  · intro absent e declared
    exact absent e.declaration (List.mem_iff_getElem?.2 ⟨e.slot, mem_entries_iff.1 declared⟩)

/-- Add a declaration whose name is new. -/
def push (s : Scope) (d : Declaration) (new : d.name ∉ s.names) : Scope where
  declarations := s.declarations ++ [d]
  names_nodup := by
    rw [List.map_append, List.nodup_append]
    refine ⟨s.names_nodup, by simp, ?_⟩
    rintro a old b added rfl
    simp at added
    exact new (added ▸ old)

/-- Add a declaration in the next slot, or give the entry that already has its name. -/
def declare (s : Scope) (d : Declaration) : Except Entry Scope :=
  match search : s.find? d.name with
  | some e => .error e
  | none => .ok (s.push d (find?_eq_none_iff.1 search))

/-- The scope in which a name has a value. -/
def withValue (s : Scope) (name : String) : Scope where
  declarations := s.declarations.map fun d => if d.name = name then d.initialized else d
  names_nodup := by
    have same : (Declaration.name ∘ fun d => if d.name = name then d.initialized else d) =
        Declaration.name := by
      funext d
      simp only [Function.comp]
      split <;> rfl
    rw [List.map_map, same]
    exact s.names_nodup

@[simp]
theorem names_push (s : Scope) (d : Declaration) (new : d.name ∉ s.names) :
    (s.push d new).names = s.names ++ [d.name] := by
  simp [push, names]

/-- Note that a declared name has a value. -/
def markInitialized? (s : Scope) (name : String) : Option Scope :=
  if s.contains name then some (s.withValue name) else none

@[simp]
theorem names_withValue (s : Scope) (name : String) : (s.withValue name).names = s.names := by
  simp only [withValue, names, List.map_map]
  congr 1
  funext d
  simp only [Function.comp]
  split <;> rfl

@[simp]
theorem size_withValue (s : Scope) (name : String) : (s.withValue name).size = s.size := by
  simp [withValue, size]

theorem markInitialized?_eq_none_iff {s : Scope} {name : String} :
    s.markInitialized? name = none ↔ name ∉ s.names := by
  simp [markInitialized?]

theorem declare_eq_error_iff {s : Scope} {d : Declaration} {e : Entry} :
    s.declare d = .error e ↔ s.find? d.name = some e := by
  unfold declare
  split <;> simp_all

end Scope
end OnePass
