/-!
# SimpleMachine.LabelTable

The addresses of a program's labels, in the order of their definition.

- `add`: defines a label; the first definition of a name keeps its address.
- `address?`: the address of a name.
- `names`: the defined names, each once.
-/

namespace SimpleMachine

/-- Label names with their addresses, in the order of definition, each name once. -/
structure LabelTable where
  entries : List (String × Int) := []
  nodup_names : (entries.map Prod.fst).Nodup := by simp
  deriving DecidableEq, Repr

namespace LabelTable

def empty : LabelTable := {}

instance : EmptyCollection LabelTable := ⟨empty⟩
instance : Inhabited LabelTable := ⟨empty⟩

def names (t : LabelTable) : List String := t.entries.map Prod.fst

def size (t : LabelTable) : Nat := t.entries.length

def address? (t : LabelTable) (name : String) : Option Int := t.entries.lookup name

instance : Membership String LabelTable := ⟨fun t name => name ∈ t.names⟩

instance (name : String) (t : LabelTable) : Decidable (name ∈ t) :=
  inferInstanceAs (Decidable (name ∈ t.names))

/-- Defines a name, unless it is defined already. -/
def add (t : LabelTable) (name : String) (address : Int) : LabelTable :=
  if h : name ∈ t.names then t
  else
    { entries := t.entries ++ [(name, address)]
      nodup_names := by
        rw [List.map_append, List.nodup_append]
        refine ⟨t.nodup_names, by simp, ?_⟩
        intro a ha b hb
        simp only [List.map_cons, List.map_nil, List.mem_singleton] at hb
        rintro rfl
        exact h (hb ▸ ha) }

def shown (t : LabelTable) : String := "(" ++ ", ".intercalate t.names ++ ")"

@[simp]
theorem names_empty : (∅ : LabelTable).names = [] := rfl

@[simp]
theorem address?_empty (name : String) : (∅ : LabelTable).address? name = none := rfl

theorem add_of_mem {t : LabelTable} {name : String} (h : name ∈ t.names) (address : Int) :
    t.add name address = t := by
  simp [add, h]

theorem entries_add_of_notMem {t : LabelTable} {name : String} (h : name ∉ t.names)
    (address : Int) : (t.add name address).entries = t.entries ++ [(name, address)] := by
  simp [add, h]

theorem names_add (t : LabelTable) (name : String) (address : Int) :
    (t.add name address).names = if name ∈ t.names then t.names else t.names ++ [name] := by
  by_cases h : name ∈ t.names
  · rw [add_of_mem h, if_pos h]
  · rw [if_neg h, names, entries_add_of_notMem h, List.map_append]
    rfl

theorem address?_eq_none_iff {t : LabelTable} {name : String} :
    t.address? name = none ↔ name ∉ t.names := by
  simp only [address?, names, List.lookup_eq_none_iff, List.mem_map, Prod.exists, exists_and_right,
    exists_eq_right, not_exists]
  constructor
  · intro h address hmem
    simpa using h (name, address) hmem
  · rintro h ⟨a, address⟩ hmem
    have hne : name ≠ a := fun e => h address (e ▸ hmem)
    simpa using hne

/-- A name keeps the address of its first definition. -/
theorem address?_add (t : LabelTable) (name other : String) (address : Int) :
    (t.add name address).address? other =
      (t.address? other).or (if other = name then some address else none) := by
  by_cases h : name ∈ t.names
  · rw [add_of_mem h]
    by_cases ho : other = name
    · cases ha : t.address? other with
      | none => exact absurd h (ho ▸ address?_eq_none_iff.1 ha)
      | some a => rfl
    · simp [ho]
  · rw [address?, entries_add_of_notMem h, List.lookup_append]
    by_cases ho : other = name
    · simp [address?, ho]
    · have hb : (other == name) = false := by simpa using ho
      simp [address?, List.lookup_cons, hb, ho]

end LabelTable
end SimpleMachine
