/-!
# Tables in insertion order

Factories, traits, attributes and instance fields are all kept in tables that list their
entries in the order the keys were first inserted. Inserting a key again replaces its value
where it stands.
-/

namespace TraitFactory

/-- **Insertion-ordered table** from names to values. -/
structure Table (α : Type) where
  entries : List (String × α)
  deriving DecidableEq, Repr

namespace Table

variable {α β : Type}

instance : EmptyCollection (Table α) := ⟨⟨[]⟩⟩

instance : Inhabited (Table α) := ⟨∅⟩

/-- Replaces the value under a key, or adds the entry at the end. -/
def insertEntry (k : String) (v : α) : List (String × α) → List (String × α)
  | [] => [(k, v)]
  | (k', v') :: es => if k' = k then (k, v) :: es else (k', v') :: insertEntry k v es

def insert (t : Table α) (k : String) (v : α) : Table α := ⟨insertEntry k v t.entries⟩

def get? (t : Table α) (k : String) : Option α :=
  (t.entries.find? (·.1 = k)).map (·.2)

/-- A table without the entry of a key. -/
def erase (t : Table α) (k : String) : Table α := ⟨t.entries.filter (·.1 ≠ k)⟩

def keys (t : Table α) : List String := t.entries.map (·.1)

def values (t : Table α) : List α := t.entries.map (·.2)

def contains (t : Table α) (k : String) : Bool := t.keys.contains k

def size (t : Table α) : Nat := t.entries.length

def isEmpty (t : Table α) : Bool := t.entries.isEmpty

/-- Inserts the entries one after another: an equal key keeps its first place and takes the
last value. -/
def ofList (es : List (String × α)) : Table α :=
  es.foldl (fun t e => t.insert e.1 e.2) ∅

def map (f : α → β) (t : Table α) : Table β := ⟨t.entries.map fun e => (e.1, f e.2)⟩

/-! ## What insertion does to keys and values -/

@[simp] theorem keys_empty : (∅ : Table α).keys = [] := rfl

@[simp] theorem get?_empty (k : String) : (∅ : Table α).get? k = none := rfl

theorem map_fst_insertEntry (k : String) (v : α) (es : List (String × α)) :
    (insertEntry k v es).map (·.1)
      = if k ∈ es.map (·.1) then es.map (·.1) else es.map (·.1) ++ [k] := by
  induction es with
  | nil => rfl
  | cons e es ih =>
    obtain ⟨k', v'⟩ := e
    by_cases h : k' = k
    · subst h; simp [insertEntry]
    · have h' : ¬ k = k' := fun h'' => h h''.symm
      by_cases hm : k ∈ es.map (·.1)
      · simp only [insertEntry, h, if_false, List.map_cons, ih, hm, if_true, List.mem_cons,
          or_true]
      · simp only [insertEntry, h, if_false, List.map_cons, ih, hm, List.mem_cons, h', or_self,
          List.cons_append]

theorem insertEntry_of_not_mem {k : String} (v : α) {es : List (String × α)}
    (h : k ∉ es.map (·.1)) : insertEntry k v es = es ++ [(k, v)] := by
  induction es with
  | nil => rfl
  | cons e es ih =>
    rw [List.map_cons, List.mem_cons, not_or] at h
    rw [insertEntry, if_neg (Ne.symm h.1), ih h.2, List.cons_append]

theorem keys_insert_of_mem {t : Table α} {k : String} (v : α) (h : k ∈ t.keys) :
    (t.insert k v).keys = t.keys := by
  simp only [keys] at h
  simp only [keys, insert, map_fst_insertEntry, h, if_true]

theorem keys_insert_of_not_mem {t : Table α} {k : String} (v : α) (h : k ∉ t.keys) :
    (t.insert k v).keys = t.keys ++ [k] := by
  simp only [keys] at h
  simp only [keys, insert, map_fst_insertEntry, h, if_false]

theorem find?_insertEntry_self (k : String) (v : α) (es : List (String × α)) :
    (insertEntry k v es).find? (·.1 = k) = some (k, v) := by
  induction es with
  | nil => simp [insertEntry]
  | cons e es ih =>
    obtain ⟨k', v'⟩ := e
    by_cases h : k' = k
    · simp [insertEntry, h]
    · simp [insertEntry, h, ih]

theorem find?_insertEntry_of_ne {k k' : String} (v : α) (es : List (String × α)) (h : k' ≠ k) :
    (insertEntry k v es).find? (·.1 = k') = es.find? (·.1 = k') := by
  induction es with
  | nil => simp [insertEntry, Ne.symm h]
  | cons e es ih =>
    obtain ⟨k₀, v₀⟩ := e
    by_cases h₀ : k₀ = k
    · subst h₀; simp [insertEntry, Ne.symm h]
    · by_cases h₁ : k₀ = k'
      · subst h₁; simp [insertEntry, h]
      · simp [insertEntry, h₀, h₁, ih]

@[simp] theorem get?_insert_self (t : Table α) (k : String) (v : α) :
    (t.insert k v).get? k = some v := by
  simp [get?, insert, find?_insertEntry_self]

theorem get?_insert_of_ne {k k' : String} (t : Table α) (v : α) (h : k' ≠ k) :
    (t.insert k v).get? k' = t.get? k' := by
  simp only [get?, insert, find?_insertEntry_of_ne v t.entries h]

@[simp] theorem get?_erase_self (t : Table α) (k : String) : (t.erase k).get? k = none := by
  simp [get?, erase]

theorem isSome_get?_iff (t : Table α) (k : String) : (t.get? k).isSome ↔ k ∈ t.keys := by
  simp [get?, keys]

end Table

end TraitFactory
