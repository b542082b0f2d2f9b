/-!
# Ordered tables

Keys with values in declaration order. Inserting under a key that is already there keeps the key's
place and takes the new value; `get?_insert` and `keys_insert` say so. Tables that are built by
insertions have distinct keys (`distinct_ofList`).
-/

namespace Statechart

/-- Keys with their values, in the order in which the keys were first declared. -/
structure Table (α : Type) where
  entries : List (String × α) := []

namespace Table

variable {α β : Type}

instance : Inhabited (Table α) := ⟨⟨[]⟩⟩

/-! ## Views -/

def keys (t : Table α) : List String := t.entries.map (·.1)

def size (t : Table α) : Nat := t.entries.length

def isEmpty (t : Table α) : Bool := t.entries.isEmpty

/-- The value under a key; of several ones the first. -/
def get? (t : Table α) (key : String) : Option α := t.entries.lookup key

/-- No key occurs twice. -/
def Distinct (t : Table α) : Prop := t.keys.Nodup

/-! ## Construction -/

def insertEntry (key : String) (value : α) : List (String × α) → List (String × α)
  | [] => [(key, value)]
  | (k, v) :: rest => if k = key then (key, value) :: rest else (k, v) :: insertEntry key value rest

/-- Puts a value under a key, at the key's old place if it has one and else at the end. -/
def insert (t : Table α) (key : String) (value : α) : Table α :=
  ⟨insertEntry key value t.entries⟩

/-- Inserts entries one after the other. -/
def insertAll (t : Table α) (entries : List (String × α)) : Table α :=
  entries.foldl (fun t e => t.insert e.1 e.2) t

/-- The table that results from inserting the entries. -/
def ofList (entries : List (String × α)) : Table α := insertAll ⟨[]⟩ entries

/-- The entries of both tables; where both have a key, the place is the first's and the value the
second's. -/
def union (t u : Table α) : Table α := t.insertAll u.entries

/-- The union of all tables, from the first to the last. -/
def unions (ts : List (Table α)) : Table α := ts.foldl union ⟨[]⟩

/-- The table without a key; the other entries keep their order. -/
def erase (t : Table α) (key : String) : Table α := ⟨t.entries.filter (·.1 ≠ key)⟩

def map (f : α → β) (t : Table α) : Table β := ⟨t.entries.map fun e => (e.1, f e.2)⟩

/-! ## Equality without order -/

/-- Same number of entries, and each entry of the first is found with an equal value in the
second. -/
instance [BEq α] : BEq (Table α) where
  beq t u := t.size == u.size && t.entries.all fun e => (u.get? e.1).any (e.2 == ·)

/-! ## What an insertion changes -/

@[simp] theorem get?_nil (k : String) : (⟨[]⟩ : Table α).get? k = none := rfl

theorem get?_cons (k k' : String) (v : α) (rest : List (String × α)) :
    (⟨(k, v) :: rest⟩ : Table α).get? k' =
      if k' = k then some v else (⟨rest⟩ : Table α).get? k' := by
  rw [get?, List.lookup_cons]
  by_cases h : k' = k
  · simp [h]
  · simp [beq_eq_false_iff_ne.2 h, h, get?]

@[simp] theorem get?_insert (t : Table α) (k k' : String) (v : α) :
    (t.insert k v).get? k' = if k' = k then some v else t.get? k' := by
  obtain ⟨es⟩ := t
  induction es with
  | nil => simp [insert, insertEntry, get?_cons]
  | cons e es ih =>
    obtain ⟨k₀, v₀⟩ := e
    simp only [insert, insertEntry] at ih ⊢
    by_cases h : k₀ = k
    · subst h
      rw [if_pos rfl, get?_cons, get?_cons]
      by_cases h' : k' = k₀ <;> simp [h']
    · rw [if_neg h, get?_cons, get?_cons, ih]
      by_cases h' : k' = k₀
      · simp [h', h]
      · simp [h']

theorem keys_insert (t : Table α) (k : String) (v : α) :
    (t.insert k v).keys = if k ∈ t.keys then t.keys else t.keys ++ [k] := by
  obtain ⟨es⟩ := t
  induction es with
  | nil => simp [insert, insertEntry, keys]
  | cons e es ih =>
    obtain ⟨k₀, v₀⟩ := e
    simp only [insert, insertEntry, keys] at ih ⊢
    by_cases h : k₀ = k
    · simp [h]
    · have h' : ¬k = k₀ := fun h₁ => h h₁.symm
      simp only [if_neg h, List.map_cons, ih, List.mem_cons, h', false_or]
      by_cases hm : k ∈ es.map (·.1) <;> simp [hm]

theorem Distinct.insert {t : Table α} (h : t.Distinct) (k : String) (v : α) :
    (t.insert k v).Distinct := by
  rw [Distinct, keys_insert]
  split
  · exact h
  · rename_i hk
    exact List.nodup_append.mpr
      ⟨h, by simp, fun a ha b hb he => hk (by simp_all)⟩

/-! ## Sequences of insertions -/

theorem Distinct.insertAll {t : Table α} (h : t.Distinct) (entries : List (String × α)) :
    (t.insertAll entries).Distinct := by
  induction entries generalizing t with
  | nil => exact h
  | cons e es ih => exact ih (h.insert e.1 e.2)

theorem distinct_nil : (⟨[]⟩ : Table α).Distinct := List.nodup_nil

theorem distinct_ofList (entries : List (String × α)) : (ofList entries).Distinct :=
  distinct_nil.insertAll entries

theorem Distinct.union {t : Table α} (h : t.Distinct) (u : Table α) : (t.union u).Distinct :=
  h.insertAll u.entries

/-! ## Other operations -/

@[simp] theorem get?_erase (t : Table α) (k k' : String) :
    (t.erase k).get? k' = if k' = k then none else t.get? k' := by
  obtain ⟨es⟩ := t
  induction es with
  | nil => simp [erase]
  | cons e es ih =>
    obtain ⟨k₀, v₀⟩ := e
    simp only [erase] at ih ⊢
    by_cases h : k₀ = k
    · rw [List.filter_cons_of_neg (by simp [h]), ih, get?_cons]
      by_cases h' : k' = k
      · simp [h']
      · have h'' : ¬k' = k₀ := fun h₁ => h' (h₁.trans h)
        simp [h', h'']
    · rw [List.filter_cons_of_pos (by simp [h]), get?_cons, get?_cons, ih]
      by_cases h' : k' = k₀
      · simp [h', h]
      · simp [h']

theorem keys_erase (t : Table α) (k : String) : (t.erase k).keys = t.keys.filter (· ≠ k) := by
  simp [erase, keys, List.filter_map, Function.comp_def]

theorem Distinct.erase {t : Table α} (h : t.Distinct) (k : String) : (t.erase k).Distinct := by
  rw [Distinct, keys_erase]
  exact List.Pairwise.filter _ h

@[simp] theorem map_id (t : Table α) : t.map id = t := by simp [map]

@[simp] theorem keys_map (f : α → β) (t : Table α) : (t.map f).keys = t.keys := by
  simp [map, keys, Function.comp_def]

@[simp] theorem get?_map (f : α → β) (t : Table α) (k : String) :
    (t.map f).get? k = (t.get? k).map f := by
  obtain ⟨es⟩ := t
  induction es with
  | nil => rfl
  | cons e es ih =>
    obtain ⟨k₀, v₀⟩ := e
    simp only [map, List.map_cons] at ih ⊢
    rw [get?_cons, get?_cons, ih]
    by_cases h : k = k₀ <;> simp [h]

end Table

end Statechart
