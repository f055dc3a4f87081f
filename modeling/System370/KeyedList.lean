import System370.Bytes

/-!
# Tables

A table keeps values for keys as a list of pairs.  A value that is put into it
goes in front, in place of the one that the key had before.
-/

namespace System370

/-- Values kept for keys. -/
abbrev KeyedList (κ α : Type) := List (κ × α)

namespace KeyedList

variable {κ α : Type} [DecidableEq κ]

/-- The value of a key. -/
def get? (table : KeyedList κ α) (key : κ) : Option α :=
  (table.find? (·.1 = key)).map (·.2)

/-- A table without a key. -/
def erase (table : KeyedList κ α) (key : κ) : KeyedList κ α :=
  table.filter (·.1 ≠ key)

/-- A table with a new value for a key. -/
def insert (table : KeyedList κ α) (key : κ) (value : α) : KeyedList κ α :=
  (key, value) :: erase table key

theorem get?_cons (key : κ) (value : α) (table : KeyedList κ α) (other : κ) :
    get? ((key, value) :: table) other = if other = key then some value else
      get? table other := by
  unfold get?
  rw [List.find?_cons]
  by_cases h : other = key
  · simp [h]
  · have hne : key ≠ other := fun hsame => h hsame.symm
    simp [h, hne]

/-- What is erased is gone, and nothing else. -/
theorem get?_erase (table : KeyedList κ α) (key other : κ) :
    get? (erase table key) other = if other = key then none else
      get? table other := by
  unfold get? erase
  rw [List.find?_filter]
  by_cases h : other = key
  · have hnone :
        table.find? (fun entry => decide (decide (entry.1 ≠ key) = true ∧
        decide (entry.1 = other) = true)) = none :=
      List.find?_eq_none.mpr fun entry _ => by simp [h]
    rw [hnone, if_pos h]
    rfl
  · have hsame : (fun entry : κ × α => decide (decide (entry.1 ≠ key) = true ∧
        decide (entry.1 = other) = true)) =
          fun entry => decide (entry.1 = other) := by
      funext entry
      by_cases heq : entry.1 = other
      · simp [heq, h]
      · simp [heq]
    rw [hsame, if_neg h]

/-- What is inserted is found, and nothing else changes. -/
theorem get?_insert (table : KeyedList κ α) (key : κ) (value : α) (other : κ) :
    get? (insert table key value) other = if other = key then some value else
      get? table other := by
  unfold insert
  rw [get?_cons, get?_erase]
  split <;> rfl

/-- Keys stay different when one is erased. -/
theorem keys_erase {table : KeyedList κ α}
    (h : (table.map (·.1)).Nodup) (key : κ) :
    ((erase table key).map (·.1)).Nodup :=
  h.sublist (List.filter_sublist.map _)

/-- Keys stay different when one is inserted. -/
theorem keys_insert {table : KeyedList κ α} (h : (table.map (·.1)).Nodup)
    (key : κ) (value : α) :
    ((insert table key value).map (·.1)).Nodup := by
  refine List.nodup_cons.mpr ⟨?_, keys_erase h key⟩
  simp [erase]

theorem forall_erase {table : KeyedList κ α} {holds : κ × α → Prop}
    (h : ∀ entry ∈ table, holds entry) (key : κ) : ∀ entry ∈ erase table key,
    holds entry :=
  fun entry hentry => h entry (List.mem_filter.mp hentry).1

theorem forall_insert {table : KeyedList κ α} {holds : κ × α → Prop}
    (h : ∀ entry ∈ table, holds entry) {key : κ} {value : α}
    (hnew : holds (key, value)) :
    ∀ entry ∈ insert table key value, holds entry :=
  List.forall_mem_cons.mpr ⟨hnew, forall_erase h key⟩

/-- A table does not change without a key that it does not have. -/
theorem erase_of_get? {table : KeyedList κ α} {key : κ}
    (h : get? table key = none) :
    erase table key = table := by
  unfold get? at h
  rw [Option.map_eq_none_iff, List.find?_eq_none] at h
  exact List.filter_eq_self.mpr fun entry hentry => by
    simpa using h entry hentry

/-- A key without a value, if no value is the empty list. -/
theorem get?_eq_none_of_getD {β : Type} {table : KeyedList κ (List β)}
    {key : κ} (h : ∀ entry ∈ table, entry.2 ≠ [])
    (hempty : (get? table key).getD [] = []) :
    get? table key = none := by
  unfold get? at hempty ⊢
  cases hfound : table.find? (·.1 = key) with
  | none => rfl
  | some entry =>
      rw [hfound] at hempty
      exact absurd hempty (h entry (List.mem_of_find?_eq_some hfound))

/-- In a table that has every key once the values are those that are looked
up. -/
theorem get?_eq_some_iff {table : KeyedList κ α} (h : (table.map (·.1)).Nodup)
    {key : κ} {value : α} : get? table key = some value ↔
      (key, value) ∈ table := by
  induction table with
  | nil => simp [get?]
  | cons entry rest ih =>
      obtain ⟨hfirst, hrest⟩ := List.nodup_cons.mp h
      rw [get?_cons, List.mem_cons]
      split
      · rename_i heq
        subst heq
        have hnot : (entry.1, value) ∉ rest := fun hmem =>
          hfirst (List.mem_map.mpr ⟨_, hmem, rfl⟩)
        simp [hnot, Prod.ext_iff, eq_comm]
      · rename_i hne
        rw [ih hrest]
        simp [Prod.ext_iff, hne]

end KeyedList

end System370
