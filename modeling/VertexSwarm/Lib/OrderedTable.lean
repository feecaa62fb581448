import Mathlib

/-!
# Ordered key-value tables

A table of an ordered key-value store: finitely many rows kept in strictly ascending key order,
so that every key has at most one row.  `get`, `put` (insert or overwrite) and `delete` are the
point operations of a transaction; `first` and `seek` position a forward cursor, which then walks
the rows in key order.

The lemmas describe each operation by the rows it leaves (`mem_put`, `mem_delete`, `mem_seek`),
and by the rows it leaves counted under a predicate (`countP_put`, `countP_delete`): every proof
about a table built on this one goes through them, never through the list recursion.
-/

namespace VertexSwarm

/-- A finite table whose rows are in strictly ascending key order. -/
structure OrderedTable (κ ν : Type*) [LinearOrder κ] where
  rows : List (κ × ν)
  sorted : rows.Pairwise (fun a b ↦ a.1 < b.1)

namespace OrderedTable

variable {κ ν : Type*} [LinearOrder κ]

/-! ## Row lists -/

/-- Insert a row at its place in key order. -/
def insertRow (key : κ) (value : ν) : List (κ × ν) → List (κ × ν)
  | [] => [(key, value)]
  | row :: rows => if key < row.1 then (key, value) :: row :: rows else row :: insertRow key value rows

/-- The value of the first row with the given key. -/
def getRow (key : κ) : List (κ × ν) → Option ν
  | [] => none
  | row :: rows => if row.1 = key then some row.2 else getRow key rows

theorem mem_insertRow {key : κ} {value : ν} {rows : List (κ × ν)} {row : κ × ν} :
    row ∈ insertRow key value rows ↔ row = (key, value) ∨ row ∈ rows := by
  induction rows with
  | nil => simp [insertRow]
  | cons head rows ih =>
    unfold insertRow
    split
    · simp
    · simp only [List.mem_cons, ih]
      tauto

theorem perm_insertRow (key : κ) (value : ν) (rows : List (κ × ν)) :
    (insertRow key value rows).Perm ((key, value) :: rows) := by
  induction rows with
  | nil => exact List.Perm.refl _
  | cons head rows ih =>
    unfold insertRow
    split
    · exact List.Perm.refl _
    · exact (ih.cons head).trans (List.Perm.swap _ _ _)

theorem sorted_insertRow {key : κ} {value : ν} {rows : List (κ × ν)}
    (hsorted : rows.Pairwise (fun a b ↦ a.1 < b.1)) (hfresh : ∀ row ∈ rows, row.1 ≠ key) :
    (insertRow key value rows).Pairwise (fun a b ↦ a.1 < b.1) := by
  induction rows with
  | nil => simp [insertRow]
  | cons head rows ih =>
    rw [List.pairwise_cons] at hsorted
    have hhead : head.1 ≠ key := hfresh head (by simp)
    have hrest : ∀ row ∈ rows, row.1 ≠ key := fun row h ↦ hfresh row (by simp [h])
    unfold insertRow
    split
    · next hlt =>
      refine List.Pairwise.cons ?_ (List.Pairwise.cons hsorted.1 hsorted.2)
      intro row hrow
      rcases List.mem_cons.mp hrow with rfl | hrow
      · exact hlt
      · exact hlt.trans (hsorted.1 row hrow)
    · next hge =>
      have hlt : head.1 < key := lt_of_le_of_ne (not_lt.mp hge) hhead
      refine List.Pairwise.cons ?_ (ih hsorted.2 hrest)
      intro row hrow
      rcases mem_insertRow.mp hrow with rfl | hrow
      · exact hlt
      · exact hsorted.1 row hrow

theorem value_unique_of_sorted {rows : List (κ × ν)}
    (hsorted : rows.Pairwise (fun a b ↦ a.1 < b.1)) {key : κ} {value value' : ν}
    (h : (key, value) ∈ rows) (h' : (key, value') ∈ rows) : value = value' := by
  induction rows with
  | nil => simp at h
  | cons head rows ih =>
    rw [List.pairwise_cons] at hsorted
    rcases List.mem_cons.mp h with rfl | h <;> rcases List.mem_cons.mp h' with heq | h'
    · exact (Prod.mk.inj heq).2.symm
    · exact absurd (hsorted.1 _ h') (lt_irrefl _)
    · exact absurd (hsorted.1 _ h) (by rw [← heq]; exact lt_irrefl _)
    · exact ih hsorted.2 h h'

theorem getRow_eq_some_iff {rows : List (κ × ν)}
    (hsorted : rows.Pairwise (fun a b ↦ a.1 < b.1)) {key : κ} {value : ν} :
    getRow key rows = some value ↔ (key, value) ∈ rows := by
  induction rows with
  | nil => simp [getRow]
  | cons head rows ih =>
    rw [List.pairwise_cons] at hsorted
    unfold getRow
    split
    · next hkey =>
      constructor
      · rintro ⟨⟩
        simp [← hkey]
      · intro h
        rcases List.mem_cons.mp h with h | h
        · rw [← h]
        · exact absurd (hsorted.1 _ h) (by rw [hkey]; exact lt_irrefl _)
    · next hkey =>
      rw [ih hsorted.2, List.mem_cons]
      constructor
      · exact Or.inr
      · rintro (h | h)
        · exact absurd (by rw [← h]) hkey
        · exact h

/-! ## Point operations -/

/-- The table with no rows. -/
def empty : OrderedTable κ ν := ⟨[], List.Pairwise.nil⟩

/-- The value stored under `key`, if any. -/
def get (table : OrderedTable κ ν) (key : κ) : Option ν := getRow key table.rows

/-- Remove the row of `key`, if there is one. -/
def delete (table : OrderedTable κ ν) (key : κ) : OrderedTable κ ν :=
  ⟨table.rows.filter (fun row ↦ row.1 ≠ key), table.sorted.filter _⟩

/-- Store `value` under `key`, replacing the previous row of `key`. -/
def put (table : OrderedTable κ ν) (key : κ) (value : ν) : OrderedTable κ ν :=
  ⟨insertRow key value (table.delete key).rows,
    sorted_insertRow (table.delete key).sorted (fun row h ↦ by
      simp only [delete, List.mem_filter, decide_eq_true_eq] at h
      exact h.2)⟩

/-- The number of rows. -/
def count (table : OrderedTable κ ν) : ℕ := table.rows.length

/-- Apply `f` to every value in place, as a pass updating every row does. -/
def mapValues {ν' : Type*} (table : OrderedTable κ ν) (f : κ → ν → ν') : OrderedTable κ ν' :=
  ⟨table.rows.map fun row ↦ (row.1, f row.1 row.2), List.pairwise_map.mpr table.sorted⟩

theorem ext_rows {table table' : OrderedTable κ ν} (h : table.rows = table'.rows) : table = table' := by
  cases table
  cases table'
  cases h
  rfl

@[simp]
theorem rows_empty : (empty : OrderedTable κ ν).rows = [] := rfl

@[simp]
theorem get_empty (key : κ) : (empty : OrderedTable κ ν).get key = none := rfl

@[simp]
theorem mem_delete {table : OrderedTable κ ν} {key : κ} {row : κ × ν} :
    row ∈ (table.delete key).rows ↔ row ∈ table.rows ∧ row.1 ≠ key := by
  simp [delete]

@[simp]
theorem mem_put {table : OrderedTable κ ν} {key : κ} {value : ν} {row : κ × ν} :
    row ∈ (table.put key value).rows ↔ row = (key, value) ∨ row ∈ table.rows ∧ row.1 ≠ key := by
  rw [put, mem_insertRow, mem_delete]

theorem value_unique {table : OrderedTable κ ν} {key : κ} {value value' : ν}
    (h : (key, value) ∈ table.rows) (h' : (key, value') ∈ table.rows) : value = value' :=
  value_unique_of_sorted table.sorted h h'

theorem get_eq_some_iff {table : OrderedTable κ ν} {key : κ} {value : ν} :
    table.get key = some value ↔ (key, value) ∈ table.rows :=
  getRow_eq_some_iff table.sorted

theorem get_eq_none_iff {table : OrderedTable κ ν} {key : κ} :
    table.get key = none ↔ ∀ row ∈ table.rows, row.1 ≠ key := by
  constructor
  · intro h row hrow hkey
    have hsome : table.get key = some row.2 := get_eq_some_iff.mpr (by rw [← hkey]; exact hrow)
    rw [h] at hsome
    exact absurd hsome (by simp)
  · intro h
    cases hget : table.get key with
    | none => rfl
    | some value => exact absurd rfl (h _ (get_eq_some_iff.mp hget))

theorem keys_of_sublist {table : OrderedTable κ ν} {rows : List (κ × ν)} (h : rows.Sublist table.rows) :
    (rows.map Prod.fst).Nodup ∧ ∀ key ∈ rows.map Prod.fst, (table.get key).isSome := by
  refine ⟨(List.pairwise_map.mpr (table.sorted.sublist h)).imp ne_of_lt, fun key hkey ↦ ?_⟩
  obtain ⟨row, hrow, rfl⟩ := List.mem_map.mp hkey
  rw [get_eq_some_iff.mpr (h.subset hrow)]
  rfl

@[simp]
theorem get_mapValues {ν' : Type*} (table : OrderedTable κ ν) (f : κ → ν → ν') (key : κ) :
    (table.mapValues f).get key = (table.get key).map (f key) := by
  cases hget : table.get key with
  | none =>
    rw [get_eq_none_iff] at hget
    rw [Option.map_none, get_eq_none_iff]
    intro row hrow
    obtain ⟨row', hrow', rfl⟩ := List.mem_map.mp hrow
    exact hget row' hrow'
  | some value =>
    rw [Option.map_some, get_eq_some_iff]
    exact List.mem_map.mpr ⟨(key, value), get_eq_some_iff.mp hget, rfl⟩

@[simp]
theorem get_put_self (table : OrderedTable κ ν) (key : κ) (value : ν) :
    (table.put key value).get key = some value := by
  rw [get_eq_some_iff, mem_put]
  exact Or.inl rfl

@[simp]
theorem get_put_of_ne {table : OrderedTable κ ν} {key key' : κ} (value : ν) (hne : key' ≠ key) :
    (table.put key value).get key' = table.get key' := by
  cases hget : table.get key' with
  | none =>
    rw [get_eq_none_iff] at hget ⊢
    intro row hrow
    rcases mem_put.mp hrow with rfl | ⟨hrow, -⟩
    · exact hne.symm
    · exact hget row hrow
  | some stored =>
    rw [get_eq_some_iff] at hget ⊢
    exact mem_put.mpr (Or.inr ⟨hget, hne⟩)

theorem isSome_get_put_of_isSome {table : OrderedTable κ ν} {key : κ} (h : (table.get key).isSome)
    (value : ν) (key' : κ) : ((table.put key value).get key').isSome = (table.get key').isSome := by
  by_cases hkey : key' = key
  · rw [hkey, get_put_self, h]
    rfl
  · rw [get_put_of_ne value hkey]

@[simp]
theorem get_delete_self (table : OrderedTable κ ν) (key : κ) : (table.delete key).get key = none := by
  rw [get_eq_none_iff]
  intro row hrow
  exact (mem_delete.mp hrow).2

@[simp]
theorem get_delete_of_ne {table : OrderedTable κ ν} {key key' : κ} (hne : key' ≠ key) :
    (table.delete key).get key' = table.get key' := by
  cases hget : table.get key' with
  | none =>
    rw [get_eq_none_iff] at hget ⊢
    intro row hrow
    exact hget row (mem_delete.mp hrow).1
  | some stored =>
    rw [get_eq_some_iff] at hget ⊢
    exact mem_delete.mpr ⟨hget, hne⟩

/-- `get` after `put`, with the key comparison under any decidable equality (a key type's
derived one, say). -/
theorem get_put [DecidableEq κ] (table : OrderedTable κ ν) (key : κ) (value : ν) (key' : κ) :
    (table.put key value).get key' = if key' = key then some value else table.get key' := by
  split
  · next h => rw [h, get_put_self]
  · next h => exact get_put_of_ne value h

theorem get_delete [DecidableEq κ] (table : OrderedTable κ ν) (key key' : κ) :
    (table.delete key).get key' = if key' = key then none else table.get key' := by
  split
  · next h => rw [h, get_delete_self]
  · next h => exact get_delete_of_ne h

theorem get_foldl_delete [DecidableEq κ] (keys : List κ) (table : OrderedTable κ ν) (key : κ) :
    (keys.foldl (fun table k ↦ table.delete k) table).get key =
      if key ∈ keys then none else table.get key := by
  induction keys generalizing table with
  | nil => simp
  | cons k keys ih =>
    rw [List.foldl_cons, ih, get_delete]
    by_cases hk : key = k <;> by_cases hmem : key ∈ keys <;> simp [hk, hmem]

@[simp]
theorem delete_delete_self (table : OrderedTable κ ν) (key : κ) :
    (table.delete key).delete key = table.delete key :=
  ext_rows (by simp [delete, List.filter_filter])

@[simp]
theorem put_delete_self (table : OrderedTable κ ν) (key : κ) (value : ν) :
    (table.delete key).put key value = table.put key value :=
  ext_rows (by simp only [put, delete_delete_self])

/-! ## Counting rows -/

theorem delete_rows_of_get_none {table : OrderedTable κ ν} {key : κ} (h : table.get key = none) :
    (table.delete key).rows = table.rows := by
  rw [get_eq_none_iff] at h
  exact List.filter_eq_self.mpr (fun row hrow ↦ by simpa using h row hrow)

theorem countP_filter_ne_add {rows : List (κ × ν)}
    (hsorted : rows.Pairwise (fun a b ↦ a.1 < b.1)) {key : κ} {value : ν}
    (h : (key, value) ∈ rows) (p : κ × ν → Bool) :
    (rows.filter (fun row ↦ row.1 ≠ key)).countP p + (if p (key, value) then 1 else 0) =
      rows.countP p := by
  induction rows with
  | nil => simp at h
  | cons head rows ih =>
    rw [List.pairwise_cons] at hsorted
    rcases List.mem_cons.mp h with rfl | h
    · -- the stored row is the head; every later key is larger, so the filter keeps the tail
      have htail : rows.filter (fun row ↦ row.1 ≠ key) = rows :=
        List.filter_eq_self.mpr (fun row hrow ↦ by simpa using (hsorted.1 row hrow).ne')
      rw [List.filter_cons_of_neg (by simp), htail, List.countP_cons]
    · have hne : head.1 ≠ key := (hsorted.1 _ h).ne
      rw [List.filter_cons_of_pos (by simpa using hne), List.countP_cons, List.countP_cons,
        ← ih hsorted.2 h]
      omega

theorem countP_delete {table : OrderedTable κ ν} {key : κ} {value : ν}
    (h : table.get key = some value) (p : κ × ν → Bool) :
    (table.delete key).rows.countP p + (if p (key, value) then 1 else 0) = table.rows.countP p :=
  countP_filter_ne_add table.sorted (get_eq_some_iff.mp h) p

theorem countP_put_of_get_none {table : OrderedTable κ ν} {key : κ} (value : ν)
    (h : table.get key = none) (p : κ × ν → Bool) :
    (table.put key value).rows.countP p = table.rows.countP p + (if p (key, value) then 1 else 0) := by
  rw [put, (perm_insertRow key value _).countP_eq, List.countP_cons, delete_rows_of_get_none h]

theorem count_delete {table : OrderedTable κ ν} {key : κ} {value : ν}
    (h : table.get key = some value) : (table.delete key).count + 1 = table.count := by
  simpa [count] using countP_delete h (fun _ ↦ true)

theorem count_put_of_get_none {table : OrderedTable κ ν} {key : κ} (value : ν)
    (h : table.get key = none) : (table.put key value).count = table.count + 1 := by
  simpa [count] using countP_put_of_get_none value h (fun _ ↦ true)

/-! ## Cursors -/

/-- The first row in key order, where a cursor opened with `first` stands. -/
def first (table : OrderedTable κ ν) : Option (κ × ν) := table.rows.head?

/-- The first `n` rows of a table hold its `n` smallest keys: each is below every key past
them. -/
theorem lt_of_mem_take {table : OrderedTable κ ν} {n : ℕ} {row row' : κ × ν}
    (hrow : row ∈ table.rows.take n) (hrow' : row' ∈ table.rows) (hpast : row' ∉ table.rows.take n) :
    row.1 < row'.1 := by
  have hsorted := table.sorted
  rw [← List.take_append_drop n table.rows, List.pairwise_append] at hsorted
  rw [← List.take_append_drop n table.rows, List.mem_append] at hrow'
  exact hsorted.2.2 row hrow row' (hrow'.resolve_left hpast)

/-- The rows a cursor positioned by `seek key` walks: those at or after `key`, ascending. -/
def seek (table : OrderedTable κ ν) (key : κ) : List (κ × ν) :=
  table.rows.dropWhile (fun row ↦ row.1 < key)

theorem dropWhile_eq_filter {rows : List (κ × ν)} (hsorted : rows.Pairwise (fun a b ↦ a.1 < b.1))
    (key : κ) : rows.dropWhile (fun row ↦ row.1 < key) = rows.filter (fun row ↦ key ≤ row.1) := by
  induction rows with
  | nil => rfl
  | cons head rows ih =>
    rw [List.pairwise_cons] at hsorted
    by_cases hlt : head.1 < key
    · simp [hlt, ih hsorted.2, not_le.mpr hlt]
    · have hall : ∀ row ∈ rows, key ≤ row.1 :=
        fun row hrow ↦ (not_lt.mp hlt).trans (hsorted.1 row hrow).le
      rw [List.dropWhile_cons_of_neg (by simpa using hlt),
        List.filter_cons_of_pos (by simpa using not_lt.mp hlt),
        List.filter_eq_self.mpr (fun row hrow ↦ by simpa using hall row hrow)]

theorem seek_eq_filter (table : OrderedTable κ ν) (key : κ) :
    table.seek key = table.rows.filter (fun row ↦ key ≤ row.1) :=
  dropWhile_eq_filter table.sorted key

@[simp]
theorem mem_seek {table : OrderedTable κ ν} {key : κ} {row : κ × ν} :
    row ∈ table.seek key ↔ row ∈ table.rows ∧ key ≤ row.1 := by
  simp [seek_eq_filter]

theorem seek_sorted (table : OrderedTable κ ν) (key : κ) :
    (table.seek key).Pairwise (fun a b ↦ a.1 < b.1) :=
  table.sorted.sublist (List.dropWhile_sublist _)

theorem first_eq_some {table : OrderedTable κ ν} {row : κ × ν} (h : table.first = some row) :
    row ∈ table.rows ∧ ∀ other ∈ table.rows, row.1 ≤ other.1 := by
  unfold first at h
  have hsorted := table.sorted
  cases hrows : table.rows with
  | nil => simp [hrows] at h
  | cons head rows =>
    rw [hrows, List.head?_cons, Option.some.injEq] at h
    subst h
    rw [hrows, List.pairwise_cons] at hsorted
    refine ⟨by simp, fun other hother ↦ ?_⟩
    rcases List.mem_cons.mp hother with rfl | hother
    · exact le_rfl
    · exact (hsorted.1 other hother).le

theorem takeWhile_eq_filter {rows : List (κ × ν)} (hsorted : rows.Pairwise (fun a b ↦ a.1 < b.1))
    {p : κ × ν → Bool} (hclosed : ∀ a ∈ rows, ∀ b ∈ rows, a.1 < b.1 → p a = false → p b = false) :
    rows.takeWhile p = rows.filter p := by
  induction rows with
  | nil => rfl
  | cons head rows ih =>
    rw [List.pairwise_cons] at hsorted
    have htail : ∀ a ∈ rows, ∀ b ∈ rows, a.1 < b.1 → p a = false → p b = false :=
      fun a ha b hb ↦ hclosed a (List.mem_cons_of_mem _ ha) b (List.mem_cons_of_mem _ hb)
    cases hhead : p head with
    | true => simp [hhead, ih hsorted.2 htail]
    | false =>
      have hnone : rows.filter p = [] := by
        refine List.filter_eq_nil_iff.mpr (fun row hrow ↦ ?_)
        have hrow' := hclosed head List.mem_cons_self row (List.mem_cons_of_mem _ hrow)
          (hsorted.1 row hrow) hhead
        simp [hrow']
      simp [hhead, hnone]

/-- A cursor seeked to `key` and walked while `p` holds visits, in key order, exactly the rows at
or after `key` that satisfy `p`, provided that past `key` a failure is never followed by a
success (the walk is over a key prefix). -/
theorem seek_takeWhile_eq_filter (table : OrderedTable κ ν) (key : κ) {p : κ × ν → Bool}
    (hclosed : ∀ a b, key ≤ a.1 → a.1 < b.1 → p a = false → p b = false) :
    (table.seek key).takeWhile p = table.rows.filter (fun row ↦ key ≤ row.1 ∧ p row) := by
  have hprefix : ∀ a ∈ table.seek key, ∀ b ∈ table.seek key, a.1 < b.1 → p a = false →
      p b = false :=
    fun a ha b _ ↦ hclosed a b (mem_seek.mp ha).2
  rw [takeWhile_eq_filter (seek_sorted table key) hprefix, seek_eq_filter, List.filter_filter]
  simp [Bool.and_comm]

end OrderedTable

end VertexSwarm
