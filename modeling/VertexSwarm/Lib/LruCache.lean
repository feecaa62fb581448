import VertexSwarm.Lib.LruList

/-!
# Least-recently-used caches of a fixed count

An LRU cache holds at most `capacity` entries: it is the byte-budgeted list of
`VertexSwarm.LruList` in which every value weighs one, and it carries that list's invariant, so
that no cache over its capacity or with a repeated key can be built.  A read moves a resident
entry to the newest end; a write puts the key's entry at the newest end and, when the cache
would hold more than its capacity, evicts the oldest.

A cache with room for a write never evicts, and is then a finite map: the write adds its key and
keeps every other entry (`lookup_insert_of_hasRoom`), and a read changes no lookup
(`lookup_get`).  Every write of a run has room when the run's keys number at most the capacity
(`hasRoom_of_keys_subset`).
-/

namespace VertexSwarm

open Keyed

/-- A least-recently-used cache of at most `capacity` entries, oldest first. -/
structure LruCache (κ α : Type*) where
  entries : List (κ × α)
  capacity : ℕ
  bounded : LruList.Bounded (fun _ ↦ 1) capacity entries

namespace LruCache

variable {κ α : Type*}

/-- An empty cache. -/
def new (capacity : ℕ) : LruCache κ α := ⟨[], capacity, LruList.Bounded.nil⟩

variable [DecidableEq κ]

/-- A read: a resident entry becomes the most recently used. -/
def get (cache : LruCache κ α) (key : κ) : Option α × LruCache κ α :=
  ((LruList.get cache.entries key).1,
    ⟨(LruList.get cache.entries key).2, cache.capacity, cache.bounded.get key⟩)

/-- A write: the key's entry becomes the newest, and the oldest goes when the cache would hold
more than its capacity. -/
def insert (cache : LruCache κ α) (key : κ) (value : α) : LruCache κ α :=
  ⟨LruList.insert (fun _ ↦ 1) cache.capacity cache.entries key value, cache.capacity,
    cache.bounded.insert key value⟩

/-- The entry under a key, read without moving it. -/
def lookup (cache : LruCache κ α) (key : κ) : Option α := find cache.entries key

/-- Room for a write under `key`: the key is resident, or the cache is not full. -/
def HasRoom (cache : LruCache κ α) (key : κ) : Prop :=
  key ∈ keys cache.entries ∨ cache.entries.length < cache.capacity

@[simp]
theorem lookup_new (capacity : ℕ) (key : κ) : (new capacity : LruCache κ α).lookup key = none :=
  rfl

omit [DecidableEq κ] in
@[simp]
theorem keys_new (capacity : ℕ) : keys (new capacity : LruCache κ α).entries = [] := rfl

@[simp]
theorem get_fst (cache : LruCache κ α) (key : κ) : (cache.get key).1 = cache.lookup key :=
  LruList.get_fst cache.entries key

@[simp]
theorem capacity_get (cache : LruCache κ α) (key : κ) : (cache.get key).2.capacity = cache.capacity :=
  rfl

@[simp]
theorem capacity_insert (cache : LruCache κ α) (key : κ) (value : α) :
    (cache.insert key value).capacity = cache.capacity := rfl

@[simp]
theorem lookup_get (cache : LruCache κ α) (key k : κ) :
    (cache.get key).2.lookup k = cache.lookup k := by
  simp only [get, lookup, LruList.get]
  cases hfind : find cache.entries key with
  | none => rfl
  | some value =>
    rw [find_insertBack]
    split_ifs with hk
    · rw [hk, hfind]
    · rfl

@[simp]
theorem mem_keys_get (cache : LruCache κ α) (key k : κ) :
    k ∈ keys (cache.get key).2.entries ↔ k ∈ keys cache.entries := by
  rw [← not_iff_not, ← find_eq_none_iff, ← find_eq_none_iff]
  exact Eq.congr_left (lookup_get cache key k)

theorem get_snd_of_lookup_eq_none {cache : LruCache κ α} {key : κ} (h : cache.lookup key = none) :
    (cache.get key).2 = cache := by
  have hentries : (LruList.get cache.entries key).2 = cache.entries := by
    simp only [LruList.get]
    rw [show find cache.entries key = none from h]
  simp only [get, hentries]

theorem mem_keys_iff_lookup_isSome {cache : LruCache κ α} {key : κ} :
    key ∈ keys cache.entries ↔ (cache.lookup key).isSome := by
  rw [← not_iff_not, ← find_eq_none_iff, Option.not_isSome_iff_eq_none]
  rfl

theorem length_get (cache : LruCache κ α) (key : κ) :
    (cache.get key).2.entries.length = cache.entries.length := by
  cases hfind : cache.lookup key with
  | none => rw [get_snd_of_lookup_eq_none hfind]
  | some value =>
    have hperm := perm_cons_eraseKey cache.bounded.nodup (mem_of_find hfind)
    have hentries : (cache.get key).2.entries = insertBack cache.entries key value := by
      simp only [get, LruList.get]
      rw [show find cache.entries key = some value from hfind]
    rw [hentries, insertBack, List.length_append, hperm.length_eq]
    rfl

theorem HasRoom.get {cache : LruCache κ α} {key : κ} (h : cache.HasRoom key) (key' : κ) :
    (cache.get key').2.HasRoom key := by
  rcases h with hmem | hfree
  · exact .inl ((mem_keys_get cache key' key).mpr hmem)
  · exact .inr (by rw [length_get, capacity_get]; exact hfree)

theorem mem_keys_insert {cache : LruCache κ α} {key k : κ} {value : α}
    (h : k ∈ keys (cache.insert key value).entries) : k = key ∨ k ∈ keys cache.entries := by
  obtain ⟨entry, hentry, rfl⟩ := List.mem_map.mp h
  have hentry' : entry ∈ LruList.insert (fun _ ↦ 1) cache.capacity cache.entries key value := hentry
  rcases LruList.mem_insert hentry' with hold | rfl
  · exact .inr (List.mem_map_of_mem hold)
  · exact .inl rfl

omit [DecidableEq κ] in
theorem total_one (l : List (κ × α)) : LruList.total (fun _ ↦ 1) l = l.length := by
  simp [LruList.total]

/-- A write with room evicts nothing: it is an insertion at the newest end. -/
theorem insert_entries_of_hasRoom {cache : LruCache κ α} {key : κ} (h : cache.HasRoom key)
    (value : α) : (cache.insert key value).entries = insertBack cache.entries key value := by
  have hlen := cache.bounded.total_le
  rw [total_one] at hlen
  -- the entries the write keeps fit under one less than the capacity
  have hrest : (eraseKey cache.entries key).length + 1 ≤ cache.capacity := by
    rcases h with hmem | hfree
    · obtain ⟨value', hfind⟩ := Option.ne_none_iff_exists'.mp (mt find_eq_none_iff.mp (not_not.mpr hmem))
      have hperm := perm_cons_eraseKey cache.bounded.nodup (mem_of_find hfind)
      rw [← hperm.length_eq.trans (List.length_cons ..)] at *
      exact hlen
    · exact (Nat.succ_le_of_lt (lt_of_le_of_lt (length_eraseKey_le _ _) hfree))
  simp only [insert, LruList.insert, insertBack]
  rw [if_neg (by omega), LruList.evictFront_of_total_le _ (by rw [total_one]; omega)]

theorem lookup_insert_of_hasRoom {cache : LruCache κ α} {key : κ} (h : cache.HasRoom key)
    (value : α) (k : κ) :
    (cache.insert key value).lookup k = if k = key then some value else cache.lookup k := by
  rw [lookup, insert_entries_of_hasRoom h, find_insertBack, lookup]

/-- A cache whose keys are among `written`, which holds at most `capacity` distinct keys, has
room for a write under any of them. -/
theorem hasRoom_of_keys_subset {cache : LruCache κ α} {written : List κ} {key : κ}
    (hkeys : ∀ k ∈ keys cache.entries, k ∈ written) (hkey : key ∈ written)
    (hcap : written.dedup.length ≤ cache.capacity) : cache.HasRoom key := by
  by_cases hmem : key ∈ keys cache.entries
  · exact .inl hmem
  · right
    have hnodup : (key :: keys cache.entries).Nodup := List.nodup_cons.mpr ⟨hmem, cache.bounded.nodup⟩
    have hsub : key :: keys cache.entries ⊆ written.dedup := by
      intro k hk
      rw [List.mem_dedup]
      rcases List.mem_cons.mp hk with rfl | hk
      · exact hkey
      · exact hkeys k hk
    have hle := (List.subperm_of_subset hnodup hsub).length_le
    simp only [List.length_cons, keys, List.length_map] at hle
    omega

end LruCache

/-- An implementation of a count-bounded LRU cache, such as hashlink's `LruCache`, given by its
documented behaviour on the entries it holds, oldest first (`view`): it starts empty with its
capacity; a read answers the key's value and moves its entry to the newest end; a write puts the
key's entry at the newest end and evicts the oldest while the cache holds more than its
capacity.  `LruCacheImpl.model` is the list model itself. -/
structure LruCacheImpl (κ : Type) [DecidableEq κ] where
  Cache : Type → Type
  new : {α : Type} → ℕ → Cache α
  get : {α : Type} → Cache α → κ → Option α × Cache α
  insert : {α : Type} → Cache α → κ → α → Cache α
  view : {α : Type} → Cache α → LruCache κ α
  view_new : ∀ {α : Type} (capacity : ℕ), view (new capacity : Cache α) = LruCache.new capacity
  get_fst : ∀ {α : Type} (cache : Cache α) (key : κ),
    (get cache key).1 = ((view cache).get key).1
  view_get : ∀ {α : Type} (cache : Cache α) (key : κ),
    view (get cache key).2 = ((view cache).get key).2
  view_insert : ∀ {α : Type} (cache : Cache α) (key : κ) (value : α),
    view (insert cache key value) = (view cache).insert key value

namespace LruCacheImpl

variable {κ : Type} [DecidableEq κ]

/-- The list model as an implementation of itself. -/
def model : LruCacheImpl κ where
  Cache := LruCache κ
  new := LruCache.new
  get := LruCache.get
  insert := LruCache.insert
  view := id
  view_new _ := rfl
  get_fst _ _ := rfl
  view_get _ _ := rfl
  view_insert _ _ _ := rfl

variable (L : LruCacheImpl κ) {α : Type}

/-- The entry under a key, read without moving it. -/
def lookup (cache : L.Cache α) (key : κ) : Option α := (L.view cache).lookup key

/-- The keys a cache holds. -/
def keys (cache : L.Cache α) : List κ := Keyed.keys (L.view cache).entries

def capacity (cache : L.Cache α) : ℕ := (L.view cache).capacity

def HasRoom (cache : L.Cache α) (key : κ) : Prop := (L.view cache).HasRoom key

@[simp]
theorem lookup_new (capacity : ℕ) (key : κ) : L.lookup (L.new capacity : L.Cache α) key = none := by
  simp [lookup, L.view_new]

@[simp]
theorem keys_new (capacity : ℕ) : L.keys (L.new capacity : L.Cache α) = [] := by
  simp [keys, L.view_new]

@[simp]
theorem capacity_new (capacity : ℕ) : L.capacity (L.new capacity : L.Cache α) = capacity := by
  simp [LruCacheImpl.capacity, L.view_new, LruCache.new]

@[simp]
theorem get_fst_eq_lookup (cache : L.Cache α) (key : κ) :
    (L.get cache key).1 = L.lookup cache key := by
  rw [L.get_fst, LruCache.get_fst]
  rfl

@[simp]
theorem lookup_get (cache : L.Cache α) (key k : κ) :
    L.lookup (L.get cache key).2 k = L.lookup cache k := by
  simp only [lookup, L.view_get, LruCache.lookup_get]

@[simp]
theorem capacity_get (cache : L.Cache α) (key : κ) :
    L.capacity (L.get cache key).2 = L.capacity cache := by
  simp only [LruCacheImpl.capacity, L.view_get, LruCache.capacity_get]

@[simp]
theorem capacity_insert (cache : L.Cache α) (key : κ) (value : α) :
    L.capacity (L.insert cache key value) = L.capacity cache := by
  simp only [LruCacheImpl.capacity, L.view_insert, LruCache.capacity_insert]

@[simp]
theorem mem_keys_get (cache : L.Cache α) (key k : κ) :
    k ∈ L.keys (L.get cache key).2 ↔ k ∈ L.keys cache := by
  simp only [keys, L.view_get, LruCache.mem_keys_get]

variable {L}

theorem mem_keys_iff_lookup_isSome {cache : L.Cache α} {key : κ} :
    key ∈ L.keys cache ↔ (L.lookup cache key).isSome :=
  LruCache.mem_keys_iff_lookup_isSome

theorem HasRoom.get {cache : L.Cache α} {key : κ} (h : L.HasRoom cache key) (key' : κ) :
    L.HasRoom (L.get cache key').2 key := by
  unfold HasRoom
  rw [L.view_get]
  exact LruCache.HasRoom.get h key'

theorem mem_keys_insert {cache : L.Cache α} {key k : κ} {value : α}
    (h : k ∈ L.keys (L.insert cache key value)) : k = key ∨ k ∈ L.keys cache := by
  unfold keys at h
  rw [L.view_insert] at h
  exact LruCache.mem_keys_insert h

theorem lookup_insert_of_hasRoom {cache : L.Cache α} {key : κ} (h : L.HasRoom cache key)
    (value : α) (k : κ) :
    L.lookup (L.insert cache key value) k = if k = key then some value else L.lookup cache k := by
  unfold lookup
  rw [L.view_insert]
  exact LruCache.lookup_insert_of_hasRoom h value k

theorem hasRoom_of_keys_subset {cache : L.Cache α} {written : List κ} {key : κ}
    (hkeys : ∀ k ∈ L.keys cache, k ∈ written) (hkey : key ∈ written)
    (hcap : written.dedup.length ≤ L.capacity cache) : L.HasRoom cache key :=
  LruCache.hasRoom_of_keys_subset hkeys hkey hcap

end LruCacheImpl

end VertexSwarm
