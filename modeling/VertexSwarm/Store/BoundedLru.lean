import Mathlib.Data.List.MinMax
import VertexSwarm.Lib.LruList
import VertexSwarm.Lib.Run

/-!
# The byte-bounded LRU store

`BoundedLruStore` (store/src/bounded_lru.rs) caches values under a byte budget.  Each entry
carries the tick of a logical clock at which it was last used; a `get` hit and an `insert` take
the next tick, and eviction removes the entry of least tick (`min_by_key` over the hash map)
until the store's byte count fits its target.  The state behind the store's mutex is
`BoundedLruStore` here and a call is one step.  The hash map is a keyed list, whose order only
breaks ties of `min_by_key`; the byte counts are natural numbers, since they never exceed
`max_bytes` (a `usize`) they never overflow; the clock is a `UInt64` and wraps as
`wrapping_add` does.

The store refines the byte-budgeted LRU list of `VertexSwarm.LruList`.  Listed by their ticks,
its entries are the list's (`Refines`); each call keeps that while the clock does not wrap, and
an oversized insert keeps it when every resident value weighs something (`Refines.apply`), so
every such run from `with_budget` does (`refines_run`).  The two conditions are where the store
parts from the list: an oversized insert evicts down to zero bytes, not to an empty store, so
entries of zero bytes stay; and `get` takes a tick on a miss as well, so misses spend the clock
too.
-/

namespace VertexSwarm.Store

open Keyed

/-- `Entry`: a value, the tick it was last used at, and its byte size. -/
structure Entry (V : Type*) where
  value : V
  lastUsed : UInt64
  bytes : ℕ

/-- `Inner`, the state of a `BoundedLruStore`. -/
structure BoundedLruStore (K V : Type*) where
  entries : List (K × Entry V)
  currentBytes : ℕ
  maxBytes : ℕ
  clock : UInt64

/-- A call on the store; `len`, `is_empty` and `current_bytes` only read it. -/
inductive LruCall (K V : Type*)
  | get (key : K)
  | insert (key : K) (value : V)
  | remove (key : K)
  | contains (key : K)

/-- The calls that take a tick of the clock: a `get`, hit or miss, and an `insert`. -/
def LruCall.ticks {K V : Type*} : LruCall K V → Bool
  | .get _ | .insert _ _ => true
  | .remove _ | .contains _ => false

/-- The resident keys and values of a list of entries. -/
def residents {K V : Type*} (entries : List (K × Entry V)) : List (K × V) :=
  entries.map (Prod.map id Entry.value)

namespace BoundedLruStore

variable {K V : Type*}

/-- `with_budget`. -/
def withBudget (maxBytes : ℕ) : BoundedLruStore K V := ⟨[], 0, maxBytes, 0⟩

/-- `next_tick`: the clock's value, and the clock one on. -/
def nextTick (s : BoundedLruStore K V) : UInt64 × BoundedLruStore K V :=
  (s.clock, { s with clock := s.clock + 1 })

/-- The victim of `evict_until_fits`: `min_by_key` on `last_used`, the first entry of least tick
(a `u64` compares as its value). -/
def lruVictim (entries : List (K × Entry V)) : Option K :=
  (entries.argmin fun entry ↦ entry.2.lastUsed.toNat).map Prod.fst

variable [DecidableEq K] (byteSize : V → ℕ)

/-- `remove`: the entry under the key leaves, and its bytes with it (`saturating_sub`);
`insert` and `evict_until_fits` repeat this body. -/
def remove (s : BoundedLruStore K V) (key : K) : BoundedLruStore K V :=
  match find s.entries key with
  | some old =>
    { s with entries := eraseKey s.entries key, currentBytes := s.currentBytes - old.bytes }
  | none => s

/-- The loop of `evict_until_fits`, one round per unit of fuel. -/
def evictLoop (target : ℕ) : ℕ → BoundedLruStore K V → BoundedLruStore K V
  | 0, s => s
  | fuel + 1, s =>
    if target < s.currentBytes then
      match lruVictim s.entries with
      | some victim => evictLoop target fuel (s.remove victim)
      | none => s
    else s

/-- `evict_until_fits`.  A round that finds a victim removes an entry, and a round with no
entry left finds none and breaks, so a round per entry runs the loop to its end. -/
def evictUntilFits (s : BoundedLruStore K V) (target : ℕ) : BoundedLruStore K V :=
  evictLoop target s.entries.length s

/-- `entries.get_mut(key)` and `last_used = tick`: the entry keeps its place. -/
def touch (entries : List (K × Entry V)) (key : K) (tick : UInt64) : List (K × Entry V) :=
  entries.map fun entry ↦ if entry.1 = key then (entry.1, { entry.2 with lastUsed := tick }) else entry

/-- `get`: the tick is taken before the lookup, so a miss takes one too. -/
def get (s : BoundedLruStore K V) (key : K) : Option V × BoundedLruStore K V :=
  let (tick, s) := s.nextTick
  match find s.entries key with
  | some entry => (some entry.value, { s with entries := touch s.entries key tick })
  | none => (none, s)

/-- `insert`: the old entry's bytes leave before eviction, and a value over the whole budget
evicts down to zero bytes and is dropped. -/
def insert (s : BoundedLruStore K V) (key : K) (value : V) : BoundedLruStore K V :=
  let bytes := byteSize value
  let (tick, s) := s.nextTick
  let s := s.remove key
  if s.maxBytes < bytes then s.evictUntilFits 0
  else
    let s := s.evictUntilFits (s.maxBytes - bytes)
    { s with
      currentBytes := s.currentBytes + bytes
      entries := insertBack s.entries key ⟨value, tick, bytes⟩ }

/-- `contains`: no tick. -/
def contains (s : BoundedLruStore K V) (key : K) : Bool := (find s.entries key).isSome

/-- One call on the store. -/
def apply (s : BoundedLruStore K V) : LruCall K V → BoundedLruStore K V
  | .get key => (s.get key).2
  | .insert key value => s.insert byteSize key value
  | .remove key => s.remove key
  | .contains _ => s

end BoundedLruStore

variable {K V : Type*} [DecidableEq K] (byteSize : V → ℕ)

/-- The byte-budgeted LRU list driven by a call. -/
def lruApply (budget : ℕ) (l : List (K × V)) : LruCall K V → List (K × V)
  | .get key => (LruList.get l key).2
  | .insert key value => LruList.insert byteSize budget l key value
  | .remove key => eraseKey l key
  | .contains _ => l

open BoundedLruStore

/-- `view` lists the store's entries from the least to the most recently used: their ticks
increase along it and stay below the clock, each entry's bytes are its value's, and the store's
byte count is their sum. -/
structure Stamped (s : BoundedLruStore K V) (view : List (K × Entry V)) : Prop where
  perm : s.entries.Perm view
  nodup : (keys view).Nodup
  ticks_lt : view.Pairwise fun a b ↦ a.2.lastUsed.toNat < b.2.lastUsed.toNat
  lastUsed_lt : ∀ entry ∈ view, entry.2.lastUsed.toNat < s.clock.toNat
  bytes_eq : ∀ entry ∈ view, entry.2.bytes = byteSize entry.2.value
  currentBytes_eq : s.currentBytes = LruList.total Entry.bytes view

/-- The store holds the LRU list `l`: listed by recency, its entries are `l`'s. -/
def Refines (s : BoundedLruStore K V) (l : List (K × V)) : Prop :=
  ∃ view, Stamped byteSize s view ∧ residents view = l

namespace BoundedLruStore

section Fields

variable (s : BoundedLruStore K V) (key : K)

omit [DecidableEq K] in
@[simp]
theorem maxBytes_withBudget (maxBytes : ℕ) :
    (withBudget maxBytes : BoundedLruStore K V).maxBytes = maxBytes := rfl

omit [DecidableEq K] in
@[simp]
theorem clock_withBudget (maxBytes : ℕ) : (withBudget maxBytes : BoundedLruStore K V).clock = 0 := rfl

@[simp]
theorem maxBytes_remove : (s.remove key).maxBytes = s.maxBytes := by
  unfold remove
  split <;> rfl

@[simp]
theorem clock_remove : (s.remove key).clock = s.clock := by
  unfold remove
  split <;> rfl

theorem evictLoop_maxBytes_clock (target fuel : ℕ) (s : BoundedLruStore K V) :
    (s.evictLoop target fuel).maxBytes = s.maxBytes ∧ (s.evictLoop target fuel).clock = s.clock := by
  induction fuel generalizing s with
  | zero => exact ⟨rfl, rfl⟩
  | succ fuel ih =>
    rw [evictLoop]
    split_ifs
    · split
      · obtain ⟨hmax, hclock⟩ := ih (s.remove _)
        exact ⟨hmax.trans (maxBytes_remove _ _), hclock.trans (clock_remove _ _)⟩
      · exact ⟨rfl, rfl⟩
    · exact ⟨rfl, rfl⟩

@[simp]
theorem maxBytes_evictUntilFits (target : ℕ) : (s.evictUntilFits target).maxBytes = s.maxBytes :=
  (evictLoop_maxBytes_clock target _ s).1

@[simp]
theorem clock_evictUntilFits (target : ℕ) : (s.evictUntilFits target).clock = s.clock :=
  (evictLoop_maxBytes_clock target _ s).2

@[simp]
theorem maxBytes_get : (s.get key).2.maxBytes = s.maxBytes := by
  simp only [get, nextTick]
  split <;> rfl

@[simp]
theorem get_fst : (s.get key).1 = (find s.entries key).map Entry.value := by
  simp only [get, nextTick]
  split <;> simp_all

@[simp]
theorem clock_get : (s.get key).2.clock = s.clock + 1 := by
  simp only [get, nextTick]
  split <;> rfl

@[simp]
theorem maxBytes_insert (value : V) : (s.insert byteSize key value).maxBytes = s.maxBytes := by
  simp only [insert, nextTick, maxBytes_remove]
  split_ifs <;> simp

@[simp]
theorem clock_insert (value : V) : (s.insert byteSize key value).clock = s.clock + 1 := by
  simp only [insert, nextTick, maxBytes_remove]
  split_ifs <;> simp

@[simp]
theorem maxBytes_apply (call : LruCall K V) : (s.apply byteSize call).maxBytes = s.maxBytes := by
  cases call <;> simp [apply]

theorem clock_apply (call : LruCall K V) :
    (s.apply byteSize call).clock = if call.ticks then s.clock + 1 else s.clock := by
  cases call <;> simp [apply, LruCall.ticks]

end Fields

omit [DecidableEq K] in
/-- The oldest entry of a recency listing is the store's victim: every other entry has a later
tick, so it is the first minimum. -/
theorem lruVictim_eq {entries : List (K × Entry V)} {entry : K × Entry V}
    {rest : List (K × Entry V)} (hperm : entries.Perm (entry :: rest))
    (hticks : (entry :: rest).Pairwise fun a b ↦ a.2.lastUsed.toNat < b.2.lastUsed.toNat) :
    lruVictim entries = some entry.1 := by
  unfold lruVictim
  cases hmin : entries.argmin (fun e ↦ e.2.lastUsed.toNat) with
  | none =>
    rw [List.argmin_eq_none] at hmin
    exact absurd (hmin ▸ hperm).length_eq (by simp)
  | some m =>
    have hmem : m ∈ entry :: rest := hperm.subset (List.argmin_mem hmin)
    have hnot := List.not_lt_of_mem_argmin (hperm.symm.subset List.mem_cons_self) hmin
    rcases List.mem_cons.mp hmem with rfl | hrest
    · rfl
    · exact absurd ((List.pairwise_cons.mp hticks).1 m hrest) hnot

theorem touch_of_not_mem {l : List (K × Entry V)} {key : K} (hkey : key ∉ keys l) (tick : UInt64) :
    touch l key tick = l := by
  unfold touch
  conv_rhs => rw [← List.map_id l]
  apply List.map_congr_left
  intro entry hentry
  have hne : entry.1 ≠ key := fun heq ↦ hkey (heq ▸ List.mem_map_of_mem hentry)
  rw [if_neg hne]
  rfl

theorem touch_perm_insertBack {l : List (K × Entry V)} {key : K} {entry : Entry V}
    (hnodup : (keys l).Nodup) (hmem : (key, entry) ∈ l) (tick : UInt64) :
    (touch l key tick).Perm (insertBack l key { entry with lastUsed := tick }) := by
  have hperm := (perm_cons_eraseKey hnodup hmem).map
    fun e ↦ if e.1 = key then (e.1, { e.2 with lastUsed := tick }) else e
  have hrest : touch (eraseKey l key) key tick = eraseKey l key :=
    touch_of_not_mem (fun hk ↦ (mem_keys_eraseKey.mp hk).2 rfl) tick
  unfold touch at hrest ⊢
  rw [List.map_cons, if_pos rfl, hrest] at hperm
  exact hperm.trans (List.perm_append_singleton _ _).symm

theorem toNat_add_one {c : UInt64} (h : c.toNat + 1 < UInt64.size) : (c + 1).toNat = c.toNat + 1 := by
  rw [UInt64.toNat_add, UInt64.toNat_one]
  exact Nat.mod_eq_of_lt h

end BoundedLruStore

namespace Stamped

variable {byteSize} {s : BoundedLruStore K V} {view : List (K × Entry V)} {key : K}

omit [DecidableEq K] in
theorem withBudget (maxBytes : ℕ) :
    Stamped byteSize (BoundedLruStore.withBudget maxBytes : BoundedLruStore K V) [] :=
  ⟨List.Perm.refl _, List.nodup_nil, List.Pairwise.nil, by simp, by simp, rfl⟩

theorem find_eq (h : Stamped byteSize s view) (key : K) : find s.entries key = find view key :=
  find_eq_of_perm h.perm ((h.perm.map Prod.fst).nodup_iff.mpr h.nodup) key

theorem remove (h : Stamped byteSize s view) (key : K) :
    Stamped byteSize (s.remove key) (eraseKey view key) := by
  have hsub : (eraseKey view key).Sublist view := List.filter_sublist
  unfold BoundedLruStore.remove
  cases hfind : find s.entries key with
  | none =>
    rw [h.find_eq, find_eq_none_iff] at hfind
    rwa [eraseKey_of_not_mem hfind]
  | some old =>
    have hmem : (key, old) ∈ view := mem_of_find (h.find_eq key ▸ hfind)
    have htotal := LruList.total_eq_add_eraseKey Entry.bytes h.nodup hmem
    have hcurrent := h.currentBytes_eq
    exact {
      perm := h.perm.filter _
      nodup := Keyed.Nodup.eraseKey h.nodup key
      ticks_lt := h.ticks_lt.sublist hsub
      lastUsed_lt := fun entry hentry ↦ h.lastUsed_lt entry (hsub.subset hentry)
      bytes_eq := fun entry hentry ↦ h.bytes_eq entry (hsub.subset hentry)
      currentBytes_eq := by
        change s.currentBytes - old.bytes = _
        omega }

theorem evictLoop (h : Stamped byteSize s view) (target : ℕ) {fuel : ℕ} (hfuel : view.length ≤ fuel) :
    Stamped byteSize (s.evictLoop target fuel) (LruList.evictFront Entry.bytes target view) := by
  induction fuel generalizing s view with
  | zero =>
    obtain rfl := List.length_eq_zero_iff.mp (Nat.le_zero.mp hfuel)
    exact h
  | succ fuel ih =>
    have hcurrent := h.currentBytes_eq
    by_cases hover : target < s.currentBytes
    · -- over the target, so the listing is not empty, and its oldest entry is the victim
      obtain ⟨entry, rest, rfl⟩ : ∃ entry rest, view = entry :: rest := by
        cases view with
        | nil => simp [hcurrent] at hover
        | cons entry rest => exact ⟨entry, rest, rfl⟩
      have hnext := h.remove entry.1
      rw [eraseKey_cons_self entry rest h.nodup] at hnext
      rw [BoundedLruStore.evictLoop, if_pos hover, lruVictim_eq h.perm h.ticks_lt,
        LruList.evictFront_cons_of_lt _ (hcurrent ▸ hover)]
      exact ih hnext (by simpa using hfuel)
    · rw [BoundedLruStore.evictLoop, if_neg hover,
        LruList.evictFront_of_total_le _ (hcurrent ▸ Nat.not_lt.mp hover)]
      exact h

theorem evictUntilFits (h : Stamped byteSize s view) (target : ℕ) :
    Stamped byteSize (s.evictUntilFits target) (LruList.evictFront Entry.bytes target view) :=
  h.evictLoop target h.perm.length_eq.ge

omit [DecidableEq K] in
theorem nextTick (h : Stamped byteSize s view) (hclock : s.clock.toNat + 1 < UInt64.size) :
    Stamped byteSize s.nextTick.2 view :=
  { h with
    lastUsed_lt := fun entry hentry ↦ by
      change _ < (s.clock + 1).toNat
      rw [toNat_add_one hclock]
      exact Nat.lt_succ_of_lt (h.lastUsed_lt entry hentry) }

omit [DecidableEq K] in
theorem snoc {s' : BoundedLruStore K V} {entry : Entry V} (h : Stamped byteSize s view)
    (hkey : key ∉ keys view) (hperm : s'.entries.Perm (view ++ [(key, entry)]))
    (hnewest : ∀ e ∈ view, e.2.lastUsed.toNat < entry.lastUsed.toNat)
    (htick : entry.lastUsed.toNat < s'.clock.toNat) (hclock : s.clock.toNat ≤ s'.clock.toNat)
    (hbytes : entry.bytes = byteSize entry.value)
    (hcurrent : s'.currentBytes = s.currentBytes + entry.bytes) :
    Stamped byteSize s' (view ++ [(key, entry)]) where
  perm := hperm
  nodup := nodup_append_singleton h.nodup hkey entry
  ticks_lt := List.pairwise_append.mpr ⟨h.ticks_lt, List.pairwise_singleton _ _,
    fun a ha b hb ↦ (List.mem_singleton.mp hb) ▸ hnewest a ha⟩
  lastUsed_lt := by
    intro e he
    rcases List.mem_append.mp he with hold | hnew
    · exact (h.lastUsed_lt e hold).trans_le hclock
    · exact (List.mem_singleton.mp hnew) ▸ htick
  bytes_eq := by
    intro e he
    rcases List.mem_append.mp he with hold | hnew
    · exact h.bytes_eq e hold
    · exact (List.mem_singleton.mp hnew) ▸ hbytes
  currentBytes_eq := by
    rw [hcurrent, h.currentBytes_eq, LruList.total_append, LruList.total_cons, LruList.total_nil]
    rfl

theorem get_hit (h : Stamped byteSize s view) (hclock : s.clock.toNat + 1 < UInt64.size)
    {entry : Entry V} (hfind : find s.entries key = some entry) :
    Stamped byteSize (s.get key).2 (insertBack view key { entry with lastUsed := s.clock }) := by
  have hmem : (key, entry) ∈ view := mem_of_find (h.find_eq key ▸ hfind)
  have hremoved := h.remove key
  have hbytes := h.bytes_eq _ hmem
  have hcurrent : entry.bytes ≤ s.currentBytes := by
    rw [h.currentBytes_eq, LruList.total_eq_add_eraseKey Entry.bytes h.nodup hmem]
    exact Nat.le_add_right _ _
  have hget : (s.get key).2 = { s with clock := s.clock + 1, entries := touch s.entries key s.clock } := by
    simp [BoundedLruStore.get, BoundedLruStore.nextTick, hfind]
  rw [hget]
  refine hremoved.snoc (fun hk ↦ (mem_keys_eraseKey.mp hk).2 rfl) ?_ ?_ ?_ ?_ hbytes ?_
  · exact (h.perm.map _).trans (touch_perm_insertBack h.nodup hmem s.clock)
  · exact fun e he ↦ h.lastUsed_lt e (List.filter_sublist.subset he)
  · simp [toNat_add_one hclock]
  · simp [toNat_add_one hclock]
  · have hremove : (s.remove key).currentBytes = s.currentBytes - entry.bytes := by
      simp [BoundedLruStore.remove, hfind]
    change s.currentBytes = (s.remove key).currentBytes + entry.bytes
    omega

theorem insert (h : Stamped byteSize s view) (hclock : s.clock.toNat + 1 < UInt64.size) (key : K)
    (value : V) :
    Stamped byteSize (s.insert byteSize key value)
      (if s.maxBytes < byteSize value then LruList.evictFront Entry.bytes 0 (eraseKey view key)
      else LruList.evictFront Entry.bytes (s.maxBytes - byteSize value) (eraseKey view key) ++
        [(key, ⟨value, s.clock, byteSize value⟩)]) := by
  have hremoved := (h.nextTick hclock).remove key
  simp only [BoundedLruStore.insert, BoundedLruStore.nextTick, maxBytes_remove]
  split_ifs with hover
  · exact hremoved.evictUntilFits 0
  · have hevicted := hremoved.evictUntilFits (s.maxBytes - byteSize value)
    have hkey := LruList.not_mem_keys_evictFront_eraseKey Entry.bytes (s.maxBytes - byteSize value) view key
    have hsub := (LruList.evictFront_sublist Entry.bytes (s.maxBytes - byteSize value) (eraseKey view key)).trans
      List.filter_sublist
    refine hevicted.snoc hkey ?_ ?_ ?_ le_rfl rfl rfl
    · have hperm := hevicted.perm.append_right [(key, ⟨value, s.clock, byteSize value⟩)]
      rw [← insertBack_of_not_mem fun hk ↦ hkey ((hevicted.perm.map Prod.fst).subset hk)] at hperm
      exact hperm
    · exact fun e he ↦ h.lastUsed_lt e (hsub.subset he)
    · simp [toNat_add_one hclock]

end Stamped

namespace Refines

variable {byteSize} {s : BoundedLruStore K V} {l : List (K × V)}

theorem find_eq (h : Refines byteSize s l) (key : K) :
    (find s.entries key).map Entry.value = find l key := by
  obtain ⟨view, hs, rfl⟩ := h
  rw [hs.find_eq, residents, find_map_values]

omit [DecidableEq K] in
theorem currentBytes_eq (h : Refines byteSize s l) : s.currentBytes = LruList.total byteSize l := by
  obtain ⟨view, hs, rfl⟩ := h
  rw [hs.currentBytes_eq, residents,
    LruList.total_map byteSize Entry.bytes _ fun e he ↦ (hs.bytes_eq e he).symm]

theorem contains_eq (h : Refines byteSize s l) (key : K) : s.contains key = (find l key).isSome := by
  rw [BoundedLruStore.contains, ← h.find_eq, Option.isSome_map]

theorem get (h : Refines byteSize s l) (hclock : s.clock.toNat + 1 < UInt64.size) (key : K) :
    Refines byteSize (s.get key).2 (LruList.get l key).2 := by
  obtain ⟨view, hs, rfl⟩ := h
  have hfind := hs.find_eq key
  unfold LruList.get
  rw [residents, find_map_values, ← hfind]
  cases hentry : find s.entries key with
  | none =>
    have hget : (s.get key).2 = s.nextTick.2 := by
      simp [BoundedLruStore.get, BoundedLruStore.nextTick, hentry]
    rw [hget]
    exact ⟨view, hs.nextTick hclock, rfl⟩
  | some entry =>
    refine ⟨_, hs.get_hit hclock hentry, ?_⟩
    simp only [Option.map_some, insertBack, residents, List.map_append, eraseKey_map_values]
    rfl

theorem insert (h : Refines byteSize s l) (hclock : s.clock.toNat + 1 < UInt64.size) (key : K)
    (value : V) (hpos : ∀ entry ∈ l, 0 < byteSize entry.2) :
    Refines byteSize (s.insert byteSize key value) (LruList.insert byteSize s.maxBytes l key value) := by
  obtain ⟨view, hs, rfl⟩ := h
  have hstamped := hs.insert hclock key value
  have hweight : ∀ e ∈ eraseKey view key, byteSize (Prod.map id Entry.value e).2 = e.2.bytes :=
    fun e he ↦ (hs.bytes_eq e (mem_eraseKey.mp he).1).symm
  unfold LruList.insert
  split_ifs at hstamped ⊢ with hover
  · -- every entry left weighs something, so evicting down to zero bytes takes them all
    have hzero : ∀ e ∈ eraseKey view key, 0 < e.2.bytes := fun e he ↦
      hweight e he ▸ hpos _ (List.mem_map_of_mem (mem_eraseKey.mp he).1)
    rw [LruList.evictFront_zero Entry.bytes hzero] at hstamped
    exact ⟨[], hstamped, rfl⟩
  · refine ⟨_, hstamped, ?_⟩
    simp only [residents, List.map_append, List.map_cons, List.map_nil, eraseKey_map_values,
      LruList.evictFront_map byteSize Entry.bytes _ hweight]
    rfl

theorem remove (h : Refines byteSize s l) (key : K) : Refines byteSize (s.remove key) (eraseKey l key) := by
  obtain ⟨view, hs, rfl⟩ := h
  exact ⟨_, hs.remove key, (eraseKey_map_values _ view key).symm⟩

theorem apply (h : Refines byteSize s l) (call : LruCall K V)
    (hclock : call.ticks → s.clock.toNat + 1 < UInt64.size) (hpos : ∀ entry ∈ l, 0 < byteSize entry.2) :
    Refines byteSize (s.apply byteSize call) (lruApply byteSize s.maxBytes l call) := by
  cases call with
  | get key => exact h.get (hclock rfl) key
  | insert key value => exact h.insert (hclock rfl) key value hpos
  | remove key => exact h.remove key
  | contains _ => exact h

end Refines

theorem mem_lruApply {budget : ℕ} {l : List (K × V)} {call : LruCall K V} {entry : K × V}
    (h : entry ∈ lruApply byteSize budget l call) : entry ∈ l ∨ call = .insert entry.1 entry.2 := by
  cases call with
  | get key => exact .inl (LruList.mem_of_mem_get h)
  | insert key value =>
    rcases LruList.mem_insert h with hold | rfl
    · exact .inl hold
    · exact .inr rfl
  | remove key => exact .inl (mem_eraseKey.mp h).1
  | contains _ => exact .inl h

theorem bounded_lruApply {budget : ℕ} {l : List (K × V)} (h : LruList.Bounded byteSize budget l)
    (call : LruCall K V) : LruList.Bounded byteSize budget (lruApply byteSize budget l call) := by
  cases call with
  | get key => exact h.get key
  | insert key value => exact h.insert key value
  | remove key => exact h.eraseKey key
  | contains _ => exact h

/-- The refinement along a run: each ticking call is made before the clock wraps, and each
inserted value weighs something. -/
theorem Refines.foldl {s : BoundedLruStore K V} {l : List (K × V)} (h : Refines byteSize s l)
    (hpos : ∀ entry ∈ l, 0 < byteSize entry.2) {calls : List (LruCall K V)}
    (hclock : s.clock.toNat + calls.countP LruCall.ticks < UInt64.size)
    (hsizes : ∀ key value, LruCall.insert key value ∈ calls → 0 < byteSize value) :
    Refines byteSize (calls.foldl (BoundedLruStore.apply byteSize) s)
      (calls.foldl (lruApply byteSize s.maxBytes) l) := by
  induction calls generalizing s l with
  | nil => exact h
  | cons call calls ih =>
    rw [List.countP_cons] at hclock
    have hticks : call.ticks → s.clock.toNat + 1 < UInt64.size := fun hcall ↦ by
      rw [if_pos hcall] at hclock
      omega
    have hpos' : ∀ entry ∈ lruApply byteSize s.maxBytes l call, 0 < byteSize entry.2 := by
      intro entry hentry
      rcases mem_lruApply byteSize hentry with hold | hcall
      · exact hpos entry hold
      · exact hsizes entry.1 entry.2 (by rw [← hcall]; exact List.mem_cons_self)
    have hclock' : (s.apply byteSize call).clock.toNat + calls.countP LruCall.ticks < UInt64.size := by
      rw [clock_apply]
      cases hcall : call.ticks
      · simp only [hcall] at hclock
        simpa using hclock
      · rw [if_pos rfl, toNat_add_one (hticks hcall)]
        rw [if_pos hcall] at hclock
        omega
    have hrun := ih (h.apply call hticks hpos) hpos' hclock'
      fun key value hmem ↦ hsizes key value (List.mem_cons_of_mem _ hmem)
    rwa [maxBytes_apply] at hrun

/-- Every run from `with_budget` that does not wrap the clock and inserts only values that weigh
something keeps the store equal to the byte-budgeted LRU list driven by the same calls: listed
by recency its entries are the list's, it answers `get` and `contains` as the list does, and its
byte count is the list's weight, within the budget. -/
theorem refines_run (maxBytes : ℕ) (calls : List (LruCall K V))
    (hticks : calls.countP LruCall.ticks < UInt64.size)
    (hsizes : ∀ key value, LruCall.insert key value ∈ calls → 0 < byteSize value) :
    let s := calls.foldl (apply byteSize) (withBudget maxBytes)
    let l := calls.foldl (lruApply byteSize maxBytes) []
    Refines byteSize s l ∧ s.currentBytes = LruList.total byteSize l ∧ s.currentBytes ≤ maxBytes ∧
      ∀ key, (s.get key).1 = find l key ∧ s.contains key = (find l key).isSome := by
  intro s l
  have hstart : Refines byteSize (withBudget maxBytes : BoundedLruStore K V) [] :=
    ⟨[], Stamped.withBudget maxBytes, rfl⟩
  have h : Refines byteSize s l :=
    hstart.foldl byteSize (fun _ h ↦ absurd h List.not_mem_nil) (by simpa [withBudget] using hticks) hsizes
  have hbounded : LruList.Bounded byteSize maxBytes (calls.foldl (lruApply byteSize maxBytes) []) :=
    Run.foldl_induction (P := LruList.Bounded byteSize maxBytes) (R := fun _ ↦ True) (Q := fun _ ↦ True)
      (fun _ call hl _ _ ↦ bounded_lruApply byteSize hl call) LruList.Bounded.nil
      (fun _ _ ↦ trivial) (fun _ _ ↦ trivial)
  refine ⟨h, h.currentBytes_eq, h.currentBytes_eq ▸ hbounded.total_le, fun key ↦ ⟨?_, h.contains_eq key⟩⟩
  rw [get_fst, h.find_eq]

/-- Three calls under a budget of five bytes: the second insert evicts the first key. -/
theorem refines_run_of_evicting_insert :
    ([.insert 0 3, .get 0, .insert 1 4] : List (LruCall ℕ ℕ)).countP LruCall.ticks <
        UInt64.size ∧
      (∀ key value, LruCall.insert key value ∈ ([.insert 0 3, .get 0, .insert 1 4] :
        List (LruCall ℕ ℕ)) → 0 < id value) ∧
      Refines id (([.insert 0 3, .get 0, .insert 1 4] : List (LruCall ℕ ℕ)).foldl (apply id)
        (withBudget 5)) (([.insert 0 3, .get 0, .insert 1 4] : List (LruCall ℕ ℕ)).foldl
          (lruApply id 5) []) := by
  have hticks : ([.insert 0 3, .get 0, .insert 1 4] : List (LruCall ℕ ℕ)).countP LruCall.ticks <
      UInt64.size := by decide
  have hsizes : ∀ key value, LruCall.insert key value ∈ ([.insert 0 3, .get 0, .insert 1 4] :
      List (LruCall ℕ ℕ)) → 0 < id value := by
    intro key value h
    simp only [List.mem_cons, LruCall.insert.injEq, reduceCtorEq, List.mem_nil_iff, or_false,
      false_or] at h
    rcases h with ⟨-, rfl⟩ | ⟨-, rfl⟩ <;> decide
  exact ⟨hticks, hsizes, (refines_run id 5 _ hticks hsizes).1⟩

/-- A `get` of a key the store does not hold moves the clock on and nothing else. -/
theorem foldl_get_miss {s : BoundedLruStore K V} {key : K} (hmiss : find s.entries key = none)
    (n : ℕ) :
    (List.replicate n (LruCall.get key)).foldl (apply byteSize) s =
      { s with clock := s.clock + UInt64.ofNat n } := by
  induction n with
  | zero => simp
  | succ n ih =>
    rw [List.replicate_succ', List.foldl_append, ih]
    simp [apply, BoundedLruStore.get, nextTick, hmiss, UInt64.ofNat_add, UInt64.add_assoc]

theorem foldl_lruApply_get_miss {budget : ℕ} {l : List (K × V)} {key : K} (hmiss : find l key = none)
    (n : ℕ) : (List.replicate n (LruCall.get key)).foldl (lruApply byteSize budget) l = l := by
  induction n with
  | zero => rfl
  | succ n ih =>
    rw [List.replicate_succ, List.foldl_cons]
    simpa [lruApply, LruList.get, hmiss] using ih

/-- Where the store parts from the LRU list.  An oversized insert evicts down to zero bytes, so
an entry of zero bytes under another key stays resident where the list is left empty.  And a
`get` takes a tick on a miss: in a run of four inserts and no hit, the misses wrap the clock,
the newest entry then carries tick 0, and the next eviction takes it as the oldest. -/
theorem store_departs_from_lru_list (maxBytes : ℕ) (key key' : K) (value value' : V)
    (hne : key ≠ key') (hzero : byteSize value = 0) (hover : maxBytes < byteSize value') :
    (let calls := [LruCall.insert key value, LruCall.insert key' value'];
      (calls.foldl (apply byteSize) (withBudget maxBytes)).contains key = true ∧
        calls.foldl (lruApply byteSize maxBytes) [] = []) ∧
    (let calls : List (LruCall ℕ ℕ) := [.get 0, .insert 1 1] ++ List.replicate (2 ^ 64 - 3) (.get 0) ++
        [.insert 2 1, .insert 3 1, .insert 4 1];
      keys (calls.foldl (apply fun _ ↦ 1) (withBudget 2)).entries = [2, 4] ∧
        keys (calls.foldl (lruApply (fun _ ↦ 1) 2) []) = [3, 4]) := by
  refine ⟨?_, ?_⟩
  · intro calls
    have h0 : Stamped byteSize (withBudget maxBytes : BoundedLruStore K V) [] :=
      Stamped.withBudget maxBytes
    -- the first insert fits: the value weighs nothing
    have h1 := h0.insert (by simp [UInt64.size]) key value
    simp only [maxBytes_withBudget, clock_withBudget, hzero, Nat.not_lt_zero, reduceIte, eraseKey_nil,
      LruList.evictFront_nil, List.nil_append] at h1
    -- the oversized insert evicts down to zero bytes, which the store already holds
    have h2 := h1.insert (by simp [UInt64.size]) key' value'
    have hkept : eraseKey [(key, (⟨value, 0, 0⟩ : Entry V))] key' = [(key, ⟨value, 0, 0⟩)] :=
      eraseKey_of_not_mem (by simpa using hne.symm)
    simp only [maxBytes_insert, maxBytes_withBudget, hover, reduceIte, hkept] at h2
    rw [LruList.evictFront_of_total_le _ (by simp)] at h2
    refine ⟨?_, ?_⟩
    · change (((withBudget maxBytes).insert byteSize key value).insert byteSize key' value').contains key = true
      rw [contains, h2.find_eq]
      simp
    · simp [calls, lruApply, LruList.insert, hzero, hover]
  · -- the misses leave the store and the list as they were, up to the clock
    intro calls
    simp only [calls, List.foldl_append]
    rw [foldl_get_miss _ (by decide), foldl_lruApply_get_miss _ (by decide)]
    decide

theorem store_departs_from_lru_list_of_empty_value :
    (0 : ℕ) ≠ 1 ∧ id (0 : ℕ) = 0 ∧ 0 < id (1 : ℕ) ∧
      ([LruCall.insert 0 0, LruCall.insert 1 1].foldl (apply id)
        (withBudget 0 : BoundedLruStore ℕ ℕ)).contains 0 = true :=
  ⟨by decide, rfl, by decide,
    (store_departs_from_lru_list id 0 (0 : ℕ) 1 (0 : ℕ) 1 (by decide) rfl (by decide)).1.1⟩

end VertexSwarm.Store
