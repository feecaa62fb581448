import Mathlib.Data.List.Perm.Basic
import Mathlib.Logic.Function.Basic

/-!
# Reverse indices over optional secondary keys

Entries carry a primary key, distinct across the entries, and may carry a secondary key; a
reverse index maps a secondary key to the primary key of the entry that carries it.  The index
is exact when it maps precisely the secondary keys present, each to its entry's primary key;
then no secondary key is carried twice (`Exact.key_unique`).

An exact index stays exact when an entry comes in under a fresh primary key with an unindexed
secondary key (`Exact.cons`), when any entry goes out (`Exact.of_cons`), in both cases with the
index updated for that entry alone, and when the entries are reordered (`Exact.perm`).
-/

namespace VertexSwarm.ReverseIndex

variable {κ β : Type*}

/-- The index maps exactly the secondary keys of the entries, each to its entry's primary key,
and the primary keys are distinct. -/
structure Exact (index : β → Option κ) (entries : List (κ × Option β)) : Prop where
  nodup : (entries.map Prod.fst).Nodup
  index_iff : ∀ b key, index b = some key ↔ (key, some b) ∈ entries

variable {index : β → Option κ} {entries entries' : List (κ × Option β)} {key key' : κ}
  {b : β} {secondary : Option β}

theorem Exact.perm (h : Exact index entries) (hperm : entries.Perm entries') :
    Exact index entries' :=
  ⟨(hperm.map Prod.fst).nodup_iff.mp h.nodup, fun b key ↦ (h.index_iff b key).trans hperm.mem_iff⟩

theorem Exact.index_eq_none_iff (h : Exact index entries) (b : β) :
    index b = none ↔ ∀ key, (key, some b) ∉ entries := by
  rw [Option.eq_none_iff_forall_ne_some]
  exact forall_congr' fun key ↦ not_congr (h.index_iff b key)

theorem Exact.key_unique (h : Exact index entries) (hmem : (key, some b) ∈ entries)
    (hmem' : (key', some b) ∈ entries) : key = key' := by
  have hindex : index b = some key := (h.index_iff b key).mpr hmem
  have hindex' : index b = some key' := (h.index_iff b key').mpr hmem'
  exact Option.some.inj (hindex.symm.trans hindex')

variable [DecidableEq β]

/-- Index an entry's secondary key, if it has one. -/
def track (index : β → Option κ) (key : κ) : Option β → β → Option κ
  | some b => Function.update index b (some key)
  | none => index

/-- Take an entry's secondary key out of the index, if it has one. -/
def untrack (index : β → Option κ) : Option β → β → Option κ
  | some b => Function.update index b none
  | none => index

theorem Exact.cons (h : Exact index entries) (hkey : key ∉ entries.map Prod.fst)
    (hfree : ∀ b, secondary = some b → index b = none) :
    Exact (track index key secondary) ((key, secondary) :: entries) := by
  refine ⟨List.nodup_cons.mpr ⟨hkey, h.nodup⟩, fun b key' ↦ ?_⟩
  cases secondary with
  | none => simpa [track] using h.index_iff b key'
  | some b' =>
    by_cases hb : b = b'
    · -- the new entry's own secondary key: no old entry carries it
      subst hb
      have hfresh := (h.index_eq_none_iff b).mp (hfree b rfl) key'
      simp [track, hfresh, eq_comm]
    · simpa [track, Function.update_of_ne hb, hb] using h.index_iff b key'

theorem Exact.of_cons (h : Exact index ((key, secondary) :: entries)) :
    Exact (untrack index secondary) entries := by
  have hnodup := List.nodup_cons.mp h.nodup
  refine ⟨hnodup.2, fun b key' ↦ ?_⟩
  cases secondary with
  | none => simpa [untrack] using h.index_iff b key'
  | some b' =>
    by_cases hb : b = b'
    · -- the leaving entry was the only one with this secondary key
      subst hb
      simp only [untrack, Function.update_self, reduceCtorEq, false_iff]
      intro hmem
      have hsame : key' = key := h.key_unique (List.mem_cons_of_mem _ hmem) List.mem_cons_self
      subst hsame
      exact hnodup.1 (List.mem_map_of_mem hmem)
    · simpa [untrack, Function.update_of_ne hb, hb] using h.index_iff b key'

end VertexSwarm.ReverseIndex
