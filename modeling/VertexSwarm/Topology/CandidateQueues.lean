import Mathlib.Data.Finset.Basic
import VertexSwarm.Lib.Run
import VertexSwarm.Peers.Index
import VertexSwarm.Storer.Radius

/-!
# Per-bin candidate queues

`topology/src/kademlia/candidate_queues.rs`: the dial candidates waiting in one FIFO per bin,
with a dedup set across all bins.  `push` admits an overlay that is not pending into its bin's
queue and drops the oldest entries while the queue is over `max_per_bin`; a bin past the queues
rolls the admission back.  `pop_next` takes the front of the deepest non-empty bin.  The dedup set
is what `snapshot_queued` hands to candidate selection.

Each call takes the pending lock first and holds it to its end, and is one step here.  A queue is
a list, front first.

The set and the queues stay consistent over every run from `new` (`Wf`): the pending set is the
set of queued overlays, no overlay is queued twice, and no queue is over the cap.  A push that
reports an insertion leaves the overlay queued, except under a cap of zero, where the overlay is
dropped at once as the oldest entry; a refused push leaves the queues as they were; a pop takes
the front of the deepest non-empty queue (`candidate_queues_consistent`).
-/

namespace VertexSwarm.Topology

open Storer

/-- `CandidateQueues`: a queue per bin, front first, the dedup set, and the per-bin cap. -/
structure CandidateQueues where
  bins : List (List Peers.OverlayAddress)
  pending : Finset Peers.OverlayAddress
  maxPerBin : ℕ

/-- The front of the deepest non-empty queue, and the queues without it:
`for queue in bins.iter().rev() { if let Some(peer) = queue.pop_front() { .. } }`. -/
def popDeepest {α : Type} : List (List α) → Option (α × List (List α))
  | [] => none
  | queue :: rest =>
    match popDeepest rest with
    | some (peer, rest') => some (peer, queue :: rest')
    | none =>
      match queue with
      | peer :: tail => some (peer, tail :: rest)
      | [] => none

namespace CandidateQueues

/-- `CandidateQueues::new`: `num_bins` empty queues. -/
def new (numBins maxPerBin : ℕ) : CandidateQueues := ⟨List.replicate numBins [], ∅, maxPerBin⟩

/-- The drop-oldest loop of `push`: while the queue is over the cap, its front leaves the queue
and the dedup set. -/
def dropOldest (maxPerBin : ℕ) :
    List Peers.OverlayAddress → Finset Peers.OverlayAddress →
      List Peers.OverlayAddress × Finset Peers.OverlayAddress
  | [], pending => ([], pending)
  | evicted :: rest, pending =>
    if maxPerBin < rest.length + 1 then dropOldest maxPerBin rest (pending.erase evicted)
    else (evicted :: rest, pending)

variable (q : CandidateQueues)

/-- `push`: `true` when the overlay was not pending and its bin has a queue. -/
def push (bin : Bin) (peer : Peers.OverlayAddress) : Bool × CandidateQueues :=
  if peer ∈ q.pending then (false, q)
  else
    let pending := insert peer q.pending
    match q.bins[bin.val]? with
    | some queue =>
      let capped := dropOldest q.maxPerBin (queue ++ [peer]) pending
      (true, { q with bins := q.bins.set bin.val capped.1, pending := capped.2 })
    | none => (false, { q with pending := pending.erase peer })

/-- `pop_next`: the front of the deepest non-empty bin, which leaves the dedup set. -/
def popNext : Option Peers.OverlayAddress × CandidateQueues :=
  match popDeepest q.bins with
  | some (peer, bins) => (some peer, { q with bins, pending := q.pending.erase peer })
  | none => (none, q)

/-- `snapshot_queued`. -/
def snapshotQueued : Finset Peers.OverlayAddress := q.pending

end CandidateQueues

/-- The calls that move the queues. -/
inductive QueueCall where
  | push (bin : Bin) (peer : Peers.OverlayAddress)
  | popNext

namespace CandidateQueues

variable (q : CandidateQueues)

/-- One call, its result dropped. -/
def apply : QueueCall → CandidateQueues
  | .push bin peer => (q.push bin peer).2
  | .popNext => q.popNext.2

/-- The dedup set is the set of queued overlays, no overlay is queued twice, and no queue is over
the cap. -/
structure Wf : Prop where
  pending_eq : q.pending = q.bins.flatten.toFinset
  nodup : q.bins.flatten.Nodup
  length_le : ∀ queue ∈ q.bins, queue.length ≤ q.maxPerBin

end CandidateQueues

/-! ## The queues as one list -/

section Segments

variable {α : Type} [DecidableEq α]

theorem toFinset_append_eq_sdiff {a b c : List α} (h : (a ++ (b ++ c)).Nodup) :
    (a ++ c).toFinset = (a ++ (b ++ c)).toFinset \ b.toFinset := by
  rw [← List.append_assoc, List.nodup_append, List.nodup_append] at h
  obtain ⟨⟨-, -, hab⟩, -, habc⟩ := h
  ext x
  simp only [List.mem_toFinset, Finset.mem_sdiff, List.mem_append]
  constructor
  · rintro (ha | hc)
    · exact ⟨.inl ha, fun hb ↦ hab x ha x hb rfl⟩
    · exact ⟨.inr (.inr hc), fun hb ↦ habc x (List.mem_append_right a hb) x hc rfl⟩
  · rintro ⟨ha | hb | hc, hnot⟩
    · exact .inl ha
    · exact absurd hb hnot
    · exact .inr hc

omit [DecidableEq α] in
theorem flatten_eq_of_getElem? {bins : List (List α)} {i : ℕ} {queue : List α}
    (h : bins[i]? = some queue) (queue' : List α) :
    bins.flatten = (bins.take i).flatten ++ queue ++ (bins.drop (i + 1)).flatten ∧
      (bins.set i queue').flatten = (bins.take i).flatten ++ queue' ++ (bins.drop (i + 1)).flatten := by
  obtain ⟨hi, hqueue⟩ := List.getElem?_eq_some_iff.mp h
  constructor
  · conv_lhs => rw [← List.take_append_drop i bins, List.drop_eq_getElem_cons hi, hqueue]
    simp
  · rw [List.set_eq_take_append_cons_drop, if_pos hi]
    simp

end Segments

/-! ## The deepest queue -/

section Deepest

variable {α : Type}

theorem popDeepest_eq_none_iff {bins : List (List α)} :
    popDeepest bins = none ↔ ∀ queue ∈ bins, queue = [] := by
  induction bins with
  | nil => simp [popDeepest]
  | cons queue rest ih =>
    cases hrest : popDeepest rest with
    | some popped =>
      have hfull : ¬ ∀ queue ∈ rest, queue = [] := fun hempty ↦ by simp [ih.mpr hempty] at hrest
      simp only [popDeepest, hrest, reduceCtorEq, false_iff, List.mem_cons, forall_eq_or_imp,
        not_and]
      exact fun _ ↦ hfull
    | none =>
      cases queue with
      | nil => simpa [popDeepest, hrest] using ih.mp hrest
      | cons peer tail => simp [popDeepest, hrest]

theorem popDeepest_eq_some {bins bins' : List (List α)} {peer : α}
    (h : popDeepest bins = some (peer, bins')) :
    ∃ i tail, bins[i]? = some (peer :: tail) ∧ bins' = bins.set i tail ∧
      ∀ j, i < j → ∀ queue, bins[j]? = some queue → queue = [] := by
  induction bins generalizing bins' with
  | nil => simp [popDeepest] at h
  | cons queue rest ih =>
    cases hrest : popDeepest rest with
    | some popped =>
      obtain ⟨peer', rest'⟩ := popped
      simp only [popDeepest, hrest] at h
      obtain ⟨rfl, rfl⟩ := Prod.mk.inj (Option.some.inj h)
      obtain ⟨i, tail, hi, rfl, hdeeper⟩ := ih hrest
      refine ⟨i + 1, tail, by simpa using hi, by simp, fun j hj queue' hqueue ↦ ?_⟩
      obtain ⟨j, rfl⟩ : ∃ j', j = j' + 1 := ⟨j - 1, by omega⟩
      exact hdeeper j (by omega) queue' (by simpa using hqueue)
    | none =>
      simp only [popDeepest, hrest] at h
      cases queue with
      | nil => simp at h
      | cons peer' tail =>
        obtain ⟨rfl, rfl⟩ := Prod.mk.inj (Option.some.inj h)
        refine ⟨0, tail, rfl, rfl, fun j hj queue' hqueue ↦ ?_⟩
        obtain ⟨j, rfl⟩ : ∃ j', j = j' + 1 := ⟨j - 1, by omega⟩
        exact popDeepest_eq_none_iff.mp hrest queue' (List.mem_of_getElem? (by simpa using hqueue))

end Deepest

namespace CandidateQueues

/-! ## The calls -/

/-- The drop-oldest loop drops the queue's first `length - max_per_bin` entries from the queue
and from the dedup set. -/
theorem dropOldest_eq (maxPerBin : ℕ) (queue : List Peers.OverlayAddress)
    (pending : Finset Peers.OverlayAddress) :
    dropOldest maxPerBin queue pending =
      (queue.drop (queue.length - maxPerBin),
        pending \ (queue.take (queue.length - maxPerBin)).toFinset) := by
  induction queue generalizing pending with
  | nil => simp [dropOldest]
  | cons evicted rest ih =>
    rw [dropOldest]
    split_ifs with hover
    · -- over the cap: the front goes and the loop runs on
      have hcount : (evicted :: rest).length - maxPerBin = rest.length - maxPerBin + 1 := by
        simp only [List.length_cons]
        omega
      rw [ih, hcount, List.drop_succ_cons, List.take_succ_cons, List.toFinset_cons,
        Finset.sdiff_insert, Finset.erase_sdiff_comm]
    · have hcount : (evicted :: rest).length - maxPerBin = 0 := by
        simp only [List.length_cons]
        omega
      rw [hcount]
      simp

variable {q : CandidateQueues}

theorem wf_new (numBins maxPerBin : ℕ) : (new numBins maxPerBin).Wf where
  pending_eq := by simp [new]
  nodup := by simp [new]
  length_le := by simp [new]

theorem push_eq_false {bin : Bin} {peer : Peers.OverlayAddress} {q' : CandidateQueues}
    (hpush : q.push bin peer = (false, q')) : q' = q := by
  unfold push at hpush
  split_ifs at hpush with hpending
  · exact (Prod.mk.inj hpush).2.symm
  · split at hpush
    · simp at hpush
    · -- a bin past the queues: the admission is rolled back
      obtain ⟨-, rfl⟩ := Prod.mk.inj hpush
      simp [Finset.erase_insert hpending]

theorem push_eq_true {bin : Bin} {peer : Peers.OverlayAddress} {q' : CandidateQueues}
    (hpush : q.push bin peer = (true, q')) :
    ∃ queue, peer ∉ q.pending ∧ q.bins[bin.val]? = some queue ∧
      let admitted := queue ++ [peer]
      let dropped := admitted.length - q.maxPerBin
      q' = { q with
        bins := q.bins.set bin.val (admitted.drop dropped)
        pending := insert peer q.pending \ (admitted.take dropped).toFinset } := by
  unfold push at hpush
  split_ifs at hpush with hpending
  · simp at hpush
  · split at hpush
    · next queue hqueue =>
      obtain ⟨-, rfl⟩ := Prod.mk.inj hpush
      exact ⟨queue, hpending, hqueue, by rw [dropOldest_eq]⟩
    · simp at hpush

theorem Wf.push (h : q.Wf) (bin : Bin) (peer : Peers.OverlayAddress) : (q.push bin peer).2.Wf := by
  cases hpush : q.push bin peer with
  | mk inserted q' =>
    cases inserted with
    | false => exact push_eq_false hpush ▸ h
    | true =>
      obtain ⟨queue, hpending, hqueue, rfl⟩ := push_eq_true hpush
      dsimp only
      set admitted := queue ++ [peer]
      set dropped := admitted.length - q.maxPerBin
      obtain ⟨hflat, hflat'⟩ := flatten_eq_of_getElem? hqueue (admitted.drop dropped)
      set before := (q.bins.take bin.val).flatten
      set after := (q.bins.drop (bin.val + 1)).flatten
      -- with the new overlay at the back of its queue, nothing is queued twice
      have hwide : (before ++ (admitted ++ after)).Nodup := by
        have hfresh : peer ∉ q.bins.flatten := by simpa [h.pending_eq] using hpending
        have hnodup : (peer :: q.bins.flatten).Nodup := List.nodup_cons.mpr ⟨hfresh, h.nodup⟩
        rw [hflat, ← List.nodup_middle] at hnodup
        simpa [admitted, List.append_assoc] using hnodup
      have hset : (before ++ (admitted ++ after)).toFinset = insert peer q.pending := by
        rw [h.pending_eq, hflat]
        ext x
        simp only [admitted, List.toFinset_append, List.toFinset_cons, List.toFinset_nil,
          Finset.mem_union, Finset.mem_insert, Finset.notMem_empty, List.mem_toFinset]
        tauto
      have hsplit : (before ++ (admitted.take dropped ++ (admitted.drop dropped ++ after))).Nodup := by
        rwa [← List.append_assoc (admitted.take dropped), List.take_append_drop]
      refine ⟨?_, ?_, fun queue' hmem ↦ ?_⟩
      · rw [hflat', List.append_assoc, toFinset_append_eq_sdiff hsplit, ← List.append_assoc _ _ after,
          List.take_append_drop, hset]
      · rw [hflat', List.append_assoc]
        exact ((List.sublist_append_right _ _).append_left before).nodup hsplit
      · rcases List.mem_or_eq_of_mem_set hmem with hold | rfl
        · exact h.length_le queue' hold
        · simp only [List.length_drop]
          omega

theorem Wf.popNext (h : q.Wf) : q.popNext.2.Wf := by
  unfold CandidateQueues.popNext
  split
  · next peer bins hpop =>
    obtain ⟨i, tail, hi, rfl, -⟩ := popDeepest_eq_some hpop
    dsimp only
    obtain ⟨hflat, hflat'⟩ := flatten_eq_of_getElem? hi tail
    set before := (q.bins.take i).flatten
    set after := (q.bins.drop (i + 1)).flatten
    have hnodup : (before ++ ([peer] ++ (tail ++ after))).Nodup := by
      simpa [hflat, List.append_assoc] using h.nodup
    refine ⟨?_, ?_, fun queue' hmem ↦ ?_⟩
    · rw [hflat', List.append_assoc, toFinset_append_eq_sdiff hnodup, h.pending_eq, hflat,
        Finset.erase_eq]
      simp [List.append_assoc]
    · rw [hflat', List.append_assoc]
      exact ((List.sublist_append_right [peer] _).append_left before).nodup hnodup
    · rcases List.mem_or_eq_of_mem_set hmem with hold | rfl
      · exact h.length_le queue' hold
      · have hlen := h.length_le _ (List.mem_of_getElem? hi)
        simp only [List.length_cons] at hlen
        change _ ≤ q.maxPerBin
        omega
  · exact h

/-- A push that reports an insertion leaves the overlay pending, unless the cap is zero: then the
overlay was the oldest entry of its queue and left it at once. -/
theorem Wf.push_eq_true_mem (h : q.Wf) {bin : Bin} {peer : Peers.OverlayAddress} {q' : CandidateQueues}
    (hpush : q.push bin peer = (true, q')) : peer ∈ q'.pending ∨ (q.maxPerBin = 0 ∧ q' = q) := by
  obtain ⟨queue, hpending, hqueue, rfl⟩ := push_eq_true hpush
  have hmem := List.mem_of_getElem? hqueue
  have hlen : queue.length ≤ q.maxPerBin := h.length_le queue hmem
  have hfresh : peer ∉ queue := fun hpeer ↦
    hpending (by rw [h.pending_eq, List.mem_toFinset]; exact List.mem_flatten.mpr ⟨queue, hmem, hpeer⟩)
  rcases Nat.eq_zero_or_pos q.maxPerBin with hzero | hpos
  · -- under a cap of zero the queue is empty, and the overlay leaves it at once
    right
    obtain rfl : queue = [] := List.eq_nil_of_length_eq_zero (by omega)
    have hset : q.bins.set bin.val [] = q.bins := by
      obtain ⟨hi, hget⟩ := List.getElem?_eq_some_iff.mp hqueue
      rw [← hget, List.set_getElem_self]
    have hpending' : insert peer q.pending \ {peer} = q.pending := by
      rw [Finset.insert_sdiff_of_mem _ (Finset.mem_singleton_self peer),
        Finset.sdiff_singleton_eq_erase, Finset.erase_eq_of_notMem hpending]
    have hdropped : 1 - q.maxPerBin = 1 := by omega
    refine ⟨hzero, ?_⟩
    simp [hdropped, hset, hpending']
  · left
    have hdropped : (queue ++ [peer]).length - q.maxPerBin ≤ queue.length := by
      simp only [List.length_append, List.length_singleton]
      omega
    simp only [Finset.mem_sdiff, Finset.mem_insert, true_or, true_and, List.mem_toFinset]
    rw [List.take_append_of_le_length hdropped]
    exact fun hpeer ↦ hfresh (List.mem_of_mem_take hpeer)
theorem popNext_eq_some {peer : Peers.OverlayAddress} {q' : CandidateQueues}
    (hpop : q.popNext = (some peer, q')) :
    ∃ i tail, q.bins[i]? = some (peer :: tail) ∧
      (∀ j, i < j → ∀ queue, q.bins[j]? = some queue → queue = []) ∧
      q' = { q with bins := q.bins.set i tail, pending := q.pending.erase peer } := by
  unfold popNext at hpop
  split at hpop
  · next peer' bins hdeepest =>
    obtain ⟨hpeer, rfl⟩ := Prod.mk.inj hpop
    cases Option.some.inj hpeer
    obtain ⟨i, tail, hi, rfl, hdeeper⟩ := popDeepest_eq_some hdeepest
    exact ⟨i, tail, hi, hdeeper, rfl⟩
  · simp at hpop

theorem popNext_eq_none (hpop : q.popNext.1 = none) : q.popNext.2 = q ∧ ∀ queue ∈ q.bins, queue = [] := by
  unfold popNext at hpop ⊢
  split
  · next hdeepest => simp [hdeepest] at hpop
  · next hdeepest => exact ⟨rfl, popDeepest_eq_none_iff.mp hdeepest⟩

@[simp]
theorem maxPerBin_apply (call : QueueCall) : (q.apply call).maxPerBin = q.maxPerBin := by
  cases call with
  | push bin peer =>
    simp only [apply, push]
    split_ifs
    · rfl
    · split <;> rfl
  | popNext =>
    simp only [apply, popNext]
    split <;> rfl

theorem Wf.apply (h : q.Wf) (call : QueueCall) : (q.apply call).Wf := by
  cases call with
  | push bin peer => exact h.push bin peer
  | popNext => exact h.popNext

theorem wf_of_run (h : q.Wf) (calls : List QueueCall) : (calls.foldl apply q).Wf :=
  Run.foldl_induction (R := fun _ ↦ True) (Q := fun _ ↦ True) (fun _ call hs _ _ ↦ hs.apply call)
    h (fun _ _ ↦ trivial) (fun _ _ ↦ trivial)

theorem maxPerBin_of_run (calls : List QueueCall) : (calls.foldl apply q).maxPerBin = q.maxPerBin := by
  induction calls generalizing q with
  | nil => rfl
  | cons call rest ih => rw [List.foldl_cons, ih, maxPerBin_apply]

/-! ## Consistency over every run -/

/-- After any run of pushes and pops from new queues, the dedup set is the set of queued overlays,
no overlay is queued twice and no queue is over the cap; and from there, a push reporting an
insertion leaves the overlay queued (or, under a cap of zero, dropped at once as the oldest
entry), a refused push changes nothing, and a pop takes the front of the deepest non-empty queue
and its dedup entry, or finds every queue empty. -/
theorem candidate_queues_consistent (numBins maxPerBin : ℕ) (calls : List QueueCall) :
    let q := calls.foldl apply (new numBins maxPerBin)
    q.snapshotQueued = q.bins.flatten.toFinset ∧ q.bins.flatten.Nodup ∧
      (∀ queue ∈ q.bins, queue.length ≤ maxPerBin) ∧
      (∀ bin peer q', q.push bin peer = (true, q') →
        peer ∈ q'.bins.flatten ∨ (maxPerBin = 0 ∧ q' = q)) ∧
      (∀ bin peer q', q.push bin peer = (false, q') → q' = q) ∧
      (∀ peer q', q.popNext = (some peer, q') →
        ∃ i tail, q.bins[i]? = some (peer :: tail) ∧
          (∀ j, i < j → ∀ queue, q.bins[j]? = some queue → queue = []) ∧
          q'.bins = q.bins.set i tail ∧ q'.snapshotQueued = q.snapshotQueued.erase peer) ∧
      (q.popNext.1 = none → ∀ queue ∈ q.bins, queue = []) := by
  intro q
  have h : q.Wf := wf_of_run (wf_new numBins maxPerBin) calls
  have hmax : q.maxPerBin = maxPerBin := maxPerBin_of_run calls
  refine ⟨h.pending_eq, h.nodup, hmax ▸ h.length_le, fun bin peer q' hpush ↦ ?_,
    fun _ _ _ hpush ↦ push_eq_false hpush, fun peer q' hpop ↦ ?_, fun hpop ↦ (popNext_eq_none hpop).2⟩
  · -- the dedup set of the new queues names what they hold
    have hwf' : q'.Wf := by simpa [hpush] using h.push bin peer
    rcases h.push_eq_true_mem hpush with hmem | hdropped
    · exact .inl (List.mem_toFinset.mp (hwf'.pending_eq ▸ hmem))
    · exact .inr (hmax ▸ hdropped)
  · obtain ⟨i, tail, hi, hdeeper, rfl⟩ := popNext_eq_some hpop
    exact ⟨i, tail, hi, hdeeper, rfl, rfl⟩

end CandidateQueues

end VertexSwarm.Topology
