import VertexSwarm.Chain.Sync

/-!
# Following the chain

`follow` polls the finalized head and syncs to it, poll after poll, each sync resuming one past
the cursor the sync before it committed.  Read off the trace, a run of polls neither skips a
block nor indexes one twice: the page lines it logs tile the blocks from where it resumed to
where the cursor it leaves resumes, and each commit is at the last block of its page
(`Advanced`).  `Advanced` is a preorder on engine states; one sync advances the state
(`syncTo_advanced`, read off `LoopSpec`), and so does a whole run, by induction over the polls.

Every head the reader reports must lie below the last `u64`: at that head a sync commits the
page `[MAX, MAX]` again and again.
-/

namespace VertexSwarm.ChainIndex

open Saturating EState

/-- The blocks a page line reports. -/
def Event.pageRange : Event → Option (ℕ × ℕ)
  | .page fromBlock toBlock _ => some (fromBlock.toNat, toBlock.toNat)
  | _ => none

/-- The cursor a commit event committed. -/
def Event.committed : Event → Option Cursor
  | .commit cursor => some cursor
  | _ => none

theorem filterMap_pageRange_pages (head : FinalizedHead) (pages : List Page) :
    (pages.map (Page.events head)).flatten.filterMap Event.pageRange = pages.map Page.range := by
  induction pages with
  | nil => rfl
  | cons page pages ih =>
    rw [List.map_cons, List.flatten_cons, List.filterMap_append, ih]
    simp [Page.events, Event.pageRange, Page.range, List.filterMap_append, List.filterMap_map,
      List.filterMap_cons, Function.comp_def]

theorem filterMap_committed_pages (head : FinalizedHead) (pages : List Page) :
    (pages.map (Page.events head)).flatten.filterMap Event.committed =
      pages.map (Page.cursor head) := by
  induction pages with
  | nil => rfl
  | cons page pages ih =>
    rw [List.map_cons, List.flatten_cons, List.filterMap_append, ih]
    simp [Page.events, Event.committed, List.filterMap_append, List.filterMap_map,
      List.filterMap_cons, Function.comp_def]

theorem filterMap_tail {α : Type} (f : Event → Option α)
    (hgetLogs : ∀ fromBlock toBlock, f (.getLogs fromBlock toBlock) = none)
    (happly : ∀ log, f (.apply log) = none) (next : UInt64) (ends : List UInt64)
    (done : List Log) :
    (ends.map (Event.getLogs next) ++ done.map Event.apply).filterMap f = [] := by
  simp [List.filterMap_append, List.filterMap_map, hgetLogs, happly]

variable {ω : Type}

/-- From `s` to `s'` the engine logged page lines that tile the blocks from where `s` resumes to
where `s'` resumes, and committed a cursor at the last block of each page and nowhere else. -/
def Advanced (startBlock : UInt64) (s s' : EngineState ω) : Prop :=
  ∃ events, s'.trace = s.trace ++ events ∧
    Tiles (resumeBlock s.cursor startBlock).toNat (events.filterMap Event.pageRange)
      (resumeBlock s'.cursor startBlock).toNat ∧
    (events.filterMap Event.committed).map (fun c ↦ c.lastBlock.toNat) =
      (events.filterMap Event.pageRange).map Prod.snd

namespace Advanced

variable {startBlock : UInt64} {s s' s'' : EngineState ω}

theorem of_eq (htrace : s'.trace = s.trace) (hcursor : s'.cursor = s.cursor) :
    Advanced startBlock s s' :=
  ⟨[], by simp [htrace], by simpa [hcursor] using Tiles.nil _, rfl⟩

theorem refl (s : EngineState ω) : Advanced startBlock s s :=
  of_eq rfl rfl

theorem trans (h : Advanced startBlock s s') (h' : Advanced startBlock s' s'') :
    Advanced startBlock s s'' := by
  obtain ⟨events, htrace, htiles, hcommits⟩ := h
  obtain ⟨events', htrace', htiles', hcommits'⟩ := h'
  refine ⟨events ++ events', by rw [htrace', htrace, List.append_assoc], ?_, ?_⟩
  · rw [List.filterMap_append]
    exact htiles.append htiles'
  · simp only [List.filterMap_append, List.map_append, hcommits, hcommits']

end Advanced

variable (reader : ChainReader ω) (indexer : Indexer ω) (db : Database ω)

/-- A pass resumed from the cursor leaves a cursor that resumes where the pass would go on:
after the last page it committed, or where it resumed when it committed none. -/
theorem LoopSpec.resumeBlock_eq {reader : ChainReader ω} {head : FinalizedHead} {fuel : ℕ}
    {startBlock : UInt64} {s : EngineState ω} {r : EStateM.Result IndexError (EngineState ω) Bool}
    {pages : List Page} {tail : List Event} {next : UInt64}
    (hhead : head.number.toNat + 1 < 2 ^ 64)
    (h : LoopSpec reader head fuel (resumeBlock s.cursor startBlock) s r pages tail next) :
    resumeBlock (state r).cursor startBlock = next := by
  rw [h.cursor_eq]
  cases hlast : pages.getLast? with
  | none =>
    have hnil := List.getLast?_eq_none_iff.mp hlast
    have htiles := h.tiles
    rw [hnil, List.map_nil] at htiles
    exact UInt64.toNat_inj.mp htiles.eq_of_nil
  | some page =>
    -- the last page ends on the block before `next`, and under the head
    have hend := h.tiles.getLast_snd (by rw [List.getLast?_map, hlast]; rfl)
    have hto := (h.fetched page (List.mem_of_getLast? hlast)).to_le_head
    have hle := h.tiles.le
    have hstart : startBlock.toNat ≤ (resumeBlock s.cursor startBlock).toNat := by
      simp [resumeBlock, UInt64.toNat_max]
    apply UInt64.toNat_inj.mp
    simp only [Page.range] at hend
    simp only [Option.map_some, Option.some_or, resumeBlock, Page.cursor, Cursor.nextBlock,
      UInt64.toNat_max, toNat_saturatingAddU64, UInt64.toNat_one]
    omega

/-- A sync to a head below the last `u64` advances the engine. -/
theorem syncTo_advanced (head : FinalizedHead) (hhead : head.number.toNat + 1 < 2 ^ 64)
    (s : EngineState ω) :
    Advanced indexer.startBlock s (state (syncTo reader indexer db head s)) := by
  obtain ⟨pages, tail, next, hspec⟩ := syncTo_spec reader indexer db head hhead s
  obtain ⟨ends, done, htail⟩ := hspec.tail_eq
  have hranges : ((pages.map (Page.events head)).flatten ++ tail).filterMap Event.pageRange =
      pages.map Page.range := by
    rw [List.filterMap_append, filterMap_pageRange_pages, htail,
      filterMap_tail _ (fun _ _ ↦ rfl) (fun _ ↦ rfl), List.append_nil]
  have hcommits : ((pages.map (Page.events head)).flatten ++ tail).filterMap Event.committed =
      pages.map (Page.cursor head) := by
    rw [List.filterMap_append, filterMap_committed_pages, htail,
      filterMap_tail _ (fun _ _ ↦ rfl) (fun _ ↦ rfl), List.append_nil]
  refine ⟨_, by rw [hspec.trace_eq, List.append_assoc], ?_, ?_⟩
  · rw [hranges, hspec.resumeBlock_eq hhead]
    exact hspec.tiles
  · simp [hranges, hcommits, Page.cursor, Page.range]

section Polls

variable {reader}

/-- A poll advances the engine, when every head the reader reports is below the last `u64`. -/
theorem syncOnce_advanced
    (hheads : ∀ w head w', reader.finalizedHead w = (.ok (some head), w') →
      head.number.toNat + 1 < 2 ^ 64)
    (s : EngineState ω) :
    Advanced indexer.startBlock s (state (syncOnce reader indexer db s)) := by
  obtain ⟨world, ⟨head, hanswer, hread⟩ | ⟨err, hread⟩⟩ := readFinalizedHead_cases reader s
  · rw [syncOnce, bind_of_ok hread]
    cases head with
    | none => exact Advanced.of_eq rfl rfl
    | some head =>
      exact (Advanced.of_eq rfl rfl).trans
        (syncTo_advanced reader indexer db head (hheads _ _ _ hanswer) { s with world })
  · rw [syncOnce, bind_of_error hread]
    exact Advanced.of_eq rfl rfl

theorem follow_advanced
    (hheads : ∀ w head w', reader.finalizedHead w = (.ok (some head), w') →
      head.number.toNat + 1 < 2 ^ 64)
    (ticks : ℕ) (s : EngineState ω) :
    Advanced indexer.startBlock s (state (follow reader indexer db ticks s)) := by
  induction ticks generalizing s with
  | zero => exact Advanced.refl s
  | succ ticks ih =>
    have hsync := syncOnce_advanced indexer db hheads s
    rw [follow]
    cases hs : syncOnce reader indexer db s with
    | error err s₁ =>
      rw [bind_of_error hs]
      rwa [hs] at hsync
    | ok continued s₁ =>
      rw [bind_of_ok hs]
      rw [hs, state_ok] at hsync
      cases continued with
      | true => exact hsync.trans (ih s₁)
      | false => exact hsync

/-- `run` opens the tables, then polls once more than it follows. -/
theorem run_eq (ticks : ℕ) :
    run reader indexer db ticks =
      (storageOp db .initTables >>= fun _ ↦ follow reader indexer db (ticks + 1)) :=
  rfl

/-- And so does a run: opening the tables moves the world only. -/
theorem run_advanced
    (hheads : ∀ w head w', reader.finalizedHead w = (.ok (some head), w') →
      head.number.toNat + 1 < 2 ^ 64)
    (ticks : ℕ) (s : EngineState ω) :
    Advanced indexer.startBlock s (state (run reader indexer db ticks s)) := by
  rw [run_eq]
  obtain ⟨world, hinit | ⟨err, hinit⟩⟩ := storageOp_cases db .initTables s
  · rw [bind_of_ok hinit]
    exact (Advanced.of_eq rfl rfl).trans (follow_advanced indexer db hheads (ticks + 1) _)
  · rw [bind_of_error hinit]
    exact Advanced.of_eq rfl rfl

/-- Every run of the engine from any state, with every head the reader reports below the last
`u64`, poll after poll: the page lines it logs cover each block from where it resumed up to
where the cursor it leaves resumes exactly once and in order, it commits a cursor at the last
block of each page and nowhere else, and the cursors it commits climb strictly above the one it
started from. -/
theorem run_indexes_each_block_once
    (hheads : ∀ w head w', reader.finalizedHead w = (.ok (some head), w') →
      head.number.toNat + 1 < 2 ^ 64)
    (ticks : ℕ) (s : EngineState ω) :
    ∃ events, (state (run reader indexer db ticks s)).trace = s.trace ++ events ∧
      (events.filterMap Event.pageRange).flatMap points =
        List.range' (resumeBlock s.cursor indexer.startBlock).toNat
          ((resumeBlock (state (run reader indexer db ticks s)).cursor indexer.startBlock).toNat -
            (resumeBlock s.cursor indexer.startBlock).toNat) ∧
      (events.filterMap Event.committed).map (fun c ↦ c.lastBlock.toNat) =
        (events.filterMap Event.pageRange).map Prod.snd ∧
      ((s.cursor.toList ++ events.filterMap Event.committed).map
        fun c ↦ c.lastBlock.toNat).Pairwise (· < ·) := by
  obtain ⟨events, htrace, htiles, hcommits⟩ := run_advanced indexer db hheads ticks s
  refine ⟨events, htrace, htiles.flatMap_points, hcommits, ?_⟩
  rw [List.map_append, hcommits]
  exact pairwise_lastBlock_of_tiles htiles (UInt64.toNat_lt _)

end Polls

/-- A chain whose finalized head stays at block 5, with no logs. -/
def headAtFive : ChainReader Unit :=
  ⟨fun w ↦ (.ok (some ⟨5, zeroHash⟩), w), fun w _ _ ↦ (.ok [], w)⟩

theorem run_indexes_each_block_once_at_five :
    (∀ w head w', headAtFive.finalizedHead w = (.ok (some head), w') →
      head.number.toNat + 1 < 2 ^ 64) ∧
    ∃ events, (state (run headAtFive ⟨0, fun w _ _ ↦ (.ok (), w)⟩ ⟨fun w _ ↦ (none, w)⟩ 2
        ⟨(), defaultPageSize, none, []⟩)).trace = [] ++ events ∧
      (events.filterMap Event.pageRange).flatMap points =
        List.range' (resumeBlock none 0).toNat
          ((resumeBlock (state (run headAtFive ⟨0, fun w _ _ ↦ (.ok (), w)⟩
            ⟨fun w _ ↦ (none, w)⟩ 2 ⟨(), defaultPageSize, none, []⟩)).cursor 0).toNat -
            (resumeBlock none 0).toNat) ∧
      (events.filterMap Event.committed).map (fun c ↦ c.lastBlock.toNat) =
        (events.filterMap Event.pageRange).map Prod.snd ∧
      (([] ++ events.filterMap Event.committed).map fun c ↦ c.lastBlock.toNat).Pairwise (· < ·) := by
  have hheads : ∀ w head w', headAtFive.finalizedHead w = (.ok (some head), w') →
      head.number.toNat + 1 < 2 ^ 64 := by
    intro w head w' h
    simp only [headAtFive, Prod.mk.injEq, Except.ok.injEq, Option.some.injEq] at h
    rw [← h.1]
    decide
  exact ⟨hheads, run_indexes_each_block_once ⟨0, fun w _ _ ↦ (.ok (), w)⟩ ⟨fun w _ ↦ (none, w)⟩
    hheads 2 ⟨(), defaultPageSize, none, []⟩⟩

end VertexSwarm.ChainIndex
