import Mathlib.Data.List.Sort
import VertexSwarm.Lib.BigEndian
import VertexSwarm.Lib.EState
import VertexSwarm.Lib.Saturating
import VertexSwarm.Lib.Tiling

/-!
# The chain event engine

`chain/index/src/engine.rs`, `cursor.rs`, `reader.rs`, `indexer.rs`.  The engine folds the logs
of a contract into an indexer up to the chain's finalized head, page by page: it resumes one past
its persisted cursor (never before the contract's start block), asks the chain reader for the
logs of a page, halving the page on a provider range error, applies the page's logs in
`(block_number, log_index)` order, and commits the cursor at the page's last block.

The reader, the indexer and the cursor store answer from a world state `ω` of their own, which
each call may change, so every adaptive behaviour of theirs is one choice of `ω` and its
functions.  `EngineState.trace` records the calls the engine makes: each `eth_getLogs`, each
`apply`, each cursor commit and the page line it logs after a commit.
-/

namespace VertexSwarm.ChainIndex

open BigEndian Saturating EState

/-- A 32-byte block hash. -/
abbrev B256 := FixedBytes 32

/-- `B256::ZERO`. -/
def zeroHash : B256 := FixedBytes.ofNat 32 0

/-- A transport failure: whether the node answered with a JSON-RPC error response, and the
error's text. -/
structure TransportError where
  isErrorResp : Bool
  text : String
deriving DecidableEq

/-- `vertex_storage::DatabaseError`, by variant. -/
inductive DatabaseError
  | «open» | createTable | write | read | delete | commit | initTx | initCursor | decode | stats
  | other
deriving DecidableEq

/-- `IndexError`. -/
inductive IndexError
  | transport (err : TransportError)
  | storage (err : DatabaseError)
  | malformedLog (field : String)
  | apply (indexer : String) (message : String)
deriving DecidableEq

/-- The phrasings a provider uses to reject a range as too wide or too full. -/
def rangeHints : List String :=
  ["range", "too many", "limit", "exceed", "more than", "query returned more than", "block range",
    "response size"]

/-- `is_range_error`: an error response whose lowercased text names a range or limit. -/
def isRangeError (err : TransportError) : Bool :=
  err.isErrorResp && rangeHints.any fun hint ↦ (err.text.map Char.toLower).contains hint

/-- A log as the engine reads it: the two fields it orders by, and what only the indexer
decodes (the address, topics and data). -/
structure Log where
  blockNumber : Option UInt64
  logIndex : Option UInt64
  data : List UInt8
deriving DecidableEq

/-- Rust's order on `Option<u64>`: `None` first, then by value. -/
def optionRank : Option UInt64 → ℕ
  | none => 0
  | some n => n.toNat + 1

/-- `(block_number, log_index)` compared lexicographically, the key `commit_page` sorts by. -/
def keyLe (a b : Log) : Bool :=
  decide (optionRank a.blockNumber < optionRank b.blockNumber ∨
    optionRank a.blockNumber = optionRank b.blockNumber ∧
      optionRank a.logIndex ≤ optionRank b.logIndex)

/-- `ordered.sort_by_key(|log| (log.block_number, log.log_index))`, a stable sort. -/
def sortLogs (logs : List Log) : List Log := logs.mergeSort keyLe

theorem keyLe_trans (a b c : Log) (hab : keyLe a b = true) (hbc : keyLe b c = true) :
    keyLe a c = true := by
  simp only [keyLe, decide_eq_true_eq] at hab hbc ⊢
  omega

theorem keyLe_total (a b : Log) : (keyLe a b || keyLe b a) = true := by
  simp only [keyLe, Bool.or_eq_true, decide_eq_true_eq]
  omega

/-- The page's logs, sorted: every log once, in `(block_number, log_index)` order. -/
theorem sortLogs_spec (logs : List Log) :
    (sortLogs logs).Perm logs ∧ (sortLogs logs).Pairwise fun a b ↦ keyLe a b = true :=
  ⟨List.mergeSort_perm logs keyLe, List.pairwise_mergeSort keyLe_trans keyLe_total logs⟩

/-- `FinalizedHead`. -/
structure FinalizedHead where
  number : UInt64
  hash : B256

/-- `Cursor`: the last block fully applied and its hash. -/
structure Cursor where
  lastBlock : UInt64
  blockHash : B256

/-- `Cursor::next_block`. -/
def Cursor.nextBlock (cursor : Cursor) : UInt64 := saturatingAddU64 cursor.lastBlock 1

/-- `ChainReader`, answering from the world state. -/
structure ChainReader (ω : Type) where
  finalizedHead : ω → Except IndexError (Option FinalizedHead) × ω
  getLogs : ω → UInt64 → UInt64 → Except IndexError (List Log) × ω

/-- `Indexer`: its deployment block and its fold of one log. -/
structure Indexer (ω : Type) where
  startBlock : UInt64
  apply : ω → UInt64 → Log → Except IndexError Unit × ω

/-- The storage operations the engine makes. -/
inductive StorageOp
  | initTables | load | txMut | write | commit

/-- The cursor store's failures: whether each operation fails, and with which error. -/
structure Database (ω : Type) where
  fault : ω → StorageOp → Option DatabaseError × ω

/-- What the engine does that can be observed: the calls it makes and the page lines it logs. -/
inductive Event
  | getLogs (fromBlock toBlock : UInt64)
  | apply (log : Log)
  | commit (cursor : Cursor)
  | page (fromBlock toBlock : UInt64) (logs : ℕ)

/-- The engine's state: the world, the adaptive page size, the persisted cursor of its indexer,
and the events so far, oldest first. -/
structure EngineState (ω : Type) where
  world : ω
  pageSize : UInt64
  cursor : Option Cursor
  trace : List Event

/-- The engine's steps: each reads and updates its state, and may fail with an `IndexError`. -/
abbrev EngineM (ω : Type) := EStateM IndexError (EngineState ω)

/-- `MIN_PAGE_SIZE`. -/
def minPageSize : UInt64 := 1

/-- `DEFAULT_PAGE_SIZE`. -/
def defaultPageSize : UInt64 := 10000

/-- `page_end`: the last block of a page from `fromBlock`, clamped to the head. -/
def pageEnd (pageSize fromBlock head : UInt64) : UInt64 :=
  min (saturatingAddU64 fromBlock (saturatingSubU64 pageSize 1)) head

theorem pageEnd_bounds (pageSize : UInt64) {fromBlock head : UInt64} (h : fromBlock ≤ head) :
    fromBlock.toNat ≤ (pageEnd pageSize fromBlock head).toNat ∧
      (pageEnd pageSize fromBlock head).toNat ≤ head.toNat := by
  have hsum := le_toNat_saturatingAddU64 fromBlock (saturatingSubU64 pageSize 1)
  rw [UInt64.le_iff_toNat_le] at h
  rw [pageEnd, UInt64.toNat_min]
  omega

/-- The end `fetch_page` retries with after a range error: the span halved, rounding up. -/
def shrinkTo (fromBlock toBlock : UInt64) : UInt64 :=
  max (saturatingAddU64 fromBlock (saturatingSubU64 (divCeilU64 (toBlock - fromBlock) 2) 1))
    fromBlock

/-- Past a range error over more than one block, the page keeps its first block and halves the
rest, rounding down: a page of `n` blocks becomes one of `n / 2`. -/
theorem toNat_shrinkTo {fromBlock toBlock : UInt64} (h : fromBlock < toBlock) :
    (shrinkTo fromBlock toBlock).toNat = fromBlock.toNat + (toBlock.toNat - fromBlock.toNat - 1) / 2 := by
  rw [UInt64.lt_iff_toNat_lt] at h
  have hspan : (divCeilU64 (toBlock - fromBlock) 2).toNat = (toBlock.toNat - fromBlock.toNat + 1) / 2 := by
    rw [toNat_divCeilU64_two, UInt64.toNat_sub_of_le _ _ (UInt64.le_iff_toNat_le.mpr h.le)]
  have hsum : (saturatingAddU64 fromBlock (saturatingSubU64 (divCeilU64 (toBlock - fromBlock) 2) 1)).toNat =
      fromBlock.toNat + (toBlock.toNat - fromBlock.toNat - 1) / 2 := by
    have ht := toBlock.toNat_lt
    rw [toNat_saturatingAddU64, toNat_saturatingSubU64, hspan, UInt64.toNat_one]
    omega
  rw [shrinkTo, UInt64.toNat_max, hsum]
  omega

/-- The checkpoint hash of a page ending at `toBlock`: the head's on the page that reaches it. -/
def checkpointHash (head : FinalizedHead) (toBlock : UInt64) : B256 :=
  if toBlock = head.number then head.hash else zeroHash

/-- Where a sync resumes: one past the cursor, never before the start block. -/
def resumeBlock (cursor : Option Cursor) (startBlock : UInt64) : UInt64 :=
  max (match cursor with
    | some cursor => cursor.nextBlock
    | none => startBlock) startBlock

/-- A sync resumes past the cursor's block, unless that block is the last `u64`: the resume then
saturates to it. -/
theorem lastBlock_lt_resumeBlock (cursor : Cursor) (startBlock : UInt64) :
    cursor.lastBlock.toNat < (resumeBlock (some cursor) startBlock).toNat ∨
      (resumeBlock (some cursor) startBlock).toNat = 2 ^ 64 - 1 := by
  have := cursor.lastBlock.toNat_lt
  simp only [resumeBlock, Cursor.nextBlock, UInt64.toNat_max, toNat_saturatingAddU64,
    UInt64.toNat_one]
  omega

/-- Enough passes of the sync loop for every sync that ends: each page covers a block. -/
def syncFuel : ℕ := 2 ^ 64

section Engine

variable {ω : Type} (reader : ChainReader ω) (indexer : Indexer ω) (db : Database ω)

/-- Append an event to the trace. -/
def record (event : Event) : EngineM ω Unit :=
  modify fun s ↦ { s with trace := s.trace ++ [event] }

/-- One storage operation, failing with the store's error. -/
def storageOp (op : StorageOp) : EngineM ω Unit := fun s ↦
  let outcome := db.fault s.world op
  match outcome.1 with
  | some err => .error (.storage err) { s with world := outcome.2 }
  | none => .ok () { s with world := outcome.2 }

/-- `reader.finalized_head().await?`. -/
def readFinalizedHead : EngineM ω (Option FinalizedHead) := fun s ↦
  let answer := reader.finalizedHead s.world
  match answer.1 with
  | .ok head => .ok head { s with world := answer.2 }
  | .error err => .error err { s with world := answer.2 }

/-- `reader.get_logs(&filter).await` over `[fromBlock, toBlock]`, its answer returned as is. -/
def requestLogs (fromBlock toBlock : UInt64) : EngineM ω (Except IndexError (List Log)) :=
  fun s ↦
  let answer := reader.getLogs s.world fromBlock toBlock
  .ok answer.1 { s with world := answer.2, trace := s.trace ++ [.getLogs fromBlock toBlock] }

/-- `indexer.apply(block, log)?`. -/
def applyLog (block : UInt64) (log : Log) : EngineM ω Unit := fun s ↦
  let outcome := indexer.apply s.world block log
  let s := { s with world := outcome.2, trace := s.trace ++ [.apply log] }
  match outcome.1 with
  | .ok () => .ok () s
  | .error err => .error err s

/-- The halving of `self.page_size` after a range error. -/
def shrinkPageSize : EngineM ω Unit :=
  modify fun s ↦ { s with pageSize := max (divCeilU64 s.pageSize 2) minPageSize }

/-- `fetch_page`: ask for `[fromBlock, toBlock]`; on a range error over more than one block,
halve the span and ask again.  Returns the end the page reached and its logs. -/
def fetchPage (fromBlock toBlock : UInt64) : EngineM ω (UInt64 × List Log) := do
  match ← requestLogs reader fromBlock toBlock with
  | .ok logs => pure (toBlock, logs)
  | .error (.transport err) =>
    if _hrange : isRangeError err = true ∧ fromBlock < toBlock then
      shrinkPageSize
      fetchPage fromBlock (shrinkTo fromBlock toBlock)
    else throw (.transport err)
  | .error err => throw err
termination_by toBlock.toNat - fromBlock.toNat
decreasing_by
  have := toNat_shrinkTo _hrange.2
  rw [UInt64.lt_iff_toNat_lt] at _hrange
  omega

/-- The loop of `commit_page` over the ordered logs: each needs its block number, then `apply`. -/
def applyLogs : List Log → EngineM ω Unit
  | [] => pure ()
  | log :: rest => do
    let some block := log.blockNumber | throw (.malformedLog "block_number")
    applyLog indexer block log
    applyLogs rest

/-- Set the persisted cursor once its transaction has committed. -/
def commitCursor (cursor : Cursor) : EngineM ω Unit :=
  modify fun s ↦ { s with cursor := some cursor, trace := s.trace ++ [.commit cursor] }

/-- `commit_page`: apply the page's logs in key order, then write and commit the cursor. -/
def commitPage (logs : List Log) (lastBlock : UInt64) (blockHash : B256) : EngineM ω Unit := do
  let ordered := sortLogs logs
  storageOp db .txMut
  applyLogs indexer ordered
  storageOp db .write
  storageOp db .commit
  commitCursor ⟨lastBlock, blockHash⟩

/-- The `while from <= head.number` loop of `sync_to`, for at most `fuel` pages; it returns
whether the loop ended. -/
def syncLoop (head : FinalizedHead) : ℕ → UInt64 → EngineM ω Bool
  | 0, _ => pure false
  | fuel + 1, fromBlock => do
    if fromBlock ≤ head.number then
      let requestedTo := pageEnd (← get).pageSize fromBlock head.number
      let (toBlock, logs) ← fetchPage reader fromBlock requestedTo
      commitPage indexer db logs toBlock (checkpointHash head toBlock)
      record (.page fromBlock toBlock logs.length)
      syncLoop head fuel (saturatingAddU64 toBlock 1)
    else pure true

/-- `sync_to`: load the cursor, then index every page from where it resumes up to the head.
Returns whether the sync returned. -/
def syncTo (head : FinalizedHead) : EngineM ω Bool := do
  storageOp db .load
  let resume := resumeBlock (← get).cursor indexer.startBlock
  syncLoop reader indexer db head syncFuel resume

/-- `sync_once`: index up to the finalized head, if the chain has one. -/
def syncOnce : EngineM ω Bool := do
  match ← readFinalizedHead reader with
  | some head => syncTo reader indexer db head
  | none => pure true

/-- The follow loop, for `ticks` polls of the finalized head before the shutdown. -/
def follow : ℕ → EngineM ω Bool
  | 0 => pure true
  | ticks + 1 => do
    if ← syncOnce reader indexer db then follow ticks else pure false

/-- `run`, with the shutdown after `ticks` polls: initialise the cursor table, catch up with the
chain as it stands, then follow it. -/
def run (ticks : ℕ) : EngineM ω Bool := do
  storageOp db .initTables
  if ← syncOnce reader indexer db then follow reader indexer db ticks else pure false

end Engine

section Steps

variable {ω : Type} (reader : ChainReader ω) (indexer : Indexer ω) (db : Database ω)

/-! ## One call at a time -/

theorem requestLogs_apply (fromBlock toBlock : UInt64) (s : EngineState ω) :
    requestLogs reader fromBlock toBlock s =
      .ok (reader.getLogs s.world fromBlock toBlock).1
        { s with world := (reader.getLogs s.world fromBlock toBlock).2,
                 trace := s.trace ++ [.getLogs fromBlock toBlock] } := rfl

theorem record_apply (event : Event) (s : EngineState ω) :
    record event s = .ok () { s with trace := s.trace ++ [event] } := rfl

theorem shrinkPageSize_apply (s : EngineState ω) :
    shrinkPageSize s = .ok () { s with pageSize := max (divCeilU64 s.pageSize 2) minPageSize } := rfl

/-- A page of `n ≥ 2` blocks halved has a `log₂` one less. -/
theorem log2_shrinkTo {fromBlock toBlock : UInt64} (h : fromBlock < toBlock) :
    Nat.log2 ((shrinkTo fromBlock toBlock).toNat - fromBlock.toNat + 1) + 1 =
      Nat.log2 (toBlock.toNat - fromBlock.toNat + 1) := by
  have hlt := UInt64.lt_iff_toNat_lt.mp h
  have hlen : (shrinkTo fromBlock toBlock).toNat - fromBlock.toNat + 1 =
      (toBlock.toNat - fromBlock.toNat + 1) / 2 := by
    rw [toNat_shrinkTo h]
    omega
  rw [hlen, Nat.log2_def (toBlock.toNat - fromBlock.toNat + 1), if_pos (by omega)]

/-- What a fetch from `fromBlock` up to `toBlock` does: it asks for ranges from `fromBlock`
ending at `ends`, within the page, at most `log₂` of the page's length plus one of them, and
leaves the cursor alone; when it returns, it returns the last range it asked for and the
reader's answer for it. -/
theorem fetchPage_spec (fromBlock toBlock : UInt64) (s : EngineState ω) :
    ∃ ends : List UInt64,
      (state (fetchPage reader fromBlock toBlock s)).trace =
        s.trace ++ ends.map (.getLogs fromBlock) ∧
      (state (fetchPage reader fromBlock toBlock s)).cursor = s.cursor ∧
      ends.length ≤ Nat.log2 (toBlock.toNat - fromBlock.toNat + 1) + 1 ∧
      (∀ t ∈ ends, t ≤ toBlock ∧ (fromBlock ≤ toBlock → fromBlock ≤ t)) ∧
      ∀ toBlock' logs s', fetchPage reader fromBlock toBlock s = .ok (toBlock', logs) s' →
        ends.getLast? = some toBlock' ∧ ∃ w, (reader.getLogs w fromBlock toBlock').1 = .ok logs := by
  induction toBlock using fetchPage.induct fromBlock generalizing s with
  | _ toBlock ih =>
  rw [fetchPage, bind_of_ok (requestLogs_apply reader fromBlock toBlock s)]
  rcases hans : (reader.getLogs s.world fromBlock toBlock).1 with err | logs
  · cases err with
    | transport err =>
      dsimp only
      by_cases hrange : isRangeError err = true ∧ fromBlock < toBlock
      · rw [dif_pos hrange, bind_of_ok (shrinkPageSize_apply _)]
        obtain ⟨ends, htrace, hcursor, hlen, hbounds, hok⟩ := ih err hrange _
        have hshrink := toNat_shrinkTo hrange.2
        have hlt := UInt64.lt_iff_toNat_lt.mp hrange.2
        refine ⟨toBlock :: ends, by simp [htrace], hcursor, ?_, ?_, ?_⟩
        · rw [List.length_cons, ← log2_shrinkTo hrange.2]
          omega
        · intro t ht
          rcases List.mem_cons.mp ht with rfl | hmem
          · exact ⟨UInt64.le_iff_toNat_le.mpr (Nat.le_refl _), id⟩
          · obtain ⟨hle, hfrom⟩ := hbounds t hmem
            rw [UInt64.le_iff_toNat_le] at hle hfrom ⊢
            exact ⟨by omega, fun _ ↦ hfrom (by omega)⟩
        · intro toBlock' logs s' h
          obtain ⟨hlast, hanswer⟩ := hok toBlock' logs s' h
          rw [List.getLast?_cons, hlast]
          exact ⟨rfl, hanswer⟩
      · rw [dif_neg hrange]
        exact ⟨[toBlock], rfl, rfl, by simp, by simp, fun _ _ _ h ↦ by cases h⟩
    | _ => exact ⟨[toBlock], rfl, rfl, by simp, by simp, fun _ _ _ h ↦ by cases h⟩
  · dsimp only [pure_apply, state_ok]
    refine ⟨[toBlock], rfl, rfl, by simp, by simp, ?_⟩
    rintro toBlock' logs' s' h
    cases h
    exact ⟨rfl, s.world, hans⟩


/-- A storage operation only moves the world: it returns, or fails with the store's error. -/
theorem storageOp_cases (op : StorageOp) (s : EngineState ω) :
    ∃ world, storageOp db op s = .ok () { s with world } ∨
      ∃ err, storageOp db op s = .error err { s with world } := by
  unfold storageOp
  dsimp only
  split
  · exact ⟨_, .inr ⟨_, rfl⟩⟩
  · exact ⟨_, .inl rfl⟩

/-- Reading the head only moves the world: it returns what the reader reports, or fails. -/
theorem readFinalizedHead_cases (s : EngineState ω) :
    ∃ world, (∃ head, reader.finalizedHead s.world = (.ok head, world) ∧
        readFinalizedHead reader s = .ok head { s with world }) ∨
      ∃ err, readFinalizedHead reader s = .error err { s with world } := by
  unfold readFinalizedHead
  rcases hanswer : reader.finalizedHead s.world with ⟨answer, world⟩
  cases answer with
  | error err => exact ⟨world, .inr ⟨err, rfl⟩⟩
  | ok head => exact ⟨world, .inl ⟨head, rfl, rfl⟩⟩

/-- An `apply` call is recorded whether it succeeds or fails. -/
theorem applyLog_cases (block : UInt64) (log : Log) (s : EngineState ω) :
    ∃ world, applyLog indexer block log s = .ok () { s with world, trace := s.trace ++ [.apply log] } ∨
      ∃ err, applyLog indexer block log s = .error err { s with world, trace := s.trace ++ [.apply log] } := by
  unfold applyLog
  dsimp only
  split
  · exact ⟨_, .inl rfl⟩
  · exact ⟨_, .inr ⟨_, rfl⟩⟩

/-- The loop over the ordered logs calls `apply` on a prefix of them, on all of them when it
returns, and leaves the cursor alone. -/
theorem applyLogs_spec (ordered : List Log) (s : EngineState ω) :
    ∃ done, done <+: ordered ∧
      (state (applyLogs indexer ordered s)).trace = s.trace ++ done.map .apply ∧
      (state (applyLogs indexer ordered s)).cursor = s.cursor ∧
      ∀ s', applyLogs indexer ordered s = .ok () s' → done = ordered := by
  induction ordered generalizing s with
  | nil => exact ⟨[], List.prefix_refl _, by simp [applyLogs], rfl, fun _ _ ↦ rfl⟩
  | cons log rest ih =>
    cases hblock : log.blockNumber with
    | none =>
      simp only [applyLogs, hblock]
      exact ⟨[], List.nil_prefix, by simp, rfl, fun _ h ↦ by cases h⟩
    | some block =>
      simp only [applyLogs, hblock]
      obtain ⟨world, happly | ⟨err, happly⟩⟩ := applyLog_cases indexer block log s
      · rw [bind_of_ok happly]
        obtain ⟨done, hprior, htrace, hcursor, hall⟩ := ih _
        refine ⟨log :: done, List.cons_prefix_cons.mpr ⟨rfl, hprior⟩, by simp [htrace], hcursor, fun s' h ↦ ?_⟩
        rw [hall s' h]
      · rw [bind_of_error happly]
        exact ⟨[log], List.cons_prefix_cons.mpr ⟨rfl, List.nil_prefix⟩, by simp, rfl,
          fun _ h ↦ by cases h⟩

theorem commitCursor_apply (cursor : Cursor) (s : EngineState ω) :
    commitCursor cursor s =
      .ok () { s with cursor := some cursor, trace := s.trace ++ [.commit cursor] } := rfl

/-- `commit_page` either fails, having called `apply` on a prefix of the ordered logs and left
the cursor where it was, or returns, having called `apply` on every log in key order and then
committed the cursor. -/
theorem commitPage_spec (logs : List Log) (lastBlock : UInt64) (blockHash : B256)
    (s : EngineState ω) :
    (∀ err s', commitPage indexer db logs lastBlock blockHash s = .error err s' →
      ∃ done, done <+: sortLogs logs ∧ s'.trace = s.trace ++ done.map .apply ∧
        s'.cursor = s.cursor) ∧
    ∀ s', commitPage indexer db logs lastBlock blockHash s = .ok () s' →
      s'.trace = s.trace ++ (sortLogs logs).map .apply ++ [.commit ⟨lastBlock, blockHash⟩] ∧
      s'.cursor = some ⟨lastBlock, blockHash⟩ := by
  unfold commitPage
  obtain ⟨w1, h1 | ⟨e1, h1⟩⟩ := storageOp_cases db .txMut s
  · rw [bind_of_ok h1]
    obtain ⟨done, hprior, htrace, hcursor, hall⟩ :=
      applyLogs_spec indexer (sortLogs logs) { s with world := w1 }
    cases h2 : applyLogs indexer (sortLogs logs) { s with world := w1 } with
    | error e2 s2 =>
      rw [h2, state_error] at htrace hcursor
      exact outcomes_of_error (bind_of_error h2) ⟨done, hprior, htrace, hcursor⟩
    | ok u s2 =>
      rw [bind_of_ok h2]
      have hdone := hall s2 h2
      rw [h2, state_ok] at htrace hcursor
      obtain ⟨w3, h3 | ⟨e3, h3⟩⟩ := storageOp_cases db .write s2
      · rw [bind_of_ok h3]
        obtain ⟨w4, h4 | ⟨e4, h4⟩⟩ := storageOp_cases db .commit { s2 with world := w3 }
        · rw [bind_of_ok h4, commitCursor_apply]
          refine ⟨fun err s' h ↦ (by cases h), fun s' h ↦ ?_⟩
          cases h
          exact ⟨by simp [htrace, hdone], rfl⟩
        · exact outcomes_of_error (bind_of_error h4) ⟨done, hprior, htrace, hcursor⟩
      · exact outcomes_of_error (bind_of_error h3) ⟨done, hprior, htrace, hcursor⟩
  · exact outcomes_of_error (bind_of_error h1) ⟨[], List.nil_prefix, by simp, rfl⟩

end Steps

end VertexSwarm.ChainIndex
