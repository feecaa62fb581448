import VertexSwarm.Chain.Index

/-!
# Syncing to a finalized head

A pass of `sync_to` is a run of pages.  Each committed page leaves in the trace the requests of
its fetch, `apply` on each of its logs in key order, the commit of the cursor at its last block,
and its page line (`Page.events`).  `LoopSpec` says what a whole pass left: its committed pages
tile the blocks from where it resumed (`Tiles`), each fetched from its own first block and never
past the head, followed only by the requests and applies of a page that failed, and the cursor is
the last one committed.  `LoopSpec.of_no_page` and `LoopSpec.cons` are its two ways to be built,
and `syncLoop_spec` builds it over the loop, page by page.
-/

namespace VertexSwarm.ChainIndex

open Saturating EState

/-- A page the sync loop committed: the ends of the ranges its fetch asked for, the range it
covered, and the logs the reader answered for that range. -/
structure Page where
  requests : List UInt64
  fromBlock : UInt64
  toBlock : UInt64
  logs : List Log

namespace Page

/-- The blocks a page covers. -/
def range (page : Page) : ℕ × ℕ := (page.fromBlock.toNat, page.toBlock.toNat)

/-- The cursor a page commits. -/
def cursor (head : FinalizedHead) (page : Page) : Cursor :=
  ⟨page.toBlock, checkpointHash head page.toBlock⟩

/-- The events a committed page leaves: its requests, `apply` on each of its logs in key order,
the commit of its cursor, and its page line. -/
def events (head : FinalizedHead) (page : Page) : List Event :=
  page.requests.map (.getLogs page.fromBlock) ++ (sortLogs page.logs).map .apply ++
    [.commit (page.cursor head), .page page.fromBlock page.toBlock page.logs.length]

variable {ω : Type}

/-- A page fetched as the engine fetches: every range it asked for starts at its first block and
ends under the head, the last is its own range, and the reader answered that one with its logs. -/
structure Fetched (reader : ChainReader ω) (head : FinalizedHead) (page : Page) : Prop where
  from_le_to : page.fromBlock.toNat ≤ page.toBlock.toNat
  requests_le : ∀ t ∈ page.requests, page.fromBlock.toNat ≤ t.toNat ∧ t.toNat ≤ head.number.toNat
  last_request : page.requests.getLast? = some page.toBlock
  answered : ∃ w, (reader.getLogs w page.fromBlock page.toBlock).1 = .ok page.logs

theorem Fetched.to_le_head {reader : ChainReader ω} {head : FinalizedHead} {page : Page}
    (h : page.Fetched reader head) : page.toBlock.toNat ≤ head.number.toNat :=
  (h.requests_le _ (List.mem_of_getLast? h.last_request)).2

/-- A fetch from `fromBlock` that asked for ranges ending at `ends`, none past an end under the
head, and returned the last of them with the reader's logs, fetched its page. -/
theorem Fetched.of_requests {reader : ChainReader ω} {head : FinalizedHead} {ends : List UInt64}
    {fromBlock requestedTo toBlock : UInt64} {logs : List Log}
    (hfrom : fromBlock.toNat ≤ requestedTo.toNat) (hend : requestedTo.toNat ≤ head.number.toNat)
    (hbounds : ∀ t ∈ ends, t ≤ requestedTo ∧ (fromBlock ≤ requestedTo → fromBlock ≤ t))
    (hlast : ends.getLast? = some toBlock)
    (hanswer : ∃ w, (reader.getLogs w fromBlock toBlock).1 = .ok logs) :
    Page.Fetched reader head ⟨ends, fromBlock, toBlock, logs⟩ := by
  have hstart : fromBlock ≤ requestedTo := UInt64.le_iff_toNat_le.mpr hfrom
  refine ⟨?_, fun t ht ↦ ?_, hlast, hanswer⟩
  · exact UInt64.le_iff_toNat_le.mp ((hbounds toBlock (List.mem_of_getLast? hlast)).2 hstart)
  · obtain ⟨hle_end, hfrom_t⟩ := hbounds t ht
    rw [UInt64.le_iff_toNat_le] at hle_end
    exact ⟨UInt64.le_iff_toNat_le.mp (hfrom_t hstart), by omega⟩

end Page

/-- Ranges that tile from where a cursor resumes up to a block within `u64` end strictly above the
cursor's block, and each above the one before. -/
theorem pairwise_lastBlock_of_tiles {cursor : Option Cursor} {startBlock : UInt64}
    {ranges : List (ℕ × ℕ)} {b : ℕ} (htiles : Tiles (resumeBlock cursor startBlock).toNat ranges b)
    (hb : b < 2 ^ 64) :
    ((cursor.toList.map fun c ↦ c.lastBlock.toNat) ++ ranges.map Prod.snd).Pairwise (· < ·) := by
  rw [List.pairwise_append]
  refine ⟨by cases cursor <;> simp, htiles.pairwise_snd_lt, ?_⟩
  intro a ha b hb
  obtain ⟨c, hc, rfl⟩ := List.mem_map.mp ha
  obtain ⟨range, hrange, rfl⟩ := List.mem_map.mp hb
  have hcursor : cursor = some c := Option.mem_toList.mp hc
  obtain ⟨hfrom, hto, hnext⟩ := htiles.bounds range hrange
  rw [hcursor] at hfrom
  -- past the last `u64` the resume saturates, and there is no room for a range
  rcases lastBlock_lt_resumeBlock c startBlock with hlt | hmax <;> omega

variable {ω : Type} (reader : ChainReader ω) (indexer : Indexer ω) (db : Database ω)

/-- What a sync loop from `fromBlock` toward `head`, with `fuel` passes, did between `s` and its
outcome `r`: the pages it committed, what it did after the last of them (`tail`), and the block
it would go on from (`next`). -/
structure LoopSpec (head : FinalizedHead) (fuel : ℕ) (fromBlock : UInt64) (s : EngineState ω)
    (r : EStateM.Result IndexError (EngineState ω) Bool) (pages : List Page) (tail : List Event)
    (next : UInt64) : Prop where
  trace_eq : (state r).trace = s.trace ++ (pages.map (Page.events head)).flatten ++ tail
  tiles : Tiles fromBlock.toNat (pages.map Page.range) next.toNat
  next_le : next.toNat ≤ max fromBlock.toNat (head.number.toNat + 1)
  fetched : ∀ page ∈ pages, page.Fetched reader head
  tail_eq : ∃ (ends : List UInt64) (done : List Log),
    tail = ends.map (.getLogs next) ++ done.map .apply
  cursor_eq : (state r).cursor = (pages.getLast?.map (Page.cursor head)).or s.cursor
  of_ok : ∀ b s', r = .ok b s' → tail = [] ∧
    (b = true → next.toNat = max fromBlock.toNat (head.number.toNat + 1)) ∧
    (b = false → pages.length = fuel)

namespace LoopSpec

variable {reader} {head : FinalizedHead} {fuel : ℕ} {fromBlock : UInt64} {s : EngineState ω}
  {r : EStateM.Result IndexError (EngineState ω) Bool}

theorem of_no_page (ends : List UInt64) (done : List Log)
    (htrace : (state r).trace = s.trace ++ (ends.map (.getLogs fromBlock) ++ done.map .apply))
    (hcursor : (state r).cursor = s.cursor)
    (hok : ∀ b s', r = .ok b s' → ends = [] ∧ done = [] ∧
      (b = true → head.number.toNat < fromBlock.toNat) ∧ (b = false → fuel = 0)) :
    LoopSpec reader head fuel fromBlock s r [] (ends.map (.getLogs fromBlock) ++ done.map .apply)
      fromBlock where
  trace_eq := by simpa using htrace
  tiles := .nil _
  next_le := le_max_left _ _
  fetched := by simp
  tail_eq := ⟨ends, done, rfl⟩
  cursor_eq := by simpa using hcursor
  of_ok b s' h := by
    obtain ⟨hends, hdone, htrue, hfalse⟩ := hok b s' h
    refine ⟨by simp [hends, hdone], fun hb ↦ ?_, fun hb ↦ (hfalse hb).symm⟩
    have := htrue hb
    omega

/-- A loop that committed `page` from `fromBlock`, then went on from the block after it. -/
theorem cons {page : Page} {s' : EngineState ω} {pages : List Page} {tail : List Event}
    {next : UInt64} (hhead : head.number.toNat + 1 < 2 ^ 64) (hpage : page.Fetched reader head)
    (hfrom : page.fromBlock = fromBlock) (htrace : s'.trace = s.trace ++ page.events head)
    (hcursor : s'.cursor = some (page.cursor head))
    (hrest : LoopSpec reader head fuel (saturatingAddU64 page.toBlock 1) s' r pages tail next) :
    LoopSpec reader head (fuel + 1) fromBlock s r (page :: pages) tail next := by
  subst hfrom
  have hto := hpage.to_le_head
  have hsucc : (saturatingAddU64 page.toBlock 1).toNat = page.toBlock.toNat + 1 :=
    toNat_saturatingAddU64_of_lt (by rw [UInt64.toNat_one]; omega)
  have hnext := hrest.next_le
  rw [hsucc] at hnext
  refine ⟨?_, ?_, by omega, ?_, hrest.tail_eq, ?_, fun b s'' h ↦ ?_⟩
  · simp [hrest.trace_eq, htrace]
  · have htiles := hrest.tiles
    rw [hsucc] at htiles
    exact .cons hpage.from_le_to htiles
  · intro page' hmem
    rcases List.mem_cons.mp hmem with rfl | hmem
    · exact hpage
    · exact hrest.fetched page' hmem
  · rw [hrest.cursor_eq, hcursor, List.getLast?_cons]
    cases pages.getLast? <;> rfl
  · obtain ⟨htail, htrue, hfalse⟩ := hrest.of_ok b s'' h
    refine ⟨htail, fun hb ↦ ?_, fun hb ↦ by simp [hfalse hb]⟩
    have hend := htrue hb
    have hft := hpage.from_le_to
    omega

theorem of_trace_cursor {s₀ : EngineState ω} {pages : List Page} {tail : List Event} {next : UInt64}
    (htrace : s.trace = s₀.trace) (hcursor : s.cursor = s₀.cursor)
    (h : LoopSpec reader head fuel fromBlock s r pages tail next) :
    LoopSpec reader head fuel fromBlock s₀ r pages tail next :=
  ⟨by rw [h.trace_eq, htrace], h.tiles, h.next_le, h.fetched, h.tail_eq,
    by rw [h.cursor_eq, hcursor], h.of_ok⟩

theorem lastBlock_pairwise_lt {startBlock : UInt64} {pages : List Page} {tail : List Event}
    {next : UInt64} (h : LoopSpec reader head fuel (resumeBlock s.cursor startBlock) s r pages tail next) :
    ((s.cursor.toList ++ pages.map (Page.cursor head)).map fun c ↦ c.lastBlock.toNat).Pairwise
      (· < ·) := by
  have hranges : (pages.map (Page.cursor head)).map (fun c ↦ c.lastBlock.toNat) =
      (pages.map Page.range).map Prod.snd := by
    simp [Page.cursor, Page.range, Function.comp_def]
  rw [List.map_append, hranges]
  exact pairwise_lastBlock_of_tiles h.tiles (UInt64.toNat_lt next)

end LoopSpec

/-- The sync loop, page by page: each pass commits a fetched page and goes on after it, or stops
with a failed page's requests and applies behind it, or ends at the head. -/
theorem syncLoop_spec (head : FinalizedHead) (hhead : head.number.toNat + 1 < 2 ^ 64)
    (fuel : ℕ) (fromBlock : UInt64) (s : EngineState ω) :
    ∃ pages tail next, LoopSpec reader head fuel fromBlock s
      (syncLoop reader indexer db head fuel fromBlock s) pages tail next := by
  induction fuel generalizing fromBlock s with
  | zero =>
    exact ⟨[], _, _, .of_no_page [] [] (by simp [syncLoop]) rfl fun b s' h ↦ by
      simp only [syncLoop, pure_apply, EStateM.Result.ok.injEq] at h
      simp [← h.1]⟩
  | succ fuel ih =>
    by_cases hle : fromBlock ≤ head.number
    · rw [syncLoop, if_pos hle, bind_of_ok (get_apply s)]
      have ⟨hfrom_le, hend_le⟩ := pageEnd_bounds s.pageSize hle
      obtain ⟨ends, hftrace, hfcursor, -, hbounds, hok⟩ :=
        fetchPage_spec reader fromBlock (pageEnd s.pageSize fromBlock head.number) s
      cases hf : fetchPage reader fromBlock (pageEnd s.pageSize fromBlock head.number) s with
      | error e s1 =>
        rw [bind_of_error hf]
        rw [hf, state_error] at hftrace hfcursor
        exact ⟨[], _, _, .of_no_page ends [] (by simpa using hftrace) hfcursor
          fun _ _ h ↦ by cases h⟩
      | ok page s1 =>
        obtain ⟨toBlock, logs⟩ := page
        obtain ⟨hlast, hanswer⟩ := hok toBlock logs s1 hf
        rw [hf, state_ok] at hftrace hfcursor
        rw [bind_of_ok hf]
        dsimp only
        obtain ⟨hfail, hcommit⟩ :=
          commitPage_spec indexer db logs toBlock (checkpointHash head toBlock) s1
        cases hc : commitPage indexer db logs toBlock (checkpointHash head toBlock) s1 with
        | error e s2 =>
          rw [bind_of_error hc]
          obtain ⟨done, -, hctrace, hccursor⟩ := hfail e s2 hc
          exact ⟨[], _, _, .of_no_page ends done (by simp [hctrace, hftrace])
            (by rw [state_error, hccursor, hfcursor]) fun _ _ h ↦ by cases h⟩
        | ok u s2 =>
          rw [bind_of_ok hc, bind_of_ok (record_apply _ _)]
          obtain ⟨hctrace, hccursor⟩ := hcommit s2 hc
          obtain ⟨pages, tail, next, hrest⟩ := ih (saturatingAddU64 toBlock 1)
            { s2 with trace := s2.trace ++ [.page fromBlock toBlock logs.length] }
          -- the committed page: its fetch's requests all start at `fromBlock` and stay under
          -- the end asked for, which is under the head
          have hfetched := Page.Fetched.of_requests hfrom_le hend_le hbounds hlast hanswer
          exact ⟨_ :: pages, tail, next, hrest.cons hhead hfetched rfl
            (by simp [Page.events, Page.cursor, hctrace, hftrace]) (by exact hccursor)⟩
    · rw [syncLoop, if_neg hle]
      refine ⟨[], _, _, .of_no_page [] [] (by simp) rfl fun b s' h ↦ ?_⟩
      simp only [pure_apply, EStateM.Result.ok.injEq] at h
      rw [UInt64.le_iff_toNat_le] at hle
      simp only [← h.1, true_and]
      exact ⟨fun _ ↦ by omega, fun h ↦ by cases h⟩

theorem syncTo_spec (head : FinalizedHead) (hhead : head.number.toNat + 1 < 2 ^ 64)
    (s : EngineState ω) :
    ∃ pages tail next, LoopSpec reader head syncFuel (resumeBlock s.cursor indexer.startBlock) s
      (syncTo reader indexer db head s) pages tail next := by
  unfold syncTo
  obtain ⟨world, hload | ⟨err, hload⟩⟩ := storageOp_cases db .load s
  · rw [bind_of_ok hload, bind_of_ok (get_apply _)]
    dsimp only
    obtain ⟨pages, tail, next, hspec⟩ := syncLoop_spec reader indexer db head hhead syncFuel
      (resumeBlock s.cursor indexer.startBlock) { s with world }
    exact ⟨pages, tail, next, hspec.of_trace_cursor (by rfl) (by rfl)⟩
  · rw [bind_of_error hload]
    exact ⟨[], _, _, .of_no_page [] [] (by simp) rfl fun _ _ h ↦ by cases h⟩

/-- Below the last `u64`, a sync returns: its pages run out before its fuel. -/
theorem syncTo_ne_ok_false (head : FinalizedHead) (hhead : head.number.toNat + 1 < 2 ^ 64)
    (s s' : EngineState ω) : syncTo reader indexer db head s ≠ .ok false s' := by
  intro h
  obtain ⟨pages, tail, next, hspec⟩ := syncTo_spec reader indexer db head hhead s
  have hfuel := (hspec.of_ok false s' h).2.2 rfl
  have hlen := hspec.tiles.length_le
  have hnext := hspec.next_le
  have hresume := (resumeBlock s.cursor indexer.startBlock).toNat_lt
  rw [List.length_map, hfuel, syncFuel] at hlen
  omega

/-- Below the last `u64`, a sync to `head` returns; the pages it commits tile the blocks from
where it resumed (up to the head when it returns), each fetched from its own first block and
never past the head, each leaving its requests, `apply` on each of its logs in key order and
then its cursor commit, with only a failed page's requests and applies after the last of them;
the cursor it leaves is the last it committed, and the committed cursors climb strictly.  Every
fetch makes at most `log₂` of its page's length plus one requests. -/
theorem sync_to_commits_consecutive_pages (head : FinalizedHead)
    (hhead : head.number.toNat + 1 < 2 ^ 64) (s : EngineState ω) :
    (∀ s', syncTo reader indexer db head s ≠ .ok false s') ∧
    (∃ pages tail next,
      LoopSpec reader head syncFuel (resumeBlock s.cursor indexer.startBlock) s
        (syncTo reader indexer db head s) pages tail next ∧
      ((s.cursor.toList ++ pages.map (Page.cursor head)).map fun c ↦ c.lastBlock.toNat).Pairwise
        (· < ·)) ∧
    (∀ logs : List Log,
      (sortLogs logs).Perm logs ∧ (sortLogs logs).Pairwise fun a b ↦ keyLe a b = true) ∧
    ∀ (fromBlock toBlock : UInt64) (s₀ : EngineState ω), ∃ ends : List UInt64,
      (state (fetchPage reader fromBlock toBlock s₀)).trace =
        s₀.trace ++ ends.map (.getLogs fromBlock) ∧
      ends.length ≤ Nat.log2 (toBlock.toNat - fromBlock.toNat + 1) + 1 := by
  obtain ⟨pages, tail, next, hspec⟩ := syncTo_spec reader indexer db head hhead s
  refine ⟨syncTo_ne_ok_false reader indexer db head hhead s,
    ⟨pages, tail, next, hspec, hspec.lastBlock_pairwise_lt⟩, sortLogs_spec, ?_⟩
  intro fromBlock toBlock s₀
  obtain ⟨ends, htrace, -, hlen, -⟩ := fetchPage_spec reader fromBlock toBlock s₀
  exact ⟨ends, htrace, hlen⟩

/-- A provider that rejects any range of more than 2000 blocks as too wide and answers every
other with no logs.  Toward a head at block 4999 the engine asks for [0, 4999] and
[0, 2499], both refused, commits [0, 1249], asks for [1250, 3749], refused, and then
commits [1250, 2499], [2500, 3749] and [3750, 4999] at the halved page size. -/
def rangeLimitedReader : ChainReader Unit where
  finalizedHead w := (.ok (some ⟨4999, zeroHash⟩), w)
  getLogs w fromBlock toBlock :=
    if fromBlock + 2000 < toBlock then (.error (.transport ⟨true, "block range too large"⟩), w)
    else (.ok [], w)

theorem sync_to_commits_consecutive_pages_of_rangeLimited :
    (4999 : UInt64).toNat + 1 < 2 ^ 64 ∧
    (∀ s', syncTo rangeLimitedReader ⟨0, fun w _ _ ↦ (.ok (), w)⟩ ⟨fun w _ ↦ (none, w)⟩
      ⟨4999, zeroHash⟩ ⟨(), defaultPageSize, none, []⟩ ≠ .ok false s') ∧
    ∃ pages tail next,
      LoopSpec rangeLimitedReader ⟨4999, zeroHash⟩ syncFuel (resumeBlock none 0)
        ⟨(), defaultPageSize, none, []⟩
        (syncTo rangeLimitedReader ⟨0, fun w _ _ ↦ (.ok (), w)⟩ ⟨fun w _ ↦ (none, w)⟩
          ⟨4999, zeroHash⟩ ⟨(), defaultPageSize, none, []⟩) pages tail next :=
  have h := sync_to_commits_consecutive_pages rangeLimitedReader ⟨0, fun w _ _ ↦ (.ok (), w)⟩
    ⟨fun w _ ↦ (none, w)⟩ ⟨4999, zeroHash⟩ (by decide) ⟨(), defaultPageSize, none, []⟩
  ⟨by decide, h.1, by
    obtain ⟨pages, tail, next, hspec, -⟩ := h.2.1
    exact ⟨pages, tail, next, hspec⟩⟩

section AtMax

variable {reader indexer db} {head : FinalizedHead}

/-- At a head of `u64::MAX`, a pass over `[MAX, MAX]` with no logs commits it and goes on from
`MAX` again: `to.saturating_add(1)` stays at `MAX`. -/
theorem syncLoop_max_step (hhead : head.number.toNat = 2 ^ 64 - 1)
    (hlogs : ∀ w, reader.getLogs w head.number head.number = (.ok [], w))
    (hdb : ∀ w op, db.fault w op = (none, w)) (fuel : ℕ) (s : EngineState ω) :
    syncLoop reader indexer db head (fuel + 1) head.number s =
      syncLoop reader indexer db head fuel head.number
        { s with cursor := some ⟨head.number, head.hash⟩,
                 trace := s.trace ++ [.getLogs head.number head.number,
                   .commit ⟨head.number, head.hash⟩, .page head.number head.number 0] } := by
  have hend : pageEnd s.pageSize head.number head.number = head.number := by
    have := pageEnd_bounds s.pageSize (UInt64.le_iff_toNat_le.mpr (Nat.le_refl head.number.toNat))
    exact UInt64.toNat_inj.mp (by omega)
  have hnext : saturatingAddU64 head.number 1 = head.number := by
    apply UInt64.toNat_inj.mp
    rw [toNat_saturatingAddU64, UInt64.toNat_one]
    omega
  have hfetch : fetchPage reader head.number head.number s =
      .ok (head.number, []) { s with trace := s.trace ++ [.getLogs head.number head.number] } := by
    rw [fetchPage, bind_of_ok (requestLogs_apply reader _ _ s)]
    simp [hlogs]
  have hop : ∀ op (s' : EngineState ω), storageOp db op s' = .ok () s' := by
    intro op s'
    simp [storageOp, hdb]
  have hcommit : ∀ s' : EngineState ω,
      commitPage indexer db [] head.number (checkpointHash head head.number) s' =
        .ok () { s' with cursor := some ⟨head.number, head.hash⟩,
                         trace := s'.trace ++ [.commit ⟨head.number, head.hash⟩] } := by
    intro s'
    have happly : applyLogs indexer (sortLogs []) s' = .ok () s' := by
      rw [sortLogs, List.mergeSort_nil]
      rfl
    rw [commitPage, checkpointHash, if_pos rfl, bind_of_ok (hop _ _), bind_of_ok happly,
      bind_of_ok (hop _ _), bind_of_ok (hop _ _), commitCursor_apply]
  rw [syncLoop, if_pos (UInt64.le_iff_toNat_le.mpr (Nat.le_refl _)), bind_of_ok (get_apply s), hend,
    bind_of_ok hfetch]
  dsimp only
  rw [bind_of_ok (hcommit _), bind_of_ok (record_apply _ _), hnext]
  simp

/-- So from a cursor already at `MAX`, every pass commits the same page again. -/
theorem syncLoop_max (hhead : head.number.toNat = 2 ^ 64 - 1)
    (hlogs : ∀ w, reader.getLogs w head.number head.number = (.ok [], w))
    (hdb : ∀ w op, db.fault w op = (none, w)) (fuel : ℕ) (s : EngineState ω)
    (hcursor : s.cursor = some ⟨head.number, head.hash⟩) :
    syncLoop reader indexer db head fuel head.number s =
      .ok false { s with trace := s.trace ++ (List.replicate fuel [.getLogs head.number head.number,
        .commit ⟨head.number, head.hash⟩, .page head.number head.number 0]).flatten } := by
  induction fuel generalizing s with
  | zero => simp [syncLoop]
  | succ fuel ih =>
    rw [syncLoop_max_step hhead hlogs hdb, ih _ rfl, List.replicate_succ, List.flatten_cons]
    cases s
    cases hcursor
    simp

end AtMax

/-- At a finalized head of `u64::MAX` the sync never returns: it fetches and commits the page
`[MAX, MAX]` over and over. -/
theorem sync_to_repeats_max_page :
    syncTo (⟨fun w ↦ (.ok none, w), fun w _ _ ↦ (.ok [], w)⟩ : ChainReader Unit)
        ⟨18446744073709551615, fun w _ _ ↦ (.ok (), w)⟩ ⟨fun w _ ↦ (none, w)⟩
        ⟨18446744073709551615, zeroHash⟩ ⟨(), defaultPageSize, none, []⟩ =
      .ok false ⟨(), defaultPageSize, some ⟨18446744073709551615, zeroHash⟩,
        (List.replicate syncFuel [.getLogs 18446744073709551615 18446744073709551615,
          .commit ⟨18446744073709551615, zeroHash⟩,
          .page 18446744073709551615 18446744073709551615 0]).flatten⟩ := by
  have hload : storageOp (⟨fun w _ ↦ (none, w)⟩ : Database Unit) .load
      ⟨(), defaultPageSize, none, []⟩ = .ok () ⟨(), defaultPageSize, none, []⟩ := rfl
  have hresume : resumeBlock none 18446744073709551615 = 18446744073709551615 := rfl
  have hfuel : syncFuel = (2 ^ 64 - 1) + 1 := rfl
  rw [syncTo, bind_of_ok hload, bind_of_ok (get_apply _)]
  dsimp only
  rw [hresume, hfuel, syncLoop_max_step rfl (fun _ ↦ rfl) (fun _ _ ↦ rfl),
    syncLoop_max rfl (fun _ ↦ rfl) (fun _ _ ↦ rfl) _ _ rfl, List.replicate_succ,
    List.flatten_cons]
  rfl

end VertexSwarm.ChainIndex
