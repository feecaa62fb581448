import VertexSwarm.Lib.Keyed
import VertexSwarm.Lib.ReverseIndex
import VertexSwarm.Lib.Run

/-!
# The dial tracker

`DialTracker` keeps dial requests in two maps keyed by `PeerId`, a pending queue in insertion
order and the in-flight dials, with a reverse index from the optional application id to the
`PeerId`.  Requests come in through `enqueue` (to the queue) or `prepare_and_start` (straight to
in-flight); `next_batch` moves the oldest unexpired queued requests to in-flight, as many as
there are free in-flight slots; `resolve` and `cleanup_expired` take requests out.

Every entry point keeps the bookkeeping invariant `DialTracker.Wf`: no `PeerId` is both queued
and in flight, every request sits under its own `PeerId`, the id index is exact (so no id is
carried twice), and the queue stays within `max_pending`.  `next_batch` dispatches exactly the
first unexpired queued requests that fit.  The cap `max_in_flight` is kept by every entry point
except `prepare_and_start`, which registers in-flight dials without consulting it; it is the
entry point the topology dials through, and from the default configuration `n` calls of it
leave `n` dials in flight, for every `n`.

Clock readings are nanoseconds, one reading per call.  The backoff and ban caches are left out:
only `record_backoff` fills them, and it is not among these calls, so every `is_banned` and
`is_in_backoff` check they make answers `false`.
-/

namespace VertexSwarm.Net

open Keyed

/-- The IP version of a multiaddr: that of its first `ip4`, `dns4`, `ip6` or `dns6` component. -/
inductive IpVersion
  | v4
  | v6
  deriving DecidableEq, Repr

/-- `DialOpts` as `prepare_dial_opts` builds it. -/
structure DialOpts (P A : Type) where
  peerId : P
  addresses : List A
  concurrencyFactor : ℕ

section Prepare

variable {P A : Type} (ipVersion : A → Option IpVersion)

/-- `prepare_filtered`: the addresses that pass the filter, IPv6 first, then IPv4, then the
rest, each group in input order, with the Happy Eyeballs concurrency factor; `none` when no
address passes. -/
def prepareFiltered (addrs : List A) (filter : A → Bool) : Option (List A × ℕ) :=
  let passed := addrs.filter filter
  let v6 := passed.filter fun addr ↦ decide (ipVersion addr = some .v6)
  let v4 := passed.filter fun addr ↦ decide (ipVersion addr = some .v4)
  let other := passed.filter fun addr ↦ decide (ipVersion addr = none)
  let sorted := v6 ++ v4 ++ other
  if sorted.isEmpty then none
  else
    let factor := if 0 < v6.length then min v6.length 8 else max 1 (min v4.length 4)
    -- `NonZeroU8::new(factor).unwrap_or(NonZeroU8::MIN)`
    some (sorted, if factor = 0 then 1 else factor)

/-- `prepare_dial_opts`. -/
def prepareDialOpts (peerId : P) (addrs : List A) (filter : A → Bool) : Option (DialOpts P A) :=
  (prepareFiltered ipVersion addrs filter).map fun prepared ↦ ⟨peerId, prepared.1, prepared.2⟩

end Prepare

/-- `DialTrackerConfig`, durations in nanoseconds. -/
structure DialTrackerConfig where
  maxPending : ℕ
  maxInFlight : ℕ
  pendingTtl : ℕ
  inFlightTimeout : ℕ
  cleanupInterval : ℕ

/-- `DialTrackerConfig::default()`. -/
def DialTrackerConfig.default : DialTrackerConfig where
  maxPending := 128
  maxInFlight := 32
  pendingTtl := 60 * 10 ^ 9
  inFlightTimeout := 15 * 10 ^ 9
  cleanupInterval := 10 * 10 ^ 9

/-- `EnqueueError`. -/
inductive EnqueueError
  | alreadyPending
  | alreadyInFlight
  | queueFull
  | inBackoff
  | banned
  deriving DecidableEq, Repr

/-- `PrepareError`. -/
inductive PrepareError
  | noReachableAddresses
  | alreadyTracked
  | inBackoff
  | banned
  deriving DecidableEq, Repr

/-- `DialRequest<Id, D>`. -/
structure DialRequest (Id P A D : Type) where
  id : Option Id
  peerId : P
  addrs : List A
  data : D
  queuedAt : ℕ
  startedAt : Option ℕ

/-- `DialRequest::new` (with an id) and `DialRequest::without_id`, created at `now`. -/
def DialRequest.new {Id P A D : Type} (id : Option Id) (peerId : P) (addrs : List A) (data : D)
    (now : ℕ) : DialRequest Id P A D :=
  ⟨id, peerId, addrs, data, now, none⟩

/-- `DialDispatch<Id>`. -/
structure DialDispatch (Id P A : Type) where
  id : Option Id
  peerId : P
  addrs : List A

/-- `CleanupResult<Id, D>`. -/
structure CleanupResult (Id P A D : Type) where
  expiredPending : List (DialRequest Id P A D)
  timedOutInFlight : List (DialRequest Id P A D)

/-- `DialTracker<Id, D>`: `pending` is the `LinkedHashMap` in insertion order, `inFlight` the
`HashMap`, `idIndex` the `HashMap<Id, PeerId>`. -/
structure DialTracker (Id P A D : Type) where
  config : DialTrackerConfig
  pending : List (P × DialRequest Id P A D)
  inFlight : List (P × DialRequest Id P A D)
  idIndex : Id → Option P
  lastCleanup : ℕ

namespace DialTracker

variable {Id P A D : Type} [DecidableEq Id] [DecidableEq P]

section Operations

variable (ipVersion : A → Option IpVersion)

/-- `DialTracker::new`, at `now`. -/
def new (config : DialTrackerConfig) (now : ℕ) : DialTracker Id P A D :=
  ⟨config, [], [], fun _ ↦ none, now⟩

/-- `is_tracked`. -/
def isTracked (t : DialTracker Id P A D) (peerId : P) (id : Option Id) : Bool :=
  decide (peerId ∈ keys t.pending) || decide (peerId ∈ keys t.inFlight) ||
    id.any fun id ↦ (t.idIndex id).isSome

/-- `contains_peer`: queued or in flight. -/
def containsPeer (t : DialTracker Id P A D) (peerId : P) : Bool :=
  decide (peerId ∈ keys t.pending) || decide (peerId ∈ keys t.inFlight)

/-- `track_id`. -/
def trackId (t : DialTracker Id P A D) (request : DialRequest Id P A D) : DialTracker Id P A D :=
  { t with idIndex := ReverseIndex.track t.idIndex request.peerId request.id }

/-- `untrack_id`. -/
def untrackId (t : DialTracker Id P A D) (request : DialRequest Id P A D) :
    DialTracker Id P A D :=
  { t with idIndex := ReverseIndex.untrack t.idIndex request.id }

/-- `enqueue`. -/
def enqueue (t : DialTracker Id P A D) (request : DialRequest Id P A D) :
    Except EnqueueError Unit × DialTracker Id P A D :=
  if t.isTracked request.peerId request.id then
    if request.peerId ∈ keys t.inFlight then (.error .alreadyInFlight, t)
    else (.error .alreadyPending, t)
  else if t.config.maxPending ≤ t.pending.length then (.error .queueFull, t)
  else
    let t := t.trackId request
    (.ok (), { t with pending := insertBack t.pending request.peerId request })

/-- `insert_in_flight`, at `now`. -/
def insertInFlight (t : DialTracker Id P A D) (request : DialRequest Id P A D) (now : ℕ) :
    DialTracker Id P A D :=
  let request := { request with startedAt := some now }
  let t := t.trackId request
  { t with inFlight := insertBack t.inFlight request.peerId request }

/-- `try_start`. -/
def tryStart {ε τ : Type} (t : DialTracker Id P A D) (peerId : P) (id : Option Id)
    (onConflict : ε) (f : Option Id → Except ε (DialRequest Id P A D × τ)) (now : ℕ) :
    Except ε τ × DialTracker Id P A D :=
  if t.isTracked peerId id then (.error onConflict, t)
  else
    match f id with
    | .error e => (.error e, t)
    | .ok (request, value) => (.ok value, t.insertInFlight request now)

/-- `prepare_and_start`, at `now`.  The request is registered with no addresses: they went into
the dial options. -/
def prepareAndStart (t : DialTracker Id P A D) (id : Option Id) (peerId : P) (addrs : List A)
    (data : D) (filter : A → Bool) (now : ℕ) :
    Except PrepareError (DialOpts P A) × DialTracker Id P A D :=
  t.tryStart peerId id .alreadyTracked
    (fun id ↦
      match prepareDialOpts ipVersion peerId addrs filter with
      | none => .error .noReachableAddresses
      | some opts => .ok (DialRequest.new id peerId [] data now, opts))
    now

/-- `resolve`. -/
def resolve (t : DialTracker Id P A D) (peerId : P) :
    Option (DialRequest Id P A D) × DialTracker Id P A D :=
  match find t.inFlight peerId with
  | none => (none, t)
  | some request => (some request, untrackId { t with inFlight := eraseKey t.inFlight peerId } request)

/-- `if let Some(request) = self.pending.remove(&peer_id) { self.untrack_id(&request) }`: how
`next_batch` and `cleanup_expired` drop an expired queued request. -/
def dropPending (t : DialTracker Id P A D) (peerId : P) :
    Option (DialRequest Id P A D) × DialTracker Id P A D :=
  match find t.pending peerId with
  | none => (none, t)
  | some request => (some request, untrackId { t with pending := eraseKey t.pending peerId } request)

/-- A removal run for each listed `PeerId` in turn, collecting what it removed. -/
def removeAll (remove : DialTracker Id P A D → P → Option (DialRequest Id P A D) × DialTracker Id P A D)
    (t : DialTracker Id P A D) : List P → List (DialRequest Id P A D) × DialTracker Id P A D
  | [] => ([], t)
  | peerId :: rest =>
    let first := remove t peerId
    let others := removeAll remove first.2 rest
    (first.1.toList ++ others.1, others.2)

/-- A queued request older than `pending_ttl`. -/
def isExpired (config : DialTrackerConfig) (now : ℕ) (request : DialRequest Id P A D) : Bool :=
  decide (config.pendingTtl < now - request.queuedAt)

/-- An in-flight request started longer than `in_flight_timeout` ago. -/
def isTimedOut (config : DialTrackerConfig) (now : ℕ) (request : DialRequest Id P A D) : Bool :=
  request.startedAt.any fun startedAt ↦ decide (config.inFlightTimeout < now - startedAt)

/-- `cleanup_expired`, at `now`; the loop over timed-out dials has `resolve`'s body. -/
def cleanupExpired (t : DialTracker Id P A D) (now : ℕ) :
    CleanupResult Id P A D × DialTracker Id P A D :=
  let expired := removeAll dropPending t
    (keys (t.pending.filter fun entry ↦ isExpired t.config now entry.2))
  let timedOut := removeAll resolve expired.2
    (keys (expired.2.inFlight.filter fun entry ↦ isTimedOut t.config now entry.2))
  (⟨expired.1, timedOut.1⟩, { timedOut.2 with lastCleanup := now })

/-- The first block of `next_batch`: `cleanup_expired` once the cleanup interval has passed. -/
def cleanupIfDue (t : DialTracker Id P A D) (now : ℕ) : DialTracker Id P A D :=
  if t.config.cleanupInterval < now - t.lastCleanup then
    { (t.cleanupExpired now).2 with lastCleanup := now }
  else t

/-- The scan of `next_batch` over the queue in order: stop once `batchSize` dispatches are
collected, set expired requests aside, dispatch the others. -/
def scanPending (batchSize : ℕ) (config : DialTrackerConfig) (now : ℕ) :
    List (P × DialRequest Id P A D) → List (DialDispatch Id P A) → List P →
      List (DialDispatch Id P A) × List P
  | [], result, expired => (result, expired)
  | (peerId, request) :: rest, result, expired =>
    if batchSize ≤ result.length then (result, expired)
    else if isExpired config now request then
      scanPending batchSize config now rest result (expired ++ [peerId])
    else scanPending batchSize config now rest (result ++ [⟨request.id, peerId, request.addrs⟩]) expired

/-- The last loop of `next_batch`: a dispatched request leaves the queue for in-flight. -/
def startPending (now : ℕ) (t : DialTracker Id P A D) (peerId : P) : DialTracker Id P A D :=
  match find t.pending peerId with
  | none => t
  | some request =>
    { t with
      pending := eraseKey t.pending peerId
      inFlight := insertBack t.inFlight peerId { request with startedAt := some now } }

/-- `next_batch`, at `now`. -/
def nextBatch (t : DialTracker Id P A D) (max now : ℕ) :
    List (DialDispatch Id P A) × DialTracker Id P A D :=
  let t := t.cleanupIfDue now
  let batchSize := min max (t.config.maxInFlight - t.inFlight.length)
  if batchSize = 0 then ([], t)
  else
    let scan := scanPending batchSize t.config now t.pending [] []
    let t := (removeAll dropPending t scan.2).2
    (scan.1, (scan.1.map DialDispatch.peerId).foldl (startPending now) t)

end Operations

variable {ipVersion : A → Option IpVersion} {t : DialTracker Id P A D}
  {request : DialRequest Id P A D} {peerId : P} {id : Option Id} {now : ℕ}

section Fields

omit [DecidableEq P]

@[simp]
theorem pending_trackId : (t.trackId request).pending = t.pending := rfl

@[simp]
theorem inFlight_trackId : (t.trackId request).inFlight = t.inFlight := rfl

@[simp]
theorem config_trackId : (t.trackId request).config = t.config := rfl

@[simp]
theorem idIndex_trackId :
    (t.trackId request).idIndex = ReverseIndex.track t.idIndex request.peerId request.id := rfl

@[simp]
theorem pending_untrackId : (t.untrackId request).pending = t.pending := rfl

@[simp]
theorem inFlight_untrackId : (t.untrackId request).inFlight = t.inFlight := rfl

@[simp]
theorem config_untrackId : (t.untrackId request).config = t.config := rfl

@[simp]
theorem idIndex_untrackId :
    (t.untrackId request).idIndex = ReverseIndex.untrack t.idIndex request.id := rfl

end Fields

@[simp]
theorem pending_insertInFlight : (t.insertInFlight request now).pending = t.pending := rfl

@[simp]
theorem inFlight_insertInFlight :
    (t.insertInFlight request now).inFlight =
      insertBack t.inFlight request.peerId { request with startedAt := some now } := rfl

@[simp]
theorem idIndex_insertInFlight :
    (t.insertInFlight request now).idIndex = ReverseIndex.track t.idIndex request.peerId request.id :=
  rfl

@[simp]
theorem config_insertInFlight : (t.insertInFlight request now).config = t.config := rfl

omit [DecidableEq Id] in
theorem isTracked_eq_false_iff :
    t.isTracked peerId id = false ↔
      peerId ∉ keys t.pending ∧ peerId ∉ keys t.inFlight ∧ ∀ i, id = some i → t.idIndex i = none := by
  cases id <;> simp [isTracked, and_assoc]

section Steps

/-- What `enqueue` can do: refuse and leave the tracker as it was, or admit a request that is not
tracked yet into a queue with room. -/
theorem enqueue_cases (t : DialTracker Id P A D) (request : DialRequest Id P A D) :
    (∃ e, t.enqueue request = (.error e, t)) ∨
      t.isTracked request.peerId request.id = false ∧ t.pending.length < t.config.maxPending ∧
        t.enqueue request =
          (.ok (), { t.trackId request with pending := insertBack t.pending request.peerId request }) := by
  unfold enqueue
  split_ifs with htracked _ hfull
  · exact .inl ⟨_, rfl⟩
  · exact .inl ⟨_, rfl⟩
  · exact .inl ⟨_, rfl⟩
  · exact .inr ⟨by simpa using htracked, by omega, rfl⟩

/-- What `prepare_and_start` can do: refuse and leave the tracker as it was, or register a new
in-flight request for an untracked peer with a reachable address, with no check on the number
of dials in flight. -/
theorem prepareAndStart_cases (ipVersion : A → Option IpVersion) (t : DialTracker Id P A D)
    (id : Option Id) (peerId : P) (addrs : List A) (data : D) (filter : A → Bool) (now : ℕ) :
    (∃ e, t.prepareAndStart ipVersion id peerId addrs data filter now = (.error e, t)) ∨
      ∃ opts, t.isTracked peerId id = false ∧ prepareDialOpts ipVersion peerId addrs filter = some opts ∧
        t.prepareAndStart ipVersion id peerId addrs data filter now =
          (.ok opts, t.insertInFlight (DialRequest.new id peerId [] data now) now) := by
  unfold prepareAndStart tryStart
  split_ifs with htracked
  · exact .inl ⟨_, rfl⟩
  · cases hopts : prepareDialOpts ipVersion peerId addrs filter with
    | none => exact .inl ⟨.noReachableAddresses, by simp⟩
    | some opts => exact .inr ⟨opts, by simpa using htracked, rfl, by simp⟩

/-- `prepare_and_start` for an untracked peer with a reachable address registers it in flight. -/
theorem prepareAndStart_of_free {opts : DialOpts P A} {addrs : List A} {data : D}
    {filter : A → Bool} (hfree : t.isTracked peerId id = false)
    (hopts : prepareDialOpts ipVersion peerId addrs filter = some opts) :
    t.prepareAndStart ipVersion id peerId addrs data filter now =
      (.ok opts, t.insertInFlight (DialRequest.new id peerId [] data now) now) := by
  simp [prepareAndStart, tryStart, hfree, hopts]

end Steps

/-- What the id index reads of a tracked request: its `PeerId` and its id. -/
def entryOf (entry : P × DialRequest Id P A D) : P × Option Id := (entry.1, entry.2.id)

/-- The tracked requests as the id index sees them, the queued ones first. -/
def entries (t : DialTracker Id P A D) : List (P × Option Id) := (t.pending ++ t.inFlight).map entryOf

omit [DecidableEq Id] [DecidableEq P] in
theorem map_fst_entries (t : DialTracker Id P A D) :
    t.entries.map Prod.fst = keys (t.pending ++ t.inFlight) := by
  simp [entries, keys, entryOf, Function.comp_def]

/-- The bookkeeping invariant: the id index is exact over the tracked requests (so no `PeerId`
is both queued and in flight, and no id is carried twice), every request is stored under its own
`PeerId`, and the queue is within `max_pending`. -/
structure Wf (t : DialTracker Id P A D) : Prop where
  indexed : ReverseIndex.Exact t.idIndex t.entries
  peerId_eq : ∀ entry ∈ t.pending ++ t.inFlight, entry.2.peerId = entry.1
  pending_le : t.pending.length ≤ t.config.maxPending

omit [DecidableEq Id] [DecidableEq P] in
theorem wf_new (config : DialTrackerConfig) (now : ℕ) : (new config now : DialTracker Id P A D).Wf :=
  ⟨⟨List.nodup_nil, by simp [new, entries]⟩, by simp [new], by simp [new]⟩

namespace Wf

variable (h : t.Wf)
include h

section Keys

omit [DecidableEq Id] [DecidableEq P]

theorem nodup : (keys (t.pending ++ t.inFlight)).Nodup := t.map_fst_entries ▸ h.indexed.nodup

theorem nodup_pending : (keys t.pending).Nodup := by
  have hnodup := h.nodup
  rw [keys_append, List.nodup_append] at hnodup
  exact hnodup.1

theorem nodup_inFlight : (keys t.inFlight).Nodup := by
  have hnodup := h.nodup
  rw [keys_append, List.nodup_append] at hnodup
  exact hnodup.2.1

/-- No `PeerId` is both queued and in flight. -/
theorem disjoint (hpending : peerId ∈ keys t.pending) : peerId ∉ keys t.inFlight := by
  have hnodup := h.nodup
  rw [keys_append, List.nodup_append] at hnodup
  exact fun hinFlight ↦ hnodup.2.2 peerId hpending peerId hinFlight rfl

theorem id_unique {entry entry' : P × DialRequest Id P A D} {i : Id}
    (hentry : entry ∈ t.pending ++ t.inFlight) (hentry' : entry' ∈ t.pending ++ t.inFlight)
    (hid : entry.2.id = some i) (hid' : entry'.2.id = some i) : entry = entry' := by
  have hmem : (entry.1, some i) ∈ t.entries := by
    rw [← hid]
    exact List.mem_map_of_mem hentry
  have hmem' : (entry'.1, some i) ∈ t.entries := by
    rw [← hid']
    exact List.mem_map_of_mem hentry'
  have hkey : entry.1 = entry'.1 := h.indexed.key_unique hmem hmem'
  exact List.inj_on_of_nodup_map h.nodup hentry hentry' hkey

end Keys

omit [DecidableEq Id]

/-- A queued request taken out: the index's view loses exactly its entry. -/
theorem entries_perm_of_mem_pending (hmem : (peerId, request) ∈ t.pending) :
    t.entries.Perm ((peerId, request.id) :: (eraseKey t.pending peerId ++ t.inFlight).map entryOf) := by
  have hperm := perm_cons_eraseKey h.nodup_pending hmem
  simpa only [entries, List.cons_append, List.map_cons, entryOf] using
    (hperm.append_right t.inFlight).map entryOf

/-- An in-flight request taken out: the index's view loses exactly its entry. -/
theorem entries_perm_of_mem_inFlight (hmem : (peerId, request) ∈ t.inFlight) :
    t.entries.Perm ((peerId, request.id) :: (t.pending ++ eraseKey t.inFlight peerId).map entryOf) := by
  have hperm := perm_cons_eraseKey h.nodup_inFlight hmem
  simpa only [entries, List.map_cons, entryOf] using
    ((hperm.append_left t.pending).trans List.perm_middle).map entryOf

end Wf

section Preservation

theorem Wf.enqueue_ok (h : t.Wf) (hfree : t.isTracked request.peerId request.id = false)
    (hroom : t.pending.length < t.config.maxPending) :
    Wf { t.trackId request with pending := insertBack t.pending request.peerId request } := by
  obtain ⟨hpending, hinFlight, hid⟩ := isTracked_eq_false_iff.mp hfree
  rw [insertBack_of_not_mem hpending]
  refine ⟨?_, ?_, ?_⟩
  · -- the request enters the index's view under a fresh `PeerId` with an unindexed id
    have hkey : request.peerId ∉ t.entries.map Prod.fst := by
      rw [map_fst_entries, keys_append, List.mem_append]
      exact not_or.mpr ⟨hpending, hinFlight⟩
    have hperm : ((t.pending ++ [(request.peerId, request)]) ++ t.inFlight).map entryOf |>.Perm
        ((request.peerId, request.id) :: t.entries) := by
      simpa only [entries, List.append_assoc, List.singleton_append, List.map_append, List.map_cons,
        entryOf] using @List.perm_middle _ (request.peerId, request.id) (t.pending.map entryOf)
          (t.inFlight.map entryOf)
    exact (h.indexed.cons hkey hid).perm hperm.symm
  · intro entry hentry
    simp only [List.append_assoc, List.singleton_append, List.mem_append, List.mem_cons] at hentry
    rcases hentry with hold | rfl | hold
    · exact h.peerId_eq entry (List.mem_append_left _ hold)
    · rfl
    · exact h.peerId_eq entry (List.mem_append_right _ hold)
  · simp only [List.length_append, List.length_singleton]
    exact hroom

theorem Wf.insertInFlight (h : t.Wf) (hfree : t.isTracked request.peerId request.id = false)
    (now : ℕ) : (t.insertInFlight request now).Wf := by
  obtain ⟨hpending, hinFlight, hid⟩ := isTracked_eq_false_iff.mp hfree
  refine ⟨?_, ?_, h.pending_le⟩
  · rw [idIndex_insertInFlight, entries, pending_insertInFlight, inFlight_insertInFlight,
      insertBack_of_not_mem hinFlight]
    have hkey : request.peerId ∉ t.entries.map Prod.fst := by
      rw [map_fst_entries, keys_append, List.mem_append]
      exact not_or.mpr ⟨hpending, hinFlight⟩
    have hperm : (t.pending ++ (t.inFlight ++ [(request.peerId, { request with startedAt := some now })])).map
        entryOf |>.Perm ((request.peerId, request.id) :: t.entries) := by
      simpa only [entries, ← List.append_assoc, List.map_append, List.map_cons, List.map_nil,
        entryOf] using List.perm_append_singleton (request.peerId, request.id) t.entries
    exact (h.indexed.cons hkey hid).perm hperm.symm
  · intro entry hentry
    rw [pending_insertInFlight, inFlight_insertInFlight, insertBack_of_not_mem hinFlight] at hentry
    simp only [← List.append_assoc, List.mem_append, List.mem_singleton] at hentry
    rcases hentry with hold | rfl
    · exact h.peerId_eq entry (List.mem_append.mpr hold)
    · rfl

theorem Wf.dropPending (h : t.Wf) (peerId : P) : (t.dropPending peerId).2.Wf := by
  unfold DialTracker.dropPending
  split
  · exact h
  · rename_i request hfind
    have hmem := mem_of_find hfind
    refine ⟨(h.indexed.perm (h.entries_perm_of_mem_pending hmem)).of_cons, ?_, ?_⟩
    · intro entry hentry
      simp only [untrackId, List.mem_append, mem_eraseKey] at hentry
      exact h.peerId_eq entry (List.mem_append.mpr (hentry.imp And.left id))
    · exact (length_eraseKey_le t.pending peerId).trans h.pending_le

/-- `resolve` keeps the bookkeeping. -/
theorem Wf.resolve (h : t.Wf) (peerId : P) : (t.resolve peerId).2.Wf := by
  unfold DialTracker.resolve
  split
  · exact h
  · rename_i request hfind
    have hmem := mem_of_find hfind
    refine ⟨(h.indexed.perm (h.entries_perm_of_mem_inFlight hmem)).of_cons, ?_, h.pending_le⟩
    intro entry hentry
    simp only [untrackId, List.mem_append, mem_eraseKey] at hentry
    exact h.peerId_eq entry (List.mem_append.mpr (hentry.imp id And.left))

omit [DecidableEq Id] in
/-- Moving a queued request to in-flight keeps the bookkeeping: the index's view is only
reordered. -/
theorem Wf.startPending (h : t.Wf) (now : ℕ) (peerId : P) : (t.startPending now peerId).Wf := by
  unfold DialTracker.startPending
  split
  · exact h
  · rename_i request hfind
    have hmem := mem_of_find hfind
    have hpeer : request.peerId = peerId := h.peerId_eq _ (List.mem_append_left _ hmem)
    rw [insertBack_of_not_mem (h.disjoint (mem_keys_of_mem hmem))]
    refine ⟨?_, ?_, (length_eraseKey_le t.pending peerId).trans h.pending_le⟩
    · have hperm : (eraseKey t.pending peerId ++ (t.inFlight ++ [(peerId, { request with startedAt := some now })])).map
          entryOf |>.Perm ((peerId, request.id) :: (eraseKey t.pending peerId ++ t.inFlight).map entryOf) := by
        simpa only [← List.append_assoc, List.map_append, List.map_cons, List.map_nil, entryOf] using
          List.perm_append_singleton (peerId, request.id) ((eraseKey t.pending peerId ++ t.inFlight).map entryOf)
      exact h.indexed.perm ((h.entries_perm_of_mem_pending hmem).trans hperm.symm)
    · intro entry hentry
      simp only [← List.append_assoc, List.mem_append, mem_eraseKey, List.mem_singleton] at hentry
      rcases hentry with (⟨hold, -⟩ | hold) | rfl
      · exact h.peerId_eq entry (List.mem_append_left _ hold)
      · exact h.peerId_eq entry (List.mem_append_right _ hold)
      · exact hpeer

omit [DecidableEq Id] [DecidableEq P] in
theorem Wf.removeAll
    {remove : DialTracker Id P A D → P → Option (DialRequest Id P A D) × DialTracker Id P A D}
    (hremove : ∀ t peerId, t.Wf → (remove t peerId).2.Wf) (h : t.Wf) (peerIds : List P) :
    (removeAll remove t peerIds).2.Wf := by
  induction peerIds generalizing t with
  | nil => exact h
  | cons peerId rest ih => exact ih (hremove t peerId h)

omit [DecidableEq Id] [DecidableEq P] in
theorem Wf.with_lastCleanup (h : t.Wf) (now : ℕ) : Wf { t with lastCleanup := now } :=
  ⟨h.indexed, h.peerId_eq, h.pending_le⟩

theorem Wf.cleanupExpired (h : t.Wf) (now : ℕ) : (t.cleanupExpired now).2.Wf := by
  have hexpired := h.removeAll (fun t peerId ht ↦ ht.dropPending peerId)
    (keys (t.pending.filter fun entry ↦ isExpired t.config now entry.2))
  exact (hexpired.removeAll (fun t peerId ht ↦ ht.resolve peerId) _).with_lastCleanup now

theorem Wf.cleanupIfDue (h : t.Wf) (now : ℕ) : (t.cleanupIfDue now).Wf := by
  unfold DialTracker.cleanupIfDue
  split
  · exact (h.cleanupExpired now).with_lastCleanup now
  · exact h

omit [DecidableEq Id] in
theorem Wf.foldl_startPending (h : t.Wf) (now : ℕ) (peerIds : List P) :
    (peerIds.foldl (DialTracker.startPending now) t).Wf := by
  induction peerIds generalizing t with
  | nil => exact h
  | cons peerId rest ih => exact ih (h.startPending now peerId)

theorem Wf.nextBatch (h : t.Wf) (max now : ℕ) : (t.nextBatch max now).2.Wf := by
  have hclean := h.cleanupIfDue now
  unfold DialTracker.nextBatch
  dsimp only
  split
  · exact hclean
  · exact ((hclean.removeAll (fun t peerId ht ↦ ht.dropPending peerId) _).foldl_startPending now _)

theorem Wf.enqueue (h : t.Wf) (request : DialRequest Id P A D) : (t.enqueue request).2.Wf := by
  rcases enqueue_cases t request with ⟨e, hrefused⟩ | ⟨hfree, hroom, hadmitted⟩
  · rw [hrefused]
    exact h
  · rw [hadmitted]
    exact h.enqueue_ok hfree hroom

theorem Wf.prepareAndStart (h : t.Wf) (id : Option Id) (peerId : P) (addrs : List A) (data : D)
    (filter : A → Bool) (now : ℕ) :
    (t.prepareAndStart ipVersion id peerId addrs data filter now).2.Wf := by
  rcases prepareAndStart_cases ipVersion t id peerId addrs data filter now with
    ⟨e, hrefused⟩ | ⟨opts, hfree, -, hstarted⟩
  · rw [hrefused]
    exact h
  · rw [hstarted]
    exact h.insertInFlight hfree now

/-- A request taken out of the tracker is gone: its `PeerId` is not tracked and its id not
indexed, so no later removal finds it again. -/
theorem resolve_dropPending_of_gone {t' : DialTracker Id P A D}
    (hgone : peerId ∉ keys (t'.pending ++ t'.inFlight)) :
    (t'.resolve peerId).1 = none ∧ (t'.dropPending peerId).1 = none := by
  rw [keys_append, List.mem_append, not_or] at hgone
  constructor
  · simp [DialTracker.resolve, find_eq_none_iff.mpr hgone.2]
  · simp [DialTracker.dropPending, find_eq_none_iff.mpr hgone.1]

/-- What `resolve` takes out was in flight; afterwards it is gone and its id untracked. -/
theorem Wf.resolve_some {t' : DialTracker Id P A D} (h : t.Wf)
    (hresolve : t.resolve peerId = (some request, t')) :
    (peerId, request) ∈ t.inFlight ∧ peerId ∉ keys (t'.pending ++ t'.inFlight) ∧
      ∀ i, request.id = some i → t'.idIndex i = none := by
  unfold DialTracker.resolve at hresolve
  split at hresolve
  · cases hresolve
  · rename_i request' hfind
    obtain ⟨hrequest, rfl⟩ := Prod.mk.inj hresolve
    cases Option.some.inj hrequest
    have hmem := mem_of_find hfind
    refine ⟨hmem, ?_, fun i hid ↦ by simp [ReverseIndex.untrack, hid]⟩
    have hpending : peerId ∉ keys t.pending := fun hp ↦ h.disjoint hp (mem_keys_of_mem hmem)
    simpa [mem_keys_eraseKey] using hpending

/-- What `next_batch` or `cleanup_expired` drops from the queue was queued; afterwards it is
gone and its id untracked. -/
theorem Wf.dropPending_some {t' : DialTracker Id P A D} (h : t.Wf)
    (hdrop : t.dropPending peerId = (some request, t')) :
    (peerId, request) ∈ t.pending ∧ peerId ∉ keys (t'.pending ++ t'.inFlight) ∧
      ∀ i, request.id = some i → t'.idIndex i = none := by
  unfold DialTracker.dropPending at hdrop
  split at hdrop
  · cases hdrop
  · rename_i request' hfind
    obtain ⟨hrequest, rfl⟩ := Prod.mk.inj hdrop
    cases Option.some.inj hrequest
    have hmem := mem_of_find hfind
    refine ⟨hmem, ?_, fun i hid ↦ by simp [ReverseIndex.untrack, hid]⟩
    have hinFlight : peerId ∉ keys t.inFlight := h.disjoint (mem_keys_of_mem hmem)
    simpa [mem_keys_eraseKey] using hinFlight

end Preservation

section Config

theorem config_dropPending (t : DialTracker Id P A D) (peerId : P) :
    (t.dropPending peerId).2.config = t.config := by
  unfold DialTracker.dropPending
  split <;> rfl

theorem config_resolve (t : DialTracker Id P A D) (peerId : P) :
    (t.resolve peerId).2.config = t.config := by
  unfold DialTracker.resolve
  split <;> rfl

omit [DecidableEq Id] [DecidableEq P] in
theorem config_removeAll
    {remove : DialTracker Id P A D → P → Option (DialRequest Id P A D) × DialTracker Id P A D}
    (hremove : ∀ t peerId, (remove t peerId).2.config = t.config) (t : DialTracker Id P A D)
    (peerIds : List P) : (removeAll remove t peerIds).2.config = t.config := by
  induction peerIds generalizing t with
  | nil => rfl
  | cons peerId rest ih => exact (ih _).trans (hremove t peerId)

theorem config_cleanupExpired (t : DialTracker Id P A D) (now : ℕ) :
    (t.cleanupExpired now).2.config = t.config :=
  (config_removeAll config_resolve _ _).trans (config_removeAll config_dropPending _ _)

theorem config_cleanupIfDue (t : DialTracker Id P A D) (now : ℕ) :
    (t.cleanupIfDue now).config = t.config := by
  unfold DialTracker.cleanupIfDue
  split
  · exact config_cleanupExpired t now
  · rfl

omit [DecidableEq Id] in
theorem config_foldl_startPending (t : DialTracker Id P A D) (now : ℕ) (peerIds : List P) :
    (peerIds.foldl (startPending now) t).config = t.config := by
  induction peerIds generalizing t with
  | nil => rfl
  | cons peerId rest ih =>
    rw [List.foldl_cons, ih]
    unfold DialTracker.startPending
    split <;> rfl

end Config

section InFlight

/-! The number of dials in flight: only `next_batch` and `prepare_and_start` add to it. -/

theorem inFlight_dropPending (t : DialTracker Id P A D) (peerId : P) :
    (t.dropPending peerId).2.inFlight = t.inFlight := by
  unfold DialTracker.dropPending
  split <;> rfl

theorem length_inFlight_dropPending_le (t : DialTracker Id P A D) (peerId : P) :
    (t.dropPending peerId).2.inFlight.length ≤ t.inFlight.length := by
  rw [inFlight_dropPending]

theorem length_inFlight_resolve_le (t : DialTracker Id P A D) (peerId : P) :
    (t.resolve peerId).2.inFlight.length ≤ t.inFlight.length := by
  unfold DialTracker.resolve
  split
  · exact le_rfl
  · exact length_eraseKey_le t.inFlight peerId

omit [DecidableEq Id] [DecidableEq P] in
theorem length_inFlight_removeAll_le
    {remove : DialTracker Id P A D → P → Option (DialRequest Id P A D) × DialTracker Id P A D}
    (hremove : ∀ t peerId, (remove t peerId).2.inFlight.length ≤ t.inFlight.length)
    (t : DialTracker Id P A D) (peerIds : List P) :
    (removeAll remove t peerIds).2.inFlight.length ≤ t.inFlight.length := by
  induction peerIds generalizing t with
  | nil => exact le_rfl
  | cons peerId rest ih => exact (ih _).trans (hremove t peerId)

theorem length_inFlight_cleanupIfDue_le (t : DialTracker Id P A D) (now : ℕ) :
    (t.cleanupIfDue now).inFlight.length ≤ t.inFlight.length := by
  unfold DialTracker.cleanupIfDue
  split
  · -- the expired queued requests leave the in-flight dials alone; the timed-out ones leave them
    have hdropped := length_inFlight_removeAll_le length_inFlight_dropPending_le t
      (keys (t.pending.filter fun entry ↦ isExpired t.config now entry.2))
    exact (length_inFlight_removeAll_le length_inFlight_resolve_le _ _).trans hdropped
  · exact le_rfl

omit [DecidableEq Id] in
theorem length_inFlight_foldl_startPending_le (t : DialTracker Id P A D) (now : ℕ)
    (peerIds : List P) :
    (peerIds.foldl (startPending now) t).inFlight.length ≤ t.inFlight.length + peerIds.length := by
  induction peerIds generalizing t with
  | nil => simp
  | cons peerId rest ih =>
    have hstep : (t.startPending now peerId).inFlight.length ≤ t.inFlight.length + 1 := by
      unfold DialTracker.startPending
      split
      · omega
      · simpa [insertBack] using length_eraseKey_le t.inFlight peerId
    rw [List.foldl_cons, List.length_cons]
    have := ih (t.startPending now peerId)
    omega

omit [DecidableEq Id] [DecidableEq P] in
/-- The scan of `next_batch` dispatches the first unexpired queued requests, in queue order, as
many as the batch has room for. -/
theorem scanPending_fst (batchSize : ℕ) (config : DialTrackerConfig) (now : ℕ)
    (l : List (P × DialRequest Id P A D)) (result : List (DialDispatch Id P A)) (expired : List P)
    (hresult : result.length ≤ batchSize) :
    (scanPending batchSize config now l result expired).1 =
      result ++ ((l.filter fun entry ↦ !isExpired config now entry.2).map
        fun entry ↦ (⟨entry.2.id, entry.1, entry.2.addrs⟩ : DialDispatch Id P A)).take
          (batchSize - result.length) := by
  induction l generalizing result expired with
  | nil => simp [scanPending]
  | cons entry rest ih =>
    obtain ⟨peerId, request⟩ := entry
    unfold scanPending
    split_ifs with hfull hexpired
    · -- the batch is full
      simp [show batchSize - result.length = 0 by omega]
    · -- an expired request is set aside
      rw [ih result _ hresult, List.filter_cons_of_neg (by simpa using hexpired)]
    · -- a live request is dispatched
      rw [ih _ _ (by simp only [List.length_append, List.length_singleton]; omega),
        List.filter_cons_of_pos (by simpa using hexpired), List.map_cons,
        show batchSize - result.length = batchSize - (result.length + 1) + 1 by omega,
        List.take_succ_cons, List.length_append, List.length_singleton, List.append_assoc,
        List.singleton_append]

end InFlight

/-- `next_batch` dispatches the first unexpired queued requests, in queue order, and as many as
`max` and the free in-flight slots allow, both read after its own cleanup. -/
theorem nextBatch_fst (t : DialTracker Id P A D) (max now : ℕ) :
    (t.nextBatch max now).1 =
      (((t.cleanupIfDue now).pending.filter fun entry ↦ !isExpired t.config now entry.2).map
        fun entry ↦ (⟨entry.2.id, entry.1, entry.2.addrs⟩ : DialDispatch Id P A)).take
          (min max (t.config.maxInFlight - (t.cleanupIfDue now).inFlight.length)) := by
  unfold DialTracker.nextBatch
  dsimp only
  rw [config_cleanupIfDue]
  split
  · rename_i hzero
    rw [hzero, List.take_zero]
  · rw [scanPending_fst _ _ _ _ [] [] (Nat.zero_le _), List.nil_append, List.length_nil,
      Nat.sub_zero]

/-- `next_batch` adds at most one dial in flight per dispatch. -/
theorem length_inFlight_nextBatch_le_add (t : DialTracker Id P A D) (max now : ℕ) :
    (t.nextBatch max now).2.inFlight.length ≤
      (t.cleanupIfDue now).inFlight.length + (t.nextBatch max now).1.length := by
  unfold DialTracker.nextBatch
  dsimp only
  split
  · simp
  · dsimp only
    refine (length_inFlight_foldl_startPending_le _ now _).trans ?_
    -- dropping the expired queued requests leaves the in-flight dials alone
    have hdropped := length_inFlight_removeAll_le length_inFlight_dropPending_le
      (t.cleanupIfDue now)
      (scanPending (min max ((t.cleanupIfDue now).config.maxInFlight -
        (t.cleanupIfDue now).inFlight.length)) (t.cleanupIfDue now).config now
        (t.cleanupIfDue now).pending [] []).2
    rw [List.length_map]
    omega

/-- `next_batch` keeps the in-flight cap. -/
theorem length_inFlight_nextBatch_le (t : DialTracker Id P A D) (max now : ℕ)
    (hcap : t.inFlight.length ≤ t.config.maxInFlight) :
    (t.nextBatch max now).2.inFlight.length ≤ t.config.maxInFlight := by
  have hclean := length_inFlight_cleanupIfDue_le t now
  have hmoves := length_inFlight_nextBatch_le_add t max now
  -- no more dispatches than free slots after the cleanup
  have hdispatched := congrArg List.length (nextBatch_fst t max now)
  rw [List.length_take] at hdispatched
  omega

end DialTracker

/-- The calls the bookkeeping is stated over, each with its arguments and its clock reading. -/
inductive DialCall (Id P A D : Type)
  | enqueue (request : DialRequest Id P A D)
  | nextBatch (max now : ℕ)
  | prepareAndStart (id : Option Id) (peerId : P) (addrs : List A) (data : D) (filter : A → Bool)
      (now : ℕ)
  | resolve (peerId : P)
  | cleanupExpired (now : ℕ)

namespace DialCall

variable {Id P A D : Type} [DecidableEq Id] [DecidableEq P] (ipVersion : A → Option IpVersion)

/-- The tracker after one call. -/
def apply (t : DialTracker Id P A D) : DialCall Id P A D → DialTracker Id P A D
  | enqueue request => (t.enqueue request).2
  | nextBatch max now => (t.nextBatch max now).2
  | prepareAndStart id peerId addrs data filter now =>
    (t.prepareAndStart ipVersion id peerId addrs data filter now).2
  | resolve peerId => (t.resolve peerId).2
  | cleanupExpired now => (t.cleanupExpired now).2

/-- The one call that registers dials without consulting `max_in_flight`. -/
def isPrepareAndStart : DialCall Id P A D → Bool
  | prepareAndStart .. => true
  | _ => false

variable {ipVersion} {t : DialTracker Id P A D}

theorem wf_apply (h : t.Wf) (call : DialCall Id P A D) : (call.apply ipVersion t).Wf := by
  cases call with
  | enqueue request => exact h.enqueue request
  | nextBatch max now => exact h.nextBatch max now
  | prepareAndStart id peerId addrs data filter now =>
    exact h.prepareAndStart id peerId addrs data filter now
  | resolve peerId => exact h.resolve peerId
  | cleanupExpired now => exact h.cleanupExpired now

theorem config_apply (t : DialTracker Id P A D) (call : DialCall Id P A D) :
    (call.apply ipVersion t).config = t.config := by
  cases call with
  | enqueue request =>
    rcases DialTracker.enqueue_cases t request with ⟨e, hrefused⟩ | ⟨-, -, hadmitted⟩
    · rw [apply, hrefused]
    · rw [apply, hadmitted]
      rfl
  | nextBatch max now =>
    simp only [apply, DialTracker.nextBatch]
    split
    · exact DialTracker.config_cleanupIfDue t now
    · rw [DialTracker.config_foldl_startPending,
        DialTracker.config_removeAll DialTracker.config_dropPending,
        DialTracker.config_cleanupIfDue]
  | prepareAndStart id peerId addrs data filter now =>
    rcases DialTracker.prepareAndStart_cases ipVersion t id peerId addrs data filter now
      with ⟨e, hrefused⟩ | ⟨opts, -, -, hstarted⟩
    · rw [apply, hrefused]
    · rw [apply, hstarted]
      rfl
  | resolve peerId => exact DialTracker.config_resolve t peerId
  | cleanupExpired now => exact DialTracker.config_cleanupExpired t now

/-- Every call but `prepare_and_start` keeps the in-flight cap. -/
theorem length_inFlight_apply_le (hcap : t.inFlight.length ≤ t.config.maxInFlight)
    (call : DialCall Id P A D) (hcall : call.isPrepareAndStart = false) :
    (call.apply ipVersion t).inFlight.length ≤ t.config.maxInFlight := by
  cases call with
  | enqueue request =>
    rcases DialTracker.enqueue_cases t request with ⟨e, hrefused⟩ | ⟨-, -, hadmitted⟩
    · rw [apply, hrefused]
      exact hcap
    · rw [apply, hadmitted]
      exact hcap
  | nextBatch max now => exact DialTracker.length_inFlight_nextBatch_le t max now hcap
  | prepareAndStart => cases hcall
  | resolve peerId => exact (DialTracker.length_inFlight_resolve_le t peerId).trans hcap
  | cleanupExpired now =>
    have hdropped := DialTracker.length_inFlight_removeAll_le
      DialTracker.length_inFlight_dropPending_le t
      (keys (t.pending.filter fun entry ↦ DialTracker.isExpired t.config now entry.2))
    exact ((DialTracker.length_inFlight_removeAll_le DialTracker.length_inFlight_resolve_le _ _).trans
      hdropped).trans hcap

theorem wf_of_run (config : DialTrackerConfig) (now : ℕ) (calls : List (DialCall Id P A D)) :
    ∀ t ∈ List.scanl (apply ipVersion) (DialTracker.new config now) calls, t.Wf :=
  Run.scanl_induction (P := DialTracker.Wf) (R := fun _ ↦ True) (Q := fun _ ↦ True)
    (fun _ call ht _ _ ↦ wf_apply ht call) (DialTracker.wf_new config now) (fun _ _ ↦ trivial)
    (fun _ _ ↦ trivial)

/-- After every call of a run from a new tracker that never calls `prepare_and_start`, at most
`max_in_flight` dials are in flight. -/
theorem length_inFlight_le_of_run (config : DialTrackerConfig) (now : ℕ)
    (calls : List (DialCall Id P A D)) (hcalls : ∀ call ∈ calls, call.isPrepareAndStart = false) :
    ∀ t ∈ List.scanl (apply ipVersion) (DialTracker.new config now) calls,
      t.config = config ∧ t.inFlight.length ≤ config.maxInFlight := by
  refine Run.scanl_induction (Q := fun _ ↦ True) (fun t call ht hcall _ ↦ ?_) ⟨rfl, by simp [DialTracker.new]⟩
    hcalls (fun _ _ ↦ trivial)
  obtain ⟨hconfig, hcap⟩ := ht
  subst hconfig
  exact ⟨config_apply t call, length_inFlight_apply_le hcap call hcall⟩

end DialCall

section DefaultConfig

/-- Addresses with no IP component. -/
def noIpVersion : Unit → Option IpVersion := fun _ ↦ none

/-- `n` dials through `prepare_and_start` to the `PeerId`s `0, …, n - 1`, without ids, each with
one address that passes the filter, all at clock reading `0`. -/
def dialEach (n : ℕ) : List (DialCall ℕ ℕ Unit Unit) :=
  (List.range n).map fun peerId ↦ .prepareAndStart none peerId [()] () (fun _ ↦ true) 0

/-- From the default configuration, the dials of `dialEach n` all start: the queue stays empty,
the `n` peers are in flight and no id is indexed. -/
theorem dialEach_state (n : ℕ) :
    ((dialEach n).foldl (DialCall.apply noIpVersion) (DialTracker.new .default 0)).pending = [] ∧
      keys ((dialEach n).foldl (DialCall.apply noIpVersion) (DialTracker.new .default 0)).inFlight =
        List.range n ∧
      ((dialEach n).foldl (DialCall.apply noIpVersion) (DialTracker.new .default 0)).idIndex =
        fun _ ↦ none := by
  induction n with
  | zero => exact ⟨rfl, rfl, rfl⟩
  | succ n ih =>
    rw [dialEach, List.range_succ, List.map_append, List.foldl_append, ← dialEach]
    set t := (dialEach n).foldl (DialCall.apply noIpVersion) (DialTracker.new .default 0)
    obtain ⟨hpending, hkeys, hindex⟩ := ih
    -- the next peer is not tracked yet, and its one address is reachable
    have hnew : n ∉ keys t.inFlight := by
      rw [hkeys]
      exact List.not_mem_range_self
    have hfree : t.isTracked n none = false :=
      DialTracker.isTracked_eq_false_iff.mpr ⟨by simp [hpending, keys], hnew, by simp⟩
    have hopts : prepareDialOpts noIpVersion n [()] (fun _ ↦ true) = some ⟨n, [()], 1⟩ := rfl
    simp only [List.map_cons, List.map_nil, List.foldl_cons, List.foldl_nil, DialCall.apply,
      DialTracker.prepareAndStart_of_free hfree hopts]
    refine ⟨hpending, ?_, hindex⟩
    rw [DialTracker.inFlight_insertInFlight]
    change keys (insertBack t.inFlight n _) = _
    rw [insertBack_of_not_mem hnew, keys_append, hkeys]
    rfl

/-- The bookkeeping of the dial tracker holds after every call, and `next_batch` dispatches the
first unexpired queued requests that fit; the in-flight cap holds over every run that does not
call `prepare_and_start`, but `prepare_and_start` never consults it: from the default
configuration, whose cap is 32, `n` of its calls leave `n` dials in flight. -/
theorem prepare_and_start_exceeds_max_in_flight {Id P A D : Type} [DecidableEq Id]
    [DecidableEq P] :
    (∀ (ipVersion : A → Option IpVersion) (config : DialTrackerConfig) (now : ℕ)
        (calls : List (DialCall Id P A D)),
        (∀ t ∈ List.scanl (DialCall.apply ipVersion) (DialTracker.new config now) calls, t.Wf) ∧
          ((∀ call ∈ calls, call.isPrepareAndStart = false) →
            ∀ t ∈ List.scanl (DialCall.apply ipVersion) (DialTracker.new config now) calls,
              t.inFlight.length ≤ config.maxInFlight)) ∧
      (∀ (t : DialTracker Id P A D) (max now : ℕ),
        (t.nextBatch max now).1 =
          (((t.cleanupIfDue now).pending.filter
              fun entry ↦ !DialTracker.isExpired t.config now entry.2).map
            fun entry ↦ (⟨entry.2.id, entry.1, entry.2.addrs⟩ : DialDispatch Id P A)).take
              (min max (t.config.maxInFlight - (t.cleanupIfDue now).inFlight.length))) ∧
      DialTrackerConfig.default.maxInFlight = 32 ∧
      ∀ n, ((dialEach n).foldl (DialCall.apply noIpVersion)
        (DialTracker.new .default 0)).inFlight.length = n := by
  refine ⟨fun ipVersion config now calls ↦ ⟨DialCall.wf_of_run config now calls, fun hcalls t ht ↦
    (DialCall.length_inFlight_le_of_run config now calls hcalls t ht).2⟩,
    DialTracker.nextBatch_fst, rfl, fun n ↦ ?_⟩
  have hkeys := congrArg List.length (dialEach_state n).2.1
  rwa [keys, List.length_map, List.length_range] at hkeys

end DefaultConfig

end VertexSwarm.Net
