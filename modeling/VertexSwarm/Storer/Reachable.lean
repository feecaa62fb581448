import VertexSwarm.Storer.Invariant

/-!
# Every reachable reserve satisfies the representation invariant

Each verb keeps `ReserveInv`, and only ever adds entries carrying the stamp it was handed.  A
run from freshly created tables therefore keeps the invariant throughout, provided the stamps
the run presents do not collide under the stamp hash across slots.
-/

namespace VertexSwarm.Storer

open BigEndian Postage OrderedTable DbReserve

/-- Every live entry of `tables'` is a live entry of `tables`, unchanged. -/
def EntriesWithin (tables' tables : Tables) : Prop :=
  ∀ {key value}, tables'.entry.get key = some value → tables.entry.get key = some value

theorem EntriesWithin.refl (tables : Tables) : EntriesWithin tables tables := id

theorem EntriesWithin.trans {tables₁ tables₂ tables₃ : Tables} (h₁₂ : EntriesWithin tables₁ tables₂)
    (h₂₃ : EntriesWithin tables₂ tables₃) : EntriesWithin tables₁ tables₃ :=
  fun h ↦ h₂₃ (h₁₂ h)

theorem Tables.erase_within (tables : Tables) (key : EntryKey) (value : EntryValue) :
    EntriesWithin (tables.erase key value) tables :=
  fun h ↦ (tables.erase_entry_get key value h).2

/-! ## Eviction -/

section Evict

variable {ctx : ReserveContext}

theorem TablesInv.deleteStep {acc : Tables × ℕ} (inv : TablesInv ctx acc.1) (target : EvictTarget) :
    TablesInv ctx (deleteStep ctx acc target).1 ∧
      (deleteStep ctx acc target).1.entry.count + (deleteStep ctx acc target).2 =
        acc.1.entry.count + acc.2 ∧
      EntriesWithin (deleteStep ctx acc target).1 acc.1 := by
  rcases inv.deleteEntryInTx_cases target with hnone | ⟨key, value, hget, herase⟩
  · have hstep : DbReserve.deleteStep ctx acc target = acc := by
      simp [DbReserve.deleteStep, hnone]
    rw [hstep]
    exact ⟨inv, rfl, EntriesWithin.refl _⟩
  · have hstep : DbReserve.deleteStep ctx acc target = (acc.1.erase key value, acc.2 + 1) := by
      simp [DbReserve.deleteStep, herase]
    have hcount := Tables.erase_count hget
    rw [hstep]
    refine ⟨inv.erase hget, ?_, Tables.erase_within _ _ _⟩
    dsimp only
    omega

/-- The whole eviction loop, by induction over the targets from any accumulator. -/
theorem TablesInv.foldl_deleteStep (targets : List EvictTarget) :
    ∀ (acc : Tables × ℕ), TablesInv ctx acc.1 →
      TablesInv ctx (targets.foldl (DbReserve.deleteStep ctx) acc).1 ∧
        (targets.foldl (DbReserve.deleteStep ctx) acc).1.entry.count +
            (targets.foldl (DbReserve.deleteStep ctx) acc).2 = acc.1.entry.count + acc.2 ∧
        EntriesWithin (targets.foldl (DbReserve.deleteStep ctx) acc).1 acc.1 := by
  induction targets with
  | nil => exact fun _ inv ↦ ⟨inv, rfl, EntriesWithin.refl _⟩
  | cons target targets ih =>
    intro acc inv
    obtain ⟨hinv, hcount, hwithin⟩ := inv.deleteStep target
    obtain ⟨hinv', hcount', hwithin'⟩ := ih _ hinv
    exact ⟨hinv', hcount'.trans hcount, hwithin'.trans hwithin⟩

variable {reserve : DbReserve}

/-- `evict_entries` keeps the invariant, the in-memory count included, for any targets. -/
theorem ReserveInv.evictEntries (inv : ReserveInv ctx reserve) (targets : List EvictTarget) :
    ReserveInv ctx (reserve.evictEntries ctx targets).2 ∧
      EntriesWithin (reserve.evictEntries ctx targets).2.tables reserve.tables := by
  unfold DbReserve.evictEntries
  split
  · exact ⟨inv, EntriesWithin.refl _⟩
  · obtain ⟨hinv, hcount, hwithin⟩ := inv.tables.foldl_deleteStep targets (reserve.tables, 0)
    refine ⟨⟨hinv, ?_⟩, hwithin⟩
    -- the saturating decrement never saturates: it removes what was counted
    have hreserve := inv.count_eq
    simp only [DbReserve.deleteEntriesInTx] at hcount ⊢
    omega

end Evict

/-! ## Put -/

section Put

variable {ctx : ReserveContext} {tables : Tables} {stamp : Stamp} {chunk : AnyChunk}

/-- A restamp's row deletion, followed by the admitted writes, is the displaced entry's full
erase followed by the same writes: the new slot write overwrites the slot the erase clears. -/
theorem TablesInv.displaced_erase (inv : TablesInv ctx tables) (chunk : AnyChunk)
    {occupant : StampIndexEntry} (hslot : tables.stampIndex.get stamp.slot = some occupant) :
    ∃ key value, tables.entry.get key = some value ∧ value.stamp.slot = stamp.slot ∧
      ∀ next, nextBinid ctx (dropDisplaced ctx tables stamp.batch (some (displacedOf occupant)))
          chunk.address = nextBinid ctx (tables.erase key value) chunk.address ∧
        DbReserve.writeAdmitted ctx (dropDisplaced ctx tables stamp.batch (some (displacedOf occupant)))
          stamp chunk next = DbReserve.writeAdmitted ctx (tables.erase key value) stamp chunk next := by
  obtain ⟨value, hentry, hvslot⟩ := inv.entry_of_slot hslot
  have hdrop : dropDisplaced ctx tables stamp.batch (some (displacedOf occupant)) =
      tables.eraseRows ⟨ctx.proximity occupant.address, stamp.slot.batchId, occupant.stampHash,
        occupant.address⟩ value :=
    congrArg Prod.fst (deleteEntryRowsInTx_of_get hentry)
  have herase : tables.erase ⟨ctx.proximity occupant.address, stamp.slot.batchId,
      occupant.stampHash, occupant.address⟩ value =
      { tables.eraseRows ⟨ctx.proximity occupant.address, stamp.slot.batchId, occupant.stampHash,
          occupant.address⟩ value with
        stampIndex := tables.stampIndex.delete stamp.slot } := by
    rw [Tables.erase, hvslot]
  refine ⟨_, value, hentry, hvslot, fun next ↦ ⟨by rw [hdrop]; rfl, ?_⟩⟩
  rw [hdrop, herase]
  exact writeAdmitted_delete_slot.symm

variable {β ε : Type} (admission : Admission β ε) {reserve : DbReserve}

theorem ReserveInv.put (inv : ReserveInv ctx reserve) (chunk : CachedChunk)
    (hsep : ∀ stamp, chunk.stamp = some stamp → ∀ key value,
      reserve.tables.entry.get key = some value →
        ctx.stampHash value.stamp = ctx.stampHash stamp → value.stamp.slot = stamp.slot) :
    ReserveInv ctx (reserve.put ctx admission chunk).2 ∧
      ∀ {key value}, (reserve.put ctx admission chunk).2.tables.entry.get key = some value →
        reserve.tables.entry.get key = some value ∨ chunk.stamp = some value.stamp := by
  rcases put_cases ctx admission reserve chunk with hsame | ⟨stamp, outcome, tables', hstamp, htx, hput⟩
  · rw [hsame]
    exact ⟨inv, Or.inl⟩
  have hsep' := hsep stamp hstamp
  rw [hput]
  rcases putTx_cases ctx htx with ⟨rfl, rfl⟩ | ⟨hslot, rfl, next, hnext, rfl⟩ |
      ⟨occupant, hslot, -, rfl, next, hnext, rfl⟩
  · -- rejected: nothing written
    exact ⟨⟨inv.tables, inv.count_eq⟩, Or.inl⟩
  · -- admitted into an empty slot: one more entry
    have hfresh := inv.tables.admittedKey_fresh hslot chunk.chunk hsep'
    refine ⟨⟨inv.tables.writeAdmitted hslot hsep' hnext, ?_⟩, fun h ↦ ?_⟩
    · simp only [↓reduceIte]
      rw [writeAdmitted_count hfresh, inv.count_eq]
    · rw [writeAdmitted_entry_get] at h
      split at h
      · cases h
        exact Or.inr hstamp
      · exact Or.inl h
  · -- restamped: the displaced entry is erased and the new one written in its slot
    obtain ⟨key, value, hentry, hvslot, hdrop⟩ := inv.tables.displaced_erase chunk.chunk hslot
    obtain ⟨hnext_eq, hwrite⟩ := hdrop next
    rw [hnext_eq] at hnext
    rw [hwrite]
    have herased := inv.tables.erase hentry
    have hempty : (reserve.tables.erase key value).stampIndex.get stamp.slot = none := by
      simp [Tables.erase, hvslot]
    have hsep'' : ∀ key' value', (reserve.tables.erase key value).entry.get key' = some value' →
        ctx.stampHash value'.stamp = ctx.stampHash stamp → value'.stamp.slot = stamp.slot :=
      fun key' value' h ↦ hsep' key' value' (Tables.erase_within _ _ _ h)
    have hfresh := herased.admittedKey_fresh hempty chunk.chunk hsep''
    refine ⟨⟨herased.writeAdmitted hempty hsep'' hnext, ?_⟩, fun h ↦ ?_⟩
    · -- size-neutral: one entry out, one in
      have hcount := Tables.erase_count hentry
      simp only [reduceCtorEq, ↓reduceIte]
      rw [writeAdmitted_count hfresh, inv.count_eq, ← hcount]
    · rw [writeAdmitted_entry_get] at h
      split at h
      · cases h
        exact Or.inr hstamp
      · exact Or.inl (Tables.erase_within _ _ _ h)

end Put

/-! ## Runs -/

/-- The stamp a verb hands to the reserve: a put's. -/
def ReserveOp.stamp : ReserveOp → Option Stamp
  | .put chunk => chunk.stamp
  | _ => none

/-- The stamps a run presents, in order. -/
def ReserveOp.stamps (ops : List ReserveOp) : List Stamp := ops.filterMap ReserveOp.stamp

/-- Among these stamps the stamp hash separates slots: two stamps of one hash are for the same
`(batch, stampIndex)`.  The stamp hash is keccak over the canonical stamp bytes, which the
source documents as giving a re-stamp under a different batch, index or timestamp a different
hash; a run's stamps are assumed free of keccak collisions to that extent. -/
def HashSeparates (ctx : ReserveContext) (stamps : List Stamp) : Prop :=
  ∀ stamp ∈ stamps, ∀ stamp' ∈ stamps, ctx.stampHash stamp = ctx.stampHash stamp' →
    stamp.slot = stamp'.slot

/-- Every live entry carries one of these stamps. -/
def StampsAmong (stamps : List Stamp) (tables : Tables) : Prop :=
  ∀ {key value}, tables.entry.get key = some value → value.stamp ∈ stamps

section Run

variable {ctx : ReserveContext} {β ε : Type} (admission : Admission β ε) {stamps : List Stamp}

theorem ReserveInv.apply (hsep : HashSeparates ctx stamps) {reserve : DbReserve}
    (inv : ReserveInv ctx reserve) (hamong : StampsAmong stamps reserve.tables) (op : ReserveOp)
    (hop : ∀ stamp, op.stamp = some stamp → stamp ∈ stamps) :
    ReserveInv ctx (ReserveOp.apply ctx admission reserve op) ∧
      StampsAmong stamps (ReserveOp.apply ctx admission reserve op).tables := by
  by_cases hput : ∃ chunk, op = .put chunk
  · obtain ⟨chunk, rfl⟩ := hput
    have hsep' : ∀ stamp, chunk.stamp = some stamp → ∀ key value,
        reserve.tables.entry.get key = some value →
          ctx.stampHash value.stamp = ctx.stampHash stamp → value.stamp.slot = stamp.slot :=
      fun stamp hstamp _ _ h hhash ↦ hsep _ (hamong h) stamp (hop stamp hstamp) hhash
    obtain ⟨hinv, hentries⟩ := inv.put admission chunk hsep'
    refine ⟨hinv, fun h ↦ ?_⟩
    rcases hentries h with hold | hnew
    · exact hamong hold
    · exact hop _ hnew
  · -- every other verb evicts some targets, or does nothing
    rcases ReserveOp.apply_eq_evictEntries ctx admission reserve (fun chunk h ↦ hput ⟨chunk, h⟩)
      with hsame | ⟨targets, hevict⟩
    · rw [hsame]
      exact ⟨inv, hamong⟩
    · rw [hevict]
      obtain ⟨hinv, hwithin⟩ := inv.evictEntries targets
      exact ⟨hinv, fun h ↦ hamong (hwithin h)⟩

/-- A run keeps the invariant, by induction over the verbs from any state that has it. -/
theorem ReserveInv.run (hsep : HashSeparates ctx stamps) :
    ∀ (ops : List ReserveOp) {reserve : DbReserve}, (∀ stamp ∈ ReserveOp.stamps ops, stamp ∈ stamps) →
      ReserveInv ctx reserve → StampsAmong stamps reserve.tables →
      ReserveInv ctx (ReserveOp.run ctx admission reserve ops) ∧
        StampsAmong stamps (ReserveOp.run ctx admission reserve ops).tables
  | [], _, _, inv, hamong => ⟨inv, hamong⟩
  | op :: ops, reserve, hops, inv, hamong => by
    have hop : ∀ stamp, op.stamp = some stamp → stamp ∈ stamps :=
      fun stamp hstamp ↦ hops stamp (by simp [ReserveOp.stamps, hstamp])
    have hrest : ∀ stamp ∈ ReserveOp.stamps ops, stamp ∈ stamps :=
      fun stamp hstamp ↦ hops stamp (by simp_all [ReserveOp.stamps])
    obtain ⟨hinv, hamong'⟩ := inv.apply admission hsep hamong op hop
    exact ReserveInv.run hsep ops hrest hinv hamong'

end Run

/-- The representation invariant holds after every run of reserve verbs from freshly created
tables: entries and batch groups in bijection, entry keys consistent with proximity, batch and
stamp hash, replay rows and entries in bijection through `(bin, binid)`, payload refcounts equal
to entry counts, slots and entries in bijection, and the in-memory size equal to the `Entry`
count. -/
theorem reserveInv_of_run (ctx : ReserveContext) {β ε : Type} (admission : Admission β ε)
    (capacity : UInt64) (ops : List ReserveOp) (hsep : HashSeparates ctx (ReserveOp.stamps ops)) :
    ReserveInv ctx (ReserveOp.run ctx admission (DbReserve.new Tables.empty capacity) ops) :=
  (ReserveInv.run admission hsep ops (fun _ h ↦ h) (ReserveInv.new ctx capacity)
    (fun h ↦ by simp [DbReserve.new, Tables.empty] at h)).1

/-- A reserve context whose stamp hash is the batch id, enough to separate the stamps of
`restampRun`. -/
def batchHashContext : ReserveContext := ⟨fun _ ↦ 0, fun _ ↦ 0, fun stamp ↦ stamp.batch⟩

/-- Admission that knows every batch and passes every stamp. -/
def openAdmission : Admission Unit Unit := ⟨fun _ ↦ some (), fun _ _ _ ↦ .ok ()⟩

/-- A stamped chunk at an address, for batch `batch` at index 0. -/
def stampedAt (address batch timestamp : ℕ) : CachedChunk :=
  ⟨⟨FixedBytes.ofNat 32 address, 0, []⟩,
    some ⟨FixedBytes.ofNat 32 batch, ⟨0, 0⟩, UInt64.ofNat timestamp, FixedBytes.ofNat 65 0⟩⟩

/-- Admit, restamp the slot onto another address, admit under another batch, then evict. -/
def restampRun : List ReserveOp :=
  [.put (stampedAt 1 7 1), .put (stampedAt 2 7 2), .put (stampedAt 1 8 1), .evictFurthest]

theorem restampRun_separates : HashSeparates batchHashContext (ReserveOp.stamps restampRun) := by
  unfold HashSeparates
  decide

theorem reserveInv_of_restampRun :
    HashSeparates batchHashContext (ReserveOp.stamps restampRun) ∧
      ReserveInv batchHashContext
        (ReserveOp.run batchHashContext openAdmission (DbReserve.new Tables.empty 1) restampRun) :=
  ⟨restampRun_separates,
    reserveInv_of_run batchHashContext openAdmission 1 restampRun restampRun_separates⟩

end VertexSwarm.Storer
