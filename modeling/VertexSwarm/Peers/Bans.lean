import VertexSwarm.Peers.Manager

/-!
# How long a ban lasts

`peer-manager/src/{manager,maintenance}.rs`.  A ban is a row of the banned set, keyed by overlay
and carrying its expiry; the peer's record keeps a ban marker of its own.  `tick` lifts a timed
ban whose expiry has passed through `unban`, which emits `Unbanned`.  But `remove_peer` deletes
the overlay from the banned set as well as from the records and the index, silently, and it is
reached from the overlay-mismatch cleanup of an unverified record, from the replacement of a
full bin's worst disconnected member, and from the stale purge.

This module says which operations take an overlay out of the banned set: removal always does
(`isBanned_removePeer_self`), the purge does so for exactly the stale records
(`isBanned_purgeStale`), and only a banned overlay can be announced `Unbanned` by a tick
(`unbanned_mem_tick`).  The last theorem runs the mismatch path from an empty manager.
-/

namespace VertexSwarm.Peers.PeerManager

open BigEndian

variable {σ ε : Type} (config : PeerManagerConfig σ ε)

/-! ## Removal lifts the ban -/

/-- After `remove_peer`, the overlay is no longer banned, and no event says so. -/
theorem isBanned_removePeer_self (s : PeerManager σ) (o : OverlayAddress) :
    (s.removePeer o).isBanned o = false := by
  simp [isBanned]

theorem get_bannedSet_foldl_removePeer (keys : List OverlayAddress) (s : PeerManager σ)
    (o : OverlayAddress) :
    (keys.foldl (fun s k ↦ s.removePeer k) s).bannedSet.get o =
      if o ∈ keys then none else s.bannedSet.get o := by
  -- a run of removals is a run of deletes on the banned set
  have hfold : (keys.foldl (fun s k ↦ s.removePeer k) s).bannedSet =
      keys.foldl (fun table k ↦ table.delete k) s.bannedSet :=
    (List.foldl_hom PeerManager.bannedSet fun _ _ ↦ rfl).symm
  rw [hfold, OrderedTable.get_foldl_delete]

theorem events_foldl_removePeer (keys : List OverlayAddress) (s : PeerManager σ) :
    (keys.foldl (fun s k ↦ s.removePeer k) s).events = s.events := by
  induction keys generalizing s with
  | nil => rfl
  | cons k keys ih => exact ih (s.removePeer k)

theorem isBanned_purgeStale (s : PeerManager σ) (clock : ℕ) (o : OverlayAddress) :
    (s.purgeStale clock).isBanned o = true ↔
      s.isBanned o = true ∧ ∀ e, s.peers.get o = some e → e.isStale clock = false := by
  have hstale : o ∈ (s.peers.rows.filter fun row ↦ row.2.isStale clock).map Prod.fst ↔
      ∃ e, s.peers.get o = some e ∧ e.isStale clock = true := by
    simp [OrderedTable.get_eq_some_iff]
  simp only [purgeStale, isBanned, get_bannedSet_foldl_removePeer]
  by_cases hmem : o ∈ (s.peers.rows.filter fun row ↦ row.2.isStale clock).map Prod.fst
  · obtain ⟨e, hget, he⟩ := hstale.mp hmem
    simp [hmem, hget, he]
  · have hfresh : ∀ e, s.peers.get o = some e → e.isStale clock = false := fun e hget ↦ by
      simpa using fun he ↦ hmem (hstale.mpr ⟨e, hget, he⟩)
    simp only [hmem, if_false]
    exact ⟨fun h ↦ ⟨h, hfresh⟩, And.left⟩

/-! ## Who announces `Unbanned` -/

/-- A run of `unban` calls announces only the overlays it was given. -/
theorem unbanned_mem_foldl_unban {o : OverlayAddress} (keys : List OverlayAddress)
    (s : PeerManager σ)
    (h : .unbanned o ∈ (keys.foldl (fun s k ↦ s.unban config k) s).events) :
    .unbanned o ∈ s.events ∨ o ∈ keys := by
  induction keys generalizing s with
  | nil => exact .inl h
  | cons k keys ih =>
    rcases ih (s.unban config k) h with h | h
    · rw [events_unban] at h
      split at h
      · rcases List.mem_append.mp h with h | h
        · exact .inl h
        · -- the one new event names `k`
          have hk : o = k := by simpa using h
          exact .inr (hk ▸ List.mem_cons_self)
      · exact .inl h
    · exact .inr (List.mem_cons_of_mem k h)

/-- A tick announces `Unbanned` only for an overlay that was banned when it began. -/
theorem unbanned_mem_tick {s : PeerManager σ} {now clock : ℕ} {o : OverlayAddress}
    (h : .unbanned o ∈ (s.tick config now clock).events) :
    .unbanned o ∈ s.events ∨ s.isBanned o = true := by
  simp only [tick, purgeStale, events_foldl_removePeer, expireBans] at h
  rcases unbanned_mem_foldl_unban config _ _ h with h | h
  · exact .inl h
  · -- an expired key is a row of the banned set
    obtain ⟨row, hrow, rfl⟩ := List.mem_map.mp h
    have hrow : (row.1, row.2) ∈ s.bannedSet.rows := (List.mem_filter.mp hrow).1
    exact .inr (Option.isSome_iff_exists.mpr ⟨row.2, OrderedTable.get_eq_some_iff.mpr hrow⟩)

/-! ## The mismatch path from an empty manager

Gossip stores an unverified record of `peer`; the overlay is banned at `clock`, for
`ban_duration`; a dial of its address answers with another overlay, and the unverified record is
removed.  The ban goes with it, before its expiry and without `Unbanned`; the same gossip stores
the record again, the dialable query yields it, and the tick at the expiry announces nothing. -/

theorem ban_lifted_by_overlay_mismatch (proximity : Proximity) (localOverlay : OverlayAddress) (maxPo maxPerBin : ℕ)
    (peer : SwarmPeer) (clock later : ℕ) :
    let o := peer.overlay
    let stored := (new proximity localOverlay maxPo maxPerBin : PeerManager σ).step config
      (.storeDiscoveredPeer peer clock)
    let banned := stored.step config (.ban o clock)
    let cleaned := banned.step config (.onDialedOverlayMismatch o clock)
    let regossiped := cleaned.step config (.storeDiscoveredPeer peer later)
    let expiry := clock + config.banDuration
    banned.bannedSet.get o = some (some expiry) ∧
      cleaned.isBanned o = false ∧
      regossiped.getDialablePeers config [o] later = [peer] ∧
      PeerLifecycleEvent.unbanned o ∉ (regossiped.step config (.tick expiry expiry)).events := by
  intro o stored banned cleaned regossiped expiry
  set entry := PeerEntry.withConfig peer config.scoring.fresh clock
  have hunknown : (new proximity localOverlay maxPo maxPerBin : PeerManager σ).peers.get o = none := rfl
  obtain ⟨index, hadd⟩ : ∃ index,
      (new proximity localOverlay maxPo maxPerBin : PeerManager σ).index.add o = .ok index :=
    ⟨_, ProximityIndex.add_of_room (by simp [ProximityIndex.Holds, new, ProximityIndex.new])
      (by simp [new, ProximityIndex.new])⟩
  have hstored : stored = ⟨index, OrderedTable.empty.put o entry, .empty, []⟩ :=
    (storeDiscoveredPeer_of_unknown config clock hunknown).trans
      (congrArg Prod.snd (insertPeer_of_add config peer clock hunknown hadd))
  have hbanned : banned = { stored with
      bannedSet := stored.bannedSet.put o (some expiry)
      peers := stored.peers.put o { entry with banned := true }
      events := stored.events ++ [.banned o (some expiry)] } :=
    banWithExpiry_of_not_banned (s := stored) (some expiry) (by rw [hstored]; rfl)
      (by rw [hstored]; exact OrderedTable.get_put_self _ _ _) rfl
  -- the record is unverified, so the mismatch removes it, and the ban with it
  have hcleaned : cleaned = banned.removePeer o :=
    onDialedOverlayMismatch_of_unverified (s := banned) clock
      (by rw [hbanned]; exact OrderedTable.get_put_self _ _ _) rfl
  have hunbanned : cleaned.bannedSet.get o = none := by
    rw [hcleaned, bannedSet_removePeer, OrderedTable.get_delete_self]
  -- the index is back to empty, so the same gossip is admitted again
  have hgone : cleaned.peers.get o = none := by
    rw [hcleaned, peers_removePeer, OrderedTable.get_delete_self]
  have hreadd : cleaned.index.add o = .ok index := by
    rw [hcleaned, index_removePeer, hbanned]
    show (stored.index.remove o).2.add o = _
    rw [hstored]
    exact (ProximityIndex.remove_of_add hadd).symm ▸ hadd
  have hregossiped : regossiped = { cleaned with
      index
      peers := cleaned.peers.put o (PeerEntry.withConfig peer config.scoring.fresh later) } :=
    (storeDiscoveredPeer_of_unknown config later hgone).trans
      (congrArg Prod.snd (insertPeer_of_add config peer later hgone hreadd))
  refine ⟨?_, ?_, ?_, ?_⟩
  · rw [hbanned]
    exact OrderedTable.get_put_self _ _ _
  · rw [hcleaned]
    exact isBanned_removePeer_self banned o
  · rw [hregossiped]
    simp [getDialablePeers, isBanned, hunbanned, PeerEntry.isDialable, PeerEntry.isInBackoff,
      PeerEntry.withConfig]
  · intro hmem
    rcases unbanned_mem_tick config hmem with h | h
    · -- the events so far are the one `Banned`
      rw [hregossiped, hcleaned, events_removePeer, hbanned, hstored] at h
      simp at h
    · rw [hregossiped] at h
      simp [isBanned, hunbanned] at h

end VertexSwarm.Peers.PeerManager
