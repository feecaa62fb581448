import VertexSwarm.Lib.FloatOrder
import VertexSwarm.Peers.Manager

/-!
# Peer-set consistency

`peer-manager/src/{manager,maintenance,proximity_index}.rs`.  The manager keeps every known
overlay twice: as a record in `peers`, and as a member of its bin in the proximity index.  Nothing
but the code's discipline keeps the two together: `insert_peer` admits to the index before it
creates the record, `admit` may first remove a victim from the same bin, and `remove_peer` takes
an overlay out of both.

`Consistent` is the invariant: the index is well formed (`ProximityIndex.Wf`) and holds exactly
the overlays on record.  Operations that leave the index and the set of records alone
(`SameMembers`) keep it trivially; the others keep it by `Consistent.removePeer` and
`Consistent.insert`.  So every run from a manager loaded from its snapshot keeps it
(`Consistent.run`), and from it follow the two facts about admission: `insert_peer` refuses a
newcomer only when its bin is full of connected peers, and the victim of a replacement is a
disconnected member, stale whenever some disconnected member is, and scored no higher than any
disconnected member as stale as it: none of them scores strictly lower.  Scores are `f64`, whose
`<` is a strict order though a `NaN` compares with nothing (`FloatOrder`).
-/

namespace VertexSwarm.Peers.PeerManager

open BigEndian

variable {σ ε : Type} (config : PeerManagerConfig σ ε)

/-! ## The invariant -/

/-- The records and the index hold the same overlays, and the index is well formed. -/
structure Consistent (s : PeerManager σ) : Prop where
  wf : s.index.Wf
  isSome_get_iff : ∀ o, (s.peers.get o).isSome ↔ s.index.Holds o

/-- Two states with the same index and the same overlays on record; the bans, the events and
what the records say may differ. -/
def SameMembers (s s' : PeerManager σ) : Prop :=
  s'.index = s.index ∧ ∀ o, (s'.peers.get o).isSome = (s.peers.get o).isSome

@[refl]
theorem SameMembers.refl (s : PeerManager σ) : SameMembers s s := ⟨rfl, fun _ ↦ rfl⟩

theorem SameMembers.trans {s₁ s₂ s₃ : PeerManager σ} (h₁ : SameMembers s₁ s₂)
    (h₂ : SameMembers s₂ s₃) : SameMembers s₁ s₃ :=
  ⟨h₂.1.trans h₁.1, fun o ↦ (h₂.2 o).trans (h₁.2 o)⟩

namespace Consistent

variable {s : PeerManager σ}

theorem of_sameMembers {s' : PeerManager σ} (hc : s.Consistent) (h : SameMembers s s') :
    s'.Consistent where
  wf := h.1 ▸ hc.wf
  isSome_get_iff o := by
    rw [h.2 o, h.1]
    exact hc.isSome_get_iff o

theorem isSome_get_of_mem (hc : s.Consistent) {bin : ℕ} {m : OverlayAddress}
    (hm : m ∈ s.index.bins bin) : (s.peers.get m).isSome :=
  (hc.isSome_get_iff m).mpr ((hc.wf.mem_iff).mp hm).1

theorem get_eq_none_of_add (hc : s.Consistent) {o : OverlayAddress} {index : ProximityIndex}
    (hadd : s.index.add o = .ok index) : s.peers.get o = none := by
  have hfresh := (ProximityIndex.add_eq_ok hadd).1
  simpa [← hc.isSome_get_iff o] using hfresh

theorem removePeer (hc : s.Consistent) (o : OverlayAddress) : (s.removePeer o).Consistent where
  wf := hc.wf.remove o
  isSome_get_iff o' := by
    rw [index_removePeer, hc.wf.holds_remove, peers_removePeer, OrderedTable.get_delete]
    by_cases h : o' = o
    · simp [h]
    · simp [h, hc.isSome_get_iff o']

theorem insert (hc : s.Consistent) {o : OverlayAddress} {index : ProximityIndex}
    (hadd : s.index.add o = .ok index) (e : PeerEntry σ) :
    { s with index, peers := s.peers.put o e }.Consistent where
  wf := hc.wf.add hadd
  isSome_get_iff o' := by
    show ((s.peers.put o e).get o').isSome ↔ index.Holds o'
    rw [ProximityIndex.holds_add hadd]
    by_cases h : o' = o
    · simp [h, OrderedTable.get_put_self]
    · simp [OrderedTable.get_put_of_ne e h, hc.isSome_get_iff o', h]

end Consistent

/-! ## Operations that leave the members alone -/

theorem sameMembers_emit (s : PeerManager σ) (event : PeerLifecycleEvent) :
    SameMembers s (s.emit event) := SameMembers.refl s

theorem sameMembers_put {s : PeerManager σ} {o : OverlayAddress} (h : (s.peers.get o).isSome)
    (e : PeerEntry σ) : SameMembers s { s with peers := s.peers.put o e } :=
  ⟨rfl, OrderedTable.isSome_get_put_of_isSome h e⟩

theorem sameMembers_modifyEntry (s : PeerManager σ) (o : OverlayAddress)
    (f : PeerEntry σ → PeerEntry σ) : SameMembers s (s.modifyEntry o f) := by
  unfold modifyEntry
  split
  · next entry hget => exact sameMembers_put (by simp [hget]) _
  · exact SameMembers.refl s

theorem sameMembers_banWithExpiry (s : PeerManager σ) (o : OverlayAddress) (expiry : Option ℕ) :
    SameMembers s (s.banWithExpiry o expiry) := by
  unfold banWithExpiry
  split
  · exact SameMembers.refl s
  · dsimp only
    split
    · next entry hget =>
      split
      · exact ⟨rfl, OrderedTable.isSome_get_put_of_isSome (by simp [hget]) _⟩
      · exact ⟨rfl, fun _ ↦ rfl⟩
    · exact ⟨rfl, fun _ ↦ rfl⟩

theorem sameMembers_unban (s : PeerManager σ) (o : OverlayAddress) :
    SameMembers s (s.unban config o) := by
  have hmodify := sameMembers_modifyEntry s o fun entry ↦
    { entry with banned := false, score := config.scoring.resetToDisconnect entry.score }
  unfold unban
  dsimp only
  split
  · exact hmodify.trans ⟨rfl, fun _ ↦ rfl⟩
  · exact hmodify

theorem sameMembers_expireBans (s : PeerManager σ) (now : ℕ) :
    SameMembers s (s.expireBans config now) := by
  unfold expireBans
  dsimp only
  -- one `unban` at a time, over whatever keys the expiry scan found
  generalize (s.bannedSet.rows.filter _).map Prod.fst = expired
  induction expired generalizing s with
  | nil => exact SameMembers.refl s
  | cons k expired ih => exact (sameMembers_unban config s k).trans (ih _)

theorem sameMembers_decayScores (s : PeerManager σ) (now : ℕ) :
    SameMembers s (s.decayScores config now) :=
  ⟨rfl, fun o ↦ by simp [decayScores]⟩

theorem sameMembers_reportPeer (s : PeerManager σ) (o : OverlayAddress) (event : ε) (clock : ℕ) :
    SameMembers s (s.reportPeer config o event clock) := by
  unfold reportPeer
  split
  · exact SameMembers.refl s
  · split
    · exact SameMembers.refl s
    · next entry hget =>
      have hon : (s.peers.get o).isSome := by simp [hget]
      obtain ⟨outcome, score⟩ := config.scoring.recordEvent event entry.score
      have hput := sameMembers_put hon { entry with score }
      dsimp only
      cases outcome with
      | ok => exact hput
      | warn => exact hput.trans (sameMembers_emit _ _)
      | disconnect =>
        refine hput.trans ((sameMembers_put ?_ _).trans (sameMembers_emit _ _))
        simp [OrderedTable.get_put_self]
      | ban => exact hput.trans (sameMembers_banWithExpiry _ _ _)

/-! ## The victim scan of `find_replaceable` -/

/-- The scan's best candidate over the overlays `seen` so far: `none` while every one of them on
record is connected; otherwise a disconnected member on record, with its staleness and score,
stale if any disconnected member is, and with no disconnected member as stale as it scoring
strictly lower. -/
def BestOf (s : PeerManager σ) (clock : ℕ) (seen : List OverlayAddress) :
    Option (OverlayAddress × Bool × Float) → Prop
  | none => ∀ m ∈ seen, ∀ e, s.peers.get m = some e → e.isConnected = true
  | some (v, stale, score) =>
    v ∈ seen ∧
      (∃ e, s.peers.get v = some e ∧ e.isConnected = false ∧ e.isStale clock = stale ∧
        config.scoring.value e.score = score) ∧
      ∀ m ∈ seen, ∀ e, s.peers.get m = some e → e.isConnected = false →
        (e.isStale clock = true → stale = true) ∧
        (e.isStale clock = stale → ¬config.scoring.value e.score < score)

section Scan

variable {s : PeerManager σ} {clock : ℕ} {seen : List OverlayAddress} {m : OverlayAddress}
  {e : PeerEntry σ}

/-- A member of `seen ++ [m]` on record is an earlier one, or `m` with its record. -/
theorem mem_append_singleton_of_get {m' : OverlayAddress} {e' : PeerEntry σ}
    (hget : s.peers.get m = some e) (hm' : m' ∈ seen ++ [m]) (hget' : s.peers.get m' = some e') :
    m' ∈ seen ∨ (m' = m ∧ e' = e) := by
  rcases List.mem_append.mp hm' with hm' | hm'
  · exact .inl hm'
  · have hm' := List.mem_singleton.mp hm'
    subst hm'
    exact .inr ⟨rfl, Option.some_injective _ (hget'.symm.trans hget)⟩

theorem BestOf.skip {best : Option (OverlayAddress × Bool × Float)}
    (hbest : BestOf config s clock seen best) (hget : s.peers.get m = some e)
    (hconn : e.isConnected = true) : BestOf config s clock (seen ++ [m]) best := by
  cases best with
  | none =>
    intro m' hm' e' hget'
    rcases mem_append_singleton_of_get hget hm' hget' with hm' | ⟨-, rfl⟩
    · exact hbest m' hm' e' hget'
    · exact hconn
  | some best =>
    obtain ⟨v, stale, score⟩ := best
    obtain ⟨hv, hentry, hall⟩ := hbest
    refine ⟨List.mem_append_left _ hv, hentry, fun m' hm' e' hget' hdisc ↦ ?_⟩
    rcases mem_append_singleton_of_get hget hm' hget' with hm' | ⟨-, rfl⟩
    · exact hall m' hm' e' hget' hdisc
    · simp [hconn] at hdisc

theorem BestOf.first (hbest : BestOf config s clock seen none) (hget : s.peers.get m = some e)
    (hdisc : e.isConnected = false) :
    BestOf config s clock (seen ++ [m]) (some (m, e.isStale clock, config.scoring.value e.score)) := by
  refine ⟨by simp, ⟨e, hget, hdisc, rfl, rfl⟩, fun m' hm' e' hget' hdisc' ↦ ?_⟩
  rcases mem_append_singleton_of_get hget hm' hget' with hm' | ⟨-, rfl⟩
  · -- every earlier member on record is connected
    simp [hbest m' hm' e' hget'] at hdisc'
  · exact ⟨id, fun _ ↦ FloatOrder.lt_irrefl _⟩

theorem BestOf.replace {v : OverlayAddress} {bestStale : Bool} {bestScore : Float}
    (hbest : BestOf config s clock seen (some (v, bestStale, bestScore)))
    (hget : s.peers.get m = some e) (hdisc : e.isConnected = false)
    (hbetter : (e.isStale clock = true ∧ bestStale = false) ∨
      (e.isStale clock = bestStale ∧ config.scoring.value e.score < bestScore)) :
    BestOf config s clock (seen ++ [m]) (some (m, e.isStale clock, config.scoring.value e.score)) := by
  obtain ⟨-, -, hall⟩ := hbest
  refine ⟨by simp, ⟨e, hget, hdisc, rfl, rfl⟩, fun m' hm' e' hget' hdisc' ↦ ?_⟩
  rcases mem_append_singleton_of_get hget hm' hget' with hm' | ⟨-, rfl⟩
  · obtain ⟨hstale, hle⟩ := hall m' hm' e' hget' hdisc'
    rcases hbetter with ⟨hst, hfresh⟩ | ⟨hst, hlt⟩
    · -- the best was fresh, so no earlier disconnected member was stale
      refine ⟨fun _ ↦ hst, fun h ↦ ?_⟩
      have := hstale (h.trans hst)
      simp [hfresh] at this
    · exact ⟨fun h ↦ hst.trans (hstale h),
        fun h hlt' ↦ hle (h.trans hst) (FloatOrder.lt_trans hlt' hlt)⟩
  · exact ⟨id, fun _ ↦ FloatOrder.lt_irrefl _⟩

theorem BestOf.keep {v : OverlayAddress} {bestStale : Bool} {bestScore : Float}
    (hbest : BestOf config s clock seen (some (v, bestStale, bestScore)))
    (hget : s.peers.get m = some e)
    (hworse : ¬((e.isStale clock = true ∧ bestStale = false) ∨
      (e.isStale clock = bestStale ∧ config.scoring.value e.score < bestScore))) :
    BestOf config s clock (seen ++ [m]) (some (v, bestStale, bestScore)) := by
  obtain ⟨hv, hentry, hall⟩ := hbest
  refine ⟨List.mem_append_left _ hv, hentry, fun m' hm' e' hget' hdisc' ↦ ?_⟩
  rcases mem_append_singleton_of_get hget hm' hget' with hm' | ⟨-, rfl⟩
  · exact hall m' hm' e' hget' hdisc'
  · refine ⟨fun h ↦ ?_, fun h hlt ↦ hworse (.inr ⟨h, hlt⟩)⟩
    -- a stale member that did not win means the best is stale too
    cases bestStale
    · exact absurd (.inl ⟨h, rfl⟩) hworse
    · rfl

theorem bestOf_findReplaceableFrom {l : List OverlayAddress}
    {best : Option (OverlayAddress × Bool × Float)} {v : OverlayAddress}
    (hbest : BestOf config s clock seen best) (hrec : ∀ m ∈ l, (s.peers.get m).isSome)
    (h : s.findReplaceableFrom config clock best l = some v) :
    ∃ stale score, BestOf config s clock (seen ++ l) (some (v, stale, score)) := by
  induction l generalizing seen best with
  | nil =>
    obtain ⟨⟨v', stale, score⟩, hb, hv⟩ := Option.map_eq_some_iff.mp h
    subst hb hv
    exact ⟨stale, score, by simpa using hbest⟩
  | cons m rest ih =>
    obtain ⟨e, hget⟩ := Option.isSome_iff_exists.mp (hrec m List.mem_cons_self)
    have hrest : ∀ m' ∈ rest, (s.peers.get m').isSome :=
      fun m' hm' ↦ hrec m' (List.mem_cons_of_mem m hm')
    rw [← List.singleton_append, ← List.append_assoc]
    simp only [findReplaceableFrom, hget] at h
    split at h
    · next hconn => exact ih (hbest.skip config hget hconn) hrest h
    · next hconn =>
      have hdisc : e.isConnected = false := by simpa using hconn
      cases best with
      | none => exact ih (hbest.first config hget hdisc) hrest (by simpa using h)
      | some best =>
        obtain ⟨v', bestStale, bestScore⟩ := best
        dsimp only at h
        split at h
        · next hbetter =>
          exact ih (hbest.replace config hget hdisc (by simpa using hbetter)) hrest h
        · next hworse =>
          exact ih (hbest.keep config hget (by simpa using hworse)) hrest h

theorem findReplaceableFrom_eq_none {l : List OverlayAddress}
    {best : Option (OverlayAddress × Bool × Float)}
    (h : s.findReplaceableFrom config clock best l = none) :
    best = none ∧ ∀ m ∈ l, ∃ e, s.peers.get m = some e ∧ e.isConnected = true := by
  induction l generalizing best with
  | nil => exact ⟨Option.map_eq_none_iff.mp h, by simp⟩
  | cons m rest ih =>
    simp only [findReplaceableFrom] at h
    split at h
    · simp at h
    · next e hget =>
      split at h
      · next hconn =>
        obtain ⟨hbest, hall⟩ := ih h
        refine ⟨hbest, fun m' hm' ↦ ?_⟩
        rcases List.mem_cons.mp hm' with rfl | hm'
        · exact ⟨e, hget, hconn⟩
        · exact hall m' hm'
      · -- a disconnected member always leaves a candidate
        have hnone := (ih h).1
        cases best with
        | none => simp at hnone
        | some best =>
          obtain ⟨v', bestStale, bestScore⟩ := best
          dsimp only at hnone
          split at hnone <;> cases hnone

end Scan

namespace Consistent

variable {s : PeerManager σ}

theorem victim (hc : s.Consistent) {bin clock : ℕ} {v : OverlayAddress}
    (h : s.findReplaceable config bin clock = some v) :
    v ∈ s.index.bins bin ∧ ∃ e, s.peers.get v = some e ∧ e.isConnected = false ∧
      ∀ m ∈ s.index.bins bin, ∀ em, s.peers.get m = some em → em.isConnected = false →
        (em.isStale clock = true → e.isStale clock = true) ∧
        (em.isStale clock = e.isStale clock →
          ¬config.scoring.value em.score < config.scoring.value e.score) := by
  rw [findReplaceable, hc.wf.peersInBin_eq] at h
  have hnone : BestOf config s clock [] none := fun m hm ↦ by simp at hm
  obtain ⟨stale, score, hv, ⟨e, hget, hdisc, rfl, rfl⟩, hall⟩ :=
    bestOf_findReplaceableFrom config hnone (fun m hm ↦ hc.isSome_get_of_mem hm) h
  rw [List.nil_append] at hv hall
  exact ⟨hv, e, hget, hdisc, hall⟩

/-- `admit` of an overlay not on record either refuses, leaving the state, because the bin is
full and every member is connected, or admits it into the index of a consistent state: the
state itself, or the state without the victim. -/
theorem admit_cases (hc : s.Consistent) {o : OverlayAddress} (hget : s.peers.get o = none)
    (clock : ℕ) :
    ( PeerManager.admit config s o clock = (false, s) ∧ 0 < s.index.maxPerBin ∧
        s.index.maxPerBin ≤ (s.index.bins (s.index.binFor o)).length ∧
        ∀ m ∈ s.index.bins (s.index.binFor o), ∃ e, s.peers.get m = some e ∧ e.isConnected = true) ∨
      ∃ (s₀ : PeerManager σ) (index : ProximityIndex), s₀.Consistent ∧ s₀.index.add o = .ok index ∧
         PeerManager.admit config s o clock = (true, { s₀ with index }) := by
  have hfresh : ¬s.index.Holds o := fun hheld ↦ by
    simpa [hget] using (hc.isSome_get_iff o).mpr hheld
  cases hadd : s.index.add o with
  | ok index => exact .inr ⟨s, index, hc, hadd, by simp only [ PeerManager.admit, hadd]⟩
  | error err =>
    cases err with
    | alreadyPresent => exact absurd (ProximityIndex.holds_of_add_eq_alreadyPresent hadd) hfresh
    | binFull =>
      obtain ⟨-, hcap, hfull⟩ := ProximityIndex.full_of_add_eq_binFull hadd
      cases hfind : s.findReplaceable config (s.index.binFor o) clock with
      | none =>
        refine .inl ⟨by simp only [ PeerManager.admit, hadd, hfind], hcap, hfull, ?_⟩
        rw [findReplaceable, hc.wf.peersInBin_eq] at hfind
        exact (findReplaceableFrom_eq_none config hfind).2
      | some victim =>
        -- the victim is a member of the full bin, so removing it makes room
        have hvictim := (hc.wf.mem_iff).mp (hc.victim config hfind).1
        have hlen := ProximityIndex.length_bin_remove hvictim.1
        have hle := hc.wf.length_le hcap (s.index.binFor o)
        rw [hvictim.2] at hlen
        have hout : ¬(s.removePeer victim).index.Holds o := by
          rw [index_removePeer, hc.wf.holds_remove]
          exact fun h ↦ hfresh h.1
        have hroom : 0 < (s.removePeer victim).index.maxPerBin →
            ((s.removePeer victim).index.bins ((s.removePeer victim).index.binFor o)).length <
              (s.removePeer victim).index.maxPerBin := by
          rw [index_removePeer, ProximityIndex.maxPerBin_remove, ProximityIndex.binFor_remove, hlen]
          omega
        have hadd₁ := ProximityIndex.add_of_room hout hroom
        exact .inr ⟨s.removePeer victim, _, hc.removePeer victim, hadd₁,
          by simp only [ PeerManager.admit, hadd, hfind, hadd₁]⟩

/-- `insert_peer` refreshes a known record, refuses leaving the state because the newcomer's bin
is full of connected peers, or creates the record in a consistent state whose index takes it. -/
theorem insertPeer_cases (hc : s.Consistent) (o : OverlayAddress) (peer : SwarmPeer)
    (clock : ℕ) :
    (SameMembers s (s.insertPeer config o peer clock).2 ∧
        (s.insertPeer config o peer clock).1 = true) ∨
      (s.insertPeer config o peer clock = (false, s) ∧ 0 < s.index.maxPerBin ∧
        s.index.maxPerBin ≤ (s.index.bins (s.index.binFor o)).length ∧
        ∀ m ∈ s.index.bins (s.index.binFor o), ∃ e, s.peers.get m = some e ∧ e.isConnected = true) ∨
      ∃ (s₀ : PeerManager σ) (index : ProximityIndex), s₀.Consistent ∧ s₀.index.add o = .ok index ∧
        s.insertPeer config o peer clock =
          (true, { s₀ with
            index
            peers := s₀.peers.put o (PeerEntry.withConfig peer config.scoring.fresh clock) }) := by
  cases hget : s.peers.get o with
  | some existing =>
    have hrefresh : s.insertPeer config o peer clock =
        (true, { s with peers := s.peers.put o (existing.updateAddresses peer clock) }) := by
      simp only [insertPeer, hget]
    rw [hrefresh]
    exact .inl ⟨sameMembers_put (by simp [hget]) _, rfl⟩
  | none =>
    rcases hc.admit_cases config hget clock with ⟨hadmitted, hfacts⟩ | ⟨s₀, index, hc₀, hadd, hadmitted⟩
    · exact .inr (.inl ⟨by simp only [insertPeer, hget, hadmitted], hfacts⟩)
    · have hget₀ := hc₀.get_eq_none_of_add hadd
      exact .inr (.inr ⟨s₀, index, hc₀, hadd, by simp only [insertPeer, hget, hadmitted, hget₀]⟩)

theorem insertPeer (hc : s.Consistent) (o : OverlayAddress) (peer : SwarmPeer) (clock : ℕ) :
    (s.insertPeer config o peer clock).2.Consistent := by
  rcases hc.insertPeer_cases config o peer clock with ⟨hsame, -⟩ | ⟨h, -⟩ | ⟨s₀, index, hc₀, hadd, h⟩
  · exact hc.of_sameMembers hsame
  · rw [h]
    exact hc
  · rw [h]
    exact hc₀.insert hadd _

theorem storeDiscoveredPeer (hc : s.Consistent) (peer : SwarmPeer) (clock : ℕ) :
    (s.storeDiscoveredPeer config peer clock).Consistent := by
  unfold PeerManager.storeDiscoveredPeer
  split
  · next entry hget =>
    split
    · exact hc
    · exact hc.of_sameMembers (sameMembers_put (by simp [hget]) _)
  · exact hc.insertPeer config _ _ _

theorem onPeerConnected (hc : s.Consistent) (peer : SwarmPeer) (clock : ℕ) :
    (s.onPeerConnected config peer clock).Consistent := by
  have hinsert := hc.insertPeer config peer.overlay peer clock
  unfold PeerManager.onPeerConnected
  split
  · next s' h =>
    rw [h] at hinsert
    exact hinsert
  · next s' h =>
    rw [h] at hinsert
    -- the new record is stamped, announced and scored: none of it moves a member
    exact hinsert.of_sameMembers ((sameMembers_modifyEntry _ _ _).trans
      ((sameMembers_emit _ _).trans (sameMembers_reportPeer config _ _ _ _)))

theorem onDialedOverlayMismatch (hc : s.Consistent) (o : OverlayAddress) (clock : ℕ) :
    (s.onDialedOverlayMismatch o clock).Consistent := by
  unfold PeerManager.onDialedOverlayMismatch
  split
  · exact hc
  · split
    · exact hc.of_sameMembers (sameMembers_modifyEntry _ _ _)
    · exact hc.removePeer o

theorem purgeStale (hc : s.Consistent) (clock : ℕ) : (s.purgeStale clock).Consistent := by
  unfold PeerManager.purgeStale
  dsimp only
  generalize (s.peers.rows.filter _).map Prod.fst = stale
  induction stale generalizing s with
  | nil => exact hc
  | cons o stale ih => exact ih (hc.removePeer o)

theorem tick (hc : s.Consistent) (now clock : ℕ) : (s.tick config now clock).Consistent :=
  (hc.of_sameMembers ((sameMembers_decayScores config s now).trans
    (sameMembers_expireBans config _ now))).purgeStale clock

theorem loadFromStore (hc : s.Consistent) (records : List PeerSnapshot) (clock : ℕ) :
    (s.loadFromStore config records clock).Consistent := by
  unfold PeerManager.loadFromStore
  induction records generalizing s with
  | nil => exact hc
  | cons snapshot records ih =>
    rw [List.foldl_cons]
    apply ih
    split
    · next index hadd => exact hc.insert hadd _
    · exact hc

theorem step (hc : s.Consistent) (op : PeerOp ε) : (s.step config op).Consistent := by
  cases op with
  | storeDiscoveredPeer peer clock => exact hc.storeDiscoveredPeer config peer clock
  | onPeerConnected peer clock => exact hc.onPeerConnected config peer clock
  | onPeerDisconnected o =>
    exact hc.of_sameMembers ((sameMembers_modifyEntry _ _ _).trans (sameMembers_emit _ _))
  | onDialedOverlayMismatch o clock => exact hc.onDialedOverlayMismatch o clock
  | reportPeer o event clock => exact hc.of_sameMembers (sameMembers_reportPeer config _ _ _ _)
  | recordDialFailure o clock => exact hc.of_sameMembers (sameMembers_modifyEntry _ _ _)
  | ban o clock => exact hc.of_sameMembers (sameMembers_banWithExpiry _ _ _)
  | banPermanent o => exact hc.of_sameMembers (sameMembers_banWithExpiry _ _ _)
  | tick now clock => exact hc.tick config now clock

theorem run (hc : s.Consistent) (ops : List (PeerOp ε)) : (s.run config ops).Consistent := by
  induction ops using List.reverseRecOn with
  | nil => exact hc
  | append_singleton ops op ih =>
    rw [run_append_singleton]
    exact ih.step config op

end Consistent

/-! ## Every run from a loaded manager -/

end VertexSwarm.Peers.PeerManager
