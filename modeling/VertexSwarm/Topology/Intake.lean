import VertexSwarm.Lib.LruCache
import VertexSwarm.Lib.FixedWindow

/-!
# The gossip intake

`topology/src/gossip/intake.rs`, `GossipIntake`: the gate a gossiped peer record passes before
it is stored as a dialable peer.  A record with no multiaddr, or whose first multiaddr names no
peer, is refused; a record identical to the stored one is skipped as already known; a record
whose overlay was processed with the same multiaddrs less than a cooldown ago is refused; and
each gossiper has at most `max_records_per_gossiper` records admitted in a fixed window of one
cooldown.  The cooldowns and the budgets live in LRU caches of bounded count.

Two results over every run.  While the run's gossipers fit in their cache, each gossiper's
budget is a fixed-window counter over the records charged to it, so no gossiper has more than
twice its budget admitted within any span of one cooldown (`gossiper_admissions_bounded`).  While
the run's overlays fit in theirs, the cooldown cache holds each overlay's last processing, and a
record is refused for the cooldown exactly when its overlay was last processed with the same
multiaddrs less than a cooldown ago (`cooldown_refusal_iff`).

Instants are nanoseconds, and `duration_since` saturates, as ℕ subtraction does.  Which
multiaddr names a peer (`extract_peer_id`) and the multiaddr hash are parameters, and so is the
LRU cache (`LruCacheImpl`), given by its documented behaviour; the gauges are left out.
-/

namespace VertexSwarm.Topology

open Projection

/-- `SwarmPeer`, as far as the intake reads it: the multiaddrs, the signature and the overlay. -/
structure SwarmPeer (α σ ω : Type) where
  multiaddrs : List α
  signature : σ
  overlay : ω

/-- `CooldownState`: when the overlay was last processed, and its multiaddrs' fingerprint. -/
structure CooldownState where
  lastProcessed : ℕ
  addrsFingerprint : UInt64
deriving DecidableEq

/-- `GossiperBudget`: the gossiper's window start and admissions in the window. -/
structure GossiperBudget where
  windowStart : ℕ
  admitted : ℕ
deriving DecidableEq

/-- `GossipConfig`, the fields the intake reads. -/
structure GossipConfig where
  recordCooldown : ℕ
  maxRecordsPerGossiper : ℕ
  maxTrackedGossipers : ℕ
  maxTrackedCooldowns : ℕ

/-- `GossipCheckError`. -/
inductive GossipCheckError where
  | noMultiaddrs
  | noPeerId
  | gossiperRateLimited
  | cooldownActive
deriving DecidableEq

/-- `GossipCheckOk`. -/
inductive GossipCheckOk where
  | alreadyKnown
  | admitted
deriving DecidableEq

/-- `GossipIntake`, over an implementation `L` of the LRU caches. -/
structure GossipIntake (ω : Type) [DecidableEq ω] (L : LruCacheImpl ω) where
  cooldowns : L.Cache CooldownState
  gossipers : L.Cache GossiperBudget
  cooldown : ℕ
  maxRecordsPerGossiper : ℕ

section Model

variable {α σ ω : Type} [DecidableEq α] [DecidableEq σ] [DecidableEq ω] {L : LruCacheImpl ω}

/-- `multiaddrs_fingerprint`: the XOR of the multiaddrs' hashes, blind to their order. -/
def multiaddrsFingerprint (hash : α → UInt64) (peer : SwarmPeer α σ ω) : UInt64 :=
  (peer.multiaddrs.map hash).foldl (· ^^^ ·) 0

/-- `has_matching_multiaddr`: some gossiped multiaddr is in the existing record. -/
def hasMatchingMultiaddr (existing gossiped : SwarmPeer α σ ω) : Bool :=
  gossiped.multiaddrs.any fun addr ↦ existing.multiaddrs.contains addr

namespace GossipIntake

/-- `GossipIntake::new`. -/
def new (L : LruCacheImpl ω) (config : GossipConfig) : GossipIntake ω L :=
  ⟨L.new config.maxTrackedCooldowns, L.new config.maxTrackedGossipers, config.recordCooldown,
    config.maxRecordsPerGossiper⟩

/-- `touch_cooldown`: restart the overlay's cooldown clock with the given fingerprint. -/
def touchCooldown (self : GossipIntake ω L) (overlay : ω) (now : ℕ) (fingerprint : UInt64) :
    GossipIntake ω L :=
  { self with cooldowns := L.insert self.cooldowns overlay ⟨now, fingerprint⟩ }

/-- `charge_gossiper`: charge one admission against the gossiper's window budget.  The entry is
inserted when missing; `get_mut` moves it to the newest end, where writing it back leaves it, so
the write is an insert of the key. -/
def chargeGossiper (self : GossipIntake ω L) (gossiper : ω) (now : ℕ) :
    Except GossipCheckError Unit × GossipIntake ω L :=
  let looked := L.get self.gossipers gossiper
  let gossipers :=
    if looked.1.isNone then L.insert looked.2 gossiper ⟨now, 0⟩ else looked.2
  match L.get gossipers gossiper with
  | (none, gossipers) => (.ok (), { self with gossipers })
  | (some budget, gossipers) =>
    let budget : GossiperBudget :=
      if self.cooldown ≤ now - budget.windowStart then ⟨now, 0⟩ else budget
    if self.maxRecordsPerGossiper ≤ budget.admitted then
      (.error .gossiperRateLimited, { self with gossipers := L.insert gossipers gossiper budget })
    else
      (.ok (), { self with
        gossipers := L.insert gossipers gossiper ⟨budget.windowStart, budget.admitted + 1⟩ })

/-- `check_gossip`, at the instant `now`. -/
def checkGossip (hasPeerId : α → Bool) (hash : α → UInt64) (self : GossipIntake ω L)
    (gossipedPeer : SwarmPeer α σ ω) (gossiper : ω) (existingPeer : Option (SwarmPeer α σ ω))
    (now : ℕ) : Except GossipCheckError GossipCheckOk × GossipIntake ω L :=
  match gossipedPeer.multiaddrs.head? with
  | none => (.error .noMultiaddrs, self)
  | some firstAddr =>
    if !hasPeerId firstAddr then (.error .noPeerId, self)
    else
      let overlay := gossipedPeer.overlay
      let fingerprint := multiaddrsFingerprint hash gossipedPeer
      if existingPeer.any fun existing ↦
          existing.signature = gossipedPeer.signature && hasMatchingMultiaddr existing gossipedPeer then
        (.ok .alreadyKnown, self.touchCooldown overlay now fingerprint)
      else
        let looked := L.get self.cooldowns overlay
        let self := { self with cooldowns := looked.2 }
        if looked.1.any fun state ↦
            state.addrsFingerprint = fingerprint && decide (now - state.lastProcessed < self.cooldown) then
          (.error .cooldownActive, self)
        else
          match self.chargeGossiper gossiper now with
          | (.error e, self) => (.error e, self)
          | (.ok (), self) => (.ok .admitted, self.touchCooldown overlay now fingerprint)

end GossipIntake

/-- One gossiped record handed to the intake: the record, who gossiped it, the stored record
for its overlay, and the instant. -/
structure Check (α σ ω : Type) where
  peer : SwarmPeer α σ ω
  gossiper : ω
  existing : Option (SwarmPeer α σ ω)
  now : ℕ

namespace GossipIntake

variable (hasPeerId : α → Bool) (hash : α → UInt64)

/-- One check. -/
def step (self : GossipIntake ω L) (check : Check α σ ω) :
    Except GossipCheckError GossipCheckOk × GossipIntake ω L :=
  self.checkGossip hasPeerId hash check.peer check.gossiper check.existing check.now

/-- A run of checks: each with its verdict, and the intake after them. -/
def run (self : GossipIntake ω L) (checks : List (Check α σ ω)) :
    List (Check α σ ω × Except GossipCheckError GossipCheckOk) × GossipIntake ω L :=
  runLog (step hasPeerId hash) self checks

end GossipIntake

/-! ## One check -/

/-- A gossiper's budget, as the fixed window it keeps. -/
def GossiperBudget.window (budget : GossiperBudget) : FixedWindow.Window :=
  ⟨budget.windowStart, budget.admitted⟩

namespace GossipIntake

section Charge

variable (self : GossipIntake ω L) (gossiper : ω) (now : ℕ)

theorem chargeGossiper_snd :
    (self.chargeGossiper gossiper now).2 =
      { self with gossipers := (self.chargeGossiper gossiper now).2.gossipers } := by
  unfold chargeGossiper
  dsimp only
  split
  · rfl
  · split_ifs <;> rfl

theorem chargeGossiper_fst_or :
    (self.chargeGossiper gossiper now).1 = .ok () ∨
      (self.chargeGossiper gossiper now).1 = .error .gossiperRateLimited := by
  unfold chargeGossiper
  dsimp only
  split
  · exact .inl rfl
  · split_ifs <;> simp

/-- The budgets after the first read of a charge, and the budget missing ones insert. -/
def firstBudgets (self : GossipIntake ω L) (gossiper : ω) (now : ℕ) : L.Cache GossiperBudget :=
  if (L.get self.gossipers gossiper).1.isNone then
    L.insert (L.get self.gossipers gossiper).2 gossiper ⟨now, 0⟩
  else (L.get self.gossipers gossiper).2

/-- The budget the gossiper is charged against, renewed when its window is a cooldown old. -/
def renewedBudget (self : GossipIntake ω L) (gossiper : ω) (now : ℕ) : GossiperBudget :=
  let budget := (L.lookup self.gossipers gossiper).getD ⟨now, 0⟩
  if self.cooldown ≤ now - budget.windowStart then ⟨now, 0⟩ else budget

theorem chargeGossiper_eq (hfirst : L.lookup (self.firstBudgets gossiper now) gossiper =
      some ((L.lookup self.gossipers gossiper).getD ⟨now, 0⟩)) :
    self.chargeGossiper gossiper now =
      let budget := self.renewedBudget gossiper now
      let budgets := (L.get (self.firstBudgets gossiper now) gossiper).2
      if self.maxRecordsPerGossiper ≤ budget.admitted then
        (.error .gossiperRateLimited, { self with gossipers := L.insert budgets gossiper budget })
      else
        (.ok (), { self with
          gossipers := L.insert budgets gossiper ⟨budget.windowStart, budget.admitted + 1⟩ }) := by
  have hget : L.get (self.firstBudgets gossiper now) gossiper =
      (some ((L.lookup self.gossipers gossiper).getD ⟨now, 0⟩),
        (L.get (self.firstBudgets gossiper now) gossiper).2) := by
    rw [Prod.ext_iff, L.get_fst_eq_lookup, hfirst]
    exact ⟨rfl, rfl⟩
  unfold chargeGossiper
  dsimp only
  rw [show (if (L.get self.gossipers gossiper).1.isNone then
      L.insert (L.get self.gossipers gossiper).2 gossiper ⟨now, 0⟩
    else (L.get self.gossipers gossiper).2) = self.firstBudgets gossiper now from rfl, hget]
  rfl

theorem lookup_firstBudgets (hroom : L.HasRoom self.gossipers gossiper) (k : ω) :
    L.lookup (self.firstBudgets gossiper now) k =
      if k = gossiper then some ((L.lookup self.gossipers gossiper).getD ⟨now, 0⟩)
      else L.lookup self.gossipers k := by
  unfold firstBudgets
  cases hlook : L.lookup self.gossipers gossiper with
  | none =>
    rw [L.get_fst_eq_lookup, hlook]
    simp only [Option.isNone_none, if_true]
    rw [LruCacheImpl.lookup_insert_of_hasRoom (hroom.get gossiper), L.lookup_get]
    rfl
  | some budget =>
    rw [L.get_fst_eq_lookup, hlook]
    simp only [Option.isNone_some, Bool.false_eq_true, if_false, L.lookup_get]
    split_ifs with hk
    · rw [hk, hlook]
      rfl
    · rfl

theorem window_renewedBudget :
    (self.renewedBudget gossiper now).window = FixedWindow.renew self.cooldown
      ((L.lookup self.gossipers gossiper).map GossiperBudget.window) now := by
  unfold renewedBudget FixedWindow.renew
  cases L.lookup self.gossipers gossiper <;>
  · dsimp only [Option.map_none, Option.map_some, Option.getD_none, Option.getD_some,
      GossiperBudget.window]
    split_ifs <;> rfl

/-- With room for the gossiper, a charge is a request to the gossiper's fixed window: the
verdict is the window's, the gossiper's budget becomes the window after the request, and every
other budget is kept. -/
theorem chargeGossiper_spec (hroom : L.HasRoom self.gossipers gossiper) :
    let request := FixedWindow.request self.cooldown self.maxRecordsPerGossiper
      ((L.lookup self.gossipers gossiper).map GossiperBudget.window) now
    (self.chargeGossiper gossiper now).1 =
        (if request.1 then .ok () else .error .gossiperRateLimited) ∧
      ∀ k, (L.lookup (self.chargeGossiper gossiper now).2.gossipers k).map GossiperBudget.window =
        if k = gossiper then some request.2 else (L.lookup self.gossipers k).map GossiperBudget.window := by
  intro request
  have hfirst := lookup_firstBudgets self gossiper now hroom
  -- the write goes under a key the second read found, so it has room
  have hroom' : L.HasRoom (L.get (self.firstBudgets gossiper now) gossiper).2 gossiper :=
    .inl ((L.mem_keys_get _ _ _).mpr
      (LruCacheImpl.mem_keys_iff_lookup_isSome.mpr (by simp [hfirst])))
  have hrequest : request = if self.maxRecordsPerGossiper ≤ (self.renewedBudget gossiper now).admitted
      then (false, (self.renewedBudget gossiper now).window)
      else (true, ⟨(self.renewedBudget gossiper now).windowStart,
        (self.renewedBudget gossiper now).admitted + 1⟩) := by
    simp only [request, FixedWindow.request, ← window_renewedBudget]
    rfl
  rw [chargeGossiper_eq self gossiper now (by simp [hfirst]), hrequest]
  -- either way the write puts the gossiper's budget back, where the read found it
  have hwrite : ∀ budget : GossiperBudget, ∀ k,
      (L.lookup (L.insert (L.get (self.firstBudgets gossiper now) gossiper).2 gossiper budget) k).map
        GossiperBudget.window =
        if k = gossiper then some budget.window else (L.lookup self.gossipers k).map GossiperBudget.window := by
    intro budget k
    rw [LruCacheImpl.lookup_insert_of_hasRoom hroom', L.lookup_get, hfirst]
    split_ifs <;> rfl
  by_cases hfull : self.maxRecordsPerGossiper ≤ (self.renewedBudget gossiper now).admitted
  · simp only [hfull, if_true, Bool.false_eq_true, if_false]
    exact ⟨trivial, hwrite _⟩
  · simp only [hfull, if_true, if_false]
    exact ⟨trivial, hwrite _⟩

theorem mem_keys_chargeGossiper (hroom : L.HasRoom self.gossipers gossiper) {k : ω}
    (h : k ∈ L.keys (self.chargeGossiper gossiper now).2.gossipers) :
    k = gossiper ∨ k ∈ L.keys self.gossipers := by
  have hfirst := lookup_firstBudgets self gossiper now hroom
  rw [chargeGossiper_eq self gossiper now (by simp [hfirst])] at h
  dsimp only at h
  have hk : k = gossiper ∨ k ∈ L.keys (self.firstBudgets gossiper now) := by
    split_ifs at h <;>
    · rcases LruCacheImpl.mem_keys_insert h with rfl | hk
      · exact .inl rfl
      · exact .inr ((L.mem_keys_get _ _ _).mp hk)
  rcases hk with rfl | hk
  · exact .inl rfl
  · by_cases hkey : k = gossiper
    · exact .inl hkey
    · right
      rw [LruCacheImpl.mem_keys_iff_lookup_isSome, hfirst, if_neg hkey] at hk
      exact LruCacheImpl.mem_keys_iff_lookup_isSome.mpr hk


theorem capacity_firstBudgets :
    L.capacity (self.firstBudgets gossiper now) = L.capacity self.gossipers := by
  unfold firstBudgets
  split_ifs <;> simp

@[simp]
theorem capacity_chargeGossiper :
    L.capacity (self.chargeGossiper gossiper now).2.gossipers = L.capacity self.gossipers := by
  have hread := L.capacity_get (self.firstBudgets gossiper now) gossiper
  rw [capacity_firstBudgets] at hread
  unfold chargeGossiper
  dsimp only
  rw [show (if (L.get self.gossipers gossiper).1.isNone then
      L.insert (L.get self.gossipers gossiper).2 gossiper ⟨now, 0⟩
    else (L.get self.gossipers gossiper).2) = self.firstBudgets gossiper now from rfl]
  split
  · next got hget => rw [← hread, hget]
  · next budget got hget =>
    rw [hget] at hread
    split_ifs <;> simp [hread]

end Charge

section Check

variable (hasPeerId : α → Bool) (hash : α → UInt64) (self : GossipIntake ω L) (check : Check α σ ω)

/-- Whether a verdict charged the gossiper: an admission, or a refusal for its budget. -/
def charged : Except GossipCheckError GossipCheckOk → Bool
  | .ok .admitted | .error .gossiperRateLimited => true
  | _ => false

/-- Whether a verdict admitted the record. -/
def admits : Except GossipCheckError GossipCheckOk → Bool
  | .ok .admitted => true
  | _ => false

/-- The outcomes of a check: refused for its shape; skipped as already known; refused for the
cooldown; or charged to its gossiper, and then admitted or refused for the budget. -/
theorem step_cases :
    let result := step hasPeerId hash self check
    let overlay := check.peer.overlay
    let fingerprint := multiaddrsFingerprint hash check.peer
    let identical := check.existing.any fun existing ↦
      existing.signature = check.peer.signature && hasMatchingMultiaddr existing check.peer
    let cooling := (L.lookup self.cooldowns overlay).any fun state ↦
      state.addrsFingerprint = fingerprint && decide (check.now - state.lastProcessed < self.cooldown)
    let looked : GossipIntake ω L := { self with cooldowns := (L.get self.cooldowns overlay).2 }
    let charge := looked.chargeGossiper check.gossiper check.now
    (check.peer.multiaddrs.head?.any hasPeerId = false ∧ result.2 = self ∧
        (result.1 = .error .noMultiaddrs ∨ result.1 = .error .noPeerId)) ∨
    check.peer.multiaddrs.head?.any hasPeerId = true ∧
      ((identical = true ∧
          result = (.ok .alreadyKnown, self.touchCooldown overlay check.now fingerprint)) ∨
        (identical = false ∧ cooling = true ∧ result = (.error .cooldownActive, looked)) ∨
        (identical = false ∧ cooling = false ∧ charge.1 = .ok () ∧
          result = (.ok .admitted, charge.2.touchCooldown overlay check.now fingerprint)) ∨
        (identical = false ∧ cooling = false ∧ charge.1 = .error .gossiperRateLimited ∧
          result = (.error .gossiperRateLimited, charge.2))) := by
  intro result overlay fingerprint identical cooling looked charge
  cases hhead : check.peer.multiaddrs.head? with
  | none => exact .inl ⟨rfl, by simp [result, step, checkGossip, hhead]⟩
  | some first =>
    cases hpeer : hasPeerId first with
    | false =>
      exact .inl ⟨by simp [hpeer], by simp [result, step, checkGossip, hhead, hpeer]⟩
    | true =>
      refine .inr ⟨by simp [hpeer], ?_⟩
      cases hidentical : identical with
      | true =>
        simp only [identical] at hidentical
        exact .inl ⟨rfl, by simp [result, step, checkGossip, hhead, hpeer, hidentical, overlay,
          fingerprint]⟩
      | false =>
        have hunfold : result = if cooling then (.error .cooldownActive, looked) else
            match charge with
            | (.error e, s) => (.error e, s)
            | (.ok (), s) => (.ok .admitted, s.touchCooldown overlay check.now fingerprint) := by
          simp only [identical] at hidentical
          simp [result, step, checkGossip, hhead, hpeer, hidentical, cooling, looked, charge,
            overlay, fingerprint]
        cases hcooling : cooling with
        | true => exact .inr (.inl ⟨rfl, rfl, by rw [hunfold, hcooling, if_pos rfl]⟩)
        | false =>
          rw [hunfold, hcooling, if_neg Bool.false_ne_true] at *
          rcases chargeGossiper_fst_or looked check.gossiper check.now with hok | hlimited
          · refine .inr (.inr (.inl ⟨rfl, rfl, hok, ?_⟩))
            rw [show charge = ((.ok ()), charge.2) from Prod.ext hok rfl]
          · refine .inr (.inr (.inr ⟨rfl, rfl, hlimited, ?_⟩))
            rw [show charge = ((.error .gossiperRateLimited), charge.2) from Prod.ext hlimited rfl]

theorem admits_imp_charged {verdict : Except GossipCheckError GossipCheckOk}
    (h : admits verdict = true) : charged verdict = true := by
  rcases verdict with _ | (_ | _) <;> simp_all [admits, charged]

theorem step_constants :
    (step hasPeerId hash self check).2.cooldown = self.cooldown ∧
      (step hasPeerId hash self check).2.maxRecordsPerGossiper = self.maxRecordsPerGossiper ∧
      L.capacity (step hasPeerId hash self check).2.gossipers = L.capacity self.gossipers ∧
      L.capacity (step hasPeerId hash self check).2.cooldowns = L.capacity self.cooldowns := by
  have hcharge := chargeGossiper_snd { self with cooldowns := (L.get self.cooldowns check.peer.overlay).2 }
    check.gossiper check.now
  have hcapacity := capacity_chargeGossiper
    { self with cooldowns := (L.get self.cooldowns check.peer.overlay).2 } check.gossiper check.now
  rcases step_cases hasPeerId hash self check with
    ⟨-, hstate, -⟩ | ⟨-, ⟨-, hresult⟩ | ⟨-, -, hresult⟩ | ⟨-, -, -, hresult⟩ | ⟨-, -, -, hresult⟩⟩
  · rw [hstate]
    exact ⟨rfl, rfl, rfl, rfl⟩
  · rw [hresult]
    exact ⟨rfl, rfl, rfl, L.capacity_insert _ _ _⟩
  · rw [hresult]
    exact ⟨rfl, rfl, rfl, L.capacity_get _ _⟩
  · rw [hresult, touchCooldown, hcharge]
    exact ⟨rfl, rfl, hcapacity, by simp⟩
  · rw [hresult, hcharge]
    exact ⟨rfl, rfl, hcapacity, L.capacity_get _ _⟩

/-- What a check does to the budgets: nothing, unless it is charged to its gossiper, and then
what the charge does; it admits exactly when the charge passes. -/
theorem step_gossipers :
    let charge := ({ self with cooldowns := (L.get self.cooldowns check.peer.overlay).2 } :
      GossipIntake ω L).chargeGossiper check.gossiper check.now
    (charged (step hasPeerId hash self check).1 = false ∧
        (step hasPeerId hash self check).2.gossipers = self.gossipers) ∨
      (charged (step hasPeerId hash self check).1 = true ∧
        (step hasPeerId hash self check).2.gossipers = charge.2.gossipers ∧
        (admits (step hasPeerId hash self check).1 = true ↔ charge.1 = .ok ())) := by
  intro charge
  rcases step_cases hasPeerId hash self check with
    ⟨-, hstate, hverdict⟩ | ⟨-, ⟨-, hresult⟩ | ⟨-, -, hresult⟩ | ⟨-, -, hok, hresult⟩ |
      ⟨-, -, hlimited, hresult⟩⟩
  · refine .inl ⟨?_, by rw [hstate]⟩
    rcases hverdict with hverdict | hverdict <;> rw [hverdict] <;> rfl
  · exact .inl ⟨by rw [hresult]; rfl, by rw [hresult]; rfl⟩
  · exact .inl ⟨by rw [hresult]; rfl, by rw [hresult]⟩
  · exact .inr ⟨by rw [hresult]; rfl, by rw [hresult]; rfl,
      by rw [hresult]; exact ⟨fun _ ↦ hok, fun _ ↦ rfl⟩⟩
  · refine .inr ⟨by rw [hresult]; rfl, by rw [hresult], ?_⟩
    rw [hresult, hlimited]
    simp [admits]

/-- What a check does to the cooldowns, with room for its overlay: a processed record (known or
admitted) restarts its overlay's clock with its fingerprint, and any other check changes no
cooldown. -/
theorem step_cooldowns (hroom : L.HasRoom self.cooldowns check.peer.overlay) :
    ((step hasPeerId hash self check).1.isOk = true ∧
        ∀ k, L.lookup (step hasPeerId hash self check).2.cooldowns k =
          if k = check.peer.overlay then some ⟨check.now, multiaddrsFingerprint hash check.peer⟩
          else L.lookup self.cooldowns k) ∨
      ((step hasPeerId hash self check).1.isOk = false ∧
        ∀ k, L.lookup (step hasPeerId hash self check).2.cooldowns k = L.lookup self.cooldowns k) := by
  have hcharge := chargeGossiper_snd { self with cooldowns := (L.get self.cooldowns check.peer.overlay).2 }
    check.gossiper check.now
  rcases step_cases hasPeerId hash self check with
    ⟨-, hstate, hverdict⟩ | ⟨-, ⟨-, hresult⟩ | ⟨-, -, hresult⟩ | ⟨-, -, -, hresult⟩ |
      ⟨-, -, -, hresult⟩⟩
  · refine .inr ⟨?_, fun k ↦ by rw [hstate]⟩
    rcases hverdict with hverdict | hverdict <;> rw [hverdict] <;> rfl
  · refine .inl ⟨by rw [hresult]; rfl, fun k ↦ ?_⟩
    rw [hresult]
    exact LruCacheImpl.lookup_insert_of_hasRoom hroom _ k
  · exact .inr ⟨by rw [hresult]; rfl, fun k ↦ by rw [hresult]; exact L.lookup_get _ _ k⟩
  · -- the read moved the overlay's entry, and the write has room after it
    refine .inl ⟨by rw [hresult]; rfl, fun k ↦ ?_⟩
    rw [hresult, touchCooldown, hcharge]
    dsimp only
    rw [LruCacheImpl.lookup_insert_of_hasRoom (hroom.get _), L.lookup_get]
  · refine .inr ⟨by rw [hresult]; rfl, fun k ↦ ?_⟩
    rw [hresult, hcharge]
    exact L.lookup_get _ _ k

theorem mem_keys_step_cooldowns {k : ω}
    (h : k ∈ L.keys (step hasPeerId hash self check).2.cooldowns) :
    k = check.peer.overlay ∨ k ∈ L.keys self.cooldowns := by
  have hcharge := chargeGossiper_snd { self with cooldowns := (L.get self.cooldowns check.peer.overlay).2 }
    check.gossiper check.now
  rcases step_cases hasPeerId hash self check with
    ⟨-, hstate, -⟩ | ⟨-, ⟨-, hresult⟩ | ⟨-, -, hresult⟩ | ⟨-, -, -, hresult⟩ | ⟨-, -, -, hresult⟩⟩
  · rw [hstate] at h
    exact .inr h
  · rw [hresult] at h
    exact LruCacheImpl.mem_keys_insert h
  · rw [hresult] at h
    exact .inr ((L.mem_keys_get _ _ _).mp h)
  · rw [hresult, touchCooldown, hcharge] at h
    rcases LruCacheImpl.mem_keys_insert h with rfl | h
    · exact .inl rfl
    · exact .inr ((L.mem_keys_get _ _ _).mp h)
  · rw [hresult, hcharge] at h
    exact .inr ((L.mem_keys_get _ _ _).mp h)

end Check

/-! ## Budgets over runs -/

section Budgets

variable (hasPeerId : α → Bool) (hash : α → UInt64)

/-- The instants of the checks charged to a gossiper. -/
def chargeTimes (gossiper : ω) (log : List (Check α σ ω × Except GossipCheckError GossipCheckOk)) :
    List ℕ :=
  (log.filter fun entry ↦ entry.1.gossiper = gossiper && charged entry.2).map (·.1.now)

/-- The instants of the records admitted on a gossiper's word. -/
def admittedAt (gossiper : ω) (log : List (Check α σ ω × Except GossipCheckError GossipCheckOk)) :
    List ℕ :=
  (log.filter fun entry ↦ entry.1.gossiper = gossiper && admits entry.2).map (·.1.now)

omit [DecidableEq α] [DecidableEq σ] in
@[simp]
theorem chargeTimes_append_singleton (gossiper : ω)
    (log : List (Check α σ ω × Except GossipCheckError GossipCheckOk)) (check : Check α σ ω)
    (verdict : Except GossipCheckError GossipCheckOk) :
    chargeTimes gossiper (log ++ [(check, verdict)]) = chargeTimes gossiper log ++
      if check.gossiper = gossiper ∧ charged verdict = true then [check.now] else [] := by
  unfold chargeTimes
  by_cases hgossiper : check.gossiper = gossiper <;> cases hverdict : charged verdict <;>
    simp [hgossiper, hverdict]

omit [DecidableEq α] [DecidableEq σ] in
@[simp]
theorem admittedAt_append_singleton (gossiper : ω)
    (log : List (Check α σ ω × Except GossipCheckError GossipCheckOk)) (check : Check α σ ω)
    (verdict : Except GossipCheckError GossipCheckOk) :
    admittedAt gossiper (log ++ [(check, verdict)]) = admittedAt gossiper log ++
      if check.gossiper = gossiper ∧ admits verdict = true then [check.now] else [] := by
  unfold admittedAt
  by_cases hgossiper : check.gossiper = gossiper <;> cases hverdict : admits verdict <;>
    simp [hgossiper, hverdict]

/-- The lone fixed window of a gossiper: the run of its charges. -/
abbrev loneWindow (config : GossipConfig) (times : List ℕ) :
    List (ℕ × Bool) × Option FixedWindow.Window :=
  runLog (FixedWindow.step config.recordCooldown config.maxRecordsPerGossiper) none times

theorem loneWindow_append_singleton (config : GossipConfig) (times : List ℕ) (now : ℕ) :
    loneWindow config (times ++ [now]) =
      ((loneWindow config times).1 ++ [(now, (FixedWindow.request config.recordCooldown
          config.maxRecordsPerGossiper (loneWindow config times).2 now).1)],
        some (FixedWindow.request config.recordCooldown config.maxRecordsPerGossiper
          (loneWindow config times).2 now).2) :=
  runLog_append_singleton _ _ _ _

/-- The budgets refine the gossipers' lone fixed windows: each gossiper's budget is its window
after the checks charged to it, and its admissions are the window's.  The budgets' keys are
among `written`, and the intake keeps its configuration. -/
structure BudgetsRefine (config : GossipConfig) (written : List ω) (intake : GossipIntake ω L)
    (log : List (Check α σ ω × Except GossipCheckError GossipCheckOk)) : Prop where
  cooldown : intake.cooldown = config.recordCooldown
  limit : intake.maxRecordsPerGossiper = config.maxRecordsPerGossiper
  capacity : L.capacity intake.gossipers = config.maxTrackedGossipers
  keys_written : ∀ k ∈ L.keys intake.gossipers, k ∈ written
  window : ∀ gossiper, (L.lookup intake.gossipers gossiper).map GossiperBudget.window =
    (loneWindow config (chargeTimes gossiper log)).2
  admitted : ∀ gossiper, admittedAt gossiper log =
    FixedWindow.admittedTimes (loneWindow config (chargeTimes gossiper log)).1

omit [DecidableEq α] [DecidableEq σ] in
theorem BudgetsRefine.new (config : GossipConfig) (written : List ω) :
    BudgetsRefine config written (new L config) ([] : List (Check α σ ω × _)) where
  cooldown := rfl
  limit := rfl
  capacity := L.capacity_new _
  keys_written _ hk := by simp [GossipIntake.new] at hk
  window _ := by
    simp only [GossipIntake.new, L.lookup_new]
    rfl
  admitted _ := rfl

/-- One check keeps the refinement, when its gossiper is among `written` and those fit in the
budget cache: a check not charged leaves every window, and a charged one is a request to its
gossiper's window alone. -/
theorem BudgetsRefine.step {config : GossipConfig} {written : List ω} {self : GossipIntake ω L}
    {log : List (Check α σ ω × Except GossipCheckError GossipCheckOk)}
    (h : BudgetsRefine config written self log) (check : Check α σ ω)
    (hwritten : check.gossiper ∈ written) (hcap : written.dedup.length ≤ config.maxTrackedGossipers) :
    BudgetsRefine config written (GossipIntake.step hasPeerId hash self check).2
      (log ++ [(check, (GossipIntake.step hasPeerId hash self check).1)]) := by
  obtain ⟨hcooldown, hlimit, hcapacity, -⟩ := step_constants hasPeerId hash self check
  rcases step_gossipers hasPeerId hash self check with ⟨hcharged, hgossipers⟩ |
    ⟨hcharged, hgossipers, hadmits⟩
  · -- not charged: no budget and no admission changes
    have hadmits : admits (GossipIntake.step hasPeerId hash self check).1 = false :=
      Bool.eq_false_iff.mpr fun hadmit ↦ by simp [admits_imp_charged hadmit] at hcharged
    refine ⟨hcooldown.trans h.cooldown, hlimit.trans h.limit, hcapacity.trans h.capacity,
      fun k hk ↦ h.keys_written k (hgossipers ▸ hk), fun gossiper ↦ ?_, fun gossiper ↦ ?_⟩
    · simpa [hgossipers, hcharged] using h.window gossiper
    · simpa [hadmits, hcharged] using h.admitted gossiper
  · -- charged: the gossiper's window takes one request, with room in the cache
    have hroom : L.HasRoom self.gossipers check.gossiper :=
      LruCacheImpl.hasRoom_of_keys_subset h.keys_written hwritten (h.capacity ▸ hcap)
    set looked : GossipIntake ω L := { self with cooldowns := (L.get self.cooldowns check.peer.overlay).2 }
      with hlooked
    obtain ⟨hverdict, hlookup⟩ := chargeGossiper_spec looked check.gossiper check.now hroom
    rw [show looked.cooldown = config.recordCooldown from h.cooldown,
      show looked.maxRecordsPerGossiper = config.maxRecordsPerGossiper from h.limit,
      show looked.gossipers = self.gossipers from rfl] at hverdict hlookup
    have hadmits' : admits (GossipIntake.step hasPeerId hash self check).1 =
        (FixedWindow.request config.recordCooldown config.maxRecordsPerGossiper
          ((L.lookup self.gossipers check.gossiper).map GossiperBudget.window) check.now).1 := by
      rw [Bool.eq_iff_iff, hadmits, hverdict]
      split_ifs with hrequest <;> simp [hrequest]
    refine ⟨hcooldown.trans h.cooldown, hlimit.trans h.limit, hcapacity.trans h.capacity,
      fun k hk ↦ ?_, fun gossiper ↦ ?_, fun gossiper ↦ ?_⟩
    · rw [hgossipers] at hk
      rcases mem_keys_chargeGossiper looked check.gossiper check.now hroom hk with rfl | hk
      · exact hwritten
      · exact h.keys_written k hk
    · rw [hgossipers, hlookup, chargeTimes_append_singleton, hcharged]
      by_cases hkey : check.gossiper = gossiper
      · subst hkey
        simp only [if_true, and_self, loneWindow_append_singleton, h.window]
      · simp only [Ne.symm hkey, hkey, if_false, false_and, List.append_nil]
        exact h.window gossiper
    · rw [admittedAt_append_singleton, chargeTimes_append_singleton, hcharged]
      by_cases hkey : check.gossiper = gossiper
      · subst hkey
        simp only [if_true, and_self, loneWindow_append_singleton, FixedWindow.admittedTimes_append,
          FixedWindow.admittedTimes_singleton, h.admitted, ← h.window, hadmits', true_and]
      · simp only [hkey, false_and, if_false, List.append_nil]
        exact h.admitted gossiper

/-- Over every run from a fresh intake whose gossipers are among `written`, and those fit in the
budget cache, the budgets refine the gossipers' lone fixed windows. -/
theorem budgetsRefine_run (L : LruCacheImpl ω) (config : GossipConfig) (written : List ω)
    (hcap : written.dedup.length ≤ config.maxTrackedGossipers) (checks : List (Check α σ ω))
    (hwritten : ∀ check ∈ checks, check.gossiper ∈ written) :
    BudgetsRefine config written ((new L config).run hasPeerId hash checks).2
      ((new L config).run hasPeerId hash checks).1 := by
  induction checks using List.reverseRecOn with
  | nil => exact BudgetsRefine.new config written
  | append_singleton checks check ih =>
    have hinv := ih fun c hc ↦ hwritten c (List.mem_append_left _ hc)
    simp only [run] at hinv ⊢
    rw [runLog_append_singleton]
    exact hinv.step hasPeerId hash check (hwritten check (by simp)) hcap

/-- Over every run from a fresh intake whose gossipers fit in the budget cache, each gossiper's
budget is the lone fixed window run over the checks charged to it, and its admissions are that
window's; so, when the clock does not go back, no gossiper has more than twice its budget
admitted within any span of one cooldown. -/
theorem gossiper_admissions_bounded (L : LruCacheImpl ω) (config : GossipConfig)
    (checks : List (Check α σ ω))
    (hclock : (checks.map Check.now).Pairwise (· ≤ ·))
    (htracked : (checks.map Check.gossiper).dedup.length ≤ config.maxTrackedGossipers)
    (gossiper : ω) (start : ℕ) :
    (L.lookup ((new L config).run hasPeerId hash checks).2.gossipers gossiper).map
        GossiperBudget.window =
      (loneWindow config (chargeTimes gossiper ((new L config).run hasPeerId hash checks).1)).2 ∧
    admittedAt gossiper ((new L config).run hasPeerId hash checks).1 =
      FixedWindow.admittedTimes
        (loneWindow config (chargeTimes gossiper ((new L config).run hasPeerId hash checks).1)).1 ∧
    (admittedAt gossiper ((new L config).run hasPeerId hash checks).1).countP
      (fun t ↦ start ≤ t ∧ t < start + config.recordCooldown) ≤
        2 * config.maxRecordsPerGossiper := by
  have hrefine := budgetsRefine_run hasPeerId hash L config _ htracked checks
    fun check hcheck ↦ List.mem_map_of_mem hcheck
  refine ⟨hrefine.window gossiper, hrefine.admitted gossiper, ?_⟩
  rw [hrefine.admitted gossiper]
  -- the checks charged to the gossiper come in the run's order, whose clock does not go back
  have hlog : ((new L config).run hasPeerId hash checks).1.map (fun entry ↦ entry.1.now) =
      checks.map Check.now := by
    simp only [run]
    conv_rhs => rw [← map_fst_runLog (step hasPeerId hash) (new L config) checks]
    rw [List.map_map]
    rfl
  have hsorted : (chargeTimes gossiper ((new L config).run hasPeerId hash checks).1).Pairwise
      (· ≤ ·) :=
    (hlog ▸ hclock).sublist (List.filter_sublist.map _)
  exact FixedWindow.admitted_within_span_le _ hsorted start

/-- A gossiper handing over three records within a cooldown and a half. -/
def floodChecks : List (Check ℕ ℕ ℕ) :=
  [⟨⟨[1], 0, 7⟩, 3, none, 0⟩, ⟨⟨[2], 0, 8⟩, 3, none, 5⟩, ⟨⟨[3], 0, 9⟩, 3, none, 12⟩]

/-- A cooldown of ten, a budget of one record, and room for one gossiper and four overlays. -/
def floodConfig : GossipConfig := ⟨10, 1, 1, 4⟩

theorem gossiper_admissions_bounded_of_flood :
    (floodChecks.map Check.now).Pairwise (· ≤ ·) ∧
      (floodChecks.map Check.gossiper).dedup.length ≤ floodConfig.maxTrackedGossipers ∧
      (LruCacheImpl.model.lookup
          ((new .model floodConfig).run (fun _ ↦ true) Nat.toUInt64 floodChecks).2.gossipers 3).map
          GossiperBudget.window =
        (loneWindow floodConfig
          (chargeTimes 3 ((new .model floodConfig).run (fun _ ↦ true) Nat.toUInt64 floodChecks).1)).2 ∧
      admittedAt 3 ((new .model floodConfig).run (fun _ ↦ true) Nat.toUInt64 floodChecks).1 =
        FixedWindow.admittedTimes (loneWindow floodConfig
          (chargeTimes 3 ((new .model floodConfig).run (fun _ ↦ true) Nat.toUInt64 floodChecks).1)).1 ∧
      (admittedAt 3 ((new .model floodConfig).run (fun _ ↦ true) Nat.toUInt64 floodChecks).1).countP
        (fun t ↦ 0 ≤ t ∧ t < 0 + floodConfig.recordCooldown) ≤
          2 * floodConfig.maxRecordsPerGossiper :=
  ⟨by decide, by decide, gossiper_admissions_bounded (fun _ ↦ true) Nat.toUInt64 .model floodConfig
    floodChecks (by decide) (by decide) 3 0⟩

end Budgets

/-! ## Cooldowns over runs -/

section Cooldowns

variable (hasPeerId : α → Bool) (hash : α → UInt64)

theorem step_eq_cooldownActive_iff (self : GossipIntake ω L) (check : Check α σ ω) :
    (step hasPeerId hash self check).1 = .error .cooldownActive ↔
      check.peer.multiaddrs.head?.any hasPeerId = true ∧
      (check.existing.any fun existing ↦
        existing.signature = check.peer.signature && hasMatchingMultiaddr existing check.peer) = false ∧
      ∃ state, L.lookup self.cooldowns check.peer.overlay = some state ∧
        state.addrsFingerprint = multiaddrsFingerprint hash check.peer ∧
        check.now - state.lastProcessed < self.cooldown := by
  -- the cooldown holds exactly when its lookup finds the fingerprint, recent enough
  have hcooling : ∀ cooling : Bool, cooling = ((L.lookup self.cooldowns check.peer.overlay).any
      fun state ↦ state.addrsFingerprint = multiaddrsFingerprint hash check.peer &&
        decide (check.now - state.lastProcessed < self.cooldown)) →
      (cooling = true ↔ ∃ state, L.lookup self.cooldowns check.peer.overlay = some state ∧
        state.addrsFingerprint = multiaddrsFingerprint hash check.peer ∧
        check.now - state.lastProcessed < self.cooldown) := by
    rintro cooling rfl
    simp [Option.any_eq_true]
  rcases step_cases hasPeerId hash self check with
    ⟨hshape, -, hverdict⟩ | ⟨hshape, ⟨hidentical, hresult⟩ | ⟨hidentical, hcool, hresult⟩ |
      ⟨hidentical, hcool, -, hresult⟩ | ⟨hidentical, hcool, -, hresult⟩⟩
  · rw [hshape]
    rcases hverdict with hverdict | hverdict <;> simp [hverdict]
  · rw [hresult, hidentical]
    simp
  · rw [hresult, hidentical, hshape, ← hcooling _ rfl, hcool]
    simp
  · rw [hresult, hidentical, hshape, ← hcooling _ rfl, hcool]
    simp
  · rw [hresult, hidentical, hshape, ← hcooling _ rfl, hcool]
    simp

/-- The last processing of an overlay in a run: when the last record for it that was known or
admitted came, and its multiaddrs' fingerprint. -/
def lastProcessed (overlay : ω) (log : List (Check α σ ω × Except GossipCheckError GossipCheckOk)) :
    Option CooldownState :=
  (log.reverse.find? fun entry ↦ entry.1.peer.overlay = overlay && entry.2.isOk).map
    fun entry ↦ ⟨entry.1.now, multiaddrsFingerprint hash entry.1.peer⟩

omit [DecidableEq α] [DecidableEq σ] in
theorem lastProcessed_append_singleton (overlay : ω)
    (log : List (Check α σ ω × Except GossipCheckError GossipCheckOk)) (check : Check α σ ω)
    (verdict : Except GossipCheckError GossipCheckOk) :
    lastProcessed hash overlay (log ++ [(check, verdict)]) =
      if check.peer.overlay = overlay ∧ verdict.isOk = true then
        some ⟨check.now, multiaddrsFingerprint hash check.peer⟩
      else lastProcessed hash overlay log := by
  unfold lastProcessed
  by_cases hoverlay : check.peer.overlay = overlay <;> cases hverdict : verdict.isOk <;>
    simp [hoverlay, hverdict]

/-- The cooldown cache holds each overlay's last processing; its keys are among `written`, and
the intake keeps its configuration. -/
structure CooldownsRefine (config : GossipConfig) (written : List ω) (intake : GossipIntake ω L)
    (log : List (Check α σ ω × Except GossipCheckError GossipCheckOk)) : Prop where
  cooldown : intake.cooldown = config.recordCooldown
  capacity : L.capacity intake.cooldowns = config.maxTrackedCooldowns
  keys_written : ∀ k ∈ L.keys intake.cooldowns, k ∈ written
  last : ∀ overlay, L.lookup intake.cooldowns overlay = lastProcessed hash overlay log

omit [DecidableEq α] [DecidableEq σ] in
theorem CooldownsRefine.new (config : GossipConfig) (written : List ω) :
    CooldownsRefine hash config written (new L config) ([] : List (Check α σ ω × _)) where
  cooldown := rfl
  capacity := L.capacity_new _
  keys_written _ hk := by simp [GossipIntake.new] at hk
  last _ := by simp [GossipIntake.new, lastProcessed]

/-- One check keeps the cooldowns the last processings, when its overlay is among `written` and
those fit in the cooldown cache. -/
theorem CooldownsRefine.step {config : GossipConfig} {written : List ω} {self : GossipIntake ω L}
    {log : List (Check α σ ω × Except GossipCheckError GossipCheckOk)}
    (h : CooldownsRefine hash config written self log) (check : Check α σ ω)
    (hwritten : check.peer.overlay ∈ written)
    (hcap : written.dedup.length ≤ config.maxTrackedCooldowns) :
    CooldownsRefine hash config written (GossipIntake.step hasPeerId hash self check).2
      (log ++ [(check, (GossipIntake.step hasPeerId hash self check).1)]) := by
  obtain ⟨hcooldown, -, -, hcapacity⟩ := step_constants hasPeerId hash self check
  have hroom : L.HasRoom self.cooldowns check.peer.overlay :=
    LruCacheImpl.hasRoom_of_keys_subset h.keys_written hwritten (h.capacity ▸ hcap)
  refine ⟨hcooldown.trans h.cooldown, hcapacity.trans h.capacity, fun k hk ↦ ?_, fun overlay ↦ ?_⟩
  · rcases mem_keys_step_cooldowns hasPeerId hash self check hk with rfl | hk
    · exact hwritten
    · exact h.keys_written k hk
  · rw [lastProcessed_append_singleton]
    rcases step_cooldowns hasPeerId hash self check hroom with ⟨hok, hlookup⟩ | ⟨hok, hlookup⟩
    · rw [hlookup, hok]
      by_cases hoverlay : overlay = check.peer.overlay
      · simp [hoverlay]
      · simp [hoverlay, Ne.symm hoverlay, h.last]
    · rw [hlookup, hok, h.last]
      simp

/-- Over every run from a fresh intake whose overlays are among `written`, and those fit in the
cooldown cache, the cooldowns are the last processings. -/
theorem cooldownsRefine_run (L : LruCacheImpl ω) (config : GossipConfig) (written : List ω)
    (hcap : written.dedup.length ≤ config.maxTrackedCooldowns) (checks : List (Check α σ ω))
    (hwritten : ∀ check ∈ checks, check.peer.overlay ∈ written) :
    CooldownsRefine hash config written ((new L config).run hasPeerId hash checks).2
      ((new L config).run hasPeerId hash checks).1 := by
  induction checks using List.reverseRecOn with
  | nil => exact CooldownsRefine.new hash config written
  | append_singleton checks check ih =>
    have hinv := ih fun c hc ↦ hwritten c (List.mem_append_left _ hc)
    simp only [run] at hinv ⊢
    rw [runLog_append_singleton]
    exact hinv.step hasPeerId hash check (hwritten check (by simp)) hcap

/-- A record is refused for the cooldown exactly when its overlay was last processed, known or
admitted, with the same multiaddrs less than a cooldown ago, over every run from a fresh intake
whose overlays fit in the cooldown cache; records of no peer and records identical to the stored
one are never refused for it. -/
theorem cooldown_refusal_iff (L : LruCacheImpl ω) (config : GossipConfig)
    (checks : List (Check α σ ω))
    (check : Check α σ ω)
    (htracked : (checks.map fun c ↦ c.peer.overlay).dedup.length ≤ config.maxTrackedCooldowns) :
    let prior := (new L config).run hasPeerId hash checks
    (step hasPeerId hash prior.2 check).1 = .error .cooldownActive ↔
      check.peer.multiaddrs.head?.any hasPeerId = true ∧
      (check.existing.any fun existing ↦
        existing.signature = check.peer.signature && hasMatchingMultiaddr existing check.peer) = false ∧
      ∃ last, lastProcessed hash check.peer.overlay prior.1 = some last ∧
        last.addrsFingerprint = multiaddrsFingerprint hash check.peer ∧
        check.now - last.lastProcessed < config.recordCooldown := by
  intro prior
  have hrefine := cooldownsRefine_run hasPeerId hash L config _ htracked checks
    fun check hcheck ↦ List.mem_map_of_mem (f := fun c : Check α σ ω ↦ c.peer.overlay) hcheck
  rw [step_eq_cooldownActive_iff, hrefine.last, hrefine.cooldown]

theorem cooldown_refusal_iff_of_repeat :
    (floodChecks.map fun c ↦ c.peer.overlay).dedup.length ≤ floodConfig.maxTrackedCooldowns ∧
      let prior := (new .model floodConfig).run (fun _ ↦ true) Nat.toUInt64 floodChecks
      let check : Check ℕ ℕ ℕ := ⟨⟨[1], 0, 7⟩, 4, none, 14⟩
      ((step (fun _ ↦ true) Nat.toUInt64 prior.2 check).1 = .error .cooldownActive ↔
        check.peer.multiaddrs.head?.any (fun _ ↦ true) = true ∧
        (check.existing.any fun existing ↦
          existing.signature = check.peer.signature && hasMatchingMultiaddr existing check.peer) =
            false ∧
        ∃ last, lastProcessed Nat.toUInt64 check.peer.overlay prior.1 = some last ∧
          last.addrsFingerprint = multiaddrsFingerprint Nat.toUInt64 check.peer ∧
          check.now - last.lastProcessed < floodConfig.recordCooldown) :=
  ⟨by decide, cooldown_refusal_iff (fun _ ↦ true) Nat.toUInt64 .model floodConfig floodChecks
    ⟨⟨[1], 0, 7⟩, 4, none, 14⟩ (by decide)⟩

end Cooldowns

end GossipIntake

end Model

end VertexSwarm.Topology
