import VertexSwarm.Accounting.Ledger
import VertexSwarm.Lib.Run
import Mathlib.Data.List.Nodup
import Mathlib.Algebra.Order.BigOperators.Group.List

/-!
# Reservation conservation

Along any sequential run on one peer, the peer's counters are its books: the receive and
provide reserves are the prices of the reservations still held on each leg, the ghost balance
is the prices of the forfeited provides, and the balance is the applied provides less the
applied receives plus the records.  Every consumed reservation is consumed once.

The invariant is `LedgerRun.Balanced`.  Each kind of call keeps it (`Balanced.hold`,
`Balanced.close`, and the step lemmas built on them), given that its amount is non-negative and
that the books it leads to stay within `i64`; the run lemma then follows by run induction.
-/

namespace VertexSwarm.Accounting

open Saturating Api Keyed

namespace LedgerRun

/-- The counters are the books, the held reservations are priced and un-applied, and every
index was handed out once. -/
structure Balanced (run : LedgerRun) : Prop where
  reserve : ∀ leg, run.state.reserveOn leg = run.outstanding leg
  ghost : (run.state.ghostBalance.toNat : ℤ) = run.consumed .provide .forfeited
  balance : run.state.balance.val = run.committed
  held_nonneg : ∀ entry ∈ run.held, 0 ≤ entry.2.price.val
  held_unapplied : ∀ entry ∈ run.held, entry.2.applied = false
  keys_nodup : (keys run.held ++ keys run.closed).Nodup
  keys_lt : ∀ id ∈ keys run.held ++ keys run.closed, id < run.nextId

theorem balanced_start (paymentThreshold disconnectThreshold : Au) :
    (start (PeerState.new paymentThreshold disconnectThreshold)).Balanced where
  reserve leg := by cases leg <;> rfl
  ghost := rfl
  balance := rfl
  held_nonneg _ h := absurd h List.not_mem_nil
  held_unapplied _ h := absurd h List.not_mem_nil
  keys_nodup := List.nodup_nil
  keys_lt _ h := absurd h List.not_mem_nil

variable {run : LedgerRun}

/-- A held reservation's price is at most its leg's counter, so consuming it never meets the
counter's floor. -/
theorem Balanced.price_le_reserveOn (hb : run.Balanced) {id : ℕ} {reservation : Reservation}
    (hmem : (id, reservation) ∈ run.held) : reservation.price.val ≤ run.state.reserveOn reservation.leg := by
  have hnodup : (keys run.held).Nodup := hb.keys_nodup.of_append_left
  have hsplit := sum_map_eq_add_eraseKey hnodup hmem (fun entry ↦ priceOn entry.2 reservation.leg)
  have hrest : 0 ≤ ((eraseKey run.held id).map fun entry ↦ priceOn entry.2 reservation.leg).sum := by
    apply List.sum_nonneg
    intro x hx
    obtain ⟨entry, hentry, rfl⟩ := List.mem_map.mp hx
    exact priceOn_nonneg (hb.held_nonneg entry (List.mem_of_mem_filter hentry)) _
  have hself : priceOn reservation reservation.leg = reservation.price.val := if_pos rfl
  calc reservation.price.val
      ≤ priceOn reservation reservation.leg + _ := by rw [hself]; exact le_add_of_nonneg_right hrest
    _ = run.outstanding reservation.leg := hsplit.symm
    _ = run.state.reserveOn reservation.leg := (hb.reserve _).symm

theorem Balanced.outstanding_nonneg (hb : run.Balanced) (leg : Leg) : 0 ≤ run.outstanding leg := by
  rw [← hb.reserve]
  cases leg <;> exact Int.natCast_nonneg _

/-! ## Holding and closing keep the books -/

theorem Balanced.hold (hb : run.Balanced) {reservation : Reservation} {state : PeerState}
    (hprice : 0 ≤ reservation.price.val) (happlied : reservation.applied = false)
    (hreserve : ∀ leg, state.reserveOn leg = run.state.reserveOn leg + priceOn reservation leg)
    (hghost : state.ghostBalance = run.state.ghostBalance) (hbalance : state.balance = run.state.balance) :
    (run.hold reservation state).Balanced where
  reserve leg := by rw [hold_state, hreserve, hb.reserve, outstanding_hold]
  ghost := by
    rw [consumed_hold]
    exact hghost ▸ hb.ghost
  balance := by
    rw [committed_hold]
    exact hbalance ▸ hb.balance
  held_nonneg entry hentry := by
    rcases List.mem_append.mp hentry with h | h
    · exact hb.held_nonneg entry h
    · rw [List.mem_singleton.mp h]
      exact hprice
  held_unapplied entry hentry := by
    rcases List.mem_append.mp hentry with h | h
    · exact hb.held_unapplied entry h
    · rw [List.mem_singleton.mp h]
      exact happlied
  keys_nodup := by
    -- the new index is past every index handed out so far
    have hfresh : run.nextId ∉ keys run.held ++ keys run.closed :=
      fun h ↦ lt_irrefl _ (hb.keys_lt _ h)
    simp only [hold_held, hold_closed, keys_append, keys_singleton, List.append_assoc,
      List.singleton_append]
    exact List.nodup_middle.mpr (List.nodup_cons.mpr ⟨hfresh, hb.keys_nodup⟩)
  keys_lt id hid := by
    simp only [hold_held, hold_closed, hold_nextId, keys_append, keys_singleton, List.mem_append,
      List.mem_singleton] at hid ⊢
    rcases hid with (h | rfl) | h
    · exact Nat.lt_succ_of_lt (hb.keys_lt id (List.mem_append_left _ h))
    · exact Nat.lt_succ_self _
    · exact Nat.lt_succ_of_lt (hb.keys_lt id (List.mem_append_right _ h))

theorem Balanced.close (hb : run.Balanced) {id : ℕ} {reservation : Reservation}
    (hfind : find run.held id = some reservation) {state : PeerState} (fate : Fate)
    (hreserve : ∀ leg, state.reserveOn leg = run.state.reserveOn leg - priceOn reservation leg)
    (hghost : (state.ghostBalance.toNat : ℤ) = run.state.ghostBalance.toNat +
      if fate = .forfeited then priceOn reservation .provide else 0)
    (hbalance : state.balance.val = run.state.balance.val +
      if fate = .applied then priceOn reservation .provide - priceOn reservation .receive else 0) :
    (run.close id reservation fate state).Balanced := by
  have hmem := mem_of_find hfind
  have hnodup : (keys run.held).Nodup := hb.keys_nodup.of_append_left
  have hheld : ∀ entry ∈ eraseKey run.held id, entry ∈ run.held := fun _ h ↦ List.mem_of_mem_filter h
  -- what remains held and what was closed before keep their indices apart from `id`
  have hrest : (keys (eraseKey run.held id) ++ keys run.closed).Nodup :=
    hb.keys_nodup.sublist ((keys_eraseKey_sublist run.held id).append (List.Sublist.refl _))
  have hid : id ∉ keys (eraseKey run.held id) ++ keys run.closed := by
    rw [List.mem_append, mem_keys_eraseKey]
    rintro (⟨_, hne⟩ | hclosed)
    · exact hne rfl
    · exact List.disjoint_of_nodup_append hb.keys_nodup (mem_keys_of_mem hmem) hclosed
  exact {
    reserve := fun leg ↦ by rw [close_state, hreserve, hb.reserve, outstanding_close hnodup hmem]
    ghost := by rw [close_state, hghost, hb.ghost, consumed_close]
    balance := by rw [close_state, hbalance, hb.balance, committed_close]
    held_nonneg := fun entry hentry ↦ hb.held_nonneg entry (hheld entry hentry)
    held_unapplied := fun entry hentry ↦ hb.held_unapplied entry (hheld entry hentry)
    keys_nodup := by
      simp only [close_held, close_closed, keys_append, keys_singleton, ← List.append_assoc]
      exact List.nodup_append.mpr ⟨hrest, List.nodup_singleton _, fun a ha b hb' ↦ by
        rw [List.mem_singleton.mp hb']
        rintro rfl
        exact hid ha⟩
    keys_lt := fun id' hid' ↦ by
      simp only [close_held, close_closed, close_nextId, keys_append, keys_singleton,
        List.mem_append, List.mem_singleton] at hid' ⊢
      rcases hid' with h | h | rfl
      · exact hb.keys_lt id' (List.mem_append_left _ ((keys_eraseKey_sublist run.held id).subset h))
      · exact hb.keys_lt id' (List.mem_append_right _ h)
      · exact hb.keys_lt _ (List.mem_append_left _ (mem_keys_of_mem hmem)) }

/-- A commit the books keep within `i64` moves the balance exactly. -/
theorem Balanced.val_addBalance (hb : run.Balanced) {amount : Au} {run' : LedgerRun}
    (hcommitted : run'.committed = run.committed + amount.val) (hrange : run'.InRange) :
    (run.state.addBalance amount).balance.val = run.state.balance.val + amount.val := by
  have hlo := hrange.min_le_committed
  have hhi := hrange.committed_le
  rw [hcommitted, ← hb.balance] at hlo hhi
  exact Au.val_saturatingAdd_of_mem hlo hhi

/-! ## Every call keeps the books -/

section Step

variable (config : SwarmAccountingConfig)

theorem Balanced.step_prepareReceive (hb : run.Balanced) {price : Au} (hprice : 0 ≤ price.val)
    (hrange : (run.step config (.prepareReceive price)).InRange) :
    (run.step config (.prepareReceive price)).Balanced := by
  dsimp only [step] at hrange ⊢
  cases hresult : prepareReceive config run.state price with
  | error _ => exact hb
  | ok result =>
    obtain ⟨reservation, state⟩ := result
    obtain ⟨rfl, rfl⟩ := prepareReceive_ok hresult
    rw [hresult] at hrange
    -- the books after the hold bound the new receive reserve
    have hfit : run.state.reserveOn .receive + price.val ≤ i64Max := by
      have h := hrange.receive_le
      rw [prepared, outstanding_hold, ← hb.reserve] at h
      exact h
    exact hb.hold hprice rfl (PeerState.reserveOn_addReserved hprice hfit) rfl rfl

theorem Balanced.step_prepareProvide (hb : run.Balanced) {price : Au} (hprice : 0 ≤ price.val)
    (hrange : (run.step config (.prepareProvide price)).InRange) :
    (run.step config (.prepareProvide price)).Balanced := by
  dsimp only [step] at hrange ⊢
  cases hresult : prepareProvide run.state price with
  | error _ => exact hb
  | ok result =>
    obtain ⟨reservation, state⟩ := result
    obtain ⟨rfl, rfl⟩ := prepareProvide_ok hresult
    rw [hresult] at hrange
    have hfit : run.state.reserveOn .provide + price.val ≤ i64Max := by
      have h := hrange.provide_le
      rw [prepared, outstanding_hold, ← hb.reserve] at h
      exact h
    exact hb.hold hprice rfl (PeerState.reserveOn_addShadowReserved hprice hfit) rfl rfl

theorem Balanced.step_apply (hb : run.Balanced) {id : ℕ}
    (hrange : (run.step config (.apply id)).InRange) : (run.step config (.apply id)).Balanced := by
  dsimp only [step] at hrange ⊢
  cases hfind : find run.held id with
  | none => exact hb
  | some reservation =>
    rw [hfind] at hrange
    dsimp only at hrange ⊢
    have hmem := mem_of_find hfind
    have hprice := hb.held_nonneg _ hmem
    have hle := hb.price_le_reserveOn hmem
    have hdelta := Leg.val_delta hprice reservation rfl
    -- an apply commits the leg's delta, then releases the reserve
    rw [Reservation.apply_eq, Leg.apply_eq_release] at hrange ⊢
    refine hb.close hfind .applied (fun leg ↦ ?_) ?_ ?_
    · rw [PeerState.reserveOn_release hprice (by rwa [PeerState.reserveOn_addBalance]),
        PeerState.reserveOn_addBalance]
      rfl
    · rw [PeerState.release_ghostBalance, if_neg (by decide)]
      rfl
    · rw [PeerState.release_balance, if_pos rfl, ← hdelta]
      refine hb.val_addBalance ?_ hrange
      rw [committed_close, if_pos rfl, hdelta]

theorem Balanced.step_forfeit (hb : run.Balanced) {id : ℕ}
    (hrange : (run.step config (.forfeit id)).InRange) : (run.step config (.forfeit id)).Balanced := by
  dsimp only [step] at hrange ⊢
  cases hfind : find run.held id with
  | none => exact hb
  | some reservation =>
    rw [hfind] at hrange
    dsimp only at hrange ⊢
    split_ifs at hrange ⊢ with hleg
    · have hmem := mem_of_find hfind
      have hprice := hb.held_nonneg _ hmem
      have hle := hb.price_le_reserveOn hmem
      have hon : priceOn reservation .provide = reservation.price.val := if_pos hleg
      -- a forfeit accrues the ghost debt, then its drop releases the shadow reserve
      have hforfeit : reservation.forfeit run.state =
          reservation.leg.release (run.state.addGhost reservation.price) reservation.price :=
        Reservation.drop_of_not_applied (hb.held_unapplied _ hmem) _
      have hfit : (run.state.ghostBalance.toNat : ℤ) + reservation.price.val ≤ i64Max := by
        have h := hrange.forfeited_le
        rw [consumed_close, if_pos rfl, hon, ← hb.ghost] at h
        exact h
      rw [hforfeit]
      refine hb.close hfind .forfeited (fun leg ↦ ?_) ?_ ?_
      · rw [PeerState.reserveOn_release hprice (by rwa [PeerState.reserveOn_addGhost]),
          PeerState.reserveOn_addGhost]
        rfl
      · rw [PeerState.release_ghostBalance, if_pos rfl, hon]
        exact PeerState.toNat_add_asAmount hprice hfit
      · rw [PeerState.release_balance, if_neg (by decide), add_zero]
        rfl
    · exact hb

/-- A drop only releases, so it needs nothing of the books after it. -/
theorem Balanced.step_drop (hb : run.Balanced) (id : ℕ) : (run.step config (.drop id)).Balanced := by
  dsimp only [step]
  cases hfind : find run.held id with
  | none => exact hb
  | some reservation =>
    dsimp only
    have hmem := mem_of_find hfind
    have hprice := hb.held_nonneg _ hmem
    have hle := hb.price_le_reserveOn hmem
    rw [Reservation.drop_of_not_applied (hb.held_unapplied _ hmem)]
    refine hb.close hfind .dropped (fun leg ↦ ?_) ?_ ?_
    · rw [PeerState.reserveOn_release hprice hle]
      rfl
    · rw [PeerState.release_ghostBalance, if_neg (by decide), add_zero]
    · rw [PeerState.release_balance, if_neg (by decide), add_zero]

theorem Balanced.step_record (hb : run.Balanced) {amount : Au} {direction : Direction}
    (hamount : 0 ≤ amount.val) (hrange : (run.step config (.record amount direction)).InRange) :
    (run.step config (.record amount direction)).Balanced := by
  have hcommitted := committed_record run config amount direction
  have hlo := hrange.min_le_committed
  have hhi := hrange.committed_le
  rw [hcommitted, ← hb.balance] at hlo hhi
  exact { hb with
    reserve := fun leg ↦ (PeerState.reserveOn_record amount direction leg).trans (hb.reserve leg)
    ghost := (congrArg (fun counter : UInt64 ↦ (counter.toNat : ℤ))
      (PeerState.record_ghostBalance amount direction)).trans hb.ghost
    balance := by
      rw [hcommitted, ← hb.balance]
      exact PeerState.val_record_balance hamount direction hlo hhi }

theorem Balanced.step (hb : run.Balanced) {op : LedgerOp} (hamount : 0 ≤ op.amount.val)
    (hrange : (run.step config op).InRange) : (run.step config op).Balanced := by
  cases op with
  | prepareReceive price => exact hb.step_prepareReceive config hamount hrange
  | prepareProvide price => exact hb.step_prepareProvide config hamount hrange
  | apply id => exact hb.step_apply config hrange
  | forfeit id => exact hb.step_forfeit config hrange
  | drop id => exact hb.step_drop config id
  | record amount direction => exact hb.step_record config hamount hrange

theorem Balanced.scanl {ops : List LedgerOp} (hb : run.Balanced)
    (hamount : ∀ op ∈ ops, 0 ≤ op.amount.val)
    (hrange : ∀ run' ∈ List.scanl (LedgerRun.step config) run ops, run'.InRange) :
    ∀ run' ∈ List.scanl (LedgerRun.step config) run ops, run'.Balanced :=
  Run.scanl_induction (fun _ _ hs ha hq ↦ hs.step config ha hq) hb hamount hrange

end Step

/-- What the counters read back as, against the books of the run: each reserve is the prices
still held on its leg, the ghost balance the forfeited provides, the balance the applied
provides less the applied receives plus the records; no held price is past its counter, so no
release meets the floor; and every reservation is consumed at most once. -/
structure Conserved (run : LedgerRun) : Prop where
  reserved : run.state.reservedBalanceAu.val = run.outstanding .receive
  shadowReserved : run.state.shadowReservedBalanceAu.val = run.outstanding .provide
  ghost : run.state.ghostBalanceAu.val = run.consumed .provide .forfeited
  balance : run.state.balance.val =
    run.consumed .provide .applied - run.consumed .receive .applied + (run.recorded.map recordedValue).sum
  floor : ∀ entry ∈ run.held, entry.2.price.val ≤ run.state.reserveOn entry.2.leg
  consumed_once : (keys run.held ++ keys run.closed).Nodup

/-- A counter that the books keep within `i64` reads back exactly. -/
theorem val_fromAmount_of_books {counter : UInt64} {books : ℤ} (h : (counter.toNat : ℤ) = books)
    (hle : books ≤ i64Max) : (Au.fromAmount counter).val = books := by
  rw [Au.val_fromAmount_of_le (h.trans_le hle), h]

theorem Balanced.conserved (hb : run.Balanced) (hrange : run.InRange) : run.Conserved where
  reserved := val_fromAmount_of_books (hb.reserve .receive) hrange.receive_le
  shadowReserved := val_fromAmount_of_books (hb.reserve .provide) hrange.provide_le
  ghost := val_fromAmount_of_books hb.ghost hrange.forfeited_le
  balance := hb.balance
  floor _ hentry := hb.price_le_reserveOn hentry
  consumed_once := hb.keys_nodup

end LedgerRun

/-- Along any sequential run on one peer whose amounts are non-negative and whose books stay
within `i64`, the counters are the books. -/
theorem counters_eq_books_of_run (config : SwarmAccountingConfig)
    (paymentThreshold disconnectThreshold : Au) (ops : List LedgerOp)
    (hamount : ∀ op ∈ ops, 0 ≤ op.amount.val)
    (hrange : ∀ run ∈ List.scanl (LedgerRun.step config)
      (LedgerRun.start (PeerState.new paymentThreshold disconnectThreshold)) ops, run.InRange) :
    ((LedgerRun.start (PeerState.new paymentThreshold disconnectThreshold)).exec config ops).Conserved := by
  have hend := Run.foldl_mem_scanl (LedgerRun.step config)
    (LedgerRun.start (PeerState.new paymentThreshold disconnectThreshold)) ops
  have hb := (LedgerRun.balanced_start paymentThreshold disconnectThreshold).scanl config hamount
    hrange _ hend
  exact hb.conserved (hrange _ hend)

/-- A run under the default bandwidth settings: a receive and two provides are reserved, the
receive is applied, one provide forfeited and the other dropped, and an upload recorded. -/
def sampleLedgerOps : List LedgerOp :=
  [.prepareReceive (Au.fromAmount 300), .prepareProvide (Au.fromAmount 200),
    .prepareProvide (Au.fromAmount 50), .apply 0, .forfeit 1, .drop 2,
    .record (Au.fromAmount 40) .upload]

theorem counters_eq_books_of_sampleLedgerOps :
    (∀ op ∈ sampleLedgerOps, 0 ≤ op.amount.val) ∧
      (∀ run ∈ List.scanl (LedgerRun.step BandwidthConfig.default.accountingConfig)
        (LedgerRun.start (PeerState.new (Au.fromAmount 13500000) (Au.fromAmount 16875000)))
        sampleLedgerOps, run.InRange) ∧
      ((LedgerRun.start (PeerState.new (Au.fromAmount 13500000) (Au.fromAmount 16875000))).exec
        BandwidthConfig.default.accountingConfig sampleLedgerOps).Conserved :=
  ⟨by decide, by decide, counters_eq_books_of_run _ _ _ _ (by decide) (by decide)⟩

end VertexSwarm.Accounting
