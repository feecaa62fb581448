import Mathlib

/-!
# Newest-wins registers

A newest-wins register holds at most one value and is fed offers one at a time.  An offer
displaces the held value only when its key is strictly greater; an equal or smaller key is
refused.  After a sequence of offers the register holds the earliest offer with the greatest
key (`newest_isEarliestMax`), whatever order the offers arrived in, and a refused offer never
changes what it holds.
-/

namespace VertexSwarm.NewestWins

variable {α β : Type*} [LinearOrder β] (key : α → β)

/-- One offer: a strictly greater key displaces the held value, anything else is refused. -/
def offer : Option α → α → Option α
  | none, incoming => some incoming
  | some held, incoming => if key held < key incoming then some incoming else some held

/-- The register after the offers `offers`, starting from `held`. -/
def feed (held : Option α) (offers : List α) : Option α := offers.foldl (offer key) held

/-- The register after the offers `offers`, starting empty. -/
def newest (offers : List α) : Option α := feed key none offers

/-- `winner` is the earliest element of `offers` whose key is the greatest: every element before
it has a strictly smaller key, and no element after it a greater one. -/
def IsEarliestMax (offers : List α) (winner : α) : Prop :=
  ∃ before after, offers = before ++ winner :: after ∧
    (∀ other ∈ before, key other < key winner) ∧ ∀ other ∈ after, key other ≤ key winner

@[simp]
theorem offer_none (incoming : α) : offer key none incoming = some incoming := rfl

theorem offer_some (held incoming : α) :
    offer key (some held) incoming = if key held < key incoming then some incoming else some held :=
  rfl

@[simp]
theorem feed_nil (held : Option α) : feed key held [] = held := rfl

@[simp]
theorem feed_append_singleton (held : Option α) (offers : List α) (incoming : α) :
    feed key held (offers ++ [incoming]) = offer key (feed key held offers) incoming := by
  simp [feed, List.foldl_append]

theorem offer_ne_none (held : Option α) (incoming : α) : offer key held incoming ≠ none := by
  cases held with
  | none => simp
  | some held =>
    rw [offer_some]
    split <;> simp

theorem feed_mem {held : Option α} {offers : List α} {winner : α}
    (h : feed key held offers = some winner) : held = some winner ∨ winner ∈ offers := by
  induction offers using List.reverseRecOn generalizing winner with
  | nil => exact Or.inl h
  | append_singleton offers incoming ih =>
    rw [feed_append_singleton] at h
    cases hprev : feed key held offers with
    | none =>
      rw [hprev, offer_none, Option.some.injEq] at h
      exact Or.inr (by simp [h])
    | some previous =>
      rw [hprev, offer_some] at h
      split at h
      · exact Or.inr (by simp [(Option.some.inj h).symm])
      · rcases ih (Option.some.inj h ▸ hprev) with h' | h'
        · exact Or.inl h'
        · exact Or.inr (by simp [h'])

theorem feed_map {γ : Type*} (f : γ → α) (held : Option γ) (offers : List γ) :
    feed key (held.map f) (offers.map f) = (feed (key ∘ f) held offers).map f := by
  induction offers using List.reverseRecOn with
  | nil => rfl
  | append_singleton offers incoming ih =>
    rw [List.map_append, List.map_singleton, feed_append_singleton, feed_append_singleton, ih]
    cases feed (key ∘ f) held offers with
    | none => rfl
    | some previous =>
      simp only [Option.map_some, offer_some, Function.comp_apply]
      split <;> rfl

theorem newest_eq_none_iff {offers : List α} : newest key offers = none ↔ offers = [] := by
  induction offers using List.reverseRecOn with
  | nil => simp [newest]
  | append_singleton offers incoming _ =>
    simp [newest, offer_ne_none]

theorem newest_isEarliestMax {offers : List α} {winner : α}
    (h : newest key offers = some winner) : IsEarliestMax key offers winner := by
  induction offers using List.reverseRecOn generalizing winner with
  | nil => simp [newest] at h
  | append_singleton offers incoming ih =>
    rw [newest, feed_append_singleton, ← newest] at h
    cases hprev : newest key offers with
    | none =>
      rw [hprev, offer_none, Option.some.injEq] at h
      subst h
      have hempty : offers = [] := (newest_eq_none_iff key).mp hprev
      exact ⟨[], [], by simp [hempty], by simp, by simp⟩
    | some previous =>
      obtain ⟨before, after, hsplit, hbefore, hafter⟩ := ih hprev
      rw [hprev, offer_some] at h
      split at h
      · next hlt =>
        -- a strictly newer offer: everything earlier is strictly older than it
        rw [Option.some.injEq] at h
        subst h
        refine ⟨offers, [], by simp, fun other hother ↦ ?_, by simp⟩
        rw [hsplit] at hother
        rcases List.mem_append.mp hother with hother | hother
        · exact (hbefore other hother).trans hlt
        · rcases List.mem_cons.mp hother with rfl | hother
          · exact hlt
          · exact lt_of_le_of_lt (hafter other hother) hlt
      · next hge =>
        -- a refused offer joins the tail behind the held winner
        rw [Option.some.injEq] at h
        subst h
        refine ⟨before, after ++ [incoming], by simp [hsplit], hbefore, fun other hother ↦ ?_⟩
        rcases List.mem_append.mp hother with hother | hother
        · exact hafter other hother
        · rw [List.mem_singleton.mp hother]
          exact not_lt.mp hge

theorem isEarliestMax_unique {offers : List α} {winner winner' : α}
    (h : IsEarliestMax key offers winner) (h' : IsEarliestMax key offers winner') :
    winner = winner' := by
  obtain ⟨before, after, hsplit, hbefore, hafter⟩ := h
  obtain ⟨before', after', hsplit', hbefore', hafter'⟩ := h'
  have hmem : winner ∈ offers := by simp [hsplit]
  have hmem' : winner' ∈ offers := by simp [hsplit']
  -- each winner's key bounds the other's, so the two keys agree
  have hbound : ∀ {w : α} {b a : List α}, offers = b ++ w :: a → (∀ o ∈ b, key o < key w) →
      (∀ o ∈ a, key o ≤ key w) → ∀ o ∈ offers, key o ≤ key w := by
    intro w b a hs hb ha o ho
    rw [hs] at ho
    rcases List.mem_append.mp ho with ho | ho
    · exact (hb o ho).le
    · rcases List.mem_cons.mp ho with rfl | ho
      · exact le_rfl
      · exact ha o ho
  have hkey : key winner = key winner' :=
    le_antisymm (hbound hsplit' hbefore' hafter' winner hmem)
      (hbound hsplit hbefore hafter winner' hmem')
  rcases List.append_eq_append_iff.mp (hsplit.symm.trans hsplit') with ⟨mid, hb, hm⟩ | ⟨mid, hb', hm⟩
  · cases mid with
    | nil => exact (by simpa using hm : winner = winner' ∧ after = after').1
    | cons head mid =>
      have hlt := hbefore' winner (by rw [hb]; simp [List.mem_append, ← (List.cons.inj hm).1])
      exact absurd hkey (ne_of_lt hlt)
  · cases mid with
    | nil => exact (by simpa using hm.symm : winner = winner' ∧ after = after').1
    | cons head mid =>
      have hlt := hbefore winner' (by rw [hb']; simp [List.mem_append, ← (List.cons.inj hm).1])
      exact absurd hkey.symm (ne_of_lt hlt)

end VertexSwarm.NewestWins
