/-
  CFiber.Base.Heaped — the order of a binary heap, and the one place it may fail.

  `k : Nat → β` gives the key of each slot; slot `i > 0` hangs below slot `(i - 1) / 2`.  A heap
  operation disturbs one slot, the hole, and walks it up or down:

    • `UpHole`   — only the pair above the hole may be out of order; `UpHole.move`, `UpHole.done`;
    • `DownHole` — only the pairs below it may be; `DownHole.move`, `DownHole.done`;
    • `Hole`     — both, as when a removed member's slot is filled; it is one of the two.
-/
import CFiber.Base.Indexed
import Mathlib.Order.Lattice

namespace CFiber.Base

variable {β : Type*} [LinearOrder β]

/-! ## §1. The order. -/

/-- Each of the first `n` keys is at least its parent's. -/
def Heaped (k : Nat → β) (n : Nat) : Prop := ∀ i, 0 < i → i < n → k ((i - 1) / 2) ≤ k i

/-- **The root has the least key**, by induction on the slot. -/
theorem Heaped.root_le {k : Nat → β} {n : Nat} (h : Heaped k n) : ∀ i, i < n → k 0 ≤ k i := by
  intro i
  induction i using Nat.strongRecOn with
  | ind i ih =>
      intro hi
      by_cases hpos : 0 < i
      · have hparent := ih ((i - 1) / 2) (by omega) (by omega)
        exact le_trans hparent (h i hpos hi)
      · obtain rfl : i = 0 := by omega
        exact le_refl _

theorem Heaped.mono {k : Nat → β} {n m : Nat} (h : Heaped k n) (hm : m ≤ n) : Heaped k m :=
  fun i hpos hi => h i hpos (by omega)

theorem Heaped.congr {k k' : Nat → β} {n : Nat} (h : Heaped k n) (hk : ∀ i < n, k' i = k i) :
    Heaped k' n := by
  intro i hpos hi
  rw [hk i hi, hk _ (by omega)]
  exact h i hpos hi

/-! ## §2. Sifting up. -/

/-- Only the pair above slot `i` may be out of order; what is below `i` is above its parent. -/
structure UpHole (k : Nat → β) (n i : Nat) : Prop where
  off : ∀ j, 0 < j → j < n → j ≠ i → k ((j - 1) / 2) ≤ k j
  grand : 0 < i → ∀ j, 0 < j → j < n → (j - 1) / 2 = i → k ((i - 1) / 2) ≤ k j

theorem UpHole.done {k : Nat → β} {n i : Nat} (h : UpHole k n i)
    (hstop : 0 < i → k ((i - 1) / 2) ≤ k i) : Heaped k n := by
  intro j hpos hj
  by_cases hji : j = i
  · subst hji; exact hstop hpos
  · exact h.off j hpos hj hji

/-- **One turn up**: the hole trades places with its parent. -/
theorem UpHole.move {k : Nat → β} {n i : Nat} (h : UpHole k n i) (hpos : 0 < i) (hi : i < n)
    (hlt : k i < k ((i - 1) / 2)) : UpHole (swapAt k i ((i - 1) / 2)) n ((i - 1) / 2) := by
  have hpi : (i - 1) / 2 ≠ i := by omega
  generalize hp : (i - 1) / 2 = p at *
  refine ⟨?_, ?_⟩
  · intro j hj hjn hjp
    by_cases hji : j = i
    · -- the old parent is below the old hole now
      subst hji
      rw [hp, swapAt_right, swapAt_left]
      exact le_of_lt hlt
    by_cases hjc : (j - 1) / 2 = i
    · rw [hjc, swapAt_left, swapAt_of_ne k hji hjp, ← hp]
      exact h.grand hpos j hj hjn hjc
    by_cases hjs : (j - 1) / 2 = p
    · -- a sibling of the hole was above the old parent
      rw [hjs, swapAt_right, swapAt_of_ne k hji hjp]
      have := h.off j hj hjn hji
      rw [hjs] at this
      exact le_trans (le_of_lt hlt) this
    · rw [swapAt_of_ne k hjc hjs, swapAt_of_ne k hji hjp]
      exact h.off j hj hjn hji
  · intro hp0 j hj hjn hjp
    have hup : k ((p - 1) / 2) ≤ k p := h.off p hp0 (by omega) hpi
    rw [swapAt_of_ne k (by omega) (by omega)]
    by_cases hji : j = i
    · subst hji
      rw [swapAt_left]
      exact hup
    · rw [swapAt_of_ne k hji (by omega)]
      have := h.off j hj hjn hji
      rw [hjp] at this
      exact le_trans hup this

/-! ## §3. Sifting down. -/

/-- Only the pairs below slot `i` may be out of order; what is below `i` is above its parent. -/
structure DownHole (k : Nat → β) (n i : Nat) : Prop where
  off : ∀ j, 0 < j → j < n → (j - 1) / 2 ≠ i → k ((j - 1) / 2) ≤ k j
  grand : 0 < i → ∀ j, 0 < j → j < n → (j - 1) / 2 = i → k ((i - 1) / 2) ≤ k j

theorem DownHole.done {k : Nat → β} {n i : Nat} (h : DownHole k n i)
    (hstop : ∀ j, 0 < j → j < n → (j - 1) / 2 = i → k i ≤ k j) : Heaped k n := by
  intro j hpos hj
  by_cases hji : (j - 1) / 2 = i
  · rw [hji]; exact hstop j hpos hj hji
  · exact h.off j hpos hj hji

/-- **One turn down**: the hole trades places with the least of its children. -/
theorem DownHole.move {k : Nat → β} {n i c : Nat} (h : DownHole k n i) (hc : 0 < c) (hcn : c < n)
    (hci : (c - 1) / 2 = i) (hlt : k c < k i)
    (hmin : ∀ j, 0 < j → j < n → (j - 1) / 2 = i → k c ≤ k j) :
    DownHole (swapAt k i c) n c := by
  refine ⟨?_, ?_⟩
  · intro j hj hjn hjc
    by_cases hji : j = i
    · -- the lifted child is above the hole's parent
      subst hji
      rw [swapAt_left, swapAt_of_ne k (by omega) hjc]
      exact h.grand hj c hc hcn hci
    by_cases hjx : j = c
    · subst hjx
      rw [hci, swapAt_left, swapAt_right]
      exact le_of_lt hlt
    by_cases hjs : (j - 1) / 2 = i
    · rw [hjs, swapAt_left, swapAt_of_ne k hji hjx]
      exact hmin j hj hjn hjs
    · rw [swapAt_of_ne k hjs hjc, swapAt_of_ne k hji hjx]
      exact h.off j hj hjn hjs
  · intro _ j hj hjn hjc
    rw [hci, swapAt_left, swapAt_of_ne k (by omega) (by omega)]
    have := h.off j hj hjn (by omega)
    rwa [hjc] at this

/-! ## §4. A slot that was overwritten. -/

/-- Every pair without slot `i` is in order, and what is below `i` is above its parent. -/
structure Hole (k : Nat → β) (n i : Nat) : Prop where
  off : ∀ j, 0 < j → j < n → j ≠ i → (j - 1) / 2 ≠ i → k ((j - 1) / 2) ≤ k j
  grand : 0 < i → ∀ j, 0 < j → j < n → (j - 1) / 2 = i → k ((i - 1) / 2) ≤ k j

/-- **Either way.**  The new key fits below its parent, or it fits above its children. -/
theorem Hole.split {k : Nat → β} {n i : Nat} (h : Hole k n i) :
    DownHole k n i ∨
      (UpHole k n i ∧ ∀ j, 0 < j → j < n → (j - 1) / 2 = i → k i ≤ k j) := by
  by_cases hup : 0 < i → k ((i - 1) / 2) ≤ k i
  · left
    refine ⟨?_, h.grand⟩
    intro j hj hjn hji
    by_cases he : j = i
    · subst he; exact hup hj
    · exact h.off j hj hjn he hji
  · right
    have hpos : 0 < i := by
      by_contra hn
      exact hup fun hp => absurd hp hn
    have hlt : k i < k ((i - 1) / 2) := not_le.mp fun hle => hup fun _ => hle
    have hbelow : ∀ j, 0 < j → j < n → (j - 1) / 2 = i → k i ≤ k j := fun j hj hjn hji =>
      le_trans (le_of_lt hlt) (h.grand hpos j hj hjn hji)
    refine ⟨⟨?_, h.grand⟩, hbelow⟩
    intro j hj hjn he
    by_cases hji : (j - 1) / 2 = i
    · rw [hji]; exact hbelow j hj hjn hji
    · exact h.off j hj hjn he hji

/-- Overwriting a slot of a heap. -/
theorem Heaped.hole {k k' : Nat → β} {n m i : Nat} (h : Heaped k m) (hn : n ≤ m)
    (hk : ∀ j < n, j ≠ i → k' j = k j) (hi : i < n) : Hole k' n i := by
  refine ⟨?_, ?_⟩
  · intro j hj hjn hji hpi
    rw [hk j hjn hji, hk _ (by omega) hpi]
    exact h j hj (by omega)
  · intro hpos j hj hjn hji
    rw [hk _ (by omega) (by omega), hk j hjn (by omega)]
    have h1 := h i hpos (by omega)
    have h2 := h j hj (by omega)
    rw [hji] at h2
    exact le_trans h1 h2

/-- Putting a newcomer behind the last slot. -/
theorem Heaped.push {k k' : Nat → β} {n : Nat} (h : Heaped k n) (hk : ∀ j < n, k' j = k j) :
    UpHole k' (n + 1) n := by
  refine ⟨?_, ?_⟩
  · intro j hj hjn hjl
    rw [hk j (by omega), hk _ (by omega)]
    exact h j hj (by omega)
  · intro _ j hj hjn hjp
    omega

end CFiber.Base
