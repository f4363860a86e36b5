/-
  CFiber.Commands.RingInv — the inductive invariant of the command ring.

  Positions are unwrapped natural numbers here.  With `R` positions released by the consumer and a
  capacity of `2 ^ k`, the cells stand for the positions of the window `[R, R + 2 ^ k)`, one each:
  the counter of the cell of position `q` is `q` while `q` is free or claimed but unpublished, and
  `q + 1` once it is published.  With a capacity of at least two these values tell the cases apart.

  `RingInv.enq_step` and `RingInv.deq_step` show that every atomic access keeps the invariant,
  provided a producer about to compare a counter with its position holds one fewer than `2 ^ 64`
  behind the end of the window: closer than that, equal wrapped positions are equal.  The sign of a
  difference takes half of it (`RingInv.full_of_lt`).
-/
import CFiber.Commands.Ring

namespace CFiber.Commands

open CFiber.Base

variable {τ α : Type}

/-! ## §1. Wrapped positions. -/

theorem difference_ofNat {a b : Nat} (hlo : b ≤ a + 2 ^ 63) (hhi : a < b + 2 ^ 63) :
    difference (UInt64.ofNat a) (UInt64.ofNat b) = (a : Int) - b := by
  have h : difference (UInt64.ofNat a) (UInt64.ofNat b)
      = (BitVec.ofNat 64 a - BitVec.ofNat 64 b).toInt := rfl
  rw [h, BitVec.toInt_sub, BitVec.toInt_ofNat', BitVec.toInt_ofNat', Int.sub_bmod_bmod,
    Int.bmod_sub_bmod, Int.bmod_eq_of_le] <;> omega

theorem difference_eq_zero {x y : UInt64} : difference x y = 0 ↔ x = y := by
  constructor
  · intro h
    have hbits : (x - y).toInt64 = (0 : UInt64).toInt64 := Int64.toInt_inj.mp h
    have hzero : x - y = 0 := congrArg Int64.toUInt64 hbits
    rw [← UInt64.sub_add_cancel x y, hzero, UInt64.zero_add]
  · rintro rfl
    rw [difference, UInt64.sub_self]
    rfl

theorem ofNat_inj_near {a b : Nat} (hlo : b < a + 2 ^ 64) (hhi : a < b + 2 ^ 64)
    (h : UInt64.ofNat a = UInt64.ofNat b) : a = b := by
  have hmod : a % 2 ^ 64 = b % 2 ^ 64 := by
    have := congrArg UInt64.toNat h
    simpa [UInt64.toNat_ofNat'] using this
  omega

theorem ofNat_succ (a : Nat) : UInt64.ofNat a + 1 = UInt64.ofNat (a + 1) :=
  (UInt64.ofNat_add a 1).symm

/-- Two positions of one cell are a capacity apart. -/
theorem apart_of_mod_eq {a b cap : Nat} (h : a % cap = b % cap) (hlt : a < b) : a + cap ≤ b := by
  have hdvd : cap ∣ b - a := (Nat.modEq_iff_dvd' hlt.le).mp h
  have := Nat.le_of_dvd (by omega) hdvd
  omega

/-- A cell stands for exactly one position of the window. -/
theorem window_inj {a b R cap : Nat} (h : a % cap = b % cap) (ha : R ≤ a) (ha' : a < R + cap)
    (hb : R ≤ b) (hb' : b < R + cap) : a = b := by
  rcases Nat.lt_trichotomy a b with hlt | heq | hlt
  · have := apart_of_mod_eq h hlt
    omega
  · exact heq
  · have := apart_of_mod_eq h.symm hlt
    omega

theorem window_exists (a R : Nat) {cap : Nat} (hcap : 0 < cap) :
    ∃ q, R ≤ q ∧ q < R + cap ∧ q % cap = a % cap := by
  refine ⟨R + (a + (cap - 1) * R) % cap, Nat.le_add_right _ _,
    Nat.add_lt_add_left (Nat.mod_lt _ hcap) R, ?_⟩
  obtain ⟨c, rfl⟩ := Nat.exists_eq_succ_of_ne_zero hcap.ne'
  have : R + (a + (c.succ - 1) * R) = a + c.succ * R := by
    rw [Nat.succ_sub_one, Nat.succ_mul]
    omega
  rw [Nat.add_mod_mod, this, Nat.add_mul_mod_self_left]

theorem mask_and {k : Nat} (hk : k < 64) (a : Nat) :
    (UInt64.ofNat a &&& (UInt64.ofNat (2 ^ k) - 1)).toNat = a % 2 ^ k := by
  have hlt : 2 ^ k < 2 ^ 64 := Nat.pow_lt_pow_right (by omega) hk
  have hpos : 0 < 2 ^ k := Nat.two_pow_pos k
  have hmask : UInt64.ofNat (2 ^ k) - 1 = UInt64.ofNat (2 ^ k - 1) := by
    obtain ⟨m, hm⟩ := Nat.exists_eq_succ_of_ne_zero hpos.ne'
    rw [hm, Nat.succ_sub_one, Nat.succ_eq_add_one, UInt64.ofNat_add]
    exact UInt64.add_sub_cancel _ _
  rw [hmask, UInt64.toNat_and, UInt64.toNat_ofNat', UInt64.toNat_ofNat',
    Nat.mod_eq_of_lt (by omega : 2 ^ k - 1 < 2 ^ 64), Nat.and_two_pow_sub_one_eq_mod]
  exact Nat.mod_mod_of_dvd _ (Nat.pow_dvd_pow 2 hk.le)

/-! ## §2. The invariant. -/

/-- The command of a call that has claimed a position and not yet published it. -/
def Enq.claim : Enq α → Option α
  | .write cmd _ | .publish cmd _ => some cmd
  | _ => none

/-- One between the consumer's compare-exchange and its release of the cell. -/
def Deq.ahead : Deq α → Nat
  | .read _ | .release _ _ => 1
  | _ => 0

/-- The commands of the calls that returned true. -/
def accepted (results : List (α × Bool)) : List α := (results.filter Prod.snd).map Prod.fst

/-- Producer `t` owns the position it holds. -/
structure Holds (s : RingSys τ α) (t : τ) (cmd : α) (pos : UInt64) : Prop where
  pos : pos = UInt64.ofNat (s.position t)
  claimed : s.claimed[s.position t]? = some (t, cmd)
  unpublished : s.published (s.position t) = false

/-- What producer `t` knows at `pc`. -/
def Enq.Ok (k : Nat) (s : RingSys τ α) (t : τ) : Enq α → Prop
  | .seq _ pos => pos = UInt64.ofNat (s.position t) ∧ s.position t ≤ s.claimed.length
  | .cas _ pos => pos = UInt64.ofNat (s.position t) ∧ s.position t ≤ s.claimed.length ∧
      s.position t < s.consumed.length + 2 ^ k
  | .write cmd pos => Holds s t cmd pos
  | .publish cmd pos => Holds s t cmd pos ∧ s.ring.cmd (s.position t % 2 ^ k) = cmd
  | _ => True

/-- What the consumer knows at `pc`. -/
def Deq.Ok (s : RingSys τ α) : Deq α → Prop
  | .seq pos => pos = UInt64.ofNat s.consumed.length
  | .cas pos => pos = UInt64.ofNat s.consumed.length ∧ s.published s.consumed.length = true
  | .read pos => pos = UInt64.ofNat s.consumed.length ∧ s.published s.consumed.length = true
  | .release pos out => pos = UInt64.ofNat s.consumed.length ∧
      s.published s.consumed.length = true ∧ ∃ t, s.claimed[s.consumed.length]? = some (t, out)
  | _ => True

theorem accepted_snoc (l : List (α × Bool)) (cmd : α) (ok : Bool) :
    accepted (l ++ [(cmd, ok)]) = accepted l ++ if ok then [cmd] else [] := by
  cases ok <;> simp [accepted]

theorem getElem?_snoc {l : List (τ × α)} {q : Nat} {x y : τ × α} (h : l[q]? = some x) :
    (l ++ [y])[q]? = some x := by
  obtain ⟨hlt, -⟩ := List.getElem?_eq_some_iff.mp h
  rw [List.getElem?_append_left hlt, h]

/-- Two producers never own the same position. -/
theorem Holds.ne {s : RingSys τ α} {t u : τ} {c d : α} {p p' : UInt64} (ht : Holds s t c p)
    (hu : Holds s u d p') (hne : u ≠ t) : s.position u ≠ s.position t := by
  intro e
  have := hu.claimed
  rw [e, ht.claimed] at this
  exact hne (congrArg Prod.fst (Option.some.inj this)).symm

/-- What a producer knows survives a step of somebody else. -/
theorem Enq.Ok.transfer {k : Nat} {s s' : RingSys τ α} {u : τ} {pc : Enq α} (h : pc.Ok k s u)
    (hpos : s'.position u = s.position u) (hclaimed : s.claimed.length ≤ s'.claimed.length)
    (hconsumed : s.consumed.length ≤ s'.consumed.length)
    (hholds : ∀ cmd pos, Holds s u cmd pos → Holds s' u cmd pos)
    (hcell : ∀ cmd pos, Holds s u cmd pos →
      s'.ring.cmd (s.position u % 2 ^ k) = s.ring.cmd (s.position u % 2 ^ k)) : pc.Ok k s' u := by
  cases pc with
  | seq cmd pos => exact ⟨by rw [hpos]; exact h.1, by rw [hpos]; exact h.2.trans hclaimed⟩
  | cas cmd pos =>
      exact ⟨by rw [hpos]; exact h.1, by rw [hpos]; exact h.2.1.trans hclaimed,
        by rw [hpos]; exact h.2.2.trans_le (Nat.add_le_add_right hconsumed _)⟩
  | write cmd pos => exact hholds cmd pos h
  | publish cmd pos =>
      exact ⟨hholds cmd pos h.1, by rw [hpos, hcell cmd pos h.1]; exact h.2⟩
  | idle => trivial
  | load cmd => trivial
  | ret ok => trivial

variable [DecidableEq τ]

/-- The commands producer `t` claimed a position for, in the order of the positions. -/
def claimedBy (s : RingSys τ α) (t : τ) : List α :=
  (s.claimed.filter fun c => c.1 = t).map Prod.snd

/-- The invariant: cursors, cells and program counters against the history. -/
structure RingInv (k : Nat) (s : RingSys τ α) : Prop where
  mask : s.ring.mask = UInt64.ofNat (2 ^ k) - 1
  enq_pos : s.ring.enqueue_pos = UInt64.ofNat s.claimed.length
  deq_pos : s.ring.dequeue_pos = UInt64.ofNat (s.consumed.length + s.deq.ahead)
  window : s.claimed.length ≤ s.consumed.length + 2 ^ k
  seq : ∀ q, s.consumed.length ≤ q → q < s.consumed.length + 2 ^ k →
    s.ring.seq (q % 2 ^ k) = UInt64.ofNat (if s.published q then q + 1 else q)
  published_lt : ∀ q, s.published q = true → q < s.claimed.length
  released : ∀ q < s.consumed.length, s.published q = true
  producer : ∀ t, (s.enq t).Ok k s t
  holder : ∀ q t cmd, s.claimed[q]? = some (t, cmd) → s.published q = false →
    s.position t = q ∧ (s.enq t).claim = some cmd
  content : ∀ q t cmd, s.consumed.length ≤ q → s.claimed[q]? = some (t, cmd) →
    s.published q = true → s.ring.cmd (q % 2 ^ k) = cmd
  consumer : s.deq.Ok s
  order : s.consumed = (s.claimed.map Prod.snd).take s.consumed.length
  returned : ∀ t, claimedBy s t = accepted (s.results t) ++ (s.enq t).claim.toList

/-- The position a producer compares counters with is fewer than `reach` behind the window's end. -/
def NearAt (reach k : Nat) (s : RingSys τ α) (t : τ) : Prop :=
  match s.enq t with
  | .seq _ _ | .cas _ _ => s.consumed.length + 2 ^ k < s.position t + reach
  | _ => True

/-- Every position in use is fewer than `reach` positions from the end of the window. -/
def Near (reach k : Nat) (s : RingSys τ α) : Prop := ∀ t, NearAt reach k s t

omit [DecidableEq τ] in
theorem Near.mono {reach reach' k : Nat} {s : RingSys τ α} (h : Near reach k s)
    (hle : reach ≤ reach') : Near reach' k s := by
  intro t
  have := h t
  unfold NearAt at this ⊢
  split at this <;> omega

theorem RingInv.cell {k : Nat} {s : RingSys τ α} (hk : k < 64) (h : RingInv k s) (a : Nat) :
    s.ring.cell (UInt64.ofNat a) = a % 2 ^ k := by
  unfold CmdRing.cell
  rw [h.mask, mask_and hk]

/-- Before its release the consumer is behind the producers. -/
theorem RingInv.consumed_le {k : Nat} {s : RingSys τ α} (h : RingInv k s) :
    s.consumed.length ≤ s.claimed.length := by
  have := congrArg List.length h.order
  rw [List.length_take, List.length_map] at this
  omega

theorem init_seq_eq (cap i : Nat) : init_seq cap i = if i < cap then UInt64.ofNat i else 0 := by
  induction cap with
  | zero => rfl
  | succ cap ih =>
      have hstep : init_seq (cap + 1) = Function.update (init_seq cap) cap (UInt64.ofNat cap) := by
        simp [init_seq, List.range_succ]
      rw [hstep]
      by_cases hi : i = cap
      · subst hi
        simp
      · rw [Function.update_of_ne hi, ih]
        by_cases hlt : i < cap
        · rw [if_pos hlt, if_pos (by omega)]
        · rw [if_neg hlt, if_neg (by omega)]

/-- **A fresh ring satisfies the invariant.** -/
theorem RingInv.start [Inhabited α] {k : Nat} {ring : CmdRing α}
    (hinit : ring_init (2 ^ k) = some ring) : RingInv k (RingSys.start ring : RingSys τ α) := by
  unfold ring_init at hinit
  split_ifs at hinit
  obtain rfl := Option.some.inj hinit
  refine ⟨rfl, rfl, rfl, ?window, ?seq, ?published_lt, ?released, ?producer, ?holder, ?content,
    trivial, rfl, ?returned⟩
  case window => exact Nat.zero_le _
  case seq =>
    intro q _ hq
    have hq' : q < 2 ^ k := by simpa [RingSys.start] using hq
    show init_seq (2 ^ k) (q % 2 ^ k) = UInt64.ofNat q
    rw [Nat.mod_eq_of_lt hq', init_seq_eq, if_pos hq']
  case published_lt =>
    intro q hq
    exact absurd hq (by simp [RingSys.start])
  case released =>
    intro q hq
    exact absurd hq (by simp [RingSys.start])
  case producer => exact fun t => trivial
  case holder =>
    intro q t cmd hq
    exact absurd hq (by simp [RingSys.start])
  case content =>
    intro q t cmd _ hq
    exact absurd hq (by simp [RingSys.start])
  case returned =>
    intro t
    rfl

/-- The counter of a cell, seen from a position at most the end of the window. -/
theorem RingInv.seq_cell {k : Nat} {s : RingSys τ α} (h : RingInv k s) (a : Nat) :
    ∃ q, s.consumed.length ≤ q ∧ q < s.consumed.length + 2 ^ k ∧ q % 2 ^ k = a % 2 ^ k ∧
      s.ring.seq (a % 2 ^ k) = UInt64.ofNat (if s.published q then q + 1 else q) := by
  obtain ⟨q, hlo, hhi, hq⟩ := window_exists a s.consumed.length (Nat.two_pow_pos k)
  exact ⟨q, hlo, hhi, hq, by rw [← hq]; exact h.seq q hlo hhi⟩

/-- **A counter equal to the producer's position**: the cell is free for it. -/
theorem RingInv.free_of_eq {k : Nat} (hk : 1 ≤ k) {s : RingSys τ α} (h : RingInv k s) {a : Nat}
    (ha : a ≤ s.claimed.length) (hk' : k < 60) (hnear : s.consumed.length + 2 ^ k < a + 2 ^ 64)
    (hdif : difference (s.ring.seq (a % 2 ^ k)) (UInt64.ofNat a) = 0) :
    a < s.consumed.length + 2 ^ k := by
  obtain ⟨q, hlo, hhi, hq, hseq⟩ := h.seq_cell a
  have hw := h.window
  have htwo : 2 ^ 1 ≤ 2 ^ k := Nat.pow_le_pow_right (by decide) hk
  have hcap : 2 ^ k < 2 ^ 60 := Nat.pow_lt_pow_right (by decide) hk'
  rw [difference_eq_zero, hseq] at hdif
  have hdif := ofNat_inj_near (by split <;> omega) (by split <;> omega) hdif
  split at hdif
  · -- the counter of a published position is one more, which is no position of this cell
    have := apart_of_mod_eq hq (by omega)
    omega
  · omega

/-- **A counter behind the producer's position**: the ring is full at this moment. -/
theorem RingInv.full_of_lt {k : Nat} {s : RingSys τ α} (h : RingInv k s) {a : Nat}
    (ha : a ≤ s.claimed.length) (hk' : k < 60) (hnear : s.consumed.length + 2 ^ k < a + 2 ^ 63)
    (hdif : difference (s.ring.seq (a % 2 ^ k)) (UInt64.ofNat a) < 0) :
    a = s.claimed.length ∧ s.claimed.length = s.consumed.length + 2 ^ k := by
  obtain ⟨q, hlo, hhi, hq, hseq⟩ := h.seq_cell a
  have hw := h.window
  have hcap : 2 ^ k < 2 ^ 60 := Nat.pow_lt_pow_right (by decide) hk'
  rw [hseq, difference_ofNat (by split <;> omega) (by split <;> omega)] at hdif
  have hlt : q < a := by
    split at hdif <;> omega
  have := apart_of_mod_eq hq hlt
  omega

/-- Changing one producer's program counter, outside its claim, touches nothing else. -/
theorem RingInv.frame {k : Nat} {s s' : RingSys τ α} (h : RingInv k s) (t : τ)
    (hring : s'.ring = s.ring) (hdeq : s'.deq = s.deq) (hclaimed : s'.claimed = s.claimed)
    (hconsumed : s'.consumed = s.consumed) (hpub : s'.published = s.published)
    (hother : ∀ u, u ≠ t → s'.enq u = s.enq u ∧ s'.position u = s.position u ∧
      s'.results u = s.results u)
    (hold : (s.enq t).claim = none) (hnew : (s'.enq t).claim = none)
    (hok : (s'.enq t).Ok k s' t) (hres : accepted (s'.results t) = accepted (s.results t)) :
    RingInv k s' where
  mask := by rw [hring]; exact h.mask
  enq_pos := by rw [hring, hclaimed]; exact h.enq_pos
  deq_pos := by rw [hring, hconsumed, hdeq]; exact h.deq_pos
  window := by rw [hclaimed, hconsumed]; exact h.window
  seq := by rw [hring, hconsumed, hpub]; exact h.seq
  published_lt := by rw [hpub, hclaimed]; exact h.published_lt
  released := by rw [hpub, hconsumed]; exact h.released
  producer u := by
    by_cases hu : u = t
    · exact hu ▸ hok
    · obtain ⟨he, hp, -⟩ := hother u hu
      rw [he]
      refine (h.producer u).transfer hp (by rw [hclaimed]) (by rw [hconsumed]) ?_ ?_
      · exact fun cmd pos hh => ⟨by rw [hp]; exact hh.pos, by rw [hp, hclaimed]; exact hh.claimed,
          by rw [hp, hpub]; exact hh.unpublished⟩
      · exact fun _ _ _ => by rw [hring]
  holder q u cmd hq hun := by
    rw [hclaimed] at hq
    rw [hpub] at hun
    obtain ⟨hp, hc⟩ := h.holder q u cmd hq hun
    have hu : u ≠ t := by
      rintro rfl
      rw [hold] at hc
      exact absurd hc (by simp)
    obtain ⟨he, hpos, -⟩ := hother u hu
    exact ⟨hpos.trans hp, by rw [he]; exact hc⟩
  content := by rw [hconsumed, hclaimed, hpub, hring]; exact h.content
  consumer := by
    have := h.consumer
    rw [hdeq]
    unfold Deq.Ok at this ⊢
    rw [hconsumed, hpub, hclaimed]
    exact this
  order := by rw [hconsumed, hclaimed]; exact h.order
  returned u := by
    have hby : claimedBy s' u = claimedBy s u := by unfold claimedBy; rw [hclaimed]
    rw [hby, h.returned u]
    by_cases hu : u = t
    · subst hu
      rw [hres, hold, hnew]
    · obtain ⟨he, -, hr⟩ := hother u hu
      rw [he, hr]

/-- A producer that owns no position moves on. -/
theorem RingInv.setEnq {k : Nat} {s : RingSys τ α} (h : RingInv k s) {t : τ} {pc : Enq α}
    (hold : (s.enq t).claim = none) (hnew : pc.claim = none) (hok : pc.Ok k s t) :
    RingInv k { s with enq := Function.update s.enq t pc } := by
  refine h.frame t rfl rfl rfl rfl rfl (fun u hu => ⟨?_, rfl, rfl⟩) hold ?_ ?_ rfl
  · simp [hu]
  · simpa using hnew
  · simp only [Function.update_self]
    exact hok.transfer rfl (Nat.le_refl _) (Nat.le_refl _)
      (fun _ _ hh => ⟨hh.pos, hh.claimed, hh.unpublished⟩) fun _ _ _ => rfl

/-- A producer reads the cursor. -/
theorem RingInv.loadCursor {k : Nat} {s : RingSys τ α} (h : RingInv k s) {t : τ} (cmd : α)
    (hold : (s.enq t).claim = none) :
    RingInv k { s with
      enq := Function.update s.enq t (.seq cmd s.ring.enqueue_pos)
      position := Function.update s.position t s.claimed.length } := by
  refine h.frame t rfl rfl rfl rfl rfl (fun u hu => ⟨?_, ?_, rfl⟩) hold ?_ ?_ rfl
  · simp [hu]
  · simp [hu]
  · simp [Enq.claim]
  · have hp : Function.update s.position t s.claimed.length t = s.claimed.length :=
      Function.update_self _ _ _
    simp only [Function.update_self]
    exact ⟨h.enq_pos.trans (congrArg UInt64.ofNat hp.symm), hp.le⟩

/-- A producer returns false. -/
theorem RingInv.refuse {k : Nat} {s : RingSys τ α} (h : RingInv k s) {t : τ} (cmd : α)
    (hold : (s.enq t).claim = none) :
    RingInv k { s with
      enq := Function.update s.enq t (.ret false)
      results := Function.update s.results t (s.results t ++ [(cmd, false)]) } := by
  refine h.frame t rfl rfl rfl rfl rfl (fun u hu => ⟨?_, rfl, ?_⟩) hold ?_ ?_ ?_
  · simp [hu]
  · simp [hu]
  · simp [Enq.claim]
  · simp only [Function.update_self]
    trivial
  · simp [accepted_snoc]

theorem Enq.resting_claim {pc : Enq α} (h : pc.resting = true) : pc.claim = none := by
  cases pc with
  | idle => rfl
  | ret ok => rfl
  | _ => exact absurd h (by simp [Enq.resting])

/-- An owned position lies in the window. -/
theorem Holds.bounds {k : Nat} {s : RingSys τ α} (h : RingInv k s) {t : τ} {cmd : α} {pos : UInt64}
    (hh : Holds s t cmd pos) : s.consumed.length ≤ s.position t ∧
      s.position t < s.claimed.length := by
  obtain ⟨hlt, -⟩ := List.getElem?_eq_some_iff.mp hh.claimed
  refine ⟨?_, hlt⟩
  by_contra hgt
  have := h.released (s.position t) (by omega)
  rw [hh.unpublished] at this
  exact absurd this (by simp)

/-- **The compare-exchange succeeds**: the producer claims the next position. -/
theorem RingInv.claim {k : Nat} {s : RingSys τ α} (h : RingInv k s) {t : τ} {cmd : α} {pos : UInt64}
    (hpc : s.enq t = .cas cmd pos) (hE : s.position t = s.claimed.length) :
    RingInv k { s with
      ring := { s.ring with enqueue_pos := pos + 1 }
      enq := Function.update s.enq t (.write cmd pos)
      claimed := s.claimed ++ [(t, cmd)] } := by
  obtain ⟨hpos, -, hroom⟩ : pos = UInt64.ofNat (s.position t) ∧ s.position t ≤ s.claimed.length ∧
      s.position t < s.consumed.length + 2 ^ k := by
    have := h.producer t
    rwa [hpc] at this
  have hold : (s.enq t).claim = none := by rw [hpc]; rfl
  have hfresh : s.published s.claimed.length = false := by
    by_contra hp
    have := h.published_lt s.claimed.length (by simpa using hp)
    omega
  have hlast : (s.claimed ++ [(t, cmd)])[s.claimed.length]? = some (t, cmd) := by
    rw [List.getElem?_append_right (Nat.le_refl _), Nat.sub_self]
    rfl
  have hcons := h.consumed_le
  refine ⟨h.mask, ?enq_pos, h.deq_pos, ?window, h.seq, ?published_lt, h.released, ?producer,
    ?holder, ?content, ?consumer, ?order, ?returned⟩
  case enq_pos =>
    -- the cursor counts the claims
    show pos + 1 = UInt64.ofNat (s.claimed ++ [(t, cmd)]).length
    rw [hpos, hE, ofNat_succ, List.length_append, List.length_singleton]
  case window =>
    show (s.claimed ++ [(t, cmd)]).length ≤ _
    rw [List.length_append, List.length_singleton]
    show s.claimed.length + 1 ≤ s.consumed.length + 2 ^ k
    omega
  case published_lt =>
    intro q hq
    have := h.published_lt q hq
    simp only [List.length_append, List.length_singleton]
    omega
  case producer =>
    intro u
    by_cases hu : u = t
    · subst hu
      simp only [Function.update_self]
      exact ⟨hpos, by rw [hE]; exact hlast, by rw [hE]; exact hfresh⟩
    · simp only [Function.update_of_ne hu]
      refine (h.producer u).transfer rfl (by simp) (Nat.le_refl _) ?_ fun _ _ _ => rfl
      exact fun c p hh => ⟨hh.pos, getElem?_snoc hh.claimed, hh.unpublished⟩
  case holder =>
    intro q u c hq hun
    by_cases hlt : q < s.claimed.length
    · rw [List.getElem?_append_left hlt] at hq
      obtain ⟨hp, hc⟩ := h.holder q u c hq hun
      have hu : u ≠ t := by
        rintro rfl
        rw [hold] at hc
        exact absurd hc (by simp)
      exact ⟨hp, by simpa only [Function.update_of_ne hu] using hc⟩
    · -- the position that was just claimed
      obtain ⟨hq', -⟩ := List.getElem?_eq_some_iff.mp hq
      rw [List.length_append, List.length_singleton] at hq'
      obtain rfl : q = s.claimed.length := by omega
      obtain ⟨rfl, rfl⟩ : t = u ∧ cmd = c := by simpa using hlast.symm.trans hq
      exact ⟨hE, by simp [Enq.claim]⟩
  case content =>
    intro q u c hlo hq hp
    have hlt := h.published_lt q hp
    rw [List.getElem?_append_left hlt] at hq
    exact h.content q u c hlo hq hp
  case consumer =>
    have := h.consumer
    cases hd : s.deq with
    | release p out =>
        rw [hd] at this
        obtain ⟨h1, h2, u, h3⟩ := this
        exact ⟨h1, h2, u, getElem?_snoc h3⟩
    | idle => trivial
    | load => trivial
    | seq p => rw [hd] at this; exact this
    | cas p => rw [hd] at this; exact this
    | read p => rw [hd] at this; exact this
    | ret out => trivial
  case order =>
    rw [List.map_append, List.take_append_of_le_length (by rw [List.length_map]; exact hcons)]
    exact h.order
  case returned =>
    intro u
    have hby : claimedBy { s with
        ring := { s.ring with enqueue_pos := pos + 1 }
        enq := Function.update s.enq t (.write cmd pos)
        claimed := s.claimed ++ [(t, cmd)] } u
        = claimedBy s u ++ if t = u then [cmd] else [] := by
      unfold claimedBy
      by_cases hu : t = u <;> simp [List.filter_append, hu]
    rw [hby, h.returned u]
    by_cases hu : u = t
    · subst hu
      simp [hpc, Enq.claim]
    · simp [Ne.symm hu, hu]

/-- **The command is copied into the claimed cell.** -/
theorem RingInv.write {k : Nat} (hk : k < 64) {s : RingSys τ α} (h : RingInv k s) {t : τ} {cmd : α}
    {pos : UInt64} (hpc : s.enq t = .write cmd pos) :
    RingInv k { s with
      ring := { s.ring with cmd := Function.update s.ring.cmd (s.ring.cell pos) cmd }
      enq := Function.update s.enq t (.publish cmd pos) } := by
  have hh : Holds s t cmd pos := by
    have := h.producer t
    rwa [hpc] at this
  have hbound := hh.bounds h
  have hw := h.window
  have hcell : s.ring.cell pos = s.position t % 2 ^ k := by rw [hh.pos, h.cell hk]
  have hkeep : ∀ q, s.consumed.length ≤ q → q < s.claimed.length → q ≠ s.position t →
      Function.update s.ring.cmd (s.position t % 2 ^ k) cmd (q % 2 ^ k) = s.ring.cmd (q % 2 ^ k) := by
    intro q hlo hhi hne
    refine Function.update_of_ne (fun e => hne ?_) _ _
    exact window_inj e hlo (by omega) hbound.1 (by omega)
  rw [hcell]
  refine ⟨h.mask, h.enq_pos, h.deq_pos, h.window, h.seq, h.published_lt, h.released, ?producer,
    ?holder, ?content,
    h.consumer, h.order, ?returned⟩
  case producer =>
    intro u
    by_cases hu : u = t
    · subst hu
      simp only [Function.update_self]
      exact ⟨⟨hh.pos, hh.claimed, hh.unpublished⟩, Function.update_self _ _ _⟩
    · simp only [Function.update_of_ne hu]
      refine (h.producer u).transfer rfl (Nat.le_refl _) (Nat.le_refl _) ?_ ?_
      · exact fun c p hu' => ⟨hu'.pos, hu'.claimed, hu'.unpublished⟩
      · intro c p hu'
        have hb := hu'.bounds h
        exact hkeep _ hb.1 hb.2 (hh.ne hu' hu)
  case holder =>
    intro q u c hq hun
    obtain ⟨hp, hc⟩ := h.holder q u c hq hun
    refine ⟨hp, ?_⟩
    by_cases hu : u = t
    · subst hu
      rw [hpc] at hc
      simpa [Enq.claim] using hc
    · simpa only [Function.update_of_ne hu] using hc
  case content =>
    intro q u c hlo hq hp
    have hne : q ≠ s.position t := by
      rintro rfl
      rw [hh.unpublished] at hp
      exact absurd hp (by simp)
    exact (hkeep q hlo (h.published_lt q hp) hne).trans (h.content q u c hlo hq hp)
  case returned =>
    intro u
    show claimedBy s u = _
    rw [h.returned u]
    by_cases hu : u = t
    · subst hu
      simp [hpc, Enq.claim]
    · simp [hu]

/-- **The cell is published**, and the call returns true. -/
theorem RingInv.publish {k : Nat} (hk : k < 64) {s : RingSys τ α} (h : RingInv k s) {t : τ}
    {cmd : α} {pos : UInt64} (hpc : s.enq t = .publish cmd pos) :
    RingInv k { s with
      ring := { s.ring with seq := Function.update s.ring.seq (s.ring.cell pos) (pos + 1) }
      enq := Function.update s.enq t (.ret true)
      published := Function.update s.published (s.position t) true
      results := Function.update s.results t (s.results t ++ [(cmd, true)]) } := by
  obtain ⟨hh, hcmd⟩ : Holds s t cmd pos ∧ s.ring.cmd (s.position t % 2 ^ k) = cmd := by
    have := h.producer t
    rwa [hpc] at this
  have hbound := hh.bounds h
  have hw := h.window
  have hcell : s.ring.cell pos = s.position t % 2 ^ k := by rw [hh.pos, h.cell hk]
  rw [hcell]
  refine ⟨h.mask, h.enq_pos, h.deq_pos, h.window, ?seq, ?published_lt, ?released, ?producer,
    ?holder, ?content, ?consumer, h.order, ?returned⟩
  case seq =>
    intro q (hlo : s.consumed.length ≤ q) (hhi : q < s.consumed.length + 2 ^ k)
    by_cases hq : q = s.position t
    · -- the published position's own counter
      subst hq
      simp only [Function.update_self, if_true]
      rw [hh.pos, ofNat_succ]
    · have hne : q % 2 ^ k ≠ s.position t % 2 ^ k := fun e =>
        hq (window_inj e hlo hhi hbound.1 (by omega))
      simp only [Function.update_of_ne hne, Function.update_of_ne hq]
      exact h.seq q hlo hhi
  case published_lt =>
    intro q hq
    by_cases hqt : q = s.position t
    · rw [hqt]; exact hbound.2
    · simp only [Function.update_of_ne hqt] at hq
      exact h.published_lt q hq
  case released =>
    intro q hq
    have hq' : q < s.consumed.length := hq
    have hqt : q ≠ s.position t := fun e => by have := hbound.1; omega
    simp only [Function.update_of_ne hqt]
    exact h.released q hq
  case producer =>
    intro u
    by_cases hu : u = t
    · subst hu
      simp only [Function.update_self]
      trivial
    · simp only [Function.update_of_ne hu]
      refine (h.producer u).transfer rfl (Nat.le_refl _) (Nat.le_refl _) ?_ fun _ _ _ => rfl
      intro c p hu'
      exact ⟨hu'.pos, hu'.claimed,
        by simpa only [Function.update_of_ne (hh.ne hu' hu)] using hu'.unpublished⟩
  case holder =>
    intro q u c hq hun
    have hqt : q ≠ s.position t := by
      rintro rfl
      simp at hun
    simp only [Function.update_of_ne hqt] at hun
    obtain ⟨hp, hc⟩ := h.holder q u c hq hun
    have hu : u ≠ t := by
      rintro rfl
      exact hqt hp.symm
    exact ⟨hp, by simpa only [Function.update_of_ne hu] using hc⟩
  case content =>
    intro q u c hlo hq hp
    by_cases hqt : q = s.position t
    · subst hqt
      obtain ⟨rfl, rfl⟩ : t = u ∧ cmd = c := by simpa using hh.claimed.symm.trans hq
      exact hcmd
    · simp only [Function.update_of_ne hqt] at hp
      exact h.content q u c hlo hq hp
  case consumer =>
    have hmono : ∀ q, s.published q = true →
        Function.update s.published (s.position t) true q = true := by
      intro q hq
      by_cases hqt : q = s.position t
      · rw [hqt, Function.update_self]
      · rw [Function.update_of_ne hqt]; exact hq
    have := h.consumer
    cases hd : s.deq with
    | idle => trivial
    | load => trivial
    | seq p => rw [hd] at this; exact this
    | cas p => rw [hd] at this; exact ⟨this.1, hmono _ this.2⟩
    | read p => rw [hd] at this; exact ⟨this.1, hmono _ this.2⟩
    | release p out => rw [hd] at this; exact ⟨this.1, hmono _ this.2.1, this.2.2⟩
    | ret out => trivial
  case returned =>
    intro u
    show claimedBy s u = _
    rw [h.returned u]
    by_cases hu : u = t
    · subst hu
      simp [hpc, Enq.claim, accepted_snoc]
    · simp [hu]

/-- **Every access of a producer keeps the invariant.** -/
theorem RingInv.enq_step {k : Nat} (hk : 1 ≤ k) (hk' : k < 60) {s : RingSys τ α} (h : RingInv k s)
    {t : τ} (hnear : NearAt (2 ^ 64) k s t) (spurious : Bool) : RingInv k (s.enqStep t spurious) := by
  have hok := h.producer t
  have hpow : 2 ^ k < 2 ^ 60 := Nat.pow_lt_pow_right (by decide) hk'
  unfold NearAt at hnear
  cases hpc : s.enq t with
  | idle =>
      have heq : s.enqStep t spurious = { s with enq := Function.update s.enq t .idle } := by
        simp only [RingSys.enqStep, hpc, ring_enqueue_step, RingSys.noteEnq]
      rw [heq]
      exact h.setEnq (by rw [hpc]; rfl) rfl trivial
  | ret ok =>
      have heq : s.enqStep t spurious = { s with enq := Function.update s.enq t (.ret ok) } := by
        simp only [RingSys.enqStep, hpc, ring_enqueue_step, RingSys.noteEnq]
      rw [heq]
      exact h.setEnq (by rw [hpc]; rfl) rfl trivial
  | load cmd =>
      have heq : s.enqStep t spurious = { s with
          enq := Function.update s.enq t (.seq cmd s.ring.enqueue_pos)
          position := Function.update s.position t s.claimed.length } := by
        simp only [RingSys.enqStep, hpc, ring_enqueue_step, RingSys.noteEnq]
      rw [heq]
      exact h.loadCursor cmd (by rw [hpc]; rfl)
  | seq cmd pos =>
      rw [hpc] at hok hnear
      obtain ⟨hpos, hle⟩ := hok
      have hcell : s.ring.cell pos = s.position t % 2 ^ k := by rw [hpos, h.cell (by omega)]
      by_cases hzero : difference (s.ring.seq (s.ring.cell pos)) pos = 0
      · -- the cell is free for the position: go on to the compare-exchange
        have hroom := h.free_of_eq hk hle hk' hnear (by rw [← hcell, ← hpos]; exact hzero)
        have heq : s.enqStep t spurious
            = { s with enq := Function.update s.enq t (.cas cmd pos) } := by
          simp only [RingSys.enqStep, hpc, ring_enqueue_step, if_pos hzero, RingSys.noteEnq]
        rw [heq]
        exact h.setEnq (by rw [hpc]; rfl) rfl ⟨hpos, hle, hroom⟩
      · by_cases hlt : difference (s.ring.seq (s.ring.cell pos)) pos < 0
        · have heq : s.enqStep t spurious = { s with
              enq := Function.update s.enq t (.ret false)
              results := Function.update s.results t (s.results t ++ [(cmd, false)]) } := by
            simp only [RingSys.enqStep, hpc, ring_enqueue_step, if_neg hzero, if_pos hlt,
              RingSys.noteEnq]
          rw [heq]
          exact h.refuse cmd (by rw [hpc]; rfl)
        · have heq : s.enqStep t spurious
              = { s with enq := Function.update s.enq t (.load cmd) } := by
            simp only [RingSys.enqStep, hpc, ring_enqueue_step, if_neg hzero, if_neg hlt,
              RingSys.noteEnq]
          rw [heq]
          exact h.setEnq (by rw [hpc]; rfl) rfl trivial
  | cas cmd pos =>
      rw [hpc] at hok hnear
      obtain ⟨hpos, hle, hroom⟩ := hok
      by_cases hwin : s.ring.enqueue_pos = pos ∧ spurious = false
      · have hE : s.position t = s.claimed.length := by
          have hw := h.window
          rw [h.enq_pos, hpos] at hwin
          exact (ofNat_inj_near (by omega) (by omega) hwin.1).symm
        have heq : s.enqStep t spurious = { s with
            ring := { s.ring with enqueue_pos := pos + 1 }
            enq := Function.update s.enq t (.write cmd pos)
            claimed := s.claimed ++ [(t, cmd)] } := by
          simp only [RingSys.enqStep, hpc, ring_enqueue_step, if_pos hwin, RingSys.noteEnq]
        rw [heq]
        exact h.claim hpc hE
      · -- lost, or a spurious failure: the current cursor is reloaded
        have heq : s.enqStep t spurious = { s with
            enq := Function.update s.enq t (.seq cmd s.ring.enqueue_pos)
            position := Function.update s.position t s.claimed.length } := by
          simp only [RingSys.enqStep, hpc, ring_enqueue_step, if_neg hwin, RingSys.noteEnq]
        rw [heq]
        exact h.loadCursor cmd (by rw [hpc]; rfl)
  | write cmd pos =>
      have heq : s.enqStep t spurious = { s with
          ring := { s.ring with cmd := Function.update s.ring.cmd (s.ring.cell pos) cmd }
          enq := Function.update s.enq t (.publish cmd pos) } := by
        simp only [RingSys.enqStep, hpc, ring_enqueue_step, RingSys.noteEnq]
      rw [heq]
      exact h.write (by omega) hpc
  | publish cmd pos =>
      have heq : s.enqStep t spurious = { s with
          ring := { s.ring with seq := Function.update s.ring.seq (s.ring.cell pos) (pos + 1) }
          enq := Function.update s.enq t (.ret true)
          published := Function.update s.published (s.position t) true
          results := Function.update s.results t (s.results t ++ [(cmd, true)]) } := by
        simp only [RingSys.enqStep, hpc, ring_enqueue_step, RingSys.noteEnq]
      rw [heq]
      exact h.publish (by omega) hpc

/-! ## §4. The accesses of the consumer. -/

/-- Changing the consumer's program counter, outside its claim, touches nothing else. -/
theorem RingInv.frameDeq {k : Nat} {s : RingSys τ α} (h : RingInv k s) {pc : Deq α}
    (hahead : pc.ahead = s.deq.ahead) (hok : pc.Ok s) : RingInv k { s with deq := pc } where
  mask := h.mask
  enq_pos := h.enq_pos
  deq_pos := by rw [h.deq_pos, ← hahead]
  window := h.window
  seq := h.seq
  published_lt := h.published_lt
  released := h.released
  producer t := (h.producer t).transfer rfl (Nat.le_refl _) (Nat.le_refl _)
    (fun _ _ hh => ⟨hh.pos, hh.claimed, hh.unpublished⟩) fun _ _ _ => rfl
  holder := h.holder
  content := h.content
  consumer := by cases pc <;> exact hok
  order := h.order
  returned := h.returned

/-- **The cell is released**, and the call returns its command. -/
theorem RingInv.release {k : Nat} (hk : k < 64) {s : RingSys τ α} (h : RingInv k s) {pos : UInt64}
    {out : α} (hpc : s.deq = .release pos out) :
    RingInv k { s with
      ring := { s.ring with
        seq := Function.update s.ring.seq (s.ring.cell pos) (pos + s.ring.mask + 1) }
      deq := .ret (some out)
      consumed := s.consumed ++ [out] } := by
  obtain ⟨hpos, hpub, t, hclaim⟩ : pos = UInt64.ofNat s.consumed.length ∧
      s.published s.consumed.length = true ∧ ∃ t, s.claimed[s.consumed.length]? = some (t, out) := by
    have := h.consumer
    rwa [hpc] at this
  have hlt := h.published_lt _ hpub
  have hcell : s.ring.cell pos = s.consumed.length % 2 ^ k := by rw [hpos, h.cell hk]
  have hnext : pos + s.ring.mask + 1 = UInt64.ofNat (s.consumed.length + 2 ^ k) := by
    rw [hpos, h.mask, UInt64.add_assoc, UInt64.sub_add_cancel, UInt64.ofNat_add]
  have hlen : (s.consumed ++ [out]).length = s.consumed.length + 1 := by simp
  rw [hcell, hnext]
  refine ⟨h.mask, h.enq_pos, ?deq_pos, ?window, ?seq, h.published_lt, ?released, ?producer,
    h.holder, ?content, trivial, ?order,
    h.returned⟩
  case deq_pos =>
    have := h.deq_pos
    rw [hpc] at this
    show s.ring.dequeue_pos = UInt64.ofNat ((s.consumed ++ [out]).length + 0)
    rw [hlen]
    exact this
  case window =>
    have := h.window
    show s.claimed.length ≤ (s.consumed ++ [out]).length + 2 ^ k
    omega
  case seq =>
    intro q (hlo : (s.consumed ++ [out]).length ≤ q) (hhi : q < (s.consumed ++ [out]).length + 2 ^ k)
    rw [hlen] at hlo hhi
    by_cases hq : q = s.consumed.length + 2 ^ k
    · -- the released cell now stands for the position one capacity further
      subst hq
      have hun : s.published (s.consumed.length + 2 ^ k) = false := by
        by_contra hp
        have := h.published_lt _ (by simpa using hp)
        have := h.window
        omega
      simp [hun]
    · have hne : q % 2 ^ k ≠ s.consumed.length % 2 ^ k := by
        intro e
        have := apart_of_mod_eq e.symm (by omega)
        omega
      simp only [Function.update_of_ne hne]
      exact h.seq q (by omega) (by omega)
  case released =>
    intro q (hq : q < (s.consumed ++ [out]).length)
    rw [hlen] at hq
    rcases Nat.lt_succ_iff_lt_or_eq.mp hq with hq | rfl
    · exact h.released q hq
    · exact hpub
  case producer =>
    intro u
    exact (h.producer u).transfer rfl (Nat.le_refl _) (by simp)
      (fun _ _ hh => ⟨hh.pos, hh.claimed, hh.unpublished⟩) fun _ _ _ => rfl
  case content =>
    intro q u c (hlo : (s.consumed ++ [out]).length ≤ q) hq hp
    exact h.content q u c (by omega) hq hp
  case order =>
    show s.consumed ++ [out] = (s.claimed.map Prod.snd).take (s.consumed ++ [out]).length
    rw [hlen, List.take_add_one, ← h.order, List.getElem?_map, hclaim]
    rfl

/-- **Every access of the consumer keeps the invariant.** -/
theorem RingInv.deq_step {k : Nat} (hk : k < 60) {s : RingSys τ α} (h : RingInv k s)
    (spurious : Bool) : RingInv k (s.deqStep spurious) := by
  have hok := h.consumer
  have hdeq := h.deq_pos
  cases hpc : s.deq with
  | idle =>
      have heq : s.deqStep spurious = { s with deq := .idle } := by
        simp only [RingSys.deqStep, hpc, ring_dequeue_step, RingSys.noteDeq]
      rw [heq]
      exact h.frameDeq (by rw [hpc]) trivial
  | ret out =>
      have heq : s.deqStep spurious = { s with deq := .ret out } := by
        simp only [RingSys.deqStep, hpc, ring_dequeue_step, RingSys.noteDeq]
      rw [heq]
      exact h.frameDeq (by rw [hpc]) trivial
  | load =>
      rw [hpc] at hdeq
      have heq : s.deqStep spurious = { s with deq := .seq s.ring.dequeue_pos } := by
        simp only [RingSys.deqStep, hpc, ring_dequeue_step, RingSys.noteDeq]
      rw [heq]
      exact h.frameDeq (by rw [hpc]; rfl) hdeq
  | seq pos =>
      rw [hpc] at hok
      have hpos : pos = UInt64.ofNat s.consumed.length := hok
      have hcell : s.ring.cell pos = s.consumed.length % 2 ^ k := by rw [hpos, h.cell (by omega)]
      have hseq := h.seq s.consumed.length (Nat.le_refl _)
        (Nat.lt_add_of_pos_right (Nat.two_pow_pos k))
      -- the counter is one past the position exactly when it is published
      have hdif : difference (s.ring.seq (s.ring.cell pos)) (pos + 1)
          = if s.published s.consumed.length then 0 else -1 := by
        rw [hcell, hseq, hpos, ofNat_succ, difference_ofNat (by split <;> omega) (by split <;> omega)]
        split <;> omega
      cases hp : s.published s.consumed.length with
      | true =>
          have heq : s.deqStep spurious = { s with deq := .cas pos } := by
            simp only [RingSys.deqStep, hpc, ring_dequeue_step, hdif, hp, if_true, RingSys.noteDeq]
          rw [heq]
          exact h.frameDeq (by rw [hpc]; rfl) ⟨hpos, hp⟩
      | false =>
          have heq : s.deqStep spurious = { s with deq := .ret none } := by
            simp [RingSys.deqStep, hpc, ring_dequeue_step, hdif, hp, RingSys.noteDeq]
          rw [heq]
          exact h.frameDeq (by rw [hpc]; rfl) trivial
  | cas pos =>
      rw [hpc] at hok hdeq
      obtain ⟨hpos, hp⟩ := hok
      by_cases hwin : s.ring.dequeue_pos = pos ∧ spurious = false
      · -- taken: the cursor runs one ahead of what was consumed
        have heq : s.deqStep spurious = { s with
            ring := { s.ring with dequeue_pos := pos + 1 }
            deq := .read pos } := by
          simp only [RingSys.deqStep, hpc, ring_dequeue_step, if_pos hwin, RingSys.noteDeq]
        rw [heq]
        refine ⟨h.mask, h.enq_pos, ?_, h.window, h.seq, h.published_lt, h.released, fun t => ?_,
          h.holder, h.content, ⟨hpos, hp⟩, h.order, h.returned⟩
        · show pos + 1 = UInt64.ofNat (s.consumed.length + 1)
          rw [hpos, ofNat_succ]
        · exact (h.producer t).transfer rfl (Nat.le_refl _) (Nat.le_refl _)
            (fun _ _ hh => ⟨hh.pos, hh.claimed, hh.unpublished⟩) fun _ _ _ => rfl
      · have heq : s.deqStep spurious = { s with deq := .seq s.ring.dequeue_pos } := by
          simp only [RingSys.deqStep, hpc, ring_dequeue_step, if_neg hwin, RingSys.noteDeq]
        rw [heq]
        exact h.frameDeq (by rw [hpc]; rfl) hdeq
  | read pos =>
      rw [hpc] at hok
      obtain ⟨hpos, hp⟩ := hok
      have hcell : s.ring.cell pos = s.consumed.length % 2 ^ k := by rw [hpos, h.cell (by omega)]
      have hlt := h.published_lt _ hp
      have heq : s.deqStep spurious
          = { s with deq := .release pos (s.ring.cmd (s.ring.cell pos)) } := by
        simp only [RingSys.deqStep, hpc, ring_dequeue_step, RingSys.noteDeq]
      rw [heq]
      refine h.frameDeq (by rw [hpc]; rfl) ⟨hpos, hp, (s.claimed[s.consumed.length]).1, ?_⟩
      have hget : s.claimed[s.consumed.length]? = some s.claimed[s.consumed.length] :=
        List.getElem?_eq_getElem hlt
      rw [hget, hcell, h.content s.consumed.length _ _ (Nat.le_refl _) hget hp]
      rfl
  | release pos out =>
      have heq : s.deqStep spurious = { s with
          ring := { s.ring with
            seq := Function.update s.ring.seq (s.ring.cell pos) (pos + s.ring.mask + 1) }
          deq := .ret (some out)
          consumed := s.consumed ++ [out] } := by
        simp only [RingSys.deqStep, hpc, ring_dequeue_step, RingSys.noteDeq]
      rw [heq]
      exact h.release (by omega) hpc

end CFiber.Commands
