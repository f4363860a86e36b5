/-
  CFiber.Memory.Hysteresis — when a multislab hands a slab back.

  The policy: the release of a slab's last live block hands the slab back if another slab exists and,
  counting this one, more slabs are empty than `hysteresis_threshold`.  The code compares its
  `uint32_t` counters, so it follows the policy exactly where they have not wrapped below what they
  are compared with (`policy_iff`).

    • `hysteresis_iff`    — the exact condition for one release, and over the runs that meet it: at
      most the threshold of two or more slabs are empty; the last slab is never handed back;
    • `hysteresis_broken` — with `2 ^ 32` slabs an empty one is kept.
-/
import CFiber.Memory.MultislabRun

namespace CFiber.Memory

open CFiber.Base

variable {T : Target} {γ : Type}

/-! ## §1. The policy. -/

/-- The slabs without a live block. -/
def empty_slabs (s : Client T γ) : Nat :=
  s.ms.nodes.dom.countP fun n => s.live.countP (inside s.ms n) == 0

/-- `p` is the last live block of its slab. -/
def LastBlock (s : Client T γ) (p : Nat) : Prop :=
  ∃ n ∈ s.ms.nodes.dom, inside s.ms n p = true ∧ s.live.countP (inside s.ms n) = 1

instance (s : Client T γ) (p : Nat) : Decidable (LastBlock s p) :=
  inferInstanceAs (Decidable (∃ n ∈ s.ms.nodes.dom, _))

/-- The slab of `p` went back to the backing allocator. -/
def HandsBack (B : Backing γ) (s s' : Client T γ) (p : Nat) : Prop :=
  ∃ n ∈ s.ms.nodes.dom, inside s.ms n p = true ∧
    s'.ms.nodes.dom = s.ms.nodes.dom.erase n ∧ s'.ctx = freeNode B s.ms n s.ctx

/-- What the release of `p` has to do about slabs. -/
structure Policy (B : Backing γ) (s s' : Client T γ) (p : Nat) : Prop where
  back : HandsBack B s s' p ↔ LastBlock s p ∧ 1 < s.ms.nodes.dom.length ∧
    s.ms.max_empty_reserve.toNat < empty_slabs s + 1
  kept : ¬ HandsBack B s s' p → s'.ms.nodes.dom = s.ms.nodes.dom ∧ s'.ctx = s.ctx

/-- Where the policy asks for a slab, the wrapped counters pass the two tests. -/
def Exact (s : Client T γ) : Call → Prop
  | .alloc => True
  | .release p => LastBlock s p → 1 < s.ms.nodes.dom.length →
      s.ms.max_empty_reserve.toNat < empty_slabs s + 1 →
      1 < s.ms.nodes.dom.length % 2 ^ 32 ∧
        s.ms.max_empty_reserve.toNat < (empty_slabs s + 1) % 2 ^ 32

instance (s : Client T γ) : ∀ call, Decidable (Exact s call)
  | .alloc => inferInstanceAs (Decidable True)
  | .release p => inferInstanceAs (Decidable (LastBlock s p → _ → _ → _))

/-! ## §2. What one release does about slabs. -/

section
variable {B : Backing γ} {out : γ → List Region} {good : γ → Prop}

/-- **The code's test**, with its counters. -/
theorem cfiber_multislab_release_nodes {ms : Multislab T} {as fs : List Nat} {c : γ} (B : Backing γ)
    (h : Rep ms as fs) (ho : Own out ms c) {n i : Nat} (hdom : n ∈ ms.nodes.dom)
    (hi : i < ms.blocks_per_slab.toNat) (hused : (ms.nodes.slab n).used i = true) :
    if (ms.nodes.slab n).popcount = 1 ∧ ms.empty_count + 1 > ms.max_empty_reserve ∧
        ms.slab_count > 1 then
      (cfiber_multislab_release B ms (ms.block n i) c).1.nodes.dom = ms.nodes.dom.erase n ∧
        (cfiber_multislab_release B ms (ms.block n i) c).2 = freeNode B ms n c
    else
      (cfiber_multislab_release B ms (ms.block n i) c).1.nodes.dom = ms.nodes.dom ∧
        (cfiber_multislab_release B ms (ms.block n i) c).2 = c := by
  obtain ⟨as₁, fs₁, h₁, -, hr⟩ := h.reactivated hdom
  have hgive := Slab.popcount_give (h.per_lt hi) hused
  have hle := (h.slab n hdom).ok.popcount_le
  have hcount := (h.slab n hdom).ok.count_le
  have hmax := T.max_blocks_lt
  -- the counter of the node is exact
  have hzero : (given (reactivated ms n) n i).nodes.used_count n = 0 ↔
      (ms.nodes.slab n).popcount = 1 := by
    have hdec : (given (reactivated ms n) n i).nodes.used_count n
        = UInt32.ofNat ((ms.nodes.slab n).popcount - 1) := by
      show Function.update (reactivated ms n).nodes.used_count n
        ((reactivated ms n).nodes.used_count n - 1) n = _
      rw [Function.update_self, hr.used, h.count n hdom, ofNat_pred (by omega)]
    rw [hdec, ← UInt32.toNat_inj, UInt32.toNat_ofNat', Nat.mod_eq_of_lt (by omega)]
    show (ms.nodes.slab n).popcount - 1 = 0 ↔ _
    omega
  have hcfg := hr.config
  have hempty : (given (reactivated ms n) n i).empty_count = ms.empty_count := hr.empty_count
  have hslabs : (given (reactivated ms n) n i).slab_count = ms.slab_count := hr.slab_count
  have hreserve : (given (reactivated ms n) n i).max_empty_reserve = ms.max_empty_reserve :=
    hcfg.max_empty_reserve
  rw [cfiber_multislab_release_eq B h ho hdom hi hused]
  by_cases hlast : (ms.nodes.slab n).popcount = 1
  · rw [if_pos (hzero.mpr hlast), reclaim_empty_eq, hempty, hslabs, hreserve]
    by_cases htest : ms.empty_count + 1 > ms.max_empty_reserve ∧ ms.slab_count > 1
    · rw [if_pos htest, if_pos ⟨hlast, htest⟩]
      constructor
      · show (reactivated ms n).nodes.dom.erase n = _
        rw [hr.dom]
      · show freeNode B (given (reactivated ms n) n i) n c = _
        have hraw : (given (reactivated ms n) n i).nodes.raw_memory = ms.nodes.raw_memory := hr.raw
        have hsize : (given (reactivated ms n) n i).slab_memory_size = ms.slab_memory_size :=
          hcfg.slab_memory_size
        unfold freeNode
        rw [hraw, hsize]
    · rw [if_neg htest, if_neg fun h => htest h.2]
      exact ⟨hr.dom, rfl⟩
  · rw [if_neg fun h => hlast (hzero.mp h), if_neg fun h => hlast h.1]
    exact ⟨hr.dom, rfl⟩

/-- The slab of a live block, and what the release of the block leaves of it. -/
theorem Sound.owner {s : Client T γ} (h : Sound out good s) {p : Nat} (hp : p ∈ s.live) :
    ∃ n ∈ s.ms.nodes.dom, (∀ m ∈ s.ms.nodes.dom, inside s.ms m p = decide (m = n)) ∧
      0 < s.live.countP (inside s.ms n) ∧
      (LastBlock s p ↔ s.live.countP (inside s.ms n) = 1) := by
  obtain ⟨as, fs, hrep⟩ := h.rep
  obtain ⟨n, hdom, i, hi, rfl, -⟩ := (h.live p).mp hp
  have hin : ∀ m ∈ s.ms.nodes.dom, inside s.ms m (s.ms.block n i) = decide (m = n) :=
    fun m hm => Sound.inside_block hrep h.own hdom hm hi
  refine ⟨n, hdom, hin, List.countP_pos_iff.mpr ⟨_, hp, by rw [hin n hdom]; simp⟩, ?_⟩
  constructor
  · rintro ⟨m, hm, hmp, hone⟩
    rw [hin m hm, decide_eq_true_eq] at hmp
    rwa [hmp] at hone
  · intro hone
    exact ⟨n, hdom, by rw [hin n hdom]; simp, hone⟩

theorem erase_ne_self {l : List Nat} {n : Nat} (hn : n ∈ l) : l.erase n ≠ l := by
  intro e
  have hlen := List.length_erase_of_mem hn
  rw [e] at hlen
  have := List.length_pos_of_mem hn
  omega

/-- **Whether a slab is handed back**, by the wrapped counters; and nothing else goes or comes. -/
theorem Sound.release_nodes {s s' : Client T γ} (h : Sound out good s) {p : Nat}
    (hs : s.step B (.release p) = some s') :
    (HandsBack B s s' p ↔ LastBlock s p ∧ 1 < s.ms.nodes.dom.length % 2 ^ 32 ∧
      s.ms.max_empty_reserve.toNat < (empty_slabs s + 1) % 2 ^ 32) ∧
    (¬ HandsBack B s s' p → s'.ms.nodes.dom = s.ms.nodes.dom ∧ s'.ctx = s.ctx) := by
  simp only [Client.step] at hs
  split_ifs at hs with hp
  obtain rfl := Option.some.inj hs
  obtain ⟨as, fs, hrep⟩ := h.rep
  obtain ⟨n, hdom, hin, -, hlast⟩ := h.owner hp
  obtain ⟨m, hm, i, hi, rfl, hused⟩ := (h.live p).mp hp
  obtain rfl : m = n := by
    have := hin m hm
    rwa [Sound.inside_block hrep h.own hm hm hi, decide_eq_decide, iff_true_left rfl] at this
  have hnodes := cfiber_multislab_release_nodes B hrep h.own hm hi hused
  have htest : ((s.ms.nodes.slab m).popcount = 1 ∧ s.ms.empty_count + 1 > s.ms.max_empty_reserve ∧
      s.ms.slab_count > 1) ↔ LastBlock s (s.ms.block m i) ∧ 1 < s.ms.nodes.dom.length % 2 ^ 32 ∧
        s.ms.max_empty_reserve.toNat < (empty_slabs s + 1) % 2 ^ 32 := by
    have hslabs : s.ms.slab_count.toNat = s.ms.nodes.dom.length % 2 ^ 32 := by
      rw [hrep.slab_count, UInt32.toNat_ofNat']
    have hempty : (s.ms.empty_count + 1).toNat = (empty_slabs s + 1) % 2 ^ 32 := by
      rw [hrep.empty_count, h.empties_eq, UInt32.toNat_add, UInt32.toNat_ofNat']
      show (_ % 2 ^ 32 + 1) % 2 ^ 32 = _
      rw [Nat.mod_add_mod]
      rfl
    rw [hlast, h.popcount_eq hm, gt_iff_lt, gt_iff_lt, UInt32.lt_iff_toNat_lt,
      UInt32.lt_iff_toNat_lt, hslabs, hempty]
    exact and_congr_right fun _ => and_comm
  by_cases hback : LastBlock s (s.ms.block m i) ∧ 1 < s.ms.nodes.dom.length % 2 ^ 32 ∧
      s.ms.max_empty_reserve.toNat < (empty_slabs s + 1) % 2 ^ 32
  · rw [if_pos (htest.mpr hback)] at hnodes
    have hands : HandsBack B s
        ⟨_, _, s.live.erase (s.ms.block m i)⟩ (s.ms.block m i) :=
      ⟨m, hm, by rw [hin m hm]; simp, hnodes.1, hnodes.2⟩
    exact ⟨iff_of_true hands hback, fun hno => absurd hands hno⟩
  · rw [if_neg fun ht => hback (htest.mp ht)] at hnodes
    refine ⟨iff_of_false ?_ hback, fun _ => hnodes⟩
    rintro ⟨k, hk, -, herase, -⟩
    exact erase_ne_self hk (herase.symm.trans hnodes.1)

/-- **The exact condition.**  A release follows the policy exactly if the counters pass the tests
where the numbers of slabs do. -/
theorem policy_iff {s s' : Client T γ} (h : Sound out good s) {p : Nat}
    (hs : s.step B (.release p) = some s') : Policy B s s' p ↔ Exact s (.release p) := by
  obtain ⟨hcode, hkept⟩ := h.release_nodes hs
  constructor
  · intro hpol hlast hslabs hempty
    exact (hcode.mp (hpol.back.mpr ⟨hlast, hslabs, hempty⟩)).2
  · intro hexact
    refine ⟨?_, hkept⟩
    rw [hcode]
    constructor
    · rintro ⟨hlast, hslabs, hempty⟩
      -- a remainder is no more than the number
      exact ⟨hlast, lt_of_lt_of_le hslabs (Nat.mod_le _ _),
        lt_of_lt_of_le hempty (Nat.mod_le _ _)⟩
    · rintro ⟨hlast, hslabs, hempty⟩
      exact ⟨hlast, hexact hlast hslabs hempty⟩

/-! ## §3. Over a run. -/

/-- At most the threshold of two or more slabs are empty. -/
def Bounded (s : Client T γ) : Prop :=
  1 < s.ms.nodes.dom.length → empty_slabs s ≤ s.ms.max_empty_reserve.toNat

/-- A release leaves the empty slabs empty and may add the one it was for. -/
theorem Sound.release_empty (H : Honest T B out good) {s s' : Client T γ} (h : Sound out good s)
    {p : Nat} (hs : s.step B (.release p) = some s') :
    s'.ms.max_empty_reserve = s.ms.max_empty_reserve ∧
    (HandsBack B s s' p → empty_slabs s' = empty_slabs s) ∧
    (¬ HandsBack B s s' p →
      empty_slabs s' = empty_slabs s + if LastBlock s p then 1 else 0) := by
  have hnodes := h.release_nodes hs
  simp only [Client.step] at hs
  split_ifs at hs with hp
  obtain ⟨as, fs, hrep⟩ := h.rep
  obtain ⟨n, hdom, hin, hpos, hlast⟩ := h.owner hp
  obtain ⟨ms', c', heq, -, -, -, hR⟩ :=
    cfiber_multislab_release_spec H hrep h.own h.good ((h.live p).mp hp)
  rw [heq] at hs
  obtain rfl := Option.some.inj hs
  have hraw : inside ms' = inside s.ms := by
    funext m q
    unfold inside
    rw [hR.raw, hR.config.slab_memory_size]
  -- the live blocks slab by slab
  have hcount : ∀ m, (s.live.erase p).countP (inside s.ms m)
      = s.live.countP (inside s.ms m) - if inside s.ms m p = true then 1 else 0 := by
    intro m
    rw [List.countP_erase]
    simp [hp]
  have hother : ∀ m ∈ s.ms.nodes.dom, m ≠ n →
      ((s.live.erase p).countP (inside s.ms m) == 0) = (s.live.countP (inside s.ms m) == 0) := by
    intro m hm hmn
    rw [hcount, hin m hm]
    simp [hmn]
  have hown : ((s.live.erase p).countP (inside s.ms n) == 0) = decide (LastBlock s p) := by
    rw [hcount, hin n hdom]
    simp only [decide_true, if_true, hlast]
    rw [Bool.eq_iff_iff, beq_iff_eq, decide_eq_true_eq]
    omega
  have hbusy : (s.live.countP (inside s.ms n) == 0) = false := by
    rw [beq_eq_false_iff_ne]
    omega
  refine ⟨hR.config.max_empty_reserve, ?_, ?_⟩
  · rintro ⟨m, hm, hmp, herase, -⟩
    rw [hin m hm, decide_eq_true_eq] at hmp
    obtain rfl := hmp
    unfold empty_slabs
    rw [herase, hraw]
    have hperm := (List.perm_cons_erase hm).countP_eq fun k => s.live.countP (inside s.ms k) == 0
    rw [hperm, List.countP_cons_of_neg (by rw [hbusy]; simp)]
    refine List.countP_congr fun k hk => ?_
    have hkm : k ≠ m := fun e => hrep.dom_nodup.not_mem_erase (e ▸ hk)
    rw [hother k (List.mem_of_mem_erase hk) hkm]
  · intro hno
    have hsame : ms'.nodes.dom = s.ms.nodes.dom := (hnodes.2 hno).1
    unfold empty_slabs
    rw [hsame, hraw]
    have hexcept := countP_congr_except hrep.dom_nodup hdom
      (p := fun k => (s.live.erase p).countP (inside s.ms k) == 0)
      (q := fun k => s.live.countP (inside s.ms k) == 0) hother
    rw [hbusy, hown] at hexcept
    simpa using hexcept

/-- An allocation adds no empty slab. -/
theorem Sound.alloc_empty (H : Honest T B out good) {s s' : Client T γ} (h : Sound out good s)
    (hs : s.step B .alloc = some s') :
    s'.ms.max_empty_reserve = s.ms.max_empty_reserve ∧
    (∀ n ∈ s.ms.nodes.dom, n ∈ s'.ms.nodes.dom) ∧
    (s'.ms.nodes.dom.length = s.ms.nodes.dom.length ∧ empty_slabs s' ≤ empty_slabs s ∨
      empty_slabs s' = 0) := by
  obtain ⟨as, fs, hrep⟩ := h.rep
  have h' := h.step H hs
  rcases cfiber_multislab_alloc_spec H hrep h.own h.good with
    ⟨p, ms', c', heq, -, -, ⟨as', fs', hrep'⟩, hA⟩ | ⟨ms', c', heq, -, -, -, hr, -, -, -⟩
  · simp only [Client.step, heq] at hs
    obtain rfl := Option.some.inj hs
    refine ⟨hA.config.max_empty_reserve, hA.dom_mono, ?_⟩
    -- the region of an old slab is where it was
    have hin : ∀ n ∈ s.ms.nodes.dom, inside ms' n = inside s.ms n := by
      intro n hn
      have hblock := hA.block_same n hn 0
      rw [(hrep'.slab n (hA.dom_mono n hn)).block_eq, (hrep.slab n hn).block_eq] at hblock
      funext q
      unfold inside
      rw [hA.config.slab_memory_size, show ms'.nodes.raw_memory n = s.ms.nodes.raw_memory n by
        omega]
    rcases hA.grew with hsame | ⟨hfull, node, hgrew⟩
    · left
      refine ⟨by rw [hsame], ?_⟩
      unfold empty_slabs
      rw [hsame]
      refine List.countP_mono_left fun n hn hz => ?_
      rw [hin n hn, List.countP_cons, beq_iff_eq] at hz
      rw [beq_iff_eq]
      omega
    · -- every old slab is full, and the new one holds the block
      right
      unfold empty_slabs
      rw [List.countP_eq_zero]
      intro n hn hz
      rw [beq_iff_eq] at hz
      have hnone := List.countP_eq_zero.mp hz
      have hdom' : n ∈ node :: s.ms.nodes.dom := by rw [← hgrew]; exact hn
      rcases List.mem_cons.mp hdom' with rfl | hold
      · obtain ⟨m, hm, i, hi, rfl⟩ := hA.inside
        have hmn : m = n := by
          by_contra hne
          have hm' : m ∈ n :: s.ms.nodes.dom := by rw [← hgrew]; exact hm
          have hmold := (List.mem_cons.mp hm').resolve_left hne
          rw [hA.config.blocks_per_slab] at hi
          exact hA.fresh ⟨m, hmold, i, hi, hA.block_same m hmold i, hfull m hmold i hi⟩
        subst hmn
        apply hnone _ List.mem_cons_self
        rw [Sound.inside_block hrep' h'.own hn hn hi]
        simp
      · have hpos := hrep.config.per_pos
        have hlive : s.ms.block n 0 ∈ s.live :=
          (h.live _).mpr ⟨n, hold, 0, hpos, rfl, hfull n hold 0 hpos⟩
        apply hnone _ (List.mem_cons_of_mem _ hlive)
        rw [hin n hold, Sound.inside_block hrep h.own hold hold hpos]
        simp
  · simp only [Client.step, heq] at hs
    obtain rfl := Option.some.inj hs
    refine ⟨hr.config.max_empty_reserve, fun n hn => by rw [hr.dom]; exact hn, Or.inl ⟨?_, ?_⟩⟩
    · rw [hr.dom]
    · have hraw : inside ms' = inside s.ms := by
        funext m q
        unfold inside
        rw [hr.raw, hr.config.slab_memory_size]
      unfold empty_slabs
      rw [hr.dom, hraw]

/-- **Each call keeps the bound** if it meets the condition. -/
theorem Sound.bounded (H : Honest T B out good) {s s' : Client T γ} (h : Sound out good s)
    (hb : Bounded s) {call : Call} (hx : Exact s call) (hs : s.step B call = some s') :
    Bounded s' := by
  intro hslabs
  cases call with
  | alloc =>
      obtain ⟨hcfg, -, ⟨hlen, hle⟩ | hzero⟩ := h.alloc_empty H hs
      · rw [hcfg]
        exact le_trans hle (hb (by omega))
      · omega
  | release p =>
      obtain ⟨hcfg, hback, hkept⟩ := h.release_empty H hs
      have hpol := (policy_iff h hs).mpr hx
      rw [hcfg]
      by_cases hands : HandsBack B s s' p
      · rw [hback hands]
        obtain ⟨n, hn, -, herase, -⟩ := hands
        rw [herase, List.length_erase_of_mem hn] at hslabs
        exact hb (by omega)
      · rw [hkept hands]
        rw [(hpol.kept hands).1] at hslabs
        split_ifs with hlast
        · -- the policy did not ask for the slab, so there is room for one more
          by_contra hgt
          exact hands (hpol.back.mpr ⟨hlast, hslabs, by omega⟩)
        · exact hb hslabs

/-- The last slab stays. -/
theorem Sound.nonempty (H : Honest T B out good) {s s' : Client T γ} (h : Sound out good s)
    {call : Call} (hs : s.step B call = some s') (hne : s.ms.nodes.dom ≠ []) :
    s'.ms.nodes.dom ≠ [] := by
  cases call with
  | alloc =>
      obtain ⟨n, hn⟩ := List.exists_mem_of_ne_nil _ hne
      exact List.ne_nil_of_mem ((h.alloc_empty H hs).2.1 n hn)
  | release p =>
      obtain ⟨hcode, hkept⟩ := h.release_nodes hs
      by_cases hands : HandsBack B s s' p
      · have hmany := lt_of_lt_of_le (hcode.mp hands).2.1 (Nat.mod_le _ _)
        obtain ⟨n, hn, -, herase, -⟩ := hands
        apply List.ne_nil_of_length_pos
        rw [herase, List.length_erase_of_mem hn]
        omega
      · rw [(hkept hands).1]
        exact hne

end

/-- **Hysteresis.**  In every state that calls reach: the next release follows the policy exactly if
the wrapped counters pass the tests where the policy asks for the slab; if all releases before met
that, at most the threshold of two or more slabs are empty; and no call hands the last slab back. -/
theorem hysteresis_iff {B : Backing γ} {out : γ → List Region} {good : γ → Prop}
    (H : Honest T B out good) {block_size : Nat} {blocks_per_slab max_slabs reserve : UInt32}
    {ms : Multislab T} {c : γ}
    (hinit : cfiber_multislab_init_ext T block_size blocks_per_slab max_slabs reserve = some ms)
    (hg : good c) (hout : out c = []) {calls : List Call} {s : Client T γ}
    (hrun : exec (Client.step B) ⟨ms, c, []⟩ calls = some s) :
    s.ms.max_empty_reserve = reserve ∧
    (∀ p s', s.step B (.release p) = some s' → (Policy B s s' p ↔ Exact s (.release p))) ∧
    (exec (under Exact (Client.step B)) ⟨ms, c, []⟩ calls = some s →
      1 < s.ms.nodes.dom.length → empty_slabs s ≤ reserve.toNat) ∧
    ∀ call s', s.step B call = some s' → s.ms.nodes.dom ≠ [] → s'.ms.nodes.dom ≠ [] := by
  have hstart : Sound out good (⟨ms, c, []⟩ : Client T γ) := Sound.start hinit hg hout
  have h := hstart.run H hrun
  obtain ⟨-, hdom, -, -, -, hreserve⟩ := cfiber_multislab_init_ext_spec hinit
  have hcfg : s.ms.max_empty_reserve = reserve := by
    have hinv := exec_inv
      (fun s : Client T γ => Sound out good s ∧ s.ms.max_empty_reserve = reserve) ?_
      ⟨hstart, hreserve⟩ hrun
    · exact hinv.2
    · rintro t call t' ⟨ht, he⟩ hstep
      refine ⟨ht.step H hstep, ?_⟩
      cases call with
      | alloc => exact (ht.alloc_empty H hstep).1.trans he
      | release p => exact (ht.release_empty H hstep).1.trans he
  refine ⟨hcfg, fun p s' hs => policy_iff h hs, ?_, fun call s' hs hne => h.nonempty H hs hne⟩
  intro hunder
  have hinv := exec_inv (fun s : Client T γ => Sound out good s ∧ Bounded s) ?_
    ⟨hstart, fun hlen => by simp [hdom] at hlen⟩ hunder
  · rw [← hcfg]
    exact hinv.2
  · rintro t call t' ⟨ht, hb⟩ hstep
    obtain ⟨hx, hstep⟩ := under_eq_some.mp hstep
    exact ⟨ht.step H hstep, ht.bounded H hb hx hstep⟩

/-- Two slabs of one block and no reserve: the first one released goes back. -/
theorem hysteresis_iff_bump : ∃ ms s s', tiny = some ms ∧
    exec (Client.step bump) ⟨ms, (64, []), []⟩ [.alloc, .alloc] = some s ∧
    s.step bump (.release 192) = some s' ∧ Policy bump s s' 192 ∧
    s'.ms.nodes.dom.length = 1 ∧ empty_slabs s ≤ 0 := by
  have hsome : (tiny.bind fun ms => (exec (under Exact (Client.step bump)) ⟨ms, (64, []), []⟩
      [.alloc, .alloc]).bind fun s => (s.step bump (.release 192)).map fun s' =>
        (decide (Exact s (.release 192)), s.ms.nodes.dom.length, s'.ms.nodes.dom.length))
          = some (true, 2, 1) := by decide +kernel
  obtain ⟨ms, hms, hsome⟩ := Option.bind_eq_some_iff.mp hsome
  obtain ⟨s, hunder, hsome⟩ := Option.bind_eq_some_iff.mp hsome
  obtain ⟨s', hs', hfacts⟩ := Option.map_eq_some_iff.mp hsome
  obtain ⟨hexact, hlens⟩ := Prod.mk.inj hfacts
  obtain ⟨hlen, hlen'⟩ := Prod.mk.inj hlens
  have hrun := exec_of_under hunder
  obtain ⟨-, hpol, hbound, -⟩ := hysteresis_iff bump_honest hms
    ⟨rfl, fun _ h => absurd h List.not_mem_nil⟩ rfl hrun
  exact ⟨ms, s, s', hms, hrun, hs', (hpol 192 s' hs').mpr (of_decide_eq_true hexact), hlen',
    hbound hunder (by omega)⟩

/-- **An empty slab is kept** although `2 ^ 32` slabs exist and no reserve is asked for:
`slab_count` has wrapped to zero. -/
theorem hysteresis_broken : ∃ ms calls s p s', tiny = some ms ∧
    exec (Client.step bump) ⟨ms, (64, []), []⟩ calls = some s ∧
    s.step bump (.release p) = some s' ∧ s.ms.nodes.dom.length = 2 ^ 32 ∧ LastBlock s p ∧
    s.ms.max_empty_reserve = 0 ∧ s'.ms.nodes.dom = s.ms.nodes.dom ∧ ¬ Policy bump s s' p := by
  obtain ⟨ms, hms⟩ : ∃ ms, tiny = some ms := ⟨_, rfl⟩
  obtain ⟨s, hrun, hlen, -, hcfg, hnodes⟩ := bump_run hms (2 ^ 32) (Nat.le_refl _)
  have hs : Sound Prod.snd bumpOk s :=
    (Sound.start hms ⟨rfl, fun _ h => absurd h List.not_mem_nil⟩ rfl).run bump_honest hrun
  obtain ⟨-, -, -, hper, -, hreserve⟩ := cfiber_multislab_init_ext_spec hms
  have hone : s.ms.blocks_per_slab = 1 := hcfg.blocks_per_slab.trans hper
  have hmany : s.ms.nodes.dom.length = 2 ^ 32 := by
    have := hs.live_le_nodes hone
    omega
  obtain ⟨p, hp⟩ : ∃ p, p ∈ s.live := List.exists_mem_of_length_pos (by omega)
  have hzero : s.ms.max_empty_reserve = 0 := hcfg.max_empty_reserve.trans hreserve
  -- a slab has one block, so any release is of a last one
  have hlast : LastBlock s p := by
    obtain ⟨as, fs, hrep⟩ := hs.rep
    obtain ⟨n, hn, -, hpos, hiff⟩ := hs.owner hp
    have hle := (hrep.slab n hn).ok.popcount_le
    rw [hs.popcount_eq hn, (hrep.slab n hn).count, hone] at hle
    apply hiff.mpr
    have hle' : s.live.countP (inside s.ms n) ≤ 1 := hle
    omega
  obtain ⟨s', hstep⟩ : ∃ s', s.step bump (.release p) = some s' := by
    simp only [Client.step, if_pos hp]
    exact ⟨_, rfl⟩
  obtain ⟨hcode, hkept⟩ := hs.release_nodes hstep
  have hno : ¬ HandsBack bump s s' p := by
    intro hands
    have := (hcode.mp hands).2.1
    rw [hmany] at this
    exact absurd this (by decide)
  refine ⟨ms, _, s, p, s', hms, hrun, hstep, hmany, hlast, hzero, (hkept hno).1, ?_⟩
  intro hpol
  apply hno
  apply hpol.back.mpr
  refine ⟨hlast, by omega, ?_⟩
  rw [hzero]
  exact Nat.succ_pos _

end CFiber.Memory
