/-
  CFiber.Memory.MultislabRelease — giving blocks back and tearing the multislab down.

  The two remaining spec lemmas over the representation of `MultislabRep`:

    • `cfiber_multislab_release_spec` — exactly the released block stops being live, and a node
                                        is freed only when it holds no live block;
    • `cfiber_multislab_destroy_spec` — every region goes back to the backing allocator.
-/
import CFiber.Memory.MultislabRep

namespace CFiber.Memory

open CFiber.Base

variable {T : Target} {γ : Type}

/-! ## §1. The slab that owns a block. -/

/-- The address-range test of `find_owning_slab` recognises exactly the node of the block. -/
theorem owns_block {out : γ → List Region} {ms : Multislab T} {as fs : List Nat} {c : γ}
    (h : Rep ms as fs) (ho : Own out ms c) {n m i : Nat} (hn : n ∈ ms.nodes.dom)
    (hm : m ∈ ms.nodes.dom) (hi : i < ms.blocks_per_slab.toNat) :
    owns ms (ms.block n i) m = decide (m = n) := by
  have hbn := (h.slab n hn).block_range h.config hi
  have hpos := h.config.block_pos
  have hreg : (ms.nodes.raw_memory m, ms.slab_memory_size) ∈ regions ms :=
    List.mem_flatMap.mpr ⟨m, hm, List.mem_cons_self⟩
  have hfit := ho.fits _ hreg
  simp only at hfit
  unfold owns
  simp only [T.wrap_of_lt hfit]
  by_cases hmn : m = n
  · subst hmn
    simp only [decide_true, Bool.and_eq_true, decide_eq_true_eq]
    omega
  · have hap := ho.nodes_apart hm hn hmn _ List.mem_cons_self _ List.mem_cons_self
    simp only [Apart] at hap
    simp only [hmn, decide_false, Bool.and_eq_false_iff, decide_eq_false_iff_not]
    omega

theorem find?_eq_of_unique {l : List Nat} {n : Nat} {q : Nat → Bool} (hn : n ∈ l)
    (hq : ∀ m ∈ l, q m = decide (m = n)) : l.find? q = some n := by
  induction l with
  | nil => exact absurd hn (by simp)
  | cons m l ih =>
      have hm := hq m List.mem_cons_self
      by_cases hmn : m = n
      · rw [List.find?_cons_of_pos (by rw [hm, hmn]; simp), hmn]
      · rw [List.find?_cons_of_neg (by rw [hm]; simp [hmn])]
        exact ih ((List.mem_cons.mp hn).resolve_left fun e => hmn e.symm)
          fun x hx => hq x (List.mem_cons_of_mem _ hx)

/-- **The owner of a block is found**, on whichever list its node is. -/
theorem find_owning_slab_block {out : γ → List Region} {ms : Multislab T} {as fs : List Nat}
    {c : γ} (h : Rep ms as fs) (ho : Own out ms c) {n i : Nat} (hn : n ∈ ms.nodes.dom)
    (hi : i < ms.blocks_per_slab.toNat) : find_owning_slab ms (ms.block n i) = some n := by
  have hlen := h.active_length
  have hwa : walk ms.nodes.next ms.nodes.dom.length ms.active = as := by
    rw [h.active.head]
    exact walk_eq h.active.links.linked (by omega)
  have hwf : walk ms.nodes.next ms.nodes.dom.length ms.full = fs := by
    rw [h.full.head]
    exact walk_eq h.full.links.linked (by omega)
  have hall : ∀ m ∈ ms.nodes.dom, owns ms (ms.block n i) m = decide (m = n) := fun m hm =>
    owns_block h ho hn hm hi
  unfold find_owning_slab
  simp only [hwa, hwf]
  rcases h.mem_dom.mp hn with hna | hnf
  · rw [find?_eq_of_unique hna fun m hm => hall m (h.mem_dom.mpr (Or.inl hm))]
  · have hnone : as.find? (owns ms (ms.block n i)) = none := by
      rw [List.find?_eq_none]
      intro m hm
      rw [hall m (h.mem_dom.mpr (Or.inl hm))]
      have hmn : m ≠ n := fun e => h.disjoint m hm (e ▸ hnf)
      simp [hmn]
    rw [hnone, find?_eq_of_unique hnf fun m hm => hall m (h.mem_dom.mpr (Or.inr hm))]

/-! ## §2. Giving one block back. -/

/-- The state after block `i` of node `n` is cleared and the node's counter is decremented. -/
def given (ms : Multislab T) (n i : Nat) : Multislab T :=
  count_release (set_slab ms n ((ms.nodes.slab n).give i)) n

/-- The state once `empty_count` has caught up with `given`. -/
def released (ms : Multislab T) (n i : Nat) : Multislab T :=
  { given ms n i with
    empty_count :=
      if (given ms n i).nodes.used_count n = 0 then ms.empty_count + 1 else ms.empty_count }

theorem given_move_to_active (ms : Multislab T) (n i : Nat) :
    move_to_active (given ms n i) n = given (move_to_active ms n) n i := by
  rw [move_to_active_eq, move_to_active_eq]
  rfl

theorem released_config (ms : Multislab T) (n i : Nat) : SameConfig ms (released ms n i) :=
  ⟨rfl, rfl, rfl, rfl, rfl⟩

theorem released_emptyNode {ms : Multislab T} {n i m : Nat} (hmn : m ≠ n) :
    emptyNode (released ms n i).nodes m = emptyNode ms.nodes m := by
  simp [emptyNode, released, given, count_release, set_slab, hmn]

theorem released_popcount (ms : Multislab T) (n i : Nat) :
    ((released ms n i).nodes.slab n).popcount = ((ms.nodes.slab n).give i).popcount := by
  simp [released, given, count_release, set_slab]

theorem released_slab {ms : Multislab T} {n i m : Nat} :
    (released ms n i).nodes.slab m =
      if m = n then (ms.nodes.slab n).give i else ms.nodes.slab m := by
  by_cases hmn : m = n
  · subst hmn
    simp [released, given, count_release, set_slab]
  · simp [released, given, count_release, set_slab, hmn]

/-- **Every slab stays one**, the one that is given a block as well. -/
theorem Rep.released_slabOf {ms : Multislab T} {as fs : List Nat} {n m : Nat} (h : Rep ms as fs)
    (hm : m ∈ ms.nodes.dom) (i : Nat) : SlabOf (released ms n i) m := by
  have hs := h.slab m hm
  by_cases hmn : m = n
  · subst hmn
    have hsame : (CFiber.Memory.released ms m i).nodes.slab m = (ms.nodes.slab m).give i := by
      rw [released_slab, if_pos rfl]
    exact ⟨by rw [hsame]; exact hs.ok.give i, by rw [hsame]; exact hs.memory,
      by rw [hsame]; exact hs.size, by rw [hsame]; exact hs.count⟩
  · have hsame : (CFiber.Memory.released ms n i).nodes.slab m = ms.nodes.slab m := by
      rw [released_slab, if_neg hmn]
    exact ⟨by rw [hsame]; exact hs.ok, by rw [hsame]; exact hs.memory,
      by rw [hsame]; exact hs.size, by rw [hsame]; exact hs.count⟩

/-- **Every counter counts its slab**: the one that is given a block has lost one. -/
theorem Rep.released_count {ms : Multislab T} {as fs : List Nat} {n i m : Nat} (h : Rep ms as fs)
    (hm : m ∈ ms.nodes.dom)
    (hgive : ((ms.nodes.slab n).give i).popcount + 1 = (ms.nodes.slab n).popcount) :
    (released ms n i).nodes.used_count m =
      UInt32.ofNat ((released ms n i).nodes.slab m).popcount := by
  by_cases hmn : m = n
  · subst hmn
    rw [released_popcount]
    simp only [CFiber.Memory.released, given, count_release, set_slab, Function.update_self]
    rw [h.count m hm, ← hgive, UInt32.ofNat_succ_sub]
  · simpa [CFiber.Memory.released, given, count_release, set_slab, hmn] using h.count m hm

/-- **Giving a block of an active node back keeps the representation.** -/
theorem Rep.released {ms : Multislab T} {as fs : List Nat} {n i : Nat} (h : Rep ms as fs)
    (hn : n ∈ as) (hi : i < ms.blocks_per_slab.toNat) (hused : (ms.nodes.slab n).used i = true) :
    Rep (released ms n i) as fs := by
  have hdom : n ∈ ms.nodes.dom := h.mem_dom.mpr (Or.inl hn)
  have hslab := h.slab n hdom
  have hgive := Slab.popcount_give (h.per_lt hi) hused
  have hnf : n ∉ fs := h.disjoint n hn
  have hslabs : ∀ m ∈ ms.nodes.dom, SlabOf (CFiber.Memory.released ms n i) m :=
    fun m hm => h.released_slabOf hm i
  have hcount : ∀ m ∈ ms.nodes.dom, (CFiber.Memory.released ms n i).nodes.used_count m
      = UInt32.ofNat ((CFiber.Memory.released ms n i).nodes.slab m).popcount :=
    fun m hm => h.released_count hm hgive
  refine ⟨⟨h.config.block_pos, h.config.line, h.config.per_pos, h.config.per_le,
    h.config.size_eq⟩, h.active, h.full, h.disjoint, h.dom, h.flag_active, h.flag_full, hslabs, ?_,
    hcount, h.slab_count, ?_, h.max⟩
  · intro m hm j hj
    have hmn : m ≠ n := fun e => hnf (e ▸ hm)
    simpa [CFiber.Memory.released, given, count_release, set_slab, hmn]
      using h.full_used m hm j hj
  · -- the node joins the empty ones exactly when this was its last block
    have hexcept := countP_congr_except h.dom_nodup hdom
      (p := emptyNode ms.nodes) (q := emptyNode (CFiber.Memory.released ms n i).nodes)
      (fun m _ hmn => (released_emptyNode hmn).symm)
    have hold : emptyNode ms.nodes n = false := by
      simp only [emptyNode, beq_eq_false_iff_ne]
      omega
    have hlt : ((ms.nodes.slab n).give i).popcount < 2 ^ 32 := by
      have hle := (hslab.ok.give i).popcount_le
      have hcount := (hslab.ok.give i).count_le
      have hmax := T.max_blocks_lt
      omega
    have hzero : (given ms n i).nodes.used_count n = 0 ↔
        emptyNode (CFiber.Memory.released ms n i).nodes n = true := by
      have hc := hcount n hdom
      have hsame : (given ms n i).nodes.used_count n
          = (CFiber.Memory.released ms n i).nodes.used_count n := rfl
      rw [hsame, hc, ← UInt32.toNat_inj, UInt32.toNat_ofNat', released_popcount,
        Nat.mod_eq_of_lt hlt]
      simp [emptyNode, released_popcount]
    rw [hold] at hexcept
    show (if (given ms n i).nodes.used_count n = 0 then ms.empty_count + 1 else ms.empty_count)
      = UInt32.ofNat ((ms.nodes.dom).countP (emptyNode (CFiber.Memory.released ms n i).nodes))
    rw [h.empty_count]
    unfold Multislab.empties
    by_cases hz : emptyNode (CFiber.Memory.released ms n i).nodes n = true
    · rw [if_pos (hzero.mpr hz)]
      rw [if_pos hz] at hexcept
      rw [show ms.nodes.dom.countP (emptyNode (CFiber.Memory.released ms n i).nodes)
        = ms.nodes.dom.countP (emptyNode ms.nodes) + 1 by simpa using hexcept.symm,
        UInt32.ofNat_add]
      rfl
    · rw [if_neg (fun e => hz (hzero.mp e))]
      rw [if_neg hz] at hexcept
      exact congrArg UInt32.ofNat (by simpa using hexcept)

theorem released_live {out : γ → List Region} {ms : Multislab T} {as fs : List Nat} {c : γ}
    {n i : Nat} (h : Rep ms as fs) (ho : Own out ms c) (hdom : n ∈ ms.nodes.dom)
    (hi : i < ms.blocks_per_slab.toNat) (q : Nat) :
    Live (released ms n i) q ↔ Live ms q ∧ q ≠ ms.block n i := by
  have hblock : ∀ m j, (released ms n i).block m j = ms.block m j := by
    intro m j
    by_cases hmn : m = n
    · subst hmn
      simp [Multislab.block, Slab.block, released, given, count_release, set_slab, Slab.give]
    · simp [Multislab.block, released, given, count_release, set_slab, hmn]
  have hused : ∀ m j, ((released ms n i).nodes.slab m).used j = true ↔
      ¬(m = n ∧ j = i) ∧ (ms.nodes.slab m).used j = true := by
    intro m j
    by_cases hmn : m = n
    · subst hmn
      simp [released, given, count_release, set_slab]
    · simp [released, given, count_release, set_slab, hmn]
  constructor
  · rintro ⟨m, hm, j, hj, rfl, hu⟩
    obtain ⟨hne, hu⟩ := (hused m j).mp hu
    refine ⟨⟨m, hm, j, hj, hblock m j, hu⟩, fun e => hne ?_⟩
    rw [hblock] at e
    exact h.block_inj ho hm hdom hj hi e
  · rintro ⟨⟨m, hm, j, hj, rfl, hu⟩, hne⟩
    refine ⟨m, hm, j, hj, (hblock m j).symm, (hused m j).mpr ⟨?_, hu⟩⟩
    rintro ⟨rfl, rfl⟩
    exact hne rfl

/-! ## §3. Dropping an empty node. -/

/-- The state after the empty active node `n` is unlinked, freed and uncounted. -/
def dropped (ms : Multislab T) (n : Nat) : Multislab T :=
  { ms with
    nodes := { ms.nodes with
      next := unlinkNext ms.nodes.next ms.nodes.prev n
      prev := unlinkPrev ms.nodes.next ms.nodes.prev n
      dom := ms.nodes.dom.erase n }
    active := unlinkHead ms.nodes.next ms.nodes.prev ms.active n
    slab_count := ms.slab_count - 1
    empty_count := ms.empty_count - 1 }

/-- The allocator's state after the two regions of node `n` are freed. -/
def freeNode (B : Backing γ) (ms : Multislab T) (n : Nat) (c : γ) : γ :=
  B.mem_free n (sizeof_node T) (B.mem_free (ms.nodes.raw_memory n) ms.slab_memory_size c)

theorem reclaim_empty_eq (B : Backing γ) (ms : Multislab T) (n : Nat) (c : γ) :
    reclaim_empty B ms n c =
      if ms.empty_count + 1 > ms.max_empty_reserve ∧ ms.slab_count > 1 then
        (dropped { ms with empty_count := ms.empty_count + 1 } n, freeNode B ms n c)
      else ({ ms with empty_count := ms.empty_count + 1 }, c) := by
  simp only [reclaim_empty, list_unlink_eq, multislab_free_node]
  rfl

theorem ofNat_pred {k : Nat} (hk : 0 < k) : UInt32.ofNat k - 1 = UInt32.ofNat (k - 1) := by
  obtain ⟨j, rfl⟩ := Nat.exists_eq_succ_of_ne_zero hk.ne'
  exact UInt32.ofNat_succ_sub j

theorem Rep.dropped {ms : Multislab T} {as fs : List Nat} {n : Nat} (h : Rep ms as fs)
    (hn : n ∈ as) (hempty : emptyNode ms.nodes n = true) :
    Rep (dropped ms n) (as.erase n) fs := by
  have hdom : n ∈ ms.nodes.dom := h.mem_dom.mpr (Or.inl hn)
  have hnf : n ∉ fs := h.disjoint n hn
  have hsub : ∀ m ∈ ms.nodes.dom.erase n, m ∈ ms.nodes.dom := fun m hm => List.mem_of_mem_erase hm
  refine ⟨⟨h.config.block_pos, h.config.line, h.config.per_pos, h.config.per_le,
    h.config.size_eq⟩, h.active.unlink hn, h.active.unlink_other h.full hn h.disjoint, ?disjoint,
    ?dom, ?flag_active,
    h.flag_full, ?slab, h.full_used, ?count, ?slab_count, ?empty_count, ?max⟩
  case disjoint => exact fun m hm => h.disjoint m (List.mem_of_mem_erase hm)
  case dom =>
    have := h.dom.erase n
    rwa [List.erase_append_left _ hn] at this
  case flag_active => exact fun m hm => h.flag_active m (List.mem_of_mem_erase hm)
  case slab =>
    exact fun m hm =>
      ⟨(h.slab m (hsub m hm)).ok, (h.slab m (hsub m hm)).memory, (h.slab m (hsub m hm)).size,
        (h.slab m (hsub m hm)).count⟩
  case count => exact fun m hm => h.count m (hsub m hm)
  case slab_count =>
    show ms.slab_count - 1 = UInt32.ofNat (ms.nodes.dom.erase n).length
    rw [h.slab_count, List.length_erase_of_mem hdom, ofNat_pred (List.length_pos_of_mem hdom)]
  case empty_count =>
    show ms.empty_count - 1 = UInt32.ofNat ((ms.nodes.dom.erase n).countP (emptyNode ms.nodes))
    have hcount := (List.perm_cons_erase hdom).countP_eq (emptyNode ms.nodes)
    rw [List.countP_cons_of_pos hempty] at hcount
    rw [h.empty_count]
    unfold Multislab.empties
    rw [hcount, UInt32.ofNat_succ_sub]
  case max =>
    intro hmax
    have := h.max hmax
    show (ms.nodes.dom.erase n).length ≤ ms.max_slabs.toNat
    rw [List.length_erase_of_mem hdom]
    omega

theorem dropped_live {ms : Multislab T} {as fs : List Nat} {n : Nat} (h : Rep ms as fs)
    (hn : n ∈ as) (hempty : emptyNode ms.nodes n = true) (q : Nat) :
    Live (dropped ms n) q ↔ Live ms q := by
  have hdom : n ∈ ms.nodes.dom := h.mem_dom.mpr (Or.inl hn)
  have hslab := h.slab n hdom
  constructor
  · rintro ⟨m, hm, i, hi, rfl, hu⟩
    exact ⟨m, List.mem_of_mem_erase hm, i, hi, rfl, hu⟩
  · rintro ⟨m, hm, i, hi, rfl, hu⟩
    refine ⟨m, ?_, i, hi, rfl, hu⟩
    have hmn : m ≠ n := by
      rintro rfl
      have hz : (ms.nodes.slab m).popcount = 0 := by simpa [emptyNode] using hempty
      have := hslab.ok.popcount_eq_zero.mp hz i (by rw [hslab.count]; exact hi)
      rw [this] at hu
      exact absurd hu (by simp)
    exact (List.mem_erase_of_ne hmn).mpr hm

/-- The regions of a node, taken off the outstanding ones. -/
theorem regions_perm_erase {ms ms' : Multislab T} {n : Nat} (hdom : n ∈ ms.nodes.dom)
    (hd : ms'.nodes.dom = ms.nodes.dom.erase n) (hr : ms'.nodes.raw_memory = ms.nodes.raw_memory)
    (hs : ms'.slab_memory_size = ms.slab_memory_size) :
    (regions ms).Perm ((ms.nodes.raw_memory n, ms.slab_memory_size) :: (n, sizeof_node T)
      :: regions ms') := by
  have hsame : nodeRegions ms' = nodeRegions ms := by
    funext m
    simp [nodeRegions, hr, hs]
  have hp := (List.perm_cons_erase hdom).flatMap_right (nodeRegions ms)
  rw [List.flatMap_cons] at hp
  unfold regions
  rw [hd, hsame]
  exact hp

/-- **Freeing a node** gives exactly its two regions back. -/
theorem freeNode_spec {B : Backing γ} {out : γ → List Region} {good : γ → Prop}
    (H : Honest T B out good) {ms : Multislab T} (ms' : Multislab T) {c : γ} {n : Nat}
    (ho : Own out ms c) (hg : good c) (hdom : n ∈ ms.nodes.dom) (hd : ms'.nodes.dom = ms.nodes.dom.erase n)
    (hr : ms'.nodes.raw_memory = ms.nodes.raw_memory)
    (hs : ms'.slab_memory_size = ms.slab_memory_size) :
    good (freeNode B ms n c) ∧ Own out ms' (freeNode B ms n c) := by
  have hp := regions_perm_erase hdom hd hr hs
  have hout := ho.perm.trans hp
  obtain ⟨hg₁, hp₁⟩ := H.free hg (hout.mem_iff.mpr List.mem_cons_self)
  have hout₁ := hp₁.trans (hout.erase _)
  rw [List.erase_cons_head] at hout₁
  obtain ⟨hg₂, hp₂⟩ := H.free hg₁ (hout₁.mem_iff.mpr List.mem_cons_self)
  have hout₂ := hp₂.trans (hout₁.erase _)
  rw [List.erase_cons_head] at hout₂
  have hsub : ∀ r ∈ regions ms', r ∈ regions ms := fun r hr =>
    hp.mem_iff.mpr (List.mem_cons_of_mem _ (List.mem_cons_of_mem _ hr))
  refine ⟨hg₂, hout₂, ?_, fun r hr => ho.fits r (hsub r hr)⟩
  have hpair := (hp.pairwise_iff fun h => h.symm).mp ho.apart
  exact (List.pairwise_cons.mp (List.pairwise_cons.mp hpair).2).2

/-! ## §4. `cfiber_multislab_release`. -/

/-- What the release of the live block `p` does: a node leaves only when it lost its last live
block, and only above the reserve. -/
structure Released (B : Backing γ) (ms ms' : Multislab T) (c c' : γ) (p : Nat) : Prop where
  config : SameConfig ms ms'
  live : ∀ q, Live ms' q ↔ Live ms q ∧ q ≠ p
  block_same : ∀ n ∈ ms'.nodes.dom, ∀ i, ms'.block n i = ms.block n i
  raw : ms'.nodes.raw_memory = ms.nodes.raw_memory
  nodes : (ms'.nodes.dom = ms.nodes.dom ∧ c' = c) ∨
    ∃ n ∈ ms.nodes.dom, ms'.nodes.dom = ms.nodes.dom.erase n ∧ c' = freeNode B ms n c ∧
      ms.max_empty_reserve < ms.empty_count + 1

/-- The node of the released block, brought back to the active list if it was full. -/
def reactivated (ms : Multislab T) (n : Nat) : Multislab T :=
  if ms.nodes.is_full n then move_to_active ms n else ms

theorem Rep.reactivated {ms : Multislab T} {as fs : List Nat} {n : Nat} (h : Rep ms as fs)
    (hdom : n ∈ ms.nodes.dom) :
    ∃ as₁ fs₁, Rep (reactivated ms n) as₁ fs₁ ∧ n ∈ as₁ ∧ Relinked ms (reactivated ms n) := by
  rcases h.mem_dom.mp hdom with hna | hnf
  · have hflag := h.flag_active n hna
    refine ⟨as, fs, ?_, hna, ?_⟩
    · simpa [CFiber.Memory.reactivated, hflag] using h
    · simpa [CFiber.Memory.reactivated, hflag] using Relinked.refl ms
  · have hflag := h.flag_full n hnf
    refine ⟨n :: as, fs.erase n, ?_, List.mem_cons_self, ?_⟩
    · simpa [CFiber.Memory.reactivated, hflag] using h.move_to_active hnf
    · simpa [CFiber.Memory.reactivated, hflag] using move_to_active_relinked ms n

/-- The code clears the block first and moves the node after; the other order is the same. -/
theorem cfiber_multislab_release_eq {out : γ → List Region} {ms : Multislab T}
    {as fs : List Nat} {c : γ} (B : Backing γ) (h : Rep ms as fs) (ho : Own out ms c) {n i : Nat}
    (hdom : n ∈ ms.nodes.dom) (hi : i < ms.blocks_per_slab.toNat)
    (hused : (ms.nodes.slab n).used i = true) :
    cfiber_multislab_release B ms (ms.block n i) c =
      if (given (reactivated ms n) n i).nodes.used_count n = 0 then
        reclaim_empty B (given (reactivated ms n) n i) n c
      else (given (reactivated ms n) n i, c) := by
  have hslab := h.slab n hdom
  have hrel : cfiber_slab_release (ms.nodes.slab n) (ms.block n i)
      = (true, (ms.nodes.slab n).give i) :=
    cfiber_slab_release_spec hslab.ok (by rw [hslab.count]; exact hi) hused
  have hmove : (if (given ms n i).nodes.is_full n then move_to_active (given ms n i) n
      else given ms n i) = given (reactivated ms n) n i := by
    have hflag : (given ms n i).nodes.is_full = ms.nodes.is_full := rfl
    rw [hflag, given_move_to_active]
    unfold reactivated
    split <;> rfl
  rw [← hmove]
  simp only [cfiber_multislab_release, find_owning_slab_block h ho hdom hi, hrel]
  rfl

theorem released_block (ms : Multislab T) (n i m j : Nat) :
    (released ms n i).block m j = ms.block m j := by
  by_cases hmn : m = n
  · subst hmn
    simp [Multislab.block, Slab.block, released, given, count_release, set_slab, Slab.give]
  · simp [Multislab.block, released, given, count_release, set_slab, hmn]

/-- **Release of a live block.** -/
theorem cfiber_multislab_release_spec {B : Backing γ} {out : γ → List Region} {good : γ → Prop}
    (H : Honest T B out good) {ms : Multislab T} {as fs : List Nat} {c : γ} {p : Nat}
    (h : Rep ms as fs) (ho : Own out ms c) (hg : good c) (hp : Live ms p) :
    ∃ ms' c', cfiber_multislab_release B ms p c = (ms', c') ∧ good c' ∧ Own out ms' c' ∧
      (∃ as' fs', Rep ms' as' fs') ∧ Released B ms ms' c c' p := by
  obtain ⟨n, hdom, i, hi, rfl, hused⟩ := hp
  obtain ⟨as₁, fs₁, h₁, hn₁, hr⟩ := h.reactivated hdom
  have ho₁ := hr.own ho
  have hi₁ : i < (reactivated ms n).blocks_per_slab.toNat := by
    rw [hr.config.blocks_per_slab]; exact hi
  have hused₁ : ((reactivated ms n).nodes.slab n).used i = true := by
    rw [hr.slab]; exact hused
  have hdom₁ : n ∈ (reactivated ms n).nodes.dom := by rw [hr.dom]; exact hdom
  have h₂ := h₁.released hn₁ hi₁ hused₁
  have ho₂ : Own out (released (reactivated ms n) n i) c := ⟨ho₁.perm, ho₁.apart, ho₁.fits⟩
  have hlive₂ : ∀ q, Live (released (reactivated ms n) n i) q ↔
      Live ms q ∧ q ≠ ms.block n i := by
    intro q
    rw [released_live h₁ ho₁ hdom₁ hi₁ q, hr.live, hr.block]
  have hcfg₂ := hr.config.trans (released_config (reactivated ms n) n i)
  have hraw₂ : (released (reactivated ms n) n i).nodes.raw_memory = ms.nodes.raw_memory := hr.raw
  have hblock₂ : ∀ m j, (released (reactivated ms n) n i).block m j = ms.block m j := by
    intro m j
    rw [released_block, hr.block]
  have heq := cfiber_multislab_release_eq B h ho hdom hi hused
  by_cases hz : (given (reactivated ms n) n i).nodes.used_count n = 0
  · have hrel : released (reactivated ms n) n i
        = { given (reactivated ms n) n i with
            empty_count := (given (reactivated ms n) n i).empty_count + 1 } := by
      unfold released
      rw [if_pos hz]
      rfl
    rw [if_pos hz, reclaim_empty_eq, ← hrel] at heq
    split_ifs at heq with hcond
    · -- above the reserve: the node is unlinked and its two regions go back
      have hempty : emptyNode (released (reactivated ms n) n i).nodes n = true :=
        (h₂.count_eq_zero hdom₁).mp hz
      have hfree := freeNode_spec H (dropped (released (reactivated ms n) n i) n) ho₂ hg
        hdom₁ rfl rfl rfl
      have hsame : freeNode B (released (reactivated ms n) n i) n c = freeNode B ms n c := by
        unfold freeNode
        rw [hraw₂, hcfg₂.slab_memory_size]
      have hsame' : freeNode B (given (reactivated ms n) n i) n c = freeNode B ms n c := hsame
      rw [hsame'] at heq
      rw [hsame] at hfree
      refine ⟨_, _, heq, hfree.1, hfree.2, ⟨_, _, h₂.dropped hn₁ hempty⟩,
        ⟨hcfg₂.trans ⟨rfl, rfl, rfl, rfl, rfl⟩, ?_, fun m _ j => hblock₂ m j, hraw₂,
          Or.inr ⟨n, hdom, ?_, rfl, ?_⟩⟩⟩
      · intro q
        rw [dropped_live h₂ hn₁ hempty, hlive₂]
      · show (reactivated ms n).nodes.dom.erase n = ms.nodes.dom.erase n
        rw [hr.dom]
      · have hlt := hcond.1
        have he : (given (reactivated ms n) n i).empty_count = ms.empty_count := hr.empty_count
        have hm : (given (reactivated ms n) n i).max_empty_reserve = ms.max_empty_reserve :=
          hr.config.max_empty_reserve
        rw [he, hm] at hlt
        exact hlt
    · exact ⟨_, _, heq, hg, ho₂, ⟨_, _, h₂⟩,
        ⟨hcfg₂, hlive₂, fun m _ j => hblock₂ m j, hraw₂, Or.inl ⟨hr.dom, rfl⟩⟩⟩
  · have hrel : released (reactivated ms n) n i = given (reactivated ms n) n i := by
      unfold released
      rw [if_neg hz]
      rfl
    rw [if_neg hz, ← hrel] at heq
    exact ⟨_, _, heq, hg, ho₂, ⟨_, _, h₂⟩,
      ⟨hcfg₂, hlive₂, fun m _ j => hblock₂ m j, hraw₂, Or.inl ⟨hr.dom, rfl⟩⟩⟩

/-- With the largest hysteresis threshold no slab is ever given back. -/
theorem Released.dom_eq_of_max {B : Backing γ} {ms ms' : Multislab T} {c c' : γ} {p : Nat}
    (h : Released B ms ms' c c' p) (hmax : ms.max_empty_reserve = UInt32.ofNat (2 ^ 32 - 1)) :
    ms'.nodes.dom = ms.nodes.dom ∧ c' = c := by
  rcases h.nodes with hkeep | ⟨n, -, -, -, hlt⟩
  · exact hkeep
  · rw [hmax, UInt32.lt_iff_toNat_lt] at hlt
    have := (ms.empty_count + 1).toNat_lt
    exact absurd hlt (by simp; omega)

/-! ## §5. `cfiber_multislab_destroy`. -/

/-- The state after every node of `ns` is freed, the links left as they are. -/
theorem free_nodes_spec {B : Backing γ} {out : γ → List Region} {good : γ → Prop}
    (H : Honest T B out good) (ns : List Nat) :
    ∀ (ms : Multislab T) (c : γ), Own out ms c → good c → ns.Nodup →
      (∀ n ∈ ns, n ∈ ms.nodes.dom) →
      ∃ ms' c', ns.foldl (fun mc node => multislab_free_node B mc.1 node mc.2) (ms, c) = (ms', c') ∧
        good c' ∧ Own out ms' c' ∧ ms.nodes.dom.Perm (ns ++ ms'.nodes.dom) ∧
        ms'.nodes.next = ms.nodes.next ∧ ms'.full = ms.full := by
  induction ns with
  | nil => exact fun ms c ho hg _ _ =>
      ⟨ms, c, rfl, hg, ho, List.Perm.refl _, rfl, rfl⟩
  | cons n ns ih =>
      intro ms c ho hg hnd hmem
      obtain ⟨hnot, hnd⟩ := List.nodup_cons.mp hnd
      have hdom := hmem n List.mem_cons_self
      obtain ⟨hg₁, ho₁⟩ := freeNode_spec H (multislab_free_node B ms n c).1 ho hg hdom rfl
        rfl rfl
      have hrest : ∀ m ∈ ns, m ∈ (multislab_free_node B ms n c).1.nodes.dom := by
        intro m hm
        have hmn : m ≠ n := fun e => hnot (e ▸ hm)
        exact (List.mem_erase_of_ne hmn).mpr (hmem m (List.mem_cons_of_mem _ hm))
      obtain ⟨ms', c', heq, hg', ho', hd, hnext, hfull⟩ := ih _ _ ho₁ hg₁ hnd hrest
      exact ⟨ms', c', heq, hg', ho', (List.perm_cons_erase hdom).trans (hd.cons n), hnext, hfull⟩

/-- Freeing nodes takes them out of the domain and changes nothing else of the multislab. -/
theorem free_nodes_fst (B : Backing γ) (ns : List Nat) :
    ∀ (ms : Multislab T) (c : γ),
      (ns.foldl (fun mc node => multislab_free_node B mc.1 node mc.2) (ms, c)).1 =
        { ms with nodes := { ms.nodes with dom := ns.foldl List.erase ms.nodes.dom } } := by
  induction ns with
  | nil => exact fun ms c => rfl
  | cons n ns ih =>
      intro ms c
      rw [List.foldl_cons, List.foldl_cons]
      exact ih _ _

theorem foldl_erase_perm {rest : List Nat} (ns : List Nat) :
    ∀ {dom : List Nat}, dom.Perm (ns ++ rest) → (ns.foldl List.erase dom).Perm rest := by
  induction ns with
  | nil => exact fun h => h
  | cons n ns ih =>
      intro dom h
      apply ih
      have := h.erase n
      rwa [List.cons_append, List.erase_cons_head] at this

/-- **`destroy` frees every node**: the active ones, then the full ones. -/
theorem cfiber_multislab_destroy_eq (B : Backing γ) {ms : Multislab T} {as fs : List Nat}
    (h : Rep ms as fs) (c : γ) :
    cfiber_multislab_destroy B ms c =
      (as ++ fs).foldl (fun mc node => multislab_free_node B mc.1 node mc.2) (ms, c) := by
  have hlen := h.active_length
  have hwa : walk ms.nodes.next ms.nodes.dom.length ms.active = as := by
    rw [h.active.head]
    exact walk_eq h.active.links.linked (by omega)
  have hfst := free_nodes_fst B as ms c
  -- the second walk starts from what the first one left
  have hwf : walk ms.nodes.next (as.foldl List.erase ms.nodes.dom).length ms.full = fs := by
    rw [(foldl_erase_perm as h.dom).length_eq, h.full.head]
    exact walk_eq h.full.links.linked (Nat.le_refl _)
  unfold cfiber_multislab_destroy free_node_list
  rw [hwa, List.foldl_append]
  rcases hres : as.foldl (fun mc node => multislab_free_node B mc.1 node mc.2) (ms, c) with ⟨ms₁, c₁⟩
  rw [hres] at hfst
  obtain rfl : ms₁ = _ := hfst
  dsimp only
  rw [hwf]

/-- **Destruction.**  Every region outstanding for the multislab goes back. -/
theorem cfiber_multislab_destroy_spec {B : Backing γ} {out : γ → List Region} {good : γ → Prop}
    (H : Honest T B out good) {ms : Multislab T} {as fs : List Nat} {c : γ} (h : Rep ms as fs)
    (ho : Own out ms c) (hg : good c) :
    good (cfiber_multislab_destroy B ms c).2 ∧ out (cfiber_multislab_destroy B ms c).2 = [] := by
  have hnd : (as ++ fs).Nodup := h.dom.nodup_iff.mp h.dom_nodup
  obtain ⟨ms', c', heq, hg', ho', hd, -, -⟩ := free_nodes_spec H (as ++ fs) ms c ho hg hnd
    fun n hn => h.dom.mem_iff.mpr hn
  have hempty : ms'.nodes.dom = [] := by
    have hp : ((as ++ fs) ++ ms'.nodes.dom).Perm ((as ++ fs) ++ []) := by
      rw [List.append_nil]
      exact hd.symm.trans h.dom
    exact ((List.perm_append_left_iff _).mp hp).eq_nil
  have hnone : regions ms' = [] := by simp [regions, hempty]
  rw [cfiber_multislab_destroy_eq B h, heq]
  have hperm := ho'.perm
  rw [hnone] at hperm
  exact ⟨hg', hperm.eq_nil⟩

/-! ## §6. `cfiber_multislab_init_ext`. -/

/-- **A fresh multislab is represented**, empty. -/
theorem cfiber_multislab_init_ext_spec {block_size : Nat} {blocks_per_slab max_slabs reserve : UInt32}
    {ms : Multislab T}
    (hinit : cfiber_multislab_init_ext T block_size blocks_per_slab max_slabs reserve = some ms) :
    Rep ms [] [] ∧ ms.nodes.dom = [] ∧ ms.block_size = block_size ∧
      ms.blocks_per_slab = blocks_per_slab ∧ ms.max_slabs = max_slabs ∧
      ms.max_empty_reserve = reserve := by
  unfold cfiber_multislab_init_ext at hinit
  split_ifs at hinit with hbad
  simp only [not_or, not_not, Nat.not_lt] at hbad
  obtain ⟨hline, hmod, hper, hmax, hsize⟩ := hbad
  have hpos : 0 < block_size := Nat.lt_of_lt_of_le T.cache_line_pos hline
  have hfit : block_size * blocks_per_slab.toNat < 2 ^ T.WORD_BITS := by
    have h1 := (Nat.le_div_iff_mul_le hpos).mp hsize
    have h2 : 0 < 2 ^ T.WORD_BITS := Nat.two_pow_pos _
    unfold Build.SIZE_MAX at h1
    rw [Nat.mul_comm] at h1
    omega
  obtain rfl := Option.some.inj hinit
  have hperpos : 0 < blocks_per_slab.toNat := by
    rcases Nat.eq_zero_or_pos blocks_per_slab.toNat with hz | hz
    · exact absurd (UInt32.toNat_inj.mp (by simpa using hz)) hper
    · exact hz
  refine ⟨⟨⟨hpos, hmod, hperpos, hmax, T.wrap_of_lt hfit⟩, DList.empty _ _, DList.empty _ _, ?_,
    List.Perm.refl _, ?_, ?_, ?_, ?_, ?_, rfl, rfl, ?_⟩, rfl, rfl, rfl, rfl, rfl⟩ <;> simp

end CFiber.Memory
