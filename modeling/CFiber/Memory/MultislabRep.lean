/-
  CFiber.Memory.MultislabRep — the representation invariant of the multislab.

  `Rep ms as fs` ties the pointer structure to two lists of nodes: `as` on the active list, `fs` on
  the full list.  `Live ms p` is the abstract content: `p` is a block handed out and not yet given
  back.  `Own out ms c` says that the regions outstanding at the backing allocator are exactly the
  two regions of each node.

  The spec lemmas of the three public operations:

    • `cfiber_multislab_alloc_spec`   — a fresh live block, or null with nothing changed;
    • `cfiber_multislab_release_spec` — exactly the released block stops being live;
    • `cfiber_multislab_destroy_spec` — every region goes back.

  The counters are `uint32_t`: they hold the number of (empty) nodes modulo `2 ^ 32`.
-/
import CFiber.Memory.Multislab
import Mathlib.Data.List.Pairwise
import Mathlib.Data.List.Perm.Basic

namespace CFiber.Memory

open CFiber.Base

variable {T : Target} {γ : Type}

/-! ## §1. The contract of the backing allocator. -/

/-- A region: base address and size. -/
abbrev Region := Nat × Nat

/-- The two regions share no byte. -/
def Apart (r q : Region) : Prop := r.1 + r.2 ≤ q.1 ∨ q.1 + q.2 ≤ r.1

theorem Apart.symm {r q : Region} (h : Apart r q) : Apart q r := Or.symm h

/-- What a backing allocator promises: an answer is a region inside the address space that is
disjoint from every outstanding one, and a free returns an outstanding region.  `out` reads the
regions outstanding off the allocator's state, `good` is the invariant of that state. -/
structure Honest (T : Target) (B : Backing γ) (out : γ → List Region) (good : γ → Prop) : Prop where
  alloc_some : ∀ {n : Nat} {c : γ} {a : Nat} {c' : γ}, 0 < n → good c →
    B.mem_alloc n c = (some a, c') →
    good c' ∧ (out c').Perm ((a, n) :: out c) ∧ a + n < 2 ^ T.WORD_BITS ∧
      ∀ r ∈ out c, Apart (a, n) r
  alloc_none : ∀ {n : Nat} {c c' : γ}, 0 < n → good c → B.mem_alloc n c = (none, c') →
    good c' ∧ (out c').Perm (out c)
  free : ∀ {a n : Nat} {c : γ}, good c → (a, n) ∈ out c →
    good (B.mem_free a n c) ∧ (out (B.mem_free a n c)).Perm ((out c).erase (a, n))

/-! ## §2. The representation invariant. -/

/-- The blocks of node `n`, as addresses. -/
def Multislab.block (ms : Multislab T) (n i : Nat) : Nat := (ms.nodes.slab n).block i

/-- `p` is a block of some slab that is handed out. -/
def Live (ms : Multislab T) (p : Nat) : Prop :=
  ∃ n ∈ ms.nodes.dom, ∃ i < ms.blocks_per_slab.toNat,
    p = ms.block n i ∧ (ms.nodes.slab n).used i = true

/-- There are no more live blocks than blocks. -/
theorem live_length_le {ms : Multislab T} {l : List Nat} (hnd : l.Nodup)
    (hl : ∀ p ∈ l, Live ms p) : l.length ≤ ms.nodes.dom.length * ms.blocks_per_slab.toNat := by
  have hsub : l ⊆ ms.nodes.dom.flatMap fun n =>
      (List.range ms.blocks_per_slab.toNat).map (ms.block n) := by
    intro p hp
    obtain ⟨n, hn, i, hi, rfl, -⟩ := hl p hp
    exact List.mem_flatMap.mpr ⟨n, hn, List.mem_map_of_mem (List.mem_range.mpr hi)⟩
  have hle := (hnd.subperm hsub).length_le
  simpa [List.length_flatMap] using hle

/-- No block of node `n` is handed out. -/
def emptyNode (m : NodeMem T) (n : Nat) : Bool := (m.slab n).popcount == 0

/-- The number of nodes without a live block. -/
def Multislab.empties (ms : Multislab T) : Nat := ms.nodes.dom.countP (emptyNode ms.nodes)

/-- The two regions behind a node: the slab memory and the node struct. -/
def nodeRegions (ms : Multislab T) (n : Nat) : List Region :=
  [(ms.nodes.raw_memory n, ms.slab_memory_size), (n, sizeof_node T)]

def regions (ms : Multislab T) : List Region := ms.nodes.dom.flatMap (nodeRegions ms)

/-- An accepted configuration (`cfiber_multislab_init_ext`). -/
structure Config (ms : Multislab T) : Prop where
  block_pos : 0 < ms.block_size
  line : ms.block_size % T.CACHE_LINE_SIZE = 0
  per_pos : 0 < ms.blocks_per_slab.toNat
  per_le : ms.blocks_per_slab.toNat ≤ T.MAX_BLOCKS
  size_eq : ms.slab_memory_size = ms.block_size * ms.blocks_per_slab.toNat

/-- The slab of a node is well formed and covers the node's own region. -/
structure SlabOf (ms : Multislab T) (n : Nat) : Prop where
  ok : (ms.nodes.slab n).Ok
  memory : (ms.nodes.slab n).memory = ms.nodes.raw_memory n
  size : (ms.nodes.slab n).block_size = ms.block_size
  count : (ms.nodes.slab n).block_count = ms.blocks_per_slab.toNat

/-- The pointer structure of `ms` represents the active list `as` and the full list `fs`. -/
structure Rep (ms : Multislab T) (as fs : List Nat) : Prop where
  config : Config ms
  active : DList ms.nodes.next ms.nodes.prev ms.active as
  full : DList ms.nodes.next ms.nodes.prev ms.full fs
  disjoint : ∀ n ∈ as, n ∉ fs
  dom : ms.nodes.dom.Perm (as ++ fs)
  flag_active : ∀ n ∈ as, ms.nodes.is_full n = false
  flag_full : ∀ n ∈ fs, ms.nodes.is_full n = true
  slab : ∀ n ∈ ms.nodes.dom, SlabOf ms n
  full_used : ∀ n ∈ fs, ∀ i < ms.blocks_per_slab.toNat, (ms.nodes.slab n).used i = true
  count : ∀ n ∈ ms.nodes.dom, ms.nodes.used_count n = UInt32.ofNat (ms.nodes.slab n).popcount
  slab_count : ms.slab_count = UInt32.ofNat ms.nodes.dom.length
  empty_count : ms.empty_count = UInt32.ofNat ms.empties
  max : ms.max_slabs ≠ 0 → ms.nodes.dom.length ≤ ms.max_slabs.toNat

/-- The regions outstanding at the backing allocator are those of the nodes. -/
structure Own (out : γ → List Region) (ms : Multislab T) (c : γ) : Prop where
  perm : (out c).Perm (regions ms)
  apart : (regions ms).Pairwise Apart
  fits : ∀ r ∈ regions ms, r.1 + r.2 < 2 ^ T.WORD_BITS

/-- The configuration fields agree. -/
structure SameConfig (ms ms' : Multislab T) : Prop where
  block_size : ms'.block_size = ms.block_size
  blocks_per_slab : ms'.blocks_per_slab = ms.blocks_per_slab
  slab_memory_size : ms'.slab_memory_size = ms.slab_memory_size
  max_slabs : ms'.max_slabs = ms.max_slabs
  max_empty_reserve : ms'.max_empty_reserve = ms.max_empty_reserve

theorem SameConfig.refl (ms : Multislab T) : SameConfig ms ms := ⟨rfl, rfl, rfl, rfl, rfl⟩

theorem SameConfig.trans {a b c : Multislab T} (h : SameConfig a b) (k : SameConfig b c) :
    SameConfig a c :=
  ⟨k.block_size.trans h.block_size, k.blocks_per_slab.trans h.blocks_per_slab,
    k.slab_memory_size.trans h.slab_memory_size, k.max_slabs.trans h.max_slabs,
    k.max_empty_reserve.trans h.max_empty_reserve⟩

theorem Rep.mem_dom {ms : Multislab T} {as fs : List Nat} (h : Rep ms as fs) {n : Nat} :
    n ∈ ms.nodes.dom ↔ n ∈ as ∨ n ∈ fs := by
  rw [h.dom.mem_iff, List.mem_append]

theorem Rep.dom_nodup {ms : Multislab T} {as fs : List Nat} (h : Rep ms as fs) :
    ms.nodes.dom.Nodup := by
  rw [h.dom.nodup_iff]
  refine List.nodup_append.mpr ⟨h.active.nodup, h.full.nodup, ?_⟩
  rintro a ha b hb rfl
  exact h.disjoint a ha hb

/-- No list is longer than the number of node objects: the loops' bounds are never reached. -/
theorem Rep.active_length {ms : Multislab T} {as fs : List Nat} (h : Rep ms as fs) :
    as.length + fs.length = ms.nodes.dom.length := by
  rw [h.dom.length_eq, List.length_append]

theorem Rep.per_lt {ms : Multislab T} {as fs : List Nat} (h : Rep ms as fs) {i : Nat}
    (hi : i < ms.blocks_per_slab.toNat) : i < T.MAX_BLOCKS :=
  Nat.lt_of_lt_of_le hi h.config.per_le

/-- The use count is exact: it is far below `2 ^ 32`. -/
theorem Rep.count_toNat {ms : Multislab T} {as fs : List Nat} (h : Rep ms as fs) {n : Nat}
    (hn : n ∈ ms.nodes.dom) : (ms.nodes.used_count n).toNat = (ms.nodes.slab n).popcount := by
  have hle := (h.slab n hn).ok.popcount_le
  have hcount := (h.slab n hn).ok.count_le
  have hmax := T.max_blocks_lt
  rw [h.count n hn, UInt32.toNat_ofNat']
  exact Nat.mod_eq_of_lt (by omega)

theorem Rep.count_eq_zero {ms : Multislab T} {as fs : List Nat} (h : Rep ms as fs) {n : Nat}
    (hn : n ∈ ms.nodes.dom) :
    ms.nodes.used_count n = 0 ↔ emptyNode ms.nodes n = true := by
  rw [← UInt32.toNat_inj, h.count_toNat hn]
  simp [emptyNode]

/-! ## §3. Blocks of distinct nodes are distinct. -/

theorem Own.nodes_apart {out : γ → List Region} {ms : Multislab T} {c : γ} (ho : Own out ms c)
    {n m : Nat} (hn : n ∈ ms.nodes.dom) (hm : m ∈ ms.nodes.dom) (hne : n ≠ m) :
    ∀ r ∈ nodeRegions ms n, ∀ q ∈ nodeRegions ms m, Apart r q := by
  have hpair := (List.pairwise_flatMap.mp ho.apart).2
  have hsymm : Std.Symm fun a b => ∀ r ∈ nodeRegions ms a, ∀ q ∈ nodeRegions ms b, Apart r q :=
    ⟨fun _ _ h r hr q hq => (h q hq r hr).symm⟩
  exact hpair.forall hn hm hne

/-- A block lies inside the slab region of its node. -/
theorem SlabOf.block_range {ms : Multislab T} (hc : Config ms) {n i : Nat} (hs : SlabOf ms n)
    (hi : i < ms.blocks_per_slab.toNat) :
    ms.nodes.raw_memory n ≤ ms.block n i ∧
      ms.block n i + ms.block_size ≤ ms.nodes.raw_memory n + ms.slab_memory_size := by
  have hlt : (ms.nodes.slab n).block i + (ms.nodes.slab n).block_size ≤ _ :=
    Slab.block_lt (by rw [hs.count]; exact hi)
  rw [hs.memory, hs.count, hs.size] at hlt
  rw [hc.size_eq, Nat.mul_comm ms.block_size]
  refine ⟨?_, hlt⟩
  rw [← hs.memory]
  exact Nat.le_add_right _ _

theorem Rep.block_inj {out : γ → List Region} {ms : Multislab T} {as fs : List Nat} {c : γ}
    (h : Rep ms as fs) (ho : Own out ms c) {n m i j : Nat} (hn : n ∈ ms.nodes.dom)
    (hm : m ∈ ms.nodes.dom) (hi : i < ms.blocks_per_slab.toNat)
    (hj : j < ms.blocks_per_slab.toNat) (e : ms.block n i = ms.block m j) : n = m ∧ i = j := by
  have hnm : n = m := by
    by_contra hne
    have hap := ho.nodes_apart hn hm hne _ (List.mem_cons_self) _ (List.mem_cons_self)
    have hbn := (h.slab n hn).block_range h.config hi
    have hbm := (h.slab m hm).block_range h.config hj
    have hpos := h.config.block_pos
    simp only [Apart] at hap
    omega
  subst hnm
  exact ⟨rfl, Slab.block_inj (h.slab n hn).ok e⟩

/-! ## §4. Counting nodes. -/

theorem countP_congr_except {l : List Nat} {n : Nat} (hnd : l.Nodup) (hn : n ∈ l)
    {p q : Nat → Bool} (hpq : ∀ m ∈ l, m ≠ n → p m = q m) :
    l.countP p + (if q n then 1 else 0) = l.countP q + (if p n then 1 else 0) := by
  have hperm := List.perm_cons_erase hn
  rw [hperm.countP_eq p, hperm.countP_eq q, List.countP_cons, List.countP_cons]
  have hrest : (l.erase n).countP p = (l.erase n).countP q := by
    refine List.countP_congr fun m hm => ?_
    have hmn : m ≠ n := fun e => hnd.not_mem_erase (e ▸ hm)
    rw [hpq m (List.mem_of_mem_erase hm) hmn]
  rw [hrest]
  omega

theorem UInt32.ofNat_succ_sub (k : Nat) : UInt32.ofNat (k + 1) - 1 = UInt32.ofNat k := by
  rw [UInt32.ofNat_add]
  exact UInt32.add_sub_cancel _ _

/-! ## §5. Moving a node between the two lists. -/

/-- Everything but the links, the list heads and the `is_full` flags is unchanged. -/
structure Relinked (ms ms' : Multislab T) : Prop where
  config : SameConfig ms ms'
  slab_count : ms'.slab_count = ms.slab_count
  empty_count : ms'.empty_count = ms.empty_count
  slab : ms'.nodes.slab = ms.nodes.slab
  raw : ms'.nodes.raw_memory = ms.nodes.raw_memory
  used : ms'.nodes.used_count = ms.nodes.used_count
  dom : ms'.nodes.dom = ms.nodes.dom

theorem Relinked.refl (ms : Multislab T) : Relinked ms ms :=
  ⟨SameConfig.refl ms, rfl, rfl, rfl, rfl, rfl, rfl⟩

theorem Relinked.trans {a b c : Multislab T} (h : Relinked a b) (k : Relinked b c) :
    Relinked a c :=
  ⟨h.config.trans k.config, k.slab_count.trans h.slab_count, k.empty_count.trans h.empty_count,
    k.slab.trans h.slab, k.raw.trans h.raw, k.used.trans h.used, k.dom.trans h.dom⟩

theorem Relinked.live {ms ms' : Multislab T} (h : Relinked ms ms') (p : Nat) :
    Live ms' p ↔ Live ms p := by
  unfold Live Multislab.block
  rw [h.dom, h.slab, h.config.blocks_per_slab]

theorem Relinked.regions {ms ms' : Multislab T} (h : Relinked ms ms') :
    regions ms' = regions ms := by
  unfold CFiber.Memory.regions nodeRegions
  rw [h.dom, h.raw, h.config.slab_memory_size]

theorem Relinked.own {out : γ → List Region} {ms ms' : Multislab T} {c : γ} (h : Relinked ms ms')
    (ho : Own out ms c) : Own out ms' c :=
  ⟨by rw [h.regions]; exact ho.perm, by rw [h.regions]; exact ho.apart,
    by rw [h.regions]; exact ho.fits⟩

/-- New lists over the same nodes: what has to be shown again after a relink. -/
theorem Rep.relink {ms ms' : Multislab T} {as fs as' fs' : List Nat} (h : Rep ms as fs)
    (hr : Relinked ms ms') (ha : DList ms'.nodes.next ms'.nodes.prev ms'.active as')
    (hf : DList ms'.nodes.next ms'.nodes.prev ms'.full fs') (hd : ∀ n ∈ as', n ∉ fs')
    (hp : (as' ++ fs').Perm (as ++ fs)) (hfa : ∀ n ∈ as', ms'.nodes.is_full n = false)
    (hff : ∀ n ∈ fs', ms'.nodes.is_full n = true)
    (hu : ∀ n ∈ fs', ∀ i < ms.blocks_per_slab.toNat, (ms.nodes.slab n).used i = true) :
    Rep ms' as' fs' where
  config :=
    { block_pos := by rw [hr.config.block_size]; exact h.config.block_pos
      line := by rw [hr.config.block_size]; exact h.config.line
      per_pos := by rw [hr.config.blocks_per_slab]; exact h.config.per_pos
      per_le := by rw [hr.config.blocks_per_slab]; exact h.config.per_le
      size_eq := by
        rw [hr.config.block_size, hr.config.blocks_per_slab, hr.config.slab_memory_size]
        exact h.config.size_eq }
  active := ha
  full := hf
  disjoint := hd
  dom := by rw [hr.dom]; exact h.dom.trans hp.symm
  flag_active := hfa
  flag_full := hff
  slab n hn := by
    rw [hr.dom] at hn
    have hs := h.slab n hn
    exact ⟨by rw [hr.slab]; exact hs.ok, by rw [hr.slab, hr.raw]; exact hs.memory,
      by rw [hr.slab, hr.config.block_size]; exact hs.size,
      by rw [hr.slab, hr.config.blocks_per_slab]; exact hs.count⟩
  full_used := by rw [hr.slab, hr.config.blocks_per_slab]; exact hu
  count n hn := by rw [hr.used, hr.slab]; exact h.count n (by rwa [hr.dom] at hn)
  slab_count := by rw [hr.slab_count, hr.dom]; exact h.slab_count
  empty_count := by
    rw [hr.empty_count, h.empty_count]
    unfold Multislab.empties emptyNode
    rw [hr.dom, hr.slab]
  max := by rw [hr.config.max_slabs, hr.dom]; exact h.max

theorem move_to_full_eq (ms : Multislab T) (n : Nat) :
    move_to_full ms n =
      { ms with
        nodes := { ms.nodes with
          next := Function.update (unlinkNext ms.nodes.next ms.nodes.prev n) n ms.full
          prev := consPrev (unlinkPrev ms.nodes.next ms.nodes.prev n) ms.full n
          is_full := Function.update ms.nodes.is_full n true }
        active := unlinkHead ms.nodes.next ms.nodes.prev ms.active n
        full := some n } := by
  simp only [move_to_full, list_unlink_eq, list_push_eq]

theorem move_to_active_eq (ms : Multislab T) (n : Nat) :
    move_to_active ms n =
      { ms with
        nodes := { ms.nodes with
          next := Function.update (unlinkNext ms.nodes.next ms.nodes.prev n) n ms.active
          prev := consPrev (unlinkPrev ms.nodes.next ms.nodes.prev n) ms.active n
          is_full := Function.update ms.nodes.is_full n false }
        full := unlinkHead ms.nodes.next ms.nodes.prev ms.full n
        active := some n } := by
  simp only [move_to_active, list_unlink_eq, list_push_eq]

theorem move_to_full_relinked (ms : Multislab T) (n : Nat) : Relinked ms (move_to_full ms n) := by
  rw [move_to_full_eq]
  exact ⟨⟨rfl, rfl, rfl, rfl, rfl⟩, rfl, rfl, rfl, rfl, rfl, rfl⟩

theorem move_to_active_relinked (ms : Multislab T) (n : Nat) :
    Relinked ms (move_to_active ms n) := by
  rw [move_to_active_eq]
  exact ⟨⟨rfl, rfl, rfl, rfl, rfl⟩, rfl, rfl, rfl, rfl, rfl, rfl⟩

/-- A node with no free block moves to the full list. -/
theorem Rep.move_to_full {ms : Multislab T} {as fs : List Nat} {n : Nat} (h : Rep ms as fs)
    (hn : n ∈ as)
    (hall : ∀ i < ms.blocks_per_slab.toNat, (ms.nodes.slab n).used i = true) :
    Rep (move_to_full ms n) (as.erase n) (n :: fs) := by
  obtain ⟨ha, hf⟩ := h.active.transfer h.full hn h.disjoint
  have hnd := h.active.nodup
  have hne : ∀ m ∈ as.erase n, m ≠ n := fun m hm e => hnd.not_mem_erase (e ▸ hm)
  have hflag : (CFiber.Memory.move_to_full ms n).nodes.is_full
      = Function.update ms.nodes.is_full n true := by
    rw [move_to_full_eq]
  refine h.relink (move_to_full_relinked ms n) ?_ ?_ ?_ ?_ ?_ ?_ ?_
  · rw [move_to_full_eq]; exact ha
  · rw [move_to_full_eq]; exact hf
  · intro m hm
    simp only [List.mem_cons, not_or]
    exact ⟨hne m hm, h.disjoint m (List.mem_of_mem_erase hm)⟩
  · exact List.perm_middle.trans ((List.perm_cons_erase hn).symm.append_right fs)
  · intro m hm
    rw [hflag, Function.update_of_ne (hne m hm)]
    exact h.flag_active m (List.mem_of_mem_erase hm)
  · intro m hm
    rw [hflag]
    by_cases hmn : m = n
    · rw [hmn, Function.update_self]
    · rw [Function.update_of_ne hmn]
      exact h.flag_full m ((List.mem_cons.mp hm).resolve_left hmn)
  · intro m hm
    rcases List.mem_cons.mp hm with rfl | hm
    · exact hall
    · exact h.full_used m hm

/-- A node moves back to the active list. -/
theorem Rep.move_to_active {ms : Multislab T} {as fs : List Nat} {n : Nat} (h : Rep ms as fs)
    (hn : n ∈ fs) : Rep (move_to_active ms n) (n :: as) (fs.erase n) := by
  have hdisj : ∀ m ∈ fs, m ∉ as := fun m hm hma => h.disjoint m hma hm
  obtain ⟨hf, ha⟩ := h.full.transfer h.active hn hdisj
  have hnd := h.full.nodup
  have hne : ∀ m ∈ fs.erase n, m ≠ n := fun m hm e => hnd.not_mem_erase (e ▸ hm)
  have hflag : (CFiber.Memory.move_to_active ms n).nodes.is_full
      = Function.update ms.nodes.is_full n false := by
    rw [move_to_active_eq]
  refine h.relink (move_to_active_relinked ms n) ?_ ?_ ?_ ?_ ?_ ?_ ?_
  · rw [move_to_active_eq]; exact ha
  · rw [move_to_active_eq]; exact hf
  · intro m hm hmf
    rcases List.mem_cons.mp hm with rfl | hm
    · exact hnd.not_mem_erase hmf
    · exact h.disjoint m hm (List.mem_of_mem_erase hmf)
  · exact List.perm_middle.symm.trans ((List.perm_cons_erase hn).symm.append_left as)
  · intro m hm
    rw [hflag]
    by_cases hmn : m = n
    · rw [hmn, Function.update_self]
    · rw [Function.update_of_ne hmn]
      exact h.flag_active m ((List.mem_cons.mp hm).resolve_left hmn)
  · intro m hm
    rw [hflag, Function.update_of_ne (hne m hm)]
    exact h.flag_full m (List.mem_of_mem_erase hm)
  · exact fun m hm => h.full_used m (List.mem_of_mem_erase hm)

/-! ## §6. Allocation. -/

/-- Every block of every slab is handed out. -/
def AllFull (ms : Multislab T) : Prop :=
  ∀ n ∈ ms.nodes.dom, ∀ i < ms.blocks_per_slab.toNat, (ms.nodes.slab n).used i = true

theorem Relinked.allFull {ms ms' : Multislab T} (h : Relinked ms ms') :
    AllFull ms' ↔ AllFull ms := by
  unfold AllFull
  rw [h.dom, h.slab, h.config.blocks_per_slab]

theorem set_slab_self (ms : Multislab T) (n : Nat) : set_slab ms n (ms.nodes.slab n) = ms := by
  simp [set_slab]

theorem set_slab_config (ms : Multislab T) (n : Nat) (slab : Slab T) :
    SameConfig ms (set_slab ms n slab) := ⟨rfl, rfl, rfl, rfl, rfl⟩

theorem alloc_scan_config (steps : Nat) (ms : Multislab T) :
    SameConfig ms (alloc_scan steps ms).2 := by
  induction steps generalizing ms with
  | zero => exact SameConfig.refl ms
  | succ steps ih =>
      unfold alloc_scan
      cases hact : ms.active with
      | none => exact SameConfig.refl ms
      | some node =>
          rcases hres : cfiber_slab_alloc (ms.nodes.slab node) with ⟨_ | ptr, slab⟩
          · simp only [hres]
            exact ((set_slab_config ms node slab).trans
              (move_to_full_relinked (set_slab ms node slab) node).config).trans (ih _)
          · simp only [hres]
            exact set_slab_config ms node slab

/-- **The scan of the active list.**  Induction on the list: full slabs move to the full list until
one has a free block, or none is left and every slab is full. -/
theorem alloc_scan_spec (as : List Nat) :
    ∀ (ms : Multislab T) (fs : List Nat) (steps : Nat), Rep ms as fs → as.length < steps →
      (∃ ms₁ fs₁, alloc_scan steps ms = (none, ms₁) ∧ Relinked ms ms₁ ∧ Rep ms₁ [] fs₁) ∨
      ∃ ms₁ n as₁ fs₁ i, Relinked ms ms₁ ∧ Rep ms₁ (n :: as₁) fs₁ ∧
        i < ms.blocks_per_slab.toNat ∧ (ms.nodes.slab n).used i = false ∧
        (∀ j < i, (ms.nodes.slab n).used j = true) ∧
        alloc_scan steps ms = (some (ms.block n i), set_slab ms₁ n ((ms.nodes.slab n).take i)) := by
  induction as with
  | nil =>
      intro ms fs steps h hlen
      obtain ⟨steps, rfl⟩ := Nat.exists_eq_succ_of_ne_zero (by omega : steps ≠ 0)
      have hnil : ms.active = none := h.active.head
      exact Or.inl ⟨ms, fs, by simp [alloc_scan, hnil], Relinked.refl ms, h⟩
  | cons n as ih =>
      intro ms fs steps h hlen
      obtain ⟨steps, rfl⟩ := Nat.exists_eq_succ_of_ne_zero (by omega : steps ≠ 0)
      have hhead : ms.active = some n := h.active.head
      have hdom : n ∈ ms.nodes.dom := h.mem_dom.mpr (Or.inl List.mem_cons_self)
      have hslab := h.slab n hdom
      rcases cfiber_slab_alloc_spec hslab.ok with ⟨hnone, hall⟩ | ⟨i, hi, hfree, hlow, hsome⟩
      · -- this slab is full: it moves over and the loop goes on
        rw [hslab.count] at hall
        have hmove := h.move_to_full List.mem_cons_self hall
        have hrel := move_to_full_relinked ms n
        have hstep : alloc_scan (steps + 1) ms = alloc_scan steps (move_to_full ms n) := by
          simp [alloc_scan, hhead, hnone, set_slab_self]
        rw [List.erase_cons_head] at hmove
        rw [hstep]
        rcases ih (move_to_full ms n) (n :: fs) steps hmove (by simpa using hlen) with
          ⟨ms₁, fs₁, heq, hr, hrep⟩ | ⟨ms₁, m, as₁, fs₁, i, hr, hrep, hi, hfree, hlow, heq⟩
        · exact Or.inl ⟨ms₁, fs₁, heq, hrel.trans hr, hrep⟩
        · refine Or.inr ⟨ms₁, m, as₁, fs₁, i, hrel.trans hr, hrep, ?_⟩
          rw [hrel.slab] at hfree hlow heq
          rw [hrel.config.blocks_per_slab] at hi
          refine ⟨hi, hfree, hlow, ?_⟩
          rw [heq]
          unfold Multislab.block
          rw [hrel.slab]
      · refine Or.inr ⟨ms, n, as, fs, i, Relinked.refl ms, h, ?_, hfree, hlow, ?_⟩
        · rw [← hslab.count]; exact hi
        · simp [alloc_scan, hhead, hsome, Multislab.block]

/-- The state after block `i` of the first active node is taken and counted. -/
def taken (ms : Multislab T) (n i : Nat) : Multislab T :=
  count_alloc (set_slab ms n ((ms.nodes.slab n).take i))

theorem taken_eq {ms : Multislab T} {n i : Nat} (hhead : ms.active = some n) :
    taken ms n i =
      { ms with
        nodes := { ms.nodes with
          slab := Function.update ms.nodes.slab n ((ms.nodes.slab n).take i)
          used_count := Function.update ms.nodes.used_count n (ms.nodes.used_count n + 1) }
        empty_count :=
          if ms.nodes.used_count n = 0 then ms.empty_count - 1 else ms.empty_count } := by
  simp [taken, count_alloc, set_slab, hhead]

theorem popcount_take_ne_zero {slab : Slab T} {i : Nat} (hi : i < T.MAX_BLOCKS)
    (hfree : slab.used i = false) : (slab.take i).popcount ≠ 0 := by
  rw [Slab.popcount_take hi hfree]
  omega

/-- **Taking a block keeps the representation** and makes exactly that block live. -/
theorem Rep.taken {ms : Multislab T} {as fs : List Nat} {n i : Nat} (h : Rep ms (n :: as) fs)
    (hi : i < ms.blocks_per_slab.toNat) (hfree : (ms.nodes.slab n).used i = false) :
    Rep (taken ms n i) (n :: as) fs := by
  have hdom : n ∈ ms.nodes.dom := h.mem_dom.mpr (Or.inl List.mem_cons_self)
  have hslab := h.slab n hdom
  have hmax := h.per_lt hi
  have hok : ((ms.nodes.slab n).take i).Ok := hslab.ok.take (by rw [hslab.count]; exact hi)
  have hnf : n ∉ fs := h.disjoint n List.mem_cons_self
  rw [taken_eq h.active.head]
  refine ⟨⟨h.config.block_pos, h.config.line, h.config.per_pos, h.config.per_le,
    h.config.size_eq⟩, h.active, h.full, h.disjoint, h.dom, h.flag_active, h.flag_full, ?_, ?_, ?_,
    h.slab_count, ?_, h.max⟩
  · intro m hm
    by_cases hmn : m = n
    · subst hmn
      exact ⟨by simpa using hok, by simpa [Slab.take] using hslab.memory,
        by simpa [Slab.take] using hslab.size, by simpa [Slab.take] using hslab.count⟩
    · have := h.slab m hm
      exact ⟨by simpa [hmn] using this.ok, by simpa [hmn] using this.memory,
        by simpa [hmn] using this.size, by simpa [hmn] using this.count⟩
  · intro m hm j hj
    have hmn : m ≠ n := fun e => hnf (e ▸ hm)
    simpa [hmn] using h.full_used m hm j hj
  · intro m hm
    by_cases hmn : m = n
    · subst hmn
      simp only [Function.update_self, h.count m hdom, Slab.popcount_take hmax hfree,
        UInt32.ofNat_add]
      rfl
    · simpa [hmn] using h.count m hm
  · -- the node leaves the empty ones exactly when this is its first block
    have hcount := countP_congr_except h.dom_nodup hdom
      (p := emptyNode ms.nodes)
      (q := emptyNode { ms.nodes with
          slab := Function.update ms.nodes.slab n ((ms.nodes.slab n).take i)
          used_count := Function.update ms.nodes.used_count n (ms.nodes.used_count n + 1) })
      (fun m _ hmn => by simp [emptyNode, hmn])
    have hq : emptyNode { ms.nodes with
          slab := Function.update ms.nodes.slab n ((ms.nodes.slab n).take i)
          used_count := Function.update ms.nodes.used_count n (ms.nodes.used_count n + 1) } n
        = false := by
      simp [emptyNode, popcount_take_ne_zero hmax hfree]
    simp only [hq, h.count_eq_zero hdom] at hcount ⊢
    unfold Multislab.empties
    split_ifs with hz
    · simp only [hz, if_true] at hcount
      rw [h.empty_count]
      unfold Multislab.empties
      rw [show ms.nodes.dom.countP (emptyNode ms.nodes) = _ from (by simpa using hcount),
        UInt32.ofNat_succ_sub]
    · simp only [hz] at hcount
      rw [h.empty_count]
      unfold Multislab.empties
      simpa using congrArg UInt32.ofNat hcount

theorem taken_config (ms : Multislab T) (n i : Nat) : SameConfig ms (taken ms n i) := by
  unfold taken count_alloc set_slab
  split <;> exact ⟨rfl, rfl, rfl, rfl, rfl⟩

theorem taken_live {ms : Multislab T} {as fs : List Nat} {n i : Nat} (h : Rep ms (n :: as) fs)
    (hi : i < ms.blocks_per_slab.toNat) (p : Nat) :
    Live (taken ms n i) p ↔ p = ms.block n i ∨ Live ms p := by
  have hdom : n ∈ ms.nodes.dom := h.mem_dom.mpr (Or.inl List.mem_cons_self)
  have hblock : ∀ m j, (taken ms n i).block m j = ms.block m j := by
    intro m j
    rw [taken_eq h.active.head]
    by_cases hmn : m = n
    · subst hmn; simp [Multislab.block, Slab.block, Slab.take]
    · simp [Multislab.block, hmn]
  have hused : ∀ m ∈ ms.nodes.dom, ∀ j, ((taken ms n i).nodes.slab m).used j = true ↔
      (m = n ∧ j = i) ∨ (ms.nodes.slab m).used j = true := by
    intro m _ j
    rw [taken_eq h.active.head]
    by_cases hmn : m = n
    · subst hmn; simp
    · simp [hmn]
  have hdom' : (taken ms n i).nodes.dom = ms.nodes.dom := by rw [taken_eq h.active.head]
  unfold Live
  rw [hdom', (taken_config ms n i).blocks_per_slab]
  constructor
  · rintro ⟨m, hm, j, hj, rfl, hu⟩
    rw [hblock]
    rcases (hused m hm j).mp hu with ⟨rfl, rfl⟩ | hu
    · exact Or.inl rfl
    · exact Or.inr ⟨m, hm, j, hj, rfl, hu⟩
  · rintro (rfl | ⟨m, hm, j, hj, rfl, hu⟩)
    · exact ⟨n, hdom, i, hi, (hblock n i).symm, (hused n hdom i).mpr (Or.inl ⟨rfl, rfl⟩)⟩
    · exact ⟨m, hm, j, hj, (hblock m j).symm, (hused m hm j).mpr (Or.inr hu)⟩

/-! ## §7. Growing by one slab. -/

/-- The backing allocator refused one of the two requests of `multislab_grow`, or answered the
second with a region that `cfiber_slab_init` rejects. -/
def Refused (B : Backing γ) (ms : Multislab T) (c : γ) : Prop :=
  (B.mem_alloc (sizeof_node T) c).1 = none ∨
    ∃ node c₁, B.mem_alloc (sizeof_node T) c = (some node, c₁) ∧
      ((B.mem_alloc ms.slab_memory_size c₁).1 = none ∨
        ∃ mem c₂, B.mem_alloc ms.slab_memory_size c₁ = (some mem, c₂) ∧ mem % T.MAX_ALIGN ≠ 0)

theorem Config.size_pos {ms : Multislab T} (h : Config ms) : 0 < ms.slab_memory_size := by
  rw [h.size_eq]
  exact Nat.mul_pos h.block_pos h.per_pos

theorem Config.size_div {ms : Multislab T} (h : Config ms) :
    ms.slab_memory_size / ms.block_size = ms.blocks_per_slab.toNat := by
  rw [h.size_eq, Nat.mul_div_cancel_left _ h.block_pos]

/-- Under an accepted configuration the only slab memory `cfiber_slab_init` rejects is a
misaligned one. -/
theorem Config.init_none {ms : Multislab T} (h : Config ms) {mem : Nat}
    (hnone : cfiber_slab_init T ms.block_size mem ms.slab_memory_size = none) :
    mem % T.MAX_ALIGN ≠ 0 := by
  have hge : ms.block_size ≤ ms.slab_memory_size := by
    rw [h.size_eq]
    exact Nat.le_mul_of_pos_right _ h.per_pos
  have hpos := h.block_pos
  have hper := h.per_le
  simp only [cfiber_slab_init, h.size_div, h.line] at hnone
  split_ifs at hnone with hbad halign hcount
  · omega
  · exact halign
  · omega

/-- A region taken last and given back leaves what was outstanding before. -/
theorem perm_erase_taken {l l' l'' : List Region} {r : Region} (h : l'.Perm (r :: l))
    (h' : l''.Perm (l'.erase r)) : l''.Perm l := by
  have := h.erase r
  rw [List.erase_cons_head] at this
  exact h'.trans this

/-- The state after `multislab_grow` succeeded with node `node` over the region `mem`. -/
def grown (ms : Multislab T) (node mem : Nat) (slab : Slab T) : Multislab T :=
  { ms with
    nodes := { ms.nodes with
      slab := Function.update ms.nodes.slab node slab
      raw_memory := Function.update ms.nodes.raw_memory node mem
      used_count := Function.update ms.nodes.used_count node 0
      is_full := Function.update ms.nodes.is_full node false
      dom := node :: ms.nodes.dom
      next := Function.update ms.nodes.next node ms.active
      prev := consPrev ms.nodes.prev ms.active node }
    active := some node
    slab_count := ms.slab_count + 1
    empty_count := ms.empty_count + 1 }

theorem grown_regions {ms : Multislab T} {node mem : Nat} {slab : Slab T}
    (hfresh : node ∉ ms.nodes.dom) :
    regions (grown ms node mem slab)
      = (mem, ms.slab_memory_size) :: (node, sizeof_node T) :: regions ms := by
  have hrest : ms.nodes.dom.flatMap (nodeRegions (grown ms node mem slab))
      = ms.nodes.dom.flatMap (nodeRegions ms) := by
    refine List.flatMap_congr fun m hm => ?_
    have hne : m ≠ node := fun e => hfresh (e ▸ hm)
    simp [nodeRegions, grown, hne]
  show (node :: ms.nodes.dom).flatMap (nodeRegions (grown ms node mem slab)) = _
  rw [List.flatMap_cons, hrest]
  simp [nodeRegions, grown, regions]

/-- **A grown multislab is represented**, with the new empty node at the front of the active
list. -/
theorem Rep.grown {ms : Multislab T} {as fs : List Nat} {node mem : Nat} {slab : Slab T}
    (h : Rep ms as fs) (hfresh : node ∉ ms.nodes.dom)
    (hroom : ms.max_slabs ≠ 0 → ms.slab_count < ms.max_slabs)
    (hinit : cfiber_slab_init T ms.block_size mem ms.slab_memory_size = some slab)
    (hfit : mem + ms.slab_memory_size < 2 ^ T.WORD_BITS) :
    Rep (grown ms node mem slab) (node :: as) fs := by
  obtain ⟨hok, hmem, hsize, hcount, hempty⟩ := cfiber_slab_init_spec hinit hfit
  have hzero : slab.popcount = 0 := hok.popcount_eq_zero.mpr fun i _ => hempty i
  have hna : node ∉ as := fun hm => hfresh (h.mem_dom.mpr (Or.inl hm))
  have hnf : node ∉ fs := fun hm => hfresh (h.mem_dom.mpr (Or.inr hm))
  have hne : ∀ m ∈ ms.nodes.dom, m ≠ node := fun m hm e => hfresh (e ▸ hm)
  refine ⟨⟨h.config.block_pos, h.config.line, h.config.per_pos, h.config.per_le,
    h.config.size_eq⟩, h.active.push hna, h.active.push_other h.full hnf h.disjoint, ?disjoint,
    ?dom, ?flag_active, ?flag_full,
    ?slab, ?full_used, ?count, ?slab_count, ?empty_count, ?max⟩
  case disjoint =>
    intro m hm hmf
    rcases List.mem_cons.mp hm with rfl | hm
    · exact hnf hmf
    · exact h.disjoint m hm hmf
  case dom => exact h.dom.cons node
  case flag_active =>
    intro m hm
    by_cases hmn : m = node
    · simp [CFiber.Memory.grown, hmn]
    · simpa [CFiber.Memory.grown, hmn] using
        h.flag_active m ((List.mem_cons.mp hm).resolve_left hmn)
  case flag_full =>
    intro m hm
    have hmn : m ≠ node := fun e => hnf (e ▸ hm)
    simpa [CFiber.Memory.grown, hmn] using h.flag_full m hm
  case slab =>
    intro m hm
    rcases List.mem_cons.mp hm with rfl | hm
    · exact ⟨by simpa [CFiber.Memory.grown] using hok, by simpa [CFiber.Memory.grown] using hmem,
        by simpa [CFiber.Memory.grown] using hsize,
        by simpa [CFiber.Memory.grown, h.config.size_div] using hcount⟩
    · have hs := h.slab m hm
      exact ⟨by simpa [CFiber.Memory.grown, hne m hm] using hs.ok,
        by simpa [CFiber.Memory.grown, hne m hm] using hs.memory,
        by simpa [CFiber.Memory.grown, hne m hm] using hs.size,
        by simpa [CFiber.Memory.grown, hne m hm] using hs.count⟩
  case full_used =>
    intro m hm i hi
    have hmn : m ≠ node := fun e => hnf (e ▸ hm)
    simpa [CFiber.Memory.grown, hmn] using h.full_used m hm i hi
  case count =>
    intro m hm
    rcases List.mem_cons.mp hm with rfl | hm
    · simp [CFiber.Memory.grown, hzero]
    · simpa [CFiber.Memory.grown, hne m hm] using h.count m hm
  case slab_count => simp [CFiber.Memory.grown, h.slab_count]
  case empty_count =>
    have hold : ms.nodes.dom.countP (emptyNode (CFiber.Memory.grown ms node mem slab).nodes)
        = ms.nodes.dom.countP (emptyNode ms.nodes) := by
      refine List.countP_congr fun m hm => ?_
      simp [emptyNode, CFiber.Memory.grown, hne m hm]
    show ms.empty_count + 1 = UInt32.ofNat ((node :: ms.nodes.dom).countP _)
    rw [List.countP_cons, hold, h.empty_count]
    simp [emptyNode, CFiber.Memory.grown, hzero, Multislab.empties]
  case max =>
    intro hmax
    have hlt := hroom hmax
    have hlen := h.max hmax
    rw [h.slab_count, UInt32.lt_iff_toNat_lt, UInt32.toNat_ofNat'] at hlt
    have := ms.max_slabs.toNat_lt
    rw [Nat.mod_eq_of_lt (by omega)] at hlt
    simpa [CFiber.Memory.grown, Nat.succ_le_iff] using hlt

/-- **Growth.**  Either nothing changed, at the cap or on a refusal, or one empty node was added
whose two regions are newly outstanding. -/
theorem multislab_grow_spec {B : Backing γ} {out : γ → List Region} {good : γ → Prop}
    (H : Honest T B out good) {ms : Multislab T} {as fs : List Nat} {c : γ} (h : Rep ms as fs)
    (ho : Own out ms c) (hg : good c) :
    (∃ c', multislab_grow B ms c = (none, ms, c') ∧ good c' ∧ (out c').Perm (out c) ∧
      ((ms.max_slabs ≠ 0 ∧ ms.slab_count ≥ ms.max_slabs) ∨ Refused B ms c)) ∨
    ∃ node mem slab c', multislab_grow B ms c = (some node, grown ms node mem slab, c') ∧ good c' ∧
      node ∉ ms.nodes.dom ∧ (∀ i, slab.used i = false) ∧ Rep (grown ms node mem slab) (node :: as) fs ∧
      Own out (grown ms node mem slab) c' ∧
      (out c').Perm ((mem, ms.slab_memory_size) :: (node, sizeof_node T) :: out c) := by
  have hnode := sizeof_node_pos T
  have hsize := h.config.size_pos
  unfold multislab_grow
  split_ifs with hcap
  · exact Or.inl ⟨c, rfl, hg, List.Perm.refl _, Or.inl hcap⟩
  rcases h1 : B.mem_alloc (sizeof_node T) c with ⟨_ | node, c₁⟩
  · -- the node was refused
    obtain ⟨hg₁, hp₁⟩ := H.alloc_none hnode hg h1
    exact Or.inl ⟨c₁, rfl, hg₁, hp₁, Or.inr (Or.inl (by rw [h1]))⟩
  obtain ⟨hg₁, hp₁, hfit₁, hap₁⟩ := H.alloc_some hnode hg h1
  rcases h2 : B.mem_alloc ms.slab_memory_size c₁ with ⟨_ | mem, c₂⟩
  · -- the slab memory was refused: the node goes back
    obtain ⟨hg₂, hp₂⟩ := H.alloc_none hsize hg₁ h2
    have hp := hp₂.trans hp₁
    obtain ⟨hg₃, hp₃⟩ := H.free hg₂ (hp.mem_iff.mpr List.mem_cons_self)
    refine Or.inl ⟨_, by simp only [h2], hg₃, perm_erase_taken hp hp₃, Or.inr (Or.inr ?_)⟩
    exact ⟨node, c₁, h1, Or.inl (by rw [h2])⟩
  obtain ⟨hg₂, hp₂, hfit₂, hap₂⟩ := H.alloc_some hsize hg₁ h2
  have hp := hp₂.trans (hp₁.cons (mem, ms.slab_memory_size))
  cases hinit : cfiber_slab_init T ms.block_size mem ms.slab_memory_size with
  | none =>
      -- the slab memory is misaligned: both regions go back
      obtain ⟨hg₃, hp₃⟩ := H.free hg₂ (hp.mem_iff.mpr List.mem_cons_self)
      have hback := perm_erase_taken hp hp₃
      obtain ⟨hg₄, hp₄⟩ := H.free hg₃ (hback.mem_iff.mpr List.mem_cons_self)
      refine Or.inl ⟨_, by simp only [h2, hinit], hg₄, perm_erase_taken hback hp₄,
        Or.inr (Or.inr ?_)⟩
      exact ⟨node, c₁, h1, Or.inr ⟨mem, c₂, h2, h.config.init_none hinit⟩⟩
  | some slab =>
      have hmem₁ : ∀ r ∈ regions ms, r ∈ out c₁ := fun r hr =>
        hp₁.mem_iff.mpr (List.mem_cons_of_mem _ (ho.perm.mem_iff.mpr hr))
      have hfresh : node ∉ ms.nodes.dom := by
        intro hm
        have hr : (node, sizeof_node T) ∈ regions ms :=
          List.mem_flatMap.mpr ⟨node, hm, by simp [nodeRegions]⟩
        have hap := hap₁ _ (ho.perm.mem_iff.mpr hr)
        simp only [Apart] at hap
        omega
      have hempty := (cfiber_slab_init_spec hinit hfit₂).2.2.2.2
      have hroom : ms.max_slabs ≠ 0 → ms.slab_count < ms.max_slabs := by
        intro hmax
        rw [not_and] at hcap
        exact UInt32.not_le.mp (hcap hmax)
      refine Or.inr ⟨node, mem, slab, c₂, ?_, hg₂, hfresh, hempty,
        h.grown hfresh hroom hinit hfit₂, ⟨?_, ?_, ?_⟩, hp⟩
      · simp only [h2, hinit, list_push_eq]
        rfl
      · rw [grown_regions hfresh]
        exact hp.trans ((ho.perm.cons _).cons _)
      · rw [grown_regions hfresh]
        refine List.pairwise_cons.mpr ⟨?_, List.pairwise_cons.mpr ⟨?_, ho.apart⟩⟩
        · intro r hr
          rcases List.mem_cons.mp hr with rfl | hr
          · exact hap₂ _ (hp₁.mem_iff.mpr List.mem_cons_self)
          · exact hap₂ r (hmem₁ r hr)
        · exact fun r hr => hap₁ r (ho.perm.mem_iff.mpr hr)
      · rw [grown_regions hfresh]
        intro r hr
        rcases List.mem_cons.mp hr with rfl | hr
        · exact hfit₂
        · rcases List.mem_cons.mp hr with rfl | hr
          · exact hfit₁
          · exact ho.fits r hr

/-! ## §8. `cfiber_multislab_alloc`. -/

/-- What a successful allocation of `p` does. -/
structure Allocated (out : γ → List Region) (ms ms' : Multislab T) (c c' : γ) (p : Nat) : Prop where
  config : SameConfig ms ms'
  fresh : ¬ Live ms p
  live : ∀ q, Live ms' q ↔ q = p ∨ Live ms q
  inside : ∃ n ∈ ms'.nodes.dom, ∃ i < ms'.blocks_per_slab.toNat, p = ms'.block n i
  dom_mono : ∀ n ∈ ms.nodes.dom, n ∈ ms'.nodes.dom
  block_same : ∀ n ∈ ms.nodes.dom, ∀ i, ms'.block n i = ms.block n i
  out_mono : ∀ r ∈ out c, r ∈ out c'
  /-- A slab is added only where every block of the others is live. -/
  grew : ms'.nodes.dom = ms.nodes.dom ∨ (AllFull ms ∧ ∃ node, ms'.nodes.dom = node :: ms.nodes.dom)

theorem taken_dom (ms : Multislab T) (n i : Nat) : (taken ms n i).nodes.dom = ms.nodes.dom := by
  unfold taken count_alloc set_slab
  split <;> rfl

theorem taken_block {ms : Multislab T} {n i : Nat} (hhead : ms.active = some n) (m j : Nat) :
    (taken ms n i).block m j = ms.block m j := by
  rw [taken_eq hhead]
  by_cases hmn : m = n
  · subst hmn; simp [Multislab.block, Slab.block, Slab.take]
  · simp [Multislab.block, hmn]

theorem taken_own {out : γ → List Region} {ms : Multislab T} {c : γ} {n i : Nat}
    (hhead : ms.active = some n) (ho : Own out ms c) : Own out (taken ms n i) c := by
  have hr : regions (taken ms n i) = regions ms := by rw [taken_eq hhead]; rfl
  exact ⟨by rw [hr]; exact ho.perm, by rw [hr]; exact ho.apart, by rw [hr]; exact ho.fits⟩

theorem Relinked.block {ms ms' : Multislab T} (h : Relinked ms ms') (n i : Nat) :
    ms'.block n i = ms.block n i := by
  unfold Multislab.block
  rw [h.slab]

/-- Taking a free block of the first active node after a relink. -/
theorem allocated_of_taken {out : γ → List Region} {ms ms₁ : Multislab T} {c : γ}
    {as fs as₁ fs₁ : List Nat} {n i : Nat} (h : Rep ms as fs) (ho : Own out ms c)
    (hr : Relinked ms ms₁) (h₁ : Rep ms₁ (n :: as₁) fs₁) (hi : i < ms₁.blocks_per_slab.toNat)
    (hfree : (ms₁.nodes.slab n).used i = false) :
    Allocated out ms (taken ms₁ n i) c c (ms.block n i) := by
  have hdom₁ : n ∈ ms₁.nodes.dom := h₁.mem_dom.mpr (Or.inl List.mem_cons_self)
  have hdom : n ∈ ms.nodes.dom := by rwa [hr.dom] at hdom₁
  refine ⟨hr.config.trans (taken_config ms₁ n i), ?_, ?_, ?_, ?_, ?_, fun r hr => hr,
    Or.inl ((taken_dom ms₁ n i).trans hr.dom)⟩
  · rintro ⟨m, hm, j, hj, e, hu⟩
    rw [hr.config.blocks_per_slab] at hi
    obtain ⟨rfl, rfl⟩ := h.block_inj ho hdom hm hi hj e
    rw [hr.slab, hu] at hfree
    exact absurd hfree (by simp)
  · intro q
    rw [taken_live h₁ hi q, hr.live q, hr.block]
  · refine ⟨n, ?_, i, ?_, ?_⟩
    · rw [taken_dom]; exact hdom₁
    · rw [(taken_config ms₁ n i).blocks_per_slab]; exact hi
    · rw [taken_block h₁.active.head, hr.block]
  · intro m hm
    rw [taken_dom, hr.dom]
    exact hm
  · intro m _ j
    rw [taken_block h₁.active.head, hr.block]

theorem grown_config (ms : Multislab T) (node mem : Nat) (slab : Slab T) :
    SameConfig ms (grown ms node mem slab) := ⟨rfl, rfl, rfl, rfl, rfl⟩

theorem grown_live {ms : Multislab T} {node mem : Nat} {slab : Slab T}
    (hfresh : node ∉ ms.nodes.dom) (hempty : ∀ i, slab.used i = false) (p : Nat) :
    Live (grown ms node mem slab) p ↔ Live ms p := by
  have hne : ∀ m ∈ ms.nodes.dom, m ≠ node := fun m hm e => hfresh (e ▸ hm)
  constructor
  · rintro ⟨m, hm, i, hi, rfl, hu⟩
    rcases List.mem_cons.mp hm with rfl | hm
    · simp [grown, hempty] at hu
    · refine ⟨m, hm, i, hi, ?_, ?_⟩
      · simp [Multislab.block, grown, hne m hm]
      · simpa [grown, hne m hm] using hu
  · rintro ⟨m, hm, i, hi, rfl, hu⟩
    refine ⟨m, List.mem_cons_of_mem _ hm, i, hi, ?_, ?_⟩
    · simp [Multislab.block, grown, hne m hm]
    · simpa [grown, hne m hm] using hu

/-- **The first block of an empty slab** is the one that is taken. -/
theorem alloc_first {ms : Multislab T} {as fs : List Nat} {n : Nat} (h : Rep ms as fs)
    (hn : n ∈ ms.nodes.dom) (hempty : ∀ i, (ms.nodes.slab n).used i = false) :
    cfiber_slab_alloc (ms.nodes.slab n) = (some (ms.block n 0), (ms.nodes.slab n).take 0) := by
  have hslab := h.slab n hn
  have hper := h.config.per_pos
  rcases cfiber_slab_alloc_spec hslab.ok with ⟨-, hall⟩ | ⟨i, -, hfi, hlow, heq⟩
  · have hused := hall 0 (by rw [hslab.count]; exact hper)
    rw [hempty] at hused
    exact absurd hused (by simp)
  · rcases Nat.eq_zero_or_pos i with rfl | hpos
    · exact heq
    · have hused := hlow 0 hpos
      rw [hempty] at hused
      exact absurd hused (by simp)

/-- **A block of a slab that was just added**: the blocks of the others are all live, and stay. -/
theorem allocated_of_grown {out : γ → List Region} {ms ms₁ : Multislab T} {as fs : List Nat}
    {c c' : γ} {node mem : Nat} {slab : Slab T} (hr : Relinked ms ms₁) (hfull : AllFull ms)
    (hfresh : node ∉ ms₁.nodes.dom) (hempty : ∀ i, slab.used i = false)
    (h₂ : Rep (grown ms₁ node mem slab) (node :: as) fs) (ho₂ : Own out (grown ms₁ node mem slab) c')
    (hmono : ∀ r ∈ out c, r ∈ out c') :
    Allocated out ms (taken (grown ms₁ node mem slab) node 0) c c'
      ((grown ms₁ node mem slab).block node 0) := by
  have hfree : ((grown ms₁ node mem slab).nodes.slab node).used 0 = false := by
    simpa [grown] using hempty 0
  have hA := allocated_of_taken h₂ ho₂ (Relinked.refl _) h₂ h₂.config.per_pos hfree
  have hne : ∀ m ∈ ms.nodes.dom, m ≠ node := fun m hm e =>
    hfresh (by rw [hr.dom]; exact e ▸ hm)
  constructor
  case config => exact hr.config.trans ((grown_config ms₁ node mem slab).trans hA.config)
  case fresh =>
    rw [← hr.live, ← grown_live hfresh hempty]
    exact hA.fresh
  case live =>
    intro q
    rw [hA.live q, grown_live hfresh hempty, hr.live]
  case inside => exact hA.inside
  case dom_mono =>
    intro m hm
    refine hA.dom_mono m (List.mem_cons_of_mem _ ?_)
    rw [hr.dom]
    exact hm
  case block_same =>
    intro m hm j
    rw [hA.block_same m (List.mem_cons_of_mem _ (by rw [hr.dom]; exact hm)) j, ← hr.block m j]
    simp [Multislab.block, grown, hne m hm]
  case out_mono => exact hmono
  case grew =>
    refine Or.inr ⟨hfull, node, ?_⟩
    rw [taken_dom, ← hr.dom]
    rfl

/-- **Allocation.**  Either a block that was not live becomes the one additional live block, or
null is returned, every block of every slab being live and the allocator being at its cap or refused
memory; then nothing but the lists changed. -/
theorem cfiber_multislab_alloc_spec {B : Backing γ} {out : γ → List Region} {good : γ → Prop}
    (H : Honest T B out good) {ms : Multislab T} {as fs : List Nat} {c : γ} (h : Rep ms as fs)
    (ho : Own out ms c) (hg : good c) :
    (∃ p ms' c', cfiber_multislab_alloc B ms c = (some p, ms', c') ∧ good c' ∧ Own out ms' c' ∧
      (∃ as' fs', Rep ms' as' fs') ∧ Allocated out ms ms' c c' p) ∨
    ∃ ms' c', cfiber_multislab_alloc B ms c = (none, ms', c') ∧ good c' ∧ Own out ms' c' ∧
      (∃ as' fs', Rep ms' as' fs') ∧ Relinked ms ms' ∧ (out c').Perm (out c) ∧ AllFull ms ∧
      ((ms.max_slabs ≠ 0 ∧ ms.slab_count ≥ ms.max_slabs) ∨ Refused B ms c) := by
  have hlen := h.active_length
  rcases alloc_scan_spec as ms fs (ms.nodes.dom.length + 1) h (by omega) with
    ⟨ms₁, fs₁, hscan, hr, h₁⟩ | ⟨ms₁, n, as₁, fs₁, i, hr, h₁, hi, hfree, -, hscan⟩
  · have ho₁ := hr.own ho
    have hfull : AllFull ms := by
      refine hr.allFull.mp fun n hn => ?_
      rcases h₁.mem_dom.mp hn with hm | hm
      · exact absurd hm (by simp)
      · exact h₁.full_used n hm
    rcases multislab_grow_spec H h₁ ho₁ hg with
      ⟨c', hgrow, hg', hp, hwhy⟩ | ⟨node, mem, slab, c', hgrow, hg', hfresh, hempty, h₂, ho₂, hp⟩
    · -- no slab has room and none could be added
      refine Or.inr ⟨ms₁, c', ?_, hg', ⟨hp.trans ho₁.perm, ho₁.apart, ho₁.fits⟩, ⟨[], fs₁, h₁⟩,
        hr, hp, hfull, ?_⟩
      · simp only [cfiber_multislab_alloc, hscan, hgrow]
      · rcases hwhy with hcap | hrefused
        · rw [hr.config.max_slabs, hr.slab_count] at hcap
          exact Or.inl hcap
        · unfold Refused at hrefused
          rw [hr.config.slab_memory_size] at hrefused
          exact Or.inr hrefused
    · -- the first block of the new slab is taken
      have hnew : ∀ i, ((grown ms₁ node mem slab).nodes.slab node).used i = false := by
        intro i
        simpa [grown] using hempty i
      have hmono : ∀ r ∈ out c, r ∈ out c' := fun r hr =>
        hp.mem_iff.mpr (List.mem_cons_of_mem _ (List.mem_cons_of_mem _ hr))
      refine Or.inl ⟨(grown ms₁ node mem slab).block node 0,
        taken (grown ms₁ node mem slab) node 0, c', ?_, hg', taken_own h₂.active.head ho₂,
        ⟨_, _, h₂.taken h₂.config.per_pos (hnew 0)⟩,
        allocated_of_grown hr hfull hfresh hempty h₂ ho₂ hmono⟩
      simp only [cfiber_multislab_alloc, hscan, hgrow, alloc_first h₂ List.mem_cons_self hnew]
      rfl
  · -- a slab with room is at the head of the active ones
    have hslab : ms₁.nodes.slab n = ms.nodes.slab n := by rw [hr.slab]
    have hi₁ : i < ms₁.blocks_per_slab.toNat := by rw [hr.config.blocks_per_slab]; exact hi
    have hfree₁ : (ms₁.nodes.slab n).used i = false := by rw [hslab]; exact hfree
    refine Or.inl ⟨ms.block n i, taken ms₁ n i, c, ?_, hg, taken_own h₁.active.head (hr.own ho),
      ⟨_, _, h₁.taken hi₁ hfree₁⟩, allocated_of_taken h ho hr h₁ hi₁ hfree₁⟩
    simp only [cfiber_multislab_alloc, hscan, taken, hslab]

end CFiber.Memory
