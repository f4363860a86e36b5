/-
  CFiber.Memory.Defensive — releases in a build with `CFIBER_DEFENSIVE`.

  The clients of this module give back any pointer whatsoever: a block twice, an address inside a
  block or in no slab, an address of a slab that is gone.  A pointer that is not a live block is
  refused and nothing changes (`cfiber_slab_release_rejects`, `cfiber_multislab_release_rejects`), so
  such a client reaches the states an honest one does, and `release_defensive` holds in all of them.
-/
import CFiber.Memory.MultislabRun
import CFiber.Memory.SlabRun

namespace CFiber.Memory

open CFiber.Base

variable {γ : Type}

/-! ## §1. A slab. -/

/-- **A slab refuses what is not one of its live blocks**: outside its blocks, off their boundaries,
or with the bit clear. -/
theorem cfiber_slab_release_rejects {T : Build} (hD : T.DEFENSIVE = true) {slab : Slab T}
    (h : slab.Ok) {p : Nat}
    (hp : ∀ i < slab.block_count, slab.used i = true → slab.block i ≠ p) :
    cfiber_slab_release slab p = (false, slab) := by
  have hfit := h.fits
  have htotal : T.wrap (slab.block_size * slab.block_count)
      = slab.block_count * slab.block_size := by
    rw [Nat.mul_comm, T.wrap_of_lt (by omega)]
  unfold cfiber_slab_release
  simp only [htotal, T.wrap_of_lt hfit, hD, true_and]
  by_cases hrange : p < slab.memory ∨ p ≥ slab.memory + slab.block_count * slab.block_size
  · rw [if_pos hrange]
  rw [if_neg hrange]
  by_cases hoff : (p - slab.memory) % slab.block_size ≠ 0
  · rw [if_pos hoff]
  rw [if_neg hoff]
  -- the address of a block, whose bit decides
  obtain ⟨i, hi⟩ : ∃ i, p - slab.memory = slab.block_size * i :=
    Nat.dvd_of_mod_eq_zero (not_not.mp hoff)
  have hblock : slab.block i = p := by
    unfold Slab.block
    rw [Nat.mul_comm]
    omega
  have hlt : i < slab.block_count := by
    have hless : slab.block_size * i < slab.block_size * slab.block_count := by
      rw [Nat.mul_comm slab.block_size slab.block_count]
      omega
    exact Nat.lt_of_mul_lt_mul_left hless
  have hfree : slab.used i = false := by
    cases hu : slab.used i with
    | false => rfl
    | true => exact absurd hblock (hp i hlt hu)
  have htest : bitmap_test slab.bitmap (ptr_to_index slab p) = false := by
    rw [← hblock, ptr_to_index_block h hlt, bitmap_test_eq]
    exact hfree
  rw [htest]
  rfl

/-- A call; the client gives back any pointer. -/
def SlabClient.attempt {T : Build} (c : SlabClient T) : SlabCall → Option (SlabClient T)
  | .release block => some ⟨(cfiber_slab_release c.slab block).2, c.live.erase block⟩
  | call => c.step call

section
variable {T : Build} {memory memory_size block_size : Nat} {c c' : SlabClient T}

theorem Held.rejects (hD : T.DEFENSIVE = true) (h : Held memory memory_size block_size c) {p : Nat}
    (hp : p ∉ c.live) : cfiber_slab_release c.slab p = (false, c.slab) :=
  cfiber_slab_release_rejects hD h.ok fun i hi hu e => hp ((h.used p).mpr ⟨i, hi, hu, e⟩)

/-- Any release keeps the books, by the two cases. -/
theorem SlabClient.held_attempt (hD : T.DEFENSIVE = true)
    (h : Held memory memory_size block_size c) {call : SlabCall}
    (hs : c.attempt call = some c') : Held memory memory_size block_size c' := by
  cases call with
  | alloc => exact SlabClient.held h (show c.step .alloc = some c' from hs)
  | reset => exact SlabClient.held h (show c.step .reset = some c' from hs)
  | release p =>
      obtain rfl := Option.some.inj hs
      by_cases hp : p ∈ c.live
      · have hstep : c.step (.release p)
            = some ⟨(cfiber_slab_release c.slab p).2, c.live.erase p⟩ := by
          simp only [SlabClient.step, if_pos hp]
        exact SlabClient.held h hstep
      · rw [h.rejects hD hp, List.erase_of_not_mem hp]
        exact h

end

/-! ## §2. A multislab. -/

section
variable {T : Target} {B : Backing γ} {out : γ → List Region} {good : γ → Prop}

/-- The owner found is a node, and the pointer lies in its slab memory. -/
theorem find_owning_slab_some {ms : Multislab T} {as fs : List Nat} (h : Rep ms as fs) {p n : Nat}
    (hf : find_owning_slab ms p = some n) : n ∈ ms.nodes.dom := by
  have hlen := h.active_length
  have hwa : walk ms.nodes.next ms.nodes.dom.length ms.active = as := by
    rw [h.active.head]
    exact walk_eq h.active.links.linked (by omega)
  have hwf : walk ms.nodes.next ms.nodes.dom.length ms.full = fs := by
    rw [h.full.head]
    exact walk_eq h.full.links.linked (by omega)
  unfold find_owning_slab at hf
  simp only [hwa, hwf] at hf
  rw [h.mem_dom]
  cases ha : as.find? (owns ms p) with
  | some m =>
      rw [ha] at hf
      obtain rfl := Option.some.inj hf
      exact Or.inl (List.mem_of_find?_eq_some ha)
  | none =>
      rw [ha] at hf
      exact Or.inr (List.mem_of_find?_eq_some hf)

/-- **A multislab refuses what is not a live block**: no slab has it, or the slab that has it
refuses. -/
theorem cfiber_multislab_release_rejects (hD : T.DEFENSIVE = true) {ms : Multislab T}
    {as fs : List Nat} (h : Rep ms as fs) (B : Backing γ) (c : γ) {p : Nat} (hp : ¬ Live ms p) :
    cfiber_multislab_release B ms p c = (ms, c) := by
  unfold cfiber_multislab_release
  cases hf : find_owning_slab ms p with
  | none => rfl
  | some n =>
      have hdom := find_owning_slab_some h hf
      have hslab := h.slab n hdom
      have hrej : cfiber_slab_release (ms.nodes.slab n) p = (false, ms.nodes.slab n) := by
        apply cfiber_slab_release_rejects hD hslab.ok
        intro i hi hu e
        rw [hslab.count] at hi
        exact hp ⟨n, hdom, i, hi, e.symm, hu⟩
      simp only [hrej]

/-- A call; the client gives back any pointer. -/
def Client.attempt (B : Backing γ) (s : Client T γ) : Call → Option (Client T γ)
  | .release p =>
    let (ms, c) := cfiber_multislab_release B s.ms p s.ctx
    some ⟨ms, c, s.live.erase p⟩
  | .alloc => s.step B .alloc

theorem Sound.rejects (hD : T.DEFENSIVE = true) {s : Client T γ} (h : Sound out good s) {p : Nat}
    (hp : p ∉ s.live) : cfiber_multislab_release B s.ms p s.ctx = (s.ms, s.ctx) := by
  obtain ⟨as, fs, hrep⟩ := h.rep
  apply cfiber_multislab_release_rejects hD hrep
  rwa [← h.live]

theorem Sound.attempt (H : Honest T B out good) (hD : T.DEFENSIVE = true) {s s' : Client T γ}
    (h : Sound out good s) {call : Call} (hs : s.attempt B call = some s') : Sound out good s' := by
  cases call with
  | alloc => exact h.step H (show s.step B .alloc = some s' from hs)
  | release p =>
      by_cases hp : p ∈ s.live
      · have hstep : s.step B (.release p) = some s' := by
          rw [← hs]
          simp only [Client.step, Client.attempt, if_pos hp]
        exact h.step H hstep
      · simp only [Client.attempt, h.rejects hD hp, List.erase_of_not_mem hp] at hs
        obtain rfl := Option.some.inj hs
        exact h

end

/-! ## §3. Every pointer in every state. -/

/-- **Releases in a defensive build.**  In every state that calls reach, with any pointers given
back on the way, the release of a live block ends the life of that block alone, and the release of any
other pointer changes nothing: of a multislab, of its backing allocator, and of a slab. -/
theorem release_defensive {T : Target} (hD : T.DEFENSIVE = true) {B : Backing γ}
    {out : γ → List Region} {good : γ → Prop} (H : Honest T B out good) :
    (∀ (block_size : Nat) (blocks_per_slab max_slabs reserve : UInt32) (ms : Multislab T) (c : γ)
        (calls : List Call) (s : Client T γ) (p : Nat),
      cfiber_multislab_init_ext T block_size blocks_per_slab max_slabs reserve = some ms →
      good c → out c = [] → exec (Client.attempt B) ⟨ms, c, []⟩ calls = some s →
      (∀ q, q ∈ s.live ↔ Live s.ms q) ∧
      (p ∈ s.live →
        ∀ q, Live (cfiber_multislab_release B s.ms p s.ctx).1 q ↔ Live s.ms q ∧ q ≠ p) ∧
      (p ∉ s.live → cfiber_multislab_release B s.ms p s.ctx = (s.ms, s.ctx))) ∧
    (∀ (block_size memory memory_size : Nat) (slab : Slab T) (calls : List SlabCall)
        (c : SlabClient T) (p : Nat),
      cfiber_slab_init T block_size memory memory_size = some slab →
      memory + memory_size < 2 ^ T.WORD_BITS → exec SlabClient.attempt ⟨slab, []⟩ calls = some c →
      (∀ q, q ∈ c.live ↔ ∃ i < c.slab.block_count, c.slab.used i = true ∧ c.slab.block i = q) ∧
      (p ∈ c.live → (cfiber_slab_release c.slab p).1 = true ∧
        ∀ i, (cfiber_slab_release c.slab p).2.used i
          = (!decide (c.slab.block i = p) && c.slab.used i)) ∧
      (p ∉ c.live → cfiber_slab_release c.slab p = (false, c.slab))) := by
  constructor
  · intro block_size per max reserve ms c calls s p hinit hg hout hrun
    have h := exec_inv (Sound out good) (fun _ _ _ hs hst => Sound.attempt H hD hs hst)
      (Sound.start hinit hg hout) hrun
    obtain ⟨as, fs, hrep⟩ := h.rep
    refine ⟨h.live, fun hp => ?_, h.rejects hD⟩
    obtain ⟨ms', c', heq, -, -, -, hR⟩ :=
      cfiber_multislab_release_spec H hrep h.own h.good ((h.live p).mp hp)
    rw [heq]
    exact hR.live
  · intro block_size memory memory_size slab calls c p hinit hfit hrun
    have h := exec_inv (Held memory memory_size block_size)
      (fun _ _ _ hh hs => SlabClient.held_attempt hD hh hs) (Held.start hinit hfit) hrun
    refine ⟨h.used, fun hp => ?_, h.rejects hD⟩
    obtain ⟨i, hi, hu, rfl⟩ := (h.used p).mp hp
    rw [cfiber_slab_release_spec h.ok hi hu]
    refine ⟨rfl, fun j => ?_⟩
    rw [Slab.used_give]
    congr 2
    apply decide_eq_decide.mpr
    exact ⟨fun e => by rw [e], fun e => Slab.block_inj h.ok e⟩

/-- The default 64-bit build with the checks. -/
def checked : Target := { lp64 with DEFENSIVE := true }

/-- A block given back twice, and one byte past it. -/
theorem release_defensive_checked : ∃ ms s,
    cfiber_multislab_init_ext checked 64 2 0 1 = some ms ∧
    exec (Client.attempt bump) (⟨ms, (64, []), []⟩ : Client checked _)
      [.alloc, .alloc, .release 192, .release 192, .release 193] = some s ∧
    s.live = [256] ∧ cfiber_multislab_release bump s.ms 192 s.ctx = (s.ms, s.ctx) := by
  have H : Honest checked bump Prod.snd bumpOk :=
    ⟨bump_honest.alloc_some, bump_honest.alloc_none, bump_honest.free⟩
  have hsome : ((cfiber_multislab_init_ext checked 64 2 0 1).bind fun ms =>
      (exec (Client.attempt bump) (⟨ms, (64, []), []⟩ : Client checked _)
        [.alloc, .alloc, .release 192, .release 192, .release 193]).map Client.live)
          = some [256] := by decide +kernel
  obtain ⟨ms, hms, hs⟩ := Option.bind_eq_some_iff.mp hsome
  obtain ⟨s, hs, hlive⟩ := Option.map_eq_some_iff.mp hs
  have hgood : bumpOk (64, []) := ⟨rfl, fun _ h => absurd h List.not_mem_nil⟩
  refine ⟨ms, s, hms, hs, hlive, ?_⟩
  have h := (release_defensive rfl H).1 64 2 0 1 ms (64, []) _ s 192 hms hgood rfl hs
  exact h.2.2 (by rw [hlive]; decide)

end CFiber.Memory
