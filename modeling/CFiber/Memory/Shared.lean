/-
  CFiber.Memory.Shared — two multislabs over one backing allocator.

  The regions of the one are, to the other, memory that is simply in use.  `beside R out` lists the
  regions outstanding apart from `R`; seen through it the allocator still keeps its contract
  (`Honest.beside`), so every lemma about one multislab applies.

    • `Twin.alloc`   — a call on the first multislab is no event for the second;
    • `Twin.release` — nor is a release;
    • `Twin.swap`    — either may be called the first;
    • `Twin.held`    — together they hold all that is outstanding;
    • `Twin.apart`   — a live block of the one shares no byte with a live block of the other;
    • `Twin.destroy` — destroying the first and then the second leaves nothing outstanding.
-/
import CFiber.Memory.MultislabRun

namespace CFiber.Memory

open CFiber.Base

variable {T : Target} {γ : Type}

/-! ## §1. Regions in use elsewhere. -/

/-- The regions outstanding, less the regions `R`. -/
def beside (R : List Region) (out : γ → List Region) (c : γ) : List Region := (out c).diff R

/-- The allocator is in order and the regions `R` are among those outstanding. -/
def GoodBeside (R : List Region) (out : γ → List Region) (good : γ → Prop) (c : γ) : Prop :=
  good c ∧ R.Subperm (out c)

theorem append_diff_perm {R l : List Region} (h : R.Subperm l) : (R ++ l.diff R).Perm l :=
  List.subperm_append_diff_self_of_count_le fun r _ => h.count_le r

theorem diff_perm_iff {R l S : List Region} (h : R.Subperm l) :
    (l.diff R).Perm S ↔ l.Perm (R ++ S) := by
  constructor
  · intro hp
    exact (append_diff_perm h).symm.trans (hp.append_left R)
  · intro hp
    exact (List.perm_append_left_iff R).mp ((append_diff_perm h).trans hp)

theorem subperm_of_perm_append {R S l : List Region} (h : l.Perm (R ++ S)) : R.Subperm l :=
  (List.sublist_append_left R S).subperm.trans h.symm.subperm

/-- **The contract holds beside `R`.** -/
theorem Honest.beside {B : Backing γ} {out : γ → List Region} {good : γ → Prop}
    (H : Honest T B out good) (R : List Region) :
    Honest T B (beside R out) (GoodBeside R out good) where
  alloc_some := by
    rintro n c a c' hn ⟨hg, hR⟩ heq
    obtain ⟨hg', hp, hfit, hap⟩ := H.alloc_some hn hg heq
    have hsplit : (out c').Perm (R ++ (a, n) :: (out c).diff R) := by
      refine hp.trans ?_
      refine ((append_diff_perm hR).symm.cons (a, n)).trans ?_
      exact List.perm_middle.symm
    have hR' := subperm_of_perm_append hsplit
    refine ⟨⟨hg', hR'⟩, (diff_perm_iff hR').mpr hsplit, hfit, ?_⟩
    intro r hr
    exact hap r (List.diff_subset _ _ hr)
  alloc_none := by
    rintro n c c' hn ⟨hg, hR⟩ heq
    obtain ⟨hg', hp⟩ := H.alloc_none hn hg heq
    have hsplit : (out c').Perm (R ++ (out c).diff R) := hp.trans (append_diff_perm hR).symm
    have hR' := subperm_of_perm_append hsplit
    exact ⟨⟨hg', hR'⟩, (diff_perm_iff hR').mpr hsplit⟩
  free := by
    rintro a n c ⟨hg, hR⟩ hmem
    obtain ⟨hg', hp⟩ := H.free hg (List.diff_subset _ _ hmem)
    have hcons : (out c).Perm ((a, n) :: (R ++ ((out c).diff R).erase (a, n))) := by
      refine (append_diff_perm hR).symm.trans ?_
      refine ((List.perm_cons_erase hmem).append_left R).trans ?_
      exact List.perm_middle
    have hsplit : (out (B.mem_free a n c)).Perm (R ++ ((out c).diff R).erase (a, n)) := by
      have herase := hcons.erase (a, n)
      rw [List.erase_cons_head] at herase
      exact hp.trans herase
    have hR' := subperm_of_perm_append hsplit
    exact ⟨⟨hg', hR'⟩, (diff_perm_iff hR').mpr hsplit⟩

/-! ## §2. Two multislabs. -/

/-- Two multislabs over one allocator, with the blocks their clients hold. -/
structure Twin (out : γ → List Region) (good : γ → Prop) (ms₁ ms₂ : Multislab T) (c : γ)
    (l₁ l₂ : List Nat) : Prop where
  fst : Sound (beside (regions ms₂) out) (GoodBeside (regions ms₂) out good) ⟨ms₁, c, l₁⟩
  snd : Sound (beside (regions ms₁) out) (GoodBeside (regions ms₁) out good) ⟨ms₂, c, l₂⟩

variable {B : Backing γ} {out : γ → List Region} {good : γ → Prop} {ms₁ ms₂ : Multislab T} {c : γ}
  {l₁ l₂ : List Nat}

theorem Twin.swap (h : Twin out good ms₁ ms₂ c l₁ l₂) : Twin out good ms₂ ms₁ c l₂ l₁ :=
  ⟨h.snd, h.fst⟩

theorem Sound.perm {s : Client T γ} {l : List Nat} (h : Sound out good s) (hp : s.live.Perm l) :
    Sound out good { s with live := l } :=
  ⟨h.rep, h.own, h.good, hp.nodup_iff.mp h.nodup, fun p => by rw [← hp.mem_iff]; exact h.live p⟩

/-- The order in which a client lists its blocks does not matter. -/
theorem Twin.perm {l₁' l₂' : List Nat} (h : Twin out good ms₁ ms₂ c l₁ l₂) (h₁ : l₁.Perm l₁')
    (h₂ : l₂.Perm l₂') : Twin out good ms₁ ms₂ c l₁' l₂' :=
  ⟨h.fst.perm h₁, h.snd.perm h₂⟩

/-- Two fresh multislabs. -/
theorem Twin.start {size₁ size₂ : Nat} {per₁ per₂ max₁ max₂ reserve₁ reserve₂ : UInt32}
    (h₁ : cfiber_multislab_init_ext T size₁ per₁ max₁ reserve₁ = some ms₁)
    (h₂ : cfiber_multislab_init_ext T size₂ per₂ max₂ reserve₂ = some ms₂) (hg : good c)
    (hout : out c = []) : Twin out good ms₁ ms₂ c [] [] := by
  have hr₁ : regions ms₁ = [] := by
    simp [regions, (cfiber_multislab_init_ext_spec h₁).2.1]
  have hr₂ : regions ms₂ = [] := by
    simp [regions, (cfiber_multislab_init_ext_spec h₂).2.1]
  constructor
  · rw [hr₂]
    exact Sound.start h₁ ⟨hg, List.nil_subperm⟩ hout
  · rw [hr₁]
    exact Sound.start h₂ ⟨hg, List.nil_subperm⟩ hout

/-- One multislab is not disturbed by what happens beside it. -/
theorem Sound.rehome {R R' : List Region} {ms : Multislab T} {c' : γ} {l : List Nat}
    (h : Sound (beside R out) (GoodBeside R out good) ⟨ms, c, l⟩) (hg : good c')
    (hp : (out c').Perm (R' ++ regions ms)) :
    Sound (beside R' out) (GoodBeside R' out good) ⟨ms, c', l⟩ := by
  have hR' := subperm_of_perm_append hp
  exact ⟨h.rep, ⟨(diff_perm_iff hR').mpr hp, h.own.apart, h.own.fits⟩, ⟨hg, hR'⟩, h.nodup, h.live⟩

/-- What is outstanding belongs to the one or to the other. -/
theorem Twin.of_fst (h : Twin out good ms₁ ms₂ c l₁ l₂) {ms₁' : Multislab T} {c' : γ}
    {l₁' : List Nat}
    (hs : Sound (beside (regions ms₂) out) (GoodBeside (regions ms₂) out good) ⟨ms₁', c', l₁'⟩) :
    Twin out good ms₁' ms₂ c' l₁' l₂ := by
  have hp : (out c').Perm (regions ms₂ ++ regions ms₁') :=
    (diff_perm_iff hs.good.2).mp hs.own.perm
  exact ⟨hs, h.snd.rehome hs.good.1 (hp.trans List.perm_append_comm)⟩

/-- **An allocation from the first.** -/
theorem Twin.alloc (H : Honest T B out good) (h : Twin out good ms₁ ms₂ c l₁ l₂) :
    (∃ p ms' c', cfiber_multislab_alloc B ms₁ c = (some p, ms', c') ∧ SameConfig ms₁ ms' ∧
      p ∉ l₁ ∧ Twin out good ms' ms₂ c' (p :: l₁) l₂) ∨
    ∃ ms' c', cfiber_multislab_alloc B ms₁ c = (none, ms', c') ∧ SameConfig ms₁ ms' ∧
      Twin out good ms' ms₂ c' l₁ l₂ ∧
      ((ms₁.max_slabs ≠ 0 ∧ ms₁.slab_count ≥ ms₁.max_slabs) ∨ Refused B ms₁ c) := by
  obtain ⟨as, fs, hrep⟩ := h.fst.rep
  rcases cfiber_multislab_alloc_spec (H.beside (regions ms₂)) hrep h.fst.own h.fst.good with
    ⟨p, ms', c', heq, -, -, -, hA⟩ | ⟨ms', c', heq, -, -, -, hr, -, -, hwhy⟩
  · have hstep : Client.step B ⟨ms₁, c, l₁⟩ .alloc = some ⟨ms', c', p :: l₁⟩ := by
      simp only [Client.step, heq]
    have hs' := h.fst.step (H.beside (regions ms₂)) hstep
    exact Or.inl ⟨p, ms', c', heq, hA.config, fun hm => hA.fresh ((h.fst.live p).mp hm),
      h.of_fst hs'⟩
  · have hstep : Client.step B ⟨ms₁, c, l₁⟩ .alloc = some ⟨ms', c', l₁⟩ := by
      simp only [Client.step, heq]
    have hs' := h.fst.step (H.beside (regions ms₂)) hstep
    exact Or.inr ⟨ms', c', heq, hr.config, h.of_fst hs', hwhy⟩

/-- **A release to the first.** -/
theorem Twin.release (H : Honest T B out good) (h : Twin out good ms₁ ms₂ c l₁ l₂) {p : Nat}
    (hp : p ∈ l₁) :
    ∃ ms' c', cfiber_multislab_release B ms₁ p c = (ms', c') ∧ SameConfig ms₁ ms' ∧
      Twin out good ms' ms₂ c' (l₁.erase p) l₂ := by
  obtain ⟨as, fs, hrep⟩ := h.fst.rep
  obtain ⟨ms', c', heq, -, -, -, hR⟩ := cfiber_multislab_release_spec (H.beside (regions ms₂)) hrep
    h.fst.own h.fst.good ((h.fst.live p).mp hp)
  refine ⟨ms', c', heq, hR.config, h.of_fst ?_⟩
  have hstep : Client.step B ⟨ms₁, c, l₁⟩ (.release p) = some ⟨ms', c', l₁.erase p⟩ := by
    simp only [Client.step, if_pos hp, heq]
  exact h.fst.step (H.beside (regions ms₂)) hstep

/-! ## §3. The memory of the two. -/

/-- **What is outstanding stays pairwise apart**, so it may be part of the allocator's invariant. -/
theorem Honest.spread (H : Honest T B out good) :
    Honest T B out (fun c => good c ∧ (out c).Pairwise Apart) where
  alloc_some := by
    rintro n c a c' hn ⟨hg, hs⟩ heq
    obtain ⟨hg', hp, hfit, hap⟩ := H.alloc_some hn hg heq
    refine ⟨⟨hg', ?_⟩, hp, hfit, hap⟩
    rw [hp.pairwise_iff Apart.symm]
    exact List.pairwise_cons.mpr ⟨hap, hs⟩
  alloc_none := by
    rintro n c c' hn ⟨hg, hs⟩ heq
    obtain ⟨hg', hp⟩ := H.alloc_none hn hg heq
    refine ⟨⟨hg', ?_⟩, hp⟩
    rw [hp.pairwise_iff Apart.symm]
    exact hs
  free := by
    rintro a n c ⟨hg, hs⟩ hmem
    obtain ⟨hg', hp⟩ := H.free hg hmem
    refine ⟨⟨hg', ?_⟩, hp⟩
    rw [hp.pairwise_iff Apart.symm]
    exact hs.sublist List.erase_sublist

/-- All that is outstanding belongs to the two. -/
theorem Twin.held (h : Twin out good ms₁ ms₂ c l₁ l₂) : (out c).Perm (regions ms₁ ++ regions ms₂) := by
  have hp : (out c).Perm (regions ms₂ ++ regions ms₁) := (diff_perm_iff h.fst.good.2).mp h.fst.own.perm
  exact hp.trans List.perm_append_comm

/-- A live block lies in a region of its multislab. -/
theorem Rep.live_region (m : Multislab T) {as fs : List Nat} {p : Nat} (h : Rep m as fs)
    (hp : Live m p) : ∃ r ∈ regions m, r.1 ≤ p ∧ p + m.block_size ≤ r.1 + r.2 := by
  obtain ⟨n, hn, i, hi, rfl, -⟩ := hp
  have hrange := (h.slab n hn).block_range h.config hi
  exact ⟨(m.nodes.raw_memory n, m.slab_memory_size),
    List.mem_flatMap.mpr ⟨n, hn, List.mem_cons_self⟩, hrange⟩

/-- **Blocks of the two share no byte.** -/
theorem Twin.apart (h : Twin out good ms₁ ms₂ c l₁ l₂) (hs : (out c).Pairwise Apart) {p q : Nat}
    (hp : Live ms₁ p) (hq : Live ms₂ q) : Apart (p, ms₁.block_size) (q, ms₂.block_size) := by
  obtain ⟨as, fs, hrep⟩ := h.fst.rep
  obtain ⟨as', fs', hrep'⟩ := h.snd.rep
  obtain ⟨r, hr, hlo, hhi⟩ := Rep.live_region ms₁ hrep hp
  obtain ⟨r', hr', hlo', hhi'⟩ := Rep.live_region ms₂ hrep' hq
  rw [h.held.pairwise_iff Apart.symm] at hs
  have hap : Apart r r' := (List.pairwise_append.mp hs).2.2 r hr r' hr'
  unfold Apart at hap ⊢
  show p + ms₁.block_size ≤ q ∨ q + ms₂.block_size ≤ p
  omega

/-- **Both destroyed**: nothing is left. -/
theorem Twin.destroy (H : Honest T B out good) (h : Twin out good ms₁ ms₂ c l₁ l₂) :
    good (cfiber_multislab_destroy B ms₂ (cfiber_multislab_destroy B ms₁ c).2).2 ∧
      out (cfiber_multislab_destroy B ms₂ (cfiber_multislab_destroy B ms₁ c).2).2 = [] := by
  obtain ⟨as, fs, hrep⟩ := h.fst.rep
  obtain ⟨⟨hg, hsub⟩, hnil⟩ :=
    cfiber_multislab_destroy_spec (H.beside (regions ms₂)) hrep h.fst.own h.fst.good
  -- the first one's regions are gone, the second one's are all that is left
  have hrest : (out (cfiber_multislab_destroy B ms₁ c).2).Perm (regions ms₂ ++ []) :=
    (diff_perm_iff hsub).mp (List.Perm.of_eq hnil)
  rw [List.append_nil] at hrest
  have hsnd : Sound (beside [] out) (GoodBeside [] out good)
      ⟨ms₂, (cfiber_multislab_destroy B ms₁ c).2, l₂⟩ := h.snd.rehome hg hrest
  obtain ⟨as', fs', hrep'⟩ := hsnd.rep
  obtain ⟨⟨hg', -⟩, hnil'⟩ := cfiber_multislab_destroy_spec (H.beside []) hrep' hsnd.own hsnd.good
  exact ⟨hg', hnil'⟩

end CFiber.Memory
