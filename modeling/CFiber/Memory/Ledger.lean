/-
  CFiber.Memory.Ledger — the traffic between the multislab and its backing allocator.

  `recorded B` is the allocator `B` with a log of every `mem_alloc` and `mem_free` call.  The log
  is replayed by `account`, which gets stuck on a free that does not match: a pointer that was never
  handed out, one already freed, or one freed with another size than it was requested with.

  `LedgerOk` states what users of the multislab rely on; `ledger_ok` proves it for every run, over
  every allocator, whatever it refuses and however its regions are aligned.
-/
import CFiber.Memory.MultislabRun

namespace CFiber.Memory

open CFiber.Base

variable {T : Target} {γ : Type}

/-! ## §1. The log of backing calls. -/

inductive MemCall where
  | alloc (size : Nat) (answer : Option Nat)
  | free (ptr size : Nat)

/-- The allocator `B`, logging its calls. -/
def recorded (B : Backing γ) : Backing (γ × List MemCall) where
  mem_alloc n c :=
    let (a, g) := B.mem_alloc n c.1
    (a, (g, c.2 ++ [.alloc n a]))
  mem_free a n c := (B.mem_free a n c.1, c.2 ++ [.free a n])

/-- The regions outstanding after one more call; stuck on a free that matches none of them. -/
def account (l : List Region) : MemCall → Option (List Region)
  | .alloc n (some a) => some ((a, n) :: l)
  | .alloc _ none => some l
  | .free a n => if (a, n) ∈ l then some (l.erase (a, n)) else none

/-- The regions outstanding after a log, if every free of it matches. -/
def outstanding (log : List MemCall) : Option (List Region) := exec account [] log

theorem outstanding_snoc {log : List MemCall} {l : List Region} {e : MemCall}
    (h : outstanding log = some l) : outstanding (log ++ [e]) = account l e := by
  unfold outstanding at h ⊢
  cases hres : account l e with
  | some l' => exact exec_snoc.mpr ⟨l, h, hres⟩
  | none =>
      rw [Option.eq_none_iff_forall_ne_some]
      intro l' hl'
      obtain ⟨t, ht, hstep⟩ := exec_snoc.mp hl'
      obtain rfl : l = t := Option.some.inj (h.symm.trans ht)
      rw [hres] at hstep
      exact absurd hstep (by simp)

/-- The log replays, and to the regions that the allocator counts as outstanding. -/
def Balanced (out : γ → List Region) (c : γ × List MemCall) : Prop :=
  ∃ l, outstanding c.2 = some l ∧ l.Perm (out c.1)

/-- **Logging keeps the contract**, and every call it logs replays. -/
theorem recorded_honest {B : Backing γ} {out : γ → List Region} {good : γ → Prop}
    (H : Honest T B out good) :
    Honest T (recorded B) (fun c => out c.1) (fun c => good c.1 ∧ Balanced out c) where
  alloc_some := by
    rintro n ⟨g, log⟩ a c' hn ⟨hg, l, hl, hp⟩ heq
    rcases hB : B.mem_alloc n g with ⟨a', g'⟩
    simp only [recorded, hB, Prod.mk.injEq] at heq
    obtain ⟨rfl, rfl⟩ := heq
    obtain ⟨hg', hp', hfit, hap⟩ := H.alloc_some hn hg hB
    exact ⟨⟨hg', (a, n) :: l, outstanding_snoc hl, (hp.cons _).trans hp'.symm⟩, hp', hfit, hap⟩
  alloc_none := by
    rintro n ⟨g, log⟩ c' hn ⟨hg, l, hl, hp⟩ heq
    rcases hB : B.mem_alloc n g with ⟨a', g'⟩
    simp only [recorded, hB, Prod.mk.injEq] at heq
    obtain ⟨rfl, rfl⟩ := heq
    obtain ⟨hg', hp'⟩ := H.alloc_none hn hg hB
    exact ⟨⟨hg', l, outstanding_snoc hl, hp.trans hp'.symm⟩, hp'⟩
  free := by
    rintro a n ⟨g, log⟩ ⟨hg, l, hl, hp⟩ hmem
    obtain ⟨hg', hp'⟩ := H.free hg hmem
    refine ⟨⟨hg', l.erase (a, n), ?_, (hp.erase _).trans hp'.symm⟩, hp'⟩
    have hin : (a, n) ∈ l := hp.mem_iff.mpr hmem
    show outstanding (log ++ [.free a n]) = some (l.erase (a, n))
    rw [outstanding_snoc hl]
    simp [account, hin]

/-- Freeing nodes logs their two regions, node after node; the allocator sees what it would see. -/
theorem free_nodes_recorded (B : Backing γ) (ns : List Nat) :
    ∀ (ms : Multislab T) (c : γ) (log : List MemCall),
      ns.foldl (fun mc node => multislab_free_node (recorded B) mc.1 node mc.2) (ms, c, log) =
        let res := ns.foldl (fun mc node => multislab_free_node B mc.1 node mc.2) (ms, c)
        (res.1, res.2, log ++ (ns.flatMap (nodeRegions ms)).map fun r => .free r.1 r.2) := by
  induction ns with
  | nil =>
      intro ms c log
      show (ms, c, log) = (ms, c, log ++ [])
      rw [List.append_nil]
  | cons n ns ih =>
      intro ms c log
      rw [List.foldl_cons, List.foldl_cons]
      refine (ih _ _ _).trans ?_
      show (_, _, _) = (_, _, _)
      have hlog : ∀ l : List MemCall,
          log ++ [.free (ms.nodes.raw_memory n) ms.slab_memory_size] ++ [.free n (sizeof_node T)] ++ l =
            log ++ ((nodeRegions ms n).map (fun r => .free r.1 r.2) ++ l) := by
        intro l
        simp [nodeRegions]
      rw [List.flatMap_cons, List.map_append, ← hlog]
      rfl

/-- **What `destroy` frees**: the regions of every node, once each. -/
theorem cfiber_multislab_destroy_recorded (B : Backing γ) {ms : Multislab T} {as fs : List Nat}
    (h : Rep ms as fs) (c : γ) :
    ∃ frees : List Region, frees.Perm (regions ms) ∧
      cfiber_multislab_destroy (recorded B) ms (c, []) =
        ((cfiber_multislab_destroy B ms c).1, (cfiber_multislab_destroy B ms c).2,
          frees.map fun r => .free r.1 r.2) := by
  refine ⟨(as ++ fs).flatMap (nodeRegions ms), (h.dom.flatMap_right _).symm, ?_⟩
  rw [cfiber_multislab_destroy_eq B h, cfiber_multislab_destroy_eq (recorded B) h,
    free_nodes_recorded B (as ++ fs) ms c []]
  rfl

/-! ## §2. The frees of one call. -/

/-- Growth frees only what it was just given, and only when it fails. -/
theorem multislab_grow_frees {B : Backing γ} {out : γ → List Region} {good : γ → Prop}
    (H : Honest T B out good) {ms : Multislab T} {c : γ × List MemCall} (hc : Config ms)
    (hg : good c.1) :
    ∃ new, (multislab_grow (recorded B) ms c).2.2.2 = c.2 ++ new ∧
      ∀ a n, .free a n ∈ new → (multislab_grow (recorded B) ms c).1 = none ∧
        ∀ r ∈ out c.1, Apart (a, n) r := by
  have hnode := sizeof_node_pos T
  have hsize := hc.size_pos
  unfold multislab_grow
  split_ifs with hcap
  · exact ⟨[], by simp, fun _ _ h => absurd h List.not_mem_nil⟩
  rcases h1 : B.mem_alloc (sizeof_node T) c.1 with ⟨_ | node, g₁⟩
  · simp only [recorded, h1]
    exact ⟨_, rfl, fun _ _ h => by simp at h⟩
  obtain ⟨hg₁, hp₁, -, hap₁⟩ := H.alloc_some hnode hg h1
  rcases h2 : B.mem_alloc ms.slab_memory_size g₁ with ⟨_ | mem, g₂⟩
  · simp only [recorded, h1, h2, List.append_assoc]
    refine ⟨_, rfl, fun a n h => ⟨trivial, ?_⟩⟩
    obtain ⟨rfl, rfl⟩ : a = node ∧ n = sizeof_node T := by simpa using h
    exact hap₁
  obtain ⟨hg₂, hp₂, -, hap₂⟩ := H.alloc_some hsize hg₁ h2
  have hap₂' : ∀ r ∈ out c.1, Apart (mem, ms.slab_memory_size) r := fun r hr =>
    hap₂ r (hp₁.mem_iff.mpr (List.mem_cons_of_mem _ hr))
  cases hinit : cfiber_slab_init T ms.block_size mem ms.slab_memory_size with
  | none =>
      simp only [recorded, h1, h2, hinit, List.append_assoc]
      refine ⟨_, rfl, fun a n h => ⟨trivial, ?_⟩⟩
      have hcases : (a = mem ∧ n = ms.slab_memory_size) ∨ (a = node ∧ n = sizeof_node T) := by
        simpa using h
      rcases hcases with ⟨rfl, rfl⟩ | ⟨rfl, rfl⟩
      · exact hap₂'
      · exact hap₁
  | some slab =>
      simp only [recorded, h1, h2, hinit, List.append_assoc]
      exact ⟨_, rfl, fun a n h => by simp at h⟩

theorem Config.same {ms ms' : Multislab T} (h : Config ms) (hs : SameConfig ms ms') :
    Config ms' where
  block_pos := by rw [hs.block_size]; exact h.block_pos
  line := by rw [hs.block_size]; exact h.line
  per_pos := by rw [hs.blocks_per_slab]; exact h.per_pos
  per_le := by rw [hs.blocks_per_slab]; exact h.per_le
  size_eq := by rw [hs.slab_memory_size, hs.block_size, hs.blocks_per_slab]; exact h.size_eq

theorem cfiber_multislab_alloc_frees {B : Backing γ} {out : γ → List Region} {good : γ → Prop}
    (H : Honest T B out good) {ms : Multislab T} {c : γ × List MemCall} (hc : Config ms)
    (hg : good c.1) :
    ∃ new, (cfiber_multislab_alloc (recorded B) ms c).2.2.2 = c.2 ++ new ∧
      ∀ a n, .free a n ∈ new → (cfiber_multislab_alloc (recorded B) ms c).1 = none ∧
        ∀ r ∈ out c.1, Apart (a, n) r := by
  have hscan := alloc_scan_config (ms.nodes.dom.length + 1) ms
  unfold cfiber_multislab_alloc
  rcases h1 : alloc_scan (ms.nodes.dom.length + 1) ms with ⟨_ | ptr, ms₁⟩
  · rw [h1] at hscan
    obtain ⟨new, hnew, hfree⟩ := multislab_grow_frees (c := c) H (hc.same hscan) hg
    rcases h2 : multislab_grow (recorded B) ms₁ c with ⟨_ | node, ms₂, c₂⟩
    · rw [h2] at hnew hfree
      refine ⟨new, by simpa only [h2] using hnew, fun a n h => ?_⟩
      simpa only [h2] using hfree a n h
    · rw [h2] at hnew hfree
      refine ⟨new, by simpa only [h2] using hnew, fun a n h => ?_⟩
      exact absurd (hfree a n h).1 (by simp)
  · exact ⟨[], by simp, fun _ _ h => absurd h List.not_mem_nil⟩

/-! ## §3. The ledger of every run. -/

/-- What the log of a run satisfies in state `s`. -/
structure LedgerOk (B : Backing γ) (s : Client T (γ × List MemCall)) : Prop where
  /-- Every free so far returned an outstanding region, with its size. -/
  balanced : ∃ l, outstanding s.ctx.2 = some l
  /-- A failed allocation leaves the same regions outstanding. -/
  failed : ∀ ms' c', cfiber_multislab_alloc (recorded B) s.ms s.ctx = (none, ms', c') →
    ∃ l l', outstanding s.ctx.2 = some l ∧ outstanding c'.2 = some l' ∧ l'.Perm l
  /-- No call frees memory under a block that is live after it. -/
  kept : ∀ call s', s.step (recorded B) call = some s' → ∃ new, s'.ctx.2 = s.ctx.2 ++ new ∧
    ∀ a n, .free a n ∈ new → ∀ p ∈ s'.live, Apart (a, n) (p, s.ms.block_size)
  /-- Destruction leaves nothing outstanding. -/
  destroyed : outstanding (cfiber_multislab_destroy (recorded B) s.ms s.ctx).2.2 = some []

theorem Apart.of_sub {r : Region} {a n p m : Nat} (h : Apart r (a, n)) (hlo : a ≤ p)
    (hhi : p + m ≤ a + n) : Apart r (p, m) := by
  simp only [Apart] at h ⊢
  omega

/-- A live block lies in the slab region of its node. -/
theorem Live.region {ms : Multislab T} {as fs : List Nat} {p : Nat} (h : Rep ms as fs)
    (hp : Live ms p) : ∃ n ∈ ms.nodes.dom, ms.nodes.raw_memory n ≤ p ∧
      p + ms.block_size ≤ ms.nodes.raw_memory n + ms.slab_memory_size := by
  obtain ⟨n, hn, i, hi, rfl, -⟩ := hp
  exact ⟨n, hn, (h.slab n hn).block_range h.config hi⟩

theorem mem_freeNode_log {B : Backing γ} {ms : Multislab T} {n : Nat} {c : γ × List MemCall} :
    (freeNode (recorded B) ms n c).2 = c.2 ++ [.free (ms.nodes.raw_memory n) ms.slab_memory_size,
      .free n (sizeof_node T)] := by
  simp [freeNode, recorded]

/-- The frees of one call, against the blocks live after it. -/
theorem Sound.kept {B : Backing γ} {out : γ → List Region} {good : γ → Prop}
    (H : Honest T B out good) {s s' : Client T (γ × List MemCall)} {call : Call}
    (h : Sound (fun c => out c.1) (fun c => good c.1 ∧ Balanced out c) s)
    (hstep : s.step (recorded B) call = some s') : ∃ new, s'.ctx.2 = s.ctx.2 ++ new ∧
      ∀ a n, .free a n ∈ new → ∀ p ∈ s'.live, Apart (a, n) (p, s.ms.block_size) := by
  obtain ⟨as, fs, hrep⟩ := h.rep
  have hregion : ∀ n ∈ s.ms.nodes.dom, (s.ms.nodes.raw_memory n, s.ms.slab_memory_size)
      ∈ out s.ctx.1 := fun n hn =>
    h.own.perm.mem_iff.mpr (List.mem_flatMap.mpr ⟨n, hn, List.mem_cons_self⟩)
  cases call with
  | alloc =>
      -- an allocation frees only what it had just taken, and then it fails
      obtain ⟨new, hnew, hfree⟩ := cfiber_multislab_alloc_frees H hrep.config h.good.1 (c := s.ctx)
      refine ⟨new, ?_, ?_⟩
      · rcases hres : cfiber_multislab_alloc (recorded B) s.ms s.ctx with ⟨_ | p, ms', c'⟩ <;>
        · rw [hres] at hnew
          simp only [Client.step, hres, Option.some.injEq] at hstep
          rw [← hstep]
          exact hnew
      · intro a n hin p hp
        obtain ⟨hnone, hap⟩ := hfree a n hin
        rcases hres : cfiber_multislab_alloc (recorded B) s.ms s.ctx with ⟨_ | q, ms', c'⟩
        · simp only [Client.step, hres, Option.some.injEq] at hstep
          rw [← hstep] at hp
          obtain ⟨m, hm, hlo, hhi⟩ := ((h.live p).mp hp).region hrep
          exact (hap _ (hregion m hm)).of_sub hlo hhi
        · rw [hres] at hnone
          exact absurd hnone (by simp)
  | release q =>
      simp only [Client.step] at hstep
      split_ifs at hstep with hq
      obtain ⟨ms', c', heq, -, -, ⟨as', fs', hrep'⟩, hR⟩ :=
        cfiber_multislab_release_spec (recorded_honest H) hrep h.own h.good ((h.live q).mp hq)
      simp only [heq, Option.some.injEq] at hstep
      subst hstep
      rcases hR.nodes with ⟨-, rfl⟩ | ⟨n, hn, hdom, rfl, -⟩
      · exact ⟨[], by simp, fun _ _ h => absurd h List.not_mem_nil⟩
      · -- a node went back: the blocks still held are on others
        refine ⟨_, mem_freeNode_log, ?_⟩
        intro a k hin p hp
        have hreg : (a, k) ∈ nodeRegions s.ms n := by
          rcases List.mem_cons.mp hin with e | e
          · obtain ⟨rfl, rfl⟩ := MemCall.free.inj e
            exact List.mem_cons_self
          · obtain ⟨rfl, rfl⟩ := MemCall.free.inj (List.mem_singleton.mp e)
            exact List.mem_cons_of_mem _ List.mem_cons_self
        have hlive : Live ms' p := (hR.live p).mpr
          ⟨(h.live p).mp (List.mem_of_mem_erase hp), fun e => h.nodup.not_mem_erase (e ▸ hp)⟩
        obtain ⟨m, hm, hlo, hhi⟩ := hlive.region hrep'
        rw [hdom] at hm
        have hmn : m ≠ n := fun e => hrep.dom_nodup.not_mem_erase (e ▸ hm)
        rw [hR.raw, hR.config.slab_memory_size, hR.config.block_size] at hhi
        rw [hR.raw] at hlo
        exact (h.own.nodes_apart hn (List.mem_of_mem_erase hm) (Ne.symm hmn) _ hreg _
          List.mem_cons_self).of_sub hlo hhi

/-- **The backing-memory ledger.**  Over every allocator that hands out regions apart from the
outstanding ones, and every run of calls. -/
theorem ledger_ok {B : Backing γ} {out : γ → List Region} {good : γ → Prop}
    (H : Honest T B out good) {block_size : Nat} {blocks_per_slab max_slabs reserve : UInt32}
    {ms : Multislab T} {c : γ}
    (hinit : cfiber_multislab_init_ext T block_size blocks_per_slab max_slabs reserve = some ms)
    (hg : good c) (hout : out c = []) {calls : List Call} {s : Client T (γ × List MemCall)}
    (hrun : exec (Client.step (recorded B)) ⟨ms, (c, []), []⟩ calls = some s) :
    LedgerOk B s := by
  have HR := recorded_honest H
  have hstart : Sound (fun c : γ × List MemCall => out c.1) (fun c => good c.1 ∧ Balanced out c)
      (⟨ms, (c, []), []⟩ : Client T (γ × List MemCall)) :=
    Sound.start hinit ⟨hg, [], rfl, by rw [hout]⟩ hout
  have h := hstart.run HR hrun
  obtain ⟨as, fs, hrep⟩ := h.rep
  obtain ⟨l, hl, hp⟩ := h.good.2
  refine ⟨⟨l, hl⟩, ?_, fun call s' hstep => h.kept H hstep, ?_⟩
  · intro ms' c' heq
    rcases cfiber_multislab_alloc_spec HR hrep h.own h.good with
      ⟨p, ms₁, c₁, h1, -⟩ | ⟨ms₁, c₁, h1, hg₁, -, -, -, hout₁, -⟩
    · exact absurd (h1.symm.trans heq) (by simp)
    · obtain ⟨rfl, rfl⟩ : ms₁ = ms' ∧ c₁ = c' := by simpa using h1.symm.trans heq
      obtain ⟨l', hl', hp'⟩ := hg₁.2
      exact ⟨l, l', hl, hl', (hp'.trans hout₁).trans hp.symm⟩
  · obtain ⟨⟨-, l', hl', hp'⟩, hnil⟩ := cfiber_multislab_destroy_spec HR hrep h.own h.good
    rw [hnil] at hp'
    rw [hl', hp'.eq_nil]

theorem ledger_ok_bump : ∃ ms s, tiny = some ms ∧
    exec (Client.step (recorded bump)) ⟨ms, ((64, []), []), []⟩
      [.alloc, .alloc, .release 192, .alloc] = some s ∧ LedgerOk bump s := by
  have hsome : (tiny.bind fun ms => exec (Client.step (recorded bump)) ⟨ms, ((64, []), []), []⟩
      [.alloc, .alloc, .release 192, .alloc]).isSome = true := by decide +kernel
  obtain ⟨s, hs⟩ := Option.isSome_iff_exists.mp hsome
  obtain ⟨ms, hms, hrun⟩ := Option.bind_eq_some_iff.mp hs
  exact ⟨ms, s, hms, hrun, ledger_ok bump_honest hms
    ⟨rfl, fun _ h => absurd h List.not_mem_nil⟩ rfl hrun⟩

end CFiber.Memory
