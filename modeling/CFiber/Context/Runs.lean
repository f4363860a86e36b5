/-
  CFiber.Context.Runs — any number of contexts, switched in any order.

  `Threads` is the machine with a history variable: for each context that has been switched away
  from and not come back to, the state in which `cfiber_switch_context` was entered.  Between two
  switches registers and memory change at will, except that a context that is away keeps its
  `cfiber_context_t` and, where the return address lies on the stack, that slot (`Allowed`).

  The invariant `Away` says that a context that is away is stored in memory as it was entered; the
  routine's correctness (`check_sound`) keeps it, and coming back reads it off
  (`context_switch_preserves`).
-/
import CFiber.Context.Switch

namespace CFiber.Context

variable {p : Port}

/-! ## §1. The call, as its caller sees it. -/

/-- The call of `cfiber_switch_context` in state `e`, up to and with its return. -/
def Port.run (p : Port) (e : State p.isa) : State p.isa :=
  Ret.exec (body p.isa p.cfiber_switch_context e) p.ret

/-- The stretch of the stack that holds the return address on entry. -/
def Port.slot (p : Port) (e : State p.isa) : Nat × Nat :=
  match p.ret with
  | .link _ => (0, 0)
  | .pop sp => (e.regs sp, p.isa.bytes sp)

def Port.return_address (p : Port) (e : State p.isa) : Nat :=
  match p.ret with
  | .link lr => e.regs lr
  | .pop sp => read e.mem (e.regs sp) (p.isa.bytes sp)

/-- The registers as a call that is entered in `e` should leave them: those on entry, but for the
return address, which the call instruction pushed and the return pops. -/
def Port.caller (p : Port) (e : State p.isa) : p.Reg → Nat :=
  match p.ret with
  | .link _ => e.regs
  | .pop sp => Function.update e.regs sp ((e.regs sp + p.isa.bytes sp) % 256 ^ p.isa.bytes sp)

/-! ## §2. Runs. -/

structure Threads (p : Port) where
  s : State p.isa
  away : Nat → Option (State p.isa)

/-- `e` is a state in which `cfiber_switch_context` may be entered next.  The contexts are objects:
inside the address space, not overlapping each other or the return addresses on the stacks. -/
structure Allowed (S : Threads p) (e : State p.isa) : Prop where
  old_fits : e.regs p.old_ctx + p.size ≤ p.isa.space
  new_fits : e.regs p.new_ctx + p.size ≤ p.isa.space
  own_slot : Apart (p.slot e).1 (p.slot e).2 (e.regs p.old_ctx) p.size
  distinct : ∀ c snap, S.away c = some snap → c ≠ e.regs p.old_ctx →
    Apart c p.size (e.regs p.old_ctx) p.size ∧
      Apart (p.slot snap).1 (p.slot snap).2 (e.regs p.old_ctx) p.size
  kept : ∀ c snap, S.away c = some snap → ∀ x,
    Within c p.size x ∨ Within (p.slot snap).1 (p.slot snap).2 x → e.mem x = S.s.mem x

/-- The contexts that are away once `e` is saved. -/
def Threads.saved (S : Threads p) (e : State p.isa) : Nat → Option (State p.isa) :=
  Function.update S.away (e.regs p.old_ctx) (some e)

/-- The state in which the context that control comes back to was left. -/
def Threads.resumed (S : Threads p) (e : State p.isa) : Option (State p.isa) :=
  S.saved e (e.regs p.new_ctx)

def Threads.switch (S : Threads p) (e : State p.isa) : Threads p where
  s := p.run e
  away := Function.update (S.saved e) (e.regs p.new_ctx) none

/-- The states after any finite sequence of switches. -/
inductive Reach : Threads p → Prop where
  | start (s : State p.isa) : Reach ⟨s, fun _ => none⟩
  | switch {S : Threads p} {e : State p.isa} (hS : Reach S) (he : Allowed S e) :
    Reach (S.switch e)

/-! ## §3. The invariant. -/

/-- Memory `m` stores at `c` the context that was left in `snap`. -/
structure Stored (p : Port) (m : Mem) (c : Nat) (snap : State p.isa) : Prop where
  fields : ∀ f ∈ p.fields, read m (c + f.1) (p.isa.bytes f.2) = snap.regs f.2
  slot : ∀ x, Within (p.slot snap).1 (p.slot snap).2 x → m x = snap.mem x

def Away (S : Threads p) : Prop := ∀ c snap, S.away c = some snap → Stored p S.s.mem c snap

/-- What the checker says about a target, and that its fields lie inside the struct. -/
structure Port.Ok (p : Port) : Prop where
  checked : check p.isa p.size p.old_ctx p.new_ctx p.fields p.cfiber_switch_context = true
  size_pos : 0 < p.size
  inside : ∀ f ∈ p.fields, f.1 + p.isa.bytes f.2 ≤ p.size
  preserved : ∀ r ∈ p.preserved, ∃ f ∈ p.fields, f.2 = r
  ret : ∃ f ∈ p.fields, f.2 = p.ret.reg

theorem Stored.congr {m m' : Mem} {c : Nat} {snap : State p.isa} (hp : p.Ok)
    (h : Stored p m c snap)
    (hm : ∀ x, Within c p.size x ∨ Within (p.slot snap).1 (p.slot snap).2 x → m' x = m x) :
    Stored p m' c snap := by
  constructor
  · intro f hf
    rw [← h.fields f hf]
    apply read_congr
    intro x hx
    apply hm
    left
    have := hp.inside f hf
    unfold Within at hx ⊢
    omega
  · intro x hx
    rw [hm x (Or.inr hx)]
    exact h.slot x hx

/-- **After the routine's body everything that is away is stored**: what was away already, and the
context just left. -/
theorem Away.body {S : Threads p} {e : State p.isa} (hp : p.Ok) (h : Away S) (he : Allowed S e) :
    ∀ c snap, S.saved e c = some snap →
      Stored p (body p.isa p.cfiber_switch_context e).mem c snap := by
  have ht := check_sound hp.size_pos hp.checked e he.old_fits he.new_fits
  intro c snap hc
  unfold Threads.saved at hc
  rcases eq_or_ne c (e.regs p.old_ctx) with rfl | hne
  · rw [Function.update_self] at hc
    obtain rfl := Option.some.inj hc
    constructor
    · intro f hf
      exact ht.saved f hf
    · intro x hx
      apply ht.frame
      have := he.own_slot
      unfold Apart at this
      unfold Within at hx ⊢
      omega
  · rw [Function.update_of_ne hne] at hc
    obtain ⟨hap, hslot⟩ := he.distinct c snap hc hne
    refine (h c snap hc).congr hp fun x hx => ?_
    rw [ht.frame x, he.kept c snap hc x hx]
    unfold Apart at hap hslot
    unfold Within at hx ⊢
    omega

theorem Port.run_mem (p : Port) (e : State p.isa) :
    (p.run e).mem = (body p.isa p.cfiber_switch_context e).mem := by
  unfold Port.run Ret.exec
  cases p.ret <;> rfl

/-- **A switch keeps the invariant.** -/
theorem Away.switch {S : Threads p} {e : State p.isa} (hp : p.Ok) (h : Away S)
    (he : Allowed S e) : Away (S.switch e) := by
  intro c snap hc
  unfold Threads.switch at hc ⊢
  rcases eq_or_ne c (e.regs p.new_ctx) with rfl | hne
  · simp at hc
  · simp only [Function.update_of_ne hne] at hc
    simp only [Port.run_mem]
    exact h.body hp he c snap hc

theorem Reach.away {S : Threads p} (hp : p.Ok) (h : Reach S) : Away S := by
  induction h with
  | start s => intro c snap hc; simp at hc
  | switch _ he ih => exact ih.switch hp he

/-- Loading a stored context gives its registers back. -/
theorem Transfers.restored {e : State p.isa} {snap s : State p.isa}
    (h : Transfers p.fields p.size (e.regs p.old_ctx) (e.regs p.new_ctx) e s)
    (hs : Stored p s.mem (e.regs p.new_ctx) snap) {r : p.Reg} (hr : ∃ f ∈ p.fields, f.2 = r) :
    s.regs r = snap.regs r := by
  obtain ⟨f, hf, rfl⟩ := hr
  rw [h.loaded f hf]
  exact hs.fields f hf

/-! ## §4. Coming back. -/

theorem Port.Ok.preserves (hp : p.Ok) {S : Threads p} (hS : Reach S) {e : State p.isa}
    (he : Allowed S e) :
    (∀ x, ¬ Within (e.regs p.old_ctx) p.size x → (S.switch e).s.mem x = e.mem x) ∧
    ∀ snap, S.resumed e = some snap →
      (∀ r ∈ p.preserved, (S.switch e).s.regs r = p.caller snap r) ∧
        (S.switch e).s.pc = p.return_address snap := by
  have ht := check_sound hp.size_pos hp.checked e he.old_fits he.new_fits
  constructor
  · intro x hx
    show (p.run e).mem x = e.mem x
    rw [Port.run_mem]
    exact ht.frame x hx
  · intro snap hres
    have hstored := (hS.away hp).body hp he _ snap hres
    have hret := ht.restored hstored hp.ret
    show (∀ r ∈ p.preserved, (p.run e).regs r = p.caller snap r) ∧
      (p.run e).pc = p.return_address snap
    unfold Port.run Port.caller Port.return_address
    cases hk : p.ret with
    | link lr =>
        rw [hk] at hret
        exact ⟨fun r hr => ht.restored hstored (hp.preserved r hr), hret⟩
    | pop sp =>
        rw [hk] at hret
        have hsp : (body p.isa p.cfiber_switch_context e).regs sp = snap.regs sp := hret
        constructor
        · intro r hr
          have hload := ht.restored hstored (hp.preserved r hr)
          show (State.set _ sp _).regs r = Function.update snap.regs sp _ r
          rcases eq_or_ne r sp with rfl | hne
          · rw [State.set_self, Function.update_self, hload]
          · rw [State.set_of_ne _ _ hne, Function.update_of_ne hne, hload]
        · show read _ _ _ = _
          rw [hsp]
          apply read_congr
          intro x hx
          apply hstored.slot
          unfold Port.slot
          rw [hk]
          exact hx

/-- Every target is in order. -/
theorem Cpu.ok (cpu : Cpu) : cpu.port.Ok := by
  have hsize : 0 < cpu.port.size := by
    cases cpu with
    | armv7_m fp => cases fp <;> decide +kernel
    | _ => decide +kernel
  have hinside : ∀ f ∈ cpu.port.fields, f.1 + cpu.port.isa.bytes f.2 ≤ cpu.port.size := by
    cases cpu with
    | armv7_m fp => cases fp <;> decide +kernel
    | _ => decide +kernel
  have hpreserved : ∀ r ∈ cpu.port.preserved, ∃ f ∈ cpu.port.fields, f.2 = r := by
    cases cpu with
    | armv7_m fp => cases fp <;> decide +kernel
    | _ => decide +kernel
  have hret : ∃ f ∈ cpu.port.fields, f.2 = cpu.port.ret.reg := by
    cases cpu with
    | armv7_m fp => cases fp <;> decide +kernel
    | _ => decide +kernel
  exact ⟨cpu.checked, hsize, hinside, hpreserved, hret⟩

/-- **A context that is switched away from comes back as it was left**, on every target, in every
sequence of switches: the preserved registers and the stack pointer hold what they held, and
execution goes on at the return address.  Only the old context's struct is written.  A switch from a
context to itself comes back at once. -/
theorem context_switch_preserves (cpu : Cpu) {S : Threads cpu.port} (hS : Reach S)
    {e : State cpu.port.isa} (he : Allowed S e) :
    (∀ x, ¬ Within (e.regs cpu.port.old_ctx) cpu.port.size x → (S.switch e).s.mem x = e.mem x) ∧
    (∀ snap, S.resumed e = some snap →
      (∀ r ∈ cpu.port.preserved, (S.switch e).s.regs r = cpu.port.caller snap r) ∧
        (S.switch e).s.pc = cpu.port.return_address snap) ∧
    (e.regs cpu.port.old_ctx = e.regs cpu.port.new_ctx → S.resumed e = some e) := by
  obtain ⟨hframe, hback⟩ := cpu.ok.preserves hS he
  refine ⟨hframe, hback, fun hself => ?_⟩
  unfold Threads.resumed Threads.saved
  rw [hself, Function.update_self]

/-! ## §5. Two contexts. -/

/-- Every register holds `v`, but for the arguments and the stack pointer. -/
def sample (v old new sp : Nat) (hv : v < 256 ^ 2) (h : old < 2 ^ 64 ∧ new < 2 ^ 64 ∧ sp < 2 ^ 64)
    (mem : Mem) : State X86.isa where
  regs
    | .rdi => old
    | .rsi => new
    | .rsp => sp
    | _ => v
  fits := by
    have hbig : v < 2 ^ 64 := by omega
    have hmid : v < 256 ^ 4 := by omega
    intro r
    cases r <;> first
      | exact hbig
      | exact hmid
      | exact hv
      | exact h.1
      | exact h.2.1
      | exact h.2.2
  mem := mem
  pc := 0

/-- The context at 4096, with every register 7, is left for the one at 8192. -/
def leave : State X86.isa :=
  sample 7 4096 8192 65536 (by decide) (by decide) fun _ => byte 1 0

/-- The machine after that switch. -/
def left : Threads X86.port := Threads.switch ⟨leave, fun _ => none⟩ leave

/-- With every register 9 and on another stack, the context at 8192 is left for the one at 4096. -/
def come_back : State X86.isa :=
  sample 9 8192 4096 131072 (by decide) (by decide) left.s.mem

theorem context_switch_preserves_x86 :
    (∀ r ∈ X86.port.preserved, (left.switch come_back).s.regs r = X86.port.caller leave r) ∧
      (left.switch come_back).s.pc = X86.port.return_address leave := by
  have haway : ∀ c snap, left.away c = some snap → c = 4096 ∧ snap = leave := by
    intro c snap hc
    have haway : left.away = Function.update (Function.update (fun _ => none) 4096 (some leave))
        8192 none := rfl
    rw [haway] at hc
    rcases eq_or_ne c 8192 with rfl | hnew
    · simp at hc
    · rw [Function.update_of_ne hnew] at hc
      rcases eq_or_ne c 4096 with rfl | hold
      · rw [Function.update_self] at hc
        exact ⟨rfl, (Option.some.inj hc).symm⟩
      · simp [Function.update_of_ne hold] at hc
  have hleave : Allowed (⟨leave, fun _ => none⟩ : Threads X86.port) leave := by
    refine ⟨by decide +kernel, by decide +kernel, by decide +kernel, ?_, ?_⟩
    · intro c snap hc
      simp at hc
    · intro c snap hc
      simp at hc
  have hreach : Reach left := Reach.switch (Reach.start (p := X86.port) leave) hleave
  have hback : Allowed left come_back := by
    refine ⟨by decide +kernel, by decide +kernel, by decide +kernel, ?_, ?_⟩
    · intro c snap hc hne
      obtain ⟨rfl, rfl⟩ := haway c snap hc
      decide +kernel
    · intro c snap hc x hx
      rfl
  exact (context_switch_preserves .x86_64 hreach hback).2.1 leave rfl

end CFiber.Context
