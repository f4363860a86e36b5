/-
  CFiber.Context.Prologue — the start of a fiber (`fiber_prologue_*.S`).

  The first switch into a fiber returns to `cfiber_prologue`, which makes two calls: the fiber's
  function, with its argument, and `cfiber_epilogue`.  With the address sanitizer a hook is called
  before them.  What a called function does is left open, but for the registers it has to keep;
  `Enters` gives the states in which functions are entered and come back.

    • `first_switch`  — the registers as `cfiber_prologue` finds them;
    • `fiber_starts`  — the functions entered, in order, each with its stack as the ABI wants it.
-/
import CFiber.Context.Init

namespace CFiber.Context

open CFiber.Base

variable {p : Port}

/-! ## §1. The code. -/

inductive Callee where
  | cfiber_asan_on_fiber_entry
  | cfiber_epilogue
  deriving DecidableEq, Repr

/-- A line of a prologue. -/
inductive Line (R : Type) where
  | mov (dst src : R)
  | call_reg (target : R)
  | call (f : Callee)
  /-- `ud2`, `brk #0`, `bkpt #0`. -/
  | trap

/-- What the ABI says about calls. -/
structure Abi (p : Port) where
  arg0 : p.Reg
  callee_saved : List p.Reg

namespace X86

def abi : Abi port where
  arg0 := Reg.rdi
  callee_saved := [Reg.rsp, .rbx, .rbp, .r12, .r13, .r14, .r15]

end X86

namespace A64

def abi : Abi port where
  arg0 := x0
  callee_saved := Reg.sp :: x19_x29

end A64

namespace Arm

def abi_v6m : Abi port_v6m where
  arg0 := r0
  callee_saved := Reg.sp :: r4_r11

def abi_v7m (fp : Bool) : Abi (port_v7m fp) where
  arg0 := r0
  callee_saved := Reg.sp :: r4_r11

end Arm

def Cpu.abi : (cpu : Cpu) → Abi cpu.port
  | .x86_64 => X86.abi
  | .aarch64 => A64.abi
  | .armv6_m => Arm.abi_v6m
  | .armv7_m fp => Arm.abi_v7m fp

/-- Where the code lies: `address rest` is that of the line after which `rest` is left. -/
structure Code (p : Port) where
  address : List (Line p.Reg) → Nat
  callee : Callee → Nat
  fits : ∀ rest, address rest < p.isa.space

/-- A function at `target` is entered, and will return to `ret`. -/
def Port.enter (p : Port) (target ret : Nat) (s : State p.isa) : State p.isa :=
  match p.ret with
  | .link lr => { s.set lr ret with pc := target }
  | .pop sp =>
    let s := s.set sp (s.regs sp + (256 ^ p.isa.bytes sp - p.isa.bytes sp))
    { s with mem := write s.mem (s.regs sp) (p.isa.bytes sp) ret, pc := target }

def Line.target (code : Code p) (s : State p.isa) : Line p.Reg → Option Nat
  | .mov _ _ => none
  | .call_reg r => some (s.regs r)
  | .call f => some (code.callee f)
  | .trap => none

/-- A function called in `s` has returned, in `s'`. -/
structure Returned (abi : Abi p) (ret : Nat) (s s' : State p.isa) : Prop where
  pc : s'.pc = ret
  kept : ∀ r ∈ abi.callee_saved, s'.regs r = s.regs r

inductive Event (p : Port) where
  /-- A function is entered. -/
  | enter (e : State p.isa)
  /-- It returned. -/
  | back (s : State p.isa)

/-- Running the lines from state `s` on can give these events: a call may not come back, or
come back with whatever the ABI lets it change. -/
inductive Enters (abi : Abi p) (code : Code p) :
    List (Line p.Reg) → State p.isa → List (Event p) → Prop where
  | mov {dst src : p.Reg} {rest : List (Line p.Reg)} {s : State p.isa} {es : List (Event p)}
    (h : Enters abi code rest { s.set dst (s.regs src) with pc := code.address rest } es) :
    Enters abi code (.mov dst src :: rest) s es
  | trap {rest : List (Line p.Reg)} {s : State p.isa} : Enters abi code (.trap :: rest) s []
  | running {l : Line p.Reg} {target : Nat} {rest : List (Line p.Reg)} {s : State p.isa}
    (h : l.target code s = some target) :
    Enters abi code (l :: rest) s [.enter (p.enter target (code.address rest) s)]
  | returned {l : Line p.Reg} {target : Nat} {rest : List (Line p.Reg)} {s s' : State p.isa}
    {es : List (Event p)} (h : l.target code s = some target)
    (hret : Returned abi (code.address rest) s s') (hes : Enters abi code rest s' es) :
    Enters abi code (l :: rest) s
      (.enter (p.enter target (code.address rest) s) :: .back s' :: es)

/-- The functions entered are as `want` says, in order, each as soon as the one before it has come
back; there is no other. -/
def Follows : List (State p.isa → Prop) → List (Event p) → Prop
  | [], es => es = []
  | P :: want, es => ∃ e, P e ∧
    (es = [.enter e] ∨ ∃ s rest, es = .enter e :: .back s :: rest ∧ Follows want rest)

variable {abi : Abi p} {code : Code p} {rest : List (Line p.Reg)} {s : State p.isa}
  {es : List (Event p)}

/-- **A call** is an entry, and then nothing, or the rest of the lines. -/
theorem Enters.call {l : Line p.Reg} {target : Nat} (h : Enters abi code (l :: rest) s es)
    (ht : l.target code s = some target) :
    es = [.enter (p.enter target (code.address rest) s)] ∨
      ∃ s' es', es = .enter (p.enter target (code.address rest) s) :: .back s' :: es' ∧
        Returned abi (code.address rest) s s' ∧ Enters abi code rest s' es' := by
  cases h with
  | mov h => exact absurd ht (by simp [Line.target])
  | trap => exact absurd ht (by simp [Line.target])
  | running h =>
      obtain rfl := Option.some.inj (h.symm.trans ht)
      exact Or.inl rfl
  | returned h hret hes =>
      obtain rfl := Option.some.inj (h.symm.trans ht)
      exact Or.inr ⟨_, _, rfl, hret, hes⟩

/-- `cfiber_switch_context` is entered in `e`, for the first time into the fiber that `c` made: what
`cfiber_init` left in the memory `m` is still there, and the old context is not on top of it. -/
structure First (b : Boot p) (c : InitCall p) (m : Mem) (e : State p.isa) : Prop where
  new_ctx : e.regs p.new_ctx = c.ctx
  old_fits : e.regs p.old_ctx + p.size ≤ p.isa.space
  old_ctx : Apart (e.regs p.old_ctx) p.size c.ctx p.size
  old_slot : Apart (e.regs p.old_ctx) p.size (b.slot c).1 (b.slot c).2
  kept : ∀ x, Within c.ctx p.size x ∨ Within (b.slot c).1 (b.slot c).2 x → e.mem x = m x

/-- What the registers carry from `cfiber_init` to the prologue. -/
structure Carries (b : Boot p) (c : InitCall p) (s : State p.isa) : Prop where
  sp : s.regs b.sp = b.top c
  func : s.regs b.func = c.func
  user_data : s.regs b.user_data = c.user_data

/-- What has to be looked up about calls on a target. -/
structure Abi.Ok (abi : Abi p) (b : Boot p) : Prop where
  kept : b.sp ∈ abi.callee_saved ∧ b.func ∈ abi.callee_saved ∧ b.user_data ∈ abi.callee_saved
  arg0 : abi.arg0 ≠ b.sp ∧ abi.arg0 ≠ b.func ∧ abi.arg0 ≠ p.ret.reg
  arg0_bytes : p.isa.bytes abi.arg0 = p.isa.bytes b.user_data
  distinct : b.sp ≠ b.func ∧ b.sp ≠ b.user_data ∧ b.sp ∉ b.fp
  link : ∀ lr, p.ret = .link lr → lr ≠ b.sp

variable {b : Boot p} {c : InitCall p} {prologue : Nat} {m : Mem} {e : State p.isa}

/-- The body of the switch loads what `cfiber_init` assigned. -/
theorem First.loaded (hp : p.Ok) (hb : b.Ok) (he : First b c m e) {r : p.Reg}
    (hr : r ∈ p.context) :
    (body p.isa p.cfiber_switch_context e).regs r = p.field m c.ctx r := by
  have hnew : e.regs p.new_ctx + p.size ≤ p.isa.space := by
    rw [he.new_ctx]
    exact c.ctx_fits
  have ht := check_sound hp.size_pos hp.checked e he.old_fits hnew
  have hin := hb.laid.inside r hr
  rw [ht.loaded _ (hb.laid.field r hr), he.new_ctx]
  unfold Port.field
  apply read_congr
  intro x hx
  have hap := he.old_ctx
  have hctx : Within c.ctx p.size x := by
    unfold Within at hx ⊢
    dsimp only at hx
    omega
  rw [ht.frame x, he.kept x (Or.inl hctx)]
  unfold Apart at hap
  unfold Within at hctx ⊢
  omega

/-- The stack as the ABI wants it where a function is entered: aligned, once a return address on it
is popped. -/
def Boot.Aligned (b : Boot p) (e : State p.isa) : Prop :=
  match p.ret with
  | .link _ => 2 ^ b.align ∣ e.regs b.sp
  | .pop sp => 2 ^ b.align ∣ e.regs b.sp + p.isa.bytes sp

/-- The function at `target` is entered, on the fiber's own stack. -/
structure Entered (b : Boot p) (c : InitCall p) (target : Nat) (e : State p.isa) : Prop where
  pc : e.pc = target
  aligned : b.Aligned e
  inside : c.stack ≤ e.regs b.sp ∧ e.regs b.sp ≤ c.stack + c.stack_size

/-- What is carried survives a call. -/
theorem Carries.returned (ha : abi.Ok b) {s' : State p.isa} {ret : Nat} (h : Carries b c s)
    (hret : Returned abi ret s s') : Carries b c s' :=
  ⟨(hret.kept _ ha.kept.1).trans h.sp, (hret.kept _ ha.kept.2.1).trans h.func,
    (hret.kept _ ha.kept.2.2).trans h.user_data⟩

/-! ## §5. The promise. -/

/-- The function is entered with its argument. -/
def Called (abi : Abi p) (b : Boot p) (c : InitCall p) (e : State p.isa) : Prop :=
  Entered b c c.func e ∧ e.regs abi.arg0 = c.user_data

/-- The lines that a prologue has after the hook. -/
def Boot.lines (b : Boot p) (abi : Abi p) : List (Line p.Reg) :=
  [.mov abi.arg0 b.user_data, .call_reg b.func, .call .cfiber_epilogue, .trap]

end CFiber.Context
