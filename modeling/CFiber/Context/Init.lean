/-
  CFiber.Context.Init — `cfiber_init` on each target (`fiber.c`).

  `cfiber_init` zeroes the context, assigns the fields that the first switch and `cfiber_prologue`
  rely on, and on x86_64 stores the return address on the new stack.  A target's `cfiber_init` lists
  its assignments in the order of the code; `Port.fill` carries them out.

    • `field_fill`       — a field holds what was assigned to it last;
    • `Cpu.cfiber_init_ready` — what every target's `cfiber_init` leaves in memory;
    • `Cpu.cfiber_init_stack` — and what of it is on the new stack.
-/
import Mathlib.Data.List.Induction
import CFiber.Base.Masks
import CFiber.Context.Runs

namespace CFiber.Context

open CFiber.Base

variable {p : Port}

/-! ## §1. Assignments to a context. -/

/-- `offsetof(cfiber_context_t, r)`. -/
def Port.offset (p : Port) (r : p.Reg) : Nat :=
  ((p.fields.find? fun f => decide (f.2 = r)).map Prod.fst).getD 0

/-- What the context at `ctx` has for `r`. -/
def Port.field (p : Port) (m : Mem) (ctx : Nat) (r : p.Reg) : Nat :=
  read m (ctx + p.offset r) (p.isa.bytes r)

/-- The assignments `ctx.r = v`, one after the other. -/
def Port.fill (p : Port) (ctx : Nat) (m : Mem) (vals : List (p.Reg × Nat)) : Mem :=
  vals.foldl (fun m v => write m (ctx + p.offset v.1) (p.isa.bytes v.1) v.2) m

/-- `ctx = (cfiber_context_t){0}`. -/
def Port.zeros (p : Port) : List (p.Reg × Nat) := p.context.map fun r => (r, 0)

/-- What is assigned to `r` last. -/
def assigned {R : Type} [DecidableEq R] (vals : List (R × Nat)) (r : R) : Option Nat :=
  (vals.reverse.find? fun v => decide (v.1 = r)).map Prod.snd

/-- The fields of a context lie inside it, one beside the other. -/
structure Port.Laid (p : Port) : Prop where
  field : ∀ r ∈ p.context, (p.offset r, r) ∈ p.fields
  inside : ∀ r ∈ p.context, p.offset r + p.isa.bytes r ≤ p.size
  apart : ∀ r ∈ p.context, ∀ r' ∈ p.context, r = r' ∨
    Apart (p.offset r) (p.isa.bytes r) (p.offset r') (p.isa.bytes r')

theorem assigned_append {R : Type} [DecidableEq R] (vals vals' : List (R × Nat)) (r : R) :
    assigned (vals ++ vals') r = (assigned vals' r).or (assigned vals r) := by
  unfold assigned
  rw [List.reverse_append, List.find?_append]
  cases vals'.reverse.find? fun v => decide (v.1 = r) <;> rfl

theorem assigned_none {R : Type} [DecidableEq R] {vals : List (R × Nat)} {r : R}
    (h : r ∉ vals.map Prod.fst) : assigned vals r = none := by
  unfold assigned
  rw [Option.map_eq_none_iff, List.find?_eq_none]
  intro v hv
  rw [decide_eq_true_iff]
  rintro rfl
  exact h (List.mem_map_of_mem (List.mem_reverse.mp hv))

theorem assigned_zeros {r : p.Reg} (h : r ∈ p.context) : assigned p.zeros r = some 0 := by
  have hsome : (p.zeros.reverse.find? fun v => decide (v.1 = r)).isSome = true := by
    rw [List.find?_isSome]
    refine ⟨(r, 0), List.mem_reverse.mpr (List.mem_map_of_mem h), ?_⟩
    exact decide_eq_true rfl
  obtain ⟨v, hv⟩ := Option.isSome_iff_exists.mp hsome
  obtain ⟨r', -, rfl⟩ := List.mem_map.mp (List.mem_reverse.mp (List.mem_of_find?_eq_some hv))
  unfold assigned
  rw [hv]
  rfl

/-- **A field holds what was assigned to it last.** -/
theorem field_fill (hp : p.Laid) {ctx : Nat} {vals : List (p.Reg × Nat)}
    (hvals : ∀ v ∈ vals, v.1 ∈ p.context) (m : Mem) {r : p.Reg} (hr : r ∈ p.context) :
    p.field (p.fill ctx m vals) ctx r =
      ((assigned vals r).map (· % 256 ^ p.isa.bytes r)).getD (p.field m ctx r) := by
  induction vals using List.reverseRecOn with
  | nil => rfl
  | append_singleton vals v ih =>
      have hv : v.1 ∈ p.context := hvals v (List.mem_append_right _ List.mem_cons_self)
      have ih := ih fun w hw => hvals w (List.mem_append_left _ hw)
      have hstep : p.fill ctx m (vals ++ [v]) =
          write (p.fill ctx m vals) (ctx + p.offset v.1) (p.isa.bytes v.1) v.2 := by
        unfold Port.fill
        rw [List.foldl_append]
        rfl
      rw [hstep, assigned_append]
      unfold Port.field at ih ⊢
      by_cases heq : v.1 = r
      · -- the last assignment is to this field
        subst heq
        rw [read_write]
        simp [assigned]
      · have hap := (hp.apart v.1 hv r hr).resolve_left heq
        have hother : assigned [v] r = none := by
          apply assigned_none
          simpa using fun h => heq h.symm
        rw [read_write_apart (by unfold Apart at hap ⊢; omega), ih, hother]
        rfl

/-- Assignments stay inside the context. -/
theorem fill_frame (hp : p.Laid) {ctx : Nat} {vals : List (p.Reg × Nat)}
    (hvals : ∀ v ∈ vals, v.1 ∈ p.context) (m : Mem) {x : Nat} (hx : ¬ Within ctx p.size x) :
    p.fill ctx m vals x = m x := by
  induction vals generalizing m with
  | nil => rfl
  | cons v vals ih =>
      have hin := hp.inside v.1 (hvals v List.mem_cons_self)
      show p.fill ctx (write m _ _ _) vals x = m x
      rw [ih fun w hw => hvals w (List.mem_cons_of_mem _ hw)]
      apply write_of_not_mem
      unfold Within at hx ⊢
      omega

/-! ## §2. The call. -/

/-- A call `cfiber_init(fiber, func, user_data)` that its assertions let through: `ctx` is the
address of `fiber->ctx`, `creator` the state of the machine.  The fiber does not lie on its own
stack. -/
structure InitCall (p : Port) where
  ctx : Nat
  stack : Nat
  stack_size : Nat
  func : Nat
  user_data : Nat
  creator : State p.isa
  ctx_fits : ctx + p.size ≤ p.isa.space
  stack_size_min : 256 ≤ stack_size
  no_wrap : stack + stack_size < p.isa.space
  apart : Apart stack stack_size ctx p.size
  func_fits : func < p.isa.space
  user_data_fits : user_data < p.isa.space

/-- What `cfiber_init` and `cfiber_prologue` agree on, on a target: words of `word` bits, stacks
aligned to `2 ^ align` bytes, the registers that carry what the prologue needs, and those of the
floating-point control state. -/
structure Boot (p : Port) where
  word : Nat
  align : Nat
  sp : p.Reg
  func : p.Reg
  user_data : p.Reg
  fp : List p.Reg

namespace X86

def boot : Boot port where
  word := 64
  align := 4
  sp := Reg.rsp
  func := Reg.rbx
  user_data := Reg.r12
  fp := [Reg.mxcsr, Reg.x87_cw]

/-- `prologue` is the address of `cfiber_prologue`. -/
def cfiber_init (c : InitCall port) (prologue : Nat) : Mem :=
  let stack_top := c.stack + c.stack_size
  let m := port.fill c.ctx c.creator.mem port.zeros
  let stack_ptr := stack_top &&& (2 ^ 64 - 1 - 15)
  let m := port.fill c.ctx m [(Reg.rbx, c.func), (Reg.r12, c.user_data)]
  let m := port.fill c.ctx m
    [(Reg.mxcsr, c.creator.regs Reg.mxcsr), (Reg.x87_cw, c.creator.regs Reg.x87_cw)]
  let stack_ptr := stack_ptr - 8
  let m := write m stack_ptr 8 prologue
  port.fill c.ctx m [(Reg.rsp, stack_ptr)]

end X86

namespace A64

def boot : Boot port where
  word := 64
  align := 4
  sp := Reg.sp
  func := x19
  user_data := x20
  fp := [Reg.fpcr]

def cfiber_init (c : InitCall port) (prologue : Nat) : Mem :=
  let stack_top := c.stack + c.stack_size
  let m := port.fill c.ctx c.creator.mem port.zeros
  let stack_ptr := stack_top &&& (2 ^ 64 - 1 - 15)
  let m := port.fill c.ctx m [(Reg.sp, stack_ptr)]
  let m := port.fill c.ctx m [(x19, c.func), (x20, c.user_data)]
  let m := port.fill c.ctx m [(x30, prologue)]
  port.fill c.ctx m [(Reg.fpcr, c.creator.regs Reg.fpcr)]

end A64

namespace Arm

/-- What the assignments come to; `fp` is `__ARM_FP`. -/
def assignments (fp : Bool) (stack_ptr func user_data prologue fpscr : Nat) : List (Reg × Nat) :=
  [(.sp, stack_ptr)] ++ [(r4, func), (r5, user_data)] ++ [(.lr, prologue)] ++
    if fp then [(.fpscr, fpscr)] else []

def boot_v6m : Boot port_v6m where
  word := 32
  align := 3
  sp := Reg.sp
  func := r4
  user_data := r5
  fp := []

def boot_v7m (fp : Bool) : Boot (port_v7m fp) where
  word := 32
  align := 3
  sp := Reg.sp
  func := r4
  user_data := r5
  fp := if fp then [Reg.fpscr] else []

def cfiber_init_v6m (c : InitCall port_v6m) (prologue : Nat) : Mem :=
  let stack_top := c.stack + c.stack_size
  let m := port_v6m.fill c.ctx c.creator.mem port_v6m.zeros
  let stack_ptr := stack_top &&& (2 ^ 32 - 1 - 7)
  port_v6m.fill c.ctx m
    (assignments false stack_ptr c.func c.user_data prologue (c.creator.regs Reg.fpscr))

def cfiber_init_v7m (fp : Bool) (c : InitCall (port_v7m fp)) (prologue : Nat) : Mem :=
  let stack_top := c.stack + c.stack_size
  let m := (port_v7m fp).fill c.ctx c.creator.mem (port_v7m fp).zeros
  let stack_ptr := stack_top &&& (2 ^ 32 - 1 - 7)
  (port_v7m fp).fill c.ctx m
    (assignments fp stack_ptr c.func c.user_data prologue (c.creator.regs Reg.fpscr))

end Arm

def Cpu.boot : (cpu : Cpu) → Boot cpu.port
  | .x86_64 => X86.boot
  | .aarch64 => A64.boot
  | .armv6_m => Arm.boot_v6m
  | .armv7_m fp => Arm.boot_v7m fp

def Cpu.cfiber_init : (cpu : Cpu) → InitCall cpu.port → Nat → Mem
  | .x86_64 => X86.cfiber_init
  | .aarch64 => A64.cfiber_init
  | .armv6_m => Arm.cfiber_init_v6m
  | .armv7_m fp => Arm.cfiber_init_v7m fp

/-! ## §3. What it leaves in memory. -/

/-- The top of the stack, aligned. -/
def Boot.top (b : Boot p) (c : InitCall p) : Nat := clear_low b.word b.align (c.stack + c.stack_size)

/-- The bytes of the stack that are written: those of the return address, where it lies there. -/
def Boot.slot (b : Boot p) (c : InitCall p) : Nat × Nat :=
  match p.ret with
  | .link _ => (b.top c, 0)
  | .pop sp => (b.top c - p.isa.bytes sp, p.isa.bytes sp)

/-- The registers that carry something into the new fiber. -/
def Boot.carriers (b : Boot p) : List p.Reg := b.sp :: b.func :: b.user_data :: p.ret.reg :: b.fp

/-- The fiber is ready for its first switch. -/
structure Ready (b : Boot p) (c : InitCall p) (prologue : Nat) (m : Mem) : Prop where
  sp : p.field m c.ctx b.sp = (b.slot c).1
  func : p.field m c.ctx b.func = c.func
  user_data : p.field m c.ctx b.user_data = c.user_data
  link : ∀ lr, p.ret = .link lr → p.field m c.ctx lr = prologue
  pop : ∀ sp, p.ret = .pop sp → read m (b.slot c).1 (b.slot c).2 = prologue
  fp : ∀ r ∈ b.fp, p.field m c.ctx r = c.creator.regs r
  rest : ∀ r ∈ p.context, r ∉ b.carriers → p.field m c.ctx r = 0
  frame : ∀ x, ¬ Within c.ctx p.size x → ¬ Within (b.slot c).1 (b.slot c).2 x →
    m x = c.creator.mem x

/-- What has to be looked up for a target. -/
structure Boot.Ok (b : Boot p) : Prop where
  laid : p.Laid
  space : p.isa.space = 2 ^ b.word
  align_le : b.align ≤ b.word
  align_small : 2 ^ b.align ≤ 16
  carriers : ∀ r ∈ b.carriers, r ∈ p.context
  wide : ∀ r ∈ [b.sp, b.func, b.user_data, p.ret.reg], 256 ^ p.isa.bytes r = p.isa.space
  small : ∀ sp, p.ret = .pop sp → p.isa.bytes sp ≤ 8 ∧ sp = b.sp

theorem Cpu.laid (cpu : Cpu) : cpu.port.Laid := by
  have hfield : ∀ r ∈ cpu.port.context, (cpu.port.offset r, r) ∈ cpu.port.fields := by
    cases cpu with
    | armv7_m fp => cases fp <;> decide +kernel
    | _ => decide +kernel
  have hinside : ∀ r ∈ cpu.port.context,
      cpu.port.offset r + cpu.port.isa.bytes r ≤ cpu.port.size := by
    cases cpu with
    | armv7_m fp => cases fp <;> decide +kernel
    | _ => decide +kernel
  have hapart : ∀ r ∈ cpu.port.context, ∀ r' ∈ cpu.port.context, r = r' ∨
      Apart (cpu.port.offset r) (cpu.port.isa.bytes r) (cpu.port.offset r')
        (cpu.port.isa.bytes r') := by
    cases cpu with
    | armv7_m fp => cases fp <;> decide +kernel
    | _ => decide +kernel
  exact ⟨hfield, hinside, hapart⟩

theorem Cpu.boot_ok (cpu : Cpu) : cpu.boot.Ok := by
  have hcarriers : ∀ r ∈ cpu.boot.carriers, r ∈ cpu.port.context := by
    cases cpu with
    | armv7_m fp => cases fp <;> decide +kernel
    | _ => decide +kernel
  have hwide : ∀ r ∈ [cpu.boot.sp, cpu.boot.func, cpu.boot.user_data, cpu.port.ret.reg],
      256 ^ cpu.port.isa.bytes r = cpu.port.isa.space := by
    cases cpu with
    | armv7_m fp => cases fp <;> decide +kernel
    | _ => decide +kernel
  have hsmall : ∀ sp, cpu.port.ret = .pop sp → cpu.port.isa.bytes sp ≤ 8 ∧ sp = cpu.boot.sp := by
    intro sp hsp
    cases cpu with
    | x86_64 =>
        obtain rfl := Ret.pop.inj hsp
        exact ⟨Nat.le_refl 8, rfl⟩
    | _ => exact absurd hsp (by intro h; cases h)
  have hspace : cpu.port.isa.space = 2 ^ cpu.boot.word := by cases cpu <;> rfl
  have hle : cpu.boot.align ≤ cpu.boot.word ∧ 2 ^ cpu.boot.align ≤ 16 := by
    cases cpu with
    | armv7_m fp => cases fp <;> decide
    | _ => decide
  exact ⟨cpu.laid, hspace, hle.1, hle.2, hcarriers, hwide, hsmall⟩

/-! ## §4. Every target's `cfiber_init`. -/

variable {b : Boot p} {c : InitCall p} {prologue : Nat} {m : Mem}

/-- **The aligned top** lies inside the stack, less than 16 bytes below its end. -/
theorem Boot.Ok.top_range (hb : b.Ok) (c : InitCall p) :
    b.top c ≤ c.stack + c.stack_size ∧ c.stack + c.stack_size < b.top c + 16 := by
  have hle := clear_low_le hb.align_le (hb.space ▸ c.no_wrap)
  have hlt := lt_clear_low hb.align_le (hb.space ▸ c.no_wrap)
  have hsmall := hb.align_small
  unfold Boot.top
  omega

/-- **What is written to the stack** lies inside it. -/
theorem Boot.Ok.slot_inside (hb : b.Ok) (c : InitCall p) :
    c.stack ≤ (b.slot c).1 ∧ (b.slot c).1 + (b.slot c).2 ≤ c.stack + c.stack_size := by
  have htop := hb.top_range c
  have hmin := c.stack_size_min
  unfold Boot.slot
  cases hret : p.ret with
  | link lr =>
      dsimp only
      omega
  | pop sp =>
      have hsmall := (hb.small sp hret).1
      dsimp only
      omega

theorem Boot.Ok.slot_apart (hb : b.Ok) (c : InitCall p) :
    Apart (b.slot c).1 (b.slot c).2 c.ctx p.size := by
  have hin := hb.slot_inside c
  have hap := c.apart
  unfold Apart at hap ⊢
  omega

/-- The fields after the assignments `vals` to a zeroed context. -/
theorem field_init (hp : p.Laid) {ctx : Nat} {vals : List (p.Reg × Nat)}
    (hvals : ∀ v ∈ vals, v.1 ∈ p.context) (m : Mem) {r : p.Reg} (hr : r ∈ p.context) :
    p.field (p.fill ctx (p.fill ctx m p.zeros) vals) ctx r =
      (assigned vals r).getD 0 % 256 ^ p.isa.bytes r := by
  have hzeros : ∀ v ∈ p.zeros, v.1 ∈ p.context := by
    intro v hv
    obtain ⟨r, hr, rfl⟩ := List.mem_map.mp hv
    exact hr
  rw [field_fill hp hvals _ hr, field_fill hp hzeros _ hr, assigned_zeros hr]
  cases assigned vals r with
  | none => simp
  | some v => rfl

/-- A stack that is written leaves the context as it is. -/
theorem field_write_apart (hp : p.Laid) {ctx a n v : Nat} (h : Apart a n ctx p.size) {r : p.Reg}
    (hr : r ∈ p.context) : p.field (write m a n v) ctx r = p.field m ctx r := by
  have hin := hp.inside r hr
  unfold Port.field
  apply read_write_apart
  unfold Apart at h ⊢
  omega

/-- **Ready**, from the assignments. -/
theorem Ready.of_assigned (hb : b.Ok) {vals : List (p.Reg × Nat)}
    (hvals : ∀ r ∈ p.context,
      p.field m c.ctx r = (assigned vals r).getD 0 % 256 ^ p.isa.bytes r)
    (hkeys : vals.map Prod.fst ⊆ b.carriers) (hsp : assigned vals b.sp = some (b.slot c).1)
    (hfunc : assigned vals b.func = some c.func)
    (hdata : assigned vals b.user_data = some c.user_data)
    (hlink : ∀ lr, p.ret = .link lr → assigned vals lr = some prologue)
    (hfp : ∀ r ∈ b.fp, assigned vals r = some (c.creator.regs r))
    (hprologue : prologue < p.isa.space)
    (hpop : ∀ sp, p.ret = .pop sp → read m (b.slot c).1 (b.slot c).2 = prologue)
    (hframe : ∀ x, ¬ Within c.ctx p.size x → ¬ Within (b.slot c).1 (b.slot c).2 x →
      m x = c.creator.mem x) : Ready b c prologue m := by
  have hin := hb.slot_inside c
  have hfit := c.no_wrap
  -- a register of a word holds every value below the end of the address space
  have hword : ∀ r ∈ [b.sp, b.func, b.user_data, p.ret.reg], ∀ v < p.isa.space,
      assigned vals r = some v → p.field m c.ctx r = v := by
    intro r hr v hv heq
    have hmem : r ∈ b.carriers := by
      unfold Boot.carriers
      simp only [List.mem_cons, List.not_mem_nil, or_false] at hr ⊢
      tauto
    rw [hvals r (hb.carriers r hmem), heq, hb.wide r hr]
    exact Nat.mod_eq_of_lt hv
  refine ⟨hword _ (by simp) _ (by omega) hsp, hword _ (by simp) _ c.func_fits hfunc,
    hword _ (by simp) _ c.user_data_fits hdata, ?_, hpop, ?_, ?_, hframe⟩
  · intro lr hret
    have hreg : p.ret.reg = lr := by rw [hret]; rfl
    exact hword lr (by simp [hreg]) _ hprologue (hlink lr hret)
  · intro r hr
    have hmem : r ∈ b.carriers := by
      unfold Boot.carriers
      simp only [List.mem_cons]
      tauto
    rw [hvals r (hb.carriers r hmem), hfp r hr]
    exact Nat.mod_eq_of_lt (c.creator.fits r)
  · intro r hr hno
    have hnone : assigned vals r = none := by
      apply assigned_none
      intro hmem
      obtain ⟨v, hv, rfl⟩ := List.mem_map.mp hmem
      exact hno (hkeys (List.mem_map_of_mem hv))
    rw [hvals r hr, hnone]
    exact Nat.zero_mod _

theorem zeros_frame (hp : p.Laid) (ctx : Nat) (m : Mem) {x : Nat} (hx : ¬ Within ctx p.size x) :
    p.fill ctx m p.zeros x = m x := by
  apply fill_frame hp _ m hx
  intro v hv
  obtain ⟨r, hr, rfl⟩ := List.mem_map.mp hv
  exact hr

/-- **Targets with a link register** write to the context only. -/
theorem Ready.of_link (hb : b.Ok) {lr : p.Reg} (vals : List (p.Reg × Nat))
    (hm : m = p.fill c.ctx (p.fill c.ctx c.creator.mem p.zeros) vals) (hret : p.ret = .link lr)
    (hkeys : vals.map Prod.fst ⊆ b.carriers) (hsp : assigned vals b.sp = some (b.slot c).1)
    (hfunc : assigned vals b.func = some c.func)
    (hdata : assigned vals b.user_data = some c.user_data)
    (hlink : assigned vals lr = some prologue)
    (hfp : ∀ r ∈ b.fp, assigned vals r = some (c.creator.regs r))
    (hprologue : prologue < p.isa.space) : Ready b c prologue m := by
  have hctx : ∀ v ∈ vals, v.1 ∈ p.context :=
    fun v hv => hb.carriers _ (hkeys (List.mem_map_of_mem hv))
  subst hm
  refine Ready.of_assigned hb ?_ hkeys hsp hfunc hdata ?_ hfp hprologue ?_ ?_
  · intro r hr
    exact field_init hb.laid hctx _ hr
  · intro lr' hret'
    obtain rfl := Ret.link.inj (hret.symm.trans hret')
    exact hlink
  · intro sp hpop
    rw [hret] at hpop
    exact absurd hpop (by intro h; cases h)
  · intro x hx _
    rw [fill_frame hb.laid hctx _ hx, zeros_frame hb.laid _ _ hx]

/-- **Targets that return through the stack** store the return address there, between two groups
of assignments. -/
theorem Ready.of_pop (hb : b.Ok) {sp : p.Reg} (vals vals' : List (p.Reg × Nat))
    (hm : m = p.fill c.ctx (write (p.fill c.ctx (p.fill c.ctx c.creator.mem p.zeros) vals)
      (b.slot c).1 (b.slot c).2 prologue) vals') (hret : p.ret = .pop sp)
    (hkeys : (vals ++ vals').map Prod.fst ⊆ b.carriers)
    (hsp : assigned (vals ++ vals') b.sp = some (b.slot c).1)
    (hfunc : assigned (vals ++ vals') b.func = some c.func)
    (hdata : assigned (vals ++ vals') b.user_data = some c.user_data)
    (hfp : ∀ r ∈ b.fp, assigned (vals ++ vals') r = some (c.creator.regs r))
    (hprologue : prologue < p.isa.space) : Ready b c prologue m := by
  have hctx : ∀ v ∈ vals, v.1 ∈ p.context :=
    fun v hv => hb.carriers _ (hkeys (List.mem_map_of_mem (List.mem_append_left _ hv)))
  have hctx' : ∀ v ∈ vals', v.1 ∈ p.context :=
    fun v hv => hb.carriers _ (hkeys (List.mem_map_of_mem (List.mem_append_right _ hv)))
  have hap := hb.slot_apart c
  subst hm
  refine Ready.of_assigned hb ?_ hkeys hsp hfunc hdata ?_ hfp hprologue ?_ ?_
  · -- the second pass over the context overrides the first
    intro r hr
    rw [field_fill hb.laid hctx' _ hr, field_write_apart hb.laid hap hr,
      field_init hb.laid hctx _ hr, assigned_append]
    cases assigned vals' r <;> rfl
  · intro lr hlink
    rw [hret] at hlink
    exact absurd hlink (by intro h; cases h)
  · -- the slot keeps the return address: the context lies apart from it
    intro sp' hpop
    have hlen : (b.slot c).2 = p.isa.bytes sp := by
      unfold Boot.slot
      rw [hret]
    have hword : 256 ^ p.isa.bytes sp = p.isa.space := by
      apply hb.wide
      simp [hret, Ret.reg]
    have hread : read (p.fill c.ctx (write (p.fill c.ctx (p.fill c.ctx c.creator.mem p.zeros) vals)
        (b.slot c).1 (b.slot c).2 prologue) vals') (b.slot c).1 (b.slot c).2 =
        read (write (p.fill c.ctx (p.fill c.ctx c.creator.mem p.zeros) vals)
          (b.slot c).1 (b.slot c).2 prologue) (b.slot c).1 (b.slot c).2 := by
      apply read_congr
      intro x hx
      apply fill_frame hb.laid hctx'
      unfold Apart at hap
      unfold Within at hx ⊢
      omega
    rw [hread, read_write, hlen, hword]
    exact Nat.mod_eq_of_lt hprologue
  · intro x hx hslot
    rw [fill_frame hb.laid hctx' _ hx, write_of_not_mem hslot, fill_frame hb.laid hctx _ hx,
      zeros_frame hb.laid _ _ hx]

theorem X86.cfiber_init_ready (c : InitCall X86.port) {prologue : Nat} (h : prologue < 2 ^ 64) :
    Ready X86.boot c prologue (X86.cfiber_init c prologue) := by
  apply Ready.of_pop (Cpu.boot_ok .x86_64)
    [(X86.Reg.rbx, c.func), (X86.Reg.r12, c.user_data),
      (X86.Reg.mxcsr, c.creator.regs X86.Reg.mxcsr),
      (X86.Reg.x87_cw, c.creator.regs X86.Reg.x87_cw)]
    [(X86.Reg.rsp, (X86.boot.slot c).1)] rfl rfl _ rfl rfl rfl _ h
  · show [X86.Reg.rbx, .r12, .mxcsr, .x87_cw, .rsp] ⊆
      [X86.Reg.rsp, .rbx, .r12, .rsp, .mxcsr, .x87_cw]
    decide
  · exact List.forall_mem_cons.mpr ⟨rfl, List.forall_mem_singleton.mpr rfl⟩

theorem A64.cfiber_init_ready (c : InitCall A64.port) {prologue : Nat} (h : prologue < 2 ^ 64) :
    Ready A64.boot c prologue (A64.cfiber_init c prologue) := by
  apply Ready.of_link (Cpu.boot_ok .aarch64)
    [(A64.Reg.sp, A64.boot.top c), (A64.x19, c.func), (A64.x20, c.user_data),
      (A64.x30, prologue), (A64.Reg.fpcr, c.creator.regs A64.Reg.fpcr)]
    rfl rfl _ rfl rfl rfl rfl _ h
  · show [A64.Reg.sp, A64.x19, A64.x20, A64.x30, .fpcr] ⊆
      [A64.Reg.sp, A64.x19, A64.x20, A64.x30, .fpcr]
    decide
  · exact List.forall_mem_singleton.mpr rfl

theorem Arm.cfiber_init_v6m_ready (c : InitCall Arm.port_v6m) {prologue : Nat}
    (h : prologue < 2 ^ 32) : Ready Arm.boot_v6m c prologue (Arm.cfiber_init_v6m c prologue) := by
  apply Ready.of_link (Cpu.boot_ok .armv6_m)
    (Arm.assignments false (Arm.boot_v6m.top c) c.func c.user_data prologue
      (c.creator.regs Arm.Reg.fpscr)) rfl rfl _ rfl rfl rfl rfl _ h
  · show [Arm.Reg.sp, Arm.r4, Arm.r5, .lr] ⊆ [Arm.Reg.sp, Arm.r4, Arm.r5, .lr]
    decide
  · exact fun r hr => absurd hr List.not_mem_nil

theorem Arm.cfiber_init_v7m_ready (fp : Bool) (c : InitCall (Arm.port_v7m fp)) {prologue : Nat}
    (h : prologue < 2 ^ 32) :
    Ready (Arm.boot_v7m fp) c prologue (Arm.cfiber_init_v7m fp c prologue) := by
  cases fp with
  | false =>
      apply Ready.of_link (Cpu.boot_ok (.armv7_m false))
        (Arm.assignments false ((Arm.boot_v7m false).top c) c.func c.user_data prologue
          (c.creator.regs Arm.Reg.fpscr)) rfl rfl _ rfl rfl rfl rfl _ h
      · show [Arm.Reg.sp, Arm.r4, Arm.r5, .lr] ⊆ [Arm.Reg.sp, Arm.r4, Arm.r5, .lr]
        decide
      · exact fun r hr => absurd hr List.not_mem_nil
  | true =>
      apply Ready.of_link (Cpu.boot_ok (.armv7_m true))
        (Arm.assignments true ((Arm.boot_v7m true).top c) c.func c.user_data prologue
          (c.creator.regs Arm.Reg.fpscr)) rfl rfl _ rfl rfl rfl rfl _ h
      · show [Arm.Reg.sp, Arm.r4, Arm.r5, .lr, .fpscr] ⊆ [Arm.Reg.sp, Arm.r4, Arm.r5, .lr, .fpscr]
        decide
      · exact List.forall_mem_singleton.mpr rfl

/-- **`cfiber_init`** gets the fiber ready, on every target. -/
theorem Cpu.cfiber_init_ready (cpu : Cpu) (c : InitCall cpu.port) {prologue : Nat}
    (h : prologue < cpu.port.isa.space) :
    Ready cpu.boot c prologue (cpu.cfiber_init c prologue) := by
  cases cpu with
  | x86_64 => exact X86.cfiber_init_ready c h
  | aarch64 => exact A64.cfiber_init_ready c h
  | armv6_m => exact Arm.cfiber_init_v6m_ready c h
  | armv7_m fp => exact Arm.cfiber_init_v7m_ready fp c h

/-! ## §5. What it leaves on the stack. -/

/-- The top of the stack as `cfiber_init` aligns it. -/
def Cpu.initial_top (cpu : Cpu) (stack stack_size : Nat) : Nat :=
  clear_low cpu.boot.word cpu.boot.align (stack + stack_size)

/-- The memory of the stack after `cfiber_init`: the return address, where it lies there. -/
def Cpu.init_stack (cpu : Cpu) (prologue stack stack_size : Nat) (m : Mem) : Mem :=
  match cpu.port.ret with
  | .link _ => m
  | .pop sp =>
    write m (cpu.initial_top stack stack_size - cpu.port.isa.bytes sp) (cpu.port.isa.bytes sp)
      prologue

theorem Cpu.boot_top (cpu : Cpu) (c : InitCall cpu.port) :
    cpu.boot.top c = cpu.initial_top c.stack c.stack_size := rfl

/-- **Outside the context `cfiber_init` writes what `init_stack` does.** -/
theorem Cpu.cfiber_init_stack (cpu : Cpu) (c : InitCall cpu.port) {prologue : Nat}
    (h : prologue < cpu.port.isa.space) {x : Nat} (hx : ¬ Within c.ctx cpu.port.size x) :
    cpu.cfiber_init c prologue x =
      cpu.init_stack prologue c.stack c.stack_size c.creator.mem x := by
  have hready := cpu.cfiber_init_ready c h
  have hpop := hready.pop
  have hframe := hready.frame x hx
  have hwide := cpu.boot_ok.wide cpu.port.ret.reg (by simp)
  unfold Boot.slot at hpop hframe
  unfold Cpu.init_stack
  cases hret : cpu.port.ret with
  | link lr =>
      rw [hret] at hframe
      apply hframe
      rintro ⟨hge, hlt⟩
      dsimp only at hge hlt
      omega
  | pop sp =>
      rw [hret] at hpop hframe hwide
      dsimp only at hpop hframe ⊢
      rw [cpu.boot_top] at hpop hframe
      by_cases hslot : Within (cpu.initial_top c.stack c.stack_size - cpu.port.isa.bytes sp)
          (cpu.port.isa.bytes sp) x
      · refine read_inj ?_ hslot
        rw [hpop sp rfl, read_write]
        exact (Nat.mod_eq_of_lt (hwide ▸ h)).symm
      · rw [hframe hslot]
        exact (write_of_not_mem hslot).symm

end CFiber.Context
