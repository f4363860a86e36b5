/-
  CFiber.Context.Switch — `cfiber_switch_context` on each target (`context.h`, `context_*.S`).

  Each target has its registers, the layout of its `cfiber_context_t` and its routine, instruction
  by instruction.  Registers are named as the context struct sees them: `d8` is the low half of
  `v8`, `mxcsr` and `x87_cw` are registers of four and two bytes.  Code is straight-line, and memory
  is little-endian, as on every one of these targets.

  The offsets are not repeated from the struct: `Port.fields` computes them by the rules of C, and
  `Cpu.checked` compares them with the literal offsets in the code.
-/
import CFiber.Context.Routine

namespace CFiber.Context

/-! ## §1. A target. -/

def align_to (v align : Nat) : Nat := (v + align - 1) / align * align

/-- The offsets of consecutive fields, each aligned to its size; and the end of the last. -/
def layout {R : Type} (I : Isa R) : Nat → List R → List (Nat × R) × Nat
  | o, [] => ([], o)
  | o, r :: rs =>
    let o := align_to o (I.bytes r)
    let (fields, stop) := layout I (o + I.bytes r) rs
    ((o, r) :: fields, stop)

/-- A target: `cfiber_context_t` (its fields in order and its alignment), the registers of the two
arguments, the code of `cfiber_switch_context`, and the set that docs/fibers.md lists as saved. -/
structure Port where
  Reg : Type
  [eq : DecidableEq Reg]
  isa : Isa Reg
  context : List Reg
  aligned : Nat
  old_ctx : Reg
  new_ctx : Reg
  cfiber_switch_context : List (Instr Reg)
  ret : Ret Reg
  preserved : List Reg

instance (p : Port) : DecidableEq p.Reg := p.eq

def Port.fields (p : Port) : List (Nat × p.Reg) := (layout p.isa 0 p.context).1

/-- `sizeof(cfiber_context_t)`. -/
def Port.size (p : Port) : Nat := align_to (layout p.isa 0 p.context).2 p.aligned

/-! ## §2. x86_64. -/

namespace X86

inductive Reg where
  | rax | rcx | rdx | rbx | rsp | rbp | rsi | rdi
  | r8 | r9 | r10 | r11 | r12 | r13 | r14 | r15
  | mxcsr | x87_cw
  deriving DecidableEq, Repr

def isa : Isa Reg where
  bytes
    | .mxcsr => 4
    | .x87_cw => 2
    | _ => 8
  space := 2 ^ 64

/-- `mov [base + off], src`. -/
def mov_to (base : Reg) (off : Nat) (src : Reg) : Instr Reg := .str src base off

/-- `mov dst, [base + off]`. -/
def mov_from (dst base : Reg) (off : Nat) : Instr Reg := .ldr dst base off

def stmxcsr (base : Reg) (off : Nat) : Instr Reg := .str .mxcsr base off

def ldmxcsr (base : Reg) (off : Nat) : Instr Reg := .ldr .mxcsr base off

def fnstcw (base : Reg) (off : Nat) : Instr Reg := .str .x87_cw base off

def fldcw (base : Reg) (off : Nat) : Instr Reg := .ldr .x87_cw base off

def port : Port where
  Reg := Reg
  isa := isa
  context := [.rsp, .r15, .r14, .r13, .r12, .rbx, .rbp, .mxcsr, .x87_cw]
  aligned := 16
  old_ctx := .rdi
  new_ctx := .rsi
  cfiber_switch_context :=
    [ mov_to .rdi 0x00 .rsp,
      mov_to .rdi 0x08 .r15,
      mov_to .rdi 0x10 .r14,
      mov_to .rdi 0x18 .r13,
      mov_to .rdi 0x20 .r12,
      mov_to .rdi 0x28 .rbx,
      mov_to .rdi 0x30 .rbp,
      stmxcsr .rdi 0x38,
      fnstcw .rdi 0x3c,
      mov_from .rsp .rsi 0x00,
      mov_from .r15 .rsi 0x08,
      mov_from .r14 .rsi 0x10,
      mov_from .r13 .rsi 0x18,
      mov_from .r12 .rsi 0x20,
      mov_from .rbx .rsi 0x28,
      mov_from .rbp .rsi 0x30,
      ldmxcsr .rsi 0x38,
      fldcw .rsi 0x3c ]
  ret := .pop .rsp
  preserved := [.rsp, .rbx, .rbp, .r12, .r13, .r14, .r15, .mxcsr, .x87_cw]

end X86

/-! ## §3. AArch64. -/

namespace A64

inductive Reg where
  | x (n : Fin 31)
  | sp
  | d (n : Fin 32)
  | fpcr
  deriving DecidableEq, Repr

def isa : Isa Reg where
  bytes _ := 8
  space := 2 ^ 64

def mrs_fpcr (dst : Reg) : Instr Reg := .mov dst .fpcr

def msr_fpcr (src : Reg) : Instr Reg := .mov .fpcr src

def port : Port where
  Reg := Reg
  isa := isa
  context :=
    [ .sp, .x 19, .x 20, .x 21, .x 22, .x 23, .x 24, .x 25, .x 26, .x 27, .x 28, .x 29, .x 30,
      .d 8, .d 9, .d 10, .d 11, .d 12, .d 13, .d 14, .d 15, .fpcr ]
  aligned := 16
  old_ctx := .x 0
  new_ctx := .x 1
  cfiber_switch_context :=
    [ .str (.x 29) (.x 0) 88,
      .str (.x 30) (.x 0) 96,
      .mov (.x 2) .sp,
      .str (.x 2) (.x 0) 0,
      .stp (.x 19) (.x 20) (.x 0) 8,
      .stp (.x 21) (.x 22) (.x 0) 24,
      .stp (.x 23) (.x 24) (.x 0) 40,
      .stp (.x 25) (.x 26) (.x 0) 56,
      .stp (.x 27) (.x 28) (.x 0) 72,
      .stp (.d 8) (.d 9) (.x 0) 104,
      .stp (.d 10) (.d 11) (.x 0) 120,
      .stp (.d 12) (.d 13) (.x 0) 136,
      .stp (.d 14) (.d 15) (.x 0) 152,
      mrs_fpcr (.x 2),
      .str (.x 2) (.x 0) 168,
      .ldr (.x 2) (.x 1) 0,
      .mov .sp (.x 2),
      .ldp (.x 19) (.x 20) (.x 1) 8,
      .ldp (.x 21) (.x 22) (.x 1) 24,
      .ldp (.x 23) (.x 24) (.x 1) 40,
      .ldp (.x 25) (.x 26) (.x 1) 56,
      .ldp (.x 27) (.x 28) (.x 1) 72,
      .ldp (.d 8) (.d 9) (.x 1) 104,
      .ldp (.d 10) (.d 11) (.x 1) 120,
      .ldp (.d 12) (.d 13) (.x 1) 136,
      .ldp (.d 14) (.d 15) (.x 1) 152,
      .ldr (.x 2) (.x 1) 168,
      msr_fpcr (.x 2),
      .ldr (.x 29) (.x 1) 88,
      .ldr (.x 30) (.x 1) 96 ]
  ret := .link (.x 30)
  preserved :=
    [ .sp, .x 19, .x 20, .x 21, .x 22, .x 23, .x 24, .x 25, .x 26, .x 27, .x 28, .x 29, .x 30,
      .d 8, .d 9, .d 10, .d 11, .d 12, .d 13, .d 14, .d 15, .fpcr ]

/-! The registers of a call, by name. -/

def x0 : Reg := .x 0
def x19 : Reg := .x 19
def x20 : Reg := .x 20
def x30 : Reg := .x 30

/-- `x19` to `x29`. -/
def x19_x29 : List Reg :=
  [.x 19, .x 20, .x 21, .x 22, .x 23, .x 24, .x 25, .x 26, .x 27, .x 28, .x 29]

end A64

/-! ## §4. ARM Cortex-M. -/

namespace Arm

inductive Reg where
  | r (n : Fin 13)
  | sp
  | lr
  | s (n : Fin 32)
  | fpscr
  deriving DecidableEq, Repr

def isa : Isa Reg where
  bytes _ := 4
  space := 2 ^ 32

/-- `r4` to `r11`. -/
def r4_r11 : List Reg := [.r 4, .r 5, .r 6, .r 7, .r 8, .r 9, .r 10, .r 11]

/-- `s16` to `s31`. -/
def s16_s31 : List Reg :=
  [ .s 16, .s 17, .s 18, .s 19, .s 20, .s 21, .s 22, .s 23,
    .s 24, .s 25, .s 26, .s 27, .s 28, .s 29, .s 30, .s 31 ]

def vmrs_fpscr (dst : Reg) : Instr Reg := .mov dst .fpscr

def vmsr_fpscr (src : Reg) : Instr Reg := .mov .fpscr src

/-- ARMv6-M. -/
def port_v6m : Port where
  Reg := Reg
  isa := isa
  context := .sp :: r4_r11 ++ [.lr]
  aligned := 8
  old_ctx := .r 0
  new_ctx := .r 1
  cfiber_switch_context :=
    [ .mov (.r 2) .sp,
      .str (.r 2) (.r 0) 0,
      .str (.r 4) (.r 0) 4,
      .str (.r 5) (.r 0) 8,
      .str (.r 6) (.r 0) 12,
      .str (.r 7) (.r 0) 16,
      .mov (.r 2) (.r 8),
      .str (.r 2) (.r 0) 20,
      .mov (.r 2) (.r 9),
      .str (.r 2) (.r 0) 24,
      .mov (.r 2) (.r 10),
      .str (.r 2) (.r 0) 28,
      .mov (.r 2) (.r 11),
      .str (.r 2) (.r 0) 32,
      .mov (.r 2) .lr,
      .str (.r 2) (.r 0) 36,
      .ldr (.r 2) (.r 1) 0,
      .mov .sp (.r 2),
      .ldr (.r 4) (.r 1) 4,
      .ldr (.r 5) (.r 1) 8,
      .ldr (.r 6) (.r 1) 12,
      .ldr (.r 7) (.r 1) 16,
      .ldr (.r 2) (.r 1) 20,
      .mov (.r 8) (.r 2),
      .ldr (.r 2) (.r 1) 24,
      .mov (.r 9) (.r 2),
      .ldr (.r 2) (.r 1) 28,
      .mov (.r 10) (.r 2),
      .ldr (.r 2) (.r 1) 32,
      .mov (.r 11) (.r 2),
      .ldr (.r 2) (.r 1) 36,
      .mov .lr (.r 2) ]
  ret := .link .lr
  preserved := .sp :: r4_r11 ++ [.lr]

/-- ARMv7-M; `fp` is `__ARM_FP`. -/
def port_v7m (fp : Bool) : Port where
  Reg := Reg
  isa := isa
  context := .sp :: r4_r11 ++ [.lr] ++ if fp then s16_s31 ++ [.fpscr] else []
  aligned := 8
  old_ctx := .r 0
  new_ctx := .r 1
  cfiber_switch_context :=
    [ .mov (.r 2) .sp,
      .str_post (.r 2) (.r 0) 4,
      .stmia (.r 0) r4_r11,
      .str_post .lr (.r 0) 4 ] ++
    (if fp then
      [ .stmia (.r 0) s16_s31,
        vmrs_fpscr (.r 2),
        .str_post (.r 2) (.r 0) 4 ]
    else []) ++
    [ .ldr_post (.r 2) (.r 1) 4,
      .mov .sp (.r 2),
      .ldmia (.r 1) r4_r11,
      .ldr_post .lr (.r 1) 4 ] ++
    if fp then
      [ .ldmia (.r 1) s16_s31,
        .ldr_post (.r 2) (.r 1) 4,
        vmsr_fpscr (.r 2) ]
    else []
  ret := .link .lr
  preserved := .sp :: r4_r11 ++ [.lr] ++ if fp then s16_s31 ++ [.fpscr] else []

/-! The registers of a call, by name. -/

def r0 : Reg := .r 0
def r4 : Reg := .r 4
def r5 : Reg := .r 5

end Arm

/-! ## §5. The targets, checked. -/

inductive Cpu where
  | x86_64
  | aarch64
  | armv6_m
  | armv7_m (fp : Bool)
  deriving DecidableEq, Repr

def Cpu.port : Cpu → Port
  | .x86_64 => X86.port
  | .aarch64 => A64.port
  | .armv6_m => Arm.port_v6m
  | .armv7_m fp => Arm.port_v7m fp

/-- The register in which the code finds its return address, or the stack pointer under which it
lies. -/
def Ret.reg {R : Type} : Ret R → R
  | .link lr => lr
  | .pop sp => sp

/-- **The code agrees with the layout**: every field is saved and loaded at its offset, and the
fields are the preserved set, with the register that leads to the return address. -/
theorem Cpu.checked (cpu : Cpu) :
    check cpu.port.isa cpu.port.size cpu.port.old_ctx cpu.port.new_ctx cpu.port.fields
      cpu.port.cfiber_switch_context = true := by
  cases cpu with
  | x86_64 => decide +kernel
  | aarch64 => decide +kernel
  | armv6_m => decide +kernel
  | armv7_m fp => cases fp <;> decide +kernel

end CFiber.Context
