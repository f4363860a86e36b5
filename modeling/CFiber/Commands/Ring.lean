/-
  CFiber.Commands.Ring — the bounded command ring (`ring_init`, `ring_enqueue`, `ring_dequeue`).

  Vyukov's queue: each cell carries a sequence counter that orders producers and consumers without a
  lock.  `ring_enqueue_step` and `ring_dequeue_step` execute one atomic access each: a load, a store,
  a weak compare-exchange (which may fail spuriously), or the plain copy of the command.  Cursors and
  counters are `size_t`, here 64 bits, and wrap; the signed difference of two of them is taken in
  two's complement.

  `RingSys` runs any number of producers and one consumer over one ring.  Next to the program's own
  state it keeps a history that no step reads: the commands in the order their positions were
  claimed, the commands consumed, which positions have been published, and the unwrapped value of
  the position each producer holds.
-/
import CFiber.Base.Run
import Mathlib.Data.Nat.ModEq
import Mathlib.Logic.Function.Basic
import Mathlib.Tactic.Common

namespace CFiber.Commands

open CFiber.Base

variable {τ α : Type}

/-! ## §1. The ring. -/

/-- `cmd_ring_t` with its cells, field by field; cell `i` is `seq i`, `cmd i`. -/
structure CmdRing (α : Type) where
  seq : Nat → UInt64
  cmd : Nat → α
  mask : UInt64
  enqueue_pos : UInt64
  dequeue_pos : UInt64

/-- `pos & r->mask`. -/
def CmdRing.cell (r : CmdRing α) (pos : UInt64) : Nat := (pos &&& r.mask).toNat

/-- `(intptr_t)seq - (intptr_t)pos`. -/
def difference (seq pos : UInt64) : Int := (seq - pos).toInt64.toInt

/-- `sizeof(cmd_cell_t)`: the counter, the kind, the target and the generation. -/
def sizeof_cell : Nat := 32

/-- The loop that stores `i` into the counter of cell `i`. -/
def init_seq (cap : Nat) : Nat → UInt64 :=
  (List.range cap).foldl (fun seq i => Function.update seq i (UInt64.ofNat i)) fun _ => 0

/-- `calloc` refuses a size that overflows; `none` is the `-1` return. -/
def ring_init [Inhabited α] (cap : Nat) : Option (CmdRing α) :=
  if cap * sizeof_cell < 2 ^ 64 then
    some
      { seq := init_seq cap
        cmd := fun _ => default
        mask := UInt64.ofNat cap - 1
        enqueue_pos := 0
        dequeue_pos := 0 }
  else none

/-! ## §2. One atomic access at a time. -/

/-- Where a producer is inside `ring_enqueue`. -/
inductive Enq (α : Type) where
  | idle
  | load (cmd : α)
  | seq (cmd : α) (pos : UInt64)
  | cas (cmd : α) (pos : UInt64)
  | write (cmd : α) (pos : UInt64)
  | publish (cmd : α) (pos : UInt64)
  | ret (ok : Bool)

/-- Where the consumer is inside `ring_dequeue`. -/
inductive Deq (α : Type) where
  | idle
  | load
  | seq (pos : UInt64)
  | cas (pos : UInt64)
  | read (pos : UInt64)
  | release (pos : UInt64) (out : α)
  | ret (out : Option α)

/-- The next access of `ring_enqueue`.  A failed compare-exchange leaves the current cursor in
`pos`. -/
def ring_enqueue_step (r : CmdRing α) (spurious : Bool) : Enq α → CmdRing α × Enq α
  | .idle => (r, .idle)
  | .load cmd => (r, .seq cmd r.enqueue_pos)
  | .seq cmd pos =>
    let dif := difference (r.seq (r.cell pos)) pos
    if dif = 0 then (r, .cas cmd pos)
    else if dif < 0 then (r, .ret false)
    else (r, .load cmd)
  | .cas cmd pos =>
    if r.enqueue_pos = pos ∧ spurious = false then
      ({ r with enqueue_pos := pos + 1 }, .write cmd pos)
    else (r, .seq cmd r.enqueue_pos)
  | .write cmd pos => ({ r with cmd := Function.update r.cmd (r.cell pos) cmd }, .publish cmd pos)
  | .publish _ pos => ({ r with seq := Function.update r.seq (r.cell pos) (pos + 1) }, .ret true)
  | .ret ok => (r, .ret ok)

/-- The next access of `ring_dequeue`. -/
def ring_dequeue_step (r : CmdRing α) (spurious : Bool) : Deq α → CmdRing α × Deq α
  | .idle => (r, .idle)
  | .load => (r, .seq r.dequeue_pos)
  | .seq pos =>
    let dif := difference (r.seq (r.cell pos)) (pos + 1)
    if dif = 0 then (r, .cas pos)
    else if dif < 0 then (r, .ret none)
    else (r, .load)
  | .cas pos =>
    if r.dequeue_pos = pos ∧ spurious = false then
      ({ r with dequeue_pos := pos + 1 }, .read pos)
    else (r, .seq r.dequeue_pos)
  | .read pos => (r, .release pos (r.cmd (r.cell pos)))
  | .release pos out =>
    ({ r with seq := Function.update r.seq (r.cell pos) (pos + r.mask + 1) }, .ret (some out))
  | .ret out => (r, .ret out)

/-! ## §3. Producers and the consumer over one ring. -/

/-- The ring, the program counters of its users, and the history of the run. -/
structure RingSys (τ α : Type) where
  ring : CmdRing α
  enq : τ → Enq α
  deq : Deq α
  /-- Who claimed position `i`, and for which command. -/
  claimed : List (τ × α)
  /-- The commands whose cells the consumer has released, in order. -/
  consumed : List α
  /-- The positions whose cell has been published. -/
  published : Nat → Bool
  /-- The unwrapped position a producer holds. -/
  position : τ → Nat
  /-- The completed calls of a producer, with their results. -/
  results : τ → List (α × Bool)

/-- The state `ring_init` leaves behind. -/
def RingSys.start (ring : CmdRing α) : RingSys τ α where
  ring := ring
  enq := fun _ => .idle
  deq := .idle
  claimed := []
  consumed := []
  published := fun _ => false
  position := fun _ => 0
  results := fun _ => []

inductive RingAct (τ α : Type) where
  /-- Producer `t` calls `ring_enqueue(r, cmd)`. -/
  | call (t : τ) (cmd : α)
  | enq (t : τ) (spurious : Bool)
  /-- The consumer calls `ring_dequeue`. -/
  | poll
  | deq (spurious : Bool)

/-- A producer between two calls. -/
def Enq.resting : Enq α → Bool
  | .idle | .ret _ => true
  | _ => false

def Deq.resting : Deq α → Bool
  | .idle | .ret _ => true
  | _ => false

variable [DecidableEq τ]

/-- The history after producer `t` moved from `pc` to `pc'`. -/
def RingSys.noteEnq (s : RingSys τ α) (t : τ) : Enq α → Enq α → RingSys τ α
  | .load _, .seq _ _ => { s with position := Function.update s.position t s.claimed.length }
  | .cas _ _, .seq _ _ => { s with position := Function.update s.position t s.claimed.length }
  | .cas cmd _, .write _ _ => { s with claimed := s.claimed ++ [(t, cmd)] }
  | .seq cmd _, .ret _ =>
    { s with results := Function.update s.results t (s.results t ++ [(cmd, false)]) }
  | .publish cmd _, .ret _ =>
    { s with
      published := Function.update s.published (s.position t) true
      results := Function.update s.results t (s.results t ++ [(cmd, true)]) }
  | _, _ => s

/-- The history after the consumer moved from `pc` to `pc'`. -/
def RingSys.noteDeq (s : RingSys τ α) : Deq α → Deq α → RingSys τ α
  | .release _ out, .ret _ => { s with consumed := s.consumed ++ [out] }
  | _, _ => s

def RingSys.enqStep (s : RingSys τ α) (t : τ) (spurious : Bool) : RingSys τ α :=
  let (ring, pc) := ring_enqueue_step s.ring spurious (s.enq t)
  { s.noteEnq t (s.enq t) pc with ring := ring, enq := Function.update s.enq t pc }

def RingSys.deqStep (s : RingSys τ α) (spurious : Bool) : RingSys τ α :=
  let (ring, pc) := ring_dequeue_step s.ring spurious s.deq
  { s.noteDeq s.deq pc with ring := ring, deq := pc }

def RingSys.step (s : RingSys τ α) : RingAct τ α → Option (RingSys τ α)
  | .call t cmd =>
    if (s.enq t).resting then some { s with enq := Function.update s.enq t (.load cmd) } else none
  | .enq t spurious => if (s.enq t).resting then none else some (s.enqStep t spurious)
  | .poll => if s.deq.resting then some { s with deq := .load } else none
  | .deq spurious => if s.deq.resting then none else some (s.deqStep spurious)

end CFiber.Commands
