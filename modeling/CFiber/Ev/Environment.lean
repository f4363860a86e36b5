/-
  CFiber.Ev.Environment — an environment the reactor can run in.

  The development takes libc, the stack pool and the kernel as parameters and asks of them what
  their documentation promises.  Here is one of each that keeps those promises and can be run:

    • `bumpLibc`    — a libc over a bump allocator (`bumpLibc_ok`);
    • `roomyStacks` — a stack pool that never runs out;
    • `epoll`       — descriptors that refer to files, and one entry per descriptor and file.
-/
import CFiber.Memory.MultislabRun
import CFiber.Ev.Moves

namespace CFiber.Ev

open CFiber.Base CFiber.Memory

/-! ## §1. Libc. -/

/-- Addresses are handed out once, in increasing order. -/
structure BumpHeapOk (c : Nat × List Region) : Prop where
  bump : bumpOk c
  below : ∀ r ∈ c.2, r.1 < c.1
  nodup : (c.2.map Prod.fst).Nodup

def bumpLibc : Libc (Nat × List Region) where
  calloc := bump.mem_alloc
  free a c := (c.1, c.2.filter fun r => r.1 ≠ a)
  realloc n c := (decide (n < 2 ^ 62), c)

theorem bumpLibc_calloc {n : Nat} {c : Nat × List Region} {a : Nat} {c' : Nat × List Region}
    (h : bumpLibc.calloc n c = (some a, c')) :
    c' = (c.1 + (n + 63) / 64 * 64, (c.1, n) :: c.2) := by
  simp only [bumpLibc, bump] at h
  split_ifs at h with hlt
  · exact (Prod.mk.inj h).2.symm
  · simp at h

theorem bumpLibc_ok : LibcOk lp64 bumpLibc Prod.snd BumpHeapOk where
  calloc_some := by
    intro n c a c' hn hg h
    obtain ⟨hb, hperm, hfit, hapart⟩ := bump_honest.alloc_some hn hg.bump h
    refine ⟨⟨hb, ?_, ?_⟩, hperm, hfit, hapart⟩
    · rw [bumpLibc_calloc h]
      intro r hr
      rcases List.mem_cons.mp hr with rfl | hr
      · show c.1 < c.1 + (n + 63) / 64 * 64
        omega
      · have := hg.below r hr
        show r.1 < c.1 + (n + 63) / 64 * 64
        omega
    · rw [bumpLibc_calloc h]
      refine List.nodup_cons.mpr ⟨?_, hg.nodup⟩
      intro hm
      obtain ⟨r, hr, he⟩ := List.mem_map.mp hm
      have := hg.below r hr
      simp only at he
      omega
  calloc_none := by
    intro n c c' hn hg h
    simp only [bumpLibc, bump] at h
    split_ifs at h with hlt
    · simp at h
    · obtain rfl : c = c' := (Prod.mk.inj h).2
      exact ⟨hg, List.Perm.refl _⟩
  free := by
    intro a n c hg hm
    -- an address belongs to one region
    have hone : ∀ r ∈ c.2, (decide (r.1 ≠ a)) = (r != (a, n)) := by
      intro r hr
      by_cases h : r = (a, n)
      · subst h; simp
      · have hne : r.1 ≠ a := by
          intro he
          exact h (List.inj_on_of_nodup_map hg.nodup hr hm he)
        simp [h, hne]
    have hfree : bumpLibc.free a c = (c.1, c.2.erase (a, n)) := by
      show (c.1, _) = _
      rw [hg.nodup.of_map.erase_eq_filter, List.filter_congr hone]
    rw [hfree]
    have hsub := List.erase_sublist (a := (a, n)) (l := c.2)
    exact ⟨⟨⟨hg.bump.1, fun r hr => hg.bump.2 r (hsub.subset hr)⟩,
      fun r hr => hg.below r (hsub.subset hr), hg.nodup.sublist (hsub.map _)⟩, List.Perm.refl _⟩
  realloc := fun hg => ⟨hg, List.Perm.refl _⟩

/-! ## §2. Stacks. -/

/-- Stacks of four pages and a guard page; the state counts those outstanding and those made. -/
def roomyStacks : StackPool (Nat × Nat) where
  cfiber_growable_stack_alloc p :=
    (⟨some (2 ^ 63 + p.2 * 20480), 2 ^ 63 + p.2 * 20480 + 4096, 2 ^ 63 + p.2 * 20480 + 20480, 20480⟩,
      (p.1 + 1, p.2 + 1))
  cfiber_growable_stack_release _ p := (p.1 - 1, p.2)

/-! ## §3. The kernel. -/

/-- An entry of an epoll object: one per descriptor number and open file. -/
structure Entry where
  fd : Int
  file : Nat
  events : UInt32
  ptr : Option Nat
  armed : Bool
  deriving DecidableEq, Repr

/-- The descriptor table of the process and the entries of the epoll object. -/
structure Epoll where
  table : List (Int × Nat)
  entries : List Entry
  deriving DecidableEq, Repr

/-- What happens outside the reactor's control. -/
inductive Choice where
  /-- `epoll_wait` reports these entries, by descriptor and file; and the eventfd. -/
  | report (keys : List (Int × Nat)) (ctl : Bool)
  | fail (e : Errno)
  /-- `open`, or `dup2` of a descriptor of the file. -/
  | open (fd : Int) (file : Nat)
  deriving DecidableEq, Repr

namespace Epoll

/-- The open file a descriptor refers to. -/
def file (k : Epoll) (fd : Int) : Option Nat := k.table.lookup fd

def find (k : Epoll) (fd : Int) (file : Nat) : Option Entry :=
  k.entries.find? fun e => e.fd == fd && e.file == file

def drop (k : Epoll) (fd : Int) (file : Nat) : List Entry :=
  k.entries.filter fun e => !(e.fd == fd && e.file == file)

def ctl (op : CtlOp) (fd : Int) (events : UInt32) (ptr : Option Nat) (k : Epoll) :
    Option Errno × Epoll :=
  match k.file fd with
  | none => (some .EBADF, k)
  | some file =>
    match op, k.find fd file with
    | .EPOLL_CTL_ADD, some _ => (some .EEXIST, k)
    | .EPOLL_CTL_ADD, none => (none, { k with entries := ⟨fd, file, events, ptr, true⟩ :: k.entries })
    | .EPOLL_CTL_MOD, some _ =>
      (none, { k with entries := ⟨fd, file, events, ptr, true⟩ :: k.drop fd file })
    | .EPOLL_CTL_DEL, some _ => (none, { k with entries := k.drop fd file })
    | _, none => (some .ENOENT, k)

/-- A one-shot entry is disarmed when it is reported. -/
def report (k : Epoll) : List (Int × Nat) → Option (List Event × Epoll)
  | [] => some ([], k)
  | (fd, file) :: keys =>
    match k.find fd file with
    | some e =>
      if e.armed then
        ({ k with entries := { e with armed := false } :: k.drop fd file }.report keys).map
          fun (evs, k) => (⟨fd, e.ptr⟩ :: evs, k)
      else none
    | none => none

/-- The last close of a file drops its entries. -/
def close (fd : Int) (k : Epoll) : Option Errno × Epoll :=
  match k.file fd with
  | none => (some .EBADF, k)
  | some file =>
    let table := k.table.filter fun p => p.1 ≠ fd
    let entries :=
      if table.any fun p => p.2 == file then k.entries else k.entries.filter fun e => e.file ≠ file
    (none, ⟨table, entries⟩)

end Epoll

def epoll : Kernel Epoll Choice where
  epoll_ctl := Epoll.ctl
  epoll_wait
    | .report keys ctl, _, k => (k.report keys).map fun (evs, k) =>
      (.ok (if ctl then ⟨-1, none⟩ :: evs else evs), k)
    | .fail e, _, k => some (.error e, k)
    | .open _ _, _, _ => none
  close := Epoll.close
  other
    | .open fd file, k =>
      if (k.file fd).isNone then some { k with table := (fd, file) :: k.table } else none
    | _, _ => none

/-! ## §4. A fresh reactor there. -/

/-- Memory with no fiber struct in it. -/
def blank : FiberMem where
  ctx := fun _ => .entry
  fiber_stack := fun _ => 0
  fiber_stack_size := fun _ => 0
  stack := fun _ => ⟨none, 0, 0, 0⟩
  next := fun _ => none
  live_next := fun _ => none
  live_prev := fun _ => none
  state := fun _ => .FB_FREE
  park := fun _ => .PARK_FD
  wake_pending := fun _ => false
  generation := fun _ => 0
  reg_fd := fun _ => 0
  wait_fd := fun _ => 0
  timer_i := fun _ => none
  deadline_ns := fun _ => 0
  wait_status := fun _ => .READY

/-- A reactor on descriptors `3` and `4`, open on two files. -/
def start : Option (Reactor lp64 (Nat × List Region) (Nat × Nat) Epoll) :=
  cfiber_reactor_create lp64 320 blank (64, []) (0, 0) ⟨[(3, 30), (4, 40)], []⟩ 1000

theorem start_fresh {r : Reactor lp64 (Nat × List Region) (Nat × Nat) Epoll} (h : start = some r) :
    Fresh lp64 Prod.snd BumpHeapOk r :=
  ⟨320, blank, (64, []), (0, 0), _, 1000, h, fun _ => rfl,
    ⟨⟨rfl, fun _ h => absurd h List.not_mem_nil⟩, fun _ h => absurd h List.not_mem_nil,
      List.nodup_nil⟩, rfl⟩

theorem start_clock {r : Reactor lp64 (Nat × List Region) (Nat × Nat) Epoll} (h : start = some r) :
    r.clock = 1000 := by
  unfold start cfiber_reactor_create at h
  split at h
  · exact absurd h (by simp)
  · obtain rfl := Option.some.inj h
    rfl

/-- A run of a reactor in this environment. -/
def runs (as : List (Action Choice)) : Option (Sys lp64 (Nat × List Region) (Nat × Nat) Epoll) :=
  start.bind fun r => exec (step bumpLibc roomyStacks epoll) (boot r) as

theorem runs_some {as : List (Action Choice)}
    {S : Sys lp64 (Nat × List Region) (Nat × Nat) Epoll} (h : runs as = some S) :
    ∃ r, start = some r ∧ exec (step bumpLibc roomyStacks epoll) (boot r) as = some S :=
  Option.bind_eq_some_iff.mp h

end CFiber.Ev
