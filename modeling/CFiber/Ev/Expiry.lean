/-
  CFiber.Ev.Expiry — `fire_expired_timers`.

  The loop removes the root of the heap as long as its deadline has passed.  `Expires` says what
  that comes to: the fibers whose deadline has passed, and no others, become READY with `TIMEOUT`,
  in the order of their deadlines (`fire_expired_spec`).
-/
import CFiber.Ev.Rounds

namespace CFiber.Ev

open CFiber.Base CFiber.Memory

variable {T : Target} {γ σ κ δ : Type}
variable {L : Libc γ} {P : StackPool σ} {K : Kernel κ δ}
variable {out : γ → List Region} {good : γ → Prop}

/-! ## §1. The function. -/

/-- The `while` of `fire_expired_timers`, in at most `fuel` turns. -/
def fire_expired_loop (K : Kernel κ δ) (now : UInt64) : (fuel : Nat) → Reactor T γ σ κ → Reactor T γ σ κ
  | 0, s => s
  | fuel + 1, s => if expired s now then fire_expired_loop K now fuel (fire_timer K s) else s

/-- `fire_expired_timers`, when the clock reads `now`.  A turn removes a member of the heap. -/
def fire_expired_timers (K : Kernel κ δ) (now : UInt64) (s : Reactor T γ σ κ) : Reactor T γ σ κ :=
  fire_expired_loop K now s.heap_len s

/-- The fibers `fired` were resumed because of their deadlines; `q` is the queue before. -/
structure Expires (s s' : Reactor T γ σ κ) (now : UInt64) (q fired : List Nat) : Prop where
  exactly : ∀ f, f ∈ fired ↔
    s.mem.state f = .FB_PARKED ∧ ∃ d, (view s f).deadline = some d ∧ d ≤ now
  once : fired.Nodup
  order : fired.Pairwise fun f g => s.mem.deadline_ns f ≤ s.mem.deadline_ns g
  queue : Fifo s'.mem.next s'.ready_head s'.ready_tail (q ++ fired)
  timeout : ∀ f ∈ fired, view s' f = (view s f).woken .TIMEOUT
  others : ∀ f, f ∉ fired → view s' f = view s f ∧ s'.mem.deadline_ns f = s.mem.deadline_ns f ∧
    (InHeap s' f ↔ InHeap s f)

/-! ## §2. Deadlines and the heap. -/

section
variable {s : Reactor T γ σ κ} {l q : List Nat} {now : UInt64} {f : Nat}

/-- A parked fiber has a deadline exactly if it is in the heap. -/
theorem Core.deadline_iff (h : Core s l q) (d : UInt64) :
    (s.mem.state f = .FB_PARKED ∧ (view s f).deadline = some d) ↔
      InHeap s f ∧ s.mem.deadline_ns f = d := by
  constructor
  · rintro ⟨hst, hd⟩
    obtain ⟨i, hi, hd⟩ := Option.map_eq_some_iff.mp hd
    exact ⟨h.timed.slotted f (h.mem_live (by rw [hst]; simp)) i hi, hd⟩
  · rintro ⟨hin, hd⟩
    obtain ⟨i, -, hi, -⟩ := Indexed.slot h.timed.index hin
    refine ⟨h.timed.parked f hin, ?_⟩
    show (s.mem.timer_i f).map _ = _
    rw [hi, ← hd]
    rfl

theorem Core.due_iff (h : Core s l q) :
    (s.mem.state f = .FB_PARKED ∧ ∃ d, (view s f).deadline = some d ∧ d ≤ now) ↔
      InHeap s f ∧ s.mem.deadline_ns f ≤ now := by
  constructor
  · rintro ⟨hst, d, hd, hle⟩
    obtain ⟨hin, rfl⟩ := (h.deadline_iff d).mp ⟨hst, hd⟩
    exact ⟨hin, hle⟩
  · rintro ⟨hin, hle⟩
    obtain ⟨hst, hd⟩ := (h.deadline_iff _).mpr ⟨hin, rfl⟩
    exact ⟨hst, _, hd, hle⟩

/-- The root has the least deadline. -/
theorem Core.root_le (h : Core s l q) (hin : InHeap s f) :
    s.mem.deadline_ns (s.heap 0) ≤ s.mem.deadline_ns f := by
  obtain ⟨i, hi, rfl⟩ := hin
  exact UInt64.le_iff_toNat_le.mpr (h.timed.order.root_le i hi)

theorem expired_iff : expired s now = true ↔
    0 < s.heap_len ∧ s.mem.deadline_ns (s.heap 0) ≤ now := by
  simp [expired]

/-! ## §3. What the loop does. -/

/-- **Nothing is due**, so nothing is fired. -/
theorem Core.expires_none (h : Core s l q) (hexp : expired s now = false) :
    Expires s s now q [] := by
  refine ⟨?_, List.nodup_nil, List.Pairwise.nil, ?_, nofun, fun f _ => ⟨rfl, rfl, Iff.rfl⟩⟩
  · intro f
    rw [h.due_iff]
    constructor
    · exact nofun
    · rintro ⟨hin, hd⟩
      -- then the root would be due
      have hpos : 0 < s.heap_len := by
        obtain ⟨i, hi, -⟩ := hin
        omega
      rw [expired_iff.mpr ⟨hpos, UInt64.le_trans (h.root_le hin) hd⟩] at hexp
      exact absurd hexp (by simp)
  · rw [List.append_nil]
    exact h.roster.queue

/-- **The root is due**: it is the first that is fired, and the rest follows. -/
theorem Expires.cons {s₁ s' : Reactor T γ σ κ} {fired : List Nat} (h : Core s l q)
    (hexp : expired s now = true) (hwoke : Woke s s₁ (s.heap 0) .TIMEOUT l q)
    (hpop : Popped s s₁ (s.heap 0)) (he : Expires s₁ s' now (q ++ [s.heap 0]) fired) :
    Expires s s' now q (s.heap 0 :: fired) := by
  obtain ⟨hpos, hle⟩ := expired_iff.mp hexp
  have hroot : InHeap s (s.heap 0) := ⟨0, hpos, rfl⟩
  have hself : view s₁ (s.heap 0) = (view s (s.heap 0)).woken .TIMEOUT := by
    rw [hwoke.view, Function.update_self]
  have hrest : ∀ g, g ≠ s.heap 0 → view s₁ g = view s g := by
    intro g hg
    rw [hwoke.view, Function.update_of_ne hg]
  -- the root is not due again
  have hnot : s.heap 0 ∉ fired := by
    intro hm
    have hp : (view s₁ (s.heap 0)).state = .FB_PARKED := ((he.exactly _).mp hm).1
    rw [hself] at hp
    exact absurd hp (by simp [FiberView.woken])
  have hdue : ∀ g, g ∈ fired ↔ (InHeap s g ∧ g ≠ s.heap 0) ∧ s.mem.deadline_ns g ≤ now := by
    intro g
    rw [he.exactly, hwoke.core.due_iff, hpop.members, hpop.deadline_ns]
  constructor
  case exactly =>
    intro g
    rw [h.due_iff, List.mem_cons, hdue]
    constructor
    · rintro (rfl | ⟨⟨hin, -⟩, hd⟩)
      · exact ⟨hroot, hle⟩
      · exact ⟨hin, hd⟩
    · rintro ⟨hin, hd⟩
      by_cases hg : g = s.heap 0
      · exact Or.inl hg
      · exact Or.inr ⟨⟨hin, hg⟩, hd⟩
  case once => exact List.nodup_cons.mpr ⟨hnot, he.once⟩
  case order =>
    refine List.pairwise_cons.mpr ⟨?_, ?_⟩
    · intro g hg
      exact h.root_le ((hdue g).mp hg).1.1
    · have horder := he.order
      rwa [hpop.deadline_ns] at horder
  case queue =>
    have hqueue := he.queue
    rwa [List.append_assoc] at hqueue
  case timeout =>
    intro g hg
    rcases List.mem_cons.mp hg with rfl | hg
    · rw [(he.others _ hnot).1, hself]
    · have hne : g ≠ s.heap 0 := fun e => hnot (e ▸ hg)
      rw [he.timeout g hg, hrest g hne]
  case others =>
    intro g hg
    have hne : g ≠ s.heap 0 := fun e => hg (e ▸ List.mem_cons_self)
    obtain ⟨hv, hd, hin⟩ := he.others g fun hm => hg (List.mem_cons_of_mem _ hm)
    refine ⟨hv.trans (hrest g hne), ?_, ?_⟩
    · rw [hd, hpop.deadline_ns]
    · rw [hin, hpop.members]
      exact and_iff_left hne

/-- **The loop**, by induction on the turns: the root is due, or nothing is. -/
theorem fire_expired_loop_spec (K : Kernel κ δ) (now : UInt64) :
    ∀ (n : Nat) {s : Reactor T γ σ κ} {q : List Nat}, Core s l q → s.heap_len ≤ n →
      ∃ fired, Expires s (fire_expired_loop K now n s) now q fired ∧
        Core (fire_expired_loop K now n s) l (q ++ fired) ∧
        expired (fire_expired_loop K now n s) now = false := by
  intro n
  induction n with
  | zero =>
      intro s q h hlen
      have hempty : s.heap_len = 0 := by omega
      have hexp : expired s now = false := by simp [expired, hempty]
      refine ⟨[], h.expires_none hexp, ?_, hexp⟩
      rw [List.append_nil]
      exact h
  | succ n ih =>
      intro s q h hlen
      unfold fire_expired_loop
      by_cases hexp : expired s now = true
      · rw [if_pos hexp]
        obtain ⟨-, hwoke, -, -, hpop⟩ := fire_timer_spec K h (expired_iff.mp hexp).1
        obtain ⟨fired, he, hcore, hdone⟩ := ih hwoke.core (by have := hpop.len; omega)
        refine ⟨s.heap 0 :: fired, he.cons h hexp hwoke hpop, ?_, hdone⟩
        rwa [List.append_assoc] at hcore
      · rw [if_neg hexp]
        have hexp : expired s now = false := by simpa using hexp
        refine ⟨[], h.expires_none hexp, ?_, hexp⟩
        rw [List.append_nil]
        exact h

/-- The function is what the loop thread does, one turn a step. -/
theorem exec_fire_expired {S : Sys T γ σ κ} (hpc : S.pc = .timers now) (n : Nat)
    (h : expired (fire_expired_loop K now n S.r) now = false) :
    ∃ k, exec (step L P K) S (List.replicate k .turn) =
      some { S with r := fire_expired_loop K now n S.r, pc := .head } := by
  induction n generalizing S with
  | zero =>
      refine ⟨1, ?_⟩
      have hs : step L P K S (.turn : Action δ) = some { S with pc := .head } := by
        have h' : expired S.r now = false := h
        simp [step, turn, hpc, h']
      exact exec_cons.mpr ⟨_, hs, rfl⟩
  | succ n ih =>
      unfold fire_expired_loop at h ⊢
      by_cases hexp : expired S.r now = true
      · rw [if_pos hexp] at h ⊢
        have hs : step L P K S (.turn : Action δ) = some { S with r := fire_timer K S.r } := by
          simp [step, turn, hpc, hexp]
        obtain ⟨k, hk⟩ := ih (S := { S with r := fire_timer K S.r }) hpc h
        exact ⟨k + 1, exec_cons.mpr ⟨_, hs, hk⟩⟩
      · rw [if_neg hexp] at h ⊢
        have hs : step L P K S (.turn : Action δ) = some { S with pc := .head } := by
          simp [step, turn, hpc, hexp]
        exact ⟨1, exec_cons.mpr ⟨_, hs, rfl⟩⟩

end

/-- **Timers fire exactly and in order**, in every reachable state and for every clock value; a
deadline that never comes does not fire before the end of time. -/
theorem fire_expired_timers_exact (H : LibcOk T L out good) {r : Reactor T γ σ κ}
    (hr : Fresh T out good r) {as : List (Action δ)} {S : Sys T γ σ κ}
    (h : exec (step L P K) (boot r) as = some S) (now : UInt64) :
    ∃ q fired, Fifo S.r.mem.next S.r.ready_head S.r.ready_tail q ∧
      Expires S.r (fire_expired_timers K now S.r) now q fired ∧
      (∀ f, (view S.r f).deadline = some NO_DEADLINE → now < NO_DEADLINE → f ∉ fired) ∧
      (S.pc = .timers now → ∃ n, exec (step L P K) S (List.replicate n .turn) =
        some { S with r := fire_expired_timers K now S.r, pc := .head }) := by
  obtain ⟨q, hok⟩ := exec_ok H (boot_ok hr) h
  obtain ⟨fired, he, -, hdone⟩ := fire_expired_loop_spec K now S.r.heap_len hok.core (Nat.le_refl _)
  refine ⟨q, fired, hok.core.roster.queue, he, ?_, fun hpc => exec_fire_expired hpc _ hdone⟩
  intro f hd hnow hm
  obtain ⟨-, d, hd', hle⟩ := (he.exactly f).mp hm
  obtain rfl : NO_DEADLINE = d := Option.some.inj (hd.symm.trans hd')
  exact absurd (UInt64.lt_of_lt_of_le hnow hle) (UInt64.lt_irrefl _)

/-- Two sleepers, with deadlines 1007 and 1003, at 1004. -/
theorem fire_expired_timers_exact_epoll : ∃ r S, start = some r ∧
    exec (step bumpLibc roomyStacks epoll) (boot r)
      [.spawn, .spawn, .run, .turn, .turn, .sleep 7, .turn, .turn, .sleep 3, .turn, .turn] = some S ∧
    ∃ q fired, Fifo S.r.mem.next S.r.ready_head S.r.ready_tail q ∧
      Expires S.r (fire_expired_timers epoll 1004 S.r) 1004 q fired := by
  have hsome : (runs [.spawn, .spawn, .run, .turn, .turn, .sleep 7, .turn, .turn, .sleep 3, .turn,
      .turn]).isSome = true := by decide +kernel
  obtain ⟨S, hS⟩ := Option.isSome_iff_exists.mp hsome
  obtain ⟨r, hr, hrun⟩ := runs_some hS
  obtain ⟨q, fired, hq, he, -⟩ := fire_expired_timers_exact bumpLibc_ok (start_fresh hr) hrun 1004
  exact ⟨r, S, hr, hrun, q, fired, hq, he⟩

end CFiber.Ev
