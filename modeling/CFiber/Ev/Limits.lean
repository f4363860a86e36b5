/-
  CFiber.Ev.Limits — the arithmetic of deadlines, up to the ends of its types.

  Deadlines are unsigned 64-bit nanoseconds with a value that never comes; the timeouts of the calls
  are signed 64-bit, those of `epoll_wait` signed 32-bit milliseconds.  The three conversions are
  compared with the same sums over the integers:

    • `deadline_after_toNat` — addition, cut off at the deadline that never comes;
    • `remaining_left`       — subtraction, cut off at `INT64_MAX`;
    • `next_timeout_millis`  — rounding up to a millisecond, cut off at `INT32_MAX`.

  The deadline the loop sleeps for is the earliest any parked fiber waits for (`Core.earliest`).
-/
import CFiber.Ev.Timeouts
import Mathlib.Order.Bounds.Defs

namespace CFiber.Ev

open CFiber.Base CFiber.Memory

variable {T : Target} {γ σ κ δ : Type}
variable {L : Libc γ} {P : StackPool σ} {K : Kernel κ δ}
variable {out : γ → List Region} {good : γ → Prop}

/-! ## §1. What the results stand for. -/

/-- `r` is the time from `now` to the deadline `d`. -/
structure Left (now d : UInt64) (r : Int64) : Prop where
  never : r = -1 ↔ d = NO_DEADLINE
  passed : r = 0 ↔ d ≤ now
  ahead : d ≠ NO_DEADLINE → now < d → 0 < r.toInt ∧
    (now.toNat + r.toInt = d.toNat ∨ r = INT64_MAX ∧ now.toNat + r.toInt < d.toNat)

/-- `t` is a sleep of whole milliseconds that begins at `now` and is over in the millisecond of the
`earliest` deadline; `-1` is a sleep without end. -/
structure Millis (now : UInt64) (earliest : Option UInt64) (t : Int32) : Prop where
  never : t = -1 ↔ earliest = none
  passed : t = 0 ↔ ∃ d, earliest = some d ∧ d ≤ now
  ahead : ∀ d, earliest = some d → now < d → 1 ≤ t.toInt ∧ t.toInt ≤ 2 ^ 31 - 1 ∧
    (t = INT32_MAX ∨ (d.toNat : Int) ≤ now.toNat + t.toInt * 1000000) ∧
    now.toNat + (t.toInt - 1) * 1000000 < d.toNat

/-- The deadline at the root of the heap. -/
def earliest (s : Reactor T γ σ κ) : Option UInt64 :=
  if s.heap_len = 0 then none else some (s.mem.deadline_ns (s.heap 0))

/-- The deadlines that parked fibers wait for. -/
def awaited (s : Reactor T γ σ κ) : Set UInt64 :=
  {d | ∃ f, s.mem.state f = .FB_PARKED ∧ (view s f).deadline = some d}

/-- The loop sleeps `ms` milliseconds: without end only if no deadline is waited for, not at all only
if one has passed, never a full millisecond past one, and then one has been reached. -/
structure Sleeps (s : Reactor T γ σ κ) (ms : Int) : Prop where
  endless : ms = -1 ↔ awaited s = ∅
  awake : ms = 0 ↔ ∃ d ∈ awaited s, d ≤ s.clock
  punctual : ∀ d ∈ awaited s, s.clock < d → s.clock.toNat + ms * 1000000 < d.toNat + 1000000
  enough : 0 < ms → ms = 2 ^ 31 - 1 ∨ ∃ d ∈ awaited s, (d.toNat : Int) ≤ s.clock.toNat + ms * 1000000

/-! ## §2. The conversions. -/

section
variable {s : Reactor T γ σ κ}

/-- The clock has not reached a deadline that never comes. -/
theorem Early.lt_never (h : Early s.clock) : s.clock < NO_DEADLINE := by
  rw [UInt64.lt_iff_toNat_lt, NO_DEADLINE_toNat]
  exact h

/-- **The time left**: nothing wraps, and only a time beyond `INT64_MAX` is cut off. -/
theorem remaining_left (h : Early s.clock) (d : UInt64) : Left s.clock d (remaining_ns s d) := by
  have hr := remaining_ns_toInt s d
  have hle : d ≤ s.clock ↔ d.toNat ≤ s.clock.toNat := UInt64.le_iff_toNat_le
  have hmax : INT64_MAX.toInt = 2 ^ 63 - 1 := rfl
  have hneg : (-1 : Int64).toInt = -1 := rfl
  have hzero : (0 : Int64).toInt = 0 := rfl
  have hnever := h.lt_never
  by_cases hd : d = NO_DEADLINE
  · rw [if_pos hd] at hr
    refine ⟨iff_of_true ?_ hd, iff_of_false ?_ ?_, fun hne => absurd hd hne⟩
    · rw [← Int64.toInt_inj, hr, hneg]
    · rw [← Int64.toInt_inj, hr, hzero]
      decide
    · rw [hd]
      exact UInt64.not_le.mpr hnever
  · rw [if_neg hd] at hr
    refine ⟨iff_of_false ?_ hd, ?_, ?_⟩
    · rw [← Int64.toInt_inj, hr, hneg]
      omega
    · rw [← Int64.toInt_inj, hr, hzero, hle]
      omega
    · intro _ hlt
      rw [UInt64.lt_iff_toNat_lt] at hlt
      rw [← Int64.toInt_inj, hr, hmax]
      omega

/-- **There and back**: at an unchanged clock a timeout is what is left of the deadline made of it. -/
theorem remaining_deadline {t : Int64} (h : 0 ≤ t) (hsum : s.clock.toNat + t.toInt < 2 ^ 64 - 1) :
    remaining_ns s (deadline_after_opt s t) = t := by
  have ht : 0 ≤ t.toInt := Int64.nonneg_iff.mp h
  have hmax : t.toInt ≤ 2 ^ 63 - 1 := Int64.toInt_le t
  have hd := deadline_after_toNat s t.toUInt64
  rw [toUInt64_toNat h] at hd
  have hfinite : deadline_after s t.toUInt64 ≠ NO_DEADLINE := by
    intro he
    rw [he, NO_DEADLINE_toNat] at hd
    omega
  unfold deadline_after_opt
  rw [if_neg (Int64.not_lt.mpr h), ← Int64.toInt_inj, remaining_ns_toInt, if_neg hfinite, hd]
  omega

/-- **Rounding up** does not wrap, and `int` has room for the result. -/
theorem round_up_toInt (left : UInt64) (h : left.toNat < (2 ^ 31 - 1) * 1000000) :
    ((left + 999999) / 1000000).toUInt32.toInt32.toInt = ((left.toNat + 999999) / 1000000 : Nat) := by
  have hsum : (left + 999999).toNat = left.toNat + 999999 := by
    have h9 : (999999 : UInt64).toNat = 999999 := rfl
    rw [UInt64.toNat_add, h9]
    omega
  have hdiv : ((left + 999999) / 1000000).toUInt32.toNat = (left.toNat + 999999) / 1000000 := by
    have h10 : (1000000 : UInt64).toNat = 1000000 := rfl
    rw [UInt64.toNat_toUInt32, UInt64.toNat_div, hsum, h10]
    omega
  rw [← hdiv]
  apply BitVec.toInt_eq_toNat_of_lt
  show 2 * ((left + 999999) / 1000000).toUInt32.toNat < 2 ^ 32
  omega

/-- A sleep for a deadline that has not passed. -/
theorem Millis.of_ahead {now d : UInt64} {t : Int32} (hlt : now < d) (hpos : 1 ≤ t.toInt)
    (hreach : t = INT32_MAX ∨ (d.toNat : Int) ≤ now.toNat + t.toInt * 1000000)
    (hshort : now.toNat + (t.toInt - 1) * 1000000 < d.toNat) : Millis now (some d) t := by
  have hneg : (-1 : Int32).toInt = -1 := rfl
  have hzero : (0 : Int32).toInt = 0 := rfl
  have hmax : t.toInt ≤ 2 ^ 31 - 1 := Int32.toInt_le t
  refine ⟨iff_of_false ?_ (by simp), iff_of_false ?_ ?_, ?_⟩
  · rw [← Int32.toInt_inj, hneg]
    omega
  · rw [← Int32.toInt_inj, hzero]
    omega
  · rintro ⟨d', hd', hle⟩
    obtain rfl := Option.some.inj hd'
    exact UInt64.not_lt.mpr hle hlt
  · intro d' hd' _
    obtain rfl := Option.some.inj hd'
    exact ⟨hpos, hmax, hreach, hshort⟩

/-- **The timeout of the poll**, by cases on the earliest deadline: there is none, it has passed, it
is too far away for an `int`, or it is within reach. -/
theorem next_timeout_millis (s : Reactor T γ σ κ) :
    Millis s.clock (earliest s) (next_timeout_ms s) := by
  unfold next_timeout_ms earliest
  by_cases hlen : s.heap_len = 0
  · rw [if_pos hlen, if_pos hlen]
    refine ⟨iff_of_true rfl rfl, iff_of_false (by decide) ?_, nofun⟩
    rintro ⟨d, hd, -⟩
    exact absurd hd (by simp)
  · rw [if_neg hlen, if_neg hlen]
    generalize s.mem.deadline_ns (s.heap 0) = d
    dsimp only
    by_cases hle : d ≤ s.clock
    · rw [if_pos hle]
      refine ⟨iff_of_false (by decide) (by simp), iff_of_true rfl ⟨d, rfl, hle⟩, ?_⟩
      intro d' hd' hlt
      obtain rfl := Option.some.inj hd'
      exact absurd hlt (UInt64.not_lt.mpr hle)
    · rw [if_neg hle]
      have hlt : s.clock < d := UInt64.not_le.mp hle
      have hlt' : s.clock.toNat < d.toNat := UInt64.lt_iff_toNat_lt.mp hlt
      have hleft : (d - s.clock).toNat = d.toNat - s.clock.toNat :=
        UInt64.toNat_sub_of_le _ _ (UInt64.le_iff_toNat_le.mpr (Nat.le_of_lt hlt'))
      have hcap : (INT32_MAX.toInt64.toUInt64 * 1000000).toNat = (2 ^ 31 - 1) * 1000000 := by decide
      have hmax : INT32_MAX.toInt = 2 ^ 31 - 1 := rfl
      by_cases hge : d - s.clock ≥ INT32_MAX.toInt64.toUInt64 * 1000000
      · rw [if_pos hge]
        have hge' := UInt64.le_iff_toNat_le.mp hge
        refine Millis.of_ahead hlt ?_ (Or.inl rfl) ?_
        · omega
        · omega
      · rw [if_neg hge]
        have hnear := UInt64.lt_iff_toNat_lt.mp (UInt64.not_le.mp hge)
        have hround := round_up_toInt (d - s.clock) (by omega)
        refine Millis.of_ahead hlt ?_ (Or.inr ?_) ?_
        · omega
        · omega
        · omega

end

/-! ## §3. The earliest deadline. -/

/-- **The root of the heap** is the earliest of the deadlines that are waited for. -/
theorem Core.earliest {s : Reactor T γ σ κ} {l q : List Nat} (h : Core s l q) :
    match CFiber.Ev.earliest s with
    | none => awaited s = ∅
    | some d => IsLeast (awaited s) d := by
  unfold CFiber.Ev.earliest
  by_cases hlen : s.heap_len = 0
  · rw [if_pos hlen]
    show awaited s = ∅
    apply Set.eq_empty_of_forall_notMem
    rintro d ⟨f, hwait⟩
    obtain ⟨⟨i, hi, -⟩, -⟩ := (h.deadline_iff d).mp hwait
    omega
  · rw [if_neg hlen]
    have hroot : InHeap s (s.heap 0) := ⟨0, Nat.pos_of_ne_zero hlen, rfl⟩
    refine ⟨⟨s.heap 0, (h.deadline_iff _).mpr ⟨hroot, rfl⟩⟩, ?_⟩
    rintro d ⟨f, hwait⟩
    obtain ⟨hin, rfl⟩ := (h.deadline_iff d).mp hwait
    exact h.root_le hin

/-- **What the loop sleeps**, by cases on the earliest deadline. -/
theorem Core.sleeps {s : Reactor T γ σ κ} {l q : List Nat} (h : Core s l q) :
    Sleeps s (next_timeout_ms s).toInt := by
  have hm := next_timeout_millis s
  have hleast := h.earliest
  have hneg : (next_timeout_ms s).toInt = -1 ↔ next_timeout_ms s = -1 := by
    rw [← Int32.toInt_inj]
    rfl
  have hzero : (next_timeout_ms s).toInt = 0 ↔ next_timeout_ms s = 0 := by
    rw [← Int32.toInt_inj]
    rfl
  cases he : CFiber.Ev.earliest s with
  | none =>
      -- nobody waits for a deadline
      rw [he] at hm hleast
      have hnone : ∀ d, d ∉ awaited s := Set.eq_empty_iff_forall_notMem.mp hleast
      have hms := hneg.mpr (hm.never.mpr rfl)
      refine ⟨iff_of_true hms hleast, iff_of_false (by omega) ?_, ?_, fun hpos => ?_⟩
      · rintro ⟨d, hd, -⟩
        exact hnone d hd
      · intro d hd
        exact absurd hd (hnone d)
      · omega
  | some e =>
      rw [he] at hm hleast
      obtain ⟨hin, hle⟩ := hleast
      have hsome : next_timeout_ms s ≠ -1 := fun hn => absurd (hm.never.mp hn) (by simp)
      have hawake : (next_timeout_ms s).toInt = 0 ↔ e ≤ s.clock := by
        rw [hzero, hm.passed]
        constructor
        · rintro ⟨d, hd, hpast⟩
          obtain rfl := Option.some.inj hd
          exact hpast
        · intro hpast
          exact ⟨e, rfl, hpast⟩
      refine ⟨iff_of_false (mt hneg.mp hsome) ?_, ?_, ?_, ?_⟩
      · exact Set.nonempty_iff_ne_empty.mp ⟨e, hin⟩
      · rw [hawake]
        constructor
        · intro hpast
          exact ⟨e, hin, hpast⟩
        · rintro ⟨d, hd, hpast⟩
          exact UInt64.le_trans (hle hd) hpast
      · -- every deadline is at least the earliest
        intro d hd hlt
        have hed := UInt64.le_iff_toNat_le.mp (hle hd)
        have hcd := UInt64.lt_iff_toNat_lt.mp hlt
        by_cases hpast : e ≤ s.clock
        · rw [hawake.mpr hpast]
          omega
        · have hshort := (hm.ahead e rfl (UInt64.not_le.mp hpast)).2.2.2
          omega
      · intro hpos
        have hahead : s.clock < e := by
          apply UInt64.not_le.mp
          intro hpast
          rw [hawake.mpr hpast] at hpos
          exact absurd hpos (by decide)
        rcases (hm.ahead e rfl hahead).2.2.1 with hcap | hreach
        · left
          rw [hcap]
          rfl
        · exact Or.inr ⟨e, hin, hreach⟩

/-! ## §4. The whole arithmetic, and the loop. -/

/-- **Deadlines at the limits**: for every clock value, relative time and heap the conversions are
those of the integers, and in every reachable state the loop sleeps accordingly. -/
theorem time_limits (H : LibcOk T L out good) {r : Reactor T γ σ κ} (hr : Fresh T out good r)
    {as : List (Action δ)} {S : Sys T γ σ κ} (h : exec (step L P K) (boot r) as = some S) :
    (∀ s : Reactor T γ σ κ, Early s.clock →
      (∀ ns, (deadline_after s ns).toNat = min (s.clock.toNat + ns.toNat) (2 ^ 64 - 1)) ∧
      (∀ d, Left s.clock d (remaining_ns s d)) ∧
      (∀ t : Int64, 0 ≤ t → s.clock.toNat + t.toInt < 2 ^ 64 - 1 →
        remaining_ns s (deadline_after_opt s t) = t) ∧
      Millis s.clock (earliest s) (next_timeout_ms s)) ∧
    ∀ S' ms, S.pc = .check → S.r.ready_head = none → step L P K S (.turn : Action δ) = some S' →
      S'.pc = .poll ms → Sleeps S.r ms := by
  constructor
  · intro s hs
    exact ⟨deadline_after_toNat s, remaining_left hs, fun t => remaining_deadline,
      next_timeout_millis s⟩
  · intro S' ms hpc hidle hstep hpoll
    obtain ⟨q, hok⟩ := exec_ok H (boot_ok hr) h
    obtain ⟨-, ⟨-, hhost⟩ | hnext⟩ := turn_check hpc hstep
    · rw [hhost] at hpoll
      exact absurd hpoll (by simp)
    · rw [hidle] at hnext
      obtain rfl := Pc.poll.inj (hnext.symm.trans hpoll)
      exact hok.core.sleeps

/-- A sleeper with 300 ns to go: the loop is about to poll for a millisecond. -/
theorem time_limits_epoll : ∃ r S S', start = some r ∧
    exec (step bumpLibc roomyStacks epoll) (boot r)
      [.spawn, .run, .turn, .turn, .sleep 300, .turn] = some S ∧
    step bumpLibc roomyStacks epoll S .turn = some S' ∧ S'.pc = .poll 1 ∧ Sleeps S.r 1 ∧
    remaining_ns S.r (deadline_after_opt S.r 300) = 300 := by
  have hsome : ((runs [.spawn, .run, .turn, .turn, .sleep 300, .turn]).bind fun S =>
      (step bumpLibc roomyStacks epoll S .turn).map fun S' =>
        (S.pc, S.r.ready_head, S.r.clock, S'.pc)) = some (.check, none, 1000, .poll 1) := by
    decide +kernel
  obtain ⟨S, hS, hsome⟩ := Option.bind_eq_some_iff.mp hsome
  obtain ⟨S', hstep, hfacts⟩ := Option.map_eq_some_iff.mp hsome
  simp only [Prod.mk.injEq] at hfacts
  obtain ⟨hpc, hidle, hclock, hpoll⟩ := hfacts
  obtain ⟨r, hr, hrun⟩ := runs_some hS
  obtain ⟨harith, hloop⟩ := time_limits bumpLibc_ok (start_fresh hr) hrun
  have hearly : Early S.r.clock := by
    unfold Early
    rw [hclock]
    decide
  refine ⟨r, S, S', hr, hrun, hstep, hpoll, hloop S' 1 hpc hidle hstep hpoll, ?_⟩
  apply (harith S.r hearly).2.2.1 300 (by decide)
  rw [hclock]
  decide

end CFiber.Ev
