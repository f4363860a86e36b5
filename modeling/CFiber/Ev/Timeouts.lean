/-
  CFiber.Ev.Timeouts — no timeout is early.

  A call may time out at `Call.limit` at the earliest: its entry plus its timeout, or never.  A
  parked fiber's deadline respects the limit of its call (`Due`), an expired one has been reached by
  the clock, and the helpers hand the time that is left from one wait to the next:

      entry ── remaining_ns ─▶ left ── cfiber_ev_wait ─▶ deadline ── fire_timer ─▶ TIMEOUT

    • `Awaits.step`      — what a step does to a fiber in a wait;
    • `no_early_timeout` — whatever returns a timeout does so at its limit or later.
-/
import CFiber.Ev.Transfers

namespace CFiber.Ev

open CFiber.Base CFiber.Memory

variable {T : Target} {γ σ κ δ : Type}
variable {L : Libc γ} {P : StackPool σ} {K : Kernel κ δ}
variable {out : γ → List Region} {good : γ → Prop}

/-! ## §1. Limits. -/

/-- The timeout of a call in nanoseconds; negative for none. -/
def Op.timeout : Op → Int
  | .wait _ _ timeout_ns | .wait_async timeout_ns | .read _ _ timeout_ns
  | .write _ _ timeout_ns => timeout_ns.toInt
  | .sleep ns => ns.toNat
  | .accept _ | .connect _ => -1

/-- The clock value at which a call may time out; none if there is no timeout, or the sum does not
fit in 64 bits. -/
def Call.limit (c : Call) : Option Nat :=
  if c.op.timeout < 0 then none
  else if c.entry.toNat + c.op.timeout.toNat < 2 ^ 64 then some (c.entry.toNat + c.op.timeout.toNat)
  else none

def CallRet.timed_out : CallRet → Bool
  | .status .TIMEOUT | .wait_failed .TIMEOUT _ => true
  | _ => false

/-- The limit has been reached. -/
def Reached (limit : Option Nat) (clock : UInt64) : Prop :=
  ∃ t, limit = some t ∧ t ≤ clock.toNat

/-- A timer at `d` respects the limit. -/
def Due (limit : Option Nat) (d : UInt64) : Prop := d = NO_DEADLINE ∨ Reached limit d

theorem Reached.mono {limit : Option Nat} {c c' : UInt64} (h : Reached limit c)
    (hc : c.toNat ≤ c'.toNat) : Reached limit c' := by
  obtain ⟨t, ht, hle⟩ := h
  exact ⟨t, ht, Nat.le_trans hle hc⟩

/-- The clock is below its last value, where the deadline that never comes is. -/
def Early (c : UInt64) : Prop := c.toNat < 2 ^ 64 - 1

theorem NO_DEADLINE_toNat : NO_DEADLINE.toNat = 2 ^ 64 - 1 := by decide

/-- **A deadline the clock has reached** is past the limit. -/
theorem Due.reached {limit : Option Nat} {d c : UInt64} (h : Due limit d) (hd : d ≤ c)
    (hc : Early c) : Reached limit c := by
  have hle := UInt64.le_iff_toNat_le.mp hd
  rcases h with rfl | h
  · unfold Early at hc
    rw [NO_DEADLINE_toNat] at hle
    omega
  · exact h.mono hle

/-- `deadline_after` is addition that stops at the deadline that never comes. -/
theorem deadline_after_toNat (s : Reactor T γ σ κ) (ns : UInt64) :
    (deadline_after s ns).toNat = min (s.clock.toNat + ns.toNat) (2 ^ 64 - 1) := by
  have hclock := s.clock.toNat_lt
  have hns := ns.toNat_lt
  have hsub : (NO_DEADLINE - s.clock).toNat = 2 ^ 64 - 1 - s.clock.toNat := by
    rw [UInt64.toNat_sub_of_le, NO_DEADLINE_toNat]
    rw [UInt64.le_iff_toNat_le, NO_DEADLINE_toNat]
    omega
  unfold deadline_after
  dsimp only
  split_ifs with hgt
  · have := UInt64.lt_iff_toNat_lt.mp hgt
    rw [NO_DEADLINE_toNat]
    omega
  · have : ¬ (NO_DEADLINE - s.clock).toNat < ns.toNat := fun h => hgt (UInt64.lt_iff_toNat_lt.mpr h)
    rw [UInt64.toNat_add]
    omega

/-- A timer set now for a time that reaches the limit respects it. -/
theorem due_deadline_after {s : Reactor T γ σ κ} {ns : UInt64} {limit : Option Nat}
    (h : s.clock.toNat + ns.toNat < 2 ^ 64 → ∃ t, limit = some t ∧ t ≤ s.clock.toNat + ns.toNat) :
    Due limit (deadline_after s ns) := by
  have hd := deadline_after_toNat s ns
  by_cases hfit : s.clock.toNat + ns.toNat < 2 ^ 64 - 1
  · obtain ⟨t, ht, hle⟩ := h (by omega)
    exact Or.inr ⟨t, ht, by omega⟩
  · left
    apply UInt64.toNat_inj.mp
    rw [hd, NO_DEADLINE_toNat]
    omega

/-- `remaining_ns` is subtraction that stops at `0` and at `INT64_MAX`. -/
theorem remaining_ns_toInt (s : Reactor T γ σ κ) (d : UInt64) :
    (remaining_ns s d).toInt =
      if d = NO_DEADLINE then -1 else ((min (d.toNat - s.clock.toNat) (2 ^ 63 - 1) : Nat) : Int) := by
  unfold remaining_ns
  dsimp only
  split_ifs with hno hle hgt
  · rfl
  · have := UInt64.le_iff_toNat_le.mp hle
    rw [Int64.toInt_zero]
    omega
  · have h1 := UInt64.lt_iff_toNat_lt.mp hgt
    have h2 : ¬ d.toNat ≤ s.clock.toNat := fun h => hle (UInt64.le_iff_toNat_le.mpr h)
    rw [UInt64.toNat_sub_of_le] at h1
    · have h3 : INT64_MAX.toUInt64.toNat = 2 ^ 63 - 1 := rfl
      have h4 : INT64_MAX.toInt = 2 ^ 63 - 1 := rfl
      rw [h4]
      omega
    · rw [UInt64.le_iff_toNat_le]
      omega
  · have h1 : ¬ INT64_MAX.toUInt64.toNat < (d - s.clock).toNat :=
      fun h => hgt (UInt64.lt_iff_toNat_lt.mpr h)
    have h2 : ¬ d.toNat ≤ s.clock.toNat := fun h => hle (UInt64.le_iff_toNat_le.mpr h)
    have h3 : INT64_MAX.toUInt64.toNat = 2 ^ 63 - 1 := rfl
    have h4 : (d - s.clock).toNat = d.toNat - s.clock.toNat := by
      apply UInt64.toNat_sub_of_le
      rw [UInt64.le_iff_toNat_le]
      omega
    have h5 : (d - s.clock).toInt64.toInt = ((d - s.clock).toNat : Int) := by
      apply BitVec.toInt_eq_toNat_of_lt
      show 2 * (d - s.clock).toNat < 2 ^ 64
      omega
    rw [h5, h4]
    omega

theorem toUInt64_toNat {t : Int64} (h : t ≥ 0) : t.toUInt64.toNat = t.toInt.toNat :=
  Int64.toNat_toUInt64_of_le h

theorem Int64.nonneg_iff {t : Int64} : t ≥ 0 ↔ 0 ≤ t.toInt := by
  rw [ge_iff_le, Int64.le_iff_toInt_le, Int64.toInt_zero]

/-! ## §2. A fiber in a wait. -/

/-- Fiber `f` is in a wait that respects the limit. -/
structure Awaits (S : Sys T γ σ κ) (f : Nat) (limit : Option Nat) : Prop where
  cont : (view S.r f).ctx ≠ .entry ∧ (view S.r f).ctx ≠ .yield
  wait : ((view S.r f).state = .FB_PARKED ∧ ∀ d, (view S.r f).deadline = some d → Due limit d) ∨
    ((view S.r f).state = .FB_READY ∧
      ((view S.r f).wait_status = .TIMEOUT → Reached limit S.r.clock))

/-- The clock is monotone and stays below its last value across the step. -/
def Ticks (S : Sys T γ σ κ) (a : Action δ) : Prop :=
  ∀ dt, a = .tick dt → Early S.r.clock ∧ S.r.clock.toNat + dt.toNat < 2 ^ 64 - 1

section
variable {S S' : Sys T γ σ κ} {q q' : List Nat} {a : Action δ} {m : Move} {f : Nat}
variable {limit : Option Nat}

theorem Labelled.clock_le (h : Labelled S a S' m) (ht : Ticks S a) (he : Early S.r.clock) :
    S.r.clock.toNat ≤ S'.r.clock.toNat ∧ Early S'.r.clock := by
  rcases h.clock with hc | ⟨dt, rfl, hc⟩
  · rw [hc]
    exact ⟨Nat.le_refl _, he⟩
  · have hfit := (ht dt rfl).2
    have hsum : S'.r.clock.toNat = S.r.clock.toNat + dt.toNat := by
      rw [hc, UInt64.toNat_add]
      omega
    unfold Early
    omega

/-- Only an expired deadline stands for a timeout. -/
theorem source_timeout (h : source S a = some (f, .TIMEOUT)) :
    ∃ now, S.pc = .timers now ∧ expired S.r now = true ∧ f = S.r.heap 0 := by
  unfold source at h
  split at h
  · obtain ⟨w, -, hw⟩ := Option.map_eq_some_iff.mp h
    exact absurd (congrArg Prod.snd hw) (by simp)
  · rename_i now hpc
    split_ifs at h with hexp
    exact ⟨now, hpc, hexp, (congrArg Prod.fst (Option.some.inj h)).symm⟩
  · obtain ⟨w, -, hw⟩ := Option.map_eq_some_iff.mp h
    exact absurd (congrArg Prod.snd hw) (by simp)
  · unfold commanded at h
    split at h
    · exact absurd h (by simp)
    · obtain ⟨w, -, hw⟩ := Option.bind_eq_some_iff.mp h
      split at hw
      · exact absurd (congrArg Prod.snd (Option.some.inj hw)) (by simp)
      · split_ifs at hw
        exact absurd (congrArg Prod.snd (Option.some.inj hw)) (by simp)

/-- **A fiber that waits, or is back on the queue**, stays as it is until it is dispatched, but for a
permit or a wake-up. -/
theorem Does.waiting (hok : Ok out good S q) (hd : Does P K out good S a S' m q q')
    (hw : (view S.r f).state = .FB_PARKED ∨ (view S.r f).state = .FB_READY)
    (hm : m ≠ .dispatch f) :
    view S'.r f = view S.r f ∨ view S'.r f = { view S.r f with wake_pending := true } ∨
      ∃ status, m = .wake f status ∧ (view S.r f).state = .FB_PARKED ∧
        view S'.r f = (view S.r f).woken status := by
  have hnot : ∀ st : FiberState, st ≠ .FB_PARKED → st ≠ .FB_READY → (view S.r f).state ≠ st := by
    rintro st h1 h2 rfl
    rcases hw with hst | hst
    · exact h1 hst
    · exact h2 hst
  have hlive : f ∈ S.alive := hok.core.mem_live (hnot _ (by simp) (by simp))
  by_cases hf : m.fiber = some f
  · have hpre := hd.moved.pre f hf
    have hself := hd.moved.self f hf
    cases m with
    | quiet => exact absurd hf (by simp [Move.fiber])
    | dispatch g => obtain rfl := Option.some.inj hf; exact absurd rfl hm
    | spawn g gen stack => exact absurd hpre (hnot _ (by simp) (by simp))
    | yield g => exact absurd hpre (hnot _ (by simp) (by simp))
    | park g kind fd deadline => exact absurd hpre (hnot _ (by simp) (by simp))
    | finish g => exact absurd hpre (hnot _ (by simp) (by simp))
    | reap g => exact absurd hpre (hnot _ (by simp) (by simp))
    | consume g => exact absurd hpre.1 (hnot _ (by simp) (by simp))
    | permit g => exact Or.inr (Or.inl hself)
    | wake g status =>
        obtain rfl := Option.some.inj hf
        exact Or.inr (Or.inr ⟨status, rfl, hpre, hself⟩)
  · exact Or.inl (hd.moved.others f hlive hf)

/-- **A step and a fiber in a wait**: unless it is dispatched, it stays in its wait. -/
theorem Awaits.step (hok : Ok out good S q) (h : Awaits S f limit)
    (hd : Does P K out good S a S' m q q') (hnow : ∀ now, S.pc = .timers now → now ≤ S.r.clock)
    (he : Early S.r.clock) (ht : Ticks S a) (hm : m ≠ .dispatch f) : Awaits S' f limit := by
  obtain ⟨hle, -⟩ := hd.label.clock_le ht he
  have hkept : ((view S.r f).state = .FB_PARKED ∧
        ∀ d, (view S.r f).deadline = some d → Due limit d) ∨
      ((view S.r f).state = .FB_READY ∧
        ((view S.r f).wait_status = .TIMEOUT → Reached limit S'.r.clock)) :=
    h.wait.imp_right fun hw => ⟨hw.1, fun hs => (hw.2 hs).mono hle⟩
  rcases hd.waiting hok (h.wait.imp And.left And.left) hm with hv | hv | ⟨status, rfl, hst, hv⟩
  · exact ⟨by rw [hv]; exact h.cont, by rw [hv]; exact hkept⟩
  · exact ⟨by rw [hv]; exact h.cont, by rw [hv]; exact hkept⟩
  · refine ⟨by rw [hv]; exact h.cont, Or.inr ⟨by rw [hv]; rfl, ?_⟩⟩
    rw [hv]
    intro hs
    obtain rfl : status = .TIMEOUT := hs
    -- the deadline has passed at the time the loop took, which is no later than now
    obtain ⟨now, hpc, hexp, rfl⟩ := source_timeout (hd.label.of_wake f _ rfl)
    obtain ⟨hpos, hdl⟩ := expired_iff.mp hexp
    obtain ⟨-, hdead⟩ := (hok.core.deadline_iff _).mpr
      ⟨(⟨0, hpos, rfl⟩ : InHeap S.r (S.r.heap 0)), rfl⟩
    rcases h.wait with ⟨-, hdue⟩ | ⟨hst', -⟩
    · exact ((hdue _ hdead).reached (UInt64.le_trans hdl (hnow now hpc)) he).mono hle
    · exact absurd (hst'.symm.trans hst) (by simp)

/-- The loop compares deadlines with a time that has been. -/
theorem timers_step (hnow : ∀ now, S.pc = .timers now → now ≤ S.r.clock)
    (hle : S.r.clock.toNat ≤ S'.r.clock.toNat) (h : step L P K S a = some S') :
    ∀ now, S'.pc = .timers now → now ≤ S'.r.clock := by
  intro now hpc'
  rw [UInt64.le_iff_toNat_le]
  have hold : S.pc = .timers now → now.toNat ≤ S'.r.clock.toNat := fun hpc =>
    Nat.le_trans (UInt64.le_iff_toNat_le.mp (hnow now hpc)) hle
  by_cases ha : a.foreign = true
  · exact hold ((foreign_pc ha h).1.symm.trans hpc')
  have ha : a.foreign = false := by simpa using ha
  have hflow := step_flow ha h
  rw [hpc'] at hflow
  cases hpc : S.pc with
  | timers now' =>
      rw [hpc] at hflow
      rcases hflow with he | he
      · exact hold (hpc.trans he.symm)
      · exact absurd he (by simp)
  | events evs =>
      rw [hpc] at hflow
      rcases hflow with ⟨rfl, -⟩ | ⟨e, evs', -, he | he⟩
      · -- the time is taken when the batch is done
        have ht := (turn_of_step (by rw [hpc]; rfl) ha h).2
        simp only [turn, hpc] at ht
        obtain rfl := Option.some.inj ht
        rw [← Pc.timers.inj hpc']
      · exact absurd he (by simp)
      · exact absurd he (by simp)
  | back g e => rw [hpc] at hflow; simp only [Flow] at hflow; split_ifs at hflow
  | _ => rw [hpc] at hflow; simp [Flow] at hflow

/-! ## §3. A fiber that starts to wait. -/

/-- A wait of `t` nanoseconds that starts now reaches the limit. -/
def AskOk (s : Reactor T γ σ κ) (limit : Option Nat) (t : Int) : Prop :=
  0 ≤ t → s.clock.toNat + t.toNat < 2 ^ 64 → ∃ l, limit = some l ∧ l ≤ s.clock.toNat + t.toNat

theorem due_deadline_of {s : Reactor T γ σ κ} {t : Int64} (h : AskOk s limit t.toInt) :
    ∀ d, deadline_of s t = some d → Due limit d := by
  intro d hd
  unfold deadline_of at hd
  split_ifs at hd with ht
  obtain rfl := Option.some.inj hd
  apply due_deadline_after
  rw [toUInt64_toNat ht]
  exact h (Int64.nonneg_iff.mp ht)

/-- The call parked the fiber with this deadline. -/
theorem awaits_of_parks {l : List Nat} {kind : ParkKind} {fd : Int} {deadline : Option UInt64}
    (h : Parks L S.r S'.r f kind fd deadline l q) (hd : ∀ d, deadline = some d → Due limit d) :
    Awaits S' f limit := by
  have hv : view S'.r f = (view S.r f).parked kind fd deadline := by
    rw [h.view, Function.update_self]
  refine ⟨?_, Or.inl ?_⟩
  · rw [hv]
    cases kind <;> exact ⟨by simp [FiberView.parked, ParkKind.ctx],
      by simp [FiberView.parked, ParkKind.ctx]⟩
  · rw [hv]
    exact ⟨rfl, hd⟩

/-- The timeout of a blocking call reaches the limit. -/
def Asks (s : Reactor T γ σ κ) (limit : Option Nat) : Action δ → Prop
  | .wait _ _ t | .wait_async t => AskOk s limit t.toInt
  | .sleep ns => AskOk s limit ns.toNat
  | _ => True

/-- **A blocking call** returns something else than `TIMEOUT` at once, or puts its fiber in a wait
that respects the limit. -/
theorem blocking_call (hok : Ok out good S q) {e : Option Nat} (hpc : S.pc = .fiber f e)
    (ha : a.blocks = true) (h : step L P K S a = some S') (hask : Asks S.r limit a) :
    (∃ st, S'.ret = some (.status st) ∧ st ≠ .TIMEOUT ∧ S'.pc = S.pc) ∨
      (S'.ret = none ∧ Awaits S' f limit) := by
  obtain ⟨hcur, -⟩ := hok.current hpc
  cases a with
  | wait fd dir t =>
      simp only [step, hpc, act] at h
      obtain rfl := Option.some.inj h
      rcases cfiber_ev_wait_spec (L := L) K hok.core hcur fd dir t with
        ⟨r', heq, -⟩ | ⟨r', heq, hpark, -⟩
      · rw [heq]; exact Or.inl ⟨.ERROR, rfl, by simp, rfl⟩
      · rw [heq]; exact Or.inr ⟨rfl, awaits_of_parks hpark (due_deadline_of hask)⟩
  | sleep ns =>
      simp only [step, hpc, act] at h
      obtain rfl := Option.some.inj h
      rcases cfiber_ev_sleep_spec (L := L) hok.core hcur ns with
        ⟨r', heq, -⟩ | ⟨r', heq, hpark, -⟩
      · rw [heq]; exact Or.inl ⟨.ERROR, rfl, by simp, rfl⟩
      · rw [heq]
        refine Or.inr ⟨rfl, awaits_of_parks hpark ?_⟩
        intro d hd
        obtain rfl := Option.some.inj hd
        exact due_deadline_after (hask (Int.natCast_nonneg _))
  | wait_async t =>
      simp only [step, hpc, act] at h
      obtain rfl := Option.some.inj h
      rcases cfiber_ev_wait_async_spec (L := L) hok.core hcur t with
        ⟨-, heq⟩ | ⟨-, ⟨r', heq, -⟩ | ⟨r', heq, hpark, -⟩⟩
      · rw [heq]; exact Or.inl ⟨.READY, rfl, by simp, rfl⟩
      · rw [heq]; exact Or.inl ⟨.ERROR, rfl, by simp, rfl⟩
      · rw [heq]; exact Or.inr ⟨rfl, awaits_of_parks hpark (due_deadline_of hask)⟩
  | _ => simp [Action.blocks] at ha

end

/-! ## §4. Calls. -/

/-- A helper's deadline is its limit, or the one that never comes. -/
def DeadlineOk (c : Call) : Prop :=
  App.target c.op ≠ none → c.deadline.toNat = c.limit.getD (2 ^ 64 - 1)

/-- Fiber `f` is in call `c`. -/
structure CallOk (S : Sys T γ σ κ) (f : Nat) (c : Call) : Prop where
  entry : c.entry.toNat ≤ S.r.clock.toNat
  deadline : DeadlineOk c
  place : match c.place with
    | .parked => Awaits S f c.limit
    | .ask t => S.r.mem.state f = .FB_RUNNING ∧ App.target c.op ≠ none ∧
        AskOk S.r c.limit t.toInt
    | _ => S.r.mem.state f = .FB_RUNNING ∧ App.target c.op ≠ none

/-- A timeout that was just returned has come. -/
def ReturnOk (A : App T γ σ κ) : Prop :=
  ∀ f c r, A.returned = some (f, c, r) → r.timed_out = true → Reached c.limit A.sys.r.clock

theorem returnOk_none {A : App T γ σ κ} (h : A.returned = none) : ReturnOk A :=
  fun _ _ _ e => absurd (h.symm.trans e) (by simp)

/-- **The invariant.** -/
structure AppOk (out : γ → List Region) (good : γ → Prop) (A : App T γ σ κ) (q : List Nat) :
    Prop where
  ok : Ok out good A.sys q
  early : Early A.sys.r.clock
  now : ∀ now, A.sys.pc = .timers now → now ≤ A.sys.r.clock
  calls : ∀ f c, A.calls f = some c → CallOk A.sys f c
  returned : ReturnOk A

section
variable {A A' : App T γ σ κ} {q : List Nat} {f : Nat} {c : Call} {d : Do δ}

theorem ask_limit {s : Reactor T γ σ κ} (he : c.entry = s.clock) :
    AskOk s c.limit c.op.timeout := by
  intro h0 hfit
  rw [← he] at hfit ⊢
  refine ⟨_, ?_, Nat.le_refl _⟩
  unfold Call.limit
  rw [if_neg (by omega), if_pos hfit]

theorem AskOk.mono {s s' : Reactor T γ σ κ} {limit : Option Nat} {t : Int} (h : AskOk s limit t)
    (hc : s.clock.toNat ≤ s'.clock.toNat) : AskOk s' limit t := by
  intro h0 hfit
  obtain ⟨l, hl, hle⟩ := h h0 (by omega)
  exact ⟨l, hl, by omega⟩

/-- A helper's deadline is computed once, at its entry. -/
theorem deadline_ok {s : Reactor T γ σ κ} {t : Int64} (he : c.entry = s.clock)
    (ht : c.op.timeout = t.toInt) (hd : c.deadline = deadline_after_opt s t) : DeadlineOk c := by
  intro _
  rw [hd]
  unfold deadline_after_opt Call.limit
  rw [ht, he]
  by_cases hneg : t < 0
  · have hneg' := Int64.lt_iff_toInt_lt.mp hneg
    rw [Int64.toInt_zero] at hneg'
    rw [if_pos hneg, if_pos hneg']
    exact NO_DEADLINE_toNat
  · have hneg' : ¬ t.toInt < 0 := by
      intro h
      apply hneg
      rw [Int64.lt_iff_toInt_lt, Int64.toInt_zero]
      exact h
    rw [if_neg hneg, if_neg hneg', deadline_after_toNat,
      toUInt64_toNat (Int64.nonneg_iff.mpr (by omega))]
    split_ifs with hfit
    · rw [Option.getD_some]; omega
    · rw [Option.getD_none]; omega

/-- Only helpers come to `remaining_ns`; their timeouts are 64-bit. -/
theorem target_timeout (h : App.target c.op ≠ none) : c.op.timeout < 2 ^ 63 := by
  cases hop : c.op with
  | read fd n t => exact t.toInt_lt
  | write fd buf t => exact t.toInt_lt
  | accept fd => simp [Op.timeout]
  | connect fd => simp [Op.timeout]
  | _ => simp [App.target, hop] at h

/-- **The time that is left** reaches the limit of the call. -/
theorem ask_remaining {s : Reactor T γ σ κ} (he : c.entry.toNat ≤ s.clock.toNat)
    (hd : DeadlineOk c) (ht : App.target c.op ≠ none) :
    AskOk s c.limit (remaining_ns s c.deadline).toInt := by
  have hdl := hd ht
  have hlt := target_timeout ht
  intro h0 _
  rw [remaining_ns_toInt] at h0 ⊢
  split_ifs at h0 ⊢ with hno
  · exact absurd h0 (by decide)
  · cases hl : c.limit with
    | none =>
        -- no limit is the deadline that never comes
        exfalso
        apply hno
        apply UInt64.toNat_inj.mp
        rw [hdl, hl, NO_DEADLINE_toNat]
        rfl
    | some l =>
        refine ⟨l, rfl, ?_⟩
        rw [hl, Option.getD_some] at hdl
        unfold Call.limit at hl
        split_ifs at hl with hneg hfit
        obtain rfl := Option.some.inj hl
        rw [hdl, Int.toNat_natCast]
        omega

/-- A call that is not parked is the running fiber's. -/
theorem CallOk.running {S : Sys T γ σ κ} (h : CallOk S f c) (hp : c.place ≠ .parked) :
    S.r.mem.state f = .FB_RUNNING ∧ App.target c.op ≠ none := by
  have := h.place
  cases hpl : c.place with
  | parked => exact absurd hpl hp
  | ask t => rw [hpl] at this; exact ⟨this.1, this.2.1⟩
  | _ => rw [hpl] at this; exact this

/-- The invariant but for the call of fiber `f`. -/
structure AppOkBut (out : γ → List Region) (good : γ → Prop) (A : App T γ σ κ) (q : List Nat)
    (f : Nat) : Prop where
  ok : Ok out good A.sys q
  early : Early A.sys.r.clock
  now : ∀ now, A.sys.pc = .timers now → now ≤ A.sys.r.clock
  calls : ∀ g c, g ≠ f → A.calls g = some c → CallOk A.sys g c

theorem AppOk.but (h : AppOk out good A q) (f : Nat) : AppOkBut out good A q f :=
  ⟨h.ok, h.early, h.now, fun g c _ hc => h.calls g c hc⟩

theorem AppOkBut.put (h : AppOkBut out good A q f) (hc : CallOk A.sys f c) :
    AppOk out good (A.put f c) q := by
  refine ⟨h.ok, h.early, h.now, ?_, returnOk_none rfl⟩
  intro g c' hg
  by_cases hgf : g = f
  · subst hgf
    obtain rfl : c = c' := by simpa [App.put] using hg
    exact hc
  · exact h.calls g c' hgf (by simpa [App.put, hgf] using hg)

theorem AppOkBut.leave (h : AppOkBut out good A q f) {r : CallRet}
    (hr : r.timed_out = true → Reached c.limit A.sys.r.clock) :
    AppOk out good (A.leave f c r) q := by
  refine ⟨h.ok, h.early, h.now, ?_, ?_⟩
  · intro g c' hg
    by_cases hgf : g = f
    · subst hgf
      simp [App.leave] at hg
    · exact h.calls g c' hgf (by simpa [App.leave, hgf] using hg)
  · rintro g c' r' hret
    obtain ⟨rfl, rfl, rfl⟩ : f = g ∧ c = c' ∧ r = r' := by simpa [App.leave] using hret
    exact hr

/-- The limit does not depend on the place. -/
theorem limit_place (c : Call) (p : Place) : Call.limit { c with place := p } = c.limit := rfl

theorem DeadlineOk.place (h : DeadlineOk c) (p : Place) : DeadlineOk { c with place := p } := by
  unfold DeadlineOk at h ⊢
  rw [limit_place]
  exact h

/-- Nor on how much is written. -/
theorem DeadlineOk.written (h : DeadlineOk c) (off : Nat) (sent : List UInt8) :
    DeadlineOk { c with off := off, sent := sent } := by
  have hl : Call.limit { c with off := off, sent := sent } = c.limit := rfl
  unfold DeadlineOk at h ⊢
  rw [hl]
  exact h

theorem CallOk.mk_running {S : Sys T γ σ κ} {p : Place} (he : c.entry.toNat ≤ S.r.clock.toNat)
    (hd : DeadlineOk c) (hrun : S.r.mem.state f = .FB_RUNNING) (ht : App.target c.op ≠ none)
    (hp : p = .top ∨ p = .again ∨ p = .sockopt) : CallOk S f { c with place := p } := by
  rcases hp with rfl | rfl | rfl <;> exact ⟨he, hd.place _, hrun, ht⟩

/-- What the end of a wait is: the end of the call, or another turn of its loop. -/
theorem arrive_cases (A : App T γ σ κ) (f : Nat) (c : Call) (st : EvStatus) :
    (A.arrive f c st = A.leave f c (.status st)) ∨
    (∃ e, A.arrive f c st = A.leave f c (.wait_failed st e)) ∨
    ∃ p, (p = .top ∨ p = .again ∨ p = .sockopt) ∧ App.target c.op ≠ none ∧
      A.arrive f c st = A.put f { c with place := p } := by
  obtain ⟨op, entry, deadline, off, sent, place⟩ := c
  have hgo : ∀ p, App.target op ≠ none → (p = .top ∨ p = .again ∨ p = .sockopt) →
      A.arrive f ⟨op, entry, deadline, off, sent, place⟩ st =
        (if st = .READY then A.put f ⟨op, entry, deadline, off, sent, p⟩
          else A.leave f ⟨op, entry, deadline, off, sent, place⟩
            (.wait_failed st (wait_failed A.sys.r st))) →
      (∃ e, A.arrive f ⟨op, entry, deadline, off, sent, place⟩ st =
        A.leave f ⟨op, entry, deadline, off, sent, place⟩ (.wait_failed st e)) ∨
      ∃ p, (p = .top ∨ p = .again ∨ p = .sockopt) ∧ App.target op ≠ none ∧
        A.arrive f ⟨op, entry, deadline, off, sent, place⟩ st =
          A.put f ⟨op, entry, deadline, off, sent, p⟩ := by
    intro p ht hp heq
    rw [heq]
    split_ifs
    · exact Or.inr ⟨p, hp, ht, rfl⟩
    · exact Or.inl ⟨_, rfl⟩
  cases op with
  | wait fd dir t => exact Or.inl rfl
  | sleep ns => exact Or.inl rfl
  | wait_async t => exact Or.inl rfl
  | connect fd => exact Or.inr (hgo .sockopt (by simp [App.target]) (by simp) rfl)
  | _ => exact Or.inr (hgo .top (by simp [App.target]) (by simp) rfl)

/-- **The end of a wait.** -/
theorem AppOkBut.arrive (h : AppOkBut out good A q f) (hrun : A.sys.r.mem.state f = .FB_RUNNING)
    (he : c.entry.toNat ≤ A.sys.r.clock.toNat) (hd : DeadlineOk c) {st : EvStatus}
    (hst : st = .TIMEOUT → Reached c.limit A.sys.r.clock) :
    AppOk out good (A.arrive f c st) q := by
  rcases arrive_cases A f c st with heq | ⟨e, heq⟩ | ⟨p, hp, ht, heq⟩
  · rw [heq]
    exact h.leave fun ht => hst (by cases st <;> simp [CallRet.timed_out] at ht ⊢)
  · rw [heq]
    exact h.leave fun ht => hst (by cases st <;> simp [CallRet.timed_out] at ht ⊢)
  · rw [heq]
    exact h.put (CallOk.mk_running he hd hrun ht hp)

/-! ## §5. Steps. -/

/-- The fiber in control runs. -/
theorem running_of_pc {S : Sys T γ σ κ} (hok : Ok out good S q) {e : Option Nat}
    (hpc : S.pc = .fiber f e) : S.r.mem.state f = .FB_RUNNING :=
  (hok.core.running (hok.current hpc).1).1

theorem AppOk.parked (h : AppOk out good A q) (hc : A.calls f = some c)
    (hpc : ∀ e, A.sys.pc ≠ .fiber f e) : c.place = .parked := by
  by_contra hp
  obtain ⟨e, hs⟩ := h.ok.pc_of_running ((h.calls f c hc).running hp).1
  exact hpc e hs

/-- **A step of the system** under the calls: those parked stay parked unless their fiber is
dispatched. -/
theorem AppOk.sys_step (H : LibcOk T L out good) (h : AppOk out good A q) {a : Action δ}
    (ht : Ticks A.sys a) {S : Sys T γ σ κ} (hs : step L P K A.sys a = some S) :
    ∃ q', Ok out good S q' ∧ Early S.r.clock ∧ A.sys.r.clock.toNat ≤ S.r.clock.toNat ∧
      (∀ now, S.pc = .timers now → now ≤ S.r.clock) ∧
      ∀ f c, A.calls f = some c → c.place = .parked →
        CallOk S f c ∨ ((∃ e, S.pc = .fiber f e) ∧ (∀ g e, A.sys.pc ≠ .fiber g e) ∧
          S.ret = (view A.sys.r f).returned.map .status ∧ Awaits A.sys f c.limit) := by
  obtain ⟨m, q', hd⟩ := step_does H h.ok hs
  obtain ⟨hle, he⟩ := hd.label.clock_le ht h.early
  refine ⟨q', hd.ok, he, hle, timers_step h.now hle hs, ?_⟩
  intro f c hc hp
  have hcall := h.calls f c hc
  have hwait : Awaits A.sys f c.limit := by
    have := hcall.place
    rwa [hp] at this
  by_cases hm : m = .dispatch f
  · obtain ⟨hpc, hno⟩ := hd.dispatch_pc h.ok hm
    exact Or.inr ⟨hpc, hno, hd.label.of_dispatch f hm, hwait⟩
  · left
    refine ⟨Nat.le_trans hcall.entry hle, hcall.deadline, ?_⟩
    rw [hp]
    exact hwait.step h.ok hd h.now h.early ht hm

/-- A foreign step leaves the fiber structs alone. -/
theorem foreign_mem {S S' : Sys T γ σ κ} {a : Action δ} (ha : a.foreign = true)
    (h : step L P K S a = some S') : S'.r.mem = S.r.mem := by
  cases a with
  | post c => obtain rfl := Option.some.inj h; rfl
  | tick dt => obtain rfl := Option.some.inj h; rfl
  | other d =>
      obtain ⟨k, -, rfl⟩ := Option.map_eq_some_iff.mp h
      rfl
  | _ => simp [Action.foreign] at ha

theorem AppOk.foreign (H : LibcOk T L out good) (h : AppOk out good A q) {a : Action δ}
    (ha : a.foreign = true) (ht : Ticks A.sys a) {S : Sys T γ σ κ}
    (hs : step L P K A.sys a = some S) :
    ∃ q', AppOk out good { A with sys := S, returned := none } q' := by
  obtain ⟨q', hok, he, hle, hnow, hcalls⟩ := h.sys_step H ht hs
  refine ⟨q', hok, he, hnow, ?_, returnOk_none rfl⟩
  intro f c hc
  have hcall := h.calls f c hc
  by_cases hp : c.place = .parked
  · rcases hcalls f c hc hp with hgood | ⟨⟨e, hpc⟩, hno, -⟩
    · exact hgood
    · rw [(foreign_pc ha hs).1] at hpc
      exact absurd hpc (hno f e)
  · have hmem := foreign_mem ha hs
    refine ⟨Nat.le_trans hcall.entry hle, hcall.deadline, ?_⟩
    have hplace := hcall.place
    cases hpl : c.place with
    | parked => exact absurd hpl hp
    | ask t =>
        rw [hpl] at hplace
        show S.r.mem.state f = _ ∧ _
        rw [hmem]
        exact ⟨hplace.1, hplace.2.1, hplace.2.2.mono hle⟩
    | _ =>
        rw [hpl] at hplace
        show S.r.mem.state f = _ ∧ _
        rw [hmem]
        exact hplace

/-- A step taken at fiber `g`: the other calls are parked and stay so. -/
theorem AppOk.fiber_step (H : LibcOk T L out good) (h : AppOk out good A q) {a : Action δ} {g : Nat}
    {e : Option Nat} (hpc : A.sys.pc = .fiber g e) (ht : Ticks A.sys a) {S : Sys T γ σ κ}
    (hs : step L P K A.sys a = some S) :
    ∃ q', AppOkBut out good { A with sys := S, returned := none } q' g ∧
      A.sys.r.clock.toNat ≤ S.r.clock.toNat := by
  obtain ⟨q', hok, he, hle, hnow, hcalls⟩ := h.sys_step H ht hs
  refine ⟨q', ⟨hok, he, hnow, ?_⟩, hle⟩
  intro f c hfg hc
  have hp := h.parked hc fun e' he' => hfg (Pc.fiber.inj (he'.symm.trans hpc)).1
  rcases hcalls f c hc hp with hgood | ⟨-, hno, -⟩
  · exact hgood
  · exact absurd hpc (hno g e)

/-- **A call goes into the reactor.** -/
theorem AppOk.enter (H : LibcOk T L out good) (h : AppOk out good A q) {a : Action δ}
    {e : Option Nat} (hpc : A.sys.pc = .fiber f e) (ha : a.blocks = true)
    (hask : Asks A.sys.r c.limit a) (he : c.entry.toNat ≤ A.sys.r.clock.toNat) (hd : DeadlineOk c)
    (hs : A.enter L P K f c a = some A') : ∃ q', AppOk out good A' q' := by
  obtain ⟨S, hstep, rfl⟩ := Option.map_eq_some_iff.mp hs
  have ht : Ticks A.sys a := by
    rintro dt rfl
    simp [Action.blocks] at ha
  obtain ⟨q', hbut, hle⟩ := h.fiber_step H hpc ht hstep
  have hbut' : AppOkBut out good { A with sys := S } q' f := ⟨hbut.ok, hbut.early, hbut.now, hbut.calls⟩
  have he' : c.entry.toNat ≤ S.r.clock.toNat := Nat.le_trans he hle
  rcases blocking_call h.ok hpc ha hstep hask with ⟨st, hret, hne, hpc'⟩ | ⟨hret, hwait⟩
  · rw [hret]
    exact ⟨q', hbut'.arrive (running_of_pc hbut.ok (hpc'.trans hpc)) he' hd fun e => absurd e hne⟩
  · rw [hret]
    exact ⟨q', hbut'.put ⟨he', hd, hwait⟩⟩

/-- **A step of the loop thread.** -/
theorem AppOk.loop (H : LibcOk T L out good) (h : AppOk out good A q) {a : Action δ}
    (ht : Ticks A.sys a) (hno : ∀ g e, A.sys.pc ≠ .fiber g e) (hs : A.loop L P K a = some A') :
    ∃ q', AppOk out good A' q' := by
  obtain ⟨S, hstep, rfl⟩ := Option.map_eq_some_iff.mp hs
  obtain ⟨q', hok, he, hle, hnow, hcalls⟩ := h.sys_step H ht hstep
  have hp : ∀ f c, A.calls f = some c → c.place = .parked := fun f c hc =>
    h.parked hc fun e => hno f e
  -- if nobody in a call is dispatched, every call stays as it is
  have hkeep : (∀ f c, A.calls f = some c → ∀ e, S.pc ≠ .fiber f e) →
      ∃ q', AppOk out good { A with sys := S, returned := none } q' := fun hnone =>
    ⟨q', hok, he, hnow, fun f c hc =>
      (hcalls f c hc (hp f c hc)).resolve_right fun hx => by
        obtain ⟨⟨e, hpc⟩, -⟩ := hx
        exact hnone f c hc e hpc, returnOk_none rfl⟩
  cases hpc : S.pc with
  | fiber g e =>
      cases hcg : A.calls g with
      | none =>
          have := hkeep fun f c hc e' he' => by
            rw [hpc] at he'
            rw [← (Pc.fiber.inj he').1, hcg] at hc
            exact absurd hc (by simp)
          cases hret : S.ret with
          | none => simpa [hcg] using this
          | some r => cases r <;> simpa [hcg] using this
      | some c =>
          have hcall := h.calls g c hcg
          have hrun := running_of_pc hok hpc
          rcases hcalls g c hcg (hp g c hcg) with hgood | ⟨-, -, hret, hwait⟩
          · -- a dispatched fiber is in no wait
            exfalso
            have hplace := hgood.place
            rw [hp g c hcg] at hplace
            have hrun' : (view S.r g).state = .FB_RUNNING := hrun
            rcases hplace.wait with ⟨hst, -⟩ | ⟨hst, -⟩ <;> rw [hst] at hrun' <;>
              exact absurd hrun' (by simp)
          · have hst : (view A.sys.r g).returned = some (view A.sys.r g).wait_status := by
              obtain ⟨h1, h2⟩ := hwait.cont
              unfold FiberView.returned
              split <;> simp_all
            rw [hst, Option.map_some] at hret
            have hbut : AppOkBut out good { A with sys := S, returned := none } q' g := by
              refine ⟨hok, he, hnow, ?_⟩
              intro f c' hfg hc'
              exact (hcalls f c' hc' (hp f c' hc')).resolve_right fun hx => by
                obtain ⟨⟨e', he'⟩, -⟩ := hx
                exact hfg (Pc.fiber.inj (he'.symm.trans hpc)).1
            rw [hret]
            simp only [hcg]
            refine ⟨q', hbut.arrive hrun (Nat.le_trans hcall.entry hle) hcall.deadline ?_⟩
            intro hto
            rcases hwait.wait with ⟨hparked, -⟩ | ⟨-, hreach⟩
            · -- a fiber is dispatched from the queue
              exfalso
              obtain ⟨m, q'', hd⟩ := step_does H h.ok hstep
              by_cases hm : m = .dispatch g
              · subst hm
                have hready : (view A.sys.r g).state = .FB_READY := hd.moved.pre g rfl
                rw [hparked] at hready
                exact absurd hready (by simp)
              · have hstill := hwait.step h.ok hd h.now h.early ht hm
                have hrun' : (view S.r g).state = .FB_RUNNING := hrun
                rcases hstill.wait with ⟨hst', -⟩ | ⟨hst', -⟩ <;> rw [hst'] at hrun' <;>
                  exact absurd hrun' (by simp)
            · exact (hreach hto).mono hle
  | _ => exact hkeep fun f c hc e he => by rw [hpc] at he; exact absurd he (by simp)

/-- The clock moves with the ticks, and stays below its last value. -/
def Do.Ticks (A : App T γ σ κ) : Do δ → Prop
  | .sys a => CFiber.Ev.Ticks A.sys a
  | _ => True

/-- **The answer of a system call.** -/
theorem AppOk.settle (h : AppOk out good A q) (he : c.entry.toNat ≤ A.sys.r.clock.toNat)
    (hd : DeadlineOk c) (hrun : A.sys.r.mem.state f = .FB_RUNNING) (ht : App.target c.op ≠ none)
    (turn : Turn) :
    AppOk out good (A.settle f c turn) q := by
  have hask : CallOk A.sys f { c with place := .ask (-1) } := by
    refine ⟨he, hd.place _, hrun, ht, ?_⟩
    intro h0
    exact absurd h0 (by decide)
  cases turn with
  | done n => exact (h.but f).leave fun e => by simp [CallRet.timed_out] at e
  | fail e => exact (h.but f).leave fun e => by simp [CallRet.timed_out] at e
  | retry => exact (h.but f).put (CallOk.mk_running he hd hrun ht (Or.inl rfl))
  | block =>
      unfold App.settle
      dsimp only
      split
      · exact (h.but f).put hask
      · exact (h.but f).put hask
      · exact (h.but f).put (CallOk.mk_running he hd hrun ht (Or.inr (Or.inl rfl)))

/-- **A fiber makes a call.** -/
theorem AppOk.begin_call (H : LibcOk T L out good) (h : AppOk out good A q) {e : Option Nat}
    (hpc : A.sys.pc = .fiber f e) {op : Op} (hs : A.begin_call L P K f op = some A') :
    ∃ q', AppOk out good A' q' := by
  have hrun := running_of_pc h.ok hpc
  have hraw : ∀ a, a.blocks = true →
      Asks A.sys.r (Call.limit ⟨op, A.sys.r.clock, NO_DEADLINE, 0, [], .top⟩) a →
      App.target op = none →
      A.enter L P K f ⟨op, A.sys.r.clock, NO_DEADLINE, 0, [], .top⟩ a = some A' →
      ∃ q', AppOk out good A' q' := fun a ha hask ht hs =>
    h.enter H hpc ha hask (Nat.le_refl _) (fun hne => absurd ht hne) hs
  have hlim : ∀ deadline, AskOk A.sys.r (Call.limit ⟨op, A.sys.r.clock, deadline, 0, [], .top⟩)
      op.timeout := fun deadline => ask_limit (c := ⟨op, A.sys.r.clock, deadline, 0, [], .top⟩) rfl
  have htimed : ∀ t : Int64, op.timeout = t.toInt →
      DeadlineOk ⟨op, A.sys.r.clock, deadline_after_opt A.sys.r t, 0, [], .top⟩ := fun t ht =>
    deadline_ok (c := ⟨op, A.sys.r.clock, deadline_after_opt A.sys.r t, 0, [], .top⟩) rfl ht rfl
  -- a call without a timeout has the deadline that never comes
  have hnever : op.timeout = -1 →
      DeadlineOk ⟨op, A.sys.r.clock, NO_DEADLINE, 0, [], .top⟩ := fun ht =>
    deadline_ok (c := ⟨op, A.sys.r.clock, NO_DEADLINE, 0, [], .top⟩) (s := A.sys.r) (t := -1) rfl ht rfl
  cases op with
  | wait fd dir t => exact hraw (.wait fd dir t) rfl (hlim _) rfl hs
  | sleep ns => exact hraw (.sleep ns) rfl (hlim _) rfl hs
  | wait_async t => exact hraw (.wait_async t) rfl (hlim _) rfl hs
  | read fd n t =>
      obtain rfl := Option.some.inj hs
      exact ⟨q, (h.but f).put ⟨Nat.le_refl _, htimed t rfl, hrun, by simp [App.target]⟩⟩
  | write fd buf t =>
      obtain rfl := Option.some.inj hs
      dsimp only
      split_ifs
      · exact ⟨q, (h.but f).leave fun e => by simp [CallRet.timed_out] at e⟩
      · exact ⟨q, (h.but f).put ⟨Nat.le_refl _, htimed t rfl, hrun, by simp [App.target]⟩⟩
  | accept fd =>
      obtain rfl := Option.some.inj hs
      exact ⟨q, (h.but f).put ⟨Nat.le_refl _, hnever rfl, hrun, by simp [App.target]⟩⟩
  | connect fd =>
      obtain rfl := Option.some.inj hs
      exact ⟨q, (h.but f).put ⟨Nat.le_refl _, hnever rfl, hrun, by simp [App.target]⟩⟩

/-- The system call of a helper returns. -/
theorem AppOk.transfer (h : AppOk out good A q) (hc : A.calls f = some c)
    (hp : c.place ≠ .parked) {r : Except Errno Nat} (hs : A.transfer f c r = some A') :
    ∃ q', AppOk out good A' q' := by
  have hcall := h.calls f c hc
  obtain ⟨hrun, ht⟩ := hcall.running hp
  unfold App.transfer at hs
  split at hs
  · split_ifs at hs
    obtain rfl := Option.some.inj hs
    exact ⟨q, h.settle hcall.entry hcall.deadline hrun ht _⟩
  · rename_i buf _ _
    split_ifs at hs
    obtain rfl := Option.some.inj hs
    exact ⟨q, h.settle (c := { c with
        off := (write_turn buf.length c.off r).2
        sent := c.sent ++ (buf.drop c.off).take (r.toOption.getD 0) })
      hcall.entry (hcall.deadline.written _ _) hrun ht _⟩
  · obtain rfl := Option.some.inj hs
    exact ⟨q, h.settle hcall.entry hcall.deadline hrun ht _⟩
  · obtain rfl := Option.some.inj hs
    exact ⟨q, h.settle hcall.entry hcall.deadline hrun ht _⟩
  · exact absurd hs (by simp)

/-- A step inside a call. -/
theorem AppOk.resume_call (H : LibcOk T L out good) (h : AppOk out good A q) {e : Option Nat}
    (hpc : A.sys.pc = .fiber f e) (hc : A.calls f = some c)
    (hs : A.resume_call L P K f c d = some A') : ∃ q', AppOk out good A' q' := by
  have hcall := h.calls f c hc
  unfold App.resume_call at hs
  split at hs
  · rename_i r hpl
    exact h.transfer hc (by rw [hpl]; simp) hs
  · rename_i hpl
    obtain rfl := Option.some.inj hs
    obtain ⟨hrun, ht⟩ := hcall.running (by rw [hpl]; simp)
    exact ⟨q, (h.but f).put ⟨hcall.entry, hcall.deadline.place _, hrun, ht,
      ask_remaining hcall.entry hcall.deadline ht⟩⟩
  · rename_i t hpl
    obtain ⟨⟨fd, dir⟩, -, hs⟩ := Option.bind_eq_some_iff.mp hs
    have hplace := hcall.place
    rw [hpl] at hplace
    exact h.enter H hpc (a := .wait fd dir t) rfl hplace.2.2 hcall.entry hcall.deadline hs
  · obtain rfl := Option.some.inj hs
    exact ⟨q, (h.but f).leave fun e => by simp [CallRet.timed_out] at e⟩
  · obtain rfl := Option.some.inj hs
    exact ⟨q, (h.but f).leave fun e => by simp [CallRet.timed_out] at e⟩
  · exact absurd hs (by simp)

/-- **Every step keeps the invariant.** -/
theorem AppOk.step (H : LibcOk T L out good) (h : AppOk out good A q) (ht : d.Ticks A)
    (hs : A.step L P K d = some A') : ∃ q', AppOk out good A' q' := by
  unfold App.step at hs
  split at hs
  · rename_i a
    split_ifs at hs with hb hf
    · obtain ⟨S, hstep, rfl⟩ := Option.map_eq_some_iff.mp hs
      exact h.foreign H hf ht hstep
    · split at hs
      · rename_i f e hpc
        split_ifs at hs with hc
        obtain ⟨S, hstep, rfl⟩ := Option.map_eq_some_iff.mp hs
        obtain ⟨q', hbut, -⟩ := h.fiber_step H hpc ht hstep
        refine ⟨q', hbut.ok, hbut.early, hbut.now, ?_, returnOk_none rfl⟩
        intro g c hg
        apply hbut.calls g c _ hg
        rintro rfl
        exact absurd (hc.symm.trans hg) (by simp)
      · rename_i hno
        exact h.loop H ht (fun g e => hno g e) hs
  · rename_i op f e hpc
    split_ifs at hs
    exact h.begin_call H hpc hs
  · rename_i f e _ _ hpc
    obtain ⟨c, hc, hs⟩ := Option.bind_eq_some_iff.mp hs
    exact h.resume_call H hpc hc hs
  · exact absurd hs (by simp)

end

/-! ## §6. Runs. -/

/-- The time that passes in a step, and in a run. -/
def Do.time : Do δ → Nat
  | .sys (.tick dt) => dt.toNat
  | _ => 0

def elapsed : List (Do δ) → Nat
  | [] => 0
  | d :: ds => d.time + elapsed ds

/-- **Every run keeps the invariant**, by induction on the run; the clock has room for what is
left of it. -/
theorem AppOk.run (H : LibcOk T L out good) {ds : List (Do δ)} :
    ∀ {A A' : App T γ σ κ} {q : List Nat}, AppOk out good A q →
      A.sys.r.clock.toNat + elapsed ds < 2 ^ 64 - 1 → exec (App.step L P K) A ds = some A' →
      ∃ q', AppOk out good A' q' := by
  induction ds with
  | nil =>
      intro A A' q h _ hrun
      obtain rfl : A = A' := by simpa using hrun
      exact ⟨q, h⟩
  | cons d ds ih =>
      intro A A' q h hclock hrun
      obtain ⟨B, hB, hrest⟩ := exec_cons.mp hrun
      have hsum : elapsed (d :: ds) = d.time + elapsed ds := rfl
      have ht : d.Ticks A := by
        cases d with
        | sys a =>
            rintro dt rfl
            have : (Do.sys (.tick dt) : Do δ).time = dt.toNat := rfl
            exact ⟨h.early, by omega⟩
        | _ => trivial
      obtain ⟨q₁, h₁⟩ := h.step H ht hB
      apply ih h₁ _ hrest
      rcases App.step_sys hB with hsame | ⟨a, hs, hlabel⟩
      · rw [hsame]
        omega
      · obtain ⟨m, q', hd⟩ := step_does H h.ok hs
        rcases hd.label.clock with hc | ⟨dt, rfl, hc⟩
        · rw [hc]
          omega
        · rcases hlabel with rfl | hb
          · have he : (Do.sys (.tick dt) : Do δ).time = dt.toNat := rfl
            rw [hc, UInt64.toNat_add]
            omega
          · exact absurd hb (by simp [Action.blocks])

/-- **No timeout is early.**  In every run with a monotone clock, whatever returns a timeout does so
when the clock has reached its entry plus its timeout, summed without wrapping; a call with a
negative timeout, or one whose sum does not fit in 64 bits, never does. -/
theorem no_early_timeout (H : LibcOk T L out good) {r : Reactor T γ σ κ} (hr : Fresh T out good r)
    {ds : List (Do δ)} {A : App T γ σ κ} (h : exec (App.step L P K) (App.boot r) ds = some A)
    (hclock : r.clock.toNat + elapsed ds < 2 ^ 64 - 1) {f : Nat} {c : Call} {res : CallRet}
    (hret : A.returned = some (f, c, res)) (ht : res.timed_out = true) :
    0 ≤ c.op.timeout ∧ c.entry.toNat + c.op.timeout.toNat < 2 ^ 64 ∧
      c.entry.toNat + c.op.timeout.toNat ≤ A.sys.r.clock.toNat := by
  have hboot : AppOk out good (App.boot r) [] :=
    ⟨boot_ok hr, by unfold Early; exact Nat.lt_of_le_of_lt (Nat.le_add_right _ _) hclock, nofun, nofun,
      returnOk_none rfl⟩
  obtain ⟨q, hok⟩ := hboot.run H hclock h
  obtain ⟨t, hlim, hle⟩ := hok.returned f c res hret ht
  unfold Call.limit at hlim
  split_ifs at hlim with hneg hfit
  obtain rfl := Option.some.inj hlim
  exact ⟨by omega, hfit, hle⟩

/-- A read of at most five nanoseconds that finds nothing. -/
def stalled_read : List (Do Choice) :=
  [.sys .spawn, .sys .run, .sys .turn, .sys .turn, .call (.read 3 10 5),
    .transfer (.error .EAGAIN), .sys (.tick 2), .look, .sys (.tick 1), .rewait, .sys .turn, .sys .turn,
    .sys (.tick 3), .sys (.poll (.report [] false)), .sys .turn, .sys .turn, .sys .turn, .sys .turn,
    .sys .turn]

theorem no_early_timeout_epoll : ∃ r A f c res, start = some r ∧
    exec (App.step bumpLibc roomyStacks epoll) (App.boot r) stalled_read = some A ∧
    A.returned = some (f, c, res) ∧ res.timed_out = true ∧ 0 ≤ c.op.timeout ∧
    c.entry.toNat + c.op.timeout.toNat < 2 ^ 64 ∧
    c.entry.toNat + c.op.timeout.toNat ≤ A.sys.r.clock.toNat := by
  have hsome : ((start.bind fun r =>
      exec (App.step bumpLibc roomyStacks epoll) (App.boot r) stalled_read).bind fun A =>
        (A.returned.filter fun x => x.2.2.timed_out).map fun x => (A, x)).isSome = true := by
    decide +kernel
  obtain ⟨⟨A, f, c, res⟩, hx⟩ := Option.isSome_iff_exists.mp hsome
  obtain ⟨A', hA, hx⟩ := Option.bind_eq_some_iff.mp hx
  obtain ⟨y, hy, hxy⟩ := Option.map_eq_some_iff.mp hx
  obtain ⟨rfl, rfl⟩ : A' = A ∧ y = (f, c, res) := by simpa using hxy
  obtain ⟨r, hr, hrun⟩ := Option.bind_eq_some_iff.mp hA
  obtain ⟨hret, hto⟩ := Option.filter_eq_some_iff.mp hy
  refine ⟨r, _, f, c, res, hr, hrun, hret, hto, ?_⟩
  apply no_early_timeout bumpLibc_ok (start_fresh hr) hrun _ hret hto
  rw [start_clock hr]
  decide

end CFiber.Ev
