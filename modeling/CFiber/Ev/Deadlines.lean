/-
  CFiber.Ev.Deadlines — the total deadline of a timed read or write.

  The loops look at the clock only when their system call would have blocked.  What happens to a
  call past its deadline is therefore in the hands of the kernel:

      top ─ EAGAIN ─▶ again ─ remaining_ns = 0 ─▶ ask 0 ─▶ parked, due ─▶ ETIMEDOUT      (as promised)
      top ─ a part, EINTR ─▶ top                                                 (goes on)
      top ─ EAGAIN ─▶ … ─▶ parked, due ─ READY ─▶ top                            (goes on)

  `Watch` is `App` with a history variable: how often the call of each fiber has tried its transfer
  past its deadline.  The clock of a `Watch` is monotone.

    • `Respects`     — what a total deadline promises, in a state;
    • `Meets`        — the condition on a step: past the deadline nothing is transferred, and a
                       call that has tried once is not woken by readiness;
    • `respects_deadlines_iff` — every state of a run respects the deadlines exactly if every step meets it.
-/
import CFiber.Ev.Timeouts
import CFiber.Ev.Writes

namespace CFiber.Ev

open CFiber.Base CFiber.Memory

variable {T : Target} {γ σ κ δ : Type}
variable {L : Libc γ} {P : StackPool σ} {K : Kernel κ δ}
variable {out : γ → List Region} {good : γ → Prop}

/-! ## §1. Calls past their deadline. -/

/-- Nothing to transfer: the call is over when it is made. -/
def Op.empty : Op → Bool
  | .write _ [] _ => true
  | _ => false

/-- **The total deadline of a timed read or write has come**: its entry plus its timeout. -/
def Call.overdue (c : Call) (clock : UInt64) : Bool :=
  c.op.transfers && !c.op.empty && decide (0 ≤ c.op.timeout) &&
    decide (c.entry.toNat + c.op.timeout.toNat ≤ clock.toNat)

/-- The system call transferred nothing and was not interrupted. -/
def Op.declined (op : Op) : Except Errno Nat → Bool
  | .error e => e ≠ .EINTR
  | .ok n => match op with
    | .write _ _ _ => n == 0
    | _ => false

/-- `App` with the number of tries past the deadline. -/
structure Watch (T : Target) (γ σ κ : Type) where
  app : App T γ σ κ
  late : Nat → Nat

namespace Watch

/-- The tries after a step. -/
def counted (W : Watch T γ σ κ) (d : Do δ) : Nat → Nat :=
  match d, W.app.sys.pc with
  | .call _, .fiber f _ => Function.update W.late f 0
  | .transfer _, .fiber f _ =>
    if (W.app.calls f).any fun c => c.overdue W.app.sys.r.clock then
      Function.update W.late f (W.late f + 1)
    else W.late
  | _, _ => W.late

/-- The clock does not wrap, and does not reach its last value. -/
def fits (W : Watch T γ σ κ) : Do δ → Bool
  | .sys (.tick dt) => W.app.sys.r.clock.toNat + dt.toNat < 2 ^ 64 - 1
  | _ => true

section
variable (L : Libc γ) (P : StackPool σ) (K : Kernel κ δ)

def step (W : Watch T γ σ κ) (d : Do δ) : Option (Watch T γ σ κ) :=
  if W.fits d then (W.app.step L P K d).map fun A => ⟨A, W.counted d⟩ else none

end

/-- Nobody is in a call yet. -/
def boot (r : Reactor T γ σ κ) : Watch T γ σ κ := ⟨App.boot r, fun _ => 0⟩

end Watch

/-! ## §2. The promise, and the condition. -/

/-- Fiber `f` waits for a time that has come, or waits no more. -/
structure Expiring (S : Sys T γ σ κ) (f : Nat) : Prop where
  cont : (view S.r f).ctx ≠ .entry ∧ (view S.r f).ctx ≠ .yield
  wait : ((view S.r f).state = .FB_PARKED ∧
      ∃ d, (view S.r f).deadline = some d ∧ d.toNat ≤ S.r.clock.toNat) ∨
    (view S.r f).state = .FB_READY

/-- The call is past its deadline and on its way out: it looks at the clock, it is about to wait for
no time at all, or that wait is due. -/
def Leaving (S : Sys T γ σ κ) (f : Nat) (c : Call) : Prop :=
  c.overdue S.r.clock = true ∧ match c.place with
    | .again => True
    | .ask t => t = 0
    | .parked => Expiring S f
    | .top | .sockopt => False

/-- `-1` for a reason of its own: a failed system call, a cancel, a failed registration. -/
def CallRet.own_error : CallRet → Bool
  | .failed _ | .wait_failed .CANCELLED _ | .wait_failed .ERROR _ => true
  | _ => false

/-- **What a total deadline promises.**  A read or write tries at most once past its deadline, and is
then on its way out; if it returns past its deadline, it returns `-1` with `ETIMEDOUT`, unless an
error of its own ends it. -/
structure Respects (W : Watch T γ σ κ) : Prop where
  once : ∀ f c, W.app.calls f = some c → c.op.transfers = true → W.late f ≤ 1
  leaving : ∀ f c, W.app.calls f = some c → c.op.transfers = true → W.late f = 1 →
    Leaving W.app.sys f c
  returned : ∀ f c res, W.app.returned = some (f, c, res) →
    c.overdue W.app.sys.r.clock = true → W.late f ≤ 1 ∧
      (res = .wait_failed .TIMEOUT .ETIMEDOUT ∨ res.own_error = true)

/-- **The condition on a step.**  A read or write past its deadline transfers nothing and is not
interrupted; one that has tried past its deadline does not come back from its wait for readiness. -/
def Meets (W : Watch T γ σ κ) (d : Do δ) : Bool :=
  match d, W.app.sys.pc with
  | .transfer r, .fiber f _ =>
    (W.app.calls f).all fun c => !c.overdue W.app.sys.r.clock || c.op.declined r
  | .sys .turn, .round _ =>
    match dispatch W.app.sys.r with
    | some (f, some .READY, _) => (W.app.calls f).all fun c => !c.op.transfers || W.late f == 0
    | _ => true
  | _, _ => true

/-! ## §3. What a step does to the counter, the clock and the deadlines. -/

section
variable {S S' : Sys T γ σ κ} {q q' : List Nat} {a : Action δ} {m : Move} {f : Nat}

/-- The loop hands control to the fiber at the head of the queue. -/
theorem dispatch_of_step (hno : ∀ g e, S.pc ≠ .fiber g e) {e : Option Nat}
    (hpc : S'.pc = .fiber f e) (hs : step L P K S a = some S') :
    a = .turn ∧ S.pc = .round e ∧ ∃ st r, dispatch S.r = some (f, st, r) ∧
      S'.ret = st.map .status := by
  have ha : a.foreign = false := by
    by_contra ha
    have hsame := (foreign_pc (by simpa using ha) hs).1
    exact hno f e (hsame.symm.trans hpc)
  have hflow := step_flow ha hs
  rw [hpc] at hflow
  cases hpc₀ : S.pc with
  | round e₀ =>
      obtain ⟨rfl, hturn⟩ := turn_of_step (by rw [hpc₀]; rfl) ha hs
      simp only [turn, hpc₀] at hturn
      split at hturn
      · obtain rfl := Option.some.inj hturn
        exact absurd hpc (by simp)
      · rename_i g st r hd
        obtain rfl := Option.some.inj hturn
        obtain ⟨rfl, rfl⟩ := Pc.fiber.inj hpc
        exact ⟨rfl, rfl, st, r, hd, rfl⟩
  | fiber g e' => exact absurd hpc₀ (hno g e')
  | back g e' => rw [hpc₀] at hflow; simp only [Flow] at hflow; split_ifs at hflow
  | _ => rw [hpc₀] at hflow; simp [Flow] at hflow

theorem Call.overdue_iff {c : Call} {clock : UInt64} :
    c.overdue clock = true ↔ c.op.transfers = true ∧ c.op.empty = false ∧ 0 ≤ c.op.timeout ∧
      c.entry.toNat + c.op.timeout.toNat ≤ clock.toNat := by
  simp [Call.overdue, and_assoc]

/-- Time does not take a deadline back. -/
theorem Call.overdue_mono {c : Call} {t t' : UInt64} (h : c.overdue t = true)
    (hle : t.toNat ≤ t'.toNat) : c.overdue t' = true := by
  rw [overdue_iff] at h ⊢
  exact ⟨h.1, h.2.1, h.2.2.1, Nat.le_trans h.2.2.2 hle⟩

/-- The deadline of a call depends on its operation and its entry only. -/
theorem Call.overdue_congr {c c' : Call} (hop : c'.op = c.op) (he : c'.entry = c.entry)
    (t : UInt64) : c'.overdue t = c.overdue t := by
  unfold Call.overdue
  rw [hop, he]

/-- An overdue call has no time left. -/
theorem remaining_overdue {s : Reactor T γ σ κ} {c : Call} (hd : DeadlineOk c) (hs : Early s.clock)
    (h : c.overdue s.clock = true) : remaining_ns s c.deadline = 0 := by
  obtain ⟨ht, -, hpos, hle⟩ := Call.overdue_iff.mp h
  have htarget : App.target c.op ≠ none := by
    cases hop : c.op <;> simp [hop, Op.transfers, App.target] at ht ⊢
  have hlim : c.limit = some (c.entry.toNat + c.op.timeout.toNat) := by
    have hlt := s.clock.toNat_lt
    unfold Call.limit
    rw [if_neg (by omega), if_pos (by omega)]
  have hdl := hd htarget
  rw [hlim, Option.getD_some] at hdl
  unfold Early at hs
  unfold remaining_ns
  dsimp only
  rw [if_neg, if_pos]
  · rw [UInt64.le_iff_toNat_le]
    omega
  · intro hno
    have := congrArg UInt64.toNat hno
    rw [NO_DEADLINE_toNat] at this
    omega

/-- **A fiber whose time has come** stays so until it is dispatched. -/
theorem Expiring.step (hok : Ok out good S q) (h : Expiring S f)
    (hd : Does P K out good S a S' m q q') (hle : S.r.clock.toNat ≤ S'.r.clock.toNat)
    (hm : m ≠ .dispatch f) : Expiring S' f := by
  have hkept : ((view S.r f).state = .FB_PARKED ∧
        ∃ d, (view S.r f).deadline = some d ∧ d.toNat ≤ S'.r.clock.toNat) ∨
      (view S.r f).state = .FB_READY :=
    h.wait.imp_left fun ⟨hst, d, hdl, hclock⟩ => ⟨hst, d, hdl, Nat.le_trans hclock hle⟩
  rcases hd.waiting hok (h.wait.imp_left And.left) hm with hv | hv | ⟨status, -, -, hv⟩
  · exact ⟨by rw [hv]; exact h.cont, by rw [hv]; exact hkept⟩
  · exact ⟨by rw [hv]; exact h.cont, by rw [hv]; exact hkept⟩
  · exact ⟨by rw [hv]; exact h.cont, Or.inr (by rw [hv]; rfl)⟩

end

/-! ## §4. A call on its way out. -/

section
variable {A A' : App T γ σ κ} {q : List Nat} {d : Do δ} {f : Nat} {c : Call}

/-- The clock of the system is monotone. -/
theorem clock_le (H : LibcOk T L out good) (h : AppOk out good A q) (ht : d.Ticks A)
    (hs : A.step L P K d = some A') : A.sys.r.clock.toNat ≤ A'.sys.r.clock.toNat := by
  rcases App.step_sys hs with hsame | ⟨a, hstep, hlabel⟩
  · rw [hsame]
  · obtain ⟨m, q', hd⟩ := step_does H h.ok hstep
    have hticks : Ticks A.sys a := by
      rcases hlabel with rfl | hb
      · exact ht
      · rintro dt rfl
        exact absurd hb (by simp [Action.blocks])
    exact (hd.label.clock_le hticks h.early).1

/-- A call that is where it was is still on its way out. -/
theorem Leaving.same (H : LibcOk T L out good) (h : AppOk out good A q) (ht : d.Ticks A)
    (hs : A.step L P K d = some A') (hl : Leaving A.sys f c)
    (hn : (∀ e, A.sys.pc ≠ .fiber f e) → ∀ e st, A'.sys.pc = .fiber f e →
      A'.sys.ret ≠ some (.status st)) : Leaving A'.sys f c := by
  have hle := clock_le H h ht hs
  obtain ⟨hover, hplace⟩ := hl
  refine ⟨Call.overdue_mono hover hle, ?_⟩
  cases hp : c.place with
  | top => rw [hp] at hplace; exact hplace
  | again => trivial
  | ask t => rw [hp] at hplace; exact hplace
  | sockopt => rw [hp] at hplace; exact hplace
  | parked =>
      rw [hp] at hplace
      show Expiring A'.sys f
      rcases App.step_sys hs with hsame | ⟨a, hstep, -⟩
      · rw [hsame]
        exact hplace
      · obtain ⟨m, q', hdoes⟩ := step_does H h.ok hstep
        apply hplace.step h.ok hdoes hle
        rintro rfl
        -- a dispatched fiber would have come back from its wait
        obtain ⟨⟨e, hpc⟩, hno⟩ := hdoes.dispatch_pc h.ok rfl
        have hret := hdoes.label.of_dispatch f rfl
        have hst : (view A.sys.r f).returned = some (view A.sys.r f).wait_status := by
          obtain ⟨h1, h2⟩ := hplace.cont
          unfold FiberView.returned
          split <;> simp_all
        rw [hst] at hret
        exact hn (fun e' => hno f e') e _ hpc hret

/-- **A wait for no time** is due as soon as it begins. -/
theorem expiring_of_wait (h : AppOk out good A q) {e : Option Nat} (hpc : A.sys.pc = .fiber f e)
    {fd : Int} {dir : UInt32} (hs : CFiber.Ev.step L P K A.sys (.wait fd dir 0) = some A'.sys)
    (hn : ∀ st, A'.sys.ret ≠ some (.status st)) : Expiring A'.sys f := by
  obtain ⟨hcur, -⟩ := h.ok.current hpc
  simp only [CFiber.Ev.step, hpc, act] at hs
  have hcalled := Option.some.inj hs
  rcases cfiber_ev_wait_spec (L := L) K h.ok.core hcur fd dir 0 with
    ⟨r', heq, -⟩ | ⟨r', heq, hpark, -⟩
  · rw [heq] at hcalled
    rw [← hcalled] at hn
    exact absurd rfl (hn .ERROR)
  · rw [heq] at hcalled
    have hview : view A'.sys.r f = (view A.sys.r f).parked .PARK_FD fd (deadline_of A.sys.r 0) := by
      rw [← hcalled]
      show view r' f = _
      rw [hpark.view, Function.update_self]
    have hclock : A'.sys.r.clock = A.sys.r.clock := by
      rw [← hcalled]
      exact hpark.kept.clock
    have hdl : deadline_of A.sys.r 0 = some (deadline_after A.sys.r 0) := rfl
    have hsum := deadline_after_toNat A.sys.r 0
    refine ⟨?_, Or.inl ⟨?_, deadline_after A.sys.r 0, ?_, ?_⟩⟩
    · rw [hview]
      simp [FiberView.parked, ParkKind.ctx]
    · rw [hview]
      rfl
    · rw [hview, hdl]
      rfl
    · rw [hclock, hsum]
      have hz : (0 : UInt64).toNat = 0 := rfl
      omega

end

/-! ## §5. The counter. -/

section
variable {W W' : Watch T γ σ κ} {d : Do δ} {f : Nat} {c c' : Call}

theorem counted_sys (a : Action δ) : W.counted (.sys a) = W.late := rfl

theorem counted_other (hpc : ∀ e, W.app.sys.pc ≠ .fiber f e) : W.counted d f = W.late f := by
  have hne : ∀ g e, W.app.sys.pc = .fiber g e → f ≠ g := by
    rintro g e hg rfl
    exact hpc e hg
  cases hg : W.app.sys.pc with
  | fiber g e =>
      cases d with
      | call op =>
          simp only [Watch.counted, hg]
          exact Function.update_of_ne (hne g e hg) _ _
      | transfer r =>
          simp only [Watch.counted, hg]
          split_ifs
          · exact Function.update_of_ne (hne g e hg) _ _
          · rfl
      | _ => rfl
  | _ => cases d <;> simp [Watch.counted, hg]

theorem counted_transfer {r : Except Errno Nat} (hpc : ∃ e, W.app.sys.pc = .fiber f e)
    (hc : W.app.calls f = some c) : W.counted (.transfer r : Do δ) f =
      if c.overdue W.app.sys.r.clock then W.late f + 1 else W.late f := by
  obtain ⟨e, hpc⟩ := hpc
  simp only [Watch.counted, hpc, hc, Option.any_some]
  split_ifs
  · exact Function.update_self _ _ _
  · rfl

theorem counted_call {op : Op} (hpc : ∃ e, W.app.sys.pc = .fiber f e) :
    W.counted (.call op : Do δ) f = 0 := by
  obtain ⟨e, hpc⟩ := hpc
  simp only [Watch.counted, hpc]
  exact Function.update_self _ _ _

/-- The condition at a transfer. -/
theorem meets_transfer {r : Except Errno Nat} (hpc : ∃ e, W.app.sys.pc = .fiber f e)
    (hc : W.app.calls f = some c) : Meets W (.transfer r : Do δ) = true ↔
      (c.overdue W.app.sys.r.clock = true → c.op.declined r = true) := by
  obtain ⟨e, hpc⟩ := hpc
  simp only [Meets, hpc, hc, Option.all_some]
  cases c.overdue W.app.sys.r.clock <;> simp

/-- The condition at a dispatch. -/
theorem meets_dispatch {e : Option Nat} {r : Reactor T γ σ κ} (hpc : W.app.sys.pc = .round e)
    (hd : dispatch W.app.sys.r = some (f, some .READY, r)) (hc : W.app.calls f = some c) :
    Meets W (.sys .turn : Do δ) = true ↔ (c.op.transfers = true → W.late f = 0) := by
  simp only [Meets, hpc, hd, hc, Option.all_some]
  cases c.op.transfers <;> simp

/-- What was declined blocks, or fails. -/
theorem declined_iff (ht : c.op.transfers = true) (r : Except Errno Nat) :
    c.op.declined r = true ↔ (c.answer r).1 = .block ∨ ∃ e, (c.answer r).1 = .fail e := by
  cases hop : c.op with
  | read fd n t =>
      simp only [Op.declined, Call.answer, hop]
      cases r with
      | ok w => simp [read_turn]
      | error e => cases e <;> simp [read_turn]
  | write fd buf t =>
      simp only [Op.declined, Call.answer, hop]
      cases r with
      | ok w =>
          cases w with
          | zero => simp [write_turn]
          | succ w =>
              simp only [write_turn]
              split_ifs <;> simp
      | error e => cases e <;> simp [write_turn]
  | _ => simp [hop, Op.transfers] at ht

theorem answer_entry (c : Call) (r : Except Errno Nat) : (c.answer r).2.entry = c.entry := by
  unfold Call.answer
  split <;> rfl

end

/-! ## §6. Steps. -/

/-- **The invariant**, as long as every step meets the condition. -/
structure Watched (out : γ → List Region) (good : γ → Prop) (W : Watch T γ σ κ) : Prop where
  app : ∃ q, AppOk out good W.app q
  writing : ∃ q, Writing out good W.app q
  respects : Respects W

section
variable {W W' : Watch T γ σ κ} {d : Do δ} {f : Nat} {c c' : Call}

theorem Watch.step_app (hs : W.step L P K d = some W') :
    W.app.step L P K d = some W'.app ∧ W'.late = W.counted d ∧ W.fits d = true := by
  unfold Watch.step at hs
  split_ifs at hs with hfits
  obtain ⟨A, hA, rfl⟩ := Option.map_eq_some_iff.mp hs
  exact ⟨hA, rfl, hfits⟩

theorem Watched.ticks (h : Watched out good W) (hf : W.fits d = true) : d.Ticks W.app := by
  obtain ⟨q, hq⟩ := h.app
  cases d with
  | sys a =>
      rintro dt rfl
      refine ⟨hq.early, ?_⟩
      simpa [Watch.fits] using hf
  | _ => trivial

/-- A call that is at its system call has not tried past its deadline. -/
theorem Respects.fresh (h : Respects W) (hc : W.app.calls f = some c)
    (ht : c.op.transfers = true) (hp : c.place = .top) : W.late f = 0 := by
  have honce := h.once f c hc ht
  by_contra hne
  have hl := h.leaving f c hc ht (by omega)
  unfold Leaving at hl
  rw [hp] at hl
  exact hl.2

/-- **A read or write in progress** after a step that meets the condition. -/
theorem Watched.goes (H : LibcOk T L out good) (h : Watched out good W) (hm : Meets W d = true)
    (hs : W.step L P K d = some W') (hc : W'.app.calls f = some c') (ht : c'.op.transfers = true) :
    W'.late f ≤ 1 ∧ (W'.late f = 1 → Leaving W'.app.sys f c') := by
  obtain ⟨hA, hlate, hfits⟩ := Watch.step_app hs
  obtain ⟨q, hq⟩ := h.app
  have hticks := h.ticks hfits
  have hresp := h.respects
  -- where the counter stays, the promise is passed on
  have hpass : ∀ c, W.app.calls f = some c → c.op.transfers = true → W'.late f = W.late f →
      (Leaving W.app.sys f c → Leaving W'.app.sys f c') →
      W'.late f ≤ 1 ∧ (W'.late f = 1 → Leaving W'.app.sys f c') := by
    intro c hc ht heq hgo
    rw [heq]
    exact ⟨hresp.once f c hc ht, fun h1 => hgo (hresp.leaving f c hc ht h1)⟩
  have hfree : W'.late f = 0 → W'.late f ≤ 1 ∧ (W'.late f = 1 → Leaving W'.app.sys f c') := by
    intro h0
    exact ⟨by omega, fun h1 => by omega⟩
  cases App.step_goes hA hc ht with
  | same hc₀ hd hn =>
      apply hpass c' hc₀ ht _ fun hl => hl.same H hq hticks hA hn
      rw [hlate]
      by_cases hpc : ∃ e, W.app.sys.pc = .fiber f e
      · obtain ⟨e, hpc⟩ := hpc
        obtain ⟨a, rfl⟩ := hd e hpc
        rfl
      · exact counted_other fun e he => hpc ⟨e, he⟩
  | made _ hpc hd _ _ _ =>
      apply hfree
      rw [hlate, hd]
      exact counted_call hpc
  | @again c r hc₀ hpc hd hp hsys hr hturn he =>
      rw [he] at ht
      have ht₀ : c.op.transfers = true := by rw [← App.answer_op c r]; exact ht
      apply hfree
      rw [hlate, hd, counted_transfer hpc hc₀, hresp.fresh hc₀ ht₀ hp]
      -- past the deadline the condition has the loop block or fail
      split_ifs with hover
      · rw [hd, meets_transfer hpc hc₀] at hm
        rcases (declined_iff ht₀ r).mp (hm hover) with hb | ⟨e, hb⟩
        · exact absurd (hturn.symm.trans hb) (by simp)
        · exact absurd (hturn.symm.trans hb) (by simp)
      · rfl
  | @blocked c r hc₀ hpc hd hp hsys hr hturn he =>
      rw [he] at ht
      have ht₀ : c.op.transfers = true := by rw [← App.answer_op c r]; exact ht
      have hcount : W'.late f = if c.overdue W.app.sys.r.clock then 1 else 0 := by
        rw [hlate, hd, counted_transfer hpc hc₀, hresp.fresh hc₀ ht₀ hp]
      by_cases hover : c.overdue W.app.sys.r.clock = true
      · rw [if_pos hover] at hcount
        refine ⟨by omega, fun _ => ⟨?_, ?_⟩⟩
        · rw [hsys, he]
          show Call.overdue (c.answer r).2 W.app.sys.r.clock = true
          rw [Call.overdue_congr (App.answer_op c r) (answer_entry c r)]
          exact hover
        · rw [he]
          trivial
      · rw [if_neg hover] at hcount
        exact hfree hcount
  | @looked c hc₀ hpc hd hp hsys he =>
      rw [he] at ht
      apply hpass c hc₀ ht (by rw [hlate, hd]; rfl)
      rintro ⟨hover, -⟩
      rw [hsys, he]
      exact ⟨hover, remaining_overdue (hq.calls f c hc₀).deadline hq.early hover⟩
  | @parked c t fd dir hc₀ hpc hd hp htarget hstep hn he =>
      rw [he] at ht
      apply hpass c hc₀ ht (by rw [hlate, hd]; rfl)
      rintro ⟨hover, hplace⟩
      rw [hp] at hplace
      obtain rfl : t = 0 := hplace
      obtain ⟨e, hpc⟩ := hpc
      rw [he]
      exact ⟨Call.overdue_mono hover (clock_le H hq hticks hA), expiring_of_wait hq hpc hstep hn⟩
  | returned hc₀ hpc hd hp htarget hstep hn he =>
      -- a wait on a descriptor is never ready at once
      obtain ⟨q', hw⟩ := h.writing
      obtain ⟨e, hpc⟩ := hpc
      exact absurd (hw.refused hpc hstep hn).1 (by simp)
  | @ready c a hc₀ hpc hd hstep hpc' hn he =>
      rw [he] at ht
      apply hfree
      obtain ⟨e, hpc'⟩ := hpc'
      obtain ⟨rfl, hround, st, r, hdisp, hret⟩ := dispatch_of_step hpc hpc' hstep
      rw [hlate, hd, counted_sys]
      obtain rfl : st = some .READY := by
        rw [hn] at hret
        cases st with
        | none => exact absurd hret (by simp)
        | some st => simpa using hret.symm
      rw [hd, meets_dispatch hround hdisp hc₀] at hm
      exact hm ht

/-- **A read or write that returns past its deadline** after a step that meets the condition. -/
theorem Watched.stops (h : Watched out good W) (hm : Meets W d = true)
    (hs : W.step L P K d = some W') {res : CallRet}
    (hret : W'.app.returned = some (f, c, res)) (hover : c.overdue W'.app.sys.r.clock = true) :
    W'.late f ≤ 1 ∧ (res = .wait_failed .TIMEOUT .ETIMEDOUT ∨ res.own_error = true) := by
  obtain ⟨hA, hlate, hfits⟩ := Watch.step_app hs
  obtain ⟨q', hw⟩ := h.writing
  obtain ⟨q, hq⟩ := h.app
  have hresp := h.respects
  have ht := (Call.overdue_iff.mp hover).1
  cases App.step_stops hA hret ht hw.sockopt with
  | empty hd hsys he =>
      -- nothing to write is never overdue
      rw [he] at hover
      exact absurd (Call.overdue_iff.mp hover).2.1 (by simp [Op.fresh, Op.empty])
  | @done c₀ r n hc₀ hpc hd hp hsys hr hturn he =>
      exfalso
      rw [he, hsys, Call.overdue_congr (App.answer_op c₀ r) (answer_entry c₀ r)] at hover
      have ht₀ := (Call.overdue_iff.mp hover).1
      rw [hd, meets_transfer hpc hc₀] at hm
      rcases (declined_iff ht₀ r).mp (hm hover) with hb | ⟨e, hb⟩
      · exact absurd (hturn.symm.trans hb) (by simp)
      · exact absurd (hturn.symm.trans hb) (by simp)
  | @failed c₀ r e hc₀ hpc hd hp hsys hr hturn he =>
      rw [he, hsys, Call.overdue_congr (App.answer_op c₀ r) (answer_entry c₀ r)] at hover
      have ht₀ := (Call.overdue_iff.mp hover).1
      refine ⟨?_, Or.inr rfl⟩
      rw [hlate, hd, counted_transfer hpc hc₀, if_pos hover, hresp.fresh hc₀ ht₀ hp]
  | refused hc₀ hpc hd hp htarget hstep hst hne =>
      obtain ⟨e, hpc⟩ := hpc
      obtain ⟨rfl, -⟩ := hw.refused hpc hstep hst
      refine ⟨?_, Or.inr rfl⟩
      rw [hlate, hd]
      exact hresp.once f c hc₀ ht
  | @woken a st hc₀ hpc hd hstep hpc' hst hne =>
      refine ⟨?_, ?_⟩
      · rw [hlate, hd]
        exact hresp.once f c hc₀ ht
      · cases st with
        | READY => exact absurd rfl hne
        | TIMEOUT => exact Or.inl rfl
        | CANCELLED => exact Or.inr rfl
        | ERROR => exact Or.inr rfl

/-- **A step that meets the condition** keeps the invariant. -/
theorem Watched.step (H : LibcOk T L out good) (h : Watched out good W) (hm : Meets W d = true)
    (hs : W.step L P K d = some W') : Watched out good W' := by
  obtain ⟨hA, -, hfits⟩ := Watch.step_app hs
  obtain ⟨q, hq⟩ := h.app
  obtain ⟨q', hw⟩ := h.writing
  refine ⟨hq.step H (h.ticks hfits) hA, hw.step H hA, ?_, ?_, ?_⟩
  · intro f c hc ht
    exact (h.goes H hm hs hc ht).1
  · intro f c hc ht
    exact (h.goes H hm hs hc ht).2
  · intro f c res hret hover
    exact h.stops hm hs hret hover

/-- A transfer is the next thing the call at its system call does. -/
theorem transfer_step {A A' : App T γ σ κ} {r : Except Errno Nat} {e : Option Nat}
    (hpc : A.sys.pc = .fiber f e) (hs : A.step L P K (.transfer r) = some A') :
    ∃ c, A.calls f = some c ∧ A.transfer f c r = some A' := by
  simp only [App.step, hpc] at hs
  obtain ⟨c, hc, hs⟩ := Option.bind_eq_some_iff.mp hs
  refine ⟨c, hc, ?_⟩
  unfold App.resume_call at hs
  split at hs
  · rename_i hd _
    rw [Do.transfer.inj hd]
    exact hs
  · rename_i hd _
    exact absurd hd (by simp)
  · rename_i hd _
    exact absurd hd (by simp)
  · rename_i hd _
    exact absurd hd (by simp)
  · rename_i hd _
    exact absurd hd (by simp)
  · exact absurd hs (by simp)

/-- A dispatched read or write whose descriptor is ready goes back to its system call. -/
theorem ready_step {A A' : App T γ σ κ} {e : Option Nat} {r : Reactor T γ σ κ}
    (hpc : A.sys.pc = .round e) (hd : dispatch A.sys.r = some (f, some .READY, r))
    (hc : A.calls f = some c) (ht : c.op.transfers = true)
    (hs : A.step L P K (.sys .turn) = some A') :
    A'.calls f = some { c with place := .top } := by
  have hloop : A.loop L P K (.turn : Action δ) = some A' := by
    simpa [App.step, hpc, Action.blocks, Action.foreign] using hs
  simp only [App.loop, CFiber.Ev.step, turn, hpc, hd, Option.map_some] at hloop
  obtain rfl := Option.some.inj hloop
  simp only [hc, App.arrive_transfers ht, if_true, App.put, Function.update_self]

/-- **A step that does not meet the condition** breaks the promise at once. -/
theorem Watched.breaks (hm : ¬ Meets W d = true) (hs : W.step L P K d = some W') :
    ¬ Respects W' := by
  obtain ⟨hA, hlate, -⟩ := Watch.step_app hs
  intro hresp
  -- a read or write that has tried and is at its system call again
  have hagain : ∀ (f : Nat) (c : Call), W'.app.calls f = some { c with place := .top } →
      c.op.transfers = true → W'.late f ≠ 0 → False := by
    intro f c hc ht hne
    have honce := hresp.once f _ hc ht
    exact (hresp.leaving f _ hc ht (by omega)).2
  cases hpc : W.app.sys.pc with
  | fiber f e =>
      cases d with
      | transfer r =>
          obtain ⟨c, hc, htransfer⟩ := transfer_step hpc hA
          have hpc' : ∃ e, W.app.sys.pc = .fiber f e := ⟨e, hpc⟩
          rw [meets_transfer hpc' hc] at hm
          obtain ⟨hover, hnot⟩ := Classical.not_imp.mp hm
          have ht := (Call.overdue_iff.mp hover).1
          rw [declined_iff ht, not_or, not_exists] at hnot
          obtain ⟨-, heq⟩ := App.transfer_transfers ht htransfer
          have ht' : (c.answer r).2.op.transfers = true := by
            rw [App.answer_op]
            exact ht
          rw [App.settle_transfers ht'] at heq
          cases hturn : (c.answer r).1 with
          | block => exact hnot.1 hturn
          | fail e' => exact hnot.2 e' hturn
          | retry =>
              apply hagain f (c.answer r).2
              · rw [heq, hturn]
                simp [App.put]
              · exact ht'
              · rw [hlate, counted_transfer hpc' hc, if_pos hover]
                omega
          | done n =>
              rw [hturn] at heq
              have hret : W'.app.returned = some (f, (c.answer r).2, .count n) := by
                rw [heq]
                rfl
              have hover' : (c.answer r).2.overdue W'.app.sys.r.clock = true := by
                rw [heq, App.leave_sys, Call.overdue_congr (App.answer_op c r) (answer_entry c r)]
                exact hover
              rcases (hresp.returned _ _ _ hret hover').2 with hx | hx
              · exact absurd hx (by simp)
              · exact absurd hx (by simp [CallRet.own_error])
      | _ => exact hm (by simp [Meets, hpc])
  | round e =>
      cases d with
      | sys a =>
          cases a with
          | turn =>
              rcases hd : dispatch W.app.sys.r with _ | ⟨f, _ | st, r⟩
              · exact hm (by simp [Meets, hpc, hd])
              · exact hm (by simp [Meets, hpc, hd])
              · cases st with
                | READY =>
                    cases hc : W.app.calls f with
                    | none => exact hm (by simp [Meets, hpc, hd, hc])
                    | some c =>
                        rw [meets_dispatch hpc hd hc] at hm
                        obtain ⟨ht, hne⟩ := Classical.not_imp.mp hm
                        exact hagain f c (ready_step hpc hd hc ht hA) ht (by rw [hlate]; exact hne)
                | _ => exact hm (by simp [Meets, hpc, hd])
          | _ => exact hm (by simp [Meets])
      | _ => exact hm (by simp [Meets, hpc])
  | _ =>
      cases d with
      | sys a => cases a <;> exact hm (by simp [Meets, hpc])
      | _ => exact hm (by simp [Meets, hpc])

end

/-! ## §7. Runs. -/

theorem Watched.start {r : Reactor T γ σ κ} (hr : Fresh T out good r)
    (hclock : r.clock.toNat < 2 ^ 64 - 1) : Watched out good (Watch.boot r) := by
  have hnone : ∀ f c, (Watch.boot r).app.calls f = some c → False := by
    intro f c hc
    exact absurd hc (by simp [Watch.boot, App.boot])
  refine ⟨⟨[], boot_ok hr, hclock, ?_, ?_, returnOk_none rfl⟩, ⟨[], .start hr⟩, ?_, ?_, ?_⟩
  · intro now hpc
    exact absurd hpc (by simp [Watch.boot, App.boot, boot])
  · intro f c hc
    exact (hnone f c hc).elim
  · intro f c hc
    exact (hnone f c hc).elim
  · intro f c hc
    exact (hnone f c hc).elim
  · intro f c res hret
    exact absurd hret (by simp [Watch.boot, App.boot])

/-- **When the timed helpers respect their deadline.**  In every run with a monotone clock, every
state respects the deadlines of the reads and writes exactly if every step meets the condition. -/
theorem respects_deadlines_iff (H : LibcOk T L out good) {r : Reactor T γ σ κ} (hr : Fresh T out good r)
    (hclock : r.clock.toNat < 2 ^ 64 - 1) {ds : List (Do δ)} {W : Watch T γ σ κ}
    (h : exec (Watch.step L P K) (Watch.boot r) ds = some W) :
    Along (Watch.step L P K) Respects (Watch.boot r) ds ↔
      exec (under (fun W d => Meets W d = true) (Watch.step L P K)) (Watch.boot r) ds = some W := by
  apply along_iff_under (Watched out good) (fun W hW => hW.respects) _ _ (.start hr hclock) h
  · intro W d W' hW hm hs
    exact hW.step H hm hs
  · intro W d W' _ hm hs
    exact Watched.breaks hm hs

/-- A write of three bytes in five nanoseconds; the time is up when it has taken one. -/
def timed_write : List (Do Choice) :=
  [.sys .spawn, .sys .run, .sys .turn, .sys .turn, .call (.write 3 [7, 8, 9] 5), .transfer (.ok 1),
    .sys (.tick 10)]

/-- It would block then, and times out. -/
def blocked_write : List (Do Choice) :=
  timed_write ++ [.transfer (.error .EAGAIN), .look, .rewait, .sys .turn, .sys .turn,
    .sys (.poll (.report [] false)), .sys .turn, .sys .turn, .sys .turn, .sys .turn, .sys .turn]

theorem respects_deadlines_iff_epoll : ∃ r W, start = some r ∧
    exec (Watch.step bumpLibc roomyStacks epoll) (Watch.boot r) blocked_write = some W ∧
    Along (Watch.step bumpLibc roomyStacks epoll) Respects (Watch.boot r) blocked_write := by
  have hsome : (start.bind fun r =>
      exec (under (fun W d => Meets W d = true) (Watch.step bumpLibc roomyStacks epoll))
        (Watch.boot r) blocked_write).isSome = true := by
    decide +kernel
  obtain ⟨W, hW⟩ := Option.isSome_iff_exists.mp hsome
  obtain ⟨r, hr, hunder⟩ := Option.bind_eq_some_iff.mp hW
  have hclock : r.clock.toNat < 2 ^ 64 - 1 := by
    rw [start_clock hr]
    decide
  have hrun := exec_of_under hunder
  exact ⟨r, W, hr, hrun, (respects_deadlines_iff bumpLibc_ok (start_fresh hr) hclock hrun).mpr hunder⟩

/-- It takes the two other bytes instead, one at a time: two tries past the deadline, and the write
returns its length. -/
theorem write_past_deadline : ∃ r W f c, start = some r ∧
    exec (Watch.step bumpLibc roomyStacks epoll) (Watch.boot r)
      (timed_write ++ [.transfer (.ok 1), .transfer (.ok 1)]) = some W ∧
    W.app.returned = some (f, c, .count 3) ∧ c.op = .write 3 [7, 8, 9] 5 ∧
    c.overdue W.app.sys.r.clock = true ∧ W.late f = 2 ∧ ¬ Respects W := by
  have hsome : ((start.bind fun r =>
      exec (Watch.step bumpLibc roomyStacks epoll) (Watch.boot r)
        (timed_write ++ [.transfer (.ok 1), .transfer (.ok 1)])).bind fun W =>
          (W.app.returned.filter fun x => x.2.1.op = .write 3 [7, 8, 9] 5 ∧ x.2.2 = .count 3 ∧
            x.2.1.overdue W.app.sys.r.clock = true ∧ W.late x.1 = 2).map fun x => (W, x)).isSome
      = true := by
    decide +kernel
  obtain ⟨⟨W, f, c, res⟩, hx⟩ := Option.isSome_iff_exists.mp hsome
  obtain ⟨W₁, hW, hx⟩ := Option.bind_eq_some_iff.mp hx
  obtain ⟨y, hy, hxy⟩ := Option.map_eq_some_iff.mp hx
  obtain ⟨rfl, rfl⟩ : W₁ = W ∧ y = (f, c, res) := by simpa using hxy
  obtain ⟨r, hr, hrun⟩ := Option.bind_eq_some_iff.mp hW
  obtain ⟨hret, hprops⟩ := Option.filter_eq_some_iff.mp hy
  obtain ⟨hop, rfl, hover, hlate⟩ : c.op = .write 3 [7, 8, 9] 5 ∧ res = .count 3 ∧
      c.overdue W₁.app.sys.r.clock = true ∧ W₁.late f = 2 := by simpa using hprops
  refine ⟨r, W₁, f, c, hr, hrun, hret, hop, hover, hlate, ?_⟩
  intro hresp
  have hle := (hresp.returned f c _ hret hover).1
  omega

end CFiber.Ev
