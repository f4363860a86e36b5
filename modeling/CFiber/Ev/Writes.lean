/-
  CFiber.Ev.Writes — a write transfers every byte once.

  `sent` collects what the calls of write(2) took, each from the place in the buffer it was given.
  The loop keeps `off` equal to the number of these bytes (`Written`), across short writes,
  interruptions and waits, so `sent` is always the first `off` bytes of the buffer.

    • `arm_fd_error`, `wait_error` — the error number a failed registration leaves;
    • `exec_writing`               — the invariant of the calls, over runs;
    • `write_once`                 — what was taken is the start of the buffer, the call returns the
                                     length exactly if that is all of it, and otherwise `-1` with the
                                     error number of what stopped it.
-/
import CFiber.Ev.Environment
import CFiber.Ev.Turns

namespace CFiber.Ev

open CFiber.Base CFiber.Memory

variable {T : Target} {γ σ κ δ : Type}
variable {L : Libc γ} {P : StackPool σ} {K : Kernel κ δ}
variable {out : γ → List Region} {good : γ → Prop}

/-! ## §1. The errors of a registration. -/

/-- **Why `arm_fd` fails**, and the error number it leaves. -/
inductive ArmError (L : Libc γ) (K : Kernel κ δ) (s : Reactor T γ σ κ) (f : Nat) (fd : Int)
    (events : UInt32) (s' : Reactor T γ σ κ) : Prop
  | negative (hfd : fd < 0) (he : s'.errno = .EBADF)
  | no_room (hfd : 0 ≤ fd) (hr : (fd_owner_reserve L s fd).1 = false) (he : s'.errno = .ENOMEM)
  | busy {holder : Nat} (hne : holder ≠ f) (hp : ParkedOn s holder fd) (he : s'.errno = .EBUSY)
  /-- The last call on the epoll object failed. -/
  | kernel {op : CtlOp} {k : κ} (hop : op ≠ .EPOLL_CTL_DEL)
      (hk : K.epoll_ctl op fd (events ||| EPOLLONESHOT) (some f) k = (some s'.errno, s'.epoll))

/-- **Why a wait on a descriptor fails** at once. -/
inductive WaitError (L : Libc γ) (K : Kernel κ δ) (s : Reactor T γ σ κ) (f : Nat) (fd : Int)
    (direction : UInt32) (s' : Reactor T γ σ κ) : Prop
  | direction (hd : bad_direction direction = true) (he : s'.errno = .EINVAL)
  | arm (h : ArmError L K s f fd (epoll_events direction) s')
  | timer {s₁ : Reactor T γ σ κ} {deadline : UInt64}
      (harm : arm_fd L K s f fd (epoll_events direction) = (true, s₁))
      (hadd : (timer_add L s₁ f deadline).1 = false) (he : s'.errno = .ENOMEM)

section
variable {s s' : Reactor T γ σ κ} {f : Nat} {fd : Int} {events : UInt32}

/-- The last call on the epoll object, for `f` and `fd`, failed. -/
def CtlError (K : Kernel κ δ) (f : Nat) (fd : Int) (events : UInt32) (s' : Reactor T γ σ κ) : Prop :=
  ∃ op k, op ≠ CtlOp.EPOLL_CTL_DEL ∧
    K.epoll_ctl op fd (events ||| EPOLLONESHOT) (some f) k = (some s'.errno, s'.epoll)

theorem arm_entry_error {op : CtlOp} (hop : op ≠ .EPOLL_CTL_DEL)
    (h : arm_entry K s f fd events op = (false, s')) : CtlError K f fd events s' := by
  -- a try that failed left its error number
  have htry : ∀ (s₁ s₂ : Reactor T γ σ κ) (op : CtlOp), op ≠ .EPOLL_CTL_DEL →
      epoll_ctl K s₁ op fd (events ||| EPOLLONESHOT) (some f) = (false, s₂) →
      CtlError K f fd events (arm_failed s₂ f fd).2 := by
    intro s₁ s₂ op hop hctl
    unfold epoll_ctl at hctl
    split at hctl
    · exact absurd (Prod.mk.inj hctl).1 (by simp)
    · rename_i e k hk
      obtain rfl := (Prod.mk.inj hctl).2
      exact ⟨op, _, hop, hk⟩
  unfold arm_entry at h
  split at h
  · exact absurd (Prod.mk.inj h).1 (by simp)
  · rename_i s₁ hfirst
    dsimp only at h
    split at h
    · obtain rfl := (Prod.mk.inj h).2
      exact htry _ _ op hop hfirst
    · rename_i op' hop'
      have hadd : op' ≠ .EPOLL_CTL_DEL := by
        split_ifs at hop' <;> obtain rfl := Option.some.inj hop' <;> simp
      split at h
      · exact absurd (Prod.mk.inj h).1 (by simp)
      · rename_i s₂ hsecond
        obtain rfl := (Prod.mk.inj h).2
        exact htry _ _ op' hadd hsecond

/-- The descriptor is taken, or the kernel refused. -/
theorem arm_holder_error (h : arm_holder K s f fd events = (false, s')) :
    (∃ holder, holder ≠ f ∧ ParkedOn s holder fd ∧ s'.errno = .EBUSY) ∨
      CtlError K f fd events s' := by
  unfold arm_holder at h
  split at h
  · exact Or.inr (arm_entry_error (by simp) h)
  · rename_i holder _
    split_ifs at h with hne hbusy
    · obtain rfl := (Prod.mk.inj h).2
      exact Or.inl ⟨holder, hne, hbusy, rfl⟩
    · exact Or.inr (arm_entry_error (by simp) h)
    · exact Or.inr (arm_entry_error (by simp) h)

/-- Detaching touches no state and no wait. -/
theorem detach_fd_waits (K : Kernel κ δ) (s : Reactor T γ σ κ) (f : Nat) :
    (detach_fd K s f).mem.state = s.mem.state ∧ (detach_fd K s f).mem.wait_fd = s.mem.wait_fd := by
  unfold detach_fd epoll_ctl
  dsimp only
  split_ifs
  · exact ⟨rfl, rfl⟩
  · split <;> exact ⟨rfl, rfl⟩
  · exact ⟨rfl, rfl⟩

/-- Nor does growing the map. -/
theorem fd_owner_reserve_mem {ok : Bool} (h : fd_owner_reserve L s fd = (ok, s')) :
    s'.mem = s.mem := by
  unfold fd_owner_reserve at h
  dsimp only at h
  generalize grow_cap _ _ _ = cap at h
  split at h
  · rw [← (Prod.mk.inj h).2]
  · split at h
    · rw [← (Prod.mk.inj h).2]
    · rw [← (Prod.mk.inj h).2]

/-- **The error of `arm_fd`.** -/
theorem arm_fd_error (h : arm_fd L K s f fd events = (false, s')) :
    ArmError L K s f fd events s' := by
  unfold arm_fd at h
  split_ifs at h with hfd
  · obtain rfl := (Prod.mk.inj h).2
    exact .negative hfd rfl
  split at h
  · rename_i s₁ hres
    obtain rfl := (Prod.mk.inj h).2
    exact .no_room (by omega) (by rw [hres]) rfl
  · rename_i s₁ hres
    have hmem := fd_owner_reserve_mem hres
    rcases arm_holder_error h with ⟨holder, hne, hp, he⟩ | ⟨op, k, hop, hk⟩
    · refine .busy hne ?_ he
      -- what was dropped before is no wait of another fiber
      unfold ParkedOn at hp ⊢
      rw [← hmem]
      split_ifs at hp
      · rw [(detach_fd_waits K s₁ f).1, (detach_fd_waits K s₁ f).2] at hp
        exact hp
      · exact hp
    · exact .kernel hop hk

/-- **The error of `cfiber_ev_wait`**: it returns at once only to fail. -/
theorem wait_error {direction : UInt32} {timeout_ns : Int64} {st : EvStatus}
    (hcur : s.current = some f)
    (h : cfiber_ev_wait L K s fd direction timeout_ns = (some st, s')) :
    st = .ERROR ∧ WaitError L K s f fd direction s' := by
  unfold cfiber_ev_wait at h
  rw [hcur] at h
  dsimp only at h
  split_ifs at h with hdir htime
  · obtain ⟨rfl, rfl⟩ : EvStatus.ERROR = st ∧ _ = s' := by simpa using h
    exact ⟨rfl, .direction hdir rfl⟩
  · split at h
    · rename_i s₁ harm
      obtain ⟨rfl, rfl⟩ : EvStatus.ERROR = st ∧ s₁ = s' := by simpa using h
      exact ⟨rfl, .arm (arm_fd_error harm)⟩
    · rename_i s₁ harm
      split at h
      · rename_i s₂ hadd
        obtain ⟨rfl, rfl⟩ : EvStatus.ERROR = st ∧ _ = s' := by simpa using h
        exact ⟨rfl, .timer harm (by rw [hadd]) rfl⟩
      · exact absurd (Prod.mk.inj h).1 (by simp)
  · split at h
    · rename_i s₁ harm
      obtain ⟨rfl, rfl⟩ : EvStatus.ERROR = st ∧ s₁ = s' := by simpa using h
      exact ⟨rfl, .arm (arm_fd_error harm)⟩
    · exact absurd (Prod.mk.inj h).1 (by simp)

end

/-! ## §2. A fiber never comes back with `ERROR`. -/

section
variable {S S' : Sys T γ σ κ} {q q' : List Nat} {a : Action δ} {m : Move} {f : Nat}

/-- The status a live fiber would come back with. -/
def Comes (S : Sys T γ σ κ) : Prop := ∀ f ∈ S.alive, (view S.r f).wait_status ≠ .ERROR

/-- No wake source stands for an error. -/
theorem source_status {st : EvStatus} (h : source S a = some (f, st)) : st ≠ .ERROR := by
  rintro rfl
  unfold source at h
  split at h
  · obtain ⟨w, -, hw⟩ := Option.map_eq_some_iff.mp h
    exact absurd (congrArg Prod.snd hw) (by simp)
  · split_ifs at h
    exact absurd (congrArg Prod.snd (Option.some.inj h)) (by simp)
  · obtain ⟨w, -, hw⟩ := Option.map_eq_some_iff.mp h
    exact absurd (congrArg Prod.snd hw) (by simp)
  · unfold commanded at h
    split at h
    · exact absurd h (by simp)
    · obtain ⟨w, -, hw⟩ := Option.bind_eq_some_iff.mp h
      split at hw
      · exact absurd (congrArg Prod.snd (Option.some.inj hw)) (by simp)
      · split_ifs at hw
        exact absurd (congrArg Prod.snd (Option.some.inj hw)) (by simp)

theorem Comes.step (h : Comes S) (hd : Does P K out good S a S' m q q') : Comes S' := by
  intro f hf
  by_cases hm : m.fiber = some f
  · rw [hd.moved.self f hm]
    rw [hd.moved.alive] at hf
    cases m with
    | quiet => exact absurd hm (by simp [Move.fiber])
    | spawn g gen stack => simp [Move.view, FiberView.spawned]
    | park g kind fd deadline => simp [Move.view, FiberView.parked]
    | wake g status => exact source_status (hd.label.of_wake g status rfl)
    | reap g =>
        obtain rfl := Option.some.inj hm
        exact h g (List.mem_of_mem_erase hf)
    | _ => obtain rfl := Option.some.inj hm; exact h _ hf
  · have hlive := hd.moved.alive_before hf hm
    rw [hd.moved.others f hlive hm]
    exact h f hlive

/-- Control comes to a fiber by a dispatch. -/
theorem Does.dispatched (hok : Ok out good S q) (hd : Does P K out good S a S' m q q')
    (hno : ∀ e, S.pc ≠ .fiber f e) {e : Option Nat} (hpc : S'.pc = .fiber f e) :
    m = .dispatch f := by
  obtain ⟨hcur', -⟩ := hd.ok.current hpc
  have hrun' : (view S'.r f).state = .FB_RUNNING := (hd.ok.core.running hcur').1
  -- before the step, `f` did not run
  have hrun : (view S.r f).state ≠ .FB_RUNNING := by
    intro hrun
    obtain ⟨e', hs⟩ := hok.pc_of_running hrun
    exact hno e' hs
  by_cases hm : m.fiber = some f
  · have hpre := hd.moved.pre f hm
    rw [hd.moved.self f hm] at hrun'
    cases m with
    | dispatch g => rw [Option.some.inj hm]
    | permit g => exact absurd hrun' hrun
    | consume g => exact absurd hpre.1 hrun
    | quiet => exact absurd hm (by simp [Move.fiber])
    | _ => exact absurd hrun' (by simp [Move.view, FiberView.spawned, FiberView.parked, FiberView.woken])
  · -- a fiber that did not change, and was live: a new one is not the running one
    exfalso
    have hlive := hd.moved.alive_before (hd.ok.core.running hcur').2.1 hm
    rw [hd.moved.others f hlive hm] at hrun'
    exact hrun hrun'

/-- **A dispatched fiber's wait is over**, one way or another. -/
theorem Comes.dispatched (hok : Ok out good S q) (h : Comes S)
    (hd : Does P K out good S a S' m q q') (hno : ∀ e, S.pc ≠ .fiber f e) {e : Option Nat}
    {st : EvStatus} (hpc : S'.pc = .fiber f e) (hret : S'.ret = some (.status st)) :
    st ≠ .ERROR := by
  have hm := hd.dispatched hok hno hpc
  have hready : S.r.mem.state f = .FB_READY := by
    subst hm
    exact hd.moved.pre f rfl
  have hlive : f ∈ S.alive := hok.core.mem_live (by simp [hready])
  have hst := hret.symm.trans (hd.label.of_dispatch f hm)
  rintro rfl
  unfold FiberView.returned at hst
  split at hst
  · exact absurd hst (by simp)
  · exact absurd hst (by simp)
  all_goals
    have hcame : EvStatus.ERROR = (view S.r f).wait_status := by simpa using hst
    exact h f hlive hcame.symm

end

/-! ## §3. The bytes. -/

/-- The bytes that were taken are the first `off` of the buffer, and there are more. -/
def Written (c : Call) : Prop :=
  ∀ fd buf t, c.op = .write fd buf t → c.sent = buf.take c.off ∧ c.off < buf.length

/-- **The invariant of the calls.** -/
structure Writing (out : γ → List Region) (good : γ → Prop) (A : App T γ σ κ) (q : List Nat) :
    Prop where
  ok : Ok out good A.sys q
  comes : Comes A.sys
  sockopt : ∀ f c, A.calls f = some c → c.op.transfers = true → c.place ≠ .sockopt
  written : ∀ f c, A.calls f = some c → Written c

/-- The bytes after an answer, from those before it. -/
theorem Written.taken {c : Call} (h : Written c) {r : Except Errno Nat} {fd : Int} {buf : List UInt8}
    {t : Int64} (hop : c.op = .write fd buf t) (hr : r.toOption.getD 0 ≤ c.room) :
    (c.answer r).2.off = c.off + r.toOption.getD 0 ∧
      (c.answer r).2.sent = buf.take (c.off + r.toOption.getD 0) ∧
      c.off + r.toOption.getD 0 ≤ buf.length := by
  obtain ⟨hsent, hoff⟩ := h fd buf t hop
  have hroom : r.toOption.getD 0 ≤ buf.length - c.off := by simpa [Call.room, hop] using hr
  refine ⟨?_, ?_, by omega⟩
  · simp only [Call.answer, hop]
    unfold write_turn
    split <;> simp [Except.toOption]
  · simp only [Call.answer, hop]
    rw [hsent, List.take_add]

/-- A write that goes on has not taken everything. -/
theorem Written.answer {c : Call} (h : Written c) {r : Except Errno Nat}
    (hr : r.toOption.getD 0 ≤ c.room) (ht : (c.answer r).1 = .retry ∨ (c.answer r).1 = .block) :
    Written (c.answer r).2 := by
  intro fd buf t hop
  rw [App.answer_op] at hop
  obtain ⟨hoff, hsent, -⟩ := h.taken hop hr
  refine ⟨by rw [hsent, hoff], ?_⟩
  rw [hoff]
  have hlt := (h fd buf t hop).2
  simp only [Call.answer, hop, write_turn] at ht
  split at ht
  · simp at ht
  · rename_i w hw
    -- a short count: the loop condition decides
    dsimp only at ht
    split_ifs at ht with hmore
    · exact hmore
    · simp at ht
  all_goals exact hlt

theorem Written.place {c : Call} (h : Written c) (p : Place) : Written { c with place := p } := h

section
variable {A A' : App T γ σ κ} {q : List Nat} {d : Do δ} {f : Nat}

/-- **Every step keeps the invariant.** -/
theorem Writing.step (H : LibcOk T L out good) (h : Writing out good A q)
    (hs : A.step L P K d = some A') : ∃ q', Writing out good A' q' := by
  -- the system's part
  have hsys : ∃ q', Ok out good A'.sys q' ∧ Comes A'.sys := by
    rcases App.step_sys hs with hsame | ⟨a, hstep, -⟩
    · rw [hsame]
      exact ⟨q, h.ok, h.comes⟩
    · obtain ⟨m, q', hd⟩ := step_does H h.ok hstep
      exact ⟨q', hd.ok, h.comes.step hd⟩
  obtain ⟨q', hok, hcomes⟩ := hsys
  refine ⟨q', hok, hcomes, ?_, ?_⟩
  · intro f c' hc ht
    cases App.step_goes hs hc ht with
    | same hc' _ _ => exact h.sockopt f c' hc' ht
    | made _ _ _ _ _ he => rw [he]; simp [Op.fresh]
    | again _ _ _ _ _ _ _ he => rw [he]; simp
    | blocked _ _ _ _ _ _ _ he => rw [he]; simp
    | looked _ _ _ _ _ he => rw [he]; simp
    | parked _ _ _ _ _ _ _ he => rw [he]; simp
    | returned _ _ _ _ _ _ _ he => rw [he]; simp
    | ready _ _ _ _ _ _ he => rw [he]; simp
  · intro f c' hc fd buf t hop
    have ht : c'.op.transfers = true := by rw [hop]; rfl
    have hgo : Written c' := by
      cases App.step_goes hs hc ht with
      | same hc' _ _ => exact h.written f c' hc'
      | made _ _ _ _ hne he =>
          intro fd' buf' t' hop'
          rw [he]
          refine ⟨rfl, ?_⟩
          show 0 < buf'.length
          -- an empty buffer is not written
          apply List.length_pos_iff.mpr
          rintro rfl
          exact hne fd' t' hop'
      | again hc' _ _ _ _ hr hturn he =>
          rw [he]
          exact ((h.written f _ hc').answer hr (Or.inl hturn)).place _
      | blocked hc' _ _ _ _ hr hturn he =>
          rw [he]
          exact ((h.written f _ hc').answer hr (Or.inr hturn)).place _
      | looked hc' _ _ _ _ he => rw [he]; exact (h.written f _ hc').place _
      | parked hc' _ _ _ _ _ _ he => rw [he]; exact (h.written f _ hc').place _
      | returned hc' _ _ _ _ _ _ he => rw [he]; exact (h.written f _ hc').place _
      | ready hc' _ _ _ _ _ he => rw [he]; exact (h.written f _ hc').place _
    exact hgo fd buf t hop

theorem Writing.start {r : Reactor T γ σ κ} (hr : Fresh T out good r) :
    Writing out good (App.boot r) [] := by
  refine ⟨boot_ok hr, ?_, ?_, ?_⟩
  · intro f hf
    exact absurd hf (by simp [App.boot, boot])
  · intro f c hc
    exact absurd hc (by simp [App.boot])
  · intro f c hc
    exact absurd hc (by simp [App.boot])

theorem exec_writing (H : LibcOk T L out good) {r : Reactor T γ σ κ} (hr : Fresh T out good r)
    {ds : List (Do δ)} (h : exec (App.step L P K) (App.boot r) ds = some A) :
    ∃ q, Writing out good A q := by
  apply exec_inv (fun A : App T γ σ κ => ∃ q, Writing out good A q) _ ⟨[], .start hr⟩ h
  rintro A d A' ⟨q, hw⟩ hs
  exact hw.step H hs

/-! ## §4. The end of a write. -/

def EIO : Errno := .other 5

/-- **What stopped a write**, in the step that ended it, and the error number of each cause. -/
inductive Stopped (L : Libc γ) (K : Kernel κ δ) (A : App T γ σ κ) (d : Do δ) (A' : App T γ σ κ)
    (f : Nat) (fd : Int) : CallRet → Prop
  | no_progress (hd : d = .transfer (.ok 0)) : Stopped L K A d A' f fd (.failed EIO)
  | syscall {e : Errno} (hd : d = .transfer (.error e)) (hi : e ≠ .EINTR) (hb : e ≠ .EAGAIN) :
      Stopped L K A d A' f fd (.failed e)
  | cancelled (hw : A'.sys.ret = some (.status .CANCELLED)) :
      Stopped L K A d A' f fd (.wait_failed .CANCELLED .ECANCELED)
  | timeout (hw : A'.sys.ret = some (.status .TIMEOUT)) :
      Stopped L K A d A' f fd (.wait_failed .TIMEOUT .ETIMEDOUT)
  | registration (hw : A'.sys.ret = some (.status .ERROR))
      (he : WaitError L K A.sys.r f fd CFIBER_EV_OUT A'.sys.r) :
      Stopped L K A d A' f fd (.wait_failed .ERROR A'.sys.r.errno)

/-- **What a write that returned did.** -/
structure WriteOk (L : Libc γ) (K : Kernel κ δ) (A : App T γ σ κ) (d : Do δ) (A' : App T γ σ κ)
    (f : Nat) (fd : Int) (buf sent : List UInt8) (res : CallRet) : Prop where
  start : sent <+: buf
  whole : res = .count buf.length ↔ sent = buf
  stopped : sent ≠ buf → Stopped L K A d A' f fd res

/-- A write that has not taken everything did not finish. -/
theorem WriteOk.of_stopped {c : Call} (h : Written c) {fd : Int} {buf : List UInt8} {t : Int64}
    {res : CallRet} (hop : c.op = .write fd buf t) (hs : Stopped L K A d A' f fd res) :
    WriteOk L K A d A' f fd buf c.sent res := by
  obtain ⟨hsent, hoff⟩ := h fd buf t hop
  have hne : c.sent ≠ buf := by
    intro he
    have hlen := congrArg List.length (hsent.symm.trans he)
    rw [List.length_take] at hlen
    omega
  refine ⟨?_, ?_, fun _ => hs⟩
  · rw [hsent]
    exact List.take_prefix _ _
  · refine ⟨?_, fun he => absurd he hne⟩
    rintro rfl
    cases hs

/-- A write in the reactor comes back at once only to fail. -/
theorem Writing.refused (h : Writing out good A q) {e : Option Nat} (hpc : A.sys.pc = .fiber f e)
    {fd : Int} {dir : UInt32} {t : Int64} {st : EvStatus}
    (hs : CFiber.Ev.step L P K A.sys (.wait fd dir t) = some A'.sys)
    (hret : A'.sys.ret = some (.status st)) :
    st = .ERROR ∧ WaitError L K A.sys.r f fd dir A'.sys.r := by
  obtain ⟨hcur, -⟩ := h.ok.current hpc
  simp only [CFiber.Ev.step, hpc, act] at hs
  have hcalled := Option.some.inj hs
  rcases hw : cfiber_ev_wait L K A.sys.r fd dir t with ⟨_ | st', s'⟩
  · rw [hw] at hcalled
    rw [← hcalled] at hret
    exact absurd hret (by simp [called])
  · rw [hw] at hcalled
    rw [← hcalled] at hret ⊢
    obtain rfl : st' = st := by simpa [called] using hret
    exact wait_error hcur hw

/-- **A write that returns** has taken the start of its buffer. -/
theorem Writing.stops (H : LibcOk T L out good) (h : Writing out good A q)
    (hs : A.step L P K d = some A') {c : Call} {res : CallRet}
    (hret : A'.returned = some (f, c, res)) {fd : Int} {buf : List UInt8} {t : Int64}
    (hop : c.op = .write fd buf t) : WriteOk L K A d A' f fd buf c.sent res := by
  have ht : c.op.transfers = true := by rw [hop]; rfl
  cases App.step_stops hs hret ht h.sockopt with
  | empty hd _ he =>
      rw [he] at hop ⊢
      obtain ⟨rfl, rfl, rfl⟩ := Op.write.inj hop
      exact ⟨List.prefix_rfl, by simp [Op.fresh], fun hne => absurd rfl hne⟩
  | @done c₀ r n hc _ hd _ _ hr hturn he =>
      rw [he, App.answer_op] at hop
      obtain ⟨-, hsent, hle⟩ := (h.written f c₀ hc).taken hop hr
      -- the loop was left: nothing is missing
      have hall : c₀.off + r.toOption.getD 0 = buf.length ∧ n = buf.length := by
        simp only [Call.answer, hop, write_turn] at hturn
        split at hturn
        · simp at hturn
        · rename_i w hw
          dsimp only at hturn
          split_ifs at hturn with hmore
          obtain rfl := Turn.done.inj hturn
          have hw' : (Except.ok w : Except Errno Nat).toOption.getD 0 = w := rfl
          rw [hw'] at hle ⊢
          omega
        all_goals simp at hturn
      have hbuf : c.sent = buf := by
        rw [he, hsent, hall.1, List.take_length]
      rw [hbuf, hall.2]
      exact ⟨List.prefix_rfl, by simp, fun hne => absurd rfl hne⟩
  | @failed c₀ r e hc _ hd _ _ hr hturn he =>
      rw [he, App.answer_op] at hop
      have hw := h.written f c₀ hc
      simp only [Call.answer, hop, write_turn] at hturn
      have hsame : c.sent = c₀.sent ∧ Stopped L K A d A' f fd (.failed e) := by
        rw [he]
        simp only [Call.answer, hop]
        split at hturn
        · obtain rfl := Turn.fail.inj hturn
          exact ⟨by simp [Except.toOption], .no_progress hd⟩
        · dsimp only at hturn
          split_ifs at hturn
        · simp at hturn
        · simp at hturn
        · rename_i e' hi hb
          obtain rfl := Turn.fail.inj hturn
          exact ⟨by simp [Except.toOption], .syscall hd hi hb⟩
      rw [hsame.1]
      exact WriteOk.of_stopped hw hop hsame.2
  | refused hc hpc hd hp htarget hstep hst hne =>
      obtain ⟨e, hpc⟩ := hpc
      obtain ⟨rfl, herr⟩ := h.refused hpc hstep hst
      rw [hop] at htarget
      obtain ⟨rfl, rfl⟩ := Prod.mk.inj (Option.some.inj htarget)
      exact WriteOk.of_stopped (h.written f c hc) hop (.registration hst herr)
  | @woken a st hc hno hd hstep hpc hst hne =>
      obtain ⟨e, hpc⟩ := hpc
      obtain ⟨m, q', hdoes⟩ := step_does H h.ok hstep
      have herr := h.comes.dispatched h.ok hdoes (fun e => hno f e) hpc hst
      apply WriteOk.of_stopped (h.written f c hc) hop
      cases st with
      | READY => exact absurd rfl hne
      | TIMEOUT => exact .timeout hst
      | CANCELLED => exact .cancelled hst
      | ERROR => exact absurd rfl herr

end

/-- **A write transfers every byte once.**  In every run, what the kernel took of a write in
progress is the start of its buffer up to `off`, where the next `write(2)` begins; and a write that
returns has transferred the start of its buffer, returns its length exactly if that is all of it, and
otherwise fails with the error number of what stopped it. -/
theorem write_once (H : LibcOk T L out good) {r : Reactor T γ σ κ} (hr : Fresh T out good r)
    {ds : List (Do δ)} {A : App T γ σ κ} (h : exec (App.step L P K) (App.boot r) ds = some A) :
    (∀ f c fd buf t, A.calls f = some c → c.op = .write fd buf t →
      c.sent = buf.take c.off ∧ c.off < buf.length) ∧
    ∀ d A' f c fd buf t res, A.step L P K d = some A' → A'.returned = some (f, c, res) →
      c.op = .write fd buf t → WriteOk L K A d A' f fd buf c.sent res := by
  obtain ⟨q, hw⟩ := exec_writing H hr h
  refine ⟨?_, ?_⟩
  · intro f c fd buf t hc hop
    exact hw.written f c hc fd buf t hop
  · intro d A' f c fd buf t res hs hret hop
    exact hw.stops H hs hret hop

/-- Two bytes, an interruption, a wait, the last byte. -/
def three_bytes : List (Do Choice) :=
  [.sys .spawn, .sys .run, .sys .turn, .sys .turn, .call (.write 3 [7, 8, 9] (-1)),
    .transfer (.ok 2), .transfer (.error .EINTR), .transfer (.error .EAGAIN), .look, .rewait,
    .sys .turn, .sys .turn, .sys (.poll (.report [(3, 30)] false)), .sys .turn, .sys .turn,
    .sys .turn, .sys .turn, .sys .turn]

theorem write_once_epoll : ∃ r A A' f c fd res, start = some r ∧
    exec (App.step bumpLibc roomyStacks epoll) (App.boot r) three_bytes = some A ∧
    A.step bumpLibc roomyStacks epoll (.transfer (.ok 1)) = some A' ∧
    A'.returned = some (f, c, res) ∧ c.op = .write fd [7, 8, 9] (-1) ∧
    WriteOk bumpLibc epoll A (.transfer (.ok 1)) A' f fd [7, 8, 9] c.sent res := by
  have hsome : ((start.bind fun r =>
      exec (App.step bumpLibc roomyStacks epoll) (App.boot r) three_bytes).bind fun A =>
        ((A.step bumpLibc roomyStacks epoll (.transfer (.ok 1))).bind fun A' =>
          A'.returned.filter fun x => x.2.1.op = .write 3 [7, 8, 9] (-1)).map fun x => (A, x)).isSome
      = true := by
    decide +kernel
  obtain ⟨⟨A, f, c, res⟩, hx⟩ := Option.isSome_iff_exists.mp hsome
  obtain ⟨A₁, hA, hx⟩ := Option.bind_eq_some_iff.mp hx
  obtain ⟨y, hy, hxy⟩ := Option.map_eq_some_iff.mp hx
  obtain ⟨rfl, rfl⟩ : A₁ = A ∧ y = (f, c, res) := by simpa using hxy
  obtain ⟨A', hA', hy⟩ := Option.bind_eq_some_iff.mp hy
  obtain ⟨r, hr, hrun⟩ := Option.bind_eq_some_iff.mp hA
  obtain ⟨hret, hop⟩ := Option.filter_eq_some_iff.mp hy
  have hop : c.op = .write 3 [7, 8, 9] (-1) := by simpa using hop
  refine ⟨r, _, A', f, c, 3, res, hr, hrun, hA', hret, hop, ?_⟩
  exact (write_once bumpLibc_ok (start_fresh hr) hrun).2 _ A' f c 3 _ _ res hA' hret hop

end CFiber.Ev
