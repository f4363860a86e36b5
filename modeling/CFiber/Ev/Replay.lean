/-
  CFiber.Ev.Replay — a read or a write among other fibers is the loop that runs alone.

  A helper leaves to the run loop whenever its system call would block, and any number of fibers,
  events and timers run before it goes on.  `Call.replay` is the helper's loop over the answers of
  its own system calls, with nothing in between.

    • `Replays.step`   — what a step keeps: the calls are where their loops are;
    • `calls_straight` — in every run, a read or a write that returns has returned what the loop
                         returns over its answers, or what the failed wait behind the last one says.

  `log` is a history variable: the answers of the system calls of a fiber's last call.
-/
import CFiber.Ev.Environment
import CFiber.Ev.Turns

namespace CFiber.Ev

open CFiber.Base CFiber.Memory

variable {T : Target} {γ σ κ δ : Type}
variable {L : Libc γ} {P : StackPool σ} {K : Kernel κ δ}

/-! ## §1. The loop alone. -/

/-- The loop of call `c` over the answers of its system calls: the call behind them, and what it
returns if it does. -/
def Call.replay (c : Call) : List (Except Errno Nat) → Call × Option CallRet
  | [] => (c, none)
  | r :: rs =>
    match c.answer r with
    | (.done n, c) => (c, some (.count n))
    | (.fail e, c) => (c, some (.failed e))
    | (.retry, c) | (.block, c) => c.replay rs

/-- The call as it was made. -/
def Call.anew (c : Call) : Call := { c with off := 0, sent := [], place := .top }

/-- The call, wherever it is in its turn. -/
def Call.at_top (c : Call) : Call := { c with place := .top }

section
variable {c c' : Call} {r : Except Errno Nat} {rs : List (Except Errno Nat)}

/-- One more answer. -/
theorem Call.replay_snoc (rs : List (Except Errno Nat)) :
    ∀ {c : Call}, c.replay rs = (c', none) → c.replay (rs ++ [r]) = c'.replay [r] := by
  induction rs with
  | nil =>
      intro c h
      obtain rfl : c = c' := congrArg Prod.fst h
      rfl
  | cons a rs ih =>
      intro c h
      rw [List.cons_append]
      unfold Call.replay at h ⊢
      generalize c.answer a = x at h ⊢
      obtain ⟨turn, c₁⟩ := x
      cases turn with
      | done n => exact absurd (congrArg Prod.snd h) (by simp)
      | fail e => exact absurd (congrArg Prod.snd h) (by simp)
      | retry => exact ih h
      | block => exact ih h

/-- An answer is a matter of the operation and of what was written before. -/
theorem Call.answer_place (c : Call) (p : Place) (r : Except Errno Nat) :
    { c with place := p }.answer r = ((c.answer r).1, { (c.answer r).2 with place := p }) := by
  unfold Call.answer
  dsimp only
  split <;> rfl

theorem Call.answer_anew (c : Call) (r : Except Errno Nat) (p : Place) :
    { (c.answer r).2 with place := p }.anew = c.anew := by
  unfold Call.answer
  split <;> rfl

/-- The loop goes on. -/
theorem Call.replay_goes (h : (c.answer r).1 = .retry ∨ (c.answer r).1 = .block) :
    c.at_top.replay [r] = ((c.answer r).2.at_top, none) := by
  have hanswer : c.at_top.answer r = ((c.answer r).1, (c.answer r).2.at_top) := c.answer_place .top r
  unfold Call.replay
  rw [hanswer]
  rcases h with h | h
  · rw [h]
    rfl
  · rw [h]
    rfl

/-- The loop ends. -/
theorem Call.replay_done {n : Nat} (h : (c.answer r).1 = .done n) :
    c.at_top.replay [r] = ((c.answer r).2.at_top, some (.count n)) := by
  have hanswer : c.at_top.answer r = ((c.answer r).1, (c.answer r).2.at_top) := c.answer_place .top r
  unfold Call.replay
  rw [hanswer, h]

theorem Call.replay_fail {e : Errno} (h : (c.answer r).1 = .fail e) :
    c.at_top.replay [r] = ((c.answer r).2.at_top, some (.failed e)) := by
  have hanswer : c.at_top.answer r = ((c.answer r).1, (c.answer r).2.at_top) := c.answer_place .top r
  unfold Call.replay
  rw [hanswer, h]

/-- Only one answer makes a loop wait. -/
theorem Call.answer_block (h : (c.answer r).1 = .block) : r = .error .EAGAIN := by
  cases r with
  | ok n =>
      unfold Call.answer at h
      split at h
      · cases n with
        | zero => cases h
        | succ n =>
            simp only [write_turn] at h
            split_ifs at h
      · cases h
  | error e =>
      unfold Call.answer at h
      cases e <;> first | rfl | (split at h <;> cases h)

end

/-! ## §2. The answers of a run. -/

/-- `App` with the answers that the last call of each fiber has had. -/
structure Logged (T : Target) (γ σ κ : Type) where
  app : App T γ σ κ
  log : Nat → List (Except Errno Nat)

namespace Logged

/-- The answers after a step. -/
def noted (X : Logged T γ σ κ) (d : Do δ) : Nat → List (Except Errno Nat) :=
  match d, X.app.sys.pc with
  | .call _, .fiber f _ => Function.update X.log f []
  | .transfer r, .fiber f _ => Function.update X.log f (X.log f ++ [r])
  | _, _ => X.log

section
variable (L : Libc γ) (P : StackPool σ) (K : Kernel κ δ)

def step (X : Logged T γ σ κ) (d : Do δ) : Option (Logged T γ σ κ) :=
  (X.app.step L P K d).map fun A => ⟨A, X.noted d⟩

end

/-- Nobody is in a call yet. -/
def boot (r : Reactor T γ σ κ) : Logged T γ σ κ := ⟨App.boot r, fun _ => []⟩

section
variable {X : Logged T γ σ κ} {d : Do δ} {f : Nat}

/-- A step that is no step of `f` adds nothing to its answers. -/
theorem noted_same (hd : ∀ e, X.app.sys.pc = .fiber f e → ∃ a, d = .sys a) :
    X.noted d f = X.log f := by
  cases d with
  | call op =>
      cases hpc : X.app.sys.pc with
      | fiber g e =>
          have hfg : f ≠ g := by
            rintro rfl
            obtain ⟨a, ha⟩ := hd e hpc
            cases ha
          simp [noted, hpc, Function.update_of_ne hfg]
      | _ => simp [noted, hpc]
  | transfer r =>
      cases hpc : X.app.sys.pc with
      | fiber g e =>
          have hfg : f ≠ g := by
            rintro rfl
            obtain ⟨a, ha⟩ := hd e hpc
            cases ha
          simp [noted, hpc, Function.update_of_ne hfg]
      | _ => simp [noted, hpc]
  | _ => rfl

theorem noted_call {op : Op} (hpc : ∃ e, X.app.sys.pc = .fiber f e) :
    X.noted (δ := δ) (.call op) f = [] := by
  obtain ⟨e, hpc⟩ := hpc
  simp [noted, hpc]

theorem noted_transfer {r : Except Errno Nat} (hpc : ∃ e, X.app.sys.pc = .fiber f e) :
    X.noted (δ := δ) (.transfer r) f = X.log f ++ [r] := by
  obtain ⟨e, hpc⟩ := hpc
  simp [noted, hpc]

end

end Logged

/-! ## §3. The invariant. -/

/-- What a call that returned `res` is without the other fibers. -/
inductive Straight (c : Call) (log : List (Except Errno Nat)) : CallRet → Prop
  /-- The loop over its answers returned it. -/
  | loop {res : CallRet} (hne : ∀ fd t, c.op ≠ .write fd [] t)
    (h : c.anew.replay log = (c.at_top, some res)) : Straight c log res
  /-- The loop was not at its end, and the wait behind the last answer failed. -/
  | waited {st : EvStatus} {e : Errno} (hne : st ≠ .READY)
    (h : c.anew.replay log = (c.at_top, none)) (hlast : log.getLast? = some (.error .EAGAIN)) :
    Straight c log (.wait_failed st e)
  /-- There was nothing to write. -/
  | empty {fd : Int} {t : Int64} (hop : c.op = .write fd [] t) (hlog : log = [])
    (hsent : c.sent = []) : Straight c log (.count 0)

/-- **The calls are where their loops are.** -/
structure Replays (X : Logged T γ σ κ) : Prop where
  sockopt : ∀ f c, X.app.calls f = some c → c.op.transfers = true → c.place ≠ .sockopt
  replay : ∀ f c, X.app.calls f = some c → c.op.transfers = true →
    c.anew.replay (X.log f) = (c.at_top, none)
  blocked : ∀ f c, X.app.calls f = some c → c.op.transfers = true → c.place ≠ .top →
    (X.log f).getLast? = some (.error .EAGAIN)
  nonempty : ∀ f c, X.app.calls f = some c → c.op.transfers = true → ∀ fd t, c.op ≠ .write fd [] t
  /-- Control leaves a fiber in a call only where it parks. -/
  control : ∀ f c, X.app.calls f = some c → c.op.transfers = true → c.place ≠ .parked →
    ∃ e, X.app.sys.pc = .fiber f e
  returned : ∀ f c res, X.app.returned = some (f, c, res) → c.op.transfers = true →
    Straight c (X.log f) res

theorem Replays.start (r : Reactor T γ σ κ) : Replays (Logged.boot r) where
  sockopt := fun f c h => by simp [Logged.boot, App.boot] at h
  replay := fun f c h => by simp [Logged.boot, App.boot] at h
  blocked := fun f c h => by simp [Logged.boot, App.boot] at h
  nonempty := fun f c h => by simp [Logged.boot, App.boot] at h
  control := fun f c h => by simp [Logged.boot, App.boot] at h
  returned := fun f c res h => by simp [Logged.boot, App.boot] at h

section
variable {X X' : Logged T γ σ κ} {A' : App T γ σ κ} {d : Do δ} {f : Nat} {c c' : Call}

/-- A fiber in a call goes on with it, whatever happens elsewhere. -/
theorem App.stays {A : App T γ σ κ} {a : Action δ} {e : Option Nat}
    (h : A.step L P K (.sys a) = some A') (hpc : A.sys.pc = .fiber f e)
    (hc : A.calls f = some c) : A'.sys.pc = .fiber f e := by
  have hs : (if a.blocks then none else if a.foreign then A.plain L P K a else
      if A.calls f = none then A.plain L P K a else none) = some A' := by
    rw [← h, App.step, hpc]
  rw [hc, if_neg (Option.some_ne_none c)] at hs
  split_ifs at hs with hblocks hforeign
  obtain ⟨S, hS, rfl⟩ := Option.map_eq_some_iff.mp hs
  show S.pc = _
  rw [(foreign_pc hforeign hS).1, hpc]

/-- A wait that comes back at once leaves its fiber running. -/
theorem wait_at_once {S S' : Sys T γ σ κ} {fd : Int} {dir : UInt32} {t : Int64} {e : Option Nat}
    {st : EvStatus} (h : step L P K S (.wait fd dir t) = some S') (hpc : S.pc = .fiber f e)
    (hret : S'.ret = some (.status st)) : S'.pc = .fiber f e := by
  have hs : act L P K S f e (.wait fd dir t) = some S' := by simpa [step, hpc] using h
  obtain rfl := Option.some.inj hs
  unfold called at hret ⊢
  split at hret
  · rw [hpc]
  · cases hret

/-- What is kept of one call. -/
structure ReplaysAt (A : App T γ σ κ) (log : List (Except Errno Nat)) (f : Nat) (c : Call) : Prop where
  sockopt : c.place ≠ .sockopt
  replay : c.anew.replay log = (c.at_top, none)
  blocked : c.place ≠ .top → log.getLast? = some (.error .EAGAIN)
  nonempty : ∀ fd t, c.op ≠ .write fd [] t
  control : c.place ≠ .parked → ∃ e, A.sys.pc = .fiber f e

theorem Replays.at (h : Replays X) (hc : X.app.calls f = some c) (ht : c.op.transfers = true) :
    ReplaysAt X.app (X.log f) f c :=
  ⟨h.sockopt f c hc ht, h.replay f c hc ht, h.blocked f c hc ht, h.nonempty f c hc ht,
    h.control f c hc ht⟩

/-- A turn of the loop behind which the call goes on. -/
theorem ReplaysAt.turn {A A' : App T γ σ κ} {log : List (Except Errno Nat)}
    {r : Except Errno Nat} {p : Place} (h : ReplaysAt A log f c)
    (hturn : (c.answer r).1 = .retry ∨ (c.answer r).1 = .block)
    (hp : p = .top ∨ p = .again ∧ (c.answer r).1 = .block) (hpc : ∃ e, A'.sys.pc = .fiber f e) :
    ReplaysAt A' (log ++ [r]) f { (c.answer r).2 with place := p } where
  sockopt := by
    rcases hp with rfl | ⟨rfl, -⟩
    · simp
    · simp
  replay := by
    rw [Call.answer_anew, Call.replay_snoc _ h.replay, Call.replay_goes hturn]
    rfl
  blocked := fun hne => by
    rcases hp with rfl | ⟨-, hblock⟩
    · exact absurd rfl hne
    · rw [Call.answer_block hblock, List.getLast?_concat]
  nonempty := fun fd t hop => h.nonempty fd t ((App.answer_op c r).symm.trans hop)
  control := fun _ => hpc

/-- A turn behind which it returns. -/
theorem ReplaysAt.ends {A : App T γ σ κ} {log : List (Except Errno Nat)} {r : Except Errno Nat}
    {res : CallRet} (h : ReplaysAt A log f c)
    (hturn : c.at_top.replay [r] = ((c.answer r).2.at_top, some res)) :
    Straight (c.answer r).2 (log ++ [r]) res := by
  refine .loop (fun fd t hop => h.nonempty fd t ((App.answer_op c r).symm.trans hop)) ?_
  rw [Call.answer_anew c r (c.answer r).2.place, Call.replay_snoc _ h.replay, hturn]

/-- One call, by the ways it can come to where it is. -/
theorem Replays.goes (h : Replays X) (hA : X.app.step L P K d = some A')
    (hg : Goes L P K X.app d A' f c') (ht : c'.op.transfers = true) :
    ReplaysAt A' (X.noted d f) f c' := by
  have hstays {c : Call} {p : Place} (hc : X.app.calls f = some c) (he : c' = { c with place := p })
      (hd : X.noted d f = X.log f) (hp : p ≠ .sockopt) (hlast : p ≠ .top → c.place ≠ .top)
      (hpc : p ≠ .parked → ∃ e, A'.sys.pc = .fiber f e) : ReplaysAt A' (X.noted d f) f c' := by
    subst he
    rw [hd]
    exact ⟨hp, h.replay f c hc ht, fun hne => h.blocked f c hc ht (hlast hne), h.nonempty f c hc ht,
      hpc⟩
  cases hg with
  | same hc hd hn =>
      rw [X.noted_same hd]
      have hat := h.at hc ht
      refine ⟨hat.sockopt, hat.replay, hat.blocked, hat.nonempty, fun hne => ?_⟩
      obtain ⟨e, hpc⟩ := hat.control hne
      obtain ⟨a, rfl⟩ := hd e hpc
      exact ⟨e, App.stays hA hpc hc⟩
  | made hc hpc hd hs hne he =>
      have hplace : c'.place = .top := by rw [he]; rfl
      rw [hd, X.noted_call hpc]
      refine ⟨by rw [hplace]; simp, ?_, fun hne => absurd hplace hne, hne,
        fun _ => by rw [hs]; exact hpc⟩
      rw [he]
      rfl
  | @again c r hc hpc hd hp hs hr hturn he =>
      subst he
      rw [App.answer_op] at ht
      rw [hd, X.noted_transfer hpc]
      exact (h.at hc ht).turn (Or.inl hturn) (Or.inl rfl) (by rw [hs]; exact hpc)
  | @blocked c r hc hpc hd hp hs hr hturn he =>
      subst he
      rw [App.answer_op] at ht
      rw [hd, X.noted_transfer hpc]
      exact (h.at hc ht).turn (Or.inr hturn) (Or.inr ⟨rfl, hturn⟩) (by rw [hs]; exact hpc)
  | looked hc hpc hd hp hs he =>
      exact hstays hc he (by rw [hd]; rfl) (by simp) (fun _ => by rw [hp]; simp)
        (fun _ => by rw [hs]; exact hpc)
  | parked hc hpc hd hp htarget hs hn he =>
      exact hstays hc he (by rw [hd]; rfl) (by simp) (fun _ => by rw [hp]; simp)
        (fun hne => absurd rfl hne)
  | returned hc hpc hd hp htarget hs hn he =>
      obtain ⟨e, hpc⟩ := hpc
      exact hstays hc he (by rw [hd]; rfl) (by simp) (fun hne => absurd rfl hne)
        (fun _ => ⟨e, wait_at_once hs hpc hn⟩)
  | ready hc hpc hd hs hpc' hn he =>
      exact hstays hc he (by rw [hd]; rfl) (by simp) (fun hne => absurd rfl hne) (fun _ => hpc')

/-- A call that returns at once is one of the running fiber. -/
theorem App.call_returned {A : App T γ σ κ} {op : Op} {res : CallRet}
    (h : A.step L P K (.call op) = some A') (hret : A'.returned = some (f, c, res)) :
    ∃ e, A.sys.pc = .fiber f e := by
  rcases App.step_cases h with ⟨a, hd, -⟩ | ⟨a, g, e, st, c, hd, -⟩ |
    ⟨op', g, e, -, hpc, -, hbegin⟩ | ⟨g, e, c, hpc, -, -, hresume⟩
  · cases hd
  · cases hd
  · obtain ⟨rfl, -⟩ := (App.Only.begin_call hbegin).returned f _ res hret
    exact ⟨e, hpc⟩
  · obtain ⟨rfl, -⟩ := (App.Only.resume_call hresume).returned f _ res hret
    exact ⟨e, hpc⟩

/-- One call, by the ways it can return. -/
theorem Replays.stops {res : CallRet} (h : Replays X) (hA : X.app.step L P K d = some A')
    (hret : A'.returned = some (f, c', res)) (ht : c'.op.transfers = true) :
    Straight c' (X.noted d f) res := by
  cases App.step_stops hA hret ht h.sockopt with
  | @empty fd t hd hs he =>
      subst hd
      exact .empty (by rw [he]; rfl) (X.noted_call (App.call_returned hA hret)) (by rw [he]; rfl)
  | @done c r n hc hpc hd hp hs hr hturn he =>
      subst he
      rw [App.answer_op] at ht
      rw [hd, X.noted_transfer hpc]
      exact (h.at hc ht).ends (Call.replay_done hturn)
  | @failed c r e hc hpc hd hp hs hr hturn he =>
      subst he
      rw [App.answer_op] at ht
      rw [hd, X.noted_transfer hpc]
      exact (h.at hc ht).ends (Call.replay_fail hturn)
  | refused hc hpc hd hp htarget hs hn hne =>
      have hlog : X.noted d f = X.log f := by rw [hd]; rfl
      rw [hlog]
      exact .waited hne (h.replay f c' hc ht) (h.blocked f c' hc ht (by rw [hp]; simp))
  | woken hc hno hd hs hpc hn hne =>
      have hlog : X.noted d f = X.log f := by rw [hd]; rfl
      have hparked : c'.place = .parked := by
        by_contra hne
        obtain ⟨e, hpc⟩ := h.control f c' hc ht hne
        exact hno f e hpc
      rw [hlog]
      exact .waited hne (h.replay f c' hc ht) (h.blocked f c' hc ht (by rw [hparked]; simp))

end

/-! ## §4. Runs. -/

/-- **What a step keeps.** -/
theorem Replays.step {X X' : Logged T γ σ κ} {d : Do δ} (h : Replays X)
    (hs : X.step L P K d = some X') : Replays X' := by
  obtain ⟨A', hA, rfl⟩ := Option.map_eq_some_iff.mp hs
  have hat (f : Nat) (c : Call) (hc : A'.calls f = some c) (ht : c.op.transfers = true) :
      ReplaysAt A' (X.noted d f) f c := h.goes hA (App.step_goes hA hc ht) ht
  exact ⟨fun f c hc ht => (hat f c hc ht).sockopt, fun f c hc ht => (hat f c hc ht).replay,
    fun f c hc ht => (hat f c hc ht).blocked, fun f c hc ht => (hat f c hc ht).nonempty,
    fun f c hc ht => (hat f c hc ht).control, fun f c res hret ht => h.stops hA hret ht⟩

/-- And every run, by induction. -/
theorem exec_replays {r : Reactor T γ σ κ} {ds : List (Do δ)} {X : Logged T γ σ κ}
    (h : exec (Logged.step L P K) (Logged.boot r) ds = some X) : Replays X :=
  exec_inv Replays (fun _ _ _ hx hs => hx.step hs) (Replays.start r) h

/-- The answers change nothing. -/
theorem exec_logged {ds : List (Do δ)} : ∀ {X : Logged T γ σ κ} {A : App T γ σ κ},
    exec (App.step L P K) X.app ds = some A ↔
      ∃ log, exec (Logged.step L P K) X ds = some ⟨A, log⟩ := by
  induction ds with
  | nil =>
      intro X A
      constructor
      · intro h
        obtain rfl : X.app = A := Option.some.inj h
        exact ⟨X.log, rfl⟩
      · rintro ⟨log, h⟩
        exact congrArg some (congrArg Logged.app (Option.some.inj h))
  | cons d ds ih =>
      intro X A
      constructor
      · intro h
        obtain ⟨B, hB, hrest⟩ := exec_cons.mp h
        obtain ⟨log, hlog⟩ := (@ih ⟨B, X.noted d⟩ A).mp hrest
        exact ⟨log, exec_cons.mpr ⟨⟨B, X.noted d⟩, by rw [Logged.step, hB]; rfl, hlog⟩⟩
      · rintro ⟨log, h⟩
        obtain ⟨Y, hY, hrest⟩ := exec_cons.mp h
        obtain ⟨B, hB, rfl⟩ := Option.map_eq_some_iff.mp hY
        exact exec_cons.mpr ⟨B, hB, ih.mpr ⟨log, hrest⟩⟩

/-- **A call among other fibers is its loop**: in every run of the reactor with its fibers, a read or
a write that returns has returned what the loop returns over the answers of its own system calls,
with as much written; or its last system call would have blocked, the loop was not at its end, and
the wait did not end in `READY`; or there was nothing to write.  And a call that has not returned
stands where its loop does. -/
theorem calls_straight {r : Reactor T γ σ κ} {ds : List (Do δ)} {A : App T γ σ κ}
    (h : exec (App.step L P K) (App.boot r) ds = some A) :
    ∃ log, exec (Logged.step L P K) (Logged.boot r) ds = some ⟨A, log⟩ ∧
      (∀ f c res, A.returned = some (f, c, res) → c.op.transfers = true → Straight c (log f) res) ∧
      ∀ f c, A.calls f = some c → c.op.transfers = true →
        c.anew.replay (log f) = (c.at_top, none) := by
  obtain ⟨log, hlog⟩ := (@exec_logged T γ σ κ δ L P K ds (Logged.boot r) A).mp h
  have hx := exec_replays hlog
  exact ⟨log, hlog, hx.returned, hx.replay⟩

/-- Three bytes are written, two of them at first; a signal comes, and the fiber waits once. -/
def two_and_one : List (Do Choice) :=
  [.sys .spawn, .sys .run, .sys .turn, .sys .turn, .call (.write 3 [7, 8, 9] (-1)),
    .transfer (.ok 2), .transfer (.error .EINTR), .transfer (.error .EAGAIN), .look, .rewait,
    .sys .turn, .sys .turn, .sys (.poll (.report [(3, 30)] false)), .sys .turn, .sys .turn,
    .sys .turn, .sys .turn, .sys .turn, .transfer (.ok 1)]

theorem calls_straight_epoll : ∃ r A log, start = some r ∧
    exec (App.step bumpLibc roomyStacks epoll) (App.boot r) two_and_one = some A ∧
    A.returned.isSome ∧
    exec (Logged.step bumpLibc roomyStacks epoll) (Logged.boot r) two_and_one = some ⟨A, log⟩ ∧
    (∀ f c res, A.returned = some (f, c, res) → c.op.transfers = true → Straight c (log f) res) ∧
    ∀ f c, A.calls f = some c → c.op.transfers = true →
      c.anew.replay (log f) = (c.at_top, none) := by
  have hsome : ((start.bind fun r =>
      exec (App.step bumpLibc roomyStacks epoll) (App.boot r) two_and_one).filter fun A =>
        A.returned.isSome).isSome = true := by
    decide +kernel
  obtain ⟨A, hA⟩ := Option.isSome_iff_exists.mp hsome
  obtain ⟨hA, hret⟩ := Option.filter_eq_some_iff.mp hA
  obtain ⟨r, hr, hrun⟩ := Option.bind_eq_some_iff.mp hA
  obtain ⟨log, hlog, hstraight⟩ := calls_straight hrun
  exact ⟨r, A, log, hr, hrun, hret, hlog, hstraight⟩

end CFiber.Ev
