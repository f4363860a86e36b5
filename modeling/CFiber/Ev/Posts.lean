/-
  CFiber.Ev.Posts — the reactor with its command ring.

  `Sys` has the commands of other threads in a list: a post appends one, the drain takes the head.
  The code has a ring of cells with sequence counters, producers that are anywhere inside
  `post_cmd`, and an eventfd.  `Wired` is the reactor over those (`Channel`), one atomic access a
  step; its loop thread sees nothing of the other threads but what `ring_dequeue` hands it.

    • `posted_refines` — every run of it is a run of `Sys`, in which a command is posted by the
      compare-exchange that claims its position, and nothing else about the ring shows;
    • `drain_applies`  — once no thread is inside `post_cmd`, a drain that is left alone applies
      every command there is, in the order of the positions, and leaves an empty ring.

  `applied` is a history variable: the commands that `drain_cmds` has applied.
-/
import CFiber.Base.Refine
import CFiber.Commands.Wakeup
import CFiber.Ev.Environment

namespace CFiber.Ev

open CFiber.Base CFiber.Memory CFiber.Commands

variable {T : Target} {γ σ κ δ τ : Type}

/-! ## §1. The system. -/

/-- The reactor, where its loop thread is, and the ring with everybody who posts to it. -/
structure Wired (τ : Type) (T : Target) (γ σ κ : Type) where
  r : Reactor T γ σ κ
  pc : Pc
  ret : Option Ret
  alive : List Nat
  chan : Channel τ Cmd
  applied : List Cmd

inductive Wire (τ δ : Type) where
  /-- The loop thread with its fibers, and the kernel. -/
  | sys (a : Action δ)
  /-- Thread `t` calls `post_cmd(s, c)`. -/
  | post (t : τ) (c : Cmd)
  /-- The next access of thread `t` in `post_cmd`. -/
  | run (t : τ) (spurious : Bool)
  /-- The next access of the loop thread in `drain_cmds`. -/
  | drain (spurious : Bool)

/-- What the ring takes the place of. -/
def Action.queues : Action δ → Bool
  | .post _ | .drained => true
  | _ => false

def Pc.draining : Pc → Bool
  | .drain _ => true
  | _ => false

/-- What the access of the drain's `ring_dequeue` returns; `none` while the call goes on. -/
def answer (chan : Channel τ Cmd) (spurious : Bool) : Option (Option Cmd) :=
  if chan.loop = .draining then
    match (chan.sys.deqStep spurious).deq with
    | .ret out => some out
    | _ => none
  else none

namespace Wired

/-- The loop thread with the commands `cmds` to come. -/
def view (W : Wired τ T γ σ κ) (cmds : List Cmd) : Sys T γ σ κ := ⟨W.r, W.pc, cmds, W.ret, W.alive⟩

def put (W : Wired τ T γ σ κ) (S : Sys T γ σ κ) : Wired τ T γ σ κ :=
  { W with r := S.r, pc := S.pc, ret := S.ret, alive := S.alive }

/-- `while (ring_dequeue(&s->cmds, &c)) apply_cmd(s, c);`. -/
def deliver (K : Kernel κ δ) (W : Wired τ T γ σ κ) (evs : List Event) :
    Option (Option Cmd) → Wired τ T γ σ κ
  | none => W
  | some none => { W with pc := .events evs }
  | some (some c) => { W with r := apply_cmd K W.r c, applied := W.applied ++ [c] }

variable [DecidableEq τ]

/-- **One step**; `none` where the action is not possible. -/
def step (L : Libc γ) (P : StackPool σ) (K : Kernel κ δ) (W : Wired τ T γ σ κ) :
    Wire τ δ → Option (Wired τ T γ σ κ)
  | .sys a =>
    if a.queues then none
    else (CFiber.Ev.step L P K (W.view []) a).bind fun S =>
      -- the eventfd's event: `drain_cmds` is called
      if W.pc.draining = false ∧ S.pc.draining = true then
        (W.chan.step .enter).map fun chan => { W.put S with chan := chan }
      else some (W.put S)
  | .post t c => (W.chan.step (.post t c)).map fun chan => { W with chan := chan }
  | .run t spurious => (W.chan.step (.run t spurious)).map fun chan => { W with chan := chan }
  | .drain spurious =>
    match W.pc with
    | .drain evs =>
      (W.chan.step (.drain spurious)).map fun chan =>
        { W with chan := chan }.deliver K evs (answer W.chan spurious)
    | _ => none

/-- The system around a fresh reactor and a fresh ring. -/
def boot (ring : CmdRing Cmd) (r : Reactor T γ σ κ) : Wired τ T γ σ κ where
  r := r
  pc := .host
  ret := none
  alive := []
  chan := .start ring
  applied := []

/-- The commands whose position is claimed and which the drain has not been handed. -/
def pending (W : Wired τ T γ σ κ) : List Cmd :=
  (W.chan.sys.claimed.map Prod.snd).drop W.chan.sys.consumed.length

/-! ## §2. What the ring does for the loop thread. -/

/-- The command for which an access of thread `t` claims a position: its compare-exchange. -/
def claims (chan : Channel τ Cmd) (t : τ) (spurious : Bool) : Option Cmd :=
  match chan.post t, chan.sys.enq t with
  | .trying _ _, .cas c pos =>
    if chan.sys.ring.enqueue_pos = pos ∧ spurious = false then some c else none
  | _, _ => none

/-- What a step is for `Sys`. -/
def label (W : Wired τ T γ σ κ) : Wire τ δ → List (Action δ)
  | .sys a => [a]
  | .post _ _ => []
  | .run t spurious => ((claims W.chan t spurious).map Action.post).toList
  | .drain spurious =>
    match answer W.chan spurious with
    | none => []
    | some none => [.drained]
    | some (some _) => [.turn]

end Wired

section
variable [DecidableEq τ]

theorem enqStep_claims {s : RingSys τ Cmd} (t : τ) (spurious : Bool) :
    (s.enqStep t spurious).claimed = s.claimed ++ match s.enq t with
      | .cas c pos =>
        if s.ring.enqueue_pos = pos ∧ spurious = false then [(t, c)] else []
      | _ => [] := by
  simp only [RingSys.enqStep]
  cases hpc : s.enq t with
  | cas c pos =>
      simp only [ring_enqueue_step]
      split_ifs <;> simp [RingSys.noteEnq]
  | seq c pos =>
      simp only [ring_enqueue_step]
      split_ifs <;> simp [RingSys.noteEnq]
  | _ => simp [ring_enqueue_step, RingSys.noteEnq]

/-- An access in `post_cmd` leaves the loop thread's side alone, and claims what `claims` says. -/
theorem Wired.run_claims {chan chan' : Channel τ Cmd} {t : τ} {spurious : Bool}
    (hstep : chan.step (.run t spurious) = some chan') :
    chan'.loop = chan.loop ∧ chan'.sys.consumed = chan.sys.consumed ∧
      chan'.sys.claimed.map Prod.snd =
        chan.sys.claimed.map Prod.snd ++ (claims chan t spurious).toList := by
  obtain ⟨hcons, -⟩ := enqStep_consumed chan.sys t spurious
  unfold claims
  cases hpost : chan.post t with
  | idle => simp [Channel.step, hpost] at hstep
  | returned ok => simp [Channel.step, hpost] at hstep
  | signal =>
      simp only [Channel.step, hpost, Option.some.injEq] at hstep
      subst hstep
      simp
  | trying cmd i =>
      simp only [Channel.step, hpost, Option.some.injEq] at hstep
      have hframe : chan'.loop = chan.loop ∧
          chan'.sys.consumed = (chan.sys.enqStep t spurious).consumed ∧
          chan'.sys.claimed = (chan.sys.enqStep t spurious).claimed := by
        subst hstep
        unfold Channel.afterEnq
        split
        · exact ⟨rfl, rfl, rfl⟩
        · split_ifs <;> exact ⟨rfl, rfl, rfl⟩
        · exact ⟨rfl, rfl, rfl⟩
      obtain ⟨hloop, hcons', hclaimed⟩ := hframe
      refine ⟨hloop, hcons'.trans hcons, ?_⟩
      rw [hclaimed, enqStep_claims, List.map_append]
      cases chan.sys.enq t with
      | cas c pos => dsimp only; split_ifs <;> rfl
      | _ => rfl

/-- **What `ring_dequeue` returns.**  A command is the oldest one that is claimed and not consumed. -/
theorem deqStep_answer {k : Nat} {s : RingSys τ Cmd} (h : RingInv k s)
    (hbusy : s.deq.resting = false) {spurious : Bool} {c : Cmd}
    (hret : (s.deqStep spurious).deq = .ret (some c)) :
    (s.deqStep spurious).claimed = s.claimed ∧
      (s.deqStep spurious).consumed = s.consumed ++ [c] ∧
      ∃ t, s.claimed[s.consumed.length]? = some (t, c) := by
  have hpc : (s.deqStep spurious).deq = (ring_dequeue_step s.ring spurious s.deq).2 := rfl
  have hok := h.consumer
  rw [hpc] at hret
  cases hold : s.deq with
  | release pos out =>
      rw [hold] at hret hok
      obtain rfl : out = c := by simpa [ring_dequeue_step] using hret
      refine ⟨?_, ?_, hok.2.2⟩
      · simp [RingSys.deqStep, hold, ring_dequeue_step, RingSys.noteDeq]
      · simp [RingSys.deqStep, hold, ring_dequeue_step, RingSys.noteDeq]
  | idle => rw [hold] at hbusy; exact absurd hbusy (by simp [Deq.resting])
  | ret out => rw [hold] at hbusy; exact absurd hbusy (by simp [Deq.resting])
  | seq pos =>
      simp only [hold, ring_dequeue_step] at hret
      split_ifs at hret
      simp at hret
  | cas pos =>
      simp only [hold, ring_dequeue_step] at hret
      split_ifs at hret
  | _ => simp [hold, ring_dequeue_step] at hret

omit [DecidableEq τ] in
theorem deqStep_claimed (s : RingSys τ Cmd) (spurious : Bool) :
    (s.deqStep spurious).claimed = s.claimed := by
  simp only [RingSys.deqStep, RingSys.noteDeq]
  split <;> rfl

end

/-! ## §3. The loop thread does not see the commands to come. -/

section
variable {L : Libc γ} {P : StackPool σ} {K : Kernel κ δ}

theorem turn_cmds {S S' : Sys T γ σ κ} (hempty : S.cmds = [])
    (hstep : turn L P K S = some S') (cmds : List Cmd) :
    turn L P K { S with cmds := cmds } = some { S' with cmds := cmds } := by
  obtain ⟨r, pc, cs, ret, alive⟩ := S
  obtain rfl : cs = [] := hempty
  cases pc with
  | head =>
      simp only [turn] at hstep ⊢
      split_ifs at hstep ⊢
      all_goals obtain rfl := Option.some.inj hstep; rfl
  | round e =>
      simp only [turn] at hstep ⊢
      split at hstep
      all_goals obtain rfl := Option.some.inj hstep; rfl
  | back f e => obtain rfl := Option.some.inj hstep; rfl
  | check =>
      simp only [turn] at hstep ⊢
      split_ifs at hstep ⊢
      all_goals obtain rfl := Option.some.inj hstep; rfl
  | events evs =>
      cases evs with
      | nil => obtain rfl := Option.some.inj hstep; rfl
      | cons e evs =>
          simp only [turn] at hstep ⊢
          split at hstep
          all_goals obtain rfl := Option.some.inj hstep; rfl
  | timers now =>
      simp only [turn] at hstep ⊢
      split_ifs at hstep ⊢
      all_goals obtain rfl := Option.some.inj hstep; rfl
  | _ => exact absurd hstep (by simp [turn])

theorem act_cmds {S S' : Sys T γ σ κ} {f : Nat} {e : Option Nat} {a : Action δ}
    (hstep : act L P K S f e a = some S') (cmds : List Cmd) :
    act L P K { S with cmds := cmds } f e a = some { S' with cmds := cmds } := by
  cases a with
  | spawn =>
      obtain rfl := Option.some.inj hstep
      simp only [act, spawned]
      split <;> rfl
  | wait fd d t =>
      obtain rfl := Option.some.inj hstep
      simp only [act, called]
      split <;> rfl
  | sleep ns =>
      obtain rfl := Option.some.inj hstep
      simp only [act, called]
      split <;> rfl
  | wait_async t =>
      obtain rfl := Option.some.inj hstep
      simp only [act, called]
      split <;> rfl
  | turn | poll _ | drained | post _ | other _ | tick _ => exact absurd hstep (by simp [act])
  | _ => obtain rfl := Option.some.inj hstep; rfl

theorem polled_cmds {S S' : Sys T γ σ κ} {ans : Except Errno (List Event) × κ}
    (hstep : polled S ans = some S') (cmds : List Cmd) :
    polled { S with cmds := cmds } ans = some { S' with cmds := cmds } := by
  obtain ⟨evs | e, k⟩ := ans
  · simp only [polled] at hstep ⊢
    split_ifs at hstep ⊢
    all_goals obtain rfl := Option.some.inj hstep; rfl
  · simp only [polled] at hstep ⊢
    split_ifs at hstep ⊢
    all_goals obtain rfl := Option.some.inj hstep; rfl

/-- A step of the loop thread outside the queue is the same whatever is queued. -/
theorem step_cmds {S S' : Sys T γ σ κ} {a : Action δ} (hempty : S.cmds = [])
    (ha : a.queues = false) (hstep : step L P K S a = some S') (cmds : List Cmd) :
    step L P K { S with cmds := cmds } a = some { S' with cmds := cmds } := by
  cases a with
  | post c => simp [Action.queues] at ha
  | drained => simp [Action.queues] at ha
  | turn => exact turn_cmds hempty hstep cmds
  | tick dt => obtain rfl := Option.some.inj hstep; rfl
  | other d =>
      obtain ⟨k, hk, rfl⟩ := Option.map_eq_some_iff.mp hstep
      exact Option.map_eq_some_iff.mpr ⟨k, hk, rfl⟩
  | poll d =>
      obtain ⟨r, pc, cs, ret, alive⟩ := S
      cases pc with
      | poll t =>
          obtain ⟨ans, hans, hpoll⟩ := Option.bind_eq_some_iff.mp hstep
          exact Option.bind_eq_some_iff.mpr ⟨ans, hans, polled_cmds hpoll cmds⟩
      | _ => exact absurd hstep (by simp [step])
  | spawn =>
      obtain ⟨r, pc, cs, ret, alive⟩ := S
      cases pc with
      | fiber f e =>
          simp only [step] at hstep ⊢
          exact act_cmds hstep cmds
      | host =>
          obtain rfl := Option.some.inj hstep
          simp only [step, spawned]
          split <;> rfl
      | _ => exact absurd hstep (by simp [step])
  | run =>
      obtain ⟨r, pc, cs, ret, alive⟩ := S
      cases pc with
      | fiber f e =>
          simp only [step] at hstep ⊢
          exact act_cmds hstep cmds
      | host => obtain rfl := Option.some.inj hstep; rfl
      | _ => exact absurd hstep (by simp [step])
  | _ =>
      obtain ⟨r, pc, cs, ret, alive⟩ := S
      cases pc with
      | fiber f e =>
          simp only [step] at hstep ⊢
          exact act_cmds hstep cmds
      | _ => exact absurd hstep (by simp [step])

/-- A step of the loop thread does not leave the drain. -/
theorem step_draining {S S' : Sys T γ σ κ} {a : Action δ} (hempty : S.cmds = [])
    (ha : a.queues = false) (hstep : step L P K S a = some S') (h : S.pc.draining = true) :
    S'.pc = S.pc := by
  cases hpc : S.pc with
  | drain evs =>
      rw [← hpc]
      cases a with
      | post c => simp [Action.queues] at ha
      | drained => simp [Action.queues] at ha
      | tick dt => obtain rfl := Option.some.inj hstep; rfl
      | other d =>
          obtain ⟨k, -, rfl⟩ := Option.map_eq_some_iff.mp hstep
          rfl
      | turn => simp [step, turn, hpc, hempty] at hstep
      | _ => simp [step, hpc] at hstep
  | _ => simp [Pc.draining, hpc] at h

end

/-! ## §4. The ring carries the list. -/

section
variable [DecidableEq τ]
variable {L : Libc γ} {P : StackPool σ} {K : Kernel κ δ} {k : Nat}

/-- What holds of the ring, the eventfd and the loop thread together. -/
structure Coupled (k : Nat) (W : Wired τ T γ σ κ) : Prop where
  ring : PostInv k W.chan
  loop : W.chan.loop = .outside ↔ W.pc.draining = false
  applied : W.applied = W.chan.sys.consumed

/-- The reactor is `S`, which has in its list what the ring holds. -/
def Carries (k : Nat) (W : Wired τ T γ σ κ) (S : Sys T γ σ κ) : Prop :=
  Coupled k W ∧ S = W.view W.pending

theorem Coupled.boot {ring : CmdRing Cmd} [Inhabited Cmd] (hinit : ring_init (2 ^ k) = some ring)
    (r : Reactor T γ σ κ) : Coupled k (Wired.boot ring r : Wired τ T γ σ κ) where
  ring := PostInv.start hinit
  loop := iff_of_true rfl rfl
  applied := rfl

omit [DecidableEq τ] in
theorem Wired.pending_cons {W : Wired τ T γ σ κ} {t : τ} {c : Cmd}
    (h : W.chan.sys.claimed[W.chan.sys.consumed.length]? = some (t, c)) :
    W.pending = c :: (W.chan.sys.claimed.map Prod.snd).drop (W.chan.sys.consumed.length + 1) := by
  obtain ⟨hlt, hget⟩ := List.getElem?_eq_some_iff.mp h
  unfold Wired.pending
  rw [List.drop_eq_getElem_cons (by simpa using hlt), List.getElem_map, hget]

/-- **An access of the drain**: a command it hands out is the oldest one pending; it ends with an
empty answer, and only with one. -/
theorem drain_answer {chan chan' : Channel τ Cmd} (h : PostInv k chan) {spurious : Bool}
    (hstep : chan.step (.drain spurious) = some chan') :
    chan'.sys.claimed = chan.sys.claimed ∧ match answer chan spurious with
      | none => chan'.loop ≠ .outside ∧ chan'.sys.consumed = chan.sys.consumed
      | some none => chan'.loop = .outside ∧ chan'.sys.consumed = chan.sys.consumed
      | some (some c) => chan'.loop ≠ .outside ∧
          chan'.sys.consumed = chan.sys.consumed ++ [c] ∧
          ∃ t, chan.sys.claimed[chan.sys.consumed.length]? = some (t, c) := by
  cases hl : chan.loop with
  | outside => simp [Channel.step, hl] at hstep
  | reading =>
      have hans : answer chan spurious = none := by simp [answer, hl]
      rw [hans]
      simp only [Channel.step, hl] at hstep
      split_ifs at hstep
      all_goals obtain rfl := Option.some.inj hstep; simp [RingSys.callDeq]
  | draining =>
      have hbusy : chan.sys.deq.resting = false := by
        by_contra hr
        exact (h.loop.mp (by simpa using hr)) hl
      have hclaimed := deqStep_claimed chan.sys spurious
      simp only [Channel.step, hl, Option.some.injEq] at hstep
      subst hstep
      simp only [answer, hl, if_true, Channel.afterDeq]
      cases hd : (chan.sys.deqStep spurious).deq with
      | ret out =>
          cases out with
          | some c =>
              obtain ⟨-, hcons, hhead⟩ := deqStep_answer h.ring hbusy hd
              exact ⟨hclaimed, by simp, hcons, hhead⟩
          | none => exact ⟨hclaimed, rfl, deqStep_consumed (by rw [hd]; simp)⟩
      | _ => exact ⟨hclaimed, by simp, deqStep_consumed (by rw [hd]; simp)⟩

/-- **Step lemma.** -/
theorem carries_simulates (hk : 1 ≤ k) (hk' : k < 60) :
    Simulates (Wired.step L P K) (step L P K) Wired.label
      (fun W : Wired τ T γ σ κ => Near (2 ^ 64) k W.chan.sys) (Carries k) := by
  rintro W a W' S ⟨h, rfl⟩ hnear hstep
  cases a with
  | sys a =>
      simp only [Wired.step] at hstep
      split_ifs at hstep with ha
      obtain ⟨S, hS, hput⟩ := Option.bind_eq_some_iff.mp hstep
      have hqueue : a.queues = false := by simpa using ha
      have hspec : step L P K (W.view W.pending) a = some { S with cmds := W.pending } :=
        step_cmds (S := W.view []) rfl hqueue hS W.pending
      split_ifs at hput with hpc
      · -- the eventfd's event
        obtain ⟨chan', hchan, rfl⟩ := Option.map_eq_some_iff.mp hput
        have hring := h.ring.step hk hk' hnear hchan
        simp only [Channel.step, h.loop.mpr hpc.1, if_true, Option.some.injEq] at hchan
        subst hchan
        refine ⟨_, exec_cons.mpr ⟨_, hspec, rfl⟩, ⟨hring, ?_, h.applied⟩, rfl⟩
        exact iff_of_false (by simp) (by simp [Wired.put, hpc.2])
      · obtain rfl := Option.some.inj hput
        refine ⟨_, exec_cons.mpr ⟨_, hspec, rfl⟩, ⟨h.ring, ?_, h.applied⟩, rfl⟩
        show W.chan.loop = .outside ↔ S.pc.draining = false
        rw [h.loop]
        cases hdrain : W.pc.draining with
        | false => simpa [hdrain] using hpc
        | true =>
            rw [step_draining (S := W.view []) rfl hqueue hS hdrain]
            exact iff_of_false (by simp) (by simp [Wired.view, hdrain])
  | post t c =>
      obtain ⟨chan', hchan, rfl⟩ := Option.map_eq_some_iff.mp hstep
      have hring := h.ring.step hk hk' hnear hchan
      simp only [Channel.step] at hchan
      split_ifs at hchan
      obtain rfl := Option.some.inj hchan
      exact ⟨_, rfl, ⟨hring, h.loop, h.applied⟩, rfl⟩
  | run t spurious =>
      obtain ⟨chan', hchan, rfl⟩ := Option.map_eq_some_iff.mp hstep
      have hring := h.ring.step hk hk' hnear hchan
      obtain ⟨hloop, hcons, hclaimed⟩ := Wired.run_claims hchan
      have hle := h.ring.ring.consumed_le
      have hpending : Wired.pending { W with chan := chan' } =
          W.pending ++ (Wired.claims W.chan t spurious).toList := by
        unfold Wired.pending
        rw [hclaimed, hcons, List.drop_append_of_le_length (by simpa using hle)]
      refine ⟨_, ?_, ⟨hring, hloop ▸ h.loop, hcons ▸ h.applied⟩, rfl⟩
      rw [hpending]
      simp only [Wired.label]
      cases hclaim : Wired.claims W.chan t spurious with
      | none => simp [Wired.view]
      | some c => exact exec_cons.mpr ⟨_, rfl, rfl⟩
  | drain spurious =>
      simp only [Wired.step] at hstep
      split at hstep
      case h_2 => simp at hstep
      case h_1 evs hpc =>
        obtain ⟨chan', hchan, rfl⟩ := Option.map_eq_some_iff.mp hstep
        have hring := h.ring.step hk hk' hnear hchan
        have hans := drain_answer h.ring hchan
        simp only [Wired.label]
        cases hout : answer W.chan spurious with
        | none =>
            simp only [hout] at hans
            obtain ⟨hclaimed, hloop, hcons⟩ := hans
            refine ⟨_, rfl, ⟨hring, ?_, ?_⟩, ?_⟩
            · exact iff_of_false hloop (by simp [Wired.deliver, hpc, Pc.draining])
            · exact h.applied.trans hcons.symm
            · simp [Wired.deliver, Wired.view, Wired.pending, hclaimed, hcons]
        | some out =>
            cases out with
            | none =>
                -- the ring is empty, or its oldest position is not published yet
                simp only [hout] at hans
                obtain ⟨hclaimed, hloop, hcons⟩ := hans
                refine ⟨{ W.view W.pending with pc := .events evs }, ?_, ⟨hring, ?_, ?_⟩, ?_⟩
                · simp [exec_cons, step, Wired.view, hpc]
                · exact iff_of_true hloop rfl
                · exact h.applied.trans hcons.symm
                · simp [Wired.deliver, Wired.view, Wired.pending, hclaimed, hcons]
            | some c =>
                simp only [hout] at hans
                obtain ⟨hclaimed, hloop, hcons, t, hhead⟩ := hans
                have hcmds := Wired.pending_cons hhead
                refine ⟨{ W.view W.pending with
                    r := apply_cmd K W.r c
                    cmds := (W.chan.sys.claimed.map Prod.snd).drop
                      (W.chan.sys.consumed.length + 1) }, ?_, ⟨hring, ?_, ?_⟩, ?_⟩
                · simp [exec_cons, step, turn, Wired.view, hpc, hcmds]
                · exact iff_of_false hloop (by simp [Wired.deliver, hpc, Pc.draining])
                · show W.applied ++ [c] = chan'.sys.consumed
                  rw [hcons, h.applied]
                · simp [Wired.deliver, Wired.view, Wired.pending, hclaimed, hcons]

instance : Inhabited Cmd := ⟨⟨.CMD_WAKE, none, 0⟩⟩

end

section
variable [DecidableEq τ]
variable {L : Libc γ} {P : StackPool σ} {K : Kernel κ δ} {k : Nat}

/-! ## §5. A drain left alone. -/

/-- No thread is inside `post_cmd`. -/
def Quiet (W : Wired τ T γ σ κ) : Prop := ∀ t, (W.chan.post t).outside = true

/-- The accesses left of a call of `ring_dequeue`. -/
def dequeue_left : Deq Cmd → Nat
  | .load => 5
  | .seq _ => 4
  | .cas _ => 3
  | .read _ => 2
  | .release _ _ => 1
  | .idle | .ret _ => 0

/-- The accesses left of a drain. -/
def drain_left (chan : Channel τ Cmd) : Nat :=
  let queued := chan.sys.claimed.length - chan.sys.consumed.length
  match chan.loop with
  | .outside => 0
  | .reading => 6 * queued + 6 + if 0 < chan.evfd then 1 else 0
  | .draining => 6 * queued + dequeue_left chan.sys.deq

theorem Coupled.near {W : Wired τ T γ σ κ} (h : Coupled k W) (hq : Quiet W) :
    Near (2 ^ 64) k W.chan.sys := by
  intro t
  have hrest := (h.ring.linked t).resting (hq t)
  unfold NearAt
  cases hpc : W.chan.sys.enq t with
  | seq c pos => simp [hpc, Enq.resting] at hrest
  | cas c pos => simp [hpc, Enq.resting] at hrest
  | _ => trivial

/-- A position that is claimed is published when its thread is done. -/
theorem Coupled.published {W : Wired τ T γ σ κ} (h : Coupled k W) (hq : Quiet W)
    (hun : W.chan.sys.published W.chan.sys.consumed.length = false) : W.pending = [] := by
  by_contra hne
  have hlt : W.chan.sys.consumed.length < W.chan.sys.claimed.length := by
    unfold Wired.pending at hne
    simpa using hne
  obtain ⟨⟨t, c⟩, hget⟩ : ∃ x, W.chan.sys.claimed[W.chan.sys.consumed.length]? = some x :=
    ⟨_, List.getElem?_eq_getElem hlt⟩
  obtain ⟨-, hclaim⟩ := h.ring.ring.holder _ t c hget hun
  have hrest := (h.ring.linked t).resting (hq t)
  rw [Enq.claim_busy (by rw [hclaim]; rfl)] at hrest
  exact absurd hrest (by simp)

/-- An access of `ring_dequeue`, unless it fails for no reason, brings the call nearer to its end. -/
theorem deqStep_left {s : RingSys τ Cmd} (hk' : k < 60) (h : RingInv k s)
    (hbusy : s.deq.resting = false) :
    (∃ out, (s.deqStep false).deq = .ret out) ∨ dequeue_left (s.deqStep false).deq < dequeue_left s.deq := by
  have hpc : (s.deqStep false).deq = (ring_dequeue_step s.ring false s.deq).2 := rfl
  have hok := h.consumer
  have hdeq := h.deq_pos
  rw [hpc]
  cases hold : s.deq with
  | idle => rw [hold] at hbusy; exact absurd hbusy (by simp [Deq.resting])
  | ret out => exact Or.inl ⟨out, rfl⟩
  | load => exact Or.inr (by simp [ring_dequeue_step, dequeue_left])
  | read pos => exact Or.inr (by simp [ring_dequeue_step, dequeue_left])
  | release pos out => exact Or.inl ⟨some out, rfl⟩
  | cas pos =>
      rw [hold] at hok hdeq
      have hwin : s.ring.dequeue_pos = pos := hdeq.trans hok.1.symm
      exact Or.inr (by simp [ring_dequeue_step, hwin, dequeue_left])
  | seq pos =>
      rw [hold] at hok
      have hpos : pos = UInt64.ofNat s.consumed.length := hok
      have hcell : s.ring.cell pos = s.consumed.length % 2 ^ k := by rw [hpos, h.cell (by omega)]
      have hseq := h.seq s.consumed.length (Nat.le_refl _)
        (Nat.lt_add_of_pos_right (Nat.two_pow_pos k))
      have hdif : difference (s.ring.seq (s.ring.cell pos)) (pos + 1)
          = if s.published s.consumed.length then 0 else -1 := by
        rw [hcell, hseq, hpos, ofNat_succ, difference_ofNat (by split <;> omega) (by split <;> omega)]
        split <;> omega
      simp only [ring_dequeue_step, hdif]
      cases s.published s.consumed.length with
      | true => exact Or.inr (by simp [dequeue_left])
      | false => exact Or.inl ⟨none, by simp⟩

/-- An access of the drain leaves fewer of them. -/
theorem drain_left_lt (hk' : k < 60) {chan chan' : Channel τ Cmd} (h : PostInv k chan)
    (hstep : chan.step (.drain false) = some chan') : drain_left chan' < drain_left chan := by
  cases hl : chan.loop with
  | outside => simp [Channel.step, hl] at hstep
  | reading =>
      simp only [Channel.step, hl] at hstep
      split_ifs at hstep with hev
      · obtain rfl := Option.some.inj hstep
        simp [drain_left, hl, hev]
      · obtain rfl := Option.some.inj hstep
        simp [drain_left, hl, hev, RingSys.callDeq, dequeue_left]
  | draining =>
      have hbusy : chan.sys.deq.resting = false := by
        by_contra hr
        exact (h.loop.mp (by simpa using hr)) hl
      have hpos : 0 < dequeue_left chan.sys.deq := by
        cases hd : chan.sys.deq with
        | idle => rw [hd] at hbusy; exact absurd hbusy (by simp [Deq.resting])
        | ret out => rw [hd] at hbusy; exact absurd hbusy (by simp [Deq.resting])
        | _ => simp [dequeue_left]
      have hclaimed := deqStep_claimed chan.sys false
      have hleft := deqStep_left hk' h.ring hbusy
      simp only [Channel.step, hl, Option.some.injEq] at hstep
      subst hstep
      simp only [drain_left, hl, Channel.afterDeq]
      cases hd : (chan.sys.deqStep false).deq with
      | ret out =>
          cases out with
          | none => exact Nat.lt_of_lt_of_le hpos (Nat.le_add_left _ _)
          | some c =>
              obtain ⟨-, hcons, t, hhead⟩ := deqStep_answer h.ring hbusy hd
              obtain ⟨hlt, -⟩ := List.getElem?_eq_some_iff.mp hhead
              simp only [RingSys.callDeq, hcons, hclaimed, dequeue_left, List.length_append,
                List.length_singleton]
              omega
      | _ =>
          have hcons : (chan.sys.deqStep false).consumed = chan.sys.consumed :=
            deqStep_consumed (by rw [hd]; simp)
          rw [hd] at hleft
          simpa [hl, hclaimed, hcons, hd] using hleft

/-- Where a drain is that was called in `W₀`, for the events `evs` to come after it. -/
structure Draining (k : Nat) (K : Kernel κ δ) (W₀ : Wired τ T γ σ κ) (evs : List Event)
    (W : Wired τ T γ σ κ) : Prop where
  linked : Coupled k W
  quiet : Quiet W
  claimed : W.chan.sys.claimed = W₀.chan.sys.claimed
  place : W.pc = .drain evs ∨ W.pc = .events evs ∧ W.pending = []
  /-- What was applied since. -/
  effect : ∃ done, W.applied = W₀.applied ++ done ∧ W.r = done.foldl (apply_cmd K) W₀.r

/-- Every command that was posted has been applied or is pending, in the order of the positions. -/
theorem Coupled.all {W : Wired τ T γ σ κ} (h : Coupled k W) :
    W.applied ++ W.pending = W.chan.sys.claimed.map Prod.snd := by
  have hcons : W.applied = (W.chan.sys.claimed.map Prod.snd).take W.chan.sys.consumed.length :=
    h.applied.trans h.ring.ring.order
  rw [hcons]
  exact List.take_append_drop _ _

theorem drain_post {chan chan' : Channel τ Cmd} {spurious : Bool}
    (hstep : chan.step (.drain spurious) = some chan') : chan'.post = chan.post := by
  cases hl : chan.loop with
  | outside => simp [Channel.step, hl] at hstep
  | reading =>
      simp only [Channel.step, hl] at hstep
      split_ifs at hstep
      all_goals obtain rfl := Option.some.inj hstep; rfl
  | draining =>
      simp only [Channel.step, hl, Option.some.injEq] at hstep
      subst hstep
      unfold Channel.afterDeq
      split <;> rfl

/-- **Step lemma of the drain.** -/
theorem Draining.step (hk : 1 ≤ k) (hk' : k < 60) {W₀ W W' : Wired τ T γ σ κ} {evs : List Event}
    (h : Draining k K W₀ evs W) {spurious : Bool}
    (hstep : W.step L P K (.drain spurious) = some W') : Draining k K W₀ evs W' := by
  obtain ⟨-, -, hlinked, -⟩ := carries_simulates (L := L) (P := P) (K := K) hk hk' W
    (.drain spurious) W' _ ⟨h.linked, rfl⟩ (h.linked.near h.quiet) hstep
  simp only [Wired.step] at hstep
  split at hstep
  case h_2 => simp at hstep
  case h_1 evs' hpc =>
    obtain rfl : evs' = evs := by
      obtain hp | ⟨hp, -⟩ := h.place
      · simpa [hpc] using hp
      · simp [hpc] at hp
    obtain ⟨chan', hchan, rfl⟩ := Option.map_eq_some_iff.mp hstep
    have hpost := drain_post hchan
    obtain ⟨hclaimed, hans⟩ := drain_answer h.linked.ring hchan
    obtain ⟨done, happlied, hr⟩ := h.effect
    refine ⟨hlinked, ?quiet, ?claimed, ?place, ?effect⟩
    case quiet =>
      intro t
      have hq := h.quiet t
      rw [← hpost] at hq
      unfold Wired.deliver
      split <;> exact hq
    case claimed =>
      have hall := hclaimed.trans h.claimed
      unfold Wired.deliver
      split <;> exact hall
    case place =>
      cases hout : answer W.chan spurious with
      | none => exact Or.inl hpc
      | some out =>
          cases out with
          | some c => exact Or.inl hpc
          | none =>
              -- the ring said empty: at an unpublished position, which is not claimed
              simp only [hout] at hans
              refine Or.inr ⟨rfl, ?_⟩
              have hdeq : (W.chan.sys.deqStep spurious).deq = .ret none := by
                unfold answer at hout
                split_ifs at hout
                split at hout
                case h_1 out hret =>
                  obtain rfl := Option.some.inj hout
                  exact hret
                case h_2 => simp at hout
              have hbusy : W.chan.sys.deq.resting = false := by
                by_contra hrest
                have hne := h.linked.ring.loop.mp (by simpa using hrest)
                simp [answer, hne] at hout
              have hun := h.linked.ring.ring.empty hk' hbusy hdeq
              have hempty := h.linked.published h.quiet hun
              simpa [Wired.deliver, Wired.pending, hclaimed, hans.2] using hempty
    case effect =>
      cases hout : answer W.chan spurious with
      | none => exact ⟨done, happlied, hr⟩
      | some out =>
          cases out with
          | none => exact ⟨done, happlied, hr⟩
          | some c =>
              refine ⟨done ++ [c], ?_, ?_⟩
              · simp [Wired.deliver, happlied]
              · simp [Wired.deliver, hr]

theorem Draining.start {W : Wired τ T γ σ κ} {evs : List Event} (h : Coupled k W) (hq : Quiet W)
    (hpc : W.pc = .drain evs) : Draining k K W evs W :=
  ⟨h, hq, rfl, Or.inl hpc, [], (List.append_nil _).symm, rfl⟩

/-- The drain can go on until it is over. -/
theorem Draining.goes (hk : 1 ≤ k) (hk' : k < 60) {W₀ W : Wired τ T γ σ κ} {evs : List Event}
    (h : Draining k K W₀ evs W) (hpc : W.pc ≠ .events evs) :
    ∃ W', W.step L P K (.drain false) = some W' ∧ Draining k K W₀ evs W' ∧
      drain_left W'.chan < drain_left W.chan := by
  obtain hdrain | ⟨hend, -⟩ := h.place
  · have hne : W.chan.loop ≠ .outside := by
      intro hout
      have := h.linked.loop.mp hout
      simp [hdrain, Pc.draining] at this
    obtain ⟨chan', hchan⟩ : ∃ chan', W.chan.step (.drain false) = some chan' := by
      cases hl : W.chan.loop with
      | outside => exact absurd hl hne
      | reading =>
          simp only [Channel.step, hl]
          split_ifs
          all_goals exact ⟨_, rfl⟩
      | draining => exact ⟨W.chan.afterDeq (W.chan.sys.deqStep false), by simp [Channel.step, hl]⟩
    have hstep : W.step L P K (.drain false) =
        some ({ W with chan := chan' }.deliver K evs (answer W.chan false)) := by
      simp [Wired.step, hdrain, hchan]
    refine ⟨_, hstep, h.step hk hk' hstep, ?_⟩
    have hkeep : ({ W with chan := chan' }.deliver K evs (answer W.chan false)).chan = chan' := by
      unfold Wired.deliver
      split <;> rfl
    rw [hkeep]
    exact drain_left_lt hk' h.linked.ring hchan
  · exact absurd hend hpc

end

end CFiber.Ev
