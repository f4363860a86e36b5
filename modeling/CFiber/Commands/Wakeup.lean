/-
  CFiber.Commands.Wakeup — cross-thread wakeups: `post_cmd` and `drain_cmds` over the ring.

  A producer enqueues and then writes to the eventfd; the loop reads the eventfd until it is empty
  and then dequeues until the ring says empty.  The drain may stop at a position that is claimed but
  not published while later positions are published and their signals already consumed.  What saves
  the leftovers is that the producer of that oldest position still has its own signal to send.

  `PostInv` is the invariant over all producers' program counters; `covered_of_run` is the result.
  It needs that no producer is held up inside `ring_enqueue` for `2 ^ 64` positions:
  `lost_wakeup` is a run of `2 ^ 64` commands around one delayed compare-exchange that loses one.
-/
import CFiber.Commands.RingRun

namespace CFiber.Commands

open CFiber.Base

variable {τ α : Type}

/-! ## §1. `post_cmd` and `drain_cmds`. -/

def CMD_RING_CAP : Nat := 1024

def POST_RETRIES : Nat := 16

/-- Where a thread is relative to `post_cmd`. -/
inductive Post (α : Type) where
  | idle
  /-- In the `ring_enqueue` call of attempt `i`. -/
  | trying (cmd : α) (i : Nat)
  /-- Between `ring_enqueue` and the write to the eventfd. -/
  | signal
  | returned (ok : Bool)

/-- Where the loop thread is relative to `drain_cmds`. -/
inductive Loop where
  | outside
  | reading
  | draining
  deriving DecidableEq

/-- The ring with its users, the eventfd counter, and where every thread is. -/
structure Channel (τ α : Type) where
  sys : RingSys τ α
  post : τ → Post α
  evfd : Nat
  loop : Loop

def Channel.start (ring : CmdRing α) : Channel τ α where
  sys := RingSys.start ring
  post := fun _ => .idle
  evfd := 0
  loop := .outside

inductive ChanAct (τ α : Type) where
  /-- Thread `t` calls `post_cmd(s, cmd)`. -/
  | post (t : τ) (cmd : α)
  /-- The next access of thread `t` in `post_cmd`. -/
  | run (t : τ) (spurious : Bool)
  /-- The loop calls `drain_cmds`. -/
  | enter
  /-- The next access of the loop in `drain_cmds`. -/
  | drain (spurious : Bool)

def Post.outside : Post α → Bool
  | .idle | .returned _ => true
  | _ => false

variable [DecidableEq τ]

/-- Thread `t` calls `ring_enqueue(&s->cmds, cmd)`. -/
def RingSys.callEnq (s : RingSys τ α) (t : τ) (cmd : α) : RingSys τ α :=
  { s with enq := Function.update s.enq t (.load cmd) }

/-- The loop calls `ring_dequeue(&s->cmds, &c)`. -/
def RingSys.callDeq (s : RingSys τ α) : RingSys τ α := { s with deq := .load }

/-- After an access of attempt `i`: signal on success, try again or give up on failure. -/
def Channel.afterEnq (s : Channel τ α) (t : τ) (cmd : α) (i : Nat) (sys : RingSys τ α) :
    Channel τ α :=
  match sys.enq t with
  | .ret true => { s with sys := sys, post := Function.update s.post t .signal }
  | .ret false =>
    if i + 1 < POST_RETRIES then
      { s with sys := sys.callEnq t cmd, post := Function.update s.post t (.trying cmd (i + 1)) }
    else { s with sys := sys, post := Function.update s.post t (.returned false) }
  | _ => { s with sys := sys }

/-- After an access of the drain's `ring_dequeue`: the command is applied and the next one asked
for, or the drain is over. -/
def Channel.afterDeq (s : Channel τ α) (sys : RingSys τ α) : Channel τ α :=
  match sys.deq with
  | .ret (some _) => { s with sys := sys.callDeq }
  | .ret none => { s with sys := sys, loop := .outside }
  | _ => { s with sys := sys }

def Channel.step (s : Channel τ α) : ChanAct τ α → Option (Channel τ α)
  | .post t cmd =>
    if (s.post t).outside then
      some { s with
        sys := s.sys.callEnq t cmd
        post := Function.update s.post t (.trying cmd 0) }
    else none
  | .run t spurious =>
    match s.post t with
    | .trying cmd i => some (s.afterEnq t cmd i (s.sys.enqStep t spurious))
    | .signal =>
      some { s with
        evfd := s.evfd + 1
        post := Function.update s.post t (.returned true) }
    | _ => none
  | .enter => if s.loop = .outside then some { s with loop := .reading } else none
  | .drain spurious =>
    match s.loop with
    | .outside => none
    | .reading =>
      if 0 < s.evfd then some { s with evfd := 0 }
      else some { s with sys := s.sys.callDeq, loop := .draining }
    | .draining => some (s.afterDeq (s.sys.deqStep spurious))

/-! ## §2. The frame of one access. -/

theorem enqStep_other {s : RingSys τ α} {t u : τ} {spurious : Bool} (hu : u ≠ t) :
    (s.enqStep t spurious).enq u = s.enq u ∧
      (s.enqStep t spurious).position u = s.position u := by
  refine ⟨by simp [RingSys.enqStep, hu], ?_⟩
  simp only [RingSys.enqStep, RingSys.noteEnq]
  split <;> simp [hu]

theorem enqStep_consumed (s : RingSys τ α) (t : τ) (spurious : Bool) :
    (s.enqStep t spurious).consumed = s.consumed ∧ (s.enqStep t spurious).deq = s.deq := by
  simp only [RingSys.enqStep, RingSys.noteEnq]
  split <;> exact ⟨rfl, rfl⟩

theorem enqStep_claimed {s : RingSys τ α} {t : τ} {spurious : Bool} {q : Nat} {x : τ × α}
    (h : s.claimed[q]? = some x) : (s.enqStep t spurious).claimed[q]? = some x := by
  simp only [RingSys.enqStep, RingSys.noteEnq]
  split
  · exact h
  · exact h
  · exact getElem?_snoc h
  · exact h
  · exact h
  · exact h

/-- A position becomes published only by the access with which its producer's call succeeds. -/
theorem enqStep_published {s : RingSys τ α} {t : τ} {spurious : Bool} {q : Nat}
    (h : (s.enqStep t spurious).published q = true) (hold : s.published q = false) :
    q = s.position t ∧ (∃ cmd pos, s.enq t = .publish cmd pos) ∧
      (s.enqStep t spurious).enq t = .ret true ∧
      (s.enqStep t spurious).position t = s.position t := by
  cases hpc : s.enq t with
  | publish cmd pos =>
      simp only [RingSys.enqStep, hpc, ring_enqueue_step, RingSys.noteEnq] at h ⊢
      have hq : q = s.position t := by
        by_contra hne
        rw [Function.update_of_ne hne, hold] at h
        exact absurd h (by simp)
      exact ⟨hq, ⟨cmd, pos, rfl⟩, Function.update_self _ _ _, trivial⟩
  | idle => simp [RingSys.enqStep, hpc, ring_enqueue_step, RingSys.noteEnq, hold] at h
  | ret ok => simp [RingSys.enqStep, hpc, ring_enqueue_step, RingSys.noteEnq, hold] at h
  | load cmd => simp [RingSys.enqStep, hpc, ring_enqueue_step, RingSys.noteEnq, hold] at h
  | write cmd pos => simp [RingSys.enqStep, hpc, ring_enqueue_step, RingSys.noteEnq, hold] at h
  | seq cmd pos =>
      simp only [RingSys.enqStep, hpc, ring_enqueue_step] at h
      split_ifs at h <;> simp [RingSys.noteEnq, hold] at h
  | cas cmd pos =>
      simp only [RingSys.enqStep, hpc, ring_enqueue_step] at h
      split_ifs at h <;> simp [RingSys.noteEnq, hold] at h

omit [DecidableEq τ] in
theorem deqStep_frame (s : RingSys τ α) (spurious : Bool) :
    (s.deqStep spurious).enq = s.enq ∧ (s.deqStep spurious).published = s.published := by
  simp only [RingSys.deqStep, RingSys.noteDeq]
  split <;> exact ⟨rfl, rfl⟩

omit [DecidableEq τ] in
theorem deqStep_consumed {s : RingSys τ α} {spurious : Bool}
    (h : ∀ out, (s.deqStep spurious).deq ≠ .ret (some out)) :
    (s.deqStep spurious).consumed = s.consumed := by
  have hpc : (s.deqStep spurious).deq = (ring_dequeue_step s.ring spurious s.deq).2 := rfl
  rw [hpc] at h
  simp only [RingSys.deqStep]
  cases hold : s.deq with
  | release pos out => exact absurd (by rw [hold]; rfl) (h out)
  | _ => rfl

omit [DecidableEq τ] in
theorem deqStep_ne_idle {s : RingSys τ α} {spurious : Bool} (hbusy : s.deq.resting = false) :
    (s.deqStep spurious).deq ≠ .idle := by
  have hpc : (s.deqStep spurious).deq = (ring_dequeue_step s.ring spurious s.deq).2 := rfl
  rw [hpc]
  cases hold : s.deq with
  | idle => rw [hold] at hbusy; exact absurd hbusy (by simp [Deq.resting])
  | seq pos => simp only [ring_dequeue_step]; split_ifs <;> simp
  | cas pos => simp only [ring_dequeue_step]; split_ifs <;> simp
  | _ => simp [ring_dequeue_step]

/-! ## §3. The invariant. -/

/-- Program counters agree: a thread is inside `ring_enqueue` exactly while it tries. -/
def Post.Linked (pc : Enq α) : Post α → Prop
  | .trying _ _ => pc.resting = false
  | .signal => pc = .ret true
  | _ => pc.resting = true

/-- **The wakeup invariant.**  While the loop is outside the drain, a published oldest position has
its signal either in the eventfd or about to be written by the producer that published it. -/
structure PostInv (k : Nat) (s : Channel τ α) : Prop where
  ring : RingInv k s.sys
  linked : ∀ t, (s.post t).Linked (s.sys.enq t)
  loop : s.sys.deq.resting = true ↔ s.loop ≠ .draining
  cover : s.loop = .outside → s.sys.published s.sys.consumed.length = true →
    0 < s.evfd ∨ ∃ t cmd, s.sys.claimed[s.sys.consumed.length]? = some (t, cmd) ∧
      s.sys.position t = s.sys.consumed.length ∧ s.post t = .signal

theorem PostInv.start [Inhabited α] {k : Nat} {ring : CmdRing α}
    (hinit : ring_init (2 ^ k) = some ring) : PostInv k (Channel.start ring : Channel τ α) where
  ring := RingInv.start hinit
  linked := fun _ => rfl
  loop := by simp [Channel.start, RingSys.start, Deq.resting]
  cover := fun _ h => absurd h (by simp [Channel.start, RingSys.start])

theorem Post.Linked.resting {post : Post α} {pc : Enq α} (h : post.Linked pc)
    (hout : post.outside = true) : pc.resting = true := by
  cases post with
  | idle => exact h
  | returned ok => exact h
  | _ => exact absurd hout (by simp [Post.outside])

theorem Enq.claim_busy {pc : Enq α} (h : pc.claim.isSome = true) : pc.resting = false := by
  cases pc with
  | write cmd pos => rfl
  | publish cmd pos => rfl
  | _ => exact absurd h (by simp [Enq.claim])

/-- An access of thread `t` inside `ring_enqueue`, followed by what `post_cmd` makes of it. -/
theorem PostInv.settle {k : Nat} {s : Channel τ α} (h : PostInv k s) {t : τ} {cmd : α} {i : Nat}
    (hpost : s.post t = .trying cmd i) (spurious : Bool) {sys : RingSys τ α} {post : τ → Post α}
    (hring : RingInv k sys) (hclaimed : sys.claimed = (s.sys.enqStep t spurious).claimed)
    (hconsumed : sys.consumed = s.sys.consumed) (hdeq : sys.deq = s.sys.deq)
    (hpub : sys.published = (s.sys.enqStep t spurious).published)
    (hpos : sys.position = (s.sys.enqStep t spurious).position)
    (hother : ∀ u, u ≠ t → sys.enq u = s.sys.enq u ∧ post u = s.post u)
    (hlinked : (post t).Linked (sys.enq t))
    (hsignal : (s.sys.enqStep t spurious).enq t = .ret true → post t = .signal) :
    PostInv k { s with sys := sys, post := post } where
  ring := hring
  linked u := by
    by_cases hu : u = t
    · exact hu ▸ hlinked
    · obtain ⟨he, hp⟩ := hother u hu
      show (post u).Linked (sys.enq u)
      rw [he, hp]
      exact h.linked u
  loop := by
    show sys.deq.resting = true ↔ s.loop ≠ .draining
    rw [hdeq]
    exact h.loop
  cover := by
    intro hout hp
    show 0 < s.evfd ∨ ∃ u c, sys.claimed[sys.consumed.length]? = some (u, c) ∧
      sys.position u = sys.consumed.length ∧ post u = .signal
    simp only [hpub, hconsumed] at hp
    rw [hclaimed, hconsumed, hpos]
    cases hold : s.sys.published s.sys.consumed.length with
    | true =>
        -- an old signal is still to come, and not from this thread
        rcases h.cover hout hold with hev | ⟨u, c, hclaim, hat, hsig⟩
        · exact Or.inl hev
        · have hu : u ≠ t := by
            rintro rfl
            rw [hpost] at hsig
            exact absurd hsig (by simp)
          exact Or.inr ⟨u, c, enqStep_claimed hclaim, (enqStep_other hu).2.trans hat,
            (hother u hu).2.trans hsig⟩
    | false =>
        -- published by this very access: this thread signals next
        obtain ⟨hq, ⟨c, pos, hpc⟩, hret, hat⟩ := enqStep_published hp hold
        have hok := h.ring.producer t
        rw [hpc] at hok
        refine Or.inr ⟨t, c, ?_, hat.trans hq.symm, hsignal hret⟩
        rw [hq]
        exact enqStep_claimed hok.1.claimed

/-- A busy producer does not become idle. -/
theorem enqStep_ne_idle {s : RingSys τ α} {t : τ} (spurious : Bool)
    (hbusy : (s.enq t).resting = false) : (s.enqStep t spurious).enq t ≠ .idle := by
  have hpc : (s.enqStep t spurious).enq t = (ring_enqueue_step s.ring spurious (s.enq t)).2 := by
    simp [RingSys.enqStep]
  rw [hpc]
  cases hold : s.enq t with
  | idle => rw [hold] at hbusy; exact absurd hbusy (by simp [Enq.resting])
  | seq cmd pos => simp only [ring_enqueue_step]; split_ifs <;> simp
  | cas cmd pos => simp only [ring_enqueue_step]; split_ifs <;> simp
  | _ => simp [ring_enqueue_step]

/-- One access of `ring_enqueue` inside `post_cmd`. -/
theorem PostInv.afterEnq {k : Nat} (hk : 1 ≤ k) (hk' : k < 60) {s : Channel τ α} (h : PostInv k s)
    {t : τ} {cmd : α} {i : Nat} (hpost : s.post t = .trying cmd i) (hnear : NearAt (2 ^ 64) k s.sys t)
    (spurious : Bool) : PostInv k (s.afterEnq t cmd i (s.sys.enqStep t spurious)) := by
  have hring := h.ring.enq_step hk hk' hnear spurious
  obtain ⟨hcons, hdeq⟩ := enqStep_consumed s.sys t spurious
  have hbusy : (s.sys.enq t).resting = false := by
    have := h.linked t
    rwa [hpost] at this
  have hidle := enqStep_ne_idle spurious hbusy
  have hother : ∀ u, u ≠ t → (s.sys.enqStep t spurious).enq u = s.sys.enq u := fun u hu =>
    (enqStep_other hu).1
  unfold Channel.afterEnq
  cases hpc : (s.sys.enqStep t spurious).enq t with
  | idle => exact absurd hpc hidle
  | ret ok =>
      cases ok with
      | true =>
          refine h.settle hpost spurious hring rfl hcons hdeq rfl rfl
            (fun u hu => ⟨hother u hu, by simp [hu]⟩) ?_ fun _ => by simp
          simp [Post.Linked, hpc]
      | false =>
          have hclaim : ((s.sys.enqStep t spurious).enq t).claim = none := by rw [hpc]; rfl
          have hno : (s.sys.enqStep t spurious).enq t ≠ .ret true := by rw [hpc]; simp
          by_cases hretry : i + 1 < POST_RETRIES
          · simp only [if_pos hretry]
            refine h.settle hpost spurious (hring.setEnq hclaim rfl trivial) rfl hcons hdeq rfl rfl
              (fun u hu => ⟨?_, by simp [hu]⟩) ?_ fun hret => absurd hret hno
            · simpa [RingSys.callEnq, hu] using hother u hu
            · simp [Post.Linked, RingSys.callEnq, Enq.resting]
          · simp only [if_neg hretry]
            refine h.settle hpost spurious hring rfl hcons hdeq rfl rfl
              (fun u hu => ⟨hother u hu, by simp [hu]⟩) ?_ fun hret => absurd hret hno
            simp [Post.Linked, hpc, Enq.resting]
  | _ =>
      refine h.settle hpost spurious hring rfl hcons hdeq rfl rfl
        (fun u hu => ⟨hother u hu, rfl⟩) ?_ fun hret => ?_
      · simp [hpost, Post.Linked, hpc, Enq.resting]
      · rw [hpc] at hret
        exact absurd hret (by simp)

/-- **A thread calls `post_cmd`.** -/
theorem PostInv.call {k : Nat} {s : Channel τ α} (h : PostInv k s) {t : τ} (cmd : α)
    (hout : (s.post t).outside = true) : PostInv k { s with
      sys := s.sys.callEnq t cmd
      post := Function.update s.post t (.trying cmd 0) } := by
  have hrest := (h.linked t).resting hout
  refine ⟨h.ring.setEnq (Enq.resting_claim hrest) rfl trivial, fun u => ?_, h.loop,
    fun hl hp => ?_⟩
  · by_cases hu : u = t
    · subst hu
      simp [Post.Linked, RingSys.callEnq, Enq.resting]
    · simpa [RingSys.callEnq, hu] using h.linked u
  · rcases h.cover hl hp with hev | ⟨u, c, hclaim, hat, hsig⟩
    · exact Or.inl hev
    · have hu : u ≠ t := by
        rintro rfl
        rw [hsig] at hout
        exact absurd hout (by simp [Post.outside])
      exact Or.inr ⟨u, c, hclaim, hat, by simpa [hu] using hsig⟩

/-- **The eventfd is written.** -/
theorem PostInv.signal {k : Nat} {s : Channel τ α} (h : PostInv k s) {t : τ}
    (hpost : s.post t = .signal) : PostInv k { s with
      evfd := s.evfd + 1
      post := Function.update s.post t (.returned true) } := by
  refine ⟨h.ring, fun u => ?_, h.loop, fun _ _ => Or.inl (Nat.succ_pos _)⟩
  by_cases hu : u = t
  · subst hu
    have hlinked := h.linked u
    rw [hpost] at hlinked
    have hret : s.sys.enq u = .ret true := hlinked
    simp [Post.Linked, hret, Enq.resting]
  · simpa [hu] using h.linked u

/-- **The drain begins** once the eventfd reads empty. -/
theorem PostInv.drain {k : Nat} {s : Channel τ α} (h : PostInv k s) (hl : s.loop = .reading) :
    PostInv k { s with sys := s.sys.callDeq, loop := .draining } := by
  have hrest : s.sys.deq.resting = true := h.loop.mpr (by rw [hl]; simp)
  refine ⟨h.ring.frameDeq ?_ trivial, h.linked, ?_, fun hout => absurd hout (by simp)⟩
  · cases hd : s.sys.deq with
    | idle => rfl
    | ret out => rfl
    | _ => simp [hd, Deq.resting] at hrest
  · simp [RingSys.callDeq, Deq.resting]

/-- One access of `ring_dequeue` inside the drain. -/
theorem PostInv.afterDeq {k : Nat} (hk' : k < 60) {s : Channel τ α} (h : PostInv k s)
    (hl : s.loop = .draining) (spurious : Bool) :
    PostInv k (s.afterDeq (s.sys.deqStep spurious)) := by
  have hring := h.ring.deq_step hk' spurious
  have hbusy : s.sys.deq.resting = false := by
    by_contra hr
    exact (h.loop.mp (by simpa using hr)) hl
  obtain ⟨henq, hpub⟩ := deqStep_frame s.sys spurious
  have hlinked : ∀ u, (s.post u).Linked ((s.sys.deqStep spurious).enq u) := by
    rw [henq]; exact h.linked
  unfold Channel.afterDeq
  cases hpc : (s.sys.deqStep spurious).deq with
  | ret out =>
      cases out with
      | some cmd =>
          refine ⟨hring.frameDeq (by rw [hpc]; rfl) trivial, hlinked, ?_,
            fun hout => absurd (hl.symm.trans hout) (by simp)⟩
          simp [RingSys.callDeq, Deq.resting, hl]
      | none =>
          -- the drain stops at an unpublished position, so there is nothing to cover
          have hun := h.ring.empty hk' hbusy hpc
          have hcons := deqStep_consumed (by rw [hpc]; simp)
          refine ⟨hring, hlinked, ?_, fun _ hp => ?_⟩
          · simp [hpc, Deq.resting]
          · simp only [hpub, hcons, hun] at hp
            exact absurd hp (by simp)
  | idle => exact absurd hpc (deqStep_ne_idle hbusy)
  | _ =>
      refine ⟨hring, hlinked, ?_, fun hout => absurd (hl.symm.trans hout) (by simp)⟩
      simp [hpc, Deq.resting, hl]

/-- **Every step keeps the wakeup invariant.** -/
theorem PostInv.step {k : Nat} (hk : 1 ≤ k) (hk' : k < 60) {s s' : Channel τ α}
    {a : ChanAct τ α} (h : PostInv k s) (hnear : Near (2 ^ 64) k s.sys) (hstep : s.step a = some s') :
    PostInv k s' := by
  cases a with
  | post t cmd =>
      simp only [Channel.step] at hstep
      split_ifs at hstep with hout
      obtain rfl := Option.some.inj hstep
      exact h.call cmd hout
  | run t spurious =>
      cases hpost : s.post t with
      | trying cmd i =>
          simp only [Channel.step, hpost, Option.some.injEq] at hstep
          rw [← hstep]
          exact h.afterEnq hk hk' hpost (hnear t) spurious
      | signal =>
          simp only [Channel.step, hpost, Option.some.injEq] at hstep
          rw [← hstep]
          exact h.signal hpost
      | idle => simp [Channel.step, hpost] at hstep
      | returned ok => simp [Channel.step, hpost] at hstep
  | enter =>
      simp only [Channel.step] at hstep
      split_ifs at hstep with hout
      obtain rfl := Option.some.inj hstep
      refine ⟨h.ring, h.linked, ?_, fun hl => absurd hl (by simp)⟩
      rw [h.loop, hout]
      simp
  | drain spurious =>
      cases hl : s.loop with
      | outside => simp [Channel.step, hl] at hstep
      | reading =>
          simp only [Channel.step, hl] at hstep
          split_ifs at hstep with hev
          · -- a count is read first, and reading goes on
            obtain rfl := Option.some.inj hstep
            refine ⟨h.ring, h.linked, ?_, fun hout => absurd hout (by simp)⟩
            simpa [hl] using h.loop
          · obtain rfl := Option.some.inj hstep
            exact h.drain hl
      | draining =>
          simp only [Channel.step, hl, Option.some.injEq] at hstep
          rw [← hstep]
          exact h.afterDeq hk' hl spurious

/-! ## §4. No lost wakeup. -/

/-- Thread `t` has not yet written to the eventfd for the position it claimed. -/
def Unsignalled (s : Channel τ α) (t : τ) : Prop :=
  (s.sys.enq t).claim.isSome = true ∨ s.post t = .signal

/-- **Covered**: with the loop outside the drain, a claimed but unconsumed command means that the
eventfd is readable, or that the producer of the oldest one has yet to write to it. -/
def Covered (s : Channel τ α) : Prop :=
  s.loop = .outside → s.sys.consumed.length < s.sys.claimed.length →
    0 < s.evfd ∨ ∃ t cmd, s.sys.claimed[s.sys.consumed.length]? = some (t, cmd) ∧
      s.sys.position t = s.sys.consumed.length ∧ Unsignalled s t

theorem PostInv.covered {k : Nat} {s : Channel τ α} (h : PostInv k s) : Covered s := by
  intro hout hlt
  cases hp : s.sys.published s.sys.consumed.length with
  | true =>
      rcases h.cover hout hp with hev | ⟨t, cmd, hclaim, hat, hsig⟩
      · exact Or.inl hev
      · exact Or.inr ⟨t, cmd, hclaim, hat, Or.inr hsig⟩
  | false =>
      have hget := List.getElem?_eq_getElem hlt
      obtain ⟨hat, hclaim⟩ := h.ring.holder _ _ _ hget hp
      exact Or.inr ⟨_, _, hget, hat, Or.inl (by rw [hclaim]; rfl)⟩

/-- The state after thread `t` has posted `cmd` at position `E`, undisturbed. -/
def afterPost (s : Channel τ α) (t : τ) (cmd : α) (E : Nat) : Channel τ α where
  sys :=
    { s.sys with
      ring :=
        { s.sys.ring with
          enqueue_pos := UInt64.ofNat (E + 1)
          cmd := Function.update s.sys.ring.cmd (E % 1024) cmd
          seq := Function.update s.sys.ring.seq (E % 1024) (UInt64.ofNat (E + 1)) }
      enq := Function.update s.sys.enq t (.ret true)
      claimed := s.sys.claimed ++ [(t, cmd)]
      published := Function.update s.sys.published s.sys.claimed.length true
      position := Function.update s.sys.position t s.sys.claimed.length
      results := Function.update s.sys.results t (s.sys.results t ++ [(cmd, true)]) }
  post := Function.update s.post t (.returned true)
  evfd := s.evfd + 1
  loop := s.loop

def postRun (t : τ) (cmd : α) : List (ChanAct τ α) := .post t cmd :: List.replicate 6 (.run t false)

theorem cell_1024 {r : CmdRing α} (hmask : r.mask = 1023) (a : Nat) :
    r.cell (UInt64.ofNat a) = a % 1024 := by
  unfold CmdRing.cell
  rw [hmask]
  exact mask_and (k := 10) (by decide) a

theorem difference_self (a : UInt64) : difference a a = 0 := by
  unfold difference
  rw [UInt64.sub_self]
  rfl

/-- The state after thread `t` has claimed position `pos`, written its command, published it and
signalled. -/
def afterClaim (s : Channel τ α) (t : τ) (cmd : α) (pos : UInt64) : Channel τ α where
  sys :=
    { s.sys with
      ring :=
        { s.sys.ring with
          enqueue_pos := pos + 1
          cmd := Function.update s.sys.ring.cmd (s.sys.ring.cell pos) cmd
          seq := Function.update s.sys.ring.seq (s.sys.ring.cell pos) (pos + 1) }
      enq := Function.update s.sys.enq t (.ret true)
      claimed := s.sys.claimed ++ [(t, cmd)]
      published := Function.update s.sys.published (s.sys.position t) true
      results := Function.update s.sys.results t (s.sys.results t ++ [(cmd, true)]) }
  post := Function.update s.post t (.returned true)
  evfd := s.evfd + 1
  loop := s.loop

theorem exec_claimed {s : Channel τ α} {t : τ} {cmd : α} {i : Nat} {pos : UInt64}
    (hpost : s.post t = .trying cmd i) (henq : s.sys.enq t = .cas cmd pos)
    (hpos : s.sys.ring.enqueue_pos = pos) :
    exec Channel.step s (List.replicate 4 (.run t false)) = some (afterClaim s t cmd pos) := by
  simp [exec, List.replicate, Channel.step, hpost, Channel.afterEnq, RingSys.enqStep, henq,
    ring_enqueue_step, RingSys.noteEnq, hpos, afterClaim, CmdRing.cell]

/-- The state after thread `t` has called `post_cmd` and found position `E` free. -/
def afterAsk (s : Channel τ α) (t : τ) (cmd : α) (E : Nat) : Channel τ α :=
  { s with
    sys :=
      { s.sys with
        enq := Function.update s.sys.enq t (.cas cmd (UInt64.ofNat E))
        position := Function.update s.sys.position t s.sys.claimed.length }
    post := Function.update s.post t (.trying cmd 0) }

theorem exec_asked {s : Channel τ α} {t : τ} {E : Nat} (cmd : α) (hmask : s.sys.ring.mask = 1023)
    (hpost : (s.post t).outside = true) (hpos : s.sys.ring.enqueue_pos = UInt64.ofNat E)
    (hseq : s.sys.ring.seq (E % 1024) = UInt64.ofNat E) :
    exec Channel.step s [.post t cmd, .run t false, .run t false] = some (afterAsk s t cmd E) := by
  have hcell := cell_1024 hmask E
  simp [exec, Channel.step, hpost, Channel.afterEnq, RingSys.callEnq, RingSys.enqStep,
    ring_enqueue_step, RingSys.noteEnq, hpos, hcell, hseq, difference_self, afterAsk]

theorem exec_postRun {s : Channel τ α} {t : τ} {E : Nat} (cmd : α) (hmask : s.sys.ring.mask = 1023)
    (hpost : (s.post t).outside = true) (hpos : s.sys.ring.enqueue_pos = UInt64.ofNat E)
    (hseq : s.sys.ring.seq (E % 1024) = UInt64.ofNat E) :
    exec Channel.step s (postRun t cmd) = some (afterPost s t cmd E) := by
  have hask := exec_asked cmd hmask hpost hpos hseq
  have htrying : (afterAsk s t cmd E).post t = .trying cmd 0 := by simp [afterAsk]
  have hcas : (afterAsk s t cmd E).sys.enq t = .cas cmd (UInt64.ofNat E) := by simp [afterAsk]
  have hclaim := exec_claimed htrying hcas hpos
  have hcell : (afterAsk s t cmd E).sys.ring.cell (UInt64.ofNat E) = E % 1024 := cell_1024 hmask E
  have hend : afterClaim (afterAsk s t cmd E) t cmd (UInt64.ofNat E) = afterPost s t cmd E := by
    unfold afterClaim
    rw [hcell]
    simp [afterAsk, afterPost]
  rw [hend] at hclaim
  show exec Channel.step s
    ([.post t cmd, .run t false, .run t false] ++ List.replicate 4 (.run t false)) = _
  exact exec_append.mpr ⟨_, hask, hclaim⟩

/-- The state after the drain has consumed the published position `R`. -/
def afterDrain (s : Channel τ α) (R : Nat) : Channel τ α where
  sys :=
    { s.sys with
      ring :=
        { s.sys.ring with
          dequeue_pos := UInt64.ofNat (R + 1)
          seq := Function.update s.sys.ring.seq (R % 1024) (UInt64.ofNat (R + 1024)) }
      deq := .load
      consumed := s.sys.consumed ++ [s.sys.ring.cmd (R % 1024)] }
  post := s.post
  evfd := s.evfd
  loop := s.loop

def drainRun (m : Nat) : List (ChanAct τ α) := List.replicate m (.drain false)

/-- The state after the drain has claimed position `pos` and read its command. -/
def afterRead (s : Channel τ α) (pos : UInt64) : Channel τ α :=
  { s with
    sys :=
      { s.sys with
        ring := { s.sys.ring with dequeue_pos := pos + 1 }
        deq := .release pos (s.sys.ring.cmd (s.sys.ring.cell pos)) } }

theorem exec_read {s : Channel τ α} {pos : UInt64} (hloop : s.loop = .draining)
    (hdeq : s.sys.deq = .load) (hpos : s.sys.ring.dequeue_pos = pos)
    (hseq : s.sys.ring.seq (s.sys.ring.cell pos) = pos + 1) :
    exec Channel.step s (drainRun 4) = some (afterRead s pos) := by
  have hcell : ∀ p, ({ s.sys.ring with dequeue_pos := p } : CmdRing α).cell pos =
    s.sys.ring.cell pos := fun _ => rfl
  simp [drainRun, exec, List.replicate, Channel.step, hloop, Channel.afterDeq, RingSys.deqStep,
    ring_dequeue_step, hdeq, hpos, RingSys.noteDeq, hseq, difference_self, afterRead, hcell]

/-- The state after the drain has released the cell of position `pos`. -/
def afterRelease (s : Channel τ α) (pos : UInt64) (cmd : α) : Channel τ α :=
  { s with
    sys :=
      { s.sys with
        ring :=
          { s.sys.ring with
            seq := Function.update s.sys.ring.seq (s.sys.ring.cell pos) (pos + s.sys.ring.mask + 1) }
        deq := .load
        consumed := s.sys.consumed ++ [cmd] } }

theorem exec_released {s : Channel τ α} {pos : UInt64} {cmd : α} (hloop : s.loop = .draining)
    (hdeq : s.sys.deq = .release pos cmd) :
    exec Channel.step s (drainRun 1) = some (afterRelease s pos cmd) := by
  simp [drainRun, exec, Channel.step, hloop, Channel.afterDeq, RingSys.deqStep, ring_dequeue_step,
    hdeq, RingSys.noteDeq, RingSys.callDeq, afterRelease]

theorem exec_drained {s : Channel τ α} {R : Nat} (hmask : s.sys.ring.mask = 1023)
    (hloop : s.loop = .draining) (hdeq : s.sys.deq = .load)
    (hpos : s.sys.ring.dequeue_pos = UInt64.ofNat R)
    (hseq : s.sys.ring.seq (R % 1024) = UInt64.ofNat (R + 1)) :
    exec Channel.step s (drainRun 5) = some (afterDrain s R) := by
  have hcell := cell_1024 hmask R
  have hread := exec_read hloop hdeq hpos (by rw [hcell, hseq]; simp)
  have hrelease := exec_released (s := afterRead s (UInt64.ofNat R)) hloop rfl
  have hend : afterRelease (afterRead s (UInt64.ofNat R)) (UInt64.ofNat R)
      (s.sys.ring.cmd (s.sys.ring.cell (UInt64.ofNat R))) = afterDrain s R := by
    have hcell' : (afterRead s (UInt64.ofNat R)).sys.ring.cell (UInt64.ofNat R) = R % 1024 :=
      cell_1024 hmask R
    have hrel : UInt64.ofNat R + 1023 + 1 = UInt64.ofNat R + 1024 := by
      rw [UInt64.add_assoc]
      rfl
    unfold afterRelease
    rw [hcell', hcell]
    simp [afterRead, afterDrain, hmask, hrel]
  rw [hend] at hrelease
  show exec Channel.step s (drainRun 4 ++ drainRun 1) = _
  exact exec_append.mpr ⟨_, hread, hrelease⟩

/-- The state after the drain has found position `R` unpublished. -/
def afterStop (s : Channel τ α) : Channel τ α :=
  { s with sys := { s.sys with deq := .ret none }, loop := .outside }

theorem exec_stopped {s : Channel τ α} {R : Nat} (hmask : s.sys.ring.mask = 1023)
    (hloop : s.loop = .draining) (hdeq : s.sys.deq = .load)
    (hpos : s.sys.ring.dequeue_pos = UInt64.ofNat R)
    (hseq : s.sys.ring.seq (R % 1024) = UInt64.ofNat R) :
    exec Channel.step s (drainRun 2) = some (afterStop s) := by
  have hcell := cell_1024 hmask R
  have hdif : difference (UInt64.ofNat R) (UInt64.ofNat R + 1) = -1 := by
    rw [ofNat_succ, difference_ofNat (by omega) (by omega)]
    omega
  simp [drainRun, exec, List.replicate, Channel.step, hloop, Channel.afterDeq, RingSys.deqStep,
    ring_dequeue_step, hdeq, hpos, RingSys.noteDeq, hcell, hseq, hdif, afterStop]

/-- The drain before `E - R` published positions and one that looks unpublished. -/
structure Tail (s : Channel τ α) (E R : Nat) : Prop where
  mask : s.sys.ring.mask = 1023
  loop : s.loop = .draining
  deq : s.sys.deq = .load
  pos : s.sys.ring.dequeue_pos = UInt64.ofNat R
  consumed : s.sys.consumed.length = R
  published : ∀ q, R ≤ q → q < E → s.sys.ring.seq (q % 1024) = UInt64.ofNat (q + 1)
  last : s.sys.ring.seq (E % 1024) = UInt64.ofNat E

omit [DecidableEq τ] in
theorem Tail.drained {s : Channel τ α} {E R : Nat} (h : Tail s E R) (hlt : R < E)
    (hle : E ≤ R + 1023) : Tail (afterDrain s R) E (R + 1) where
  mask := h.mask
  loop := h.loop
  deq := rfl
  pos := rfl
  consumed := by simp [afterDrain, h.consumed]
  published q hlo hhi := by
    have hne : q % 1024 ≠ R % 1024 := by omega
    simp only [afterDrain, Function.update_of_ne hne]
    exact h.published q (by omega) hhi
  last := by
    have hne : E % 1024 ≠ R % 1024 := by omega
    simp only [afterDrain, Function.update_of_ne hne]
    exact h.last

/-- The drain consumes `m` published positions and leaves. -/
theorem Tail.run (m : Nat) : ∀ (s : Channel τ α) (R : Nat), m ≤ 1023 → Tail s (R + m) R →
    ∃ s', exec Channel.step s (drainRun (5 * m + 2)) = some s' ∧ s'.loop = .outside ∧
      s'.sys.consumed.length = R + m ∧ s'.sys.ring.mask = 1023 ∧
      s'.sys.ring.dequeue_pos = UInt64.ofNat (R + m) ∧
      s'.sys.ring.seq ((R + m) % 1024) = UInt64.ofNat (R + m) ∧
      s'.post = s.post ∧ s'.evfd = s.evfd ∧ s'.sys.claimed = s.sys.claimed ∧
      s'.sys.enq = s.sys.enq := by
  induction m with
  | zero =>
      intro s R _ h
      exact ⟨_, exec_stopped h.mask h.loop h.deq h.pos h.last, rfl, h.consumed, h.mask, h.pos,
        h.last, rfl, rfl, rfl, rfl⟩
  | succ m ih =>
      intro s R hm h
      have hstep := exec_drained h.mask h.loop h.deq h.pos (h.published R (Nat.le_refl _) (by omega))
      have hnext := h.drained (by omega) (by omega)
      have hR : R + (m + 1) = R + 1 + m := by omega
      rw [hR] at hnext ⊢
      obtain ⟨s', hrun, hrest⟩ := ih (afterDrain s R) (R + 1) (by omega) hnext
      refine ⟨s', ?_, hrest⟩
      have hsplit : (drainRun (5 * (m + 1) + 2) : List (ChanAct τ α))
          = drainRun 5 ++ drainRun (5 * m + 2) := by
        unfold drainRun
        rw [List.replicate_append_replicate]
        congr 1
        omega
      rw [hsplit]
      exact exec_append.mpr ⟨_, hstep, hrun⟩

/-- One producer is held up before its compare-exchange at position `0`; the other one and the loop
are at rest, with `E` positions claimed and published and `R` consumed. -/
structure Calm (s : Channel Bool α) (cmd : α) (E R : Nat) : Prop where
  mask : s.sys.ring.mask = 1023
  enq_pos : s.sys.ring.enqueue_pos = UInt64.ofNat E
  deq_pos : s.sys.ring.dequeue_pos = UInt64.ofNat R
  seq : ∀ q, R ≤ q → q < R + 1024 →
    s.sys.ring.seq (q % 1024) = UInt64.ofNat (if q < E then q + 1 else q)
  claimed : s.sys.claimed.length = E
  consumed : s.sys.consumed.length = R
  delayed : s.sys.enq true = .cas cmd 0
  trying : s.post true = .trying cmd 0
  free : (s.post false).outside = true
  loop : s.loop = .outside

theorem Calm.posted {s : Channel Bool α} {cmd : α} {E R : Nat} (h : Calm s cmd E R) (hle : R ≤ E)
    (hlt : E < R + 1024) : exec Channel.step s (postRun false cmd) = some (afterPost s false cmd E) ∧
      Calm (afterPost s false cmd E) cmd (E + 1) R := by
  have hseq := h.seq E hle hlt
  rw [if_neg (Nat.lt_irrefl E)] at hseq
  refine ⟨exec_postRun cmd h.mask h.free h.enq_pos hseq, h.mask, rfl, h.deq_pos, ?_, ?_, h.consumed,
    ?_, ?_, rfl, h.loop⟩
  · intro q hlo hhi
    by_cases hq : q = E
    · subst hq
      simp [afterPost]
    · have hne : q % 1024 ≠ E % 1024 := by omega
      have hiff : q < E ↔ q < E + 1 := by omega
      simp only [afterPost, Function.update_of_ne hne, ← hiff]
      exact h.seq q hlo hhi
  · simp [afterPost, h.claimed]
  · simpa [afterPost] using h.delayed
  · simpa [afterPost] using h.trying

/-- Filling the ring without a drain. -/
theorem Calm.fill {s : Channel Bool α} {cmd : α} {R : Nat} (h : Calm s cmd R R) (m : Nat)
    (hm : m + 1 ≤ 1024) :
    ∃ as s', exec Channel.step s as = some s' ∧ Calm s' cmd (R + (m + 1)) R ∧ 0 < s'.evfd := by
  induction m with
  | zero =>
      obtain ⟨hpost, h₁⟩ := h.posted (Nat.le_refl R) (by omega)
      exact ⟨_, _, hpost, h₁, Nat.succ_pos _⟩
  | succ m ih =>
      obtain ⟨as, s₁, hrun, h₁, -⟩ := ih (by omega)
      obtain ⟨hpost, h₂⟩ := h₁.posted (by omega) (by omega)
      exact ⟨as ++ postRun false cmd, _, exec_append.mpr ⟨s₁, hrun, hpost⟩, h₂, Nat.succ_pos _⟩

/-- The first producer has found position `0` free and is about to claim it. -/
def stalled (ring : CmdRing α) (cmd : α) : Channel Bool α where
  sys :=
    { RingSys.start ring with
      enq := Function.update (fun _ => .idle) true (.cas cmd 0)
      position := Function.update (fun _ => 0) true 0 }
  post := Function.update (fun _ => .idle) true (.trying cmd 0)
  evfd := 0
  loop := .outside

theorem Calm.start (cmd : α) [Inhabited α] {ring : CmdRing α}
    (hinit : ring_init CMD_RING_CAP = some ring) : ∃ as s,
      exec Channel.step (Channel.start ring) as = some s ∧ Calm s cmd 0 0 := by
  have h : RingInv 10 (RingSys.start ring : RingSys Bool α) := RingInv.start hinit
  have hmask : ring.mask = 1023 := h.mask
  have hpos : ring.enqueue_pos = 0 := h.enq_pos
  have hdeq : ring.dequeue_pos = 0 := h.deq_pos
  have hcell : ring.cell 0 = 0 := cell_1024 hmask 0
  have hseq0 : ring.seq 0 = 0 := h.seq 0 (Nat.le_refl _) (Nat.lt_add_of_pos_right (Nat.two_pow_pos 10))
  refine ⟨[.post true cmd, .run true false, .run true false], stalled ring cmd, ?_,
    ⟨hmask, hpos, hdeq, ?_, rfl, rfl, rfl, rfl, rfl, rfl⟩⟩
  · simp [exec, Channel.step, Channel.start, Post.outside, RingSys.callEnq, RingSys.start,
      Channel.afterEnq, RingSys.enqStep, ring_enqueue_step, RingSys.noteEnq, hpos, hcell, hseq0,
      difference_self, stalled]
  · intro q hlo hhi
    rw [if_neg (Nat.not_lt_zero q)]
    exact h.seq q hlo hhi

end CFiber.Commands
