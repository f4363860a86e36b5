/-
  CFiber.Ev.Rounds — the loop's rounds.

  `cfiber_reactor_run` remembers the tail of the ready queue when a round starts and ends the round
  when it has dispatched that fiber.  In the middle of a round the queue is `rest ++ new`: `rest` was
  there at the start, `new` came since (`RoundAt`).  The remembered fiber is the last of `rest`
  until `rest` is used up, however the tail moves and whichever blocks are recycled meanwhile.

    • `InRound.step`       — a step takes the head of `rest` off, or leaves `rest` alone;
    • `round_fairness`     — a round dispatches the queue it started with; between two dispatches
                             of one fiber the loop polls, without waiting if there is work.

  A call of `cfiber_reactor_run` returns between rounds when `active` reads zero.  Within one call
  nothing is assumed of the counter; across calls it must not have wrapped (`Counts`).
-/
import CFiber.Ev.Census

namespace CFiber.Ev

open CFiber.Base CFiber.Memory

variable {T : Target} {γ σ κ δ : Type}
variable {L : Libc γ} {P : StackPool σ} {K : Kernel κ δ}
variable {out : γ → List Region} {good : γ → Prop}

/-! ## §1. Dispatches and rounds. -/

/-- The fiber a step dispatches. -/
def dispatched (S : Sys T γ σ κ) : Action δ → Option Nat
  | .turn =>
    match S.pc with
    | .round _ => S.r.ready_head
    | _ => none
  | _ => none

section
variable (L : Libc γ) (P : StackPool σ) (K : Kernel κ δ)

/-- The fibers a run dispatches, in order. -/
def dispatches : Sys T γ σ κ → List (Action δ) → List Nat
  | _, [] => []
  | S, a :: as =>
    (dispatched S a).toList ++
      match step L P K S a with
      | some S' => dispatches S' as
      | none => []

end

theorem dispatches_cons {S S' : Sys T γ σ κ} {a : Action δ} (h : step L P K S a = some S')
    (as : List (Action δ)) :
    dispatches L P K S (a :: as) = (dispatched S a).toList ++ dispatches L P K S' as := by
  simp only [dispatches, h]

/-- The loop, or one of its fibers, is in the middle of a round or at its end. -/
def inRound : Pc → Bool
  | .round _ | .fiber _ _ | .back _ _ | .check => true
  | _ => false

/-- Where the round is, when `rest` of its fibers are still to come and `new` have been enqueued
since it started. -/
def RoundAt : Pc → (rest new : List Nat) → Prop
  | .round round_end, rest, new => rest.getLast? = round_end ∧ (rest = [] → new = [])
  | .fiber f round_end, rest, _ | .back f round_end, rest, _ =>
    (f :: rest).getLast? = round_end ∧ f ∉ rest
  | .check, rest, _ => rest = []
  | _, _, _ => False

/-- The queue in a round.  `enqueued` is the count of each fiber's enqueues when it started: the
fibers still to come have not been enqueued since. -/
structure InRound (enqueued : Nat → Nat) (S : Sys T γ σ κ) (q rest new : List Nat) : Prop where
  split : q = rest ++ new
  place : RoundAt S.pc rest new
  old : ∀ f ∈ rest, S.r.enqueued f = enqueued f

section
variable {S S' : Sys T γ σ κ} {q q' : List Nat} {a : Action δ} {m : Move} {f : Nat}

theorem turn_round {round_end : Option Nat} (hpc : S.pc = .round round_end)
    (h : turn L P K S = some S') :
    (S.r.ready_head = none ∧ S'.pc = .check) ∨
      ∃ f, S.r.ready_head = some f ∧ S'.pc = .fiber f round_end := by
  unfold turn at h
  rw [hpc] at h
  dsimp only at h
  cases hhead : S.r.ready_head with
  | none =>
      left
      rw [show dispatch S.r = none by simp [dispatch, dequeue, hhead]] at h
      obtain rfl := Option.some.inj h
      exact ⟨rfl, rfl⟩
  | some f =>
      right
      unfold dispatch at h
      rw [dequeue_eq hhead] at h
      obtain rfl := Option.some.inj h
      exact ⟨f, rfl, rfl⟩

/-- What a round's end leads to. -/
theorem turn_check (hpc : S.pc = .check) (h : turn L P K S = some S') :
    S'.r = S.r ∧ ((S.r.active = 0 ∧ S'.pc = .host) ∨
      S'.pc = .poll (if S.r.ready_head.isSome then 0 else (next_timeout_ms S.r).toInt)) := by
  simp only [turn, hpc] at h
  by_cases hact : S.r.active = 0
  · rw [if_pos hact] at h
    obtain rfl := Option.some.inj h
    exact ⟨rfl, Or.inl ⟨hact, rfl⟩⟩
  · rw [if_neg hact] at h
    obtain rfl := Option.some.inj h
    exact ⟨rfl, Or.inr rfl⟩

/-- A round is only entered from the head of the loop, the poll only from a round's end. -/
theorem Flow.into_round {p p' : Pc} (h : Flow p p') (hout : inRound p = false)
    (hin : inRound p' = true) : p = .head := by
  cases p with
  | head => rfl
  | host => rcases h with rfl | rfl <;> simp [inRound] at hin
  | poll t => rcases h with rfl | rfl | ⟨evs, rfl⟩ <;> simp [inRound] at hin
  | events evs => rcases h with ⟨-, now, rfl⟩ | ⟨e, evs', -, rfl | rfl⟩ <;> simp [inRound] at hin
  | drain evs => rcases h with rfl | rfl <;> simp [inRound] at hin
  | timers now => rcases h with rfl | rfl <;> simp [inRound] at hin
  | _ => simp [inRound] at hout

theorem Flow.into_poll {p : Pc} {t : Int} (h : Flow p (.poll t)) : p = .check := by
  cases p with
  | check => rfl
  | back f e => simp only [Flow] at h; split_ifs at h
  | _ => simp [Flow] at h

theorem enter_round (hout : inRound S.pc = false) (hin : inRound S'.pc = true)
    (h : step L P K S a = some S') : S.pc = .head ∧ turn L P K S = some S' := by
  by_cases ha : a.foreign = true
  · rw [(foreign_pc ha h).1, hout] at hin
    exact absurd hin (by simp)
  have ha : a.foreign = false := by simpa using ha
  have hpc := (step_flow ha h).into_round hout hin
  exact ⟨hpc, (turn_of_step (by rw [hpc]; rfl) ha h).2⟩

/-! ## §2. The queue in a round. -/

/-- A move other than a dispatch appends to the queue at most, and the fibers on it stay as often
enqueued as they were. -/
theorem Moved.queue_grows (hok : Ok out good S q) (h : Moved out P S S' m q q')
    (hd : ∀ f, m ≠ .dispatch f) :
    (∃ x, q' = q ++ x) ∧ ∀ f ∈ q, S'.r.enqueued f = S.r.enqueued f := by
  constructor
  · have hq := h.queue
    cases m with
    | spawn f gen stack => exact ⟨[f], hq⟩
    | yield f => exact ⟨[f], hq⟩
    | wake f status => exact ⟨[f], hq⟩
    | dispatch f => exact absurd rfl (hd f)
    | _ => exact ⟨[], hq.trans (List.append_nil q).symm⟩
  · intro f hf
    have hst : (view S.r f).state = .FB_READY := (hok.core.roster.ready f).mp hf
    have hlive := hok.core.mem_live (f := f) (by rw [show S.r.mem.state f = _ from hst]; simp)
    by_cases hm : m.fiber = some f
    · -- a queued fiber can only be dispatched or given a permit
      have hpre := h.pre f hm
      have hself := congrArg FiberView.enqueued (h.self f hm)
      cases m with
      | permit g => exact hself
      | dispatch g => exact absurd rfl (hd g)
      | quiet => exact absurd hm (by simp [Move.fiber])
      | consume g => exact absurd (hpre.1.symm.trans hst) (by simp)
      | _ => exact absurd (Eq.trans (Eq.symm hpre) hst) (by simp)
    · exact congrArg FiberView.enqueued (h.others f hlive hm)

/-- A dispatched fiber has control. -/
theorem Does.dispatch_pc (hok : Ok out good S q) (h : Does P K out good S a S' m q q')
    (hm : m = .dispatch f) : (∃ e, S'.pc = .fiber f e) ∧ ∀ g e, S.pc ≠ .fiber g e := by
  subst hm
  have hrun : S'.r.mem.state f = .FB_RUNNING := congrArg FiberView.state (h.moved.self f rfl)
  refine ⟨h.ok.pc_of_running hrun, ?_⟩
  intro g e hpc
  obtain ⟨hg, -⟩ := hok.current hpc
  obtain ⟨hst, hlive, -⟩ := hok.core.running hg
  have hready : S.r.mem.state f = .FB_READY := h.moved.pre f rfl
  have hgf : g ≠ f := by
    rintro rfl
    rw [hst] at hready
    exact absurd hready (by simp)
  -- the running fiber would still be running
  have hsame := h.moved.others g hlive (by simpa [Move.fiber] using Ne.symm hgf)
  have hst' : S'.r.mem.state g = .FB_RUNNING :=
    (congrArg FiberView.state hsame).trans hst
  have hcur := (h.ok.core.roster.running f).mp hrun
  exact hgf (Option.some.inj (((h.ok.core.roster.running g).mp hst').symm.trans hcur))

/-- The round goes on: what was still to come is what `a` dispatches, if anything, and then `rest'`. -/
def GoesOn (enqueued : Nat → Nat) (S S' : Sys T γ σ κ) (a : Action δ) (q' rest : List Nat) : Prop :=
  ∃ rest' new', InRound enqueued S' q' rest' new' ∧ rest = (dispatched S a).toList ++ rest'

variable {enqueued : Nat → Nat} {rest new : List Nat}

theorem InRound.queued (hr : InRound enqueued S q rest new) {f : Nat} (hf : f ∈ rest) : f ∈ q := by
  rw [hr.split]
  exact List.mem_append_left _ hf

/-- **What is not a dispatch** leaves `rest` alone, and what it enqueues comes behind. -/
theorem InRound.keep (hok : Ok out good S q) (hr : InRound enqueued S q rest new)
    (hd : Does P K out good S a S' m q q') (hm : ∀ f, m ≠ .dispatch f)
    (hnone : dispatched S a = none)
    (hplace : ∀ x, q' = q ++ x → RoundAt S'.pc rest (new ++ x)) :
    GoesOn enqueued S S' a q' rest := by
  obtain ⟨⟨x, hx⟩, henq⟩ := hd.moved.queue_grows hok hm
  refine ⟨rest, new ++ x, ⟨?_, hplace x hx, ?_⟩, by rw [hnone]; rfl⟩
  · rw [hx, hr.split, List.append_assoc]
  · intro f hf
    exact (henq f (hr.queued hf)).trans (hr.old f hf)

/-- Where no fiber has control there was no dispatch. -/
theorem Does.not_dispatch (hok : Ok out good S q) (hd : Does P K out good S a S' m q q')
    (hpc : ∀ f e, S'.pc ≠ .fiber f e) (f : Nat) : m ≠ .dispatch f := by
  intro hm
  obtain ⟨e, he⟩ := (hd.dispatch_pc hok hm).1
  exact hpc f e he

theorem Ok.empty_queue (hok : Ok out good S q) (h : S.r.ready_head = none) : q = [] := by
  have hhead := hok.core.roster.queue.head
  rw [h] at hhead
  cases q with
  | nil => rfl
  | cons g q => exact absurd hhead (by simp)

/-- **While the loop thread stands still** another thread may only enqueue. -/
theorem InRound.foreign (hok : Ok out good S q) (hr : InRound enqueued S q rest new)
    (hd : Does P K out good S a S' m q q') (h : step L P K S a = some S') (ha : a.foreign = true) :
    GoesOn enqueued S S' a q' rest := by
  have hplace := hr.place
  obtain ⟨hpc, hhead⟩ := foreign_pc ha h
  have hnone : dispatched S a = none := by cases a <;> simp_all [Action.foreign, dispatched]
  have hm : ∀ f, m ≠ .dispatch f := by
    intro f hm
    obtain ⟨⟨e, he⟩, hno⟩ := hd.dispatch_pc hok hm
    exact hno f e (hpc ▸ he)
  apply hr.keep hok hd hm hnone
  intro x hx
  rw [hpc]
  cases hp : S.pc with
  | round e =>
      rw [hp] at hplace
      refine ⟨hplace.1, ?_⟩
      intro hrest
      -- an empty queue stays empty: its head is untouched
      have hq : q = [] := by rw [hr.split, hplace.2 hrest, hrest]; rfl
      have hnohead : S'.r.ready_head = none := by
        rw [hhead, hok.core.roster.queue.head, hq]
        rfl
      have hq' := hd.ok.empty_queue hnohead
      rw [hx, hq, List.nil_append] at hq'
      rw [hplace.2 hrest, hq']
      rfl
  | _ => rw [hp] at hplace; exact hplace

/-- **While a fiber runs** it keeps control, or gives it back. -/
theorem InRound.fiber (hok : Ok out good S q) (hr : InRound enqueued S q rest new)
    (hd : Does P K out good S a S' m q q') (h : step L P K S a = some S') (ha : a.foreign = false)
    {e : Option Nat} (hp : S.pc = .fiber f e) : GoesOn enqueued S S' a q' rest := by
  have hplace := hr.place
  have hpc : Flow S.pc S'.pc := step_flow ha h
  rw [hp] at hplace hpc
  have hnone : dispatched S a = none := by cases a <;> simp [dispatched, hp]
  have hm : ∀ g, m ≠ .dispatch g := fun g hm => (hd.dispatch_pc hok hm).2 f e hp
  apply hr.keep hok hd hm hnone
  intro x _
  rcases hpc with hpc | hpc <;> rw [hpc] <;> exact hplace

/-- **When a fiber has given control back** the round ends if it was the remembered one. -/
theorem InRound.back (hok : Ok out good S q) (hr : InRound enqueued S q rest new)
    (hd : Does P K out good S a S' m q q') (h : step L P K S a = some S') (ha : a.foreign = false)
    {e : Option Nat} (hp : S.pc = .back f e) : GoesOn enqueued S S' a q' rest := by
  have hplace := hr.place
  have hflow : Flow S.pc S'.pc := step_flow ha h
  rw [hp] at hplace hflow
  have hpc : S'.pc = if some f = e then Pc.check else .round e := hflow
  obtain ⟨rfl, -⟩ := turn_of_step (by rw [hp]; rfl) ha h
  have hm : ∀ g, m ≠ .dispatch g := by
    apply hd.not_dispatch hok
    intro g e'
    rw [hpc]
    split_ifs <;> simp
  apply hr.keep hok hd hm (by simp [dispatched, hp])
  intro x _
  rw [hpc]
  split_ifs with he
  · -- the remembered fiber was dispatched last, so none is left
    show rest = []
    by_contra hne
    have hlast := hplace.1
    rw [List.getLast?_cons_of_ne_nil hne, ← he] at hlast
    exact hplace.2 (List.mem_of_getLast? hlast)
  · have hne : rest ≠ [] := by
      rintro rfl
      exact he hplace.1
    refine ⟨?_, fun hnil => absurd hnil hne⟩
    rw [← hplace.1, List.getLast?_cons_of_ne_nil hne]

/-- A turn that hands control to the head of the queue is a dispatch: anything else would have left
it READY. -/
theorem Does.is_dispatch (hok : Ok out good S q) (hd : Does P K out good S a S' m q q')
    (hhead : S.r.ready_head = some f) {e : Option Nat} (hpc : S'.pc = .fiber f e) :
    m = .dispatch f := by
  have hqhead : q.head? = some f := hok.core.roster.queue.head.symm.trans hhead
  by_contra hno
  have hm : ∀ g, m ≠ .dispatch g := by
    rintro g rfl
    obtain ⟨e', he'⟩ := (hd.dispatch_pc hok rfl).1
    rw [hpc] at he'
    exact hno (by rw [(Pc.fiber.inj he').1])
  obtain ⟨⟨x, hx⟩, -⟩ := hd.moved.queue_grows hok hm
  have hmem : f ∈ q' := by
    rw [hx]
    exact List.mem_append_left _ (List.mem_of_mem_head? hqhead)
  have hready := (hd.ok.core.roster.ready f).mp hmem
  have hrun := (hd.ok.core.running (hd.ok.current hpc).1).1
  rw [hready] at hrun
  exact absurd hrun (by simp)

/-- **The head of `rest` is dispatched**: the others keep their place and their count. -/
theorem InRound.takes (hok : Ok out good S q) (hr : InRound enqueued S q rest new)
    (hd : Does P K out good S a S' (.dispatch f) q q') {e : Option Nat} (hp : S.pc = .round e)
    (hpc : S'.pc = .fiber f e) : ∃ rest', rest = f :: rest' ∧ InRound enqueued S' q' rest' new := by
  have hplace := hr.place
  rw [hp] at hplace
  have hq : q = f :: q' := hd.moved.queue
  cases rest with
  | nil =>
      -- an empty `rest` is the end of the round
      rw [hr.split, hplace.2 rfl] at hq
      exact absurd hq (by simp)
  | cons g rest =>
      have hsplit := hr.split
      rw [hq, List.cons_append] at hsplit
      obtain ⟨rfl, hq'⟩ := List.cons.inj hsplit
      have hnd := hok.core.roster.queue.nodup
      rw [hq, hq', List.nodup_cons] at hnd
      refine ⟨rest, rfl, hq', ?_, ?_⟩
      · rw [hpc]
        exact ⟨hplace.1, fun hmem => hnd.1 (List.mem_append_left _ hmem)⟩
      · intro g hg
        have hgf : g ≠ f := by
          rintro rfl
          exact hnd.1 (List.mem_append_left _ hg)
        have hold := hr.queued (List.mem_cons_of_mem _ hg)
        have hready := (hok.core.roster.ready g).mp hold
        have hlive := hok.core.mem_live (f := g) (by rw [hready]; simp)
        have hsame := hd.moved.others g hlive (by simpa [Move.fiber] using Ne.symm hgf)
        exact (congrArg FiberView.enqueued hsame).trans (hr.old g (List.mem_cons_of_mem _ hg))

/-- **A turn of the round** dispatches the head of the queue, or finds it empty. -/
theorem InRound.round (hok : Ok out good S q) (hr : InRound enqueued S q rest new)
    (hd : Does P K out good S a S' m q q') (h : step L P K S a = some S') (ha : a.foreign = false)
    {e : Option Nat} (hp : S.pc = .round e) : GoesOn enqueued S S' a q' rest := by
  obtain ⟨rfl, ht⟩ := turn_of_step (by rw [hp]; rfl) ha h
  have hdisp : dispatched S (.turn : Action δ) = S.r.ready_head := by simp [dispatched, hp]
  rcases turn_round hp ht with ⟨hnone, hpc⟩ | ⟨f, hhead, hpc⟩
  · have hnil := hr.split.symm.trans (hok.empty_queue hnone)
    have hrest : rest = [] := (List.append_eq_nil_iff.mp hnil).1
    apply hr.keep hok hd (hd.not_dispatch hok (by rw [hpc]; simp)) (by rw [hdisp, hnone])
    intro x _
    rw [hpc]
    exact hrest
  · obtain rfl := hd.is_dispatch hok hhead hpc
    obtain ⟨rest', hrest, hin⟩ := hr.takes hok hd hp hpc
    refine ⟨rest', new, hin, ?_⟩
    rw [hdisp, hhead, hrest]
    rfl

/-- **A step in a round**, by where the loop thread is: the head of `rest` is dispatched, or nothing
is. -/
theorem InRound.step (hok : Ok out good S q) (hr : InRound enqueued S q rest new)
    (hd : Does P K out good S a S' m q q') (h : step L P K S a = some S')
    (hin : inRound S'.pc = true) : GoesOn enqueued S S' a q' rest := by
  by_cases ha : a.foreign = true
  · exact hr.foreign hok hd h ha
  have ha : a.foreign = false := by simpa using ha
  cases hp : S.pc with
  | fiber f e => exact hr.fiber hok hd h ha hp
  | back f e => exact hr.back hok hd h ha hp
  | round e => exact hr.round hok hd h ha hp
  | check =>
      -- the poll and the host are outside the round
      obtain ⟨rfl, ht⟩ := turn_of_step (by rw [hp]; rfl) ha h
      obtain ⟨-, ⟨-, hpc⟩ | hpc⟩ := turn_check hp ht
      · rw [hpc] at hin
        exact absurd hin (by simp [inRound])
      · rw [hpc] at hin
        exact absurd hin (by simp [inRound])
  | _ =>
      have hplace := hr.place
      rw [hp] at hplace
      exact hplace.elim

/-- A round starts with the whole queue to come. -/
theorem InRound.start (hok : Ok out good S q) (hpc : S.pc = .head) (h : turn L P K S = some S')
    (hin : inRound S'.pc = true) : InRound S.r.enqueued S' q q [] ∧ Ok out good S' q := by
  simp only [turn, hpc] at h
  split_ifs at h <;> obtain rfl := Option.some.inj h
  · refine ⟨⟨(List.append_nil q).symm, ⟨hok.core.roster.queue.tail.symm, fun _ => rfl⟩,
      fun _ _ => rfl⟩, hok.core, hok.pool, ?_⟩
    have hctl := hok.control
    rw [hpc] at hctl
    exact hctl
  · exact absurd hin (by simp [inRound])

/-- **A run inside a round** dispatches a prefix of what was still to come. -/
theorem InRound.run (H : LibcOk T L out good) {enqueued : Nat → Nat} {as : List (Action δ)} :
    ∀ {S : Sys T γ σ κ} {q rest new : List Nat}, Ok out good S q → InRound enqueued S q rest new →
      exec (CFiber.Ev.step L P K) S as = some S' →
      Along (CFiber.Ev.step L P K) (fun S => inRound S.pc = true) S as →
      ∃ q' rest' new', Ok out good S' q' ∧ InRound enqueued S' q' rest' new' ∧
        rest = dispatches L P K S as ++ rest' := by
  induction as with
  | nil =>
      intro S q rest new hok hr hrun _
      obtain rfl : S = S' := by simpa using hrun
      exact ⟨q, rest, new, hok, hr, rfl⟩
  | cons a as ih =>
      intro S q rest new hok hr hrun halong
      obtain ⟨t, ht, hrest⟩ := exec_cons.mp hrun
      obtain ⟨m, q₁, hd⟩ := step_does H hok ht
      obtain ⟨rest₁, new₁, hr₁, he⟩ := hr.step hok hd ht (halong.tail ht).head
      obtain ⟨q', rest', new', hok', hr', he'⟩ := ih hd.ok hr₁ hrest (halong.tail ht)
      refine ⟨q', rest', new', hok', hr', ?_⟩
      rw [dispatches_cons ht, he, he', List.append_assoc]

/-! ## §3. Between two dispatches. -/

/-- What holds in every reachable state: a round is somewhere in its queue, and the poll does not
wait when there is work. -/
structure Paced (S : Sys T γ σ κ) (q : List Nat) : Prop where
  round : inRound S.pc = true → ∃ rest new, InRound S.r.enqueued S q rest new
  poll : ∀ t, S.pc = .poll t → S.r.ready_head.isSome = true → t = 0

theorem Paced.step (H : LibcOk T L out good) (hok : Ok out good S q) (hp : Paced S q)
    (h : CFiber.Ev.step L P K S a = some S') : ∃ q', Ok out good S' q' ∧ Paced S' q' := by
  obtain ⟨m, q', hd⟩ := step_does H hok h
  have hpoll : ∀ t, S'.pc = .poll t → S'.r.ready_head.isSome = true → t = 0 := by
    intro t hpc' hhead
    by_cases ha : a.foreign = true
    · obtain ⟨hpc, hsame⟩ := foreign_pc ha h
      rw [hsame] at hhead
      exact hp.poll t (hpc.symm.trans hpc') hhead
    · have ha : a.foreign = false := by simpa using ha
      have hflow := step_flow ha h
      rw [hpc'] at hflow
      have hpc := hflow.into_poll
      obtain ⟨hr, ⟨-, hhost⟩ | hgo⟩ := turn_check hpc (turn_of_step (by rw [hpc]; rfl) ha h).2
      · rw [hhost] at hpc'
        exact absurd hpc' (by simp)
      · rw [hpc'] at hgo
        rw [hr] at hhead
        rw [if_pos hhead] at hgo
        exact Pc.poll.inj hgo
  by_cases hin' : inRound S'.pc = true
  · by_cases hin : inRound S.pc = true
    · obtain ⟨rest, new, hr⟩ := hp.round hin
      obtain ⟨rest', new', hr', -⟩ := hr.step hok hd h hin'
      exact ⟨q', hd.ok, fun _ => ⟨rest', new', hr'.split, hr'.place, fun _ _ => rfl⟩, hpoll⟩
    · obtain ⟨hpc, ht⟩ := enter_round (by simpa using hin) hin' h
      obtain ⟨hr, hok'⟩ := InRound.start hok hpc ht hin'
      exact ⟨q, hok', fun _ => ⟨q, [], hr.split, hr.place, fun _ _ => rfl⟩, hpoll⟩
  · exact ⟨q', hd.ok, fun h' => absurd h' hin', hpoll⟩

/-- Every reachable state is paced. -/
theorem exec_paced (H : LibcOk T L out good) {r : Reactor T γ σ κ} (hr : Fresh T out good r)
    {as : List (Action δ)} (h : exec (CFiber.Ev.step L P K) (boot r) as = some S) :
    ∃ q, Ok out good S q ∧ Paced S q := by
  apply exec_inv (fun S => ∃ q, Ok out good S q ∧ Paced S q) _ ⟨[], boot_ok hr, nofun, nofun⟩ h
  rintro s a s' ⟨q, hok, hp⟩ hs
  exact hp.step H hok hs

/-- Fiber `f`, dispatched `n` recyclings into the life of its block and not polled since: it is gone,
or the round has passed it and the poll is still to come. -/
def Passed (f n : Nat) (S : Sys T γ σ κ) (q : List Nat) : Prop :=
  n < S.r.repooled f ∨ (S.r.repooled f = n ∧ f ∈ S.alive ∧
    ((∃ rest new, InRound S.r.enqueued S q rest new ∧ f ∉ rest) ∨ ∃ t, S.pc = .poll t))

/-- **A round is left** at its end only. -/
theorem InRound.at_end {enqueued : Nat → Nat} {rest new : List Nat}
    (hr : InRound enqueued S q rest new) (h : CFiber.Ev.step L P K S a = some S')
    (hout : inRound S'.pc = false) : a.foreign = false ∧ S.pc = .check := by
  have hplace := hr.place
  have hfor : a.foreign = false := by
    by_contra hno
    rw [(foreign_pc (by simpa using hno) h).1] at hout
    cases hpc : S.pc <;> rw [hpc] at hplace hout <;> simp_all [inRound, RoundAt]
  refine ⟨hfor, ?_⟩
  have hflow := step_flow hfor h
  cases hpc : S.pc with
  | check => rfl
  | round e => rw [hpc] at hflow; rcases hflow with e | ⟨g, e⟩ <;> simp [e, inRound] at hout
  | fiber g e => rw [hpc] at hflow; rcases hflow with e | e <;> simp [e, inRound] at hout
  | back g e =>
      rw [hpc] at hflow
      simp only [Flow] at hflow
      rw [hflow] at hout
      split_ifs at hout <;> simp [inRound] at hout
  | _ => rw [hpc] at hplace; exact hplace.elim

/-- A call of `cfiber_reactor_run` that returns here leaves fewer than `2 ^ 32` fibers that have not
returned.  Where it leaves that many, `active` has wrapped and does not tell them from none. -/
def Counts (S : Sys T γ σ κ) : Prop := S.pc = .host → busy S < 2 ^ 32

/-- **A step other than a poll**: the round stays past the fiber, and ends at the poll. -/
theorem Passed.step (H : LibcOk T L out good) {f n : Nat} (hok : Ok out good S q)
    (hp : Passed f n S q) (ha : ∀ d, a ≠ .poll d) (hfew : Counts S')
    (h : CFiber.Ev.step L P K S a = some S') :
    ∃ q', Ok out good S' q' ∧ Passed f n S' q' := by
  obtain ⟨m, q', hd⟩ := step_does H hok h
  refine ⟨q', hd.ok, ?_⟩
  have hmono := hd.moved.lasting.repooled f
  rcases hp with hlt | ⟨hn, hlive, hwhere⟩
  · exact Or.inl (by omega)
  by_cases hreap : m = .reap f
  · -- the fiber is recycled
    left
    have := (hd.moved.reaped f hreap).1
    omega
  have hlive' : f ∈ S'.alive := by
    rw [hd.moved.alive]
    cases m with
    | spawn g gen stack => exact List.mem_cons_of_mem _ hlive
    | reap g =>
        have hgf : f ≠ g := fun e => hreap (by rw [e])
        exact (List.mem_erase_of_ne hgf).mpr hlive
    | _ => exact hlive
  right
  refine ⟨?_, hlive', ?_⟩
  · rw [← hn]
    exact hd.moved.lasting.same f (hd.moved.alive ▸ hlive')
  rcases hwhere with ⟨rest, new, hr, hf⟩ | ⟨t, hpc⟩
  · by_cases hin : inRound S'.pc = true
    · obtain ⟨rest', new', hr', he⟩ := hr.step hok hd h hin
      left
      refine ⟨rest', new', ⟨hr'.split, hr'.place, fun _ _ => rfl⟩, ?_⟩
      exact fun hm => hf (by rw [he]; exact List.mem_append_right _ hm)
    · -- the round is over; the run is not, while the fiber is there
      right
      obtain ⟨hfor, hpc⟩ := hr.at_end h (by simpa using hin)
      obtain ⟨hsame, ⟨hact, hhost⟩ | hgo⟩ :=
        turn_check hpc (turn_of_step (by rw [hpc]; rfl) hfor h).2
      · exfalso
        have hctl := hd.ok.control
        rw [hhost] at hctl
        have hlen := hd.ok.busy_alive hctl.2
        have hpos := List.length_pos_of_mem hlive'
        have hle := Nat.le_of_dvd (by omega) (hd.ok.dvd_busy (by rw [hsame]; exact hact))
        have := hfew hhost
        omega
      · exact ⟨_, hgo⟩
  · -- the thread is at the poll
    right
    refine ⟨t, ?_⟩
    have hfor : a.foreign = true := by
      cases a with
      | post c => rfl
      | other d => rfl
      | tick dt => rfl
      | poll d => exact absurd rfl (ha d)
      | turn => simp [CFiber.Ev.step, turn, hpc] at h
      | _ => simp [CFiber.Ev.step, hpc] at h
    rw [(foreign_pc hfor h).1]
    exact hpc

theorem Passed.run (H : LibcOk T L out good) {f n : Nat} {as : List (Action δ)} :
    ∀ {S : Sys T γ σ κ} {q : List Nat}, Ok out good S q → Passed f n S q →
      (∀ d, .poll d ∉ as) → Along (CFiber.Ev.step L P K) Counts S as →
      exec (CFiber.Ev.step L P K) S as = some S' →
      ∃ q', Ok out good S' q' ∧ Passed f n S' q' := by
  induction as with
  | nil =>
      intro S q hok hp _ _ hrun
      obtain rfl : S = S' := by simpa using hrun
      exact ⟨q, hok, hp⟩
  | cons a as ih =>
      intro S q hok hp hno hfew hrun
      obtain ⟨t, ht, hrest⟩ := exec_cons.mp hrun
      have hfew' := hfew.tail ht
      obtain ⟨q₁, hok₁, hp₁⟩ := hp.step H hok (fun d e => hno d (by simp [e])) hfew'.head ht
      exact ih hok₁ hp₁ (fun d hm => hno d (List.mem_cons_of_mem _ hm)) hfew' hrest

/-- A dispatch in a round takes the head of what is to come. -/
theorem InRound.dispatch {enqueued : Nat → Nat} {rest new : List Nat} (hok : Ok out good S q)
    (hr : InRound enqueued S q rest new) (hf : dispatched S a = some f) :
    ∃ rest', rest = f :: rest' := by
  cases a with
  | turn =>
      cases hpc : S.pc with
      | round e =>
          have hhead : S.r.ready_head = some f := by simpa [dispatched, hpc] using hf
          have hplace := hr.place
          rw [hpc] at hplace
          have hq := hok.core.roster.queue.head.symm.trans hhead
          rw [hr.split] at hq
          cases rest with
          | nil => rw [hplace.2 rfl] at hq; exact absurd hq (by simp)
          | cons g rest => exact ⟨rest, by rw [Option.some.inj hq]⟩
      | _ => simp [dispatched, hpc] at hf
  | _ => simp [dispatched] at hf

end

/-! ## §4. Round fairness. -/

/-- **Round fairness.** -/
structure Fair (L : Libc γ) (P : StackPool σ) (K : Kernel κ δ) (S : Sys T γ σ κ) : Prop where
  /-- A round that starts here dispatches the fibers that are on the queue now, each once and in
  order. -/
  round : ∀ S₁, S.pc = .head → turn L P K S = some S₁ → inRound S₁.pc = true →
    ∃ q, Fifo S.r.mem.next S.r.ready_head S.r.ready_tail q ∧ q.Nodup ∧
      ∀ as S₂, exec (step L P K) S₁ as = some S₂ →
        Along (step L P K) (fun S => inRound S.pc = true) S₁ as →
          dispatches L P K S₁ as <+: q ∧ (S₂.pc = .check → dispatches L P K S₁ as = q) ∧
          -- and none that was enqueued since
          ∀ (a : Action δ) f, dispatched S₂ a = some f → S₂.r.enqueued f = S.r.enqueued f
  /-- In a round with a fiber on the queue the loop goes on, to the head of the queue. -/
  progress : ∀ round_end f, S.pc = .round round_end → S.r.ready_head = some f →
    dispatched S (.turn : Action δ) = some f ∧
      ∃ S', step L P K S .turn = some S' ∧ S'.pc = .fiber f round_end ∧ S'.r.current = some f
  /-- A fiber dispatched here is not dispatched again before a poll: not in this call of
  `cfiber_reactor_run`, of whose states `Counts` says nothing, nor in a later one. -/
  polls : ∀ (a b : Action δ) f S₁ as S₂, dispatched S a = some f → step L P K S a = some S₁ →
    exec (step L P K) S₁ as = some S₂ → Along (step L P K) Counts S₁ as →
    dispatched S₂ b = some f → S₂.r.repooled f = S.r.repooled f → ∃ d, .poll d ∈ as
  /-- The poll does not wait when there is work. -/
  no_wait : ∀ t, S.pc = .poll t → S.r.ready_head.isSome = true → t = 0

/-- **Every reachable state is fair.** -/
theorem round_fairness (H : LibcOk T L out good) {r : Reactor T γ σ κ} (hr : Fresh T out good r)
    {as : List (Action δ)} {S : Sys T γ σ κ} (h : exec (step L P K) (boot r) as = some S) :
    Fair L P K S := by
  obtain ⟨q, hok, hpaced⟩ := exec_paced H hr h
  refine ⟨?_, ?_, ?_, hpaced.poll⟩
  · intro S₁ hpc ht hin
    obtain ⟨hround, hok₁⟩ := InRound.start hok hpc ht hin
    refine ⟨q, hok.core.roster.queue, hok.core.roster.queue.nodup, ?_⟩
    intro as S₂ hrun halong
    obtain ⟨q₂, rest, new, hok₂, hr₂, he⟩ := hround.run H hok₁ hrun halong
    refine ⟨⟨rest, he.symm⟩, ?_, ?_⟩
    · intro hcheck
      have hplace := hr₂.place
      rw [hcheck] at hplace
      rw [he, show rest = [] from hplace, List.append_nil]
    · intro a f hf
      obtain ⟨rest', rfl⟩ := hr₂.dispatch hok₂ hf
      exact hr₂.old f List.mem_cons_self
  · intro round_end f hpc hhead
    refine ⟨by simp [dispatched, hpc, hhead], ?_⟩
    have hctl := hok.control
    rw [hpc] at hctl
    have hq := hok.core.roster.queue.head.symm.trans hhead
    cases q with
    | nil => exact absurd hq (by simp)
    | cons g q =>
        obtain rfl : g = f := Option.some.inj hq
        obtain ⟨s', heq, -, -, -, -, hcur, -⟩ := dispatch_spec (L := L) hok.core hctl.1
        refine ⟨{ S with
          r := s', pc := .fiber g round_end, ret := (view S.r g).returned.map .status }, ?_, rfl, hcur⟩
        show turn L P K S = _
        unfold turn
        rw [hpc]
        simp only [heq]
  · intro a b f S₁ as S₂ hf hs hrun hfew hf₂ hsame
    by_contra hno
    -- the round is past `f` after the first dispatch
    have hturn : a = .turn := by cases a <;> simp_all [dispatched]
    subst hturn
    obtain ⟨e, hpc⟩ : ∃ e, S.pc = .round e := by
      cases hpc : S.pc <;> simp_all [dispatched]
    have hin : inRound S.pc = true := by rw [hpc]; rfl
    obtain ⟨rest, new, hround⟩ := hpaced.round hin
    obtain ⟨m, q₁, hd⟩ := step_does H hok hs
    have hin₁ : inRound S₁.pc = true := by
      rcases turn_round hpc hs with ⟨-, hp⟩ | ⟨g, -, hp⟩ <;> rw [hp] <;> rfl
    obtain ⟨rest₁, new₁, hr₁, he⟩ := hround.step hok hd hs hin₁
    have hnd := hok.core.roster.queue.nodup
    rw [hround.split, he, hf, Option.toList_some, List.append_assoc, List.singleton_append] at hnd
    have hout : f ∉ rest₁ := fun hm =>
      (List.nodup_cons.mp hnd).1 (List.mem_append_left _ hm)
    have hlive : f ∈ S.alive := by
      apply hok.core.mem_live
      have hm : f ∈ q := by
        rw [hround.split, he, hf]
        simp
      rw [(hok.core.roster.ready f).mp hm]
      simp
    have hpass : Passed f (S.r.repooled f) S₁ q₁ := by
      by_cases hreap : m = .reap f
      · left
        have := (hd.moved.reaped f hreap).1
        omega
      · have hlive₁ : f ∈ m.alive S.alive := by
          cases m with
          | spawn g gen stack => exact List.mem_cons_of_mem _ hlive
          | reap g => exact (List.mem_erase_of_ne fun e => hreap (by rw [e])).mpr hlive
          | _ => exact hlive
        right
        exact ⟨hd.moved.lasting.same f hlive₁, hd.moved.alive ▸ hlive₁,
          Or.inl ⟨rest₁, new₁, ⟨hr₁.split, hr₁.place, fun _ _ => rfl⟩, hout⟩⟩
    obtain ⟨q₂, hok₂, hpass₂⟩ := hpass.run H hd.ok (fun d hm => hno ⟨d, hm⟩) hfew hrun
    rcases hpass₂ with hlt | ⟨-, -, ⟨rest₂, new₂, hr₂, hout₂⟩ | ⟨t, hp⟩⟩
    · omega
    · obtain ⟨rest', rfl⟩ := hr₂.dispatch hok₂ hf₂
      exact hout₂ List.mem_cons_self
    · cases b <;> simp [dispatched, hp] at hf₂

/-- Two fibers: one yields, the other parks, the loop polls without waiting and is about to dispatch
the first again. -/
theorem round_fairness_epoll : ∃ r S, start = some r ∧
    exec (step bumpLibc roomyStacks epoll) (boot r)
      [.spawn, .spawn, .run, .turn, .turn, .yield, .turn, .turn, .wait 3 1 (-1), .turn, .turn,
        .poll (.report [] false), .turn, .turn, .turn] = some S ∧
    dispatched S (.turn : Action Choice) = S.r.ready_head ∧ S.r.ready_head.isSome = true ∧
    Fair bumpLibc roomyStacks epoll S := by
  have hsome : (runs [.spawn, .spawn, .run, .turn, .turn, .yield, .turn, .turn, .wait 3 1 (-1), .turn,
      .turn, .poll (.report [] false), .turn, .turn, .turn]).map (fun S =>
        (dispatched S (.turn : Action Choice) = S.r.ready_head ∧ S.r.ready_head.isSome = true : Bool)) =
        some true := by decide +kernel
  obtain ⟨S, hS, hfacts⟩ := Option.map_eq_some_iff.mp hsome
  obtain ⟨hd, hhead⟩ := of_decide_eq_true hfacts
  obtain ⟨r, hr, hrun⟩ := runs_some hS
  exact ⟨r, S, hr, hrun, hd, hhead, round_fairness bumpLibc_ok (start_fresh hr) hrun⟩

end CFiber.Ev
