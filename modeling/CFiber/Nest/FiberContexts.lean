/-
  CFiber.Nest.FiberContexts — ThreadSanitizer knows which fiber executes.

  Every fiber of a reactor has a context from its creation until it is reaped.  A reactor names the
  fiber's when it enters it, and its own when a fiber leaves, which is whatever was current as the
  run began: in a nested run that of the fiber outside.  A scheduler names none, so that its fibers
  run in the context that its host runs in.

    • `tsan_follows` — after every step the current context is that of the innermost reactor's
      fiber on the stack, or the thread's; the contexts there are belong to the fibers that the
      reactors hold, and none was destroyed while in use.
-/
import CFiber.Nest.Announced

namespace CFiber.Nest

open CFiber.Base Relation

/-! ## §1. The context that should be current. -/

/-- The innermost fiber of a reactor, control of the calls `ks` being at `w`. -/
def context (S : Thread) : List Nat → Where → Owner
  | [], _ => .thread
  | k :: ks, w =>
    match (S.frames k).loop, w with
    | .reactor _, .fiber f => .fiber f
    | _, _ => context S ks (S.frames k).caller

theorem context_congr {S T : Thread} : ∀ {ks : List Nat} {w : Where},
    (∀ k ∈ ks, (T.frames k).loop = (S.frames k).loop ∧
      (T.frames k).caller = (S.frames k).caller) → context T ks w = context S ks w
  | [], _, _ => rfl
  | k :: ks, w, h => by
      obtain ⟨hloop, hcaller⟩ := h k List.mem_cons_self
      have ih := context_congr (w := (S.frames k).caller) fun j hj => h j (List.mem_cons_of_mem _ hj)
      unfold context
      rw [hloop, hcaller, ih]

theorem context_loop (S : Thread) (k : Nat) (ks : List Nat) :
    context S (k :: ks) (.loop k) = context S ks (S.frames k).caller := by
  cases hl : (S.frames k).loop with
  | sched s => simp [context, hl]
  | reactor r => simp [context, hl]

/-- It is the thread's, or that of a fiber some reactor on the stack is in the middle of. -/
theorem Spine.context {S : Thread} {h₀ : Option Hook} : ∀ {ks : List Nat} {w : Where},
    Spine S h₀ ks w → context S ks w = .thread ∨
      ∃ k ∈ ks, ∃ r f, (S.frames k).loop = .reactor r ∧ Runs S k f ∧ context S ks w = .fiber f
  | [], _, _ => .inl rfl
  | k :: ks, w, hs => by
      obtain ⟨-, -, hseat, -, -, -, hrest⟩ := hs
      have hbelow : Nest.context S (k :: ks) w = Nest.context S ks (S.frames k).caller →
          Nest.context S (k :: ks) w = .thread ∨ ∃ j ∈ k :: ks, ∃ r f,
            (S.frames j).loop = .reactor r ∧ Runs S j f ∧
              Nest.context S (k :: ks) w = .fiber f := by
        intro heq
        rw [heq]
        rcases hrest.context with h | ⟨j, hj, r, f, hl, hr, h⟩
        · exact .inl h
        · exact .inr ⟨j, List.mem_cons_of_mem _ hj, r, f, hl, hr, h⟩
      rcases hseat with rfl | ⟨f, rfl, hr⟩
      · exact hbelow (context_loop S k ks)
      · cases hl : (S.frames k).loop with
        | sched s => exact hbelow (by simp [Nest.context, hl])
        | reactor r =>
            exact .inr ⟨k, List.mem_cons_self, r, f, hl, hr, by simp [Nest.context, hl]⟩

/-! ## §2. The invariant. -/

/-- Each reactor that the calls `ks` run leaves to the context its run began in. -/
def LoopContexts (X : Traced) : List Nat → Prop
  | [] => True
  | k :: ks => (∀ r, (X.thread.frames k).loop = .reactor r →
      X.loop_tsan r = context X.thread ks (X.thread.frames k).caller) ∧ LoopContexts X ks

theorem LoopContexts.congr {X Y : Traced} : ∀ {ks : List Nat}, LoopContexts X ks →
    (∀ k ∈ ks, (Y.thread.frames k).loop = (X.thread.frames k).loop ∧
      (Y.thread.frames k).caller = (X.thread.frames k).caller) →
    (∀ k ∈ ks, ∀ r, (X.thread.frames k).loop = .reactor r → Y.loop_tsan r = X.loop_tsan r) →
    LoopContexts Y ks
  | [], _, _, _ => trivial
  | k :: ks, h, hframes, htsan => by
      obtain ⟨hloop, hcaller⟩ := hframes k List.mem_cons_self
      refine ⟨?_, h.2.congr (fun j hj => hframes j (List.mem_cons_of_mem _ hj))
        fun j hj => htsan j (List.mem_cons_of_mem _ hj)⟩
      intro r hr
      rw [hloop] at hr
      rw [htsan k List.mem_cons_self r hr, hcaller, h.1 r hr]
      exact (context_congr fun j hj => hframes j (List.mem_cons_of_mem _ hj)).symm

/-- Fiber `f` is one that a reactor holds. -/
def Held (S : Thread) (f : Nat) : Prop := ∃ r, f ∈ (S.records (.reactor r)).fibers

/-- **ThreadSanitizer follows the thread.** -/
structure Contexts (X : Traced) : Prop where
  died : X.tsan.died = false
  current : X.tsan.current = context X.thread X.thread.chain X.thread.pc
  hosts : LoopContexts X X.thread.chain
  thread : X.tsan.made .thread = true
  made : ∀ f, X.tsan.made (.fiber f) = true ↔ Held X.thread f

/-- The context to switch to exists. -/
theorem Contexts.made_context {X : Traced} {h₀ : Option Hook} (h : Contexts X) {ks : List Nat}
    {w : Where} (hs : Spine X.thread h₀ ks w) : X.tsan.made (context X.thread ks w) = true := by
  rcases hs.context with hthread | ⟨k, _, r, f, hl, hr, hfiber⟩
  · rw [hthread]
    exact h.thread
  · rw [hfiber, h.made]
    have hcur := hr.current
    rw [hl] at hcur
    exact ⟨r, by simp [hcur]⟩

/-! ## §3. One lemma a move. -/

section
variable {B : Owner → Bounds} {X : Traced} {h₀ : Option Hook}

/-- A move that names no context. -/
theorem Contexts.frame {Y : Traced} (h : Contexts X) (htsan : Y.tsan = X.tsan)
    (hloop_tsan : Y.loop_tsan = X.loop_tsan) (hpc : Y.thread.pc = X.thread.pc)
    (hchain : Y.thread.chain = X.thread.chain)
    (hframes : ∀ k, (Y.thread.frames k).loop = (X.thread.frames k).loop ∧
      (Y.thread.frames k).caller = (X.thread.frames k).caller)
    (hheld : ∀ f, Held Y.thread f ↔ Held X.thread f) : Contexts Y where
  died := by rw [htsan]; exact h.died
  current := by
    rw [htsan, hpc, hchain, context_congr fun k _ => hframes k]
    exact h.current
  hosts := by
    rw [hchain]
    exact h.hosts.congr (fun k _ => hframes k) fun _ _ _ _ => by rw [hloop_tsan]
  thread := by rw [htsan]; exact h.thread
  made := by
    intro f
    rw [htsan, hheld]
    exact h.made f

/-- A record's change changes what is held by as much. -/
theorem held_update_iff {S T : Thread} {l : Loop} {r' : Record}
    (hrecords : T.records = Function.update S.records l r') (f : Nat)
    (hfib : f ∈ r'.fibers ↔ f ∈ (S.records l).fibers) : Held T f ↔ Held S f := by
  unfold Held
  rw [hrecords]
  refine exists_congr fun r => ?_
  by_cases hr : Loop.reactor r = l
  · subst hr
    rw [Function.update_self]
    exact hfib
  · rw [Function.update_of_ne hr]

/-- Of a scheduler's fibers no reactor holds any. -/
theorem held_sched_update {S T : Thread} {s : Nat} {r' : Record}
    (hrecords : T.records = Function.update S.records (.sched s) r') (f : Nat) :
    Held T f ↔ Held S f := by
  unfold Held
  rw [hrecords]
  exact exists_congr fun r => by rw [Function.update_of_ne (by simp)]

theorem resume_mem (r : Record) (w f : Nat) : f ∈ (Nest.resume r w).fibers ↔ f ∈ r.fibers := by
  unfold Nest.resume
  split
  case isFalse => exact Iff.rfl
  case isTrue hw =>
    have herase := List.perm_cons_erase hw
    have hmem : f ∈ r.parked ↔ f = w ∨ f ∈ r.parked.erase w := by
      rw [herase.mem_iff, List.mem_cons]
    simp only [Record.mem_fibers, List.mem_append, List.mem_singleton]
    grind

theorem resume_all_mem (ws : List Nat) (f : Nat) : ∀ r : Record,
    f ∈ (ws.foldl Nest.resume r).fibers ↔ f ∈ r.fibers := by
  induction ws with
  | nil => exact fun _ => Iff.rfl
  | cons w ws ih => exact fun r => (ih _).trans (resume_mem r w f)

theorem Contexts.spawn (h : Contexts X) (l : Loop) (ok : Bool) :
    Contexts (X.spawn l ok) := by
  cases ok with
  | false =>
      have hsame : X.spawn l false = X := by cases l <;> rfl
      rw [hsame]
      exact h
  | true =>
      cases l with
      | sched s =>
          exact h.frame rfl rfl rfl rfl (fun _ => ⟨rfl, rfl⟩) (held_sched_update rfl)
      | reactor r =>
          refine ⟨h.died, ?_, ?_, ?_, ?_⟩
          · refine h.current.trans (Eq.symm ?_)
            exact context_congr (S := X.thread) (T := (X.spawn (.reactor r) true).thread)
              fun _ _ => ⟨rfl, rfl⟩
          · exact h.hosts.congr (fun _ _ => ⟨rfl, rfl⟩) fun _ _ _ _ => rfl
          · simpa [Traced.spawn, create_fiber] using h.thread
          · intro f
            show Function.update X.tsan.made (.fiber X.thread.spawned) true (.fiber f) = true ↔ _
            by_cases hf : f = X.thread.spawned
            · rw [hf, Function.update_self]
              simp only [true_iff]
              exact ⟨r, by simp [Traced.spawn, Nest.spawn]⟩
            · rw [Function.update_of_ne (by simpa using hf), h.made]
              unfold Held
              refine exists_congr fun i => ?_
              by_cases hi : i = r
              · simp [Traced.spawn, Nest.spawn, hi, hf]
              · simp [Traced.spawn, Nest.spawn, hi]

/-- The zombie's context is destroyed from the loop, in the context of a fiber further out. -/
theorem Contexts.reap (h : Contexts X) (hs : Sound X.thread h₀) {k : Nat} {l : Loop}
    (hl : (X.thread.frames k).loop = l) (hpc : X.thread.pc = .loop k) :
    Contexts (X.reap l) := by
  cases l with
  | sched s =>
      exact h.frame rfl rfl rfl rfl (fun _ => ⟨rfl, rfl⟩) (held_sched_update rfl)
  | reactor r =>
      cases hz : (X.thread.records (.reactor r)).zombie with
      | none =>
          refine h.frame ?_ rfl rfl rfl (fun _ => ⟨rfl, rfl⟩) fun f => held_update_iff rfl f ?_
          · simp [Traced.reap, hz]
          · simp [Record.mem_fibers, hz]
      | some z =>
          have hmem : z ∈ (X.thread.records (.reactor r)).fibers := by simp [hz]
          have hmade : X.tsan.made (.fiber z) = true := (h.made z).mpr ⟨r, hmem⟩
          obtain ⟨ks, hchain⟩ := hs.nested.at_loop hpc
          have hspine := hs.nested.spine hs.alive
          rw [hchain] at hspine
          obtain ⟨-, -, -, hnew, -, -, hrest⟩ := hspine
          -- the current context is that of a fiber of another reactor, or the thread's
          have hne : X.tsan.current ≠ .fiber z := by
            rw [h.current, hchain, hpc, context_loop]
            rcases hrest.context with hthread | ⟨j, hj, i, f, hlj, hr, hfiber⟩
            · simp [hthread]
            · rw [hfiber]
              intro heq
              obtain rfl : f = z := by simpa using heq
              have howner := hs.nested.held _ f hmem
              apply hnew
              rw [hl, ← Option.some.inj (hr.owner.symm.trans howner)]
              exact List.mem_map_of_mem hj
          have htsan : (X.reap (.reactor r)).tsan =
              { X.tsan with made := Function.update X.tsan.made (.fiber z) false } := by
            simp [Traced.reap, hz, destroy_fiber, hmade, hne]
          refine ⟨?_, ?_, ?_, ?_, ?_⟩
          · rw [htsan]
            exact h.died
          · rw [htsan]
            refine h.current.trans (Eq.symm ?_)
            exact context_congr (S := X.thread) (T := (X.reap (.reactor r)).thread)
              fun _ _ => ⟨rfl, rfl⟩
          · exact h.hosts.congr (fun _ _ => ⟨rfl, rfl⟩) fun _ _ _ _ => rfl
          · simpa [htsan] using h.thread
          · intro f
            have hrecords : (X.reap (.reactor r)).thread.records =
                Function.update X.thread.records (.reactor r)
                  { X.thread.records (.reactor r) with zombie := none } := rfl
            rw [htsan]
            by_cases hf : f = z
            · subst hf
              simp only [Function.update_self, Bool.false_eq_true, false_iff]
              -- it was in no other place of the record, nor in another record
              rintro ⟨i, hi⟩
              rw [hrecords] at hi
              by_cases hir : i = r
              · subst hir
                rw [Function.update_self] at hi
                have hnodup := (hs.counted.tidy (.reactor i)).nodup
                simp only [Record.fibers, hz, Option.toList] at hnodup
                have hdisj := (List.nodup_append.mp hnodup).2.2 f
                simp only [Record.fibers, Option.toList, List.append_nil] at hi
                exact hdisj hi f (by simp) rfl
              · rw [Function.update_of_ne (by simpa using hir)] at hi
                have := (hs.nested.held _ f hi).symm.trans (hs.nested.held _ f hmem)
                simp at this
                exact hir this
            · show Function.update X.tsan.made (.fiber z) false (.fiber f) = true ↔ _
              rw [Function.update_of_ne (by simpa using hf), h.made]
              refine (held_update_iff hrecords f ?_).symm
              simp [Record.mem_fibers, hz, Ne.symm hf]

/-- A fiber leaves to the context that its reactor's run began in. -/
theorem Contexts.out (h : Contexts X) (hs : Sound X.thread h₀) {k f : Nat} {ks : List Nat}
    {l : Loop} {finishing : Bool} {change : Record → Record}
    (hl : (X.thread.frames k).loop = l) (hpc : X.thread.pc = .fiber f)
    (hchain : X.thread.chain = k :: ks) (hr : Runs X.thread k f)
    (hput : Put l f (X.thread.records l) (change (X.thread.records l))) :
    Contexts (X.switch_out l f finishing change) := by
  subst hl
  have hspine := hs.nested.spine hs.alive
  rw [hchain] at hspine
  obtain ⟨-, -, -, -, -, -, hrest⟩ := hspine
  have hpc' : (X.switch_out (X.thread.frames k).loop f finishing change).thread.pc = .loop k :=
    hr.ctx
  have hframes : ∀ j ∈ ks, ((X.switch_out (X.thread.frames k).loop f finishing
      change).thread.frames j).loop = (X.thread.frames j).loop ∧
      ((X.switch_out (X.thread.frames k).loop f finishing change).thread.frames j).caller =
        (X.thread.frames j).caller := fun _ _ => ⟨rfl, rfl⟩
  have hcontext : context (X.switch_out (X.thread.frames k).loop f finishing change).thread
      (k :: ks) (.loop k) = context X.thread ks (X.thread.frames k).caller := by
    rw [context_loop]
    exact context_congr hframes
  have hz := (hs.counted.tidy (X.thread.frames k).loop).reaped (by simp [hr.current])
  have hheld : ∀ g, Held (X.switch_out (X.thread.frames k).loop f finishing change).thread g ↔
      Held X.thread g :=
    fun g => held_update_iff rfl g (hput.perm hr.current hz).mem_iff
  have hhosts : LoopContexts (X.switch_out (X.thread.frames k).loop f finishing change)
      X.thread.chain := h.hosts.congr (fun _ _ => ⟨rfl, rfl⟩) fun _ _ _ _ => rfl
  cases hloop : (X.thread.frames k).loop with
  | sched s =>
      have htsan : (X.switch_out (.sched s) f finishing change).tsan = X.tsan := rfl
      rw [hloop] at hpc' hcontext hheld hhosts
      refine ⟨h.died, ?_, hhosts, h.thread, fun g => (h.made g).trans (hheld g).symm⟩
      show X.tsan.current = context _ X.thread.chain _
      rw [hpc', hchain, hcontext, h.current, hchain, hpc]
      simp [context, hloop]
  | reactor r =>
      have hloops := h.hosts
      rw [hchain] at hloops
      have hdest := hloops.1 r hloop
      have hmade := h.made_context hrest
      have htsan : (X.switch_out (.reactor r) f finishing change).tsan =
          { X.tsan with current := context X.thread ks (X.thread.frames k).caller } := by
        simp [Traced.switch_out, switch_to_fiber, hdest, hmade]
      rw [hloop] at hpc' hcontext hheld hhosts
      refine ⟨?_, ?_, hhosts, ?_, ?_⟩
      · rw [htsan]
        exact h.died
      · rw [htsan, hpc']
        show _ = context _ X.thread.chain _
        rw [hchain, hcontext]
      · rw [htsan]
        exact h.thread
      · intro g
        rw [htsan]
        exact (h.made g).trans (hheld g).symm

/-- A dispatched fiber of a reactor runs in its own context. -/
theorem Contexts.dispatch (h : Contexts X) (hs : Sound X.thread h₀) {k f : Nat} {l : Loop}
    {rest : List Nat} (hl : (X.thread.frames k).loop = l) (hpc : X.thread.pc = .loop k)
    (hready : (X.thread.records l).ready = f :: rest) : Contexts (X.dispatch B l f rest) := by
  obtain ⟨ks, hchain⟩ := hs.nested.at_loop hpc
  have hf : X.thread.owner f = some l := hs.nested.held l f (by simp [hready])
  have hpc' : (X.dispatch B l f rest).thread.pc = .fiber f :=
    hs.nested.saved f (hs.nested.born f l hf)
  have hcurrent : (X.thread.records l).current = none := hl ▸ hs.counted.between k hpc
  have hheld : ∀ g, Held (X.dispatch B l f rest).thread g ↔ Held X.thread g := by
    intro g
    refine held_update_iff rfl g ?_
    simp only [Record.mem_fibers, hready, hcurrent, List.mem_cons, Option.some.injEq]
    grind
  have hhosts : LoopContexts (X.dispatch B l f rest) X.thread.chain :=
    h.hosts.congr (fun _ _ => ⟨rfl, rfl⟩) fun _ _ _ _ => rfl
  have hframes : ∀ w, context (X.dispatch B l f rest).thread X.thread.chain w =
      context X.thread X.thread.chain w :=
    fun w => context_congr fun _ _ => ⟨rfl, rfl⟩
  cases l with
  | sched s =>
      refine ⟨h.died, ?_, hhosts, h.thread, fun g => (h.made g).trans (hheld g).symm⟩
      show X.tsan.current = context _ X.thread.chain _
      rw [hpc', hframes, h.current, hchain, hpc, context_loop]
      simp [context, hl]
  | reactor r =>
      have hmade : X.tsan.made (.fiber f) = true := (h.made f).mpr ⟨r, by simp [hready]⟩
      have htsan : (X.dispatch B (.reactor r) f rest).tsan =
          { X.tsan with current := .fiber f } := by
        simp [Traced.dispatch, switch_to_fiber, hmade]
      refine ⟨?_, ?_, hhosts, ?_, ?_⟩
      · rw [htsan]
        exact h.died
      · rw [htsan, hpc']
        show Owner.fiber f = context _ X.thread.chain _
        rw [hframes, hchain]
        simp [context, hl]
      · rw [htsan]
        exact h.thread
      · intro g
        rw [htsan]
        exact (h.made g).trans (hheld g).symm

theorem Contexts.enter (h : Contexts X) (hs : Sound X.thread h₀) {l : Loop}
    (hl : l ∉ X.thread.loops) : Contexts (X.enter l) := by
  have hlt := (hs.nested.spine hs.alive).lt
  have hpc' : (X.enter l).thread.pc = .loop X.thread.calls := by cases l <;> rfl
  have hchain' : (X.enter l).thread.chain = X.thread.calls :: X.thread.chain := by
    rw [Traced.enter_thread, enter_chain]
  have hcaller : ((X.enter l).thread.frames X.thread.calls).caller = X.thread.pc := by
    cases l <;> simp [Traced.enter, Nest.enter, cfiber_set_return_hook]
  have hloop : ((X.enter l).thread.frames X.thread.calls).loop = l := by
    rw [Traced.enter_thread, enter_loop]
  have hframes : ∀ k ∈ X.thread.chain,
      ((X.enter l).thread.frames k).loop = (X.thread.frames k).loop ∧
        ((X.enter l).thread.frames k).caller = (X.thread.frames k).caller := by
    intro k hk
    have := hlt k hk
    rw [Traced.enter_thread, enter_frames_of_ne (by omega)]
    exact ⟨rfl, rfl⟩
  have hcontext : context (X.enter l).thread X.thread.chain X.thread.pc = X.tsan.current := by
    rw [context_congr hframes, h.current]
  have htsan : (X.enter l).tsan = X.tsan := by cases l <;> rfl
  refine ⟨?_, ?_, ?_, ?_, ?_⟩
  · rw [htsan]
    exact h.died
  · rw [htsan, hpc', hchain', context_loop, hcaller, hcontext]
  · rw [hchain']
    refine ⟨?_, h.hosts.congr hframes ?_⟩
    · intro r hr
      rw [hloop] at hr
      rw [hcaller, hcontext]
      subst hr
      simp [Traced.enter]
    · -- the reactor entered is none of those that run
      intro k hk r hr
      have hmem : Loop.reactor r ∈ X.thread.loops := hr ▸ List.mem_map_of_mem hk
      cases l with
      | sched s => rfl
      | reactor i =>
          have hir : r ≠ i := by
            rintro rfl
            exact hl hmem
          simp [Traced.enter, hir]
  · rw [htsan]
    exact h.thread
  · intro f
    have hrecords : (X.enter l).thread.records = X.thread.records := by cases l <;> rfl
    rw [htsan, h.made]
    unfold Held
    rw [hrecords]

theorem Contexts.leave (h : Contexts X) (hs : Sound X.thread h₀) {k : Nat}
    (hpc : X.thread.pc = .loop k) (rc : Int) : Contexts (X.leave k rc) := by
  obtain ⟨ks, hchain⟩ := hs.nested.at_loop hpc
  obtain ⟨hrecords, hframes, hpc', hchain'⟩ := leave_same X.thread k rc
  rw [hchain, List.erase_cons_head] at hchain'
  rw [← Traced.leave_thread] at hrecords hframes hpc' hchain'
  have hspine := hs.nested.spine hs.alive
  rw [hchain] at hspine
  obtain ⟨-, -, -, hnew, -, -, -⟩ := hspine
  have hsame : ∀ j ∈ ks, ((X.leave k rc).thread.frames j).loop = (X.thread.frames j).loop ∧
      ((X.leave k rc).thread.frames j).caller = (X.thread.frames j).caller := by
    intro j _
    rw [hframes]
    exact ⟨rfl, rfl⟩
  have htsan : (X.leave k rc).tsan = X.tsan := by
    unfold Traced.leave
    dsimp only
    split <;> rfl
  have hhosts := h.hosts
  rw [hchain] at hhosts
  refine ⟨?_, ?_, ?_, ?_, ?_⟩
  · rw [htsan]
    exact h.died
  · rw [htsan, hpc', hchain', context_congr hsame, h.current, hchain, hpc, context_loop]
  · rw [hchain']
    refine hhosts.2.congr hsame ?_
    -- the reactor left is none of those below
    intro j hj r hr
    unfold Traced.leave
    dsimp only
    split
    case h_1 => rfl
    case h_2 i hi =>
      have hri : r ≠ i := by
        rintro rfl
        rw [hi, ← hr] at hnew
        exact hnew (List.mem_map_of_mem hj)
      exact Function.update_of_ne hri _ _
  · rw [htsan]
    exact h.thread
  · intro f
    rw [htsan, h.made]
    unfold Held
    rw [hrecords]

theorem Contexts.move {failed : Prop} {Y : Traced} (h : Contexts X) (hs : Sound X.thread h₀)
    (hm : Traced.Move B failed X Y) : Contexts Y := by
  cases hm with
  | fake_stack => exact h.frame rfl rfl rfl rfl (fun _ => ⟨rfl, rfl⟩) fun _ => Iff.rfl
  | spawn l ok => exact h.spawn l ok
  | refuse => exact h.frame rfl rfl rfl rfl (fun _ => ⟨rfl, rfl⟩) fun _ => Iff.rfl
  | enter _ hl => exact h.enter hs hl
  | out hl hpc hchain hr hput => exact h.out hs hl hpc hchain hr hput
  | reap hl hpc => exact h.reap hs hl hpc
  | @phase k _ phase =>
      exact h.frame rfl rfl rfl rfl (set_phase_frame X.thread k phase) fun _ => Iff.rfl
  | resume _ _ ws =>
      exact h.frame rfl rfl rfl rfl (fun _ => ⟨rfl, rfl⟩) fun f =>
        held_update_iff rfl f (resume_all_mem ws f _)
  | dispatch hl hpc hready _ => exact h.dispatch hs hl hpc hready
  | leave _ hpc _ => exact h.leave hs hpc _

/-! ## §4. Runs. -/

theorem Contexts.start (B : Owner → Bounds) (h₀ : Option Hook) :
    Contexts (Traced.start B h₀) where
  died := rfl
  current := rfl
  hosts := trivial
  thread := rfl
  made := by
    intro f
    simp [Traced.start, Nest.start, Held, Record.fibers]

/-- **ThreadSanitizer follows every run** of properly nested loops: no switch is to a context that
is gone, none is destroyed in use or twice, the current one is that of the innermost reactor's fiber
on the stack or the thread's, and those there are belong to the fibers that reactors hold. -/
theorem tsan_follows {es : List Event}
    (hrun : exec (under Traced.Proper (Traced.step B)) (Traced.start B h₀) es = some X) :
    X.tsan.died = false ∧ X.tsan.current = context X.thread X.thread.chain X.thread.pc ∧
      ∀ f, X.tsan.made (.fiber f) = true ↔ Held X.thread f := by
  have hinv : Sound X.thread h₀ ∧ Contexts X := by
    refine exec_inv (fun X => Sound X.thread h₀ ∧ Contexts X) ?_
      ⟨Sound.start h₀, Contexts.start B h₀⟩ hrun
    rintro X e Y ⟨hs, h⟩ hstep
    obtain ⟨hproper, hstep⟩ := under_eq_some.mp hstep
    exact hs.steps h (fun _ _ hs h hm => h.move hs hm) (Traced.step_moves hs hproper hstep)
  exact ⟨hinv.2.died, hinv.2.current, hinv.2.made⟩

end

theorem tsan_follows_nested :
    ∃ X, exec (under Traced.Proper (Traced.step apart)) (Traced.start apart none)
        (nested_run.map .act) = some X ∧ X.tsan.died = false ∧
      X.tsan.current = context X.thread X.thread.chain X.thread.pc ∧
        ∀ f, X.tsan.made (.fiber f) = true ↔ Held X.thread f := by
  have h : (exec (under Traced.Proper (Traced.step apart)) (Traced.start apart none)
      (nested_run.map .act)).isSome := by
    decide
  obtain ⟨X, hX⟩ := Option.isSome_iff_exists.mp h
  exact ⟨X, hX, tsan_follows hX⟩

end CFiber.Nest
