/-
  CFiber.Ev.Permits — wakes and `cfiber_ev_wait_async`.

  A wake for a fiber in `cfiber_ev_wait_async` ends that wait.  Any other wake leaves a permit, one
  at most, for the fiber's next `cfiber_ev_wait_async`.  `FiberView.credit` counts what a fiber has
  to come: its permit, and the wake that ended its wait but was not returned yet.

  Main results:

    • `wait_async_step`   — a call takes the permit, or parks without one, or fails;
    • `PermitFree.step`   — no permit is pending while a fiber is parked in `cfiber_ev_wait_async`;
    • `Does.credit`       — a step takes a credit where `READY` is returned, and adds one where a
                            wake finds no permit;
    • `wake_permit_law`   — what becomes of every wake, over all runs.
-/
import CFiber.Ev.Handles
import CFiber.Ev.Registrations
import CFiber.Ev.Resumptions

namespace CFiber.Ev

open CFiber.Base CFiber.Memory

variable {T : Target} {γ σ κ δ φ : Type}
variable {L : Libc γ} {P : StackPool σ} {K : Kernel κ δ}
variable {out : γ → List Region} {good : γ → Prop}

/-! ## §1. Wakes, calls and permits. -/

/-- The fiber is parked in `cfiber_ev_wait_async`. -/
def FiberView.in_async (v : FiberView) : Prop := v.state = .FB_PARKED ∧ v.park = .PARK_ASYNC

/-- A wake ended its `cfiber_ev_wait_async`, which has not returned. -/
def FiberView.woke (v : FiberView) : Bool :=
  v.state == .FB_READY && v.ctx == .async && v.wait_status == .READY

/-- What the fiber has to come. -/
def FiberView.credit (v : FiberView) : Nat := v.wake_pending.toNat + v.woke.toNat

/-- Fiber `f` calls `cfiber_ev_wait_async`. -/
def asks (f : Nat) (S : Sys T γ σ κ) : Action δ → Bool
  | .wait_async _ =>
    match S.pc with
    | .fiber g _ => g == f
    | _ => false
  | _ => false

/-- A `cfiber_ev_wait_async` of `f` goes on when `f` is dispatched. -/
def goes_on (f : Nat) (S : Sys T γ σ κ) (a : Action δ) : Bool :=
  dispatched S a == some f && S.r.mem.ctx f == .async

/-- A `cfiber_ev_wait_async` of `f` returns `READY`. -/
def async_ready (f : Nat) (S : Sys T γ σ κ) (a : Action δ) (S' : Sys T γ σ κ) : Nat :=
  ((asks f S a || goes_on f S a) && S'.ret == some (.status .READY)).toNat

/-- A wake is applied to `f`. -/
def woken_by (f : Nat) (S : Sys T γ σ κ) (a : Action δ) : Bool := waked S a == some f

/-- A wake is applied to `f` that finds no permit pending. -/
def counted_wake (f : Nat) (S : Sys T γ σ κ) (a : Action δ) (_ : Sys T γ σ κ) : Nat :=
  (woken_by f S a && !S.r.mem.wake_pending f).toNat

section
variable {S S' : Sys T γ σ κ} {q q' : List Nat} {a : Action δ} {m : Move} {f : Nat}

theorem woken_by_iff : woken_by f S a = true ↔ waked S a = some f := by
  simp [woken_by]

theorem asks_iff : asks f S a = true ↔ (∃ t, a = .wait_async t) ∧ ∃ e, S.pc = .fiber f e := by
  cases a with
  | wait_async t =>
      cases hpc : S.pc with
      | fiber g e => simp [asks, hpc]
      | _ => simp [asks, hpc]
  | _ => simp [asks]

/-- **A call of `cfiber_ev_wait_async`** takes the permit and returns, or finds none and parks, or
fails. -/
theorem wait_async_step (hok : Ok out good S q) {e : Option Nat} (hpc : S.pc = .fiber f e)
    {t : Int64} (hs : step L P K S (.wait_async t) = some S') :
    (S.r.mem.wake_pending f = true ∧ S'.ret = some (.status .READY) ∧ S'.pc = S.pc ∧
      view S'.r f = { view S.r f with wake_pending := false }) ∨
    (S.r.mem.wake_pending f = false ∧ S'.ret = some (.status .ERROR) ∧ S'.pc = S.pc ∧
      view S'.r f = view S.r f) ∨
    (S.r.mem.wake_pending f = false ∧ S'.ret = none ∧
      view S'.r f = (view S.r f).parked .PARK_ASYNC (-1) (deadline_of S.r t)) := by
  obtain ⟨hcur, -⟩ := hok.current hpc
  simp only [step, hpc, act] at hs
  obtain rfl := Option.some.inj hs
  rcases cfiber_ev_wait_async_spec (L := L) hok.core hcur t with ⟨hpend, heq⟩ |
    ⟨hpend, ⟨s', heq, hfail, -⟩ | ⟨s', heq, hpark, -⟩⟩
  · left
    rw [heq]
    refine ⟨hpend, rfl, rfl, ?_⟩
    show view (consumed S.r f) f = _
    rw [consumed_view, Function.update_self]
  · right
    left
    rw [heq]
    refine ⟨hpend, rfl, rfl, ?_⟩
    show view s' f = _
    rw [hfail.view]
  · right
    right
    rw [heq]
    refine ⟨hpend, rfl, ?_⟩
    show view s' f = _
    rw [hpark.view, Function.update_self]

/-- Only the move that takes the permit makes a call return `READY` at once. -/
theorem Does.consume_of_asks (hok : Ok out good S q) (hd : Does P K out good S a S' m q q')
    (hs : step L P K S a = some S') (ha : asks f S a = true)
    (hret : S'.ret = some (.status .READY)) : m = .consume f := by
  obtain ⟨⟨t, rfl⟩, e, hpc⟩ := asks_iff.mp ha
  obtain ⟨hpend, -, -, hview⟩ : S.r.mem.wake_pending f = true ∧ S'.ret = some (.status .READY) ∧
      S'.pc = S.pc ∧ view S'.r f = { view S.r f with wake_pending := false } := by
    rcases wait_async_step hok hpc hs with h | ⟨-, h, -⟩ | ⟨-, h, -⟩
    · exact h
    · exact absurd (h.symm.trans hret) (by simp)
    · exact absurd (h.symm.trans hret) (by simp)
  have hpend' : (view S.r f).wake_pending = true := hpend
  have hrun : (view S.r f).state = .FB_RUNNING := running_of_pc hok hpc
  have hlive : f ∈ S.alive := hok.core.mem_live (by rw [running_of_pc hok hpc]; simp)
  by_cases hm : m.fiber = some f
  · have hpre := hd.moved.pre f hm
    have hself := (hd.moved.self f hm).symm.trans hview
    -- no other move takes a permit from a running fiber
    cases m with
    | consume g => rw [Option.some.inj hm]
    | quiet => exact absurd hm (by simp [Move.fiber])
    | spawn g gen stack => exact absurd (hpre.symm.trans hrun) (by simp)
    | permit g => exact absurd (congrArg FiberView.wake_pending hself) (by simp [Move.view])
    | _ =>
        exact absurd (congrArg FiberView.wake_pending hself)
          (by simp [Move.view, FiberView.parked, FiberView.woken, hpend'])
  · have hsame := (hd.moved.others f hlive hm).symm.trans hview
    exact absurd (congrArg FiberView.wake_pending hsame) (by simp [hpend'])

/-! ## §2. No permit is pending in `cfiber_ev_wait_async`. -/

/-- No permit is pending for a fiber that is parked in `cfiber_ev_wait_async`. -/
def PermitFree (S : Sys T γ σ κ) : Prop :=
  ∀ f, (view S.r f).in_async → (view S.r f).wake_pending = false

theorem PermitFree.step (hok : Ok out good S q) (h : PermitFree S)
    (hd : Does P K out good S a S' m q q') (hs : step L P K S a = some S') : PermitFree S' := by
  intro f hasync
  have hlive : f ∈ S'.alive := by
    apply hd.ok.core.mem_live
    have hst : S'.r.mem.state f = .FB_PARKED := hasync.1
    rw [hst]
    simp
  by_cases hm : m.fiber = some f
  · have hpre := hd.moved.pre f hm
    have hself := hd.moved.self f hm
    cases m with
    | quiet => exact absurd hm (by simp [Move.fiber])
    | park g kind fd deadline =>
        obtain rfl := Option.some.inj hm
        obtain ⟨hparking, hret⟩ := hd.label.of_park g kind fd deadline rfl
        have hkind : kind = .PARK_ASYNC := by
          have hpark := hasync.2
          rw [hself] at hpark
          exact hpark
        subst hkind
        obtain ⟨e, hpc⟩ := hok.pc_of_running hpre
        -- only `cfiber_ev_wait_async` parks so, and only without a permit
        cases a with
        | wait_async t =>
            rcases wait_async_step hok hpc hs with ⟨-, hready, -⟩ | ⟨-, herr, -⟩ | ⟨hnone, -, -⟩
            · exact absurd (hready.symm.trans hret) (by simp)
            · exact absurd (herr.symm.trans hret) (by simp)
            · rw [hself]
              exact hnone
        | _ => exact absurd hparking (by simp [parking])
    | permit g =>
        -- a wake for such a fiber is no permit
        have hstate := hasync.1
        have hpark := hasync.2
        rw [hself] at hstate hpark
        exact absurd ⟨hstate, hpark⟩ hpre.2.2
    | consume g => rw [hself]; rfl
    | _ =>
        have hstate := hasync.1
        rw [hself] at hstate
        exact absurd hstate (by simp [Move.view, FiberView.spawned, FiberView.woken])
  · have hsame := hd.moved.others f (hd.moved.alive_before hlive hm) hm
    rw [hsame] at hasync ⊢
    exact h f hasync

/-! ## §3. What a wake does. -/

theorem waked_iff : waked S a = some f ↔
    ∃ c, command S a = some c ∧ c.kind = .CMD_WAKE ∧ addressee S.r c = some f := by
  cases hc : command S a with
  | none => simp [waked, hc]
  | some c =>
      rw [waked_command hc]
      split_ifs with hkind
      · simp [hkind]
      · simp [hkind]

/-- **A wake-up of a fiber in `cfiber_ev_wait_async` with `READY`** is a wake. -/
theorem Registered.woken_async {file : κ → Int → Option φ}
    {entry : κ → Int → φ → Option (Option Nat × Bool)} (hreg : Registered file entry S)
    (hasync : (view S.r f).in_async) (hs : source S a = some (f, .READY)) :
    waked S a = some f := by
  unfold source at hs
  split at hs
  · rename_i e evs hpc
    obtain ⟨w, hw, heq⟩ := Option.map_eq_some_iff.mp hs
    obtain rfl : w = f := congrArg Prod.fst heq
    -- an event is for a fiber parked on a descriptor, or for none parked
    have hmem : e ∈ pending S.pc := by
      rw [hpc]
      exact List.mem_cons_self
    rcases (hreg.batch hmem hw).2 with hready | hwaiting
    · exact absurd (Eq.trans (Eq.symm hasync.1) hready) (by simp)
    · exact absurd (Eq.trans (Eq.symm hasync.2) hwaiting.park) (by simp)
  · split_ifs at hs
    exact absurd (congrArg Prod.snd (Option.some.inj hs)) (by simp)
  · obtain ⟨w, -, heq⟩ := Option.map_eq_some_iff.mp hs
    exact absurd (congrArg Prod.snd heq) (by simp)
  · unfold commanded at hs
    split at hs
    · exact absurd hs (by simp)
    · rename_i c hc
      obtain ⟨g, hg, hkind⟩ := Option.bind_eq_some_iff.mp hs
      split at hkind
      · exact absurd (congrArg Prod.snd (Option.some.inj hkind)) (by simp)
      · rename_i hwake
        split_ifs at hkind
        obtain rfl : g = f := congrArg Prod.fst (Option.some.inj hkind)
        exact waked_iff.mpr ⟨c, hc, hwake, hg⟩

/-- **A wake that wakes up** is for a fiber in `cfiber_ev_wait_async`, and brings `READY`. -/
theorem Does.async_of_waked (hd : Does P K out good S a S' m q q') (hw : waked S a = some f)
    {status : EvStatus} (hm : m = .wake f status) :
    (view S.r f).in_async ∧ status = .READY := by
  subst hm
  have hstatus : status = .READY := by
    rcases hd.label.on_wake f hw with h | h
    · exact absurd h (by simp)
    · exact (Move.wake.inj h).2
  refine ⟨⟨hd.moved.pre f rfl, ?_⟩, hstatus⟩
  obtain ⟨c, hc, hkind, haddr⟩ := waked_iff.mp hw
  have hsource := hd.label.of_wake f status rfl
  rw [source_command hc, haddr, Option.bind_some, hkind] at hsource
  dsimp only at hsource
  split_ifs at hsource with hpark
  exact hpark

/-! ## §4. Credits. -/

theorem FiberView.not_woke {v : FiberView} (h : v.state ≠ .FB_READY) : v.woke = false := by
  simp [FiberView.woke, h]

/-- Nothing is counted as a wake without a wake or a permit. -/
theorem Does.uncounted (hd : Does P K out good S a S' m q q') (hp : m ≠ .permit f)
    (hw : ∀ status, m ≠ .wake f status) : counted_wake f S a S' = 0 := by
  have hnot : woken_by f S a = false := by
    by_contra h
    rcases hd.label.on_wake f (woken_by_iff.mp (by simpa using h)) with hm | hm
    · exact hp hm
    · exact hw _ hm
  simp [counted_wake, hnot]

/-- `READY` comes with the permit, or when the fiber is dispatched. -/
theorem Does.not_returned (hok : Ok out good S q) (hd : Does P K out good S a S' m q q')
    (hs : step L P K S a = some S') (hc : m ≠ .consume f) (hdisp : m ≠ .dispatch f) :
    async_ready f S a S' = 0 := by
  have hgoes : goes_on f S a = false := by
    by_contra h
    simp only [goes_on, Bool.not_eq_false, Bool.and_eq_true, beq_iff_eq] at h
    exact hdisp ((hd.dispatch_iff hok hs).mpr h.1)
  cases hasks : asks f S a with
  | false => simp [async_ready, hgoes, hasks]
  | true =>
      have hret : (S'.ret == some (.status .READY)) = false := by
        by_contra h
        exact hc (hd.consume_of_asks hok hs hasks (by simpa using h))
      simp [async_ready, hret]

/-- **The dispatch** returns `READY` to a call of `cfiber_ev_wait_async` that a wake ended. -/
theorem Does.returned_dispatch (hok : Ok out good S q)
    (hd : Does P K out good S a S' (.dispatch f) q q') (hs : step L P K S a = some S') :
    async_ready f S a S' = (view S.r f).woke.toNat := by
  have hready : (view S.r f).state = .FB_READY := hd.moved.pre f rfl
  have hdisp := (hd.dispatch_iff hok hs).mp rfl
  have hnotasks : asks f S a = false := by
    by_contra h
    obtain ⟨-, e, hpc⟩ := asks_iff.mp (by simpa using h)
    exact (hd.dispatch_pc hok rfl).2 f e hpc
  have hret := hd.label.of_dispatch f rfl
  have hgoes : goes_on f S a = ((view S.r f).ctx == .async) := by
    simp only [goes_on, hdisp, beq_self_eq_true, Bool.true_and]
    rfl
  unfold async_ready
  rw [hnotasks, hgoes, hret]
  unfold FiberView.woke FiberView.returned
  cases hctx : (view S.r f).ctx with
  | async =>
      rw [hready]
      cases (view S.r f).wait_status <;> rfl
  | _ => rw [hready]; rfl

/-- **A resumption** leaves a permit in hand exactly if a wake brought it. -/
theorem Does.credit_wake {file : κ → Int → Option φ}
    {entry : κ → Int → φ → Option (Option Nat × Bool)} {status : EvStatus}
    (hreg : Registered file entry S) (hok : Ok out good S q) (hfree : PermitFree S)
    (hd : Does P K out good S a S' (.wake f status) q q') (hs : step L P K S a = some S') :
    async_ready f S a S' + (view S'.r f).credit =
      (view S.r f).credit + counted_wake f S a S' := by
  have hparked : (view S.r f).state = .FB_PARKED := hd.moved.pre f rfl
  have hself := hd.moved.self f rfl
  have hsource := hd.label.of_wake f status rfl
  have hctx : (view S.r f).ctx = (view S.r f).park.ctx := hok.core.waits.cont f hparked
  have hpend : (view S'.r f).wake_pending = (view S.r f).wake_pending := by rw [hself]; rfl
  rw [hd.not_returned hok hs (by simp) (by simp)]
  unfold FiberView.credit
  rw [hpend, FiberView.not_woke (v := view S.r f) (by simp [hparked])]
  by_cases hwaked : waked S a = some f
  · -- a wake for a fiber in `cfiber_ev_wait_async`, which has no permit
    obtain ⟨hasync, rfl⟩ := hd.async_of_waked hwaked rfl
    have hnone : S.r.mem.wake_pending f = false := hfree f hasync
    have hctx' : (view S.r f).ctx = .async := by rw [hctx, hasync.2]; rfl
    have hwoke : (view S'.r f).woke = true := by
      rw [hself]
      simp [FiberView.woke, Move.view, FiberView.woken, hctx']
    rw [hwoke]
    simp [counted_wake, woken_by, hwaked, hnone]
  · -- another source, which is not `READY` for a fiber in `cfiber_ev_wait_async`
    have hwoke : (view S'.r f).woke = false := by
      rw [hself]
      by_contra h
      simp only [FiberView.woke, Move.view, FiberView.woken, beq_self_eq_true, Bool.true_and,
        Bool.not_eq_false, Bool.and_eq_true, beq_iff_eq] at h
      obtain ⟨hasync, rfl⟩ := h
      apply hwaked
      apply hreg.woken_async ⟨hparked, _⟩ hsource
      rw [hctx] at hasync
      cases hp : (view S.r f).park <;> simp [hp, ParkKind.ctx] at hasync ⊢
    rw [hwoke]
    simp [counted_wake, woken_by, hwaked]

/-- **One step.**  A `READY` returned takes a credit, a wake that finds no permit adds one, and
nothing else changes the credit of a live fiber. -/
theorem Does.credit {file : κ → Int → Option φ}
    {entry : κ → Int → φ → Option (Option Nat × Bool)} (hreg : Registered file entry S)
    (hok : Ok out good S q) (hfree : PermitFree S) (hd : Does P K out good S a S' m q q')
    (hs : step L P K S a = some S') (hf : f ∈ S.alive) (hf' : f ∈ S'.alive) :
    async_ready f S a S' + (view S'.r f).credit =
      (view S.r f).credit + counted_wake f S a S' := by
  have hlive : (view S.r f).state ≠ .FB_FREE := (hok.core.roster.live f).mp hf
  by_cases hm : m.fiber = some f
  swap
  · -- another fiber's move, or nobody's
    have hc : m ≠ .consume f := by rintro rfl; exact hm rfl
    have hdisp : m ≠ .dispatch f := by rintro rfl; exact hm rfl
    have hp : m ≠ .permit f := by rintro rfl; exact hm rfl
    have hw : ∀ status, m ≠ .wake f status := by rintro status rfl; exact hm rfl
    rw [hd.not_returned hok hs hc hdisp, hd.uncounted hp hw, hd.moved.others f hf hm]
    omega
  have hpre := hd.moved.pre f hm
  have hself := hd.moved.self f hm
  cases m with
  | quiet => exact absurd hm (by simp [Move.fiber])
  | spawn g gen stack => exact absurd hpre hlive
  | reap g =>
      obtain rfl := Option.some.inj hm
      have hfree' : (view S'.r g).state = .FB_FREE := by rw [hself]; rfl
      exact absurd hfree' ((hd.ok.core.roster.live g).mp hf')
  | dispatch g =>
      obtain rfl := Option.some.inj hm
      have hafter : (view S'.r g).woke = false := FiberView.not_woke (by rw [hself]; simp [Move.view])
      have hpend : (view S'.r g).wake_pending = (view S.r g).wake_pending := by rw [hself]; rfl
      rw [hd.returned_dispatch hok hs, hd.uncounted (by simp) (by simp)]
      unfold FiberView.credit
      rw [hafter, hpend]
      simp only [Bool.toNat_false]
      omega
  | consume g =>
      obtain rfl := Option.some.inj hm
      obtain ⟨hcall, hret, -⟩ := hd.label.of_consume g rfl
      have hrun : (view S.r g).state = .FB_RUNNING := hpre.1
      have hasks : asks g S a = true := asks_iff.mpr ⟨hcall, hok.pc_of_running hrun⟩
      have hone : async_ready g S a S' = 1 := by
        simp [async_ready, hasks, hret]
      rw [hone, hd.uncounted (by simp) (by simp)]
      unfold FiberView.credit
      rw [hself, FiberView.not_woke (v := view S.r g) (by simp [hrun]),
        FiberView.not_woke (v := (Move.consume g).view (view S.r g)) (by simp [Move.view, hrun]),
        hpre.2]
      rfl
  | permit g =>
      obtain rfl := Option.some.inj hm
      have hcount : counted_wake g S a S' = (!(view S.r g).wake_pending).toNat := by
        simp only [counted_wake, woken_by, hd.label.of_permit g rfl, beq_self_eq_true, Bool.true_and]
        rfl
      have hwoke : (view S'.r g).woke = (view S.r g).woke := by rw [hself]; rfl
      have hpend : (view S'.r g).wake_pending = true := by rw [hself]; rfl
      rw [hd.not_returned hok hs (by simp) (by simp), hcount]
      unfold FiberView.credit
      rw [hwoke, hpend]
      cases (view S.r g).wake_pending <;> simp [Nat.add_comm]
  | wake g status =>
      obtain rfl := Option.some.inj hm
      exact hd.credit_wake hreg hok hfree hs
  | _ =>
      obtain rfl := Option.some.inj hm
      have hrun : (view S.r _).state = .FB_RUNNING := hpre
      rw [hd.not_returned hok hs (by simp) (by simp), hd.uncounted (by simp) (by simp), hself]
      unfold FiberView.credit
      rw [FiberView.not_woke (v := view S.r _) (by simp [hrun])]
      simp [Move.view, FiberView.woke, FiberView.parked]

/-- **A permit lasts** until the fiber calls `cfiber_ev_wait_async`. -/
theorem Does.permit_lasts (hok : Ok out good S q) (hd : Does P K out good S a S' m q q')
    (hf : f ∈ S.alive) (hf' : f ∈ S'.alive) (hasks : asks f S a = false)
    (hpend : S.r.mem.wake_pending f = true) : S'.r.mem.wake_pending f = true := by
  have hlive : (view S.r f).state ≠ .FB_FREE := (hok.core.roster.live f).mp hf
  have hpend' : (view S.r f).wake_pending = true := hpend
  show (view S'.r f).wake_pending = true
  by_cases hm : m.fiber = some f
  · have hpre := hd.moved.pre f hm
    rw [hd.moved.self f hm]
    cases m with
    | quiet => exact absurd hm (by simp [Move.fiber])
    | spawn g gen stack => exact absurd hpre hlive
    | permit g => rfl
    | consume g =>
        obtain rfl := Option.some.inj hm
        obtain ⟨hcall, -⟩ := hd.label.of_consume g rfl
        rw [asks_iff.mpr ⟨hcall, hok.pc_of_running hpre.1⟩] at hasks
        exact absurd hasks (by simp)
    | _ => exact hpend'
  · rw [hd.moved.others f hf hm]
    exact hpend'

end

/-! ## §5. Runs. -/

section
variable (L : Libc γ) (P : StackPool σ) (K : Kernel κ δ)

/-- How many calls of `cfiber_ev_wait_async` `f` makes in a run. -/
def async_calls (f : Nat) : Sys T γ σ κ → List (Action δ) → Nat :=
  tally (step L P K) fun S a _ => (asks f S a).toNat

/-- How many calls of `cfiber_ev_wait_async` return `READY` to `f` in a run. -/
def async_readies (f : Nat) : Sys T γ σ κ → List (Action δ) → Nat :=
  tally (step L P K) (async_ready f)

/-- How many wakes for `f` find no permit pending in a run. -/
def counted_wakes (f : Nat) : Sys T γ σ κ → List (Action δ) → Nat :=
  tally (step L P K) (counted_wake f)

end

section
variable {S S' : Sys T γ σ κ} {q : List Nat} {f : Nat}
variable {file : κ → Int → Option φ} {entry : κ → Int → φ → Option (Option Nat × Bool)}

theorem permit_lasts (H : LibcOk T L out good) {as : List (Action δ)} :
    ∀ {S : Sys T γ σ κ} {q : List Nat}, Ok out good S q → S.r.mem.wake_pending f = true →
      exec (step L P K) S as = some S' → Same L P K f S as → async_calls L P K f S as = 0 →
      S'.r.mem.wake_pending f = true := by
  induction as with
  | nil =>
      intro S q _ hpend hrun _ _
      obtain rfl : S = S' := by simpa using hrun
      exact hpend
  | cons a as ih =>
      intro S q hok hpend hrun hsame hcalls
      obtain ⟨t, ht, hrest⟩ := exec_cons.mp hrun
      obtain ⟨m, q', hd⟩ := step_does H hok ht
      obtain ⟨hf, hsame⟩ := (same_cons ht as).mp hsame
      unfold async_calls at hcalls
      rw [tally_cons ht, Nat.add_eq_zero_iff] at hcalls
      have hasks : asks f S a = false := by simpa using hcalls.1
      exact ih hd.ok (hd.permit_lasts hok hf hsame.head hasks hpend) hrest hsame hcalls.2

/-- The invariant of the wakes. -/
structure Wakes (out : γ → List Region) (good : γ → Prop) (file : κ → Int → Option φ)
    (entry : κ → Int → φ → Option (Option Nat × Bool)) (S : Sys T γ σ κ) (q : List Nat) :
    Prop where
  ok : Ok out good S q
  registered : Registered file entry S
  free : PermitFree S

theorem Wakes.step (H : LibcOk T L out good) (E : EpollLaw K file entry)
    (h : Wakes out good file entry S q) {a : Action δ} (hs : step L P K S a = some S') :
    ∃ q', Wakes out good file entry S' q' := by
  obtain ⟨m, q', hd⟩ := step_does H h.ok hs
  exact ⟨q', hd.ok, h.registered.step E h.ok hd, h.free.step h.ok hd hs⟩

theorem exec_wakes (H : LibcOk T L out good) (E : EpollLaw K file entry) {r : Reactor T γ σ κ}
    (hr : Fresh T out good r) (hnew : ∀ fd x p, entry r.epoll fd x ≠ some (p, true))
    {as : List (Action δ)} (hrun : exec (CFiber.Ev.step L P K) (boot r) as = some S) :
    ∃ q, Wakes out good file entry S q := by
  have hboot : Ok out good (boot r) [] := boot_ok hr
  refine exec_inv (fun S => ∃ q, Wakes out good file entry S q) ?_ ⟨[], hboot, .start hnew, ?_⟩ hrun
  · rintro S a S' ⟨q, h⟩ hs
    exact h.step H E hs
  · intro f hasync
    -- no fiber is there yet
    have hst : (boot r).r.mem.state f = .FB_PARKED := hasync.1
    exact absurd (hboot.core.mem_live (by rw [hst]; simp)) List.not_mem_nil

/-- **Conservation of wakes.** -/
theorem Wakes.balance (H : LibcOk T L out good) (E : EpollLaw K file entry)
    (h : Wakes out good file entry S q) {as : List (Action δ)}
    (hrun : exec (CFiber.Ev.step L P K) S as = some S') (hsame : Same L P K f S as) :
    async_readies L P K f S as + (view S'.r f).credit =
      (view S.r f).credit + counted_wakes L P K f S as := by
  refine exec_balance (fun S => ∃ q, Wakes out good file entry S q) (fun S => f ∈ S.alive)
    (fun S => (view S.r f).credit) ?_ ⟨q, h⟩ hsame hrun
  rintro S a S' ⟨q, h⟩ hf hf' hs
  obtain ⟨m, q', hd⟩ := step_does H h.ok hs
  exact ⟨h.step H E hs, hd.credit h.registered h.ok h.free hs hf hf'⟩

end

/-! ## §6. The law. -/

/-- **What becomes of the wakes** for fiber `f`, from a state `S` on. -/
structure PermitLaw (L : Libc γ) (P : StackPool σ) (K : Kernel κ δ) (S : Sys T γ σ κ) (f : Nat) :
    Prop where
  /-- No permit is pending while `f` is parked in `cfiber_ev_wait_async`. -/
  free : (view S.r f).in_async → S.r.mem.wake_pending f = false
  /-- A wake ends such a wait with `READY`, whatever happens until `f` runs. -/
  ends : ∀ a S₁, step L P K S a = some S₁ → waked S a = some f → (view S.r f).in_async →
    S₁.r.mem.state f = .FB_READY ∧ ∀ as S₂ b S₃, exec (step L P K) S₁ as = some S₂ →
      f ∉ dispatches L P K S₁ as → step L P K S₂ b = some S₃ → dispatched S₂ b = some f →
      S₃.ret = some (.status .READY)
  /-- Any other wake leaves `f` and its wait as they are but for the permit; the next call of
  `cfiber_ev_wait_async` takes it and returns `READY` without parking. -/
  kept : ∀ a S₁, step L P K S a = some S₁ → waked S a = some f → ¬ (view S.r f).in_async →
    view S₁.r f = { view S.r f with wake_pending := true } ∧
    (∀ g ∈ S.alive, g ≠ f → view S₁.r g = view S.r g) ∧
    ∀ as S₂ e t S₃, exec (step L P K) S₁ as = some S₂ → Same L P K f S₁ as →
      async_calls L P K f S₁ as = 0 → S₂.pc = .fiber f e →
      step L P K S₂ (.wait_async t) = some S₃ →
      S₃.ret = some (.status .READY) ∧ S₃.pc = S₂.pc ∧ S₃.r.mem.wake_pending f = false
  /-- A call that parks takes no permit. -/
  parks : ∀ e t S₁, S.pc = .fiber f e → step L P K S (.wait_async t) = some S₁ →
    S₁.r.mem.state f = .FB_PARKED →
    S.r.mem.wake_pending f = false ∧ S₁.r.mem.wake_pending f = false
  /-- A new fiber has nothing to come. -/
  born : ∀ S₁ gen, step L P K S .spawn = some S₁ →
    S₁.ret = some (.spawned ⟨some f, gen⟩) → (view S₁.r f).credit = 0
  /-- The calls that return `READY` and what is still to come are what was to come and the wakes
  that found no permit pending. -/
  balance : ∀ as S₁, exec (step L P K) S as = some S₁ → Same L P K f S as →
    async_readies L P K f S as + (view S₁.r f).credit =
      (view S.r f).credit + counted_wakes L P K f S as

section
variable {S S₁ : Sys T γ σ κ} {q : List Nat} {f : Nat}

/-- A wake for a fiber in `cfiber_ev_wait_async` decides its wait. -/
theorem wake_ends (H : LibcOk T L out good) (hok : Ok out good S q) {a : Action δ}
    (hs : step L P K S a = some S₁) (hw : waked S a = some f) (hasync : (view S.r f).in_async) :
    ∃ n q', Ok out good S₁ q' ∧ Decided n S₁ f .READY := by
  obtain ⟨m, q', hd⟩ := step_does H hok hs
  have hwake : m = .wake f .READY := by
    rcases hd.label.on_wake f hw with rfl | hm
    · exact absurd hasync (hd.moved.pre f rfl).2.2
    · exact hm
  have hstart : Undecided (view S.r f).enqueued S f := ⟨hasync.1, rfl⟩
  exact ⟨_, q', hd.ok,
    (hstart.step hok hd).2 .READY (brings_iff.mpr (hd.label.of_wake f .READY hwake))⟩

/-- Any other wake leaves a permit. -/
theorem wake_kept (H : LibcOk T L out good) (hok : Ok out good S q) {a : Action δ}
    (hs : step L P K S a = some S₁) (hw : waked S a = some f)
    (hasync : ¬ (view S.r f).in_async) :
    view S₁.r f = { view S.r f with wake_pending := true } ∧
      (∀ g ∈ S.alive, g ≠ f → view S₁.r g = view S.r g) ∧ ∃ q', Ok out good S₁ q' := by
  obtain ⟨m, q', hd⟩ := step_does H hok hs
  have hpermit : m = .permit f := by
    rcases hd.label.on_wake f hw with hm | hm
    · exact hm
    · exact absurd (hd.async_of_waked hw hm).1 hasync
  subst hpermit
  refine ⟨hd.moved.self f rfl, ?_, q', hd.ok⟩
  intro g hg hgf
  exact hd.moved.others g hg fun h => hgf (Option.some.inj h).symm

/-- A fiber that was just spawned. -/
theorem born_credit (H : LibcOk T L out good) (hok : Ok out good S q) {gen : UInt64}
    (hs : step L P K S .spawn = some S₁) (hret : S₁.ret = some (.spawned ⟨some f, gen⟩)) :
    (view S₁.r f).credit = 0 := by
  obtain rfl := spawn_step hs
  rcases spawn_locked_spec H P hok.core hok.pool with ⟨r', heq, -⟩ | ⟨g, r', heq, hspawn⟩
  · rw [heq] at hret
    exact absurd hret (by simp [spawned])
  · rw [heq] at hret ⊢
    have hhandle : (⟨some g, UInt64.ofNat (S.r.repooled g)⟩ : Handle) = ⟨some f, gen⟩ := by
      simpa [spawned] using hret
    obtain rfl : g = f := Option.some.inj (Handle.mk.inj hhandle).1
    show (view r' g).credit = 0
    rw [hspawn.new]
    rfl

end

/-- **The wake permit law** holds in every state of every run, for every fiber. -/
theorem wake_permit_law {file : κ → Int → Option φ}
    {entry : κ → Int → φ → Option (Option Nat × Bool)} (H : LibcOk T L out good)
    (E : EpollLaw K file entry) {r : Reactor T γ σ κ} (hr : Fresh T out good r)
    (hnew : ∀ fd x p, entry r.epoll fd x ≠ some (p, true)) {before : List (Action δ)}
    {S : Sys T γ σ κ} (hrun : exec (step L P K) (boot r) before = some S) (f : Nat) :
    PermitLaw L P K S f := by
  obtain ⟨q, hw⟩ := exec_wakes H E hr hnew hrun
  refine ⟨hw.free f, ?_, ?_, ?_, fun S₁ gen => born_credit H hw.ok, fun as S₁ => hw.balance H E⟩
  · intro a S₁ hs hwaked hasync
    obtain ⟨n, q₁, hok₁, hdec⟩ := wake_ends H hw.ok hs hwaked hasync
    refine ⟨hdec.ready, ?_⟩
    intro as S₂ b S₃ hrun₂ hnot hb hdisp
    obtain ⟨q₂, hok₂, hdec₂⟩ := hdec.run H hok₁ hrun₂ hnot
    obtain ⟨m, q₃, hd⟩ := step_does H hok₂ hb
    exact (hdec₂.toResolved.dispatch hd ((hd.dispatch_iff hok₂ hb).mpr hdisp)).1
  · intro a S₁ hs hwaked hasync
    obtain ⟨hview, hothers, q₁, hok₁⟩ := wake_kept H hw.ok hs hwaked hasync
    refine ⟨hview, hothers, ?_⟩
    intro as S₂ e t S₃ hrun₂ hsame hcalls hpc hask
    have hpend : S₁.r.mem.wake_pending f = true := congrArg FiberView.wake_pending hview
    have hpend₂ := permit_lasts H hok₁ hpend hrun₂ hsame hcalls
    obtain ⟨q₂, hok₂⟩ := exec_ok H hok₁ hrun₂
    -- the permit is there, so the call takes it
    rcases wait_async_step hok₂ hpc hask with ⟨-, hret, hpc₃, hview₃⟩ | ⟨hnone, -⟩ | ⟨hnone, -⟩
    · exact ⟨hret, hpc₃, congrArg FiberView.wake_pending hview₃⟩
    · exact absurd (hnone.symm.trans hpend₂) (by simp)
    · exact absurd (hnone.symm.trans hpend₂) (by simp)
  · intro e t S₁ hpc hask hparked
    have hst : (view S₁.r f).state = .FB_PARKED := hparked
    have hrunning : (view S.r f).state = .FB_RUNNING := running_of_pc hw.ok hpc
    rcases wait_async_step hw.ok hpc hask with ⟨-, -, -, hview⟩ | ⟨-, -, -, hview⟩ | ⟨hnone, -, hview⟩
    · rw [hview] at hst
      exact absurd (hst.symm.trans hrunning) (by simp)
    · rw [hview] at hst
      exact absurd (hst.symm.trans hrunning) (by simp)
    · exact ⟨hnone, Eq.trans (congrArg FiberView.wake_pending hview) hnone⟩

/-- A fiber waits for a wake, and another has control. -/
def one_async : List (Action Choice) :=
  [.spawn, .spawn, .run, .turn, .turn, .wait_async (-1), .turn, .turn]

/-- Two wakes; then the first fiber comes back and calls again. -/
def two_wakes : List (Action Choice) :=
  [.wake ⟨some 192, 0⟩, .wake ⟨some 192, 0⟩, .yield, .turn, .turn, .poll (.report [] false), .turn,
    .turn, .turn, .turn, .wait_async (-1)]

theorem wake_permit_law_epoll : ∃ r S S₁, start = some r ∧
    exec (step bumpLibc roomyStacks epoll) (boot r) one_async = some S ∧
    exec (step bumpLibc roomyStacks epoll) S two_wakes = some S₁ ∧
    PermitLaw bumpLibc roomyStacks epoll S 192 ∧ S.r.mem.wake_pending 192 = false ∧
    async_readies bumpLibc roomyStacks epoll 192 S two_wakes = 2 := by
  have hsome : ((runs one_async).bind fun S =>
      (exec (step bumpLibc roomyStacks epoll) S two_wakes).map fun _ =>
        (S.r.mem.state 192, S.r.mem.park 192,
          async_readies bumpLibc roomyStacks epoll 192 S two_wakes)) =
        some (.FB_PARKED, .PARK_ASYNC, 2) := by decide +kernel
  obtain ⟨S, hS, hsome⟩ := Option.bind_eq_some_iff.mp hsome
  obtain ⟨S₁, hrun₁, heq⟩ := Option.map_eq_some_iff.mp hsome
  simp only [Prod.mk.injEq] at heq
  obtain ⟨hst, hpark, hreadies⟩ := heq
  obtain ⟨r, hr, hrun⟩ := runs_some hS
  have hlaw := wake_permit_law bumpLibc_ok epoll_law (start_fresh hr) (epoll_unarmed hr) hrun 192
  exact ⟨r, S, S₁, hr, hrun, hrun₁, hlaw, hlaw.free ⟨hst, hpark⟩, hreadies⟩

end CFiber.Ev
