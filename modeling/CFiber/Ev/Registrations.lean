/-
  CFiber.Ev.Registrations — the kernel's epoll entries against the fibers that wait.

  The owner map, the fibers' own records and the kernel's table are three copies of who waits on
  what.  `EpollLaw` is what the kernel promises: one entry for each descriptor number and open file,
  one-shot, reported to the pointer it stores.  `Registered` ties the table to the fibers: an entry
  is armed only while the fiber it points to is parked on its descriptor.

  Main results:

    • `Registered.step`, `exec_registered` — every step and every run keep that;
    • `descriptor_ownership` — who holds a descriptor, in all three copies.
-/
import CFiber.Ev.Environment

namespace CFiber.Ev

open CFiber.Base CFiber.Memory

variable {T : Target} {γ σ κ δ φ : Type}

/-! ## §1. What the kernel promises. -/

/-- `file k fd` is the open file that number `fd` refers to; `entry k fd x` is the one-shot entry
made for the number `fd` and the file `x`: the pointer it stores and whether it is armed.

Outside the reactor nobody closes a number while its entry is armed (`other_file`): for a
descriptor another fiber is parked on there is `cfiber_ev_close`. -/
structure EpollLaw (K : Kernel κ δ) (file : κ → Int → Option φ)
    (entry : κ → Int → φ → Option (Option Nat × Bool)) : Prop where
  ctl_file : ∀ (op : CtlOp) (fd : Int) (events : UInt32) (p : Option Nat) (k : κ),
    file (K.epoll_ctl op fd events p k).2 = file k
  ctl_apart : ∀ (op : CtlOp) {fd fd' : Int} (events : UInt32) (p : Option Nat) {k : κ} {x : φ},
    fd' ≠ fd ∨ file k fd ≠ some x → entry (K.epoll_ctl op fd events p k).2 fd' x = entry k fd' x
  ctl_fail : ∀ {op : CtlOp} {fd : Int} {events : UInt32} {p : Option Nat} {k : κ},
    (K.epoll_ctl op fd events p k).1 ≠ none → entry (K.epoll_ctl op fd events p k).2 = entry k
  ctl_arm : ∀ {op : CtlOp} {fd : Int} (events : UInt32) (p : Option Nat) {k : κ} {x : φ},
    op ≠ .EPOLL_CTL_DEL → (K.epoll_ctl op fd events p k).1 = none → file k fd = some x →
      entry (K.epoll_ctl op fd events p k).2 fd x = some (p, true)
  del : ∀ {fd : Int} {events : UInt32} {p : Option Nat} {k : κ} {x : φ}, file k fd = some x →
    entry (K.epoll_ctl .EPOLL_CTL_DEL fd events p k).2 fd x = none
  wait_file : ∀ {d : δ} {t : Int} {k k' : κ} {res : Except Errno (List Event)},
    K.epoll_wait d t k = some (res, k') → file k' = file k
  wait_entry : ∀ {d : δ} {t : Int} {k k' : κ} {res : Except Errno (List Event)} {fd : Int} {x : φ}
    {p : Option Nat}, K.epoll_wait d t k = some (res, k') → entry k' fd x = some (p, true) →
      entry k fd x = some (p, true)
  /-- An event goes to the pointer of an armed entry, which is disarmed. -/
  wait_event : ∀ {d : δ} {t : Int} {k k' : κ} {evs : List Event} {e : Event} {f : Nat},
    K.epoll_wait d t k = some (.ok evs, k') → e ∈ evs → e.data = some f →
      ∃ x, entry k e.fd x = some (some f, true) ∧ entry k' e.fd x = some (some f, false)
  close_file : ∀ (fd : Int) (k : κ), file (K.close fd k).2 = Function.update (file k) fd none
  close_entry : ∀ {fd fd' : Int} {k : κ} {x : φ} {p : Option Nat},
    entry (K.close fd k).2 fd' x = some (p, true) → entry k fd' x = some (p, true)
  other_entry : ∀ {d : δ} {k k' : κ} {fd : Int} {x : φ} {p : Option Nat}, K.other d k = some k' →
    entry k' fd x = some (p, true) → entry k fd x = some (p, true)
  other_file : ∀ {d : δ} {k k' : κ} {fd : Int} {x : φ} {p : Option Nat}, K.other d k = some k' →
    entry k fd x = some (p, true) → file k fd = some x → file k' fd = some x

variable {K : Kernel κ δ} {file : κ → Int → Option φ}
  {entry : κ → Int → φ → Option (Option Nat × Bool)}

/-- **A deletion** disarms the entry of its number, and arms nothing. -/
theorem EpollLaw.del_armed (H : EpollLaw K file entry) {fd fd' : Int} {events : UInt32}
    {p p' : Option Nat} {k : κ} {x : φ}
    (h : entry (K.epoll_ctl .EPOLL_CTL_DEL fd events p k).2 fd' x = some (p', true)) :
    entry k fd' x = some (p', true) ∧ ¬ (fd' = fd ∧ file k fd = some x) := by
  by_cases hsame : fd' = fd ∧ file k fd = some x
  · obtain ⟨rfl, hx⟩ := hsame
    rw [H.del hx] at h
    exact absurd h (by simp)
  · refine ⟨?_, hsame⟩
    rwa [H.ctl_apart] at h
    by_cases hfd : fd' = fd
    · exact Or.inr fun hx => hsame ⟨hfd, hx⟩
    · exact Or.inl hfd

theorem Unarmed.keeps (H : EpollLaw K file entry) {k k' : κ} (h : Unarmed K k k') :
    file k' = file k ∧ ∀ {fd : Int} {x : φ} {p : Option Nat}, entry k' fd x = some (p, true) →
      entry k fd x = some (p, true) := by
  induction h with
  | refl => exact ⟨rfl, fun h => h⟩
  | del fd _ ih => exact ⟨(H.ctl_file ..).trans ih.1, fun h => ih.2 (H.del_armed h).1⟩
  | @fail k₁ k₂ op fd events p e _ hf ih =>
      have hne : (K.epoll_ctl op fd events p k₁).1 ≠ none := by
        rw [hf]
        simp
      have hentry := H.ctl_fail hne
      have hfile := H.ctl_file op fd events p k₁
      rw [hf] at hentry hfile
      refine ⟨hfile.trans ih.1, fun h => ih.2 ?_⟩
      rwa [← hentry]

/-- **Arming** arms one entry, that of the number it was for. -/
theorem Armed.keeps (H : EpollLaw K file entry) {k k' : κ} {fd : Int} {events : UInt32} {f : Nat}
    (h : Armed K k fd events f k') :
    file k' = file k ∧ ∀ {fd' : Int} {x : φ} {p : Option Nat}, entry k' fd' x = some (p, true) →
      entry k fd' x = some (p, true) ∨ (fd' = fd ∧ file k fd = some x ∧ p = some f) := by
  obtain ⟨k₁, op, hun, hop, hctl⟩ := h
  obtain ⟨hfile₁, hentry₁⟩ := hun.keeps H
  have hfile := H.ctl_file op fd (events ||| EPOLLONESHOT) (some f) k₁
  rw [hctl] at hfile
  refine ⟨hfile.trans hfile₁, ?_⟩
  intro fd' x p hp
  by_cases hsame : fd' = fd ∧ file k₁ fd = some x
  · right
    obtain ⟨rfl, hx⟩ := hsame
    have harm := H.ctl_arm (events ||| EPOLLONESHOT) (some f) hop (by rw [hctl]) hx
    rw [hctl, hp] at harm
    have hptr := (Prod.mk.inj (Option.some.inj harm)).1
    exact ⟨rfl, by rw [← hfile₁]; exact hx, hptr⟩
  · left
    apply hentry₁
    have hap : fd' ≠ fd ∨ file k₁ fd ≠ some x := by
      by_cases hfd : fd' = fd
      · exact Or.inr fun hx => hsame ⟨hfd, hx⟩
      · exact Or.inl hfd
    have hkeep := H.ctl_apart op (events ||| EPOLLONESHOT) (some f) hap
    rw [hctl] at hkeep
    rwa [← hkeep]

/-! ## §2. Entries and fibers. -/

/-- `f` is parked in `cfiber_ev_wait` on `fd`. -/
structure Waiting (s : Reactor T γ σ κ) (f : Nat) (fd : Int) : Prop where
  state : s.mem.state f = .FB_PARKED
  park : s.mem.park f = .PARK_FD
  wait_fd : s.mem.wait_fd f = fd

/-- **The kernel's entries.**  An armed one is for the file its number refers to now, and points to
the fiber parked on that number; a pending event is for a fiber that no armed entry points to. -/
structure Registered (file : κ → Int → Option φ)
    (entry : κ → Int → φ → Option (Option Nat × Bool)) (S : Sys T γ σ κ) : Prop where
  armed : ∀ {fd : Int} {x : φ} {p : Option Nat}, entry S.r.epoll fd x = some (p, true) →
    file S.r.epoll fd = some x ∧ ∃ f, p = some f ∧ Waiting S.r f fd
  batch : ∀ {e : Event} {f : Nat}, e ∈ pending S.pc → e.data = some f →
    (∀ fd x, entry S.r.epoll fd x ≠ some (some f, true)) ∧
      (S.r.mem.state f = .FB_READY ∨ Waiting S.r f e.fd)

section
variable {out : γ → List Region} {good : γ → Prop} {P : StackPool σ} {L : Libc γ}
variable {S S' : Sys T γ σ κ} {a : Action δ} {m : Move} {l q q' : List Nat} {s : Reactor T γ σ κ}
variable {f : Nat} {fd : Int}

theorem Core.waiting_reg (h : Core s l q) (hw : Waiting s f fd) : 0 ≤ fd ∧ s.mem.reg_fd f = fd := by
  obtain ⟨hpos, hreg⟩ := h.waits.holds f hw.state hw.park
  rw [hw.wait_fd] at hpos hreg
  exact ⟨hpos, hreg⟩

/-- **A fiber parked on a descriptor holds it.** -/
theorem Core.waiting_owner (h : Core s l q) (hw : Waiting s f fd) :
    fd_owner_get s fd = some f := by
  obtain ⟨hpos, hreg⟩ := h.waiting_reg hw
  have hlive : f ∈ l := h.mem_live (by simp [hw.state])
  have hget := h.owners.get_reg hlive (by omega)
  rwa [hreg] at hget

/-- The owner map, read through the fibers' records. -/
theorem Core.owner_iff (h : Core s l q) (fd f : Nat) :
    s.fd_owner fd = some f ↔ s.mem.state f ≠ .FB_FREE ∧ s.mem.reg_fd f = (fd : Int) := by
  constructor
  · intro hf
    have hlive := h.owners.live fd f hf
    exact ⟨(h.roster.live f).mp hlive, (h.owners.law f hlive fd).mp hf⟩
  · intro hf
    exact (h.owners.law f (h.mem_live hf.1) fd).mpr hf.2

theorem Waiting.of_view {s' : Reactor T γ σ κ} (hw : Waiting s f fd)
    (hv : view s' f = view s f) : Waiting s' f fd := by
  have hstate := congrArg FiberView.state hv
  have hpark := congrArg FiberView.park hv
  have hfd := congrArg FiberView.wait_fd hv
  exact ⟨hstate.trans hw.state, hpark.trans hw.park, hfd.trans hw.wait_fd⟩

/-- **A parked fiber waits on** until it is woken. -/
theorem Waiting.stays (hok : Ok out good S q) (hm : Moved out P S S' m q q')
    (hw : Waiting S.r f fd) (hno : ∀ status, m ≠ .wake f status) : Waiting S'.r f fd := by
  by_cases hself : m.fiber = some f
  · have hpre := hm.pre f hself
    have hview := hm.self f hself
    have hparked : (view S.r f).state = .FB_PARKED := hw.state
    cases m with
    | quiet => exact absurd hself (by simp [Move.fiber])
    | wake g status =>
        obtain rfl := Option.some.inj hself
        exact absurd rfl (hno status)
    | permit g =>
        -- the permit is no part of the wait
        have hstate := congrArg FiberView.state hview
        have hpark := congrArg FiberView.park hview
        have hfd := congrArg FiberView.wait_fd hview
        exact ⟨hstate.trans hw.state, hpark.trans hw.park, hfd.trans hw.wait_fd⟩
    | _ => exact absurd hpre (by simp [Move.pre, hparked])
  · have hlive : f ∈ S.alive := hok.core.mem_live (by simp [hw.state])
    exact hw.of_view (hm.others f hlive hself)

/-- A fiber that was ready is ready while events are handled. -/
theorem Moved.ready_stays (hok : Ok out good S q) (hm : Moved out P S S' m q q')
    (hcalm : m = .quiet ∨ (∃ g, m = .permit g) ∨ ∃ g status, m = .wake g status)
    (hr : S.r.mem.state f = .FB_READY) : S'.r.mem.state f = .FB_READY := by
  have hready : (view S.r f).state = .FB_READY := hr
  have hlive : f ∈ S.alive := hok.core.mem_live (by simp [hr])
  by_cases hself : m.fiber = some f
  · have hview := congrArg FiberView.state (hm.self f hself)
    rcases hcalm with rfl | ⟨g, rfl⟩ | ⟨g, status, rfl⟩
    · exact absurd hself (by simp [Move.fiber])
    · exact hview.trans hr
    · exact hview
  · exact (congrArg FiberView.state (hm.others f hlive hself)).trans hr

/-- The fiber of a wake-up is ready. -/
theorem Moved.woken_ready {status : EvStatus} (hm : Moved out P S S' (.wake f status) q q') :
    S'.r.mem.state f = .FB_READY :=
  congrArg FiberView.state (hm.self f rfl)

/-- **A step that arms nothing** keeps the law, if no entry of the fiber it wakes is left armed and
no file of an armed entry is lost. -/
theorem Registered.step_of (h : Registered file entry S) (hok : Ok out good S q)
    (hdoes : Does P K out good S a S' m q q')
    (hentry : ∀ {fd : Int} {x : φ} {p : Option Nat}, entry S'.r.epoll fd x = some (p, true) →
      entry S.r.epoll fd x = some (p, true))
    (hfile : ∀ {fd : Int} {x : φ} {p : Option Nat}, entry S'.r.epoll fd x = some (p, true) →
      file S.r.epoll fd = some x → file S'.r.epoll fd = some x)
    (hwake : ∀ {f : Nat} {status : EvStatus} {fd : Int} {x : φ}, m = .wake f status →
      entry S'.r.epoll fd x ≠ some (some f, true))
    (hpend : ∀ e ∈ pending S'.pc, e ∈ pending S.pc) : Registered file entry S' where
  armed := by
    intro fd x p hp
    obtain ⟨hx, f, rfl, hw⟩ := h.armed (hentry hp)
    refine ⟨hfile hp hx, f, rfl, hw.stays hok hdoes.moved ?_⟩
    intro status hm
    exact hwake hm hp
  batch := by
    intro e f he hf
    obtain ⟨hno, hstate⟩ := h.batch (hpend e he) hf
    refine ⟨fun fd x hp => hno fd x (hentry hp), ?_⟩
    obtain ⟨-, hcalm⟩ := hdoes.label.calm (List.ne_nil_of_mem he)
    rcases hstate with hr | hw
    · exact Or.inl (hdoes.moved.ready_stays hok hcalm hr)
    · by_cases hwoken : ∃ status, m = .wake f status
      · obtain ⟨status, rfl⟩ := hwoken
        exact Or.inl hdoes.moved.woken_ready
      · exact Or.inr (hw.stays hok hdoes.moved fun status hm => hwoken ⟨status, hm⟩)

/-- **A detached fiber** has no armed entry. -/
theorem Registered.detached (E : EpollLaw K file entry) (h : Registered file entry S)
    (hok : Ok out good S q) {k : κ} (hd : Detached K S.r f k) :
    file k = file S.r.epoll ∧
      (∀ {fd : Int} {x : φ} {p : Option Nat}, entry k fd x = some (p, true) →
        entry S.r.epoll fd x = some (p, true)) ∧
      ∀ fd x, entry k fd x ≠ some (some f, true) := by
  -- an armed entry of `f` is for the descriptor it holds
  have hown : ∀ {fd : Int} {x : φ}, entry S.r.epoll fd x = some (some f, true) →
      file S.r.epoll fd = some x ∧ 0 ≤ fd ∧ S.r.mem.reg_fd f = fd := by
    intro fd x hp
    obtain ⟨hx, g, hg, hw⟩ := h.armed hp
    obtain rfl := Option.some.inj hg
    exact ⟨hx, hok.core.waiting_reg hw⟩
  by_cases hreg : S.r.mem.reg_fd f = -1
  · obtain rfl := hd.1 hreg
    refine ⟨rfl, fun hp => hp, ?_⟩
    intro fd x hp
    obtain ⟨-, hpos, hfd⟩ := hown hp
    omega
  · obtain rfl := hd.2 hreg
    refine ⟨E.ctl_file .., fun hp => (E.del_armed hp).1, ?_⟩
    intro fd x hp
    obtain ⟨hbefore, hother⟩ := E.del_armed hp
    obtain ⟨hx, -, hfd⟩ := hown hbefore
    exact hother ⟨hfd.symm, by rw [hfd]; exact hx⟩

/-- **A poll** reports each event once: its entry is disarmed, and it was the fiber's only one. -/
theorem Registered.poll (E : EpollLaw K file entry) (h : Registered file entry S)
    (hok : Ok out good S q) (hdoes : Does P K out good S a S' .quiet q q') {d : δ} {t : Int}
    {res : Except Errno (List Event)}
    (hpoll : K.epoll_wait d t S.r.epoll = some (res, S'.r.epoll))
    (hpend : ∀ e ∈ pending S'.pc, ∃ evs, res = .ok evs ∧ e ∈ evs) :
    Registered file entry S' where
  armed := by
    intro fd x p hp
    obtain ⟨hx, f, rfl, hw⟩ := h.armed (E.wait_entry hpoll hp)
    refine ⟨?_, f, rfl, hw.stays hok hdoes.moved (by simp)⟩
    rw [E.wait_file hpoll]
    exact hx
  batch := by
    intro e f he hf
    obtain ⟨evs, rfl, hmem⟩ := hpend e he
    obtain ⟨x, hbefore, hafter⟩ := E.wait_event hpoll hmem hf
    obtain ⟨hx, g, hg, hw⟩ := h.armed hbefore
    obtain rfl := Option.some.inj hg
    refine ⟨?_, Or.inr (hw.stays hok hdoes.moved (by simp))⟩
    intro fd y hp
    -- another armed entry of the fiber would be this one
    obtain ⟨hy, g, hg, hw'⟩ := h.armed (E.wait_entry hpoll hp)
    obtain rfl := Option.some.inj hg
    have hfd : e.fd = fd := hw.wait_fd.symm.trans hw'.wait_fd
    have hxy : x = y := by
      rw [hfd, hy] at hx
      exact (Option.some.inj hx).symm
    rw [hfd, hxy, hp] at hafter
    simp at hafter

/-- **A wait** arms the entry of the fiber that parks. -/
theorem Registered.arm (E : EpollLaw K file entry) (h : Registered file entry S)
    (hok : Ok out good S q) {deadline : Option UInt64} {events : UInt32}
    (hdoes : Does P K out good S a S' (.park f .PARK_FD fd deadline) q q')
    (harm : Armed K S.r.epoll fd events f S'.r.epoll) (hpend : pending S'.pc = []) :
    Registered file entry S' where
  armed := by
    intro fd' x p hp
    obtain ⟨hfile, hentry⟩ := harm.keeps E
    rw [hfile]
    rcases hentry hp with hold | ⟨rfl, hx, rfl⟩
    · obtain ⟨hx, g, rfl, hw⟩ := h.armed hold
      exact ⟨hx, g, rfl, hw.stays hok hdoes.moved (by simp)⟩
    · -- the new entry
      have hview := hdoes.moved.self f rfl
      have hstate := congrArg FiberView.state hview
      have hpark := congrArg FiberView.park hview
      have hwait := congrArg FiberView.wait_fd hview
      exact ⟨hx, f, rfl, hstate, hpark, hwait⟩
  batch := by
    intro e g he
    rw [hpend] at he
    exact absurd he List.not_mem_nil

/-- **A close** of a descriptor: no armed entry of its holder is left. -/
theorem Registered.closed (E : EpollLaw K file entry) (h : Registered file entry S)
    (hok : Ok out good S q) (hdoes : Does P K out good S a S' m q q') {k : κ}
    (hfile : file k = file S.r.epoll)
    (hentry : ∀ {fd : Int} {x : φ} {p : Option Nat}, entry k fd x = some (p, true) →
      entry S.r.epoll fd x = some (p, true))
    (hno : ∀ g, fd_owner_get S.r fd = some g → ∀ fd' x, entry k fd' x ≠ some (some g, true))
    (hk : S'.r.epoll = (K.close fd k).2)
    (hwake : ∀ g status, m = .wake g status → fd_owner_get S.r fd = some g)
    (hpend : pending S'.pc = []) : Registered file entry S' := by
  apply h.step_of hok hdoes
  · rw [hk]; exact fun hp => hentry (E.close_entry hp)
  · intro fd' x p hp hx
    rw [hk] at hp
    have hopen := E.close_entry hp
    obtain ⟨-, g, rfl, hw⟩ := h.armed (hentry hopen)
    have hne : fd' ≠ fd := by
      intro he
      rw [he] at hw
      exact hno g (hok.core.waiting_owner hw) fd' x hopen
    rw [hk, E.close_file, Function.update_of_ne hne, hfile]
    exact hx
  · intro g status fd' x hm hp
    rw [hk] at hp
    exact hno g (hwake g status hm) fd' x (E.close_entry hp)
  · rw [hpend]
    exact fun _ he => absurd he List.not_mem_nil

/-- **Step.** -/
theorem Registered.step (E : EpollLaw K file entry) (h : Registered file entry S)
    (hok : Ok out good S q) (hdoes : Does P K out good S a S' m q q') :
    Registered file entry S' := by
  have hnone : pending S'.pc = [] → ∀ e ∈ pending S'.pc, e ∈ pending S.pc := by
    intro he e hmem
    rw [he] at hmem
    exact absurd hmem List.not_mem_nil
  have hholder : ∀ {fd : Int} {f : Nat}, fd_owner_get S.r fd = some f →
      ∀ {g : Nat}, fd_owner_get S.r fd = some g → g = f := by
    intro fd f hf g hg
    rw [hf] at hg
    exact (Option.some.inj hg).symm
  cases hdoes.ctl with
  | same hk hwake hpark hpend =>
      apply h.step_of hok hdoes
      · rw [hk]; exact fun hp => hp
      · rw [hk]; exact fun _ hx => hx
      · exact fun hm => absurd hm (hwake _ _)
      · exact hpend
  | other hk hpc =>
      apply h.step_of hok hdoes
      · exact E.other_entry hk
      · exact fun hp => E.other_file hk (E.other_entry hk hp)
      · exact fun hm => absurd hm (by simp)
      · rw [hpc]; exact fun _ he => he
  | poll hpoll hpend => exact h.poll E hok hdoes hpoll hpend
  | @event e evs w hk hpc hpc' hw =>
      have hmem : e ∈ pending S.pc := by
        rw [hpc]
        exact List.mem_cons_self
      apply h.step_of hok hdoes
      · rw [hk]; exact fun hp => hp
      · rw [hk]; exact fun _ hx => hx
      · intro f status fd x hm
        cases hm
        rw [hk]
        exact (h.batch hmem hw).1 fd x
      · rw [hpc, hpc']
        exact fun _ he => List.mem_cons_of_mem _ he
  | gone hd hf hreg hclose hpend =>
      obtain ⟨hfile, hentry, hno⟩ := h.detached E hok hd
      apply h.step_of hok hdoes hentry
      · rw [hfile]; exact fun _ hx => hx
      · intro g status fd x hm
        subst hm
        obtain rfl := Option.some.inj hf
        exact hno fd x
      · exact hpend
  | refused hun hpend =>
      obtain ⟨hfile, hentry⟩ := hun.keeps E
      apply h.step_of hok hdoes hentry
      · rw [hfile]; exact fun _ hx => hx
      · exact fun hm => absurd hm (by simp)
      · exact hnone hpend
  | @dropped fd dir t f k harm hk hpend =>
      obtain ⟨hfile, hentry⟩ := harm.keeps E
      apply h.step_of hok hdoes
      · -- the entry just armed is the one deleted
        intro fd' x p hp
        rw [hk] at hp
        obtain ⟨hp, hother⟩ := E.del_armed hp
        rcases hentry hp with hold | ⟨rfl, hx, -⟩
        · exact hold
        · exact absurd ⟨rfl, by rw [hfile]; exact hx⟩ hother
      · rw [hk, E.ctl_file, hfile]
        exact fun _ hx => hx
      · exact fun hm => absurd hm (by simp)
      · exact hnone hpend
  | armed hpos harm hpend => exact h.arm E hok hdoes harm hpend
  | close hget hk hpend =>
      apply h.closed E hok hdoes rfl (fun hp => hp) _ hk (by simp) hpend
      intro g hg
      rw [hget] at hg
      exact absurd hg (by simp)
  | close_idle hget hidle hd hk hpend =>
      obtain ⟨hfile, hentry, hno⟩ := h.detached E hok hd
      apply h.closed E hok hdoes hfile hentry _ hk (by simp) hpend
      intro g hg
      rw [hholder hget hg]
      exact hno
  | close_cancel hget hparked hd hk hpend =>
      obtain ⟨hfile, hentry, hno⟩ := h.detached E hok hd
      apply h.closed E hok hdoes hfile hentry _ hk _ hpend
      · intro g hg
        rw [hholder hget hg]
        exact hno
      · intro g status hm
        cases hm
        exact hget

/-- **Runs.** -/
theorem exec_registered (H : LibcOk T L out good) (E : EpollLaw K file entry)
    (hok : Ok out good S q) (h : Registered file entry S) {as : List (Action δ)}
    (hrun : exec (step L P K) S as = some S') :
    ∃ q', Ok out good S' q' ∧ Registered file entry S' := by
  apply exec_inv (fun S => ∃ q, Ok out good S q ∧ Registered file entry S) _ ⟨q, hok, h⟩ hrun
  intro s a s' hs hstep
  obtain ⟨q, hok, h⟩ := hs
  obtain ⟨m, q', hdoes⟩ := step_does H hok hstep
  exact ⟨q', hdoes.ok, h.step E hok hdoes⟩

/-- A reactor whose epoll object has no armed entry. -/
theorem Registered.start {r : Reactor T γ σ κ} (hnew : ∀ fd x p, entry r.epoll fd x ≠ some (p, true)) :
    Registered file entry (boot r) :=
  ⟨fun hp => absurd hp (hnew _ _ _), fun he => absurd he List.not_mem_nil⟩

end

/-! ## §3. Descriptor ownership. -/

/-- **Descriptor ownership.**  In every state of every run: the owner map and the fibers' records
agree; a fiber parked on a descriptor is its holder, so there is one at most; an entry is armed only
while the fiber it points to is parked on its number; and an event that is still to be handled is
for a fiber parked on that descriptor, or for one that is ready by now, which it leaves alone. -/
theorem descriptor_ownership {out : γ → List Region} {good : γ → Prop} {P : StackPool σ}
    {L : Libc γ} (H : LibcOk T L out good) (E : EpollLaw K file entry) {r : Reactor T γ σ κ}
    (hr : Fresh T out good r) (hnew : ∀ fd x p, entry r.epoll fd x ≠ some (p, true))
    {actions : List (Action δ)} {S : Sys T γ σ κ}
    (hrun : exec (step L P K) (boot r) actions = some S) :
    (∀ (fd f : Nat), S.r.fd_owner fd = some f ↔
      S.r.mem.state f ≠ .FB_FREE ∧ S.r.mem.reg_fd f = (fd : Int)) ∧
    (∀ f fd, Waiting S.r f fd → fd_owner_get S.r fd = some f) ∧
    (∀ f g fd, Waiting S.r f fd → Waiting S.r g fd → f = g) ∧
    (∀ fd x p, entry S.r.epoll fd x = some (p, true) →
      file S.r.epoll fd = some x ∧ ∃ f, p = some f ∧ Waiting S.r f fd) ∧
    ∀ e ∈ pending S.pc, ∀ f, e.data = some f →
      S.r.mem.state f = .FB_READY ∨ Waiting S.r f e.fd := by
  obtain ⟨q, hok, hreg⟩ := exec_registered H E (boot_ok hr) (.start hnew) hrun
  have howner := fun f fd (hw : Waiting S.r f fd) => hok.core.waiting_owner hw
  refine ⟨hok.core.owner_iff, howner, ?_, fun _ _ _ => hreg.armed,
    fun e he f hf => (hreg.batch he hf).2⟩
  intro f g fd hf hg
  have hsame := (howner f fd hf).symm.trans (howner g fd hg)
  exact Option.some.inj hsame

/-! ## §4. The epoll object of the example environment. -/

namespace Epoll

/-- The pointer of an entry, and whether it is armed. -/
def stored (k : Epoll) (fd : Int) (x : Nat) : Option (Option Nat × Bool) :=
  (k.find fd x).map fun e => (e.ptr, e.armed)

/-- An entry put in front of the others, which lost theirs of that key. -/
theorem stored_put (table : List (Int × Nat)) (k : Epoll) (e : Entry) (fd : Int) (x : Nat) :
    stored ⟨table, e :: k.drop e.fd e.file⟩ fd x =
      if fd = e.fd ∧ x = e.file then some (e.ptr, e.armed) else stored k fd x := by
  unfold stored find drop
  split_ifs with hkey
  · simp [hkey]
  · have hne : (e.fd == fd && e.file == x) = false := by
      simp only [Bool.and_eq_false_iff, beq_eq_false_iff_ne]
      by_cases hfd : e.fd = fd
      · exact Or.inr fun hx => hkey ⟨hfd.symm, hx.symm⟩
      · exact Or.inl hfd
    rw [List.find?_cons_of_neg (by simp [hne]), List.find?_filter]
    congr 2
    funext e'
    grind

/-- An entry that is dropped. -/
theorem stored_drop (table : List (Int × Nat)) (k : Epoll) (fd fd' : Int) (x x' : Nat) :
    stored ⟨table, k.drop fd x⟩ fd' x' = if fd' = fd ∧ x' = x then none else stored k fd' x' := by
  unfold stored find drop
  rw [List.find?_filter]
  split_ifs with hkey
  · rw [Option.map_eq_none_iff, List.find?_eq_none]
    grind
  · congr 2
    funext e'
    grind

/-- A call that fails changes nothing; one that succeeds changes one entry. -/
theorem ctl_spec (op : CtlOp) (fd : Int) (events : UInt32) (ptr : Option Nat) (k : Epoll) :
    (∃ e, k.ctl op fd events ptr = (some e, k) ∧
      ∀ x, k.file fd = some x → op = .EPOLL_CTL_DEL → k.stored fd x = none) ∨
    ∃ x k', k.file fd = some x ∧ k.ctl op fd events ptr = (none, k') ∧ k'.table = k.table ∧
      ∀ fd' x', k'.stored fd' x' =
        if fd' = fd ∧ x' = x then if op = .EPOLL_CTL_DEL then none else some (ptr, true)
        else k.stored fd' x' := by
  unfold ctl
  cases hfile : k.file fd with
  | none => exact Or.inl ⟨.EBADF, rfl, fun _ hx => absurd hx (by simp)⟩
  | some x =>
      -- what a failed search means
      have hnone : k.find fd x = none → ∀ y, some x = some y → k.stored fd y = none := by
        intro hfind y hy
        obtain rfl := Option.some.inj hy
        unfold stored
        rw [hfind]
        rfl
      cases hfind : k.find fd x with
      | none =>
          have hdrop : k.drop fd x = k.entries := by
            apply List.filter_eq_self.mpr
            intro e he
            have hne := List.find?_eq_none.mp hfind e he
            simp only [Bool.not_eq_true] at hne
            rw [hne]
            rfl
          cases op with simp only [hfind]
          | EPOLL_CTL_ADD =>
              refine Or.inr ⟨x, _, rfl, rfl, rfl, ?_⟩
              intro fd' x'
              rw [← hdrop, stored_put k.table k ⟨fd, x, events, ptr, true⟩]
              simp
          | EPOLL_CTL_MOD => exact Or.inl ⟨.ENOENT, rfl, fun y hy h => absurd h (by simp)⟩
          | EPOLL_CTL_DEL => exact Or.inl ⟨.ENOENT, rfl, fun y hy _ => hnone hfind y hy⟩
      | some e =>
          cases op with simp only [hfind]
          | EPOLL_CTL_ADD => exact Or.inl ⟨.EEXIST, rfl, fun y hy h => absurd h (by simp)⟩
          | EPOLL_CTL_MOD =>
              refine Or.inr ⟨x, _, rfl, rfl, rfl, ?_⟩
              intro fd' x'
              rw [stored_put k.table k ⟨fd, x, events, ptr, true⟩]
              simp
          | EPOLL_CTL_DEL =>
              refine Or.inr ⟨x, _, rfl, rfl, rfl, ?_⟩
              intro fd' x'
              rw [stored_drop]
              simp

/-- What a poll does to the entries. -/
structure Reported (k k' : Epoll) (evs : List Event) : Prop where
  table : k'.table = k.table
  armed : ∀ {fd : Int} {x : Nat} {p : Option Nat}, k'.stored fd x = some (p, true) →
    k.stored fd x = some (p, true)
  disarmed : ∀ {fd : Int} {x : Nat} {p : Option Nat}, k.stored fd x = some (p, false) →
    k'.stored fd x = some (p, false)
  event : ∀ e ∈ evs, ∃ x, k.stored e.fd x = some (e.data, true) ∧
    k'.stored e.fd x = some (e.data, false)

theorem report_spec {keys : List (Int × Nat)} {k k' : Epoll} {evs : List Event}
    (h : k.report keys = some (evs, k')) : Reported k k' evs := by
  induction keys generalizing k evs with
  | nil =>
      obtain ⟨rfl, rfl⟩ := Prod.mk.inj (Option.some.inj h)
      exact ⟨rfl, fun hp => hp, fun hp => hp, fun _ he => absurd he List.not_mem_nil⟩
  | cons key keys ih =>
      obtain ⟨fd, x⟩ := key
      unfold report at h
      cases hfind : k.find fd x with
      | none => simp [hfind] at h
      | some e =>
          cases harmed : e.armed with
          | false => simp [hfind, harmed] at h
          | true =>
              simp only [hfind, harmed, if_true] at h
              obtain ⟨⟨evs₁, k₁⟩, hrest, heq⟩ := Option.map_eq_some_iff.mp h
              obtain ⟨rfl, rfl⟩ := Prod.mk.inj heq
              have hkey := List.find?_some hfind
              simp only [Bool.and_eq_true, beq_iff_eq] at hkey
              obtain ⟨rfl, rfl⟩ := hkey
              have hold : k.stored e.fd e.file = some (e.ptr, true) := by
                unfold stored
                rw [hfind, ← harmed]
                rfl
              -- the entry is disarmed before the rest is reported
              have hput := fun fd x =>
                stored_put k.table k { e with armed := false } fd x
              obtain ⟨htable, hback, hoff, hev⟩ := ih hrest
              refine ⟨htable, ?_, ?_, ?_⟩
              · intro fd x p hp
                have hp := hback hp
                rw [hput] at hp
                split_ifs at hp with hsame
                · simp at hp
                · exact hp
              · intro fd x p hp
                apply hoff
                rw [hput]
                split_ifs with hsame
                · rw [hsame.1, hsame.2, hold] at hp
                  simp at hp
                · exact hp
              · intro e' he'
                rcases List.mem_cons.mp he' with rfl | he'
                · refine ⟨e.file, hold, hoff ?_⟩
                  rw [hput, if_pos ⟨rfl, rfl⟩]
                · obtain ⟨y, hy, hy'⟩ := hev e' he'
                  refine ⟨y, ?_, hy'⟩
                  rw [hput] at hy
                  split_ifs at hy with hsame
                  · simp at hy
                  · exact hy

theorem lookup_filter (l : List (Int × Nat)) (fd fd' : Int) :
    (l.filter fun p => decide (p.1 ≠ fd)).lookup fd' = if fd' = fd then none else l.lookup fd' := by
  induction l with
  | nil => simp
  | cons p l ih => grind

theorem close_spec (fd : Int) (k : Epoll) :
    (k.close fd).2.file = Function.update k.file fd none ∧
      ∀ {fd' : Int} {x : Nat} {p : Option Nat × Bool}, (k.close fd).2.stored fd' x = some p →
        k.stored fd' x = some p := by
  unfold close
  cases hfile : k.file fd with
  | none =>
      refine ⟨?_, fun hp => hp⟩
      show k.file = _
      rw [← hfile, Function.update_eq_self]
  | some y =>
      constructor
      · funext fd'
        show List.lookup fd' (k.table.filter _) = _
        rw [lookup_filter]
        by_cases h : fd' = fd
        · rw [if_pos h, h, Function.update_self]
        · rw [if_neg h, Function.update_of_ne h]
          rfl
      · intro fd' x p hp
        dsimp only at hp
        split_ifs at hp
        · exact hp
        · -- the last close drops the entries of the file
          unfold stored find at hp ⊢
          rw [List.find?_filter] at hp
          obtain ⟨e, he, rfl⟩ := Option.map_eq_some_iff.mp hp
          have hkey : e.file ≠ y ∧ e.fd = fd' ∧ e.file = x := by
            have hfound := List.find?_some he
            simpa using hfound
          have hsame : (fun e : Entry => e.fd == fd' && e.file == x) =
              fun e => decide (decide (e.file ≠ y) = true ∧ (e.fd == fd' && e.file == x) = true) := by
            funext e'
            grind
          rw [hsame, he]
          rfl

end Epoll

theorem epoll_waited {d : Choice} {t : Int} {k k' : Epoll} {res : Except Errno (List Event)}
    (h : epoll.epoll_wait d t k = some (res, k')) : ∃ evs, Epoll.Reported k k' evs ∧
      ∀ evs', res = .ok evs' → ∀ e ∈ evs', ∀ f, e.data = some f → e ∈ evs := by
  cases d with
  | report keys ctl =>
      obtain ⟨⟨evs, k₁⟩, hrep, heq⟩ := Option.map_eq_some_iff.mp h
      obtain ⟨rfl, rfl⟩ := Prod.mk.inj heq
      refine ⟨evs, Epoll.report_spec hrep, ?_⟩
      intro evs' hevs e he f hf
      obtain rfl := Except.ok.inj hevs
      cases ctl with
      | false => exact he
      | true =>
          -- the eventfd's event has no pointer
          rcases List.mem_cons.mp he with rfl | he
          · exact absurd hf (by simp)
          · exact he
  | fail e =>
      obtain ⟨rfl, rfl⟩ := Prod.mk.inj (Option.some.inj h)
      exact ⟨[], ⟨rfl, fun hp => hp, fun hp => hp, fun _ he => absurd he List.not_mem_nil⟩,
        fun _ hevs => absurd hevs (by simp)⟩
  | «open» fd x => exact absurd h (by simp [epoll])

/-- Only a number that is not in use is opened. -/
theorem epoll_other {d : Choice} {k k' : Epoll} (h : epoll.other d k = some k') :
    k'.entries = k.entries ∧ ∀ fd x, k.file fd = some x → k'.file fd = some x := by
  cases d with
  | «open» fd x =>
      simp only [epoll] at h
      split_ifs at h with hfree
      obtain rfl := Option.some.inj h
      refine ⟨rfl, ?_⟩
      intro fd' y hy
      have hne : fd' ≠ fd := by
        rintro rfl
        rw [hy] at hfree
        exact absurd hfree (by simp)
      show List.lookup fd' ((fd, x) :: k.table) = _
      rw [List.lookup_cons, beq_false_of_ne hne]
      exact hy
  | report keys ctl => exact absurd h (by simp [epoll])
  | fail e => exact absurd h (by simp [epoll])

/-- **The example environment keeps the law.** -/
theorem epoll_law : EpollLaw epoll Epoll.file Epoll.stored where
  ctl_file op fd events p k := by
    have hspec := k.ctl_spec op fd events p
    rcases hspec with ⟨e, he, -⟩ | ⟨x, k', -, he, htable, -⟩
    · show (k.ctl op fd events p).2.file = _
      rw [he]
    · funext fd'
      show ((Epoll.ctl op fd events p k).2.table.lookup fd') = _
      rw [he, htable]
      rfl
  ctl_apart := by
    intro op fd fd' events p k y hap
    rcases k.ctl_spec op fd events p with ⟨e, he, -⟩ | ⟨x, k', hx, he, -, hstored⟩
    · show (Epoll.ctl op fd events p k).2.stored fd' y = _
      rw [he]
    · show (Epoll.ctl op fd events p k).2.stored fd' y = _
      rw [he, hstored, if_neg]
      rintro ⟨rfl, rfl⟩
      rcases hap with h | h
      · exact h rfl
      · exact h hx
  ctl_fail := by
    intro op fd events p k hfail
    show (Epoll.ctl op fd events p k).2.stored = _
    rcases k.ctl_spec op fd events p with ⟨e, he, -⟩ | ⟨x, k', -, he, -⟩
    · rw [he]
    · have hnone : (Epoll.ctl op fd events p k).1 = none := by rw [he]
      exact absurd hnone hfail
  ctl_arm := by
    intro op fd events p k y hop hdone hy
    show (Epoll.ctl op fd events p k).2.stored fd y = _
    rcases k.ctl_spec op fd events p with ⟨e, he, -⟩ | ⟨x, k', hx, he, -, hstored⟩
    · have hsome : (Epoll.ctl op fd events p k).1 = some e := by rw [he]
      exact absurd (hsome.symm.trans hdone) (by simp)
    · rw [hx] at hy
      rw [he, hstored, if_pos ⟨rfl, (Option.some.inj hy).symm⟩, if_neg hop]
  del := by
    intro fd events p k y hy
    show (Epoll.ctl .EPOLL_CTL_DEL fd events p k).2.stored fd y = _
    rcases k.ctl_spec .EPOLL_CTL_DEL fd events p with ⟨e, he, hnone⟩ | ⟨x, k', hx, he, -, hstored⟩
    · rw [he]
      exact hnone y hy rfl
    · rw [hx] at hy
      rw [he, hstored, if_pos ⟨rfl, (Option.some.inj hy).symm⟩, if_pos rfl]
  wait_file := by
    intro d t k k' res h
    obtain ⟨evs, hrep, -⟩ := epoll_waited h
    unfold Epoll.file
    rw [hrep.table]
  wait_entry := by
    intro d t k k' res fd x p h hp
    obtain ⟨evs, hrep, -⟩ := epoll_waited h
    exact hrep.armed hp
  wait_event := by
    intro d t k k' evs e f h he hf
    obtain ⟨evs', hrep, hmem⟩ := epoll_waited h
    obtain ⟨x, hx, hx'⟩ := hrep.event e (hmem evs rfl e he f hf)
    rw [hf] at hx hx'
    exact ⟨x, hx, hx'⟩
  close_file fd k := (k.close_spec fd).1
  close_entry := fun {fd _ k _ _} h => (k.close_spec fd).2 h
  other_entry := by
    intro d k k' fd x p h hp
    unfold Epoll.stored Epoll.find at hp ⊢
    rwa [(epoll_other h).1] at hp
  other_file := fun h _ hx => (epoll_other h).2 _ _ hx

theorem epoll_unarmed {r : Reactor lp64 (Nat × List Region) (Nat × Nat) Epoll}
    (h : start = some r) (fd : Int) (x : Nat) (p : Option Nat) :
    r.epoll.stored fd x ≠ some (p, true) := by
  have hentries : r.epoll.entries = [] := by
    unfold start cfiber_reactor_create at h
    split at h
    · exact absurd h (by simp)
    · obtain rfl := Option.some.inj h
      rfl
  unfold Epoll.stored Epoll.find
  rw [hentries]
  simp

/-- A fiber waits on `3`, where another is refused and waits on `4`; then `3` is reported. -/
def two_waits : List (Action Choice) :=
  [.spawn, .spawn, .run, .turn, .turn, .wait 3 EPOLLIN (-1), .turn, .turn, .wait 3 EPOLLIN 0,
    .wait 4 EPOLLIN (-1), .turn, .turn, .poll (.report [(3, 30)] false)]

theorem descriptor_ownership_epoll : ∃ r S, start = some r ∧
    exec (step bumpLibc roomyStacks epoll) (boot r) two_waits = some S ∧ pending S.pc ≠ [] ∧
    ∀ e ∈ pending S.pc, ∀ f, e.data = some f →
      S.r.mem.state f = .FB_READY ∨ Waiting S.r f e.fd := by
  have hsome : (((runs two_waits).map fun S => pending S.pc).filter fun evs => evs ≠ []).isSome := by
    decide +kernel
  obtain ⟨evs, hevs⟩ := Option.isSome_iff_exists.mp hsome
  obtain ⟨hmap, hne⟩ := Option.filter_eq_some_iff.mp hevs
  obtain ⟨S, hS, rfl⟩ := Option.map_eq_some_iff.mp hmap
  obtain ⟨r, hr, hrun⟩ := runs_some hS
  have hlaw := descriptor_ownership bumpLibc_ok epoll_law (start_fresh hr) (epoll_unarmed hr) hrun
  exact ⟨r, S, hr, hrun, by simpa using hne, hlaw.2.2.2.2⟩

end CFiber.Ev
