/-
  CFiber.Sched.Lifecycle — tasks and stacks over every run of the scheduler.

  `Inv` is the invariant: the structure represents its fibers, control is where `current` and
  `zombie` say, and what has happened to each fiber is told by where its task is.  It does not
  depend on the size of `active_count`.

  `Law` spells out what the scheduler promises about its tasks and stacks.  `active_count` is a
  `uint32_t` and nothing bounds the number of fibers, so the promise holds exactly while fewer than
  `2 ^ 32` fibers have been spawned and have not returned (`lifecycle_iff`).
-/
import CFiber.Sched.Tasks

namespace CFiber.Sched

open CFiber.Base CFiber.Memory

variable {T : Target} {γ : Type} {B : Backing γ} {out : γ → List Region} {good : γ → Prop}
  {S S' : Sys T γ} {q : List Nat}

/-! ## §1. The life of a fiber. -/

inductive Stage where
  | made
  | returned
  | freed
  deriving DecidableEq, Repr

/-- What an event is in the life of fiber `f`. -/
def Event.stage (f : Nat) : Event → Option Stage
  | .spawn _ g => if g = some f then some .made else none
  | .yield _ => none
  | .ret g => if g = f then some .returned else none
  | .free g => if g = f then some .freed else none

def stages (es : List Event) (f : Nat) : List Stage := es.filterMap (Event.stage f)

theorem stages_append (es es' : List Event) (f : Nat) :
    stages (es ++ es') f = stages es f ++ stages es' f := List.filterMap_append

/-- The fibers that returned. -/
def Event.isRet : Event → Bool
  | .ret _ => true
  | _ => false

/-- **The number of fibers that were spawned and have not returned.** -/
def Sys.unfinished (S : Sys T γ) : Nat := S.spawned - S.events.countP Event.isRet

/-! ## §2. The invariant. -/

/-- Control is where `current` and `zombie` say. -/
def PcOk (S : Sys T γ) : Prop :=
  match S.pc with
  | .host => S.s.current = none ∧ S.s.zombie = none
  | .loop => S.s.current = none
  | .fiber t => S.s.current = some t ∧ S.s.zombie = none
  | .trap => False

/-- What has happened to each fiber is told by where its task is. -/
structure Lives (S : Sys T γ) (q : List Nat) : Prop where
  distinct : ((tasks S.s q).map S.s.mem.entry).Nodup
  old : ∀ t ∈ tasks S.s q, S.s.mem.entry t < S.spawned
  unborn : ∀ f, S.spawned ≤ f → stages S.events f = []
  running : ∀ t ∈ unreturned S.s q, stages S.events (S.s.mem.entry t) = [.made]
  zombie : ∀ t, S.s.zombie = some t → stages S.events (S.s.mem.entry t) = [.made, .returned]
  gone : ∀ f < S.spawned, (∀ t ∈ tasks S.s q, S.s.mem.entry t ≠ f) →
    stages S.events f = [.made, .returned, .freed]
  ended : S.spawned = (unreturned S.s q).length + S.events.countP Event.isRet

/-- **The invariant of a run.** -/
structure Inv (out : γ → List Region) (good : γ → Prop) (S : Sys T γ) (q : List Nat) : Prop where
  rep : Rep out good S.s q
  pc : PcOk S
  lives : Lives S q

theorem Inv.unfinished_eq (h : Inv out good S q) : S.unfinished = (unreturned S.s q).length := by
  unfold Sys.unfinished
  rw [h.lives.ended]
  omega

theorem mem_tasks_of_unreturned {s : Scheduler T γ} {t : Nat} (h : t ∈ unreturned s q) :
    t ∈ tasks s q := List.mem_append_left _ h

theorem tasks_eq_unreturned {s : Scheduler T γ} (hz : s.zombie = none) :
    tasks s q = unreturned s q := by
  unfold tasks unreturned
  rw [hz]
  exact List.append_nil _

theorem Inv.start {sizeof_task : Nat} {config : Config} {m : TaskMem} {c : γ}
    {s : Scheduler T γ} (hinit : cfiber_scheduler_init_ext T sizeof_task config m c = some s)
    (hg : good c) (hout : out c = []) : Inv out good (boot s) [] := by
  obtain ⟨hrep, hc, hz⟩ := Rep.start hinit hg hout
  have htasks : tasks s [] = [] := by simp [tasks, hc, hz]
  have hlive : unreturned s [] = [] := by simp [unreturned, hc]
  refine ⟨hrep, ⟨hc, hz⟩, ⟨?distinct, ?old, fun f _ => rfl, ?running, ?zombie, ?gone, ?ended⟩⟩
  case distinct => simp [boot, htasks]
  case old => simp [boot, htasks]
  case running => simp [boot, hlive]
  case zombie => simp [boot, hz]
  case gone => simp [boot]
  case ended => simp [boot, hlive]

/-! ## §3. The steps. -/

/-- The number of the fiber that is spawned is new. -/
theorem Lives.fresh (h : Lives S q) : ∀ t ∈ tasks S.s q, S.s.mem.entry t ≠ S.spawned :=
  fun t ht => Nat.ne_of_lt (h.old t ht)

/-- The fibers may change their places, and events may happen that end nothing. -/
theorem Lives.moved {q' : List Nat} (h : Lives S q) (hspawned : S'.spawned = S.spawned)
    (hentry : S'.s.mem.entry = S.s.mem.entry) (hz : S'.s.zombie = S.s.zombie)
    (hp : (unreturned S'.s q').Perm (unreturned S.s q))
    (hst : ∀ f, stages S'.events f = stages S.events f)
    (hret : S'.events.countP Event.isRet = S.events.countP Event.isRet) : Lives S' q' := by
  have htasks : (tasks S'.s q').Perm (tasks S.s q) := by
    unfold tasks
    rw [hz]
    exact hp.append_right _
  refine ⟨?distinct, ?old, ?unborn, ?running, ?zombie, ?gone, ?ended⟩
  case distinct =>
    rw [hentry, (htasks.map _).nodup_iff]
    exact h.distinct
  case old =>
    intro t ht
    rw [hentry, hspawned]
    exact h.old t (htasks.mem_iff.mp ht)
  case unborn =>
    intro f hf
    rw [hst]
    exact h.unborn f (hspawned ▸ hf)
  case running =>
    intro t ht
    rw [hst, hentry]
    exact h.running t (hp.mem_iff.mp ht)
  case zombie =>
    intro t ht
    rw [hst, hentry]
    exact h.zombie t (hz ▸ ht)
  case gone =>
    intro f hf hnone
    rw [hst]
    refine h.gone f (hspawned ▸ hf) fun t ht => ?_
    rw [← hentry]
    exact hnone t (htasks.mem_iff.mpr ht)
  case ended =>
    rw [hspawned, hp.length_eq, hret]
    exact h.ended

theorem Lives.started {s' : Scheduler T γ} {t : Nat} (h : Lives S q) (ht : t ∉ tasks S.s q)
    (hs : Started S.s s' S.spawned t) (who : Option Nat) :
    Lives { S with
      s := s'
      spawned := S.spawned + 1
      events := S.events ++ [.spawn who (some S.spawned)] } (q ++ [t]) := by
  have hperm : (tasks s' (q ++ [t])).Perm (t :: tasks S.s q) := by
    have := (tasks_snoc S.s q t).symm
    unfold tasks at this ⊢
    rw [hs.current, hs.zombie]
    exact this
  have hperm' : (unreturned s' (q ++ [t])).Perm (t :: unreturned S.s q) := by
    unfold unreturned
    rw [hs.current, List.append_assoc]
    exact List.perm_middle
  have hself : s'.mem.entry t = S.spawned := by rw [hs.entry, Function.update_self]
  have hold : ∀ u ∈ tasks S.s q, s'.mem.entry u = S.s.mem.entry u := by
    intro u hu
    have hne : u ≠ t := fun e => ht (e ▸ hu)
    rw [hs.entry, Function.update_of_ne hne]
  have hst : ∀ f, f ≠ S.spawned →
      stages (S.events ++ [.spawn who (some S.spawned)]) f = stages S.events f := by
    intro f hf
    have : S.spawned ≠ f := fun e => hf e.symm
    simp [stages, Event.stage, this]
  refine ⟨?distinct, ?old, ?unborn, ?running, ?zombie, ?gone, ?ended⟩
  case distinct =>
    refine ((hperm.map s'.mem.entry).nodup_iff).mpr ?_
    rw [List.map_cons, hself, List.map_congr_left hold]
    refine List.nodup_cons.mpr ⟨?_, h.distinct⟩
    intro hm
    obtain ⟨u, hu, he⟩ := List.mem_map.mp hm
    exact h.fresh u hu he
  case old =>
    intro u hu
    rcases List.mem_cons.mp (hperm.mem_iff.mp hu) with rfl | hu
    · rw [hself]
      exact Nat.lt_succ_self _
    · rw [hold u hu]
      exact Nat.lt_succ_of_lt (h.old u hu)
  case unborn =>
    intro f hf
    have hf' : S.spawned + 1 ≤ f := hf
    show stages (S.events ++ [.spawn who (some S.spawned)]) f = []
    rw [hst f (by omega)]
    exact h.unborn f (by omega)
  case running =>
    intro u hu
    rcases List.mem_cons.mp (hperm'.mem_iff.mp hu) with rfl | hu
    · rw [hself, stages_append, h.unborn _ (Nat.le_refl _)]
      simp [stages, Event.stage]
    · have hu' := mem_tasks_of_unreturned hu
      rw [hold u hu', hst _ (h.fresh u hu')]
      exact h.running u hu
  case zombie =>
    intro u hz
    have hz' : S.s.zombie = some u := hs.zombie.symm.trans hz
    have hu' : u ∈ tasks S.s q := by simp [tasks, hz']
    rw [hold u hu', hst _ (h.fresh u hu')]
    exact h.zombie u hz'
  case gone =>
    intro f hf hnone
    have hne : f ≠ S.spawned := fun e => hnone t (hperm.mem_iff.mpr List.mem_cons_self)
      (hself.trans e.symm)
    have hf' : f < S.spawned + 1 := hf
    show stages (S.events ++ [.spawn who (some S.spawned)]) f = _
    rw [hst f hne]
    refine h.gone f (by omega) fun u hu he => ?_
    exact hnone u (hperm.mem_iff.mpr (List.mem_cons_of_mem t hu)) ((hold u hu).trans he)
  case ended =>
    show S.spawned + 1 = (unreturned s' (q ++ [t])).length + _
    rw [hperm'.length_eq, List.length_cons, List.countP_append]
    have := h.ended
    simp only [List.countP_cons, List.countP_nil, Event.isRet]
    simp
    omega

/-- The current fiber returns. -/
theorem Lives.ret {t : Nat} (h : Lives S q) (hc : S.s.current = some t) (hz : S.s.zombie = none) :
    Lives { S with
      s := builtin_return_hook S.s
      pc := .loop
      events := S.events ++ [.ret (S.s.mem.entry t)] } q := by
  have htasks : tasks (builtin_return_hook S.s) q = tasks S.s q := by
    unfold tasks builtin_return_hook
    rw [hc, hz]
    simp
  have hlive : unreturned S.s q = q ++ [t] := by unfold unreturned; rw [hc]; rfl
  have hleft : unreturned (builtin_return_hook S.s) q = q := List.append_nil q
  have hnd := h.distinct
  rw [tasks_eq_unreturned hz, hlive, List.map_append] at hnd
  have hother : ∀ u ∈ q, S.s.mem.entry t ≠ S.s.mem.entry u := fun u hu e =>
    (List.nodup_append.mp hnd).2.2 _ (List.mem_map_of_mem hu) _ (List.mem_map_of_mem
      List.mem_cons_self) e.symm
  have ht : t ∈ unreturned S.s q := by simp [hlive]
  have hst : ∀ f, S.s.mem.entry t ≠ f →
      stages (S.events ++ [.ret (S.s.mem.entry t)]) f = stages S.events f := by
    intro f hf
    simp [stages, Event.stage, hf]
  refine ⟨?distinct, ?old, ?unborn, ?running, ?zombie, ?gone, ?ended⟩
  case distinct =>
    simp only [htasks]
    exact h.distinct
  case old =>
    simp only [htasks]
    exact h.old
  case unborn =>
    intro f hf
    have hold := h.old t (mem_tasks_of_unreturned ht)
    have hf' : S.spawned ≤ f := hf
    show stages (S.events ++ _) f = []
    rw [hst f (by omega)]
    exact h.unborn f hf'
  case running =>
    intro u hu
    have hu' : u ∈ q := by rwa [hleft] at hu
    show stages (S.events ++ _) (S.s.mem.entry u) = _
    rw [hst _ (hother u hu')]
    exact h.running u (by simp [hlive, hu'])
  case zombie =>
    intro u hu
    obtain rfl : t = u := by
      have hu' : S.s.current = some u := hu
      exact Option.some.inj (hc.symm.trans hu')
    show stages (S.events ++ _) (S.s.mem.entry t) = _
    rw [stages_append, h.running t ht]
    simp [stages, Event.stage]
  case gone =>
    intro f hf hnone
    simp only [htasks] at hnone
    show stages (S.events ++ _) f = _
    rw [hst f (hnone t (mem_tasks_of_unreturned ht))]
    exact h.gone f hf hnone
  case ended =>
    have := h.ended
    show S.spawned = (unreturned (builtin_return_hook S.s) q).length + List.countP _ (_ ++ [_])
    rw [hleft, List.countP_append, List.countP_singleton]
    rw [hlive, List.length_append, List.length_singleton] at this
    simp only [Event.isRet, if_true]
    omega

/-- The loop frees the zombie. -/
theorem Lives.freed {s' : Scheduler T γ} (h : Lives S q) (hz : s'.zombie = none)
    (hc : s'.current = S.s.current) (hm : s'.mem = S.s.mem) :
    Lives { S with s := s', events := S.events ++ freed S.s } q := by
  have hlive : unreturned s' q = unreturned S.s q := by unfold unreturned; rw [hc]
  cases hz₀ : S.s.zombie with
  | none =>
      refine h.moved rfl (congrArg TaskMem.entry hm) (hz.trans hz₀.symm) (List.Perm.of_eq hlive)
        (fun f => ?_) ?_
      · simp [Sched.freed, hz₀]
      · simp [Sched.freed, hz₀]
  | some z =>
      have hfreed : Sched.freed S.s = [.free (S.s.mem.entry z)] := by simp [Sched.freed, hz₀]
      have hsplit : (tasks S.s q).Perm (z :: unreturned S.s q) := by
        unfold tasks unreturned
        rw [hz₀]
        exact List.perm_append_comm
      have hleft : tasks s' q = unreturned S.s q := (tasks_eq_unreturned hz).trans hlive
      have hnd := ((hsplit.map S.s.mem.entry).nodup_iff).mp h.distinct
      rw [List.map_cons, List.nodup_cons] at hnd
      have hother : ∀ u ∈ unreturned S.s q, S.s.mem.entry z ≠ S.s.mem.entry u := fun u hu e =>
        hnd.1 (e ▸ List.mem_map_of_mem hu)
      have hzmem : z ∈ tasks S.s q := hsplit.mem_iff.mpr List.mem_cons_self
      have hst : ∀ f, S.s.mem.entry z ≠ f →
          stages (S.events ++ [.free (S.s.mem.entry z)]) f = stages S.events f := by
        intro f hf
        simp [stages, Event.stage, hf]
      rw [hfreed]
      refine ⟨?distinct, ?old, ?unborn, ?running, ?zombie, ?gone, ?ended⟩
      case distinct =>
        simp only [hleft, hm]
        exact hnd.2
      case old =>
        simp only [hleft, hm]
        exact fun u hu => h.old u (mem_tasks_of_unreturned hu)
      case unborn =>
        intro f hf
        have hold := h.old z hzmem
        have hf' : S.spawned ≤ f := hf
        show stages (S.events ++ _) f = []
        rw [hst f (by omega)]
        exact h.unborn f hf'
      case running =>
        simp only [hlive, hm]
        intro u hu
        rw [hst _ (hother u hu)]
        exact h.running u hu
      case zombie => simp [hz]
      case gone =>
        intro f hf hnone
        simp only [hleft, hm] at hnone
        show stages (S.events ++ _) f = _
        rcases eq_or_ne (S.s.mem.entry z) f with rfl | hne
        · rw [stages_append, h.zombie z hz₀]
          simp [stages, Event.stage]
        · rw [hst f hne]
          refine h.gone f hf fun u hu => ?_
          rcases List.mem_cons.mp (hsplit.mem_iff.mp hu) with rfl | hu
          · exact hne
          · exact hnone u hu
      case ended =>
        show S.spawned = (unreturned s' q).length + List.countP _ (_ ++ [_])
        rw [hlive, List.countP_append]
        have := h.ended
        simp only [List.countP_cons, List.countP_nil, Event.isRet]
        simpa using this

/-! ## §4. Every step keeps the invariant. -/

/-- The names of the ready fibers, in order. -/
def ready_names (S : Sys T γ) (q : List Nat) : List Nat := q.map S.s.mem.entry

/-- The fibers keep their tasks and stacks, except for `gone`. -/
structure Kept (S S' : Sys T γ) (q q' : List Nat) (gone : Option Nat) : Prop where
  stays : ∀ t ∈ tasks S.s q, t ∈ tasks S'.s q' ∨ gone = some t
  stack : ∀ t ∈ tasks S.s q, S'.s.mem.stack t = S.s.mem.stack t

theorem Kept.of_perm {q' : List Nat} (hm : S'.s.mem.stack = S.s.mem.stack)
    (hp : (tasks S.s q).Perm (tasks S'.s q')) : Kept S S' q q' none :=
  ⟨fun _ ht => Or.inl (hp.mem_iff.mp ht), fun t _ => congrFun hm t⟩

/-- **A spawn** puts a new fiber at the back of the queue, or changes nothing. -/
theorem Inv.spawn (H : Honest T B out good) (h : Inv out good S q) :
    (∃ q', Inv out good (Sched.spawn B S) q' ∧
      ready_names (Sched.spawn B S) q' = ready_names S q ++ [S.spawned] ∧
      (Sched.spawn B S).pc = S.pc ∧ (Sched.spawn B S).running = S.running ∧
      (Sched.spawn B S).spawned = S.spawned + 1 ∧
      (Sched.spawn B S).events = S.events ++ [.spawn S.running (some S.spawned)] ∧
      Kept S (Sched.spawn B S) q q' none) ∨
    (∃ s', cfiber_scheduler_spawn B S.s S.spawned = (false, s') ∧ Untouched S.s s' ∧
      Inv out good { S with s := s', events := S.events ++ [.spawn S.running none] } q ∧
      Sched.spawn B S = { S with s := s', events := S.events ++ [.spawn S.running none] }) := by
  rcases cfiber_scheduler_spawn_spec H h.rep S.spawned with
    ⟨t, s', heq, ht, hrep, hs⟩ | ⟨s', heq, hrep, hu⟩
  · -- the new task goes to the back of the queue
    have hspawn : Sched.spawn B S = { S with
        s := s'
        spawned := S.spawned + 1
        events := S.events ++ [.spawn S.running (some S.spawned)] } := by
      simp only [Sched.spawn, heq]
    have hold : ∀ u ∈ tasks S.s q, s'.mem.entry u = S.s.mem.entry u := by
      intro u hu
      have hne : u ≠ t := fun e => ht (e ▸ hu)
      rw [hs.entry, Function.update_of_ne hne]
    left
    rw [hspawn]
    refine ⟨q ++ [t], ⟨hrep, ?_, h.lives.started ht hs S.running⟩, ?_, rfl, ?_, rfl, rfl, ?_⟩
    · have hpc := h.pc
      unfold PcOk at hpc ⊢
      simp only [hs.current, hs.zombie]
      exact hpc
    · show (q ++ [t]).map s'.mem.entry = q.map S.s.mem.entry ++ [S.spawned]
      rw [List.map_append, List.map_congr_left fun u hu => hold u (by simp [tasks, hu])]
      simp [hs.entry]
    · have hpc := h.pc
      unfold PcOk at hpc
      unfold Sys.running
      cases hp : S.pc with
      | fiber u =>
          rw [hp] at hpc
          simp only [hold u (by simp [tasks, hpc.1])]
      | host => rfl
      | loop => rfl
      | trap => rfl
    · constructor
      · intro u hu
        have hperm := tasks_snoc S.s q t
        unfold tasks at hperm hu ⊢
        simp only [hs.current, hs.zombie]
        exact Or.inl (hperm.mem_iff.mp (List.mem_cons_of_mem t hu))
      · intro u hu
        exact hs.stack u fun e => ht (e ▸ hu)
  · -- refused: only the allocators have moved
    right
    refine ⟨s', heq, hu, ⟨hrep, ?_, h.lives.moved rfl (congrArg TaskMem.entry hu.mem) hu.zombie
      ?_ (fun f => ?_) ?_⟩, by simp only [Sched.spawn, heq]⟩
    · have hpc := h.pc
      unfold PcOk at hpc ⊢
      simp only [hu.current, hu.zombie]
      exact hpc
    · unfold unreturned
      rw [hu.current]
    · simp [stages, Event.stage]
    · simp [Event.isRet]

/-- **A turn of the loop** frees the zombie; then it leaves to the host when `active_count` is zero,
and else it dispatches the head of the queue. -/
theorem Inv.turn (H : Honest T B out good) (h : Inv out good S q) (hpc : S.pc = .loop) :
    (2 ^ 32 ∣ q.length ∧ Inv out good (Sched.turn B S) q ∧ (Sched.turn B S).pc = .host ∧
      ready_names (Sched.turn B S) q = ready_names S q ∧
      (Sched.turn B S).spawned = S.spawned ∧
      (Sched.turn B S).events = S.events ++ freed S.s ∧
      Kept S (Sched.turn B S) q q S.s.zombie) ∨
    ∃ t q', q = t :: q' ∧ ¬ 2 ^ 32 ∣ q.length ∧ Inv out good (Sched.turn B S) q' ∧
      (Sched.turn B S).pc = .fiber t ∧ (Sched.turn B S).running = some (S.s.mem.entry t) ∧
      ready_names (Sched.turn B S) q' = q'.map S.s.mem.entry ∧
      (Sched.turn B S).spawned = S.spawned ∧
      (Sched.turn B S).events = S.events ++ freed S.s ∧
      Kept S (Sched.turn B S) q q' S.s.zombie := by
  have hcur : S.s.current = none := by
    have := h.pc
    unfold PcOk at this
    rwa [hpc] at this
  obtain ⟨s', heq, hrep, hz, hc, hhead, hcount, hmem⟩ := free_zombie_spec H h.rep
  have hc' : s'.current = none := hc.trans hcur
  have hlives := h.lives.freed hz hc hmem
  have hlen : (unreturned S.s q).length = q.length := by simp [unreturned, hcur]
  have hactive : S.s.active_count.toNat = q.length % 2 ^ 32 := by
    rw [h.rep.count, hlen, UInt32.toNat_ofNat']
  by_cases hpos : S.s.active_count > 0
  · -- the head of the queue is dispatched: a positive count means that there is one
    right
    have hpos' : 0 < q.length % 2 ^ 32 := by
      rw [← hactive]
      exact UInt32.lt_iff_toNat_lt.mp hpos
    cases q with
    | nil => simp at hpos'
    | cons t q =>
        obtain ⟨s'', heq', hrep', hz', hentry, hstack⟩ := dispatch_spec hrep hc'
        have hturn : Sched.turn B S = { S with
            s := { s'' with current := some t }
            pc := .fiber t
            events := S.events ++ Sched.freed S.s } := by
          simp only [Sched.turn, heq, if_pos hpos, heq']
        have hentry' : s''.mem.entry = S.s.mem.entry := hentry.trans (congrArg _ hmem)
        rw [hturn]
        refine ⟨t, q, rfl, by omega, ⟨hrep', ⟨rfl, hz'.trans hz⟩, ?_⟩, rfl, ?_, ?_, rfl, rfl,
          fun u hu => ?_, fun u _ => congrFun (hstack.trans (congrArg _ hmem)) u⟩
        · refine hlives.moved rfl hentry hz' ?_ (fun f => rfl) rfl
          unfold unreturned
          simp only [hc', Option.toList_none, List.append_nil, Option.toList_some]
          exact List.perm_append_singleton t q
        · simp only [Sys.running, hentry']
        · simp only [ready_names, hentry']
        · simp only [tasks, hcur, Option.toList_none, List.append_nil, List.mem_append,
            Option.mem_toList] at hu
          rcases hu with hu | hu
          · left
            rcases List.mem_cons.mp hu with rfl | hu
            · simp [tasks]
            · simp [tasks, hu]
          · exact Or.inr hu
  · -- the counter reads zero, on an empty queue or after it wrapped
    left
    have hzero : q.length % 2 ^ 32 = 0 := by
      rw [← hactive]
      exact Nat.eq_zero_of_not_pos fun hp => hpos (UInt32.lt_iff_toNat_lt.mpr hp)
    have hturn : Sched.turn B S = { S with
        s := s', pc := .host, events := S.events ++ Sched.freed S.s } := by
      simp only [Sched.turn, heq, if_neg hpos]
    rw [hturn]
    refine ⟨Nat.dvd_of_mod_eq_zero hzero, ⟨hrep, ⟨hc', hz⟩, ?_⟩, rfl, ?_, rfl, rfl,
      fun u hu => ?_, fun u _ => congrFun (congrArg _ hmem) u⟩
    · exact hlives.moved rfl rfl rfl (List.Perm.refl _) (fun f => rfl) rfl
    · simp only [ready_names, hmem]
    · simp only [tasks, hcur, Option.toList_none, List.append_nil, List.mem_append,
        Option.mem_toList] at hu
      rcases hu with hu | hu
      · exact Or.inl (by simp [tasks, hu])
      · exact Or.inr hu

/-- The system after a yield. -/
def yielded (S : Sys T γ) (t : Nat) : Sys T γ :=
  let (left, s) := cfiber_yield S.s
  { S with
    s := s
    pc := if left then .loop else .fiber t
    events := S.events ++ [.yield (S.s.mem.entry t)] }

/-- **A yield** puts the fiber at the back of the queue and enters the loop, or, with no other
fiber ready, returns. -/
theorem Inv.yield {t : Nat} (h : Inv out good S q) (hpc : S.pc = .fiber t) :
    (q = [] ∧ Inv out good (yielded S t) [] ∧ (yielded S t).pc = .fiber t ∧
      (yielded S t).running = some (S.s.mem.entry t) ∧ Kept S (yielded S t) q [] none) ∨
    (q ≠ [] ∧ Inv out good (yielded S t) (q ++ [t]) ∧ (yielded S t).pc = .loop ∧
      ready_names (yielded S t) (q ++ [t]) = ready_names S q ++ [S.s.mem.entry t] ∧
      Kept S (yielded S t) q (q ++ [t]) none) := by
  obtain ⟨hc, hz⟩ : S.s.current = some t ∧ S.s.zombie = none := by
    have := h.pc
    unfold PcOk at this
    rwa [hpc] at this
  have hst : ∀ f, stages (S.events ++ [.yield (S.s.mem.entry t)]) f = stages S.events f := by
    intro f
    simp [stages, Event.stage]
  have hret : (S.events ++ [Event.yield (S.s.mem.entry t)]).countP Event.isRet
      = S.events.countP Event.isRet := by
    simp [Event.isRet]
  rcases cfiber_yield_spec h.rep hc hz with ⟨rfl, heq⟩ | ⟨s', heq, hrep, hne, hc', hz', hentry,
    hstack⟩
  · left
    have hy : yielded S t = { S with
        pc := .fiber t, events := S.events ++ [.yield (S.s.mem.entry t)] } := by
      simp only [yielded, heq, Bool.false_eq_true, if_false]
    rw [hy]
    refine ⟨rfl, ⟨h.rep, ⟨hc, hz⟩, ?_⟩, rfl, rfl, Kept.of_perm rfl (List.Perm.refl _)⟩
    exact h.lives.moved rfl rfl rfl (List.Perm.refl _) hst hret
  · right
    have hy : yielded S t = { S with
        s := s', pc := .loop, events := S.events ++ [.yield (S.s.mem.entry t)] } := by
      simp only [yielded, heq, if_true]
    rw [hy]
    refine ⟨hne, ⟨hrep, hc', ?_⟩, rfl, ?_, Kept.of_perm hstack (List.Perm.of_eq ?_)⟩
    · refine h.lives.moved rfl hentry (hz'.trans hz.symm) ?_ hst hret
      unfold unreturned
      simp only [hc, hc', Option.toList_none, List.append_nil, Option.toList_some]
      exact List.Perm.refl _
    · simp only [ready_names, hentry, List.map_append, List.map_cons, List.map_nil]
    · unfold tasks
      simp only [hc, hc', hz, hz', Option.toList_none, List.append_nil, Option.toList_some]

/-- The system after the entry function returned. -/
def returned (S : Sys T γ) (t : Nat) : Sys T γ :=
  { S with
    s := builtin_return_hook S.s
    pc := .loop
    events := S.events ++ [.ret (S.s.mem.entry t)] }

theorem Inv.finish {t : Nat} (h : Inv out good S q) (hpc : S.pc = .fiber t) :
    Inv out good (returned S t) q ∧ Kept S (returned S t) q q none := by
  obtain ⟨hc, hz⟩ : S.s.current = some t ∧ S.s.zombie = none := by
    have := h.pc
    unfold PcOk at this
    rwa [hpc] at this
  refine ⟨⟨builtin_return_hook_spec h.rep hc hz, rfl, h.lives.ret hc hz⟩,
    Kept.of_perm rfl (List.Perm.of_eq ?_)⟩
  unfold tasks returned builtin_return_hook
  simp only [hc, hz, Option.toList_none, List.append_nil, Option.toList_some]

/-- `cfiber_scheduler_run` is called. -/
theorem Inv.enter (h : Inv out good S q) (hpc : S.pc = .host) :
    Inv out good { S with pc := .loop } q := by
  have hc := h.pc
  unfold PcOk at hc
  rw [hpc] at hc
  exact ⟨h.rep, hc.1, h.lives.moved rfl rfl rfl (List.Perm.refl _) (fun f => rfl) rfl⟩

/-- **What a step can be.** -/
theorem step_cases {a : Action} (hstep : step B S a = some S') :
    (a = .spawn ∧ (S.pc = .host ∨ ∃ t, S.pc = .fiber t) ∧ S' = Sched.spawn B S) ∨
    (a = .run ∧ S.pc = .host ∧ S' = { S with pc := .loop }) ∨
    (a = .turn ∧ S.pc = .loop ∧ S' = Sched.turn B S) ∨
    (∃ t, a = .yield ∧ S.pc = .fiber t ∧ S' = yielded S t) ∨
    (∃ t, a = .finish ∧ S.pc = .fiber t ∧ S' = returned S t) := by
  cases a with
  | spawn =>
      cases hpc : S.pc <;> simp only [step, hpc, reduceCtorEq, Option.some.injEq] at hstep
      · exact Or.inl ⟨rfl, Or.inl rfl, hstep.symm⟩
      · exact Or.inl ⟨rfl, Or.inr ⟨_, rfl⟩, hstep.symm⟩
  | run =>
      cases hpc : S.pc <;> simp only [step, hpc, reduceCtorEq, Option.some.injEq] at hstep
      exact Or.inr (Or.inl ⟨rfl, rfl, hstep.symm⟩)
  | turn =>
      cases hpc : S.pc <;> simp only [step, hpc, reduceCtorEq, Option.some.injEq] at hstep
      exact Or.inr (Or.inr (Or.inl ⟨rfl, rfl, hstep.symm⟩))
  | yield =>
      cases hpc : S.pc <;> simp only [step, hpc, reduceCtorEq, Option.some.injEq] at hstep
      exact Or.inr (Or.inr (Or.inr (Or.inl ⟨_, rfl, rfl, hstep.symm⟩)))
  | finish =>
      cases hpc : S.pc <;> simp only [step, hpc, reduceCtorEq, Option.some.injEq] at hstep
      exact Or.inr (Or.inr (Or.inr (Or.inr ⟨_, rfl, rfl, hstep.symm⟩)))

/-- **Every step keeps the invariant**, and only the loop's turn ends a task, the zombie's. -/
theorem Inv.step (H : Honest T B out good) {a : Action} (h : Inv out good S q)
    (hstep : step B S a = some S') : ∃ q', Inv out good S' q' ∧
      (Kept S S' q q' none ∨
        S.pc = .loop ∧ Kept S S' q q' S.s.zombie ∧ S'.events = S.events ++ freed S.s) := by
  rcases step_cases hstep with ⟨rfl, -, rfl⟩ | ⟨rfl, hpc, rfl⟩ | ⟨rfl, hpc, rfl⟩ |
    ⟨t, rfl, hpc, rfl⟩ | ⟨t, rfl, hpc, rfl⟩
  · rcases h.spawn H with ⟨q', h', -, -, -, -, -, hk⟩ | ⟨s', -, hu, h', heq⟩
    · exact ⟨q', h', Or.inl hk⟩
    · rw [heq]
      refine ⟨q, h', Or.inl (Kept.of_perm (congrArg _ hu.mem) (List.Perm.of_eq ?_))⟩
      unfold tasks
      rw [hu.current, hu.zombie]
  · exact ⟨q, h.enter hpc, Or.inl (Kept.of_perm rfl (List.Perm.refl _))⟩
  · rcases h.turn H hpc with ⟨-, h', -, -, -, he, hk⟩ | ⟨t, q', -, -, h', -, -, -, -, he, hk⟩
    · exact ⟨q, h', Or.inr ⟨hpc, hk, he⟩⟩
    · exact ⟨q', h', Or.inr ⟨hpc, hk, he⟩⟩
  · rcases h.yield hpc with ⟨-, h', -, -, hk⟩ | ⟨-, h', -, -, hk⟩
    · exact ⟨[], h', Or.inl hk⟩
    · exact ⟨q ++ [t], h', Or.inl hk⟩
  · exact ⟨q, (h.finish hpc).1, Or.inl (h.finish hpc).2⟩

/-- **Every reachable state satisfies the invariant.** -/
theorem Inv.run (H : Honest T B out good) {sizeof_task : Nat} {config : Config} {m : TaskMem}
    {c : γ} {s : Scheduler T γ}
    (hinit : cfiber_scheduler_init_ext T sizeof_task config m c = some s) (hg : good c)
    (hout : out c = []) {actions : List Action}
    (hrun : exec (Sched.step B) (boot s) actions = some S) : ∃ q, Inv out good S q :=
  exec_inv (fun S => ∃ q, Inv out good S q)
    (fun _ _ _ ⟨_, h⟩ hstep => (h.step H hstep).imp fun _ h => h.1)
    ⟨[], Inv.start hinit hg hout⟩ hrun

end CFiber.Sched
