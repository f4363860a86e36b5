/-
  CFiber.Nest.Announced — AddressSanitizer knows which stack executes.

  A step of the thread is a sequence of a few moves (`Move`): a fiber is put back and its loop
  resumed, a zombie is reaped, a fiber is dispatched, a call is entered or left.  What holds of the
  records (`Counted`) and of AddressSanitizer (`Follows`) is shown for each move once.

    • `Traced.step_moves`       — the moves of a step on a properly nested stack; none is a trap;
    • `asan_follows`            — after every step AddressSanitizer takes the stack that executes to
      be current, and a fake stack in use is that stack's own, as long as no poll has failed and no
      loop has `2 ^ 31` unfinished fibers;
    • `stale_after_failed_poll` — after one a fiber can leave to the wrong stack's bounds.
-/
import CFiber.Nest.Sanitizers
import CFiber.Nest.Reentry
import Mathlib.Logic.Relation

namespace CFiber.Nest

open CFiber.Base Relation

/-! ## §1. What the records say. -/

/-- What a fiber's record becomes as fiber `f` leaves to the loop. -/
inductive Put (l : Loop) (f : Nat) (r : Record) : Record → Prop where
  | yields : Put l f r { r with ready := r.ready ++ [f], current := none }
  | parks {i : Nat} (hl : l = .reactor i) :
      Put l f r { r with parked := r.parked ++ [f], current := none }
  | returns : Put l f r { r with zombie := some f, current := none, active := r.active - 1 }

/-- The fibers that were spawned and have not returned. -/
def Record.unfinished (r : Record) : Nat :=
  r.ready.length + r.parked.length + r.current.toList.length

/-- A record in order. -/
structure Record.Tidy (l : Loop) (r : Record) : Prop where
  count : r.active = UInt32.ofNat r.unfinished
  nodup : r.fibers.Nodup
  /-- A zombie is reaped before the next fiber is dispatched. -/
  reaped : r.current ≠ none → r.zombie = none
  unparked : ∀ s, l = .sched s → r.parked = []

/-- **The records between steps.** -/
structure Counted (S : Thread) : Prop where
  tidy : ∀ l, (S.records l).Tidy l
  idle : ∀ l, l ∉ S.loops → (S.records l).current = none
  between : ∀ k, S.pc = .loop k → (S.records (S.frames k).loop).current = none
  callers : ∀ k ∈ S.chain, (S.frames k).caller = .host ∨ ∃ f, (S.frames k).caller = .fiber f

theorem Put.ctx {l : Loop} {f : Nat} {r r' : Record} (h : Put l f r r') : r'.ctx = r.ctx := by
  cases h <;> rfl

theorem Put.current {l : Loop} {f : Nat} {r r' : Record} (h : Put l f r r') :
    r'.current = none := by
  cases h <;> rfl

/-- The fibers are the same: `f` only changes its place. -/
theorem Put.perm {l : Loop} {f : Nat} {r r' : Record} (h : Put l f r r')
    (hcur : r.current = some f) (hz : r.zombie = none) : r'.fibers.Perm r.fibers := by
  cases h with
  | yields =>
      simp only [Record.fibers, hcur, hz, Option.toList, List.append_nil, List.append_assoc]
      exact List.Perm.append_left _ List.perm_append_comm
  | parks _ => simp [Record.fibers, hcur, hz]
  | returns => simp [Record.fibers, hcur, hz]

theorem Put.keeps {l : Loop} {f : Nat} {r r' : Record} (h : Put l f r r')
    (hcur : r.current = some f) (hz : r.zombie = none) : Keeps r r' :=
  ⟨h.ctx, fun _ hg => (h.perm hcur hz).mem_iff.mp hg⟩

theorem Put.tidy {l : Loop} {f : Nat} {r r' : Record} (h : Put l f r r') (hr : r.Tidy l)
    (hcur : r.current = some f) : r'.Tidy l := by
  have hz : r.zombie = none := hr.reaped (by simp [hcur])
  refine ⟨?_, (h.perm hcur hz).nodup_iff.mpr hr.nodup, fun hne => absurd h.current hne, ?_⟩
  · have hcount := hr.count
    cases h with
    | yields =>
        refine hcount.trans (congrArg UInt32.ofNat ?_)
        simp [Record.unfinished, hcur]
        omega
    | parks _ =>
        refine hcount.trans (congrArg UInt32.ofNat ?_)
        simp [Record.unfinished, hcur]
        omega
    | returns =>
        have hone : r.unfinished = r.ready.length + r.parked.length + 1 := by
          simp [Record.unfinished, hcur]
        rw [hcount, hone, UInt32.ofNat_add]
        exact UInt32.add_sub_cancel _ _
  · intro s hs
    cases h with
    | yields => exact hr.unparked s hs
    | parks hl => simp [hl] at hs
    | returns => exact hr.unparked s hs

theorem Record.Tidy.spawned {l : Loop} {r : Record} (hr : r.Tidy l) {f : Nat}
    (hf : f ∉ r.fibers) :
    Record.Tidy l { r with ready := r.ready ++ [f], active := r.active + 1 } where
  count := by
    have hone : Record.unfinished { r with ready := r.ready ++ [f], active := r.active + 1 } =
        r.unfinished + 1 := by
      simp only [Record.unfinished, List.length_append, List.length_singleton]
      omega
    rw [hone, UInt32.ofNat_add, ← hr.count]
    rfl
  nodup := by
    have hperm : ({ r with ready := r.ready ++ [f], active := r.active + 1 } : Record).fibers.Perm
        (f :: r.fibers) := by
      simp only [Record.fibers, List.append_assoc, List.singleton_append]
      exact List.perm_middle
    exact hperm.nodup_iff.mpr (List.nodup_cons.mpr ⟨hf, hr.nodup⟩)
  reaped := hr.reaped
  unparked := hr.unparked

theorem Record.Tidy.reap {l : Loop} {r : Record} (hr : r.Tidy l) :
    Record.Tidy l { r with zombie := none } where
  count := hr.count
  nodup := by
    have hsub : ({ r with zombie := none } : Record).fibers.Sublist r.fibers := by
      simp [Record.fibers]
    exact hr.nodup.sublist hsub
  reaped := fun _ => rfl
  unparked := hr.unparked

theorem Record.Tidy.resume {r : Record} {i : Nat} (hr : r.Tidy (.reactor i)) (w : Nat) :
    (Nest.resume r w).Tidy (.reactor i) := by
  unfold Nest.resume
  split
  case isFalse => exact hr
  case isTrue hw =>
    have herase := List.perm_cons_erase hw
    refine ⟨?_, ?_, hr.reaped, fun s hs => by simp at hs⟩
    · have hlen := herase.length_eq
      refine hr.count.trans (congrArg UInt32.ofNat ?_)
      simp only [Record.unfinished, List.length_append, List.length_cons, List.length_nil] at hlen ⊢
      omega
    · -- `w` moves from the parked fibers to the ready ones
      have hperm : ((r.ready ++ [w]) ++ r.parked.erase w).Perm (r.ready ++ r.parked) := by
        rw [List.append_assoc]
        exact List.Perm.append_left _ herase.symm
      exact ((hperm.append_right _).append_right _).nodup_iff.mpr hr.nodup

theorem Record.Tidy.resume_all {i : Nat} (ws : List Nat) : ∀ {r : Record},
    r.Tidy (.reactor i) → (ws.foldl Nest.resume r).Tidy (.reactor i) := by
  induction ws with
  | nil => exact fun hr => hr
  | cons w ws ih => exact fun hr => ih (hr.resume w)

theorem Record.Tidy.dispatch {l : Loop} {r : Record} (hr : r.Tidy l) {f : Nat} {rest : List Nat}
    (hready : r.ready = f :: rest) (hcur : r.current = none) (hz : r.zombie = none) (w : Where) :
    Record.Tidy l { r with ready := rest, current := some f, ctx := w } where
  count := by
    refine hr.count.trans (congrArg UInt32.ofNat ?_)
    simp only [Record.unfinished, hready, hcur, Option.toList, List.length_cons, List.length_nil]
    omega
  nodup := by
    have hnodup := hr.nodup
    simp only [Record.fibers, hready, hcur, hz, Option.toList, List.append_nil,
      List.cons_append] at hnodup ⊢
    exact (List.perm_append_singleton f _).nodup_iff.mpr hnodup
  reaped := fun _ => hz
  unparked := hr.unparked

/-- Where the counter reads zero no fiber is left, or it has wrapped. -/
theorem Record.Tidy.none_left {l : Loop} {r : Record} {failed : Prop} (hr : r.Tidy l)
    (hmany : 2 ^ 31 ≤ r.unfinished → failed) (h : r.active = 0) : r.unfinished = 0 ∨ failed := by
  rcases Nat.lt_or_ge r.unfinished (2 ^ 31) with hlt | hge
  · have hzero := congrArg UInt32.toNat (hr.count.symm.trans h)
    rw [UInt32.toNat_ofNat', Nat.mod_eq_of_lt (by omega)] at hzero
    exact .inl hzero
  · exact .inr (hmany hge)

/-- The same of an `int` that is not positive. -/
theorem Record.Tidy.none_left_int {l : Loop} {r : Record} {failed : Prop} (hr : r.Tidy l)
    (hmany : 2 ^ 31 ≤ r.unfinished → failed) (h : ¬ r.active.toInt32 > 0) :
    r.unfinished = 0 ∨ failed := by
  rcases Nat.lt_or_ge r.unfinished (2 ^ 31) with hlt | hge
  · rw [gt_iff_lt, Int32.lt_iff_toInt_lt, hr.count, UInt32.toInt32_ofNat',
      Int32.toInt_ofNat_of_lt hlt, Int32.toInt_zero] at h
    left
    omega
  · exact .inr (hmany hge)

/-! ## §2. The moves. -/

namespace Traced

/-- **What a step consists of.**  `failed` says that the loop may leave fibers behind. -/
inductive Move (B : Owner → Bounds) (failed : Prop) (X : Traced) : Traced → Prop where
  | fake_stack : Move B failed X
      { X with asan := { X.asan with runtime := { X.asan.runtime with
        fake := some (X.asan.runtime.fake.getD X.thread.stack_owner) } } }
  | spawn (l : Loop) (ok : Bool) : Move B failed X (X.spawn l ok)
  | refuse : Move B failed X (X.quiet { X.thread with errno := some .EBUSY, rc := -1 })
  | enter {l : Loop} (huser : UserCode X.thread) (hl : l ∉ X.thread.loops) :
      Move B failed X (X.enter l)
  | out {k f : Nat} {ks : List Nat} {l : Loop} {finishing : Bool} {change : Record → Record}
      (hl : (X.thread.frames k).loop = l) (hpc : X.thread.pc = .fiber f)
      (hchain : X.thread.chain = k :: ks) (hr : Runs X.thread k f)
      (hput : Put l f (X.thread.records l) (change (X.thread.records l))) :
      Move B failed X (X.switch_out l f finishing change)
  | reap {k : Nat} {l : Loop} (hl : (X.thread.frames k).loop = l) (hpc : X.thread.pc = .loop k) :
      Move B failed X (X.reap l)
  | phase {k : Nat} (hpc : X.thread.pc = .loop k) (phase : Phase) :
      Move B failed X (X.quiet (set_phase X.thread k phase))
  | resume {k r : Nat} (hl : (X.thread.frames k).loop = .reactor r)
      (hpc : X.thread.pc = .loop k) (ws : List Nat) :
      Move B failed X (X.quiet { X.thread with
        records := Function.update X.thread.records (.reactor r)
          (ws.foldl Nest.resume (X.thread.records (.reactor r))) })
  | dispatch {k f : Nat} {l : Loop} {rest : List Nat} (hl : (X.thread.frames k).loop = l)
      (hpc : X.thread.pc = .loop k) (hready : (X.thread.records l).ready = f :: rest)
      (hz : (X.thread.records l).zombie = none) :
      Move B failed X (X.dispatch B l f rest)
  | leave {k : Nat} {l : Loop} {rc : Int} (hl : (X.thread.frames k).loop = l)
      (hpc : X.thread.pc = .loop k) (hend : (X.thread.records l).unfinished = 0 ∨ failed) :
      Move B failed X (X.leave k rc)

end Traced

/-- A nested thread with its records in order. -/
structure Sound (S : Thread) (h₀ : Option Hook) : Prop where
  nested : Nested S h₀
  counted : Counted S
  alive : S.pc ≠ .trap

theorem tidy_update {S : Thread} (h : ∀ m, (S.records m).Tidy m) {l : Loop} {r' : Record}
    (hr : r'.Tidy l) : ∀ m, (Function.update S.records l r' m).Tidy m := by
  intro m
  by_cases hm : m = l
  · subst hm
    rwa [Function.update_self]
  · rw [Function.update_of_ne hm]
    exact h m

/-- The loop that control is in, or whose fiber it is in, runs. -/
theorem Thread.head_mem_loops {S : Thread} {k : Nat} {ks : List Nat} (hchain : S.chain = k :: ks) :
    (S.frames k).loop ∈ S.loops := by
  rw [Thread.loops_eq hchain]
  exact List.mem_cons_self

/-- A record that is not a running loop's may change in its queues. -/
theorem Counted.record {S : Thread} (h : Counted S) {l : Loop} {r' : Record} (hr : r'.Tidy l)
    (hcur : r'.current = (S.records l).current) :
    Counted { S with records := Function.update S.records l r' } where
  tidy := tidy_update h.tidy hr
  idle := by
    intro m hm
    by_cases hml : m = l
    · subst hml
      simpa [hcur] using h.idle m hm
    · simpa [hml] using h.idle m hm
  between := by
    intro k hpc
    have hnone := h.between k hpc
    by_cases hml : (S.frames k).loop = l
    · simpa [hml, hcur] using hml ▸ hnone
    · simpa [hml] using hnone
  callers := h.callers

theorem set_phase_frame (S : Thread) (k : Nat) (phase : Phase) (j : Nat) :
    ((set_phase S k phase).frames j).loop = (S.frames j).loop ∧
      ((set_phase S k phase).frames j).caller = (S.frames j).caller := by
  unfold set_phase
  by_cases hj : j = k
  · simp [hj]
  · simp [hj]

theorem Counted.set_phase {S : Thread} (h : Counted S) (k : Nat) (phase : Phase) :
    Counted (set_phase S k phase) where
  tidy := h.tidy
  idle := by
    intro l hl
    apply h.idle l
    have hloops : (Nest.set_phase S k phase).loops = S.loops :=
      List.map_congr_left fun j _ => (set_phase_frame S k phase j).1
    rwa [hloops] at hl
  between := by
    intro j hpc
    rw [(set_phase_frame S k phase j).1]
    exact h.between j hpc
  callers := by
    intro j hj
    rw [(set_phase_frame S k phase j).2]
    exact h.callers j hj

theorem Sound.spawn {S : Thread} {h₀ : Option Hook} (h : Sound S h₀) (l : Loop) (ok : Bool) :
    Sound (spawn S l ok) h₀ := by
  refine ⟨h.nested.spawn l ok, ?_, ?_⟩
  · unfold Nest.spawn
    split
    case isFalse => exact h.counted
    case isTrue =>
      have hnew : S.spawned ∉ (S.records l).fibers := by
        intro hmem
        exact absurd (h.nested.born _ l (h.nested.held l _ hmem)) (Nat.lt_irrefl _)
      have hrec := h.counted.record ((h.counted.tidy l).spawned hnew) rfl
      exact ⟨hrec.tidy, hrec.idle, hrec.between, hrec.callers⟩
  · unfold Nest.spawn
    split <;> exact h.alive

theorem Sound.enter {S : Thread} {h₀ : Option Hook} (h : Sound S h₀) {l : Loop}
    (huser : UserCode S) (hl : l ∉ S.loops) : Sound (enter S l) h₀ := by
  have hfresh : S.calls ∉ S.chain := by
    intro hmem
    exact absurd ((h.nested.spine h.alive).lt _ hmem) (Nat.lt_irrefl _)
  have hrecords : (Nest.enter S l).records = S.records := by cases l <;> rfl
  have hpc : (Nest.enter S l).pc = .loop S.calls := by cases l <;> rfl
  refine ⟨h.nested.enter h.alive hl, ?_, by simp [hpc]⟩
  refine ⟨by rw [hrecords]; exact h.counted.tidy, ?_, ?_, ?_⟩
  · intro m hm
    rw [hrecords]
    rw [enter_loops hfresh] at hm
    exact h.counted.idle m fun hmem => hm (List.mem_cons_of_mem _ hmem)
  · intro k hk
    obtain rfl : S.calls = k := by simpa [hpc] using hk
    rw [enter_loop, hrecords]
    exact h.counted.idle l hl
  · intro k hk
    rw [enter_chain] at hk
    rcases List.mem_cons.mp hk with rfl | hk
    · have hcaller : ((Nest.enter S l).frames S.calls).caller = S.pc := by
        cases l <;> simp [Nest.enter, cfiber_set_return_hook]
      rw [hcaller]
      exact huser
    · rw [enter_frames_of_ne fun heq => hfresh (heq ▸ hk)]
      exact h.counted.callers k hk

theorem Sound.out {S : Thread} {h₀ : Option Hook} (h : Sound S h₀) {k f : Nat} {ks : List Nat}
    {change : Record → Record} (hpc : S.pc = .fiber f) (hchain : S.chain = k :: ks)
    (hr : Runs S k f)
    (hput : Put (S.frames k).loop f (S.records (S.frames k).loop)
      (change (S.records (S.frames k).loop))) :
    Sound (switch_out S (S.frames k).loop f change) h₀ := by
  have htidy := h.counted.tidy (S.frames k).loop
  have hz := htidy.reaped (by simp [hr.current])
  refine ⟨h.nested.switch_out hpc hchain hr (hput.keeps hr.current hz), ?_, ?_⟩
  · refine ⟨tidy_update h.counted.tidy (hput.tidy htidy hr.current), ?_, ?_, h.counted.callers⟩
    · intro l hl
      have hne : l ≠ (S.frames k).loop := by
        rintro rfl
        exact hl (Thread.head_mem_loops hchain)
      simpa [switch_out, hne] using h.counted.idle l hl
    · intro j hj
      obtain rfl : k = j := by simpa [switch_out, hr.ctx] using hj
      simp [switch_out, hput.current]
  · simp [switch_out, hr.ctx]

theorem Sound.reap {S : Thread} {h₀ : Option Hook} (h : Sound S h₀) (l : Loop) :
    Sound (reap S l) h₀ :=
  ⟨h.nested.reap l, h.counted.record (h.counted.tidy l).reap rfl, h.alive⟩

theorem Sound.set_phase {S : Thread} {h₀ : Option Hook} (h : Sound S h₀) (k : Nat)
    (phase : Phase) : Sound (set_phase S k phase) h₀ :=
  ⟨h.nested.set_phase k phase, h.counted.set_phase k phase, h.alive⟩

theorem Sound.resume {S : Thread} {h₀ : Option Hook} (h : Sound S h₀) (r : Nat) (ws : List Nat) :
    Sound
      { S with
        records := Function.update S.records (.reactor r)
          (ws.foldl Nest.resume (S.records (.reactor r))) } h₀ := by
  obtain ⟨hk, hcur⟩ := resume_all_keeps ws (S.records (.reactor r))
  have htidy := Record.Tidy.resume_all ws (h.counted.tidy (.reactor r))
  exact ⟨h.nested.record hk hcur, h.counted.record htidy hcur, h.alive⟩

theorem Sound.dispatch {S : Thread} {h₀ : Option Hook} (h : Sound S h₀) {k f : Nat}
    {rest : List Nat} (hpc : S.pc = .loop k)
    (hready : (S.records (S.frames k).loop).ready = f :: rest)
    (hz : (S.records (S.frames k).loop).zombie = none) :
    Sound (dispatch S (S.frames k).loop f rest) h₀ := by
  obtain ⟨ks, hchain⟩ := h.nested.at_loop hpc
  have howner := h.nested.held _ f (show f ∈ (S.records (S.frames k).loop).fibers by simp [hready])
  have hsaved := h.nested.saved f (h.nested.born f _ howner)
  have htidy := (h.counted.tidy (S.frames k).loop).dispatch hready (h.counted.between k hpc) hz S.pc
  refine ⟨h.nested.dispatch hpc rfl hready, ?_, by simp [Nest.dispatch, hsaved]⟩
  refine ⟨tidy_update h.counted.tidy htidy, ?_, ?_, h.counted.callers⟩
  · intro l hl
    have hne : l ≠ (S.frames k).loop := by
      rintro rfl
      exact hl (Thread.head_mem_loops hchain)
    simpa [Nest.dispatch, hne] using h.counted.idle l hl
  · intro j hj
    simp [Nest.dispatch, hsaved] at hj

theorem leave_same (S : Thread) (k : Nat) (rc : Int) :
    (leave S k rc).records = S.records ∧ (leave S k rc).frames = S.frames ∧
      (leave S k rc).pc = (S.frames k).caller ∧ (leave S k rc).chain = S.chain.erase k := by
  cases hl : (S.frames k).loop with
  | sched s =>
      rw [leave_sched hl]
      exact ⟨rfl, rfl, rfl, rfl⟩
  | reactor r =>
      rw [leave_reactor hl]
      exact ⟨rfl, rfl, rfl, rfl⟩

theorem Sound.leave {S : Thread} {h₀ : Option Hook} (h : Sound S h₀) {k : Nat}
    (hpc : S.pc = .loop k) (rc : Int) : Sound (leave S k rc) h₀ := by
  obtain ⟨ks, hchain⟩ := h.nested.at_loop hpc
  obtain ⟨hrecords, hframes, hpc', hchain'⟩ := leave_same S k rc
  rw [hchain, List.erase_cons_head] at hchain'
  have hcaller := h.counted.callers k (by simp [hchain])
  refine ⟨h.nested.leave hpc rc, ?_, ?_⟩
  · refine ⟨by rw [hrecords]; exact h.counted.tidy, ?_, ?_, ?_⟩
    · intro l hl
      rw [hrecords]
      by_cases hlk : l = (S.frames k).loop
      · rw [hlk]
        exact h.counted.between k hpc
      · apply h.counted.idle l
        rw [Thread.loops_eq hchain]
        intro hmem
        apply hl
        unfold Thread.loops
        rw [hchain', hframes]
        exact (List.mem_cons.mp hmem).resolve_left hlk
    · intro j hj
      rw [hpc'] at hj
      rcases hcaller with hc | ⟨f, hc⟩ <;> simp [hc] at hj
    · intro j hj
      rw [hchain'] at hj
      rw [hframes]
      exact h.counted.callers j (by simp [hchain, hj])
  · rw [hpc']
    rcases hcaller with hc | ⟨f, hc⟩ <;> simp [hc]

/-- **Every move keeps the stack nested and the records in order.** -/
theorem Sound.move {B : Owner → Bounds} {failed : Prop} {X Y : Traced} {h₀ : Option Hook}
    (h : Sound X.thread h₀) (hm : Traced.Move B failed X Y) : Sound Y.thread h₀ := by
  cases hm with
  | fake_stack => exact h
  | spawn l ok => exact h.spawn l ok
  | refuse =>
      refine ⟨h.nested.refused _ _, ?_, h.alive⟩
      exact ⟨h.counted.tidy, h.counted.idle, h.counted.between, h.counted.callers⟩
  | enter huser hl =>
      rw [Traced.enter_thread]
      exact h.enter huser hl
  | out hl hpc hchain hr hput =>
      subst hl
      exact h.out hpc hchain hr hput
  | reap _ _ => exact h.reap _
  | phase _ phase => exact h.set_phase _ phase
  | resume _ _ ws => exact h.resume _ ws
  | dispatch hl hpc hready hz =>
      subst hl
      exact h.dispatch hpc hready hz
  | leave _ hpc _ =>
      rw [Traced.leave_thread]
      exact h.leave hpc _

/-- The unfinished fibers of the loop that control is in. -/
def Thread.load (S : Thread) : Nat :=
  match S.pc with
  | .loop k => (S.records (S.frames k).loop).unfinished
  | _ => 0

/-! ## §3. The moves of a step. -/

namespace Traced

section
variable {B : Owner → Bounds} {failed : Prop} {X : Traced} {h₀ : Option Hook}

/-- A call that switches a fiber of the innermost loop out. -/
theorem out_move (h : Sound X.thread h₀) (huser : UserCode X.thread) {l : Loop} {cur : Nat}
    {change : Record → Record} (hhead : X.thread.loops.head? = some l)
    (hcur : (X.thread.records l).current = some cur)
    (hput : Put l cur (X.thread.records l) (change (X.thread.records l))) :
    Move B failed X (X.switch_out l cur false change) := by
  rcases huser with hpc | ⟨f, hpc⟩
  · -- host code is at the bottom of the stack, where no loop runs
    have hs := h.nested.spine h.alive
    rw [hpc] at hs
    cases hchain : X.thread.chain with
    | nil => simp [Thread.loops, hchain] at hhead
    | cons k ks =>
        rw [hchain] at hs
        obtain hw | ⟨g, hw, _⟩ := hs.2.2.1
        · simp at hw
        · simp at hw
  · obtain ⟨k, ks, hchain, hr⟩ := h.nested.at_fiber hpc
    obtain rfl : l = (X.thread.frames k).loop := by
      simpa [Thread.loops_eq hchain, eq_comm] using hhead
    obtain rfl : f = cur := Option.some.inj (hr.current.symm.trans hcur)
    exact .out rfl hpc hchain hr hput

theorem call_moves {Y : Traced} {a : Action} (h : Sound X.thread h₀) (huser : UserCode X.thread)
    (hre : NoReentry X.thread a) (hin : Innermost X.thread a) (hcall : X.call a = some Y) :
    ReflTransGen (Move B failed) X Y := by
  have hhead : ∀ {l}, acts X.thread a = some l → X.thread.loops.head? = some l := by
    intro l hl
    rcases hin with hnone | hhead
    · simp [hnone] at hl
    · rw [← hhead, hl]
  cases a with
  | spawn l ok =>
      obtain rfl := Option.some.inj hcall
      exact .single (.spawn l ok)
  | cfiber_spawn ok =>
      obtain rfl := Option.some.inj hcall
      unfold Traced.cfiber_spawn
      split
      case h_1 => exact .refl
      case h_2 s _ => exact .single (.spawn _ ok)
  | cfiber_ev_spawn ok =>
      obtain rfl := Option.some.inj hcall
      unfold Traced.cfiber_ev_spawn
      split
      case h_1 => exact .refl
      case h_2 r _ => exact .single (.spawn _ ok)
  | run l =>
      cases l with
      | sched s =>
          obtain rfl := Option.some.inj hcall
          exact .single (.enter huser (hre trivial))
      | reactor r =>
          obtain rfl := Option.some.inj hcall
          unfold Traced.cfiber_reactor_run Nest.cfiber_reactor_run
          by_cases hr : X.thread.g_reactor = some r
          · rw [if_pos hr, if_pos hr]
            exact .single .refuse
          · rw [if_neg hr]
            exact .single (.enter huser (hre hr))
  | cfiber_yield =>
      obtain rfl := Option.some.inj hcall
      unfold Traced.cfiber_yield
      split
      case h_1 => exact .refl
      case h_2 s hs =>
        split
        case h_1 => exact .refl
        case h_2 cur hcur =>
          split
          case isTrue => exact .refl
          case isFalse hready =>
            have hacts : acts X.thread .cfiber_yield = some (.sched s) := by
              simp [acts, hs, hcur, hready]
            exact .single (out_move h huser (hhead hacts) hcur .yields)
  | cfiber_ev_yield =>
      obtain rfl := Option.some.inj hcall
      unfold Traced.cfiber_ev_yield
      split
      case h_1 => exact .refl
      case h_2 s cur hrun =>
        have hacts : acts X.thread .cfiber_ev_yield = some (.reactor s) := by simp [acts, hrun]
        exact .single (out_move h huser (hhead hacts) (running_fiber_eq hrun).2 .yields)
  | cfiber_ev_wait ok =>
      obtain rfl := Option.some.inj hcall
      unfold Traced.cfiber_ev_wait
      split
      case h_1 => exact .refl
      case h_2 s cur hrun =>
        split
        case isFalse => exact .refl
        case isTrue hok =>
          have hacts : acts X.thread (.cfiber_ev_wait ok) = some (.reactor s) := by
            simp [acts, hrun, hok]
          exact .single (out_move h huser (hhead hacts) (running_fiber_eq hrun).2 (.parks rfl))
  | finish => simp [Traced.call] at hcall
  | turn poll => simp [Traced.call] at hcall

/-- A zombie has returned. -/
theorem reap_unfinished (X : Traced) {l : Loop} :
    ((X.reap l).thread.records l).unfinished = (X.thread.records l).unfinished := by
  simp [Traced.reap, Nest.reap, Record.unfinished]

/-- A fiber returns to the loop whose hook is registered, which is the one that dispatched it. -/
theorem cfiber_epilogue_move (h : Sound X.thread h₀) {f : Nat} (hpc : X.thread.pc = .fiber f) :
    Move B failed X X.cfiber_epilogue := by
  obtain ⟨k, ks, hchain, hr⟩ := h.nested.at_fiber hpc
  have hhook : X.thread.s_return_hook = some (X.thread.frames k).loop.hook := by
    rw [h.nested.hook, Thread.loops_eq hchain]
    rfl
  unfold Traced.cfiber_epilogue
  simp only [hhook, Loop.hook_loop, hr.current]
  exact .out rfl hpc hchain hr .returns

/-- A turn of a scheduler's loop; with `2 ^ 31` unfinished fibers or more the test of the counter may
end it early. -/
theorem scheduler_turn_moves (h : Sound X.thread h₀) {k s : Nat} (hpc : X.thread.pc = .loop k)
    (hl : (X.thread.frames k).loop = .sched s)
    (hmany : 2 ^ 31 ≤ (X.thread.records (.sched s)).unfinished → failed) :
    ReflTransGen (Move B failed) X (X.scheduler_turn B k s) := by
  have hreap : Move B failed X (X.reap (.sched s)) := .reap hl hpc
  have h' := h.move hreap
  have htidy := h'.counted.tidy (.sched s)
  rw [← reap_unfinished X] at hmany
  refine .head hreap (.single ?_)
  unfold Traced.scheduler_turn
  dsimp only
  split
  case isTrue hactive =>
    split
    case h_1 hready =>
      -- a live fiber is ready, or `current`, since a scheduler's fibers do not park
      have hcur := h'.counted.between k hpc
      rw [show ((X.reap (.sched s)).thread.frames k).loop = .sched s from hl] at hcur
      have hcount := htidy.count
      rw [Record.unfinished, hready, hcur, htidy.unparked s rfl] at hcount
      rw [hcount] at hactive
      exact absurd hactive (by decide)
    case h_2 f rest hready =>
      exact .dispatch hl hpc hready (by simp [Traced.reap, Nest.reap])
  case isFalse hactive =>
    have hzero : ((X.reap (.sched s)).thread.records (.sched s)).active = 0 := by simpa using hactive
    exact .leave hl hpc (htidy.none_left hmany hzero)

theorem reactor_poll_moves (h : Sound X.thread h₀) {k r : Nat} (hpc : X.thread.pc = .loop k)
    (hl : (X.thread.frames k).loop = .reactor r) {poll : Poll} (hfailed : poll = .failed → failed)
    (hmany : 2 ^ 31 ≤ (X.thread.records (.reactor r)).unfinished → failed) :
    ReflTransGen (Move B failed) X (X.reactor_poll k r poll) := by
  unfold Traced.reactor_poll
  split
  case isTrue hactive =>
    exact .single (.leave hl hpc ((h.counted.tidy (.reactor r)).none_left hmany hactive))
  case isFalse hactive =>
    cases poll with
    | failed => exact .single (.leave hl hpc (.inr (hfailed rfl)))
    | interrupted =>
        simp only [Nest.reactor_poll, if_neg hactive]
        exact .single (.phase hpc .top)
    | resume ws =>
        simp only [Nest.reactor_poll, if_neg hactive]
        refine .head (.resume hl hpc ws) (.single (.phase ?_ .top))
        exact hpc

theorem reactor_turn_moves (h : Sound X.thread h₀) {k r : Nat} (hpc : X.thread.pc = .loop k)
    (hl : (X.thread.frames k).loop = .reactor r) {poll : Poll} (hfailed : poll = .failed → failed)
    (hmany : 2 ^ 31 ≤ (X.thread.records (.reactor r)).unfinished → failed) :
    ReflTransGen (Move B failed) X (X.reactor_turn B k r poll) := by
  have hreap : Move B failed X (X.reap (.reactor r)) := .reap hl hpc
  have h' := h.move hreap
  have hmany' := hmany
  rw [← reap_unfinished X] at hmany'
  unfold Traced.reactor_turn
  split
  case h_1 =>
    split
    case isTrue => exact .single (.phase hpc _)
    case isFalse hactive =>
      exact .single (.leave hl hpc ((h.counted.tidy (.reactor r)).none_left_int hmany hactive))
  case h_2 stop last _ =>
    refine .head hreap ?_
    dsimp only
    split
    case h_1 => exact reactor_poll_moves (X := X.reap (.reactor r)) h' hpc hl hfailed hmany'
    case h_2 f rest hready =>
      split
      case isTrue => exact reactor_poll_moves (X := X.reap (.reactor r)) h' hpc hl hfailed hmany'
      case isFalse =>
        refine .head (.phase (X := X.reap (.reactor r)) hpc (.round stop (some f))) (.single ?_)
        refine .dispatch (k := k) ?_ hpc hready (by simp [quiet, set_phase, Traced.reap, Nest.reap])
        exact (set_phase_frame _ k _ k).1.trans hl

end

/-- Where a step is the innermost loop's. -/
def Proper (X : Traced) : Event → Prop
  | .act a => NoReentry X.thread a ∧ Innermost X.thread a
  | .use_fake_stack => True

instance (X : Traced) : (e : Event) → Decidable (Proper X e)
  | .act a => inferInstanceAs (Decidable (NoReentry X.thread a ∧ Innermost X.thread a))
  | .use_fake_stack => inferInstanceAs (Decidable True)

/-- **The moves of a step.** -/
theorem step_moves {B : Owner → Bounds} {X Y : Traced} {h₀ : Option Hook} {e : Event}
    (h : Sound X.thread h₀) (hproper : Proper X e) (hstep : X.step B e = some Y) :
    ReflTransGen (Move B (e = .act (.turn .failed) ∨ 2 ^ 31 ≤ X.thread.load)) X Y := by
  cases e with
  | use_fake_stack =>
      obtain rfl := Option.some.inj hstep
      exact .single .fake_stack
  | act a =>
      obtain ⟨hre, hin⟩ := hproper
      unfold Traced.step at hstep
      cases hpc : X.thread.pc with
      | trap => exact absurd hpc h.alive
      | host =>
          simp only [hpc] at hstep
          exact call_moves h (.inl hpc) hre hin hstep
      | fiber f =>
          simp only [hpc] at hstep
          split at hstep
          · obtain rfl := Option.some.inj hstep
            exact .single (cfiber_epilogue_move h hpc)
          · exact call_moves h (.inr ⟨f, hpc⟩) hre hin hstep
      | loop k =>
          simp only [hpc] at hstep
          split at hstep
          case h_2 => simp at hstep
          case h_1 poll =>
            obtain rfl := Option.some.inj hstep
            have hmany : 2 ^ 31 ≤ (X.thread.records (X.thread.frames k).loop).unfinished →
                .act (.turn poll) = Event.act (.turn .failed) ∨ 2 ^ 31 ≤ X.thread.load := by
              intro hge
              right
              unfold Thread.load
              rw [hpc]
              exact hge
            unfold Traced.turn
            split
            case h_1 s hl => exact scheduler_turn_moves h hpc hl (hl ▸ hmany)
            case h_2 r hl =>
              exact reactor_turn_moves h hpc hl (fun hp => .inl (by rw [hp])) (hl ▸ hmany)

end Traced

/-! ## §4. AddressSanitizer. -/

/-- The calls `ks` have recorded their hosts; `h` is what the first of them has as host bounds. -/
def HostsKnown (B : Owner → Bounds) (X : Traced) : List Nat → Bounds × Bool → Prop
  | [], _ => True
  | k :: ks, h => h = (B (X.thread.host_owner k), true) ∧ HostsKnown B X ks (X.asan.prev_host k)

/-- Loop `l` does not run, or has not recorded its host yet. -/
def Undiscovered (X : Traced) (l : Loop) : Prop :=
  l ∉ X.thread.loops ∨ X.asan.tl_host_known = false ∧ X.thread.loops.head? = some l

/-- **AddressSanitizer follows the thread.** -/
structure Follows (B : Owner → Bounds) (X : Traced) : Prop where
  died : X.asan.runtime.died = false
  closed : X.asan.runtime.switching = none
  pending : X.asan.tl_switch_pending = false
  stack : X.asan.runtime.stack = B X.thread.stack_owner
  fake : ∀ o, X.asan.runtime.fake = some o → o = X.thread.stack_owner
  fiber_slot : ∀ f o, X.asan.fake_stack (.fiber f) = some o → o = .fiber f
  loop_slot : ∀ k o, X.asan.fake_stack (.loop k) = some o →
    k < X.thread.calls ∧ o = X.thread.host_owner k
  host : ∀ k ks, X.thread.chain = k :: ks →
    (X.asan.tl_host_known = true → X.asan.tl_host = B (X.thread.host_owner k)) ∧
      HostsKnown B X ks (X.asan.prev_host k)
  known : ∀ f, X.thread.pc = .fiber f → X.asan.tl_host_known = true
  /-- A loop that has not recorded its host has only new fibers to dispatch, so that the first entry
  does record it. -/
  fresh : ∀ l, Undiscovered X l → ∀ f,
    f ∈ (X.thread.records l).ready ∨ f ∈ (X.thread.records l).parked → X.entered f = false

theorem HostsKnown.congr {B : Owner → Bounds} {X Y : Traced} : ∀ {ks : List Nat} {h : Bounds × Bool},
    HostsKnown B X ks h → (∀ k ∈ ks, Y.thread.host_owner k = X.thread.host_owner k) →
      (∀ k ∈ ks, Y.asan.prev_host k = X.asan.prev_host k) → HostsKnown B Y ks h
  | [], _, _, _, _ => trivial
  | k :: ks, _, hX, howner, hprev => by
      refine ⟨?_, ?_⟩
      · rw [howner k List.mem_cons_self]
        exact hX.1
      · rw [hprev k List.mem_cons_self]
        exact hX.2.congr (fun j hj => howner j (List.mem_cons_of_mem _ hj))
          fun j hj => hprev j (List.mem_cons_of_mem _ hj)

/-- The two halves of a switch back to where an earlier one left. -/
theorem asan_switch_back {a : Asan} (hclosed : a.runtime.switching = none) (w v : Where)
    (next : Bounds) (finishing : Bool) :
    asan_resume (asan_leave a w next finishing) v =
      { a with
        tl_switch_pending := false
        fake_stack := Function.update a.fake_stack w (if !finishing then a.runtime.fake else none)
        runtime := ⟨next, none,
          Function.update a.fake_stack w (if !finishing then a.runtime.fake else none) v,
          a.runtime.died⟩ } := by
  simp [asan_resume, asan_leave, start_switch_fiber, finish_switch_fiber, hclosed]

/-- The two halves of a switch to a new fiber. -/
theorem asan_switch_new {a : Asan} (hclosed : a.runtime.switching = none) (w : Where)
    (next : Bounds) (finishing : Bool) :
    cfiber_asan_on_fiber_entry (asan_leave a w next finishing) =
      { a with
        tl_switch_pending := false
        fake_stack := Function.update a.fake_stack w (if !finishing then a.runtime.fake else none)
        runtime := ⟨next, none, none, a.runtime.died⟩
        tl_host := if a.tl_host_known then a.tl_host else a.runtime.stack
        tl_host_known := true } := by
  simp [cfiber_asan_on_fiber_entry, asan_leave, start_switch_fiber, finish_switch_fiber, hclosed]

theorem Thread.host_owner_congr {S T : Thread} {k : Nat}
    (h : (T.frames k).caller = (S.frames k).caller) : T.host_owner k = S.host_owner k := by
  unfold Thread.host_owner
  rw [h]

/-- A move that switches no stack. -/
theorem Follows.frame {B : Owner → Bounds} {X Y : Traced} (h : Follows B X)
    (hasan : Y.asan = X.asan) (hpc : Y.thread.pc = X.thread.pc)
    (hcalls : Y.thread.calls = X.thread.calls) (hchain : Y.thread.chain = X.thread.chain)
    (hframes : ∀ k, (Y.thread.frames k).loop = (X.thread.frames k).loop ∧
      (Y.thread.frames k).caller = (X.thread.frames k).caller)
    (hentered : ∀ l f,
      f ∈ (Y.thread.records l).ready ∨ f ∈ (Y.thread.records l).parked → Y.entered f = false ∨
        (f ∈ (X.thread.records l).ready ∨ f ∈ (X.thread.records l).parked) ∧
          Y.entered f = X.entered f) : Follows B Y := by
  have hhost : ∀ k, Y.thread.host_owner k = X.thread.host_owner k :=
    fun k => Thread.host_owner_congr (hframes k).2
  have howner : Y.thread.stack_owner = X.thread.stack_owner := by
    unfold Thread.stack_owner
    rw [hpc]
    cases X.thread.pc with
    | loop k => exact hhost k
    | _ => rfl
  have hloops : Y.thread.loops = X.thread.loops := by
    unfold Thread.loops
    rw [hchain]
    exact List.map_congr_left fun k _ => (hframes k).1
  constructor
  case died => rw [hasan]; exact h.died
  case closed => rw [hasan]; exact h.closed
  case pending => rw [hasan]; exact h.pending
  case stack => rw [hasan, howner]; exact h.stack
  case fake => rw [hasan, howner]; exact h.fake
  case fiber_slot => rw [hasan]; exact h.fiber_slot
  case loop_slot =>
    intro k o ho
    rw [hasan] at ho
    rw [hcalls, hhost]
    exact h.loop_slot k o ho
  case host =>
    intro k ks hks
    obtain ⟨hhead, hrest⟩ := h.host k ks (hchain ▸ hks)
    rw [hasan, hhost]
    exact ⟨hhead, hrest.congr (fun j _ => hhost j) fun j _ => by rw [hasan]⟩
  case known =>
    intro f hf
    rw [hasan]
    exact h.known f (hpc ▸ hf)
  case fresh =>
    intro l hl f hf
    rcases hentered l f hf with hnew | ⟨hold, heq⟩
    · exact hnew
    · rw [heq]
      apply h.fresh l _ f hold
      unfold Undiscovered at hl ⊢
      rwa [hasan, hloops] at hl

section
variable {B : Owner → Bounds} {X : Traced} {h₀ : Option Hook}

theorem Follows.spawn (h : Follows B X) (l : Loop) (ok : Bool) :
    Follows B (X.spawn l ok) := by
  cases ok with
  | false => exact h.frame rfl rfl rfl rfl (fun _ => ⟨rfl, rfl⟩) fun _ _ hf => .inr ⟨hf, rfl⟩
  | true =>
      refine h.frame rfl rfl rfl rfl (fun _ => ⟨rfl, rfl⟩) fun m f hf => ?_
      show Function.update X.entered X.thread.spawned false f = false ∨ _
      by_cases hnew : f = X.thread.spawned
      · left
        rw [hnew, Function.update_self]
      · right
        refine ⟨?_, Function.update_of_ne hnew _ _⟩
        by_cases hm : m = l
        · subst hm
          simpa [Traced.spawn, Nest.spawn, hnew] using hf
        · simpa [Traced.spawn, Nest.spawn, hm] using hf

theorem Follows.resume (h : Follows B X) (r : Nat) (ws : List Nat) :
    Follows B (X.quiet { X.thread with
      records := Function.update X.thread.records (.reactor r)
        (ws.foldl Nest.resume (X.thread.records (.reactor r))) }) := by
  have hall : ∀ (ws : List Nat) (r' : Record) (f : Nat),
      f ∈ (ws.foldl Nest.resume r').ready ∨ f ∈ (ws.foldl Nest.resume r').parked →
        f ∈ r'.ready ∨ f ∈ r'.parked := by
    intro ws
    induction ws with
    | nil => exact fun _ _ hf => hf
    | cons w ws ih =>
        intro r' f hf
        have hf := ih _ f hf
        unfold Nest.resume at hf
        split at hf
        case isFalse => exact hf
        case isTrue hw =>
          have herase : f ∈ r'.parked.erase w → f ∈ r'.parked := List.mem_of_mem_erase
          simp only [List.mem_append, List.mem_singleton] at hf
          grind
  refine h.frame rfl rfl rfl rfl (fun _ => ⟨rfl, rfl⟩) fun l f hf => .inr ⟨?_, rfl⟩
  by_cases hl : l = .reactor r
  · subst hl
    exact hall ws _ f (by simpa [Traced.quiet] using hf)
  · simpa [Traced.quiet, hl] using hf

theorem Follows.reap (h : Follows B X) (l : Loop) : Follows B (X.reap l) := by
  refine h.frame rfl rfl rfl rfl (fun _ => ⟨rfl, rfl⟩) fun m f hf => .inr ⟨?_, rfl⟩
  by_cases hm : m = l
  · subst hm
    simpa [Traced.reap, Nest.reap] using hf
  · simpa [Traced.reap, Nest.reap, hm] using hf

/-- **A fiber leaves**: to the bounds that its loop's first entry recorded. -/
theorem Follows.out (h : Follows B X) {k f : Nat} {ks : List Nat} {l : Loop} {finishing : Bool}
    {change : Record → Record} (hl : (X.thread.frames k).loop = l)
    (hpc : X.thread.pc = .fiber f) (hchain : X.thread.chain = k :: ks) (hr : Runs X.thread k f)
    (hput : Put l f (X.thread.records l) (change (X.thread.records l))) :
    Follows B (X.switch_out l f finishing change) := by
  subst hl
  have howner : X.thread.stack_owner = .fiber f := by simp [Thread.stack_owner, hpc]
  have hknown := h.known f hpc
  obtain ⟨hhead, hrest⟩ := h.host k ks hchain
  have hasan : (X.switch_out (X.thread.frames k).loop f finishing change).asan =
      asan_resume (asan_leave X.asan (.fiber f) X.asan.tl_host finishing) (.loop k) := by
    simp [Traced.switch_out, hr.ctx, Traced.arrive, hpc]
  rw [asan_switch_back h.closed] at hasan
  have hpc' : (X.switch_out (X.thread.frames k).loop f finishing change).thread.pc = .loop k :=
    hr.ctx
  have howner' : (X.switch_out (X.thread.frames k).loop f finishing change).thread.stack_owner =
      X.thread.host_owner k := by
    unfold Thread.stack_owner
    rw [hpc']
    rfl
  constructor
  case died => rw [hasan]; exact h.died
  case closed => rw [hasan]
  case pending => rw [hasan]
  case stack =>
    rw [hasan, howner']
    exact hhead hknown
  case fake =>
    intro o ho
    rw [howner']
    rw [hasan] at ho
    exact (h.loop_slot k o (by simpa using ho)).2
  case fiber_slot =>
    intro g o ho
    rw [hasan] at ho
    by_cases hg : g = f
    · subst hg
      cases finishing with
      | true => simp at ho
      | false => exact (h.fake o (by simpa using ho)).trans howner
    · exact h.fiber_slot g o (by simpa [hg] using ho)
  case loop_slot =>
    intro j o ho
    rw [hasan] at ho
    exact h.loop_slot j o (by simpa using ho)
  case host =>
    intro j js hjs
    obtain ⟨rfl, rfl⟩ := List.cons.inj (hchain.symm.trans hjs)
    rw [hasan]
    exact ⟨hhead, hrest.congr (fun _ _ => rfl) fun _ _ => by rw [hasan]⟩
  case known =>
    intro g hg
    simp [hpc'] at hg
  case fresh =>
    intro m hm g hg
    have hentered : (X.switch_out (X.thread.frames k).loop f finishing change).entered =
        X.entered := by
      simp [Traced.switch_out, hr.ctx, Traced.enter_prologue]
    have hm : m ∉ X.thread.loops := by
      rcases hm with hm | ⟨hm, _⟩
      · exact hm
      · rw [hasan] at hm
        simp [hknown] at hm
    have hne : m ≠ (X.thread.frames k).loop := by
      rintro rfl
      exact hm (Thread.head_mem_loops hchain)
    rw [hentered]
    exact h.fresh m (.inl hm) g (by simpa [Traced.switch_out, Nest.switch_out, hne] using hg)

/-- **A fiber is dispatched**: a new one's first entry records the host if the call has not. -/
theorem Follows.dispatch (h : Follows B X) (hs : Sound X.thread h₀) {k f : Nat} {l : Loop}
    {rest : List Nat} (hl : (X.thread.frames k).loop = l) (hpc : X.thread.pc = .loop k)
    (hready : (X.thread.records l).ready = f :: rest) : Follows B (X.dispatch B l f rest) := by
  obtain ⟨ks, hchain⟩ := hs.nested.at_loop hpc
  have hf : X.thread.owner f = some l := hs.nested.held l f (by simp [hready])
  have hsaved : X.thread.fctx f = .fiber f := hs.nested.saved f (hs.nested.born f l hf)
  have howner : X.thread.stack_owner = X.thread.host_owner k := by simp [Thread.stack_owner, hpc]
  have hlt : k < X.thread.calls := (hs.nested.spine hs.alive).lt k (by simp [hchain])
  obtain ⟨hhead, hrest⟩ := h.host k ks hchain
  have hpc' : (X.dispatch B l f rest).thread.pc = .fiber f := hsaved
  have howner' : (X.dispatch B l f rest).thread.stack_owner = .fiber f := by
    unfold Thread.stack_owner
    rw [hpc']
  -- what either way of arriving leaves
  obtain ⟨host, fake, hasan, hhost, hfake⟩ : ∃ host fake,
      (X.dispatch B l f rest).asan =
        { X.asan with
          tl_switch_pending := false
          fake_stack := Function.update X.asan.fake_stack (.loop k) X.asan.runtime.fake
          runtime := ⟨B (.fiber f), none, fake, X.asan.runtime.died⟩
          tl_host := host
          tl_host_known := true } ∧
      host = B (X.thread.host_owner k) ∧ ∀ o, fake = some o → o = .fiber f := by
    have harrive : (X.dispatch B l f rest).asan =
        X.arrive (.fiber f) (asan_leave X.asan (.loop k) (B (.fiber f)) false) := by
      simp [Traced.dispatch, hsaved, hpc]
    rw [harrive]
    unfold Traced.arrive
    dsimp only
    split
    case isTrue hentered =>
      have hknown : X.asan.tl_host_known = true := by
        by_contra hunknown
        have hhead? : X.thread.loops.head? = some l := by simp [Thread.loops_eq hchain, hl]
        have := h.fresh l (.inr ⟨by simpa using hunknown, hhead?⟩) f (.inl (by simp [hready]))
        simp [this] at hentered
      refine ⟨X.asan.tl_host, X.asan.fake_stack (.fiber f), ?_, hhead hknown, h.fiber_slot f⟩
      rw [asan_switch_back h.closed]
      simp [hknown]
    case isFalse =>
      refine ⟨_, none, asan_switch_new h.closed _ _ _, ?_, by simp⟩
      split
      case isTrue hknown => exact hhead hknown
      case isFalse => rw [h.stack, howner]
  constructor
  case died => rw [hasan]; exact h.died
  case closed => rw [hasan]
  case pending => rw [hasan]
  case stack => rw [hasan, howner']
  case fake =>
    intro o ho
    rw [hasan] at ho
    rw [howner']
    exact hfake o ho
  case fiber_slot =>
    intro g o ho
    rw [hasan] at ho
    exact h.fiber_slot g o (by simpa using ho)
  case loop_slot =>
    intro j o ho
    rw [hasan] at ho
    by_cases hj : j = k
    · subst hj
      exact ⟨hlt, (h.fake o (by simpa using ho)).trans howner⟩
    · exact h.loop_slot j o (by simpa [hj] using ho)
  case host =>
    intro j js hjs
    obtain ⟨rfl, rfl⟩ := List.cons.inj (hchain.symm.trans hjs)
    rw [hasan]
    exact ⟨fun _ => hhost, hrest.congr (fun _ _ => rfl) fun _ _ => by rw [hasan]⟩
  case known =>
    intro g _
    rw [hasan]
  case fresh =>
    intro m hm g hg
    have hidle : m ∉ X.thread.loops := by
      rcases hm with hm | ⟨hm, _⟩
      · exact hm
      · rw [hasan] at hm
        simp at hm
    have hne : m ≠ l := by
      rintro rfl
      exact hidle (hl ▸ Thread.head_mem_loops hchain)
    have hold : g ∈ (X.thread.records m).ready ∨ g ∈ (X.thread.records m).parked := by
      simpa [Traced.dispatch, Nest.dispatch, hne] using hg
    -- the fiber dispatched is another loop's
    have hgf : g ≠ f := by
      rintro rfl
      have hgm : X.thread.owner g = some m := by
        apply hs.nested.held m g
        rw [Record.mem_fibers]
        exact hold.elim .inl fun hp => .inr (.inl hp)
      exact hne (Option.some.inj (hgm.symm.trans hf))
    simpa [Traced.dispatch, hsaved, Traced.enter_prologue, hgf] using h.fresh m (.inl hidle) g hold

/-- A call is entered: its host is not known yet. -/
theorem Follows.enter (h : Follows B X) (hs : Sound X.thread h₀) {l : Loop}
    (huser : UserCode X.thread) (hl : l ∉ X.thread.loops) : Follows B (X.enter l) := by
  have hlt := (hs.nested.spine hs.alive).lt
  have hfresh : X.thread.calls ∉ X.thread.chain := fun hmem => absurd (hlt _ hmem) (Nat.lt_irrefl _)
  have hasan : (X.enter l).asan = cfiber_asan_host_begin X.asan X.thread.calls := by
    cases l <;> rfl
  have hpc' : (X.enter l).thread.pc = .loop X.thread.calls := by cases l <;> rfl
  have hchain' : (X.enter l).thread.chain = X.thread.calls :: X.thread.chain := by
    rw [Traced.enter_thread, enter_chain]
  have hcaller : ((X.enter l).thread.frames X.thread.calls).caller = X.thread.pc := by
    cases l <;> simp [Traced.enter, Nest.enter, cfiber_set_return_hook]
  have hrecords : (X.enter l).thread.records = X.thread.records := by cases l <;> rfl
  have hentered : (X.enter l).entered = X.entered := by cases l <;> rfl
  have howner' : (X.enter l).thread.stack_owner = X.thread.stack_owner := by
    have hhost : (X.enter l).thread.stack_owner = (X.enter l).thread.host_owner X.thread.calls := by
      unfold Thread.stack_owner
      rw [hpc']
    rw [hhost, Thread.host_owner, hcaller, Thread.stack_owner]
    rcases huser with hpc | ⟨f, hpc⟩
    · rw [hpc]
    · rw [hpc]
  have hhost : ∀ k, k < X.thread.calls →
      (X.enter l).thread.host_owner k = X.thread.host_owner k := by
    intro k hk
    apply Thread.host_owner_congr
    rw [Traced.enter_thread, enter_frames_of_ne (by omega)]
  constructor
  case died => rw [hasan]; exact h.died
  case closed => rw [hasan]; exact h.closed
  case pending => rw [hasan]; exact h.pending
  case stack => rw [hasan, howner']; exact h.stack
  case fake => rw [hasan, howner']; exact h.fake
  case fiber_slot => rw [hasan]; exact h.fiber_slot
  case loop_slot =>
    intro k o ho
    rw [hasan] at ho
    obtain ⟨hk, ho⟩ := h.loop_slot k o ho
    rw [Traced.enter_thread, enter_calls]
    rw [Traced.enter_thread] at hhost
    exact ⟨by omega, ho.trans (hhost k hk).symm⟩
  case host =>
    intro k ks hks
    obtain ⟨rfl, rfl⟩ := List.cons.inj (hchain'.symm.trans hks)
    rw [hasan]
    refine ⟨fun hknown => by simp [cfiber_asan_host_begin] at hknown, ?_⟩
    simp only [cfiber_asan_host_begin, Function.update_self]
    -- the call below, if there is one, is in the middle of a fiber and knows its host
    cases hchain : X.thread.chain with
    | nil => trivial
    | cons k ks =>
        obtain ⟨f, hpc⟩ : ∃ f, X.thread.pc = .fiber f := by
          rcases huser with hpc | hpc
          · have hspine := hs.nested.spine hs.alive
            rw [hpc, hchain] at hspine
            obtain hw | ⟨g, hw, _⟩ := hspine.2.2.1 <;> simp at hw
          · exact hpc
        have hknown := h.known f hpc
        obtain ⟨hhead, hrest⟩ := h.host k ks hchain
        have hprev : (X.enter l).asan.prev_host k = X.asan.prev_host k := by
          have hk : k ≠ X.thread.calls := by
            have := hlt k (by simp [hchain])
            omega
          rw [hasan]
          simp [cfiber_asan_host_begin, hk]
        refine ⟨?_, hprev ▸ hrest.congr ?_ ?_⟩
        · rw [hhost k (hlt k (by simp [hchain])), hhead hknown, hknown]
        · exact fun j hj => hhost j (hlt j (by simp [hchain, hj]))
        · intro j hj
          have hj : j ≠ X.thread.calls := by
            have := hlt j (by simp [hchain, hj])
            omega
          rw [hasan]
          simp [cfiber_asan_host_begin, hj]
  case known =>
    intro f hf
    rw [hpc'] at hf
    simp at hf
  case fresh =>
    intro m hm f hf
    rw [hentered]
    rw [hrecords] at hf
    refine h.fresh m (.inl ?_) f hf
    have hloops : (X.enter l).thread.loops = l :: X.thread.loops := by
      rw [Traced.enter_thread, enter_loops hfresh]
    rcases hm with hm | ⟨_, hm⟩
    · rw [hloops] at hm
      exact fun hmem => hm (List.mem_cons_of_mem _ hmem)
    · rw [hloops] at hm
      exact Option.some.inj hm ▸ hl

/-- A call returns, none of its fibers alive. -/
theorem Follows.leave (h : Follows B X) (hs : Sound X.thread h₀) {k : Nat} {l : Loop} {rc : Int}
    (hl : (X.thread.frames k).loop = l) (hpc : X.thread.pc = .loop k)
    (hnone : (X.thread.records l).unfinished = 0) : Follows B (X.leave k rc) := by
  obtain ⟨ks, hchain⟩ := hs.nested.at_loop hpc
  obtain ⟨hrecords, hframes, hpc', hchain'⟩ := leave_same X.thread k rc
  rw [hchain, List.erase_cons_head] at hchain'
  rw [← Traced.leave_thread] at hrecords hframes hpc' hchain'
  have hasan : (X.leave k rc).asan = cfiber_asan_host_end X.asan k := by
    unfold Traced.leave
    dsimp only
    split <;> rfl
  have hentered : (X.leave k rc).entered = X.entered := by
    unfold Traced.leave
    dsimp only
    split <;> rfl
  have hcalls : (X.leave k rc).thread.calls = X.thread.calls := by
    rw [Traced.leave_thread]
    exact (leave_stays X.thread k rc).calls
  have hhost : ∀ j, (X.leave k rc).thread.host_owner j = X.thread.host_owner j :=
    fun j => Thread.host_owner_congr (by rw [hframes])
  have hcaller := hs.counted.callers k (by simp [hchain])
  have howner' : (X.leave k rc).thread.stack_owner = X.thread.stack_owner := by
    unfold Thread.stack_owner
    rw [hpc', hpc]
    rcases hcaller with hc | ⟨f, hc⟩ <;> simp [Thread.host_owner, hc]
  obtain ⟨-, hrest⟩ := h.host k ks hchain
  constructor
  case died => rw [hasan]; exact h.died
  case closed => rw [hasan]; exact h.closed
  case pending => rw [hasan]; exact h.pending
  case stack => rw [hasan, howner']; exact h.stack
  case fake => rw [hasan, howner']; exact h.fake
  case fiber_slot => rw [hasan]; exact h.fiber_slot
  case loop_slot =>
    intro j o ho
    rw [hasan] at ho
    rw [hcalls, hhost]
    exact h.loop_slot j o ho
  case host =>
    intro j js hjs
    rw [hchain'] at hjs
    subst hjs
    rw [hasan, hhost]
    obtain ⟨hj, hjs⟩ := hrest
    refine ⟨fun _ => congrArg Prod.fst hj, hjs.congr (fun i _ => hhost i) fun i _ => by rw [hasan]; rfl⟩
  case known =>
    intro f hf
    -- a fiber called, so the stack below is not empty
    rw [hpc'] at hf
    have hspine := hs.nested.spine hs.alive
    rw [hchain] at hspine
    obtain ⟨-, -, -, -, -, -, hspine⟩ := hspine
    obtain ⟨j, js, rfl, -⟩ := hspine.of_ne_host (by simp [hf])
    rw [hasan]
    exact congrArg Prod.snd hrest.1
  case fresh =>
    intro m hm f hf
    rw [hentered]
    rw [hrecords] at hf
    by_cases hml : m = l
    · -- no fiber is left
      subst hml
      unfold Record.unfinished at hnone
      have hready : (X.thread.records m).ready = [] := List.length_eq_zero_iff.mp (by omega)
      have hparked : (X.thread.records m).parked = [] := List.length_eq_zero_iff.mp (by omega)
      simp [hready, hparked] at hf
    · refine h.fresh m (.inl ?_) f hf
      have hloops : (X.leave k rc).thread.loops = ks.map fun j => (X.thread.frames j).loop := by
        unfold Thread.loops
        rw [hchain', hframes]
      rw [Thread.loops_eq hchain, hl]
      intro hmem
      have hmem := (List.mem_cons.mp hmem).resolve_left hml
      rcases hm with hm | ⟨hunknown, hm⟩
      · rw [hloops] at hm
        exact hm hmem
      · cases ks with
        | nil => simp at hmem
        | cons j js =>
            rw [hasan] at hunknown
            have hknown : (X.asan.prev_host k).2 = true := congrArg Prod.snd hrest.1
            simp [cfiber_asan_host_end, hknown] at hunknown

theorem Follows.move {failed : Prop} {Y : Traced} (h : Follows B X) (hs : Sound X.thread h₀)
    (hok : ¬ failed) (hm : Traced.Move B failed X Y) : Follows B Y := by
  cases hm with
  | fake_stack =>
      refine ⟨h.died, h.closed, h.pending, h.stack, ?_, h.fiber_slot, h.loop_slot, ?_, h.known,
        h.fresh⟩
      · intro o ho
        cases hfake : X.asan.runtime.fake with
        | none =>
            simp only [hfake, Option.getD_none, Option.some.injEq] at ho
            exact ho.symm
        | some o' =>
            simp only [hfake, Option.getD_some, Option.some.injEq] at ho
            exact ho ▸ h.fake o' hfake
      · intro k ks hks
        obtain ⟨hhead, hrest⟩ := h.host k ks hks
        exact ⟨hhead, hrest.congr (fun _ _ => rfl) fun _ _ => rfl⟩
  | spawn l ok => exact h.spawn l ok
  | refuse =>
      exact h.frame rfl rfl rfl rfl (fun _ => ⟨rfl, rfl⟩) fun _ _ hf => .inr ⟨hf, rfl⟩
  | enter huser hl => exact h.enter hs huser hl
  | out hl hpc hchain hr hput => exact h.out hl hpc hchain hr hput
  | reap _ _ => exact h.reap _
  | @phase k _ phase =>
      exact h.frame rfl rfl rfl rfl (set_phase_frame X.thread k phase) fun _ _ hf => .inr ⟨hf, rfl⟩
  | resume _ _ ws => exact h.resume _ ws
  | dispatch hl hpc hready _ => exact h.dispatch hs hl hpc hready
  | leave hl hpc hend => exact h.leave hs hl hpc (hend.resolve_right hok)

theorem Follows.start (B : Owner → Bounds) (h₀ : Option Hook) : Follows B (Traced.start B h₀) where
  died := rfl
  closed := rfl
  pending := rfl
  stack := rfl
  fake := fun o ho => by simp [Traced.start] at ho
  fiber_slot := fun f o ho => by simp [Traced.start] at ho
  loop_slot := fun k o ho => by simp [Traced.start] at ho
  host := fun k ks hks => by simp [Traced.start, Nest.start] at hks
  known := fun f hf => by simp [Traced.start, Nest.start] at hf
  fresh := fun _ _ _ _ => rfl

theorem Sound.start (h₀ : Option Hook) : Sound (Nest.start h₀) h₀ where
  nested := Nested.start h₀
  counted := {
    tidy := fun l => ⟨rfl, by simp [Nest.start, Record.fibers], fun _ => rfl, fun _ _ => rfl⟩
    idle := fun _ _ => rfl
    between := fun k hk => by simp [Nest.start] at hk
    callers := fun k hk => by simp [Nest.start] at hk }
  alive := by simp [Nest.start]

/-- **Step lemma**, for whatever the moves keep. -/
theorem Sound.steps {Y : Traced} {failed : Prop} {P : Traced → Prop} (hs : Sound X.thread h₀)
    (hP : P X) (hmove : ∀ X Y, Sound X.thread h₀ → P X → Traced.Move B failed X Y → P Y)
    (hmoves : ReflTransGen (Traced.Move B failed) X Y) : Sound Y.thread h₀ ∧ P Y := by
  induction hmoves with
  | refl => exact ⟨hs, hP⟩
  | tail _ hm ih => exact ⟨ih.1.move hm, hmove _ _ ih.1 ih.2 hm⟩

/-- No loop leaves fibers behind: polls answer, and the counters are small enough to be trusted. -/
def Complete (X : Traced) (e : Event) : Prop := e ≠ .act (.turn .failed) ∧ X.thread.load < 2 ^ 31

instance (X : Traced) (e : Event) : Decidable (Complete X e) :=
  inferInstanceAs (Decidable (e ≠ .act (.turn .failed) ∧ X.thread.load < 2 ^ 31))

/-- **AddressSanitizer is up to date**: no switch is open, the current stack is the one that
executes, a fake stack in use is that stack's own, and a fiber that leaves will name the stack that
its loop runs on. -/
structure UpToDate (B : Owner → Bounds) (X : Traced) : Prop where
  died : X.asan.runtime.died = false
  closed : X.asan.runtime.switching = none ∧ X.asan.tl_switch_pending = false
  stack : X.asan.runtime.stack = B X.thread.stack_owner
  fake : ∀ o, X.asan.runtime.fake = some o → o = X.thread.stack_owner
  host : ∀ f k ks, X.thread.pc = .fiber f → X.thread.chain = k :: ks →
    X.asan.tl_host = B (X.thread.host_owner k)
  alive : X.thread.pc ≠ .trap

/-- **AddressSanitizer follows every run** of properly nested loops whose polls answer, each with
fewer than `2 ^ 31` unfinished fibers: it never finds a switch in the wrong state, and after every
step it is up to date. -/
theorem asan_follows {es : List Event}
    (hrun : exec (under Complete (under Traced.Proper (Traced.step B))) (Traced.start B h₀) es =
      some X) : UpToDate B X := by
  have hinv : Sound X.thread h₀ ∧ Follows B X := by
    refine exec_inv (fun X => Sound X.thread h₀ ∧ Follows B X) ?_
      ⟨Sound.start h₀, Follows.start B h₀⟩ hrun
    rintro X e Y ⟨hs, h⟩ hstep
    obtain ⟨⟨hanswered, hfew⟩, hstep⟩ := under_eq_some.mp hstep
    obtain ⟨hproper, hstep⟩ := under_eq_some.mp hstep
    have hmoves := Traced.step_moves hs hproper hstep
    have hnone : ¬ (e = .act (.turn .failed) ∨ 2 ^ 31 ≤ X.thread.load) :=
      not_or_intro hanswered (Nat.not_le_of_lt hfew)
    exact hs.steps h (fun _ _ hs h hm => h.move hs hnone hm) hmoves
  obtain ⟨hs, h⟩ := hinv
  refine ⟨h.died, ⟨h.closed, h.pending⟩, h.stack, h.fake, ?_, hs.alive⟩
  intro f k ks hpc hchain
  exact (h.host k ks hchain).1 (h.known f hpc)

end

/-- The thread's stack lies below those of the fibers. -/
def apart : Owner → Bounds
  | .thread => (0, 8192)
  | .fiber f => (65536 * (f + 1), 4096)

theorem asan_follows_nested :
    ∃ X, exec (under Complete (under Traced.Proper (Traced.step apart))) (Traced.start apart none)
        (.use_fake_stack :: nested_run.flatMap fun a => [.act a, .use_fake_stack]) = some X ∧
      UpToDate apart X := by
  have h : (exec (under Complete (under Traced.Proper (Traced.step apart)))
      (Traced.start apart none)
      (.use_fake_stack :: nested_run.flatMap fun a => [.act a, .use_fake_stack])).isSome := by
    decide
  obtain ⟨X, hX⟩ := Option.isSome_iff_exists.mp h
  exact ⟨X, hX, asan_follows hX⟩

/-- Fiber 0 of a reactor has yielded when the poll fails; the reactor is run again by a fiber of a
scheduler, and fiber 0 yields again. -/
def rerun : List Action :=
  [.spawn (.reactor 0) true, .run (.reactor 0), .turn .interrupted, .turn .interrupted,
    .cfiber_ev_yield, .turn .failed, .spawn (.sched 0) true, .run (.sched 0), .turn .interrupted,
    .run (.reactor 0), .turn .interrupted, .turn .interrupted, .cfiber_ev_yield]

/-- **A failed poll is not harmless**: the second run resumes fiber 0 and does not enter it, so it
has no host bounds of its own, and fiber 0 leaves to the thread's stack instead of the scheduler's
fiber's. -/
theorem stale_after_failed_poll :
    ∃ X, exec (under Traced.Proper (Traced.step apart)) (Traced.start apart none)
        (rerun.map .act) = some X ∧
      X.thread.stack_owner = .fiber 1 ∧ X.asan.runtime.stack = apart .thread := by
  have h : (exec (under Traced.Proper (Traced.step apart)) (Traced.start apart none)
      (rerun.map .act)).map (fun X => (X.thread.stack_owner, X.asan.runtime.stack)) =
      some (.fiber 1, apart .thread) := by
    decide
  obtain ⟨X, hX, heq⟩ := Option.map_eq_some_iff.mp h
  exact ⟨X, hX, congrArg Prod.fst heq, congrArg Prod.snd heq⟩

end CFiber.Nest
