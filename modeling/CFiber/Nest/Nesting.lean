/-
  CFiber.Nest.Nesting — properly nested loops.

  The chain of calls of the run functions that have not returned is a stack, innermost first.  While
  every switch is made by the innermost loop, the thread's variables say what that stack says: the
  hook is the innermost loop's, the current scheduler and the current reactor are the innermost of
  their kind, and each loop on the stack is in the middle of the fiber that it dispatched.

    • `Nested`          — that state of affairs;
    • `Nested.switch_out`, `.dispatch`, `.enter`, `.leave`, `.spawn`, … — one lemma an operation;
    • `Nested.step`     — kept by every step whose switch is the innermost loop's.
-/
import CFiber.Nest.Thread
import Mathlib.Data.List.Basic

namespace CFiber.Nest

open CFiber.Base

/-! ## §1. The stack of running loops. -/

/-- The loops that run, the innermost first. -/
def Thread.loops (S : Thread) : List Loop := S.chain.map fun k => (S.frames k).loop

def innermost_hook (h₀ : Option Hook) : List Loop → Option Hook
  | [] => h₀
  | l :: _ => some l.hook

def innermost_sched : List Loop → Option Nat
  | [] => none
  | .sched s :: _ => some s
  | .reactor _ :: ls => innermost_sched ls

def innermost_reactor : List Loop → Option Nat
  | [] => none
  | .sched _ :: ls => innermost_reactor ls
  | .reactor r :: _ => some r

/-- What a run function saves as `prev`. -/
def innermost_like (l : Loop) (ls : List Loop) : Option Nat :=
  match l with
  | .sched _ => innermost_sched ls
  | .reactor _ => innermost_reactor ls

theorem Thread.loops_eq {S : Thread} {k : Nat} {ks : List Nat} (hchain : S.chain = k :: ks) :
    S.loops = (S.frames k).loop :: ks.map fun j => (S.frames j).loop := by
  unfold Thread.loops
  rw [hchain, List.map_cons]

/-- The fibers that a loop's record holds. -/
def Record.fibers (r : Record) : List Nat :=
  r.ready ++ r.parked ++ r.current.toList ++ r.zombie.toList

@[simp] theorem Record.mem_fibers {r : Record} {f : Nat} :
    f ∈ r.fibers ↔ f ∈ r.ready ∨ f ∈ r.parked ∨ r.current = some f ∨ r.zombie = some f := by
  simp [Record.fibers]

/-! ## §2. Nested states. -/

/-- Loop `l`, which call `k` runs, is in the middle of fiber `f`. -/
structure Runs (S : Thread) (k f : Nat) : Prop where
  current : (S.records (S.frames k).loop).current = some f
  ctx : (S.records (S.frames k).loop).ctx = .loop k
  owner : S.owner f = some (S.frames k).loop
  dispatcher : S.dispatcher f = some (S.frames k).loop

/-- Control at `w` is that of call `k`: in its loop, or in the fiber that it runs. -/
def Seat (S : Thread) (k : Nat) (w : Where) : Prop :=
  w = .loop k ∨ ∃ f, w = .fiber f ∧ Runs S k f

/-- The calls `ks` are nested, with control at `w` and host code at the bottom; each saved what the
calls below it had set. -/
def Spine (S : Thread) (h₀ : Option Hook) : List Nat → Where → Prop
  | [], w => w = .host
  | k :: ks, w =>
      k < S.calls ∧ k ∉ ks ∧ Seat S k w ∧
      (S.frames k).loop ∉ ks.map (fun j => (S.frames j).loop) ∧
      (S.frames k).prev_hook = innermost_hook h₀ (ks.map fun j => (S.frames j).loop) ∧
      (S.frames k).prev = innermost_like (S.frames k).loop (ks.map fun j => (S.frames j).loop) ∧
      Spine S h₀ ks (S.frames k).caller

/-- **Properly nested.** -/
structure Nested (S : Thread) (h₀ : Option Hook) : Prop where
  spine : S.pc ≠ .trap → Spine S h₀ S.chain S.pc
  hook : S.s_return_hook = innermost_hook h₀ S.loops
  sched : S.s_current_sched = innermost_sched S.loops
  reactor : S.g_reactor = innermost_reactor S.loops
  saved : ∀ f, f < S.spawned → S.fctx f = .fiber f
  held : ∀ l, ∀ f ∈ (S.records l).fibers, S.owner f = some l
  born : ∀ f l, S.owner f = some l → f < S.spawned

theorem Nested.start (h₀ : Option Hook) : Nested (start h₀) h₀ where
  spine := fun _ => rfl
  hook := rfl
  sched := rfl
  reactor := rfl
  saved := by
    intro f hf
    exact absurd hf (Nat.not_lt_zero f)
  held := by
    intro l f hf
    simp [Nest.start, Record.fibers] at hf
  born := by
    intro f l h
    simp [Nest.start] at h

/-! ## §3. What the rest of the stack depends on. -/

/-- `T` keeps, for the loops that the calls `ks` run, what their fibers are in the middle of. -/
structure Below (S T : Thread) (ks : List Nat) : Prop where
  calls : S.calls ≤ T.calls
  loop : ∀ k ∈ ks, (T.frames k).loop = (S.frames k).loop
  prev : ∀ k ∈ ks, (T.frames k).prev = (S.frames k).prev
  prev_hook : ∀ k ∈ ks, (T.frames k).prev_hook = (S.frames k).prev_hook
  caller : ∀ k ∈ ks, (T.frames k).caller = (S.frames k).caller
  current : ∀ k ∈ ks, (T.records (S.frames k).loop).current = (S.records (S.frames k).loop).current
  ctx : ∀ k ∈ ks, (T.records (S.frames k).loop).ctx = (S.records (S.frames k).loop).ctx
  owner : ∀ k ∈ ks, ∀ f, S.owner f = some (S.frames k).loop → T.owner f = S.owner f
  dispatcher : ∀ k ∈ ks, ∀ f, S.owner f = some (S.frames k).loop → T.dispatcher f = S.dispatcher f

/-- Where the calls' locals stay as they are. -/
theorem Below.of_frames {S T : Thread} {ks : List Nat} (hcalls : S.calls ≤ T.calls)
    (hframes : ∀ k ∈ ks, T.frames k = S.frames k)
    (hrecords : ∀ k ∈ ks,
      (T.records (S.frames k).loop).current = (S.records (S.frames k).loop).current ∧
        (T.records (S.frames k).loop).ctx = (S.records (S.frames k).loop).ctx)
    (hfibers : ∀ k ∈ ks, ∀ f, S.owner f = some (S.frames k).loop →
      T.owner f = S.owner f ∧ T.dispatcher f = S.dispatcher f) : Below S T ks where
  calls := hcalls
  loop := fun k hk => congrArg Frame.loop (hframes k hk)
  prev := fun k hk => congrArg Frame.prev (hframes k hk)
  prev_hook := fun k hk => congrArg Frame.prev_hook (hframes k hk)
  caller := fun k hk => congrArg Frame.caller (hframes k hk)
  current := fun k hk => (hrecords k hk).1
  ctx := fun k hk => (hrecords k hk).2
  owner := fun k hk f hf => (hfibers k hk f hf).1
  dispatcher := fun k hk f hf => (hfibers k hk f hf).2

theorem Below.tail {S T : Thread} {k : Nat} {ks : List Nat} (h : Below S T (k :: ks)) :
    Below S T ks where
  calls := h.calls
  loop := fun j hj => h.loop j (List.mem_cons_of_mem _ hj)
  prev := fun j hj => h.prev j (List.mem_cons_of_mem _ hj)
  prev_hook := fun j hj => h.prev_hook j (List.mem_cons_of_mem _ hj)
  caller := fun j hj => h.caller j (List.mem_cons_of_mem _ hj)
  current := fun j hj => h.current j (List.mem_cons_of_mem _ hj)
  ctx := fun j hj => h.ctx j (List.mem_cons_of_mem _ hj)
  owner := fun j hj => h.owner j (List.mem_cons_of_mem _ hj)
  dispatcher := fun j hj => h.dispatcher j (List.mem_cons_of_mem _ hj)

theorem Below.loops {S T : Thread} {ks : List Nat} (h : Below S T ks) :
    ks.map (fun k => (T.frames k).loop) = ks.map fun k => (S.frames k).loop :=
  List.map_congr_left h.loop

theorem Below.runs {S T : Thread} {ks : List Nat} {k f : Nat} (h : Below S T ks) (hk : k ∈ ks)
    (hr : Runs S k f) : Runs T k f where
  current := by rw [h.loop k hk, h.current k hk, hr.current]
  ctx := by rw [h.loop k hk, h.ctx k hk, hr.ctx]
  owner := by rw [h.loop k hk, h.owner k hk f hr.owner, hr.owner]
  dispatcher := by rw [h.loop k hk, h.dispatcher k hk f hr.owner, hr.dispatcher]

theorem Below.spine {S T : Thread} {h₀ : Option Hook} : ∀ {ks : List Nat} {w : Where},
    Below S T ks → Spine S h₀ ks w → Spine T h₀ ks w
  | [], _, _, hs => hs
  | k :: ks, w, h, hs => by
      obtain ⟨hk, hfresh, hseat, hnew, hhook, hprev, hrest⟩ := hs
      have hloop := h.loop k List.mem_cons_self
      refine ⟨by have := h.calls; omega, hfresh, ?_, ?_, ?_, ?_, ?_⟩
      · rcases hseat with hw | ⟨f, hw, hr⟩
        · exact .inl hw
        · exact .inr ⟨f, hw, h.runs List.mem_cons_self hr⟩
      · rw [h.tail.loops, hloop]
        exact hnew
      · rw [h.tail.loops, h.prev_hook k List.mem_cons_self]
        exact hhook
      · rw [h.tail.loops, hloop, h.prev k List.mem_cons_self]
        exact hprev
      · rw [h.caller k List.mem_cons_self]
        exact h.tail.spine hrest

theorem Spine.lt {S : Thread} {h₀ : Option Hook} : ∀ {ks : List Nat} {w : Where},
    Spine S h₀ ks w → ∀ k ∈ ks, k < S.calls
  | [], _, _, k, hk => by simp at hk
  | j :: ks, _, hs, k, hk => by
      obtain ⟨hj, _, _, _, _, _, hrest⟩ := hs
      rcases List.mem_cons.mp hk with rfl | hk
      · exact hj
      · exact hrest.lt k hk

/-- Control in a fiber or in a loop is on a stack that is not empty. -/
theorem Spine.of_ne_host {S : Thread} {h₀ : Option Hook} {ks : List Nat} {w : Where}
    (hs : Spine S h₀ ks w) (hw : w ≠ .host) : ∃ k rest, ks = k :: rest ∧ Seat S k w := by
  cases ks with
  | nil => exact absurd hs hw
  | cons k rest => exact ⟨k, rest, rfl, hs.2.2.1⟩

/-- **Control in loop `k`**: call `k` is the innermost. -/
theorem Nested.at_loop {S : Thread} {h₀ : Option Hook} {k : Nat} (h : Nested S h₀)
    (hpc : S.pc = .loop k) : ∃ ks, S.chain = k :: ks := by
  have hs := h.spine (by simp [hpc])
  obtain ⟨j, ks, hchain, hw | ⟨f, hw, _⟩⟩ := hs.of_ne_host (by simp [hpc])
  · obtain rfl : k = j := by simpa [hpc] using hw
    exact ⟨ks, hchain⟩
  · simp [hpc] at hw

/-- **Control in fiber `f`**: the innermost call runs it. -/
theorem Nested.at_fiber {S : Thread} {h₀ : Option Hook} {f : Nat} (h : Nested S h₀)
    (hpc : S.pc = .fiber f) : ∃ k ks, S.chain = k :: ks ∧ Runs S k f := by
  have hs := h.spine (by simp [hpc])
  obtain ⟨k, ks, hchain, hw | ⟨g, hw, hr⟩⟩ := hs.of_ne_host (by simp [hpc])
  · simp [hpc] at hw
  · obtain rfl : f = g := by simpa [hpc] using hw
    exact ⟨k, ks, hchain, hr⟩

/-! ## §4. Changes that leave control where it is. -/

/-- What `change` may do to a record: nothing new is held, and the loop's context stays. -/
structure Keeps (r r' : Record) : Prop where
  ctx : r'.ctx = r.ctx
  fibers : ∀ f, f ∈ r'.fibers → f ∈ r.fibers

theorem held_update {S : Thread} {l : Loop} {r' : Record} {owner : Nat → Option Loop}
    (hfib : ∀ f ∈ r'.fibers, owner f = some l)
    (hheld : ∀ m, m ≠ l → ∀ f ∈ (S.records m).fibers, owner f = some m) :
    ∀ m, ∀ f ∈ (Function.update S.records l r' m).fibers, owner f = some m := by
  intro m f hf
  by_cases hm : m = l
  · subst hm
    exact hfib f (by simpa using hf)
  · rw [Function.update_of_ne hm] at hf
    exact hheld m hm f hf

theorem Nested.trap {S : Thread} {h₀ : Option Hook} (h : Nested S h₀) :
    Nested { S with pc := .trap } h₀ :=
  ⟨fun hpc => absurd rfl hpc, h.hook, h.sched, h.reactor, h.saved, h.held, h.born⟩

theorem Nested.refused {S : Thread} {h₀ : Option Hook} (h : Nested S h₀) (e : Option Errno)
    (rc : Int) : Nested { S with errno := e, rc := rc } h₀ where
  spine := by
    intro hpc
    apply Below.spine _ (h.spine hpc)
    exact .of_frames (Nat.le_refl _) (fun _ _ => rfl) (fun _ _ => ⟨rfl, rfl⟩)
      fun _ _ _ _ => ⟨rfl, rfl⟩
  hook := h.hook
  sched := h.sched
  reactor := h.reactor
  saved := h.saved
  held := h.held
  born := h.born

theorem Nested.record {S : Thread} {h₀ : Option Hook} (h : Nested S h₀) {l : Loop} {r' : Record}
    (hk : Keeps (S.records l) r') (hcur : r'.current = (S.records l).current) :
    Nested { S with records := Function.update S.records l r' } h₀ where
  spine := by
    intro hpc
    apply Below.spine _ (h.spine hpc)
    refine .of_frames (Nat.le_refl _) (fun _ _ => rfl) ?_ fun _ _ _ _ => ⟨rfl, rfl⟩
    intro k _
    by_cases hl : (S.frames k).loop = l
    · simp [hl, hcur, hk.ctx]
    · simp [hl]
  hook := h.hook
  sched := h.sched
  reactor := h.reactor
  saved := h.saved
  held := held_update (fun f hf => h.held l f (hk.fibers f hf)) fun m _ => h.held m
  born := h.born

theorem Nested.set_phase {S : Thread} {h₀ : Option Hook} (h : Nested S h₀) (k : Nat)
    (phase : Phase) : Nested (set_phase S k phase) h₀ := by
  have hframe : ∀ j, (Nest.set_phase S k phase).frames j =
      { S.frames j with phase := ((Nest.set_phase S k phase).frames j).phase } := by
    intro j
    unfold Nest.set_phase
    by_cases hj : j = k
    · simp [hj]
    · simp [hj]
  have hbelow : ∀ ks, Below S (Nest.set_phase S k phase) ks := by
    intro ks
    exact {
      calls := Nat.le_refl _
      loop := fun j _ => by rw [hframe]
      prev := fun j _ => by rw [hframe]
      prev_hook := fun j _ => by rw [hframe]
      caller := fun j _ => by rw [hframe]
      current := fun _ _ => rfl
      ctx := fun _ _ => rfl
      owner := fun _ _ _ _ => rfl
      dispatcher := fun _ _ _ _ => rfl }
  have hloops : (Nest.set_phase S k phase).loops = S.loops := (hbelow S.chain).loops
  exact {
    spine := fun hpc => (hbelow _).spine (h.spine hpc)
    hook := by rw [hloops]; exact h.hook
    sched := by rw [hloops]; exact h.sched
    reactor := by rw [hloops]; exact h.reactor
    saved := h.saved
    held := h.held
    born := h.born }

theorem Nested.spawn {S : Thread} {h₀ : Option Hook} (h : Nested S h₀) (l : Loop) (ok : Bool) :
    Nested (spawn S l ok) h₀ := by
  unfold Nest.spawn
  split
  case isFalse => exact h
  case isTrue =>
    have hold : ∀ f m, S.owner f = some m → f ≠ S.spawned := by
      intro f m hf
      have := h.born f m hf
      omega
    constructor
    case spine =>
      intro hpc
      apply Below.spine _ (h.spine hpc)
      refine .of_frames (Nat.le_refl _) (fun _ _ => rfl) ?_ ?_
      · intro k _
        by_cases hl : (S.frames k).loop = l
        · simp [hl]
        · simp [hl]
      · intro k _ f hf
        simp [hold f _ hf]
    case hook => exact h.hook
    case sched => exact h.sched
    case reactor => exact h.reactor
    case saved =>
      intro f hf
      show Function.update S.fctx S.spawned (.fiber S.spawned) f = .fiber f
      by_cases hfs : f = S.spawned
      · simp [hfs]
      · have hlt : f < S.spawned + 1 := hf
        rw [Function.update_of_ne hfs]
        exact h.saved f (by omega)
    case held =>
      -- The new fiber is the loop's; the others keep their owner.
      have hkeep : ∀ m, ∀ f ∈ (S.records m).fibers,
          Function.update S.owner S.spawned (some l) f = some m := by
        intro m f hf
        have howner := h.held m f hf
        rw [Function.update_of_ne (hold f m howner)]
        exact howner
      refine held_update ?_ fun m _ => hkeep m
      intro f hf
      by_cases hfs : f = S.spawned
      · simp [hfs]
      · exact hkeep l f (by simpa [hfs] using hf)
    case born =>
      intro f m hf
      show f < S.spawned + 1
      by_cases hfs : f = S.spawned
      · omega
      · have := h.born f m (by simpa [hfs] using hf)
        omega

/-! ## §5. Switches, entering and leaving. -/

/-- The running fiber of the innermost loop leaves to it. -/
theorem Nested.switch_out {S : Thread} {h₀ : Option Hook} (h : Nested S h₀) {k f : Nat}
    {ks : List Nat} {change : Record → Record} (hpc : S.pc = .fiber f) (hchain : S.chain = k :: ks)
    (hr : Runs S k f)
    (hk : Keeps (S.records (S.frames k).loop) (change (S.records (S.frames k).loop))) :
    Nested (switch_out S (S.frames k).loop f change) h₀ := by
  have hs := h.spine (by simp [hpc])
  rw [hchain] at hs
  obtain ⟨hlt, hfresh, -, hnew, hhook, hprev, hrest⟩ := hs
  constructor
  case spine =>
    intro _
    show Spine _ h₀ S.chain (S.records (S.frames k).loop).ctx
    rw [hchain, hr.ctx]
    -- Every other loop on the stack is a different one.
    refine ⟨hlt, hfresh, .inl rfl, hnew, hhook, hprev, Below.spine ?_ hrest⟩
    refine .of_frames (Nat.le_refl _) (fun _ _ => rfl) ?_ fun _ _ _ _ => ⟨rfl, rfl⟩
    intro j hj
    have hne : (S.frames j).loop ≠ (S.frames k).loop := by
      intro heq
      exact hnew (heq ▸ List.mem_map_of_mem hj)
    simp [Nest.switch_out, hne]
  case hook => exact h.hook
  case sched => exact h.sched
  case reactor => exact h.reactor
  case saved =>
    intro g hg
    show Function.update S.fctx f S.pc g = .fiber g
    by_cases hgf : g = f
    · simp [hgf, hpc]
    · rw [Function.update_of_ne hgf]
      exact h.saved g hg
  case held =>
    exact held_update (fun g hg => h.held _ g (hk.fibers g hg)) fun m _ => h.held m
  case born => exact h.born

/-- The loop that control is in dispatches the head of its queue. -/
theorem Nested.dispatch {S : Thread} {h₀ : Option Hook} (h : Nested S h₀) {k f : Nat} {l : Loop}
    {rest : List Nat} (hpc : S.pc = .loop k) (hl : (S.frames k).loop = l)
    (hready : (S.records l).ready = f :: rest) : Nested (dispatch S l f rest) h₀ := by
  subst hl
  obtain ⟨ks, hchain⟩ := h.at_loop hpc
  have hs := h.spine (by simp [hpc])
  rw [hchain] at hs
  obtain ⟨hlt, hfresh, -, hnew, hhook, hprev, hrest⟩ := hs
  have howner : S.owner f = some (S.frames k).loop := h.held _ f (by simp [hready])
  constructor
  case spine =>
    intro _
    show Spine _ h₀ S.chain (S.fctx f)
    rw [hchain, h.saved f (h.born f _ howner)]
    refine ⟨hlt, hfresh, .inr ⟨f, rfl, ?_⟩, hnew, hhook, hprev, Below.spine ?_ hrest⟩
    · exact {
        current := by simp [Nest.dispatch]
        ctx := by simp [Nest.dispatch, hpc]
        owner := howner
        dispatcher := by simp [Nest.dispatch] }
    · refine .of_frames (Nat.le_refl _) (fun _ _ => rfl) ?_ ?_
      · intro j hj
        have hne : (S.frames j).loop ≠ (S.frames k).loop := by
          intro heq
          exact hnew (heq ▸ List.mem_map_of_mem hj)
        simp [Nest.dispatch, hne]
      · intro j hj g hg
        -- A fiber that another loop runs is not the one dispatched.
        have hgf : g ≠ f := by
          intro heq
          rw [heq, howner] at hg
          exact hnew (Option.some.inj hg ▸ List.mem_map_of_mem hj)
        simp [Nest.dispatch, hgf]
  case hook => exact h.hook
  case sched => exact h.sched
  case reactor => exact h.reactor
  case saved => exact h.saved
  case held =>
    refine held_update ?_ fun m _ => h.held m
    intro g hg
    apply h.held _ g
    simp only [Record.mem_fibers, hready] at hg ⊢
    grind
  case born => exact h.born

@[simp] theorem enter_chain (S : Thread) (l : Loop) : (enter S l).chain = S.calls :: S.chain := by
  cases l <;> rfl

@[simp] theorem enter_calls (S : Thread) (l : Loop) : (enter S l).calls = S.calls + 1 := by
  cases l <;> rfl

theorem enter_frames_of_ne {S : Thread} {l : Loop} {k : Nat} (hk : k ≠ S.calls) :
    (enter S l).frames k = S.frames k := by
  cases l <;> simp [enter, cfiber_set_return_hook, hk]

@[simp] theorem enter_loop (S : Thread) (l : Loop) : ((enter S l).frames S.calls).loop = l := by
  cases l <;> simp [enter, cfiber_set_return_hook]

theorem enter_loops {S : Thread} {l : Loop} (hfresh : S.calls ∉ S.chain) :
    (enter S l).loops = l :: S.loops := by
  rw [Thread.loops_eq (enter_chain S l), enter_loop]
  congr 1
  apply List.map_congr_left
  intro k hk
  rw [enter_frames_of_ne fun heq => hfresh (heq ▸ hk)]

/-- A loop that does not run is entered. -/
theorem Nested.enter {S : Thread} {h₀ : Option Hook} (h : Nested S h₀) {l : Loop}
    (hpc : S.pc ≠ .trap) (hl : l ∉ S.loops) : Nested (enter S l) h₀ := by
  have hs := h.spine hpc
  -- the call's number is new, so the frames below keep theirs
  have hfresh : S.calls ∉ S.chain := by
    intro hmem
    exact absurd (hs.lt _ hmem) (Nat.lt_irrefl _)
  have hframe : (Nest.enter S l).frames S.calls =
      ⟨l, innermost_like l S.loops, innermost_hook h₀ S.loops, .top, S.pc⟩ := by
    cases l <;>
      simp [Nest.enter, cfiber_set_return_hook, h.hook, h.sched, h.reactor, innermost_like]
  have hbelow : Below S (Nest.enter S l) S.chain := by
    refine .of_frames (by simp) ?_ ?_ ?_
    · intro k hk
      exact enter_frames_of_ne fun heq => hfresh (heq ▸ hk)
    · intro k _
      cases l <;> exact ⟨rfl, rfl⟩
    · intro k _ f _
      cases l <;> exact ⟨rfl, rfl⟩
  constructor
  case spine =>
    intro _
    rw [enter_chain]
    refine ⟨by simp, hfresh, ?_, ?_, ?_, ?_, ?_⟩
    · cases l <;> exact .inl rfl
    · rw [hbelow.loops, hframe]
      exact hl
    · rw [hbelow.loops, hframe]
      rfl
    · rw [hbelow.loops, hframe]
      rfl
    · rw [hframe]
      exact hbelow.spine hs
  case hook =>
    rw [enter_loops hfresh]
    cases l <;> rfl
  case sched =>
    rw [enter_loops hfresh]
    cases l with
    | sched s => rfl
    | reactor r => exact h.sched
  case reactor =>
    rw [enter_loops hfresh]
    cases l with
    | sched s => exact h.reactor
    | reactor r => rfl
  case saved => cases l <;> exact h.saved
  case held => cases l <;> exact h.held
  case born => cases l <;> exact h.born

theorem leave_sched {S : Thread} {k s : Nat} (hl : (S.frames k).loop = .sched s) (rc : Int) :
    leave S k rc =
      { S with
        s_return_hook := (S.frames k).prev_hook
        s_current_sched := (S.frames k).prev
        pc := (S.frames k).caller
        chain := S.chain.erase k } := by
  simp [leave, cfiber_set_return_hook, hl]

theorem leave_reactor {S : Thread} {k r : Nat} (hl : (S.frames k).loop = .reactor r) (rc : Int) :
    leave S k rc =
      { S with
        s_return_hook := (S.frames k).prev_hook
        g_reactor := (S.frames k).prev
        pc := (S.frames k).caller
        rc := rc
        chain := S.chain.erase k } := by
  simp [leave, cfiber_set_return_hook, hl]

/-- The innermost call returns. -/
theorem Nested.leave {S : Thread} {h₀ : Option Hook} (h : Nested S h₀) {k : Nat}
    (hpc : S.pc = .loop k) (rc : Int) : Nested (leave S k rc) h₀ := by
  obtain ⟨ks, hchain⟩ := h.at_loop hpc
  have hs := h.spine (by simp [hpc])
  rw [hchain] at hs
  obtain ⟨-, -, -, -, hhook, hprev, hrest⟩ := hs
  have hsched := h.sched
  have hreactor := h.reactor
  rw [Thread.loops_eq hchain] at hsched hreactor
  have hchain' : S.chain.erase k = ks := by simp [hchain]
  cases hl : (S.frames k).loop with
  | sched s =>
      rw [leave_sched hl, hchain']
      simp only [hl, innermost_like] at hprev
      refine ⟨?_, hhook, hprev, ?_, h.saved, h.held, h.born⟩
      · intro _
        apply Below.spine _ hrest
        exact .of_frames (Nat.le_refl _) (fun _ _ => rfl) (fun _ _ => ⟨rfl, rfl⟩)
          fun _ _ _ _ => ⟨rfl, rfl⟩
      · show S.g_reactor = innermost_reactor (ks.map _)
        rw [hreactor, hl]
        rfl
  | reactor r =>
      rw [leave_reactor hl, hchain']
      simp only [hl, innermost_like] at hprev
      refine ⟨?_, hhook, ?_, hprev, h.saved, h.held, h.born⟩
      · intro _
        apply Below.spine _ hrest
        exact .of_frames (Nat.le_refl _) (fun _ _ => rfl) (fun _ _ => ⟨rfl, rfl⟩)
          fun _ _ _ _ => ⟨rfl, rfl⟩
      · show S.s_current_sched = innermost_sched (ks.map _)
        rw [hsched, hl]
        rfl

/-! ## §6. Turns of a loop. -/

theorem Keeps.refl (r : Record) : Keeps r r := ⟨rfl, fun _ h => h⟩

theorem Keeps.trans {r r' r'' : Record} (h : Keeps r r') (h' : Keeps r' r'') : Keeps r r'' :=
  ⟨h'.ctx.trans h.ctx, fun f hf => h.fibers f (h'.fibers f hf)⟩

theorem resume_keeps (r : Record) (w : Nat) :
    Keeps r (resume r w) ∧ (resume r w).current = r.current := by
  unfold resume
  split
  case isFalse => exact ⟨Keeps.refl r, rfl⟩
  case isTrue hw =>
    refine ⟨⟨rfl, ?_⟩, rfl⟩
    intro f hf
    have herase : f ∈ r.parked.erase w → f ∈ r.parked := List.mem_of_mem_erase
    simp only [Record.mem_fibers, List.mem_append, List.mem_singleton] at hf ⊢
    grind

theorem resume_all_keeps (ws : List Nat) : ∀ r : Record,
    Keeps r (ws.foldl resume r) ∧ (ws.foldl resume r).current = r.current := by
  induction ws with
  | nil =>
      intro r
      exact ⟨Keeps.refl r, rfl⟩
  | cons w ws ih =>
      intro r
      obtain ⟨hk, hcur⟩ := resume_keeps r w
      obtain ⟨hks, hcurs⟩ := ih (resume r w)
      exact ⟨hk.trans hks, hcurs.trans hcur⟩

theorem Nested.reap {S : Thread} {h₀ : Option Hook} (h : Nested S h₀) (l : Loop) :
    Nested (reap S l) h₀ := by
  have hk : Keeps (S.records l) { S.records l with zombie := none } := by
    refine ⟨rfl, ?_⟩
    intro f hf
    simp only [Record.mem_fibers] at hf ⊢
    grind
  exact h.record hk rfl

theorem Nested.scheduler_turn {S : Thread} {h₀ : Option Hook} (h : Nested S h₀) {k s : Nat}
    (hpc : S.pc = .loop k) (hl : (S.frames k).loop = .sched s) :
    Nested (scheduler_turn S k s) h₀ := by
  have hreap := h.reap (.sched s)
  unfold Nest.scheduler_turn
  dsimp only
  split
  case isFalse => exact hreap.leave hpc 0
  case isTrue =>
    split
    case h_1 => exact hreap.trap
    case h_2 f rest hready => exact hreap.dispatch hpc hl hready

theorem Nested.reactor_poll {S : Thread} {h₀ : Option Hook} (h : Nested S h₀) {k : Nat}
    (hpc : S.pc = .loop k) (r : Nat) (poll : Poll) : Nested (reactor_poll S k r poll) h₀ := by
  unfold Nest.reactor_poll
  split
  case isTrue => exact h.leave hpc 0
  case isFalse =>
    cases poll with
    | failed => exact h.leave hpc (-1)
    | interrupted => exact h.set_phase k .top
    | resume ws =>
        obtain ⟨hk, hcur⟩ := resume_all_keeps ws (S.records (.reactor r))
        exact (h.record hk hcur).set_phase k .top

theorem Nested.reactor_turn {S : Thread} {h₀ : Option Hook} (h : Nested S h₀) {k r : Nat}
    (hpc : S.pc = .loop k) (hl : (S.frames k).loop = .reactor r) (poll : Poll) :
    Nested (reactor_turn S k r poll) h₀ := by
  unfold Nest.reactor_turn
  split
  case h_1 =>
    split
    case isTrue => exact h.set_phase k _
    case isFalse => exact h.leave hpc 0
  case h_2 stop last _ =>
    have hreap := h.reap (.reactor r)
    dsimp only
    split
    case h_1 => exact hreap.reactor_poll hpc r poll
    case h_2 f rest hready =>
      split
      case isTrue => exact hreap.reactor_poll hpc r poll
      case isFalse =>
        -- Only the phase of the call's locals has changed, so its loop is still `r`.
        have hphase := hreap.set_phase k (.round stop (some f))
        have hloop : ((Nest.set_phase (Nest.reap S (.reactor r)) k
            (.round stop (some f))).frames k).loop = .reactor r := by
          simpa [Nest.set_phase, Nest.reap] using hl
        exact hphase.dispatch hpc hloop hready

theorem Nested.turn {S : Thread} {h₀ : Option Hook} (h : Nested S h₀) {k : Nat}
    (hpc : S.pc = .loop k) (poll : Poll) : Nested (turn S k poll) h₀ := by
  unfold Nest.turn
  split
  case h_1 s hl => exact h.scheduler_turn hpc hl
  case h_2 r hl => exact h.reactor_turn hpc hl poll

end CFiber.Nest
