/-
  CFiber.Ev.Roster — the scheduler's five views of the same fibers.

  `Roster` ties the ready queue, the live list, `current`, `zombie` and the two counters to the map
  from fibers to states.  Its rules are the moves of a fiber through its life:

      spawn ─▶ READY ─▶ RUNNING ─▶ PARKED ─▶ READY …        (`spawn`, `dispatch`, `park`, `resume`)
                  ▲________│                                (`yield`)
                           ▼
                        ZOMBIE ─▶ FREE                      (`finish`, `recycle`)

  Each says what the move does to all views at once.  No rule mentions what a fiber waits for.
-/
import CFiber.Ev.Reactor
import CFiber.Memory.MultislabRep

namespace CFiber.Ev

open CFiber.Base CFiber.Memory

/-! ## §1. Counting fibers by state. -/

/-- READY, RUNNING and PARKED fibers are active. -/
def isActive : FiberState → Bool
  | .FB_READY | .FB_RUNNING | .FB_PARKED => true
  | .FB_FREE | .FB_ZOMBIE => false

def isParked : FiberState → Bool
  | .FB_PARKED => true
  | _ => false

/-- The number of fibers of `l` in a state that satisfies `p`. -/
def census (p : FiberState → Bool) (state : Nat → FiberState) (l : List Nat) : Int :=
  l.countP fun f => p (state f)

/-- `1` for a state that satisfies `p`. -/
def weight (p : FiberState → Bool) (v : FiberState) : Int := if p v then 1 else 0

/-- **One fiber changes state**: the count changes by its weights before and after. -/
theorem census_update {l : List Nat} (hnd : l.Nodup) {f : Nat} (hf : f ∈ l)
    (p : FiberState → Bool) (state : Nat → FiberState) (v : FiberState) :
    census p (Function.update state f v) l
      = census p state l - weight p (state f) + weight p v := by
  have hcount := countP_congr_except hnd hf
    (p := fun g => p (state g)) (q := fun g => p (Function.update state f v g))
    (fun g _ hgf => by simp [hgf])
  simp only [Function.update_self] at hcount
  unfold census weight
  split_ifs at hcount ⊢ <;> omega

/-- A fiber outside the list changes no count. -/
theorem census_update_of_not_mem {l : List Nat} {f : Nat} (hf : f ∉ l) (p : FiberState → Bool)
    (state : Nat → FiberState) (v : FiberState) :
    census p (Function.update state f v) l = census p state l := by
  unfold census
  congr 1
  apply List.countP_congr
  intro g hg
  have hgf : g ≠ f := fun e => hf (e ▸ hg)
  rw [Function.update_of_ne hgf]

theorem census_cons (p : FiberState → Bool) (state : Nat → FiberState) (f : Nat) (l : List Nat) :
    census p state (f :: l) = census p state l + weight p (state f) := by
  unfold census weight
  rw [List.countP_cons]
  split_ifs <;> simp

theorem census_erase {l : List Nat} {f : Nat} (hf : f ∈ l) (p : FiberState → Bool)
    (state : Nat → FiberState) :
    census p state (l.erase f) = census p state l - weight p (state f) := by
  have hperm := (List.perm_cons_erase hf).countP_eq fun g => p (state g)
  rw [List.countP_cons] at hperm
  unfold census weight
  split_ifs at hperm ⊢ <;> omega

/-- Two state maps that agree on the list give the same count. -/
theorem census_congr {l : List Nat} (p : FiberState → Bool) {state state' : Nat → FiberState}
    (h : ∀ f ∈ l, state' f = state f) : census p state' l = census p state l := by
  unfold census
  congr 1
  apply List.countP_congr
  intro f hf
  rw [h f hf]

/-! ## §2. The roster. -/

/-- The queue `q` and the live list `l`, the pointers, the states and the counters agree. -/
structure Roster (nx : Nat → Option Nat) (hd tl : Option Nat) (state : Nat → FiberState)
    (current zombie : Option Nat) (active blocked : Int32) (l q : List Nat) : Prop where
  queue : Fifo nx hd tl q
  ready : ∀ f, f ∈ q ↔ state f = .FB_READY
  nodup : l.Nodup
  live : ∀ f, f ∈ l ↔ state f ≠ .FB_FREE
  running : ∀ f, state f = .FB_RUNNING ↔ current = some f
  dead : ∀ f, state f = .FB_ZOMBIE ↔ zombie = some f
  active : active = Int32.ofInt (census isActive state l)
  blocked : blocked = Int32.ofInt (census isParked state l)

section
variable {nx : Nat → Option Nat} {hd tl : Option Nat} {state : Nat → FiberState}
variable {current zombie : Option Nat} {active blocked : Int32} {l q : List Nat} {f : Nat}
variable {v w : FiberState}

/-- Nobody enters or leaves state `w`. -/
theorem sole_keep {x : Option Nat} (h : ∀ g, state g = w ↔ x = some g) (hv : v ≠ w)
    (hf : state f ≠ w) : ∀ g, Function.update state f v g = w ↔ x = some g := by
  intro g
  by_cases hgf : g = f
  · subst hgf
    rw [Function.update_self, ← h g]
    exact ⟨fun e => absurd e hv, fun e => absurd e hf⟩
  · rw [Function.update_of_ne hgf]
    exact h g

/-- `f` enters state `w`, in which nobody was. -/
theorem sole_enter (h : ∀ g, state g = w ↔ none = some g) :
    ∀ g, Function.update state f w g = w ↔ some f = some g := by
  intro g
  by_cases hgf : g = f
  · subst hgf; simp
  · rw [Function.update_of_ne hgf, h g]
    simp [Ne.symm hgf]

/-- `f`, alone in state `w`, leaves it. -/
theorem sole_leave (h : ∀ g, state g = w ↔ some f = some g) (hv : v ≠ w) :
    ∀ g, Function.update state f v g = w ↔ none = some g := by
  intro g
  by_cases hgf : g = f
  · subst hgf; simp [hv]
  · rw [Function.update_of_ne hgf, h g]
    simp [Ne.symm hgf]

/-- A live fiber stays live in every state but `FB_FREE`. -/
theorem live_keep (h : ∀ g, g ∈ l ↔ state g ≠ .FB_FREE) (hf : state f ≠ .FB_FREE)
    (hv : v ≠ .FB_FREE) : ∀ g, g ∈ l ↔ Function.update state f v g ≠ .FB_FREE := by
  intro g
  by_cases hgf : g = f
  · subst hgf
    rw [Function.update_self, h g]
    exact ⟨fun _ => hv, fun _ => hf⟩
  · rw [Function.update_of_ne hgf]
    exact h g

/-- The queue does not change when nobody enters or leaves `FB_READY`. -/
theorem ready_keep (h : ∀ g, g ∈ q ↔ state g = .FB_READY) (hf : state f ≠ .FB_READY)
    (hv : v ≠ .FB_READY) : ∀ g, g ∈ q ↔ Function.update state f v g = .FB_READY := by
  intro g
  by_cases hgf : g = f
  · subst hgf
    rw [Function.update_self, h g]
    exact ⟨fun e => absurd e hf, fun e => absurd e hv⟩
  · rw [Function.update_of_ne hgf]
    exact h g

/-- The fiber that becomes READY is the one appended. -/
theorem ready_snoc (h : ∀ g, g ∈ q ↔ state g = .FB_READY) :
    ∀ g, g ∈ q ++ [f] ↔ Function.update state f .FB_READY g = .FB_READY := by
  intro g
  by_cases hgf : g = f
  · subst hgf; simp
  · rw [Function.update_of_ne hgf, ← h g]
    simp [hgf]

/-- Only READY fibers are on the queue. -/
theorem Roster.not_queued (h : Roster nx hd tl state current zombie active blocked l q)
    (hf : state f ≠ .FB_READY) : f ∉ q := by
  intro hm
  exact hf ((h.ready f).mp hm)

/-- **Spawn.**  A free struct becomes the newest live fiber, at the back of the queue. -/
theorem Roster.spawn (h : Roster nx hd tl state current zombie active blocked l q)
    (hf : state f = .FB_FREE) :
    Roster (snocNext nx tl f) (snocHead hd tl f) (some f) (Function.update state f .FB_READY)
      current zombie (active + 1) blocked (f :: l) (q ++ [f]) := by
  have hfl : f ∉ l := by
    rw [h.live f, hf]
    simp
  have hne : state f ≠ .FB_READY := by simp [hf]
  refine
    { queue := h.queue.push (h.not_queued hne)
      ready := ready_snoc h.ready
      nodup := List.nodup_cons.mpr ⟨hfl, h.nodup⟩
      live := ?_
      running := sole_keep h.running (by simp) (by simp [hf])
      dead := sole_keep h.dead (by simp) (by simp [hf])
      active := ?_
      blocked := ?_ }
  · intro g
    by_cases hgf : g = f
    · subst hgf; simp
    · rw [Function.update_of_ne hgf, ← h.live g]
      simp [hgf]
  · rw [census_cons, census_update_of_not_mem hfl, Function.update_self, h.active, Int32.ofInt_add]
    rfl
  · rw [census_cons, census_update_of_not_mem hfl, Function.update_self, h.blocked]
    simp [weight, isParked]

/-- **Dispatch.**  The head of the queue runs. -/
theorem Roster.dispatch (h : Roster nx hd tl state none zombie active blocked l (f :: q)) :
    Roster (Function.update nx f none) (nx f) (popTail (nx f) tl)
      (Function.update state f .FB_RUNNING) (some f) zombie active blocked l q := by
  have hf : state f = .FB_READY := (h.ready f).mp List.mem_cons_self
  have hfl : f ∈ l := (h.live f).mpr (by simp [hf])
  have hfq : f ∉ q := (List.nodup_cons.mp h.queue.nodup).1
  refine
    { queue := h.queue.pop
      ready := ?_
      nodup := h.nodup
      live := live_keep h.live (by simp [hf]) (by simp)
      running := sole_enter h.running
      dead := sole_keep h.dead (by simp) (by simp [hf])
      active := ?_
      blocked := ?_ }
  · intro g
    by_cases hgf : g = f
    · subst hgf; simp [hfq]
    · rw [Function.update_of_ne hgf, ← h.ready g]
      simp [hgf]
  · rw [census_update h.nodup hfl, h.active, hf]
    simp [weight, isActive]
  · rw [census_update h.nodup hfl, h.blocked, hf]
    simp [weight, isParked]

/-- **Yield.**  The running fiber goes to the back of the queue. -/
theorem Roster.yield (h : Roster nx hd tl state (some f) zombie active blocked l q) :
    Roster (snocNext nx tl f) (snocHead hd tl f) (some f) (Function.update state f .FB_READY)
      none zombie active blocked l (q ++ [f]) := by
  have hf : state f = .FB_RUNNING := (h.running f).mpr rfl
  have hfl : f ∈ l := (h.live f).mpr (by simp [hf])
  refine
    { queue := h.queue.push (h.not_queued (by simp [hf]))
      ready := ready_snoc h.ready
      nodup := h.nodup
      live := live_keep h.live (by simp [hf]) (by simp)
      running := sole_leave h.running (by simp)
      dead := sole_keep h.dead (by simp) (by simp [hf])
      active := ?_
      blocked := ?_ }
  · rw [census_update h.nodup hfl, h.active, hf]
    simp [weight, isActive]
  · rw [census_update h.nodup hfl, h.blocked, hf]
    simp [weight, isParked]

/-- **Park.**  The running fiber blocks. -/
theorem Roster.park (h : Roster nx hd tl state (some f) zombie active blocked l q) :
    Roster nx hd tl (Function.update state f .FB_PARKED) none zombie active (blocked + 1) l q := by
  have hf : state f = .FB_RUNNING := (h.running f).mpr rfl
  have hfl : f ∈ l := (h.live f).mpr (by simp [hf])
  refine
    { queue := h.queue
      ready := ready_keep h.ready (by simp [hf]) (by simp)
      nodup := h.nodup
      live := live_keep h.live (by simp [hf]) (by simp)
      running := sole_leave h.running (by simp)
      dead := sole_keep h.dead (by simp) (by simp [hf])
      active := ?_
      blocked := ?_ }
  · rw [census_update h.nodup hfl, h.active, hf]
    simp [weight, isActive]
  · rw [census_update h.nodup hfl, h.blocked, hf]
    simp [weight, isParked]

/-- **Resume.**  A parked fiber goes to the back of the queue. -/
theorem Roster.resume (h : Roster nx hd tl state current zombie active blocked l q)
    (hf : state f = .FB_PARKED) :
    Roster (snocNext nx tl f) (snocHead hd tl f) (some f) (Function.update state f .FB_READY)
      current zombie active (blocked - 1) l (q ++ [f]) := by
  have hfl : f ∈ l := (h.live f).mpr (by simp [hf])
  refine
    { queue := h.queue.push (h.not_queued (by simp [hf]))
      ready := ready_snoc h.ready
      nodup := h.nodup
      live := live_keep h.live (by simp [hf]) (by simp)
      running := sole_keep h.running (by simp) (by simp [hf])
      dead := sole_keep h.dead (by simp) (by simp [hf])
      active := ?_
      blocked := ?_ }
  · rw [census_update h.nodup hfl, h.active, hf]
    simp [weight, isActive]
  · rw [census_update h.nodup hfl, h.blocked, hf]
    simp [weight, isParked]

/-- **Finish.**  The running fiber's entry function returned. -/
theorem Roster.finish (h : Roster nx hd tl state (some f) none active blocked l q) :
    Roster nx hd tl (Function.update state f .FB_ZOMBIE) none (some f) (active - 1) blocked l q := by
  have hf : state f = .FB_RUNNING := (h.running f).mpr rfl
  have hfl : f ∈ l := (h.live f).mpr (by simp [hf])
  refine
    { queue := h.queue
      ready := ready_keep h.ready (by simp [hf]) (by simp)
      nodup := h.nodup
      live := live_keep h.live (by simp [hf]) (by simp)
      running := sole_leave h.running (by simp)
      dead := sole_enter h.dead
      active := ?_
      blocked := ?_ }
  · rw [census_update h.nodup hfl, h.active, hf]
    simp [weight, isActive]
  · rw [census_update h.nodup hfl, h.blocked, hf]
    simp [weight, isParked]

/-- **Recycle.**  The completed fiber's struct is free again. -/
theorem Roster.recycle (h : Roster nx hd tl state current (some f) active blocked l q) :
    Roster nx hd tl (Function.update state f .FB_FREE) current none active blocked (l.erase f) q := by
  have hf : state f = .FB_ZOMBIE := (h.dead f).mpr rfl
  have hfl : f ∈ l := (h.live f).mpr (by simp [hf])
  have hfe : f ∉ l.erase f := h.nodup.not_mem_erase
  refine
    { queue := h.queue
      ready := ready_keep h.ready (by simp [hf]) (by simp)
      nodup := h.nodup.erase f
      live := ?_
      running := sole_keep h.running (by simp) (by simp [hf])
      dead := sole_leave h.dead (by simp)
      active := ?_
      blocked := ?_ }
  · intro g
    by_cases hgf : g = f
    · subst hgf; simp [hfe]
    · rw [Function.update_of_ne hgf, ← h.live g]
      exact List.mem_erase_of_ne hgf
  · rw [census_update_of_not_mem hfe, census_erase hfl, h.active, hf]
    simp [weight, isActive]
  · rw [census_update_of_not_mem hfe, census_erase hfl, h.blocked, hf]
    simp [weight, isParked]

/-- The structs outside the live list may be overwritten as long as they stay free. -/
theorem Roster.congr (h : Roster nx hd tl state current zombie active blocked l q)
    {nx' : Nat → Option Nat} {state' : Nat → FiberState} (hnx : ∀ g ∈ l, nx' g = nx g)
    (hst : ∀ g, state' g = state g) :
    Roster nx' hd tl state' current zombie active blocked l q := by
  obtain rfl : state' = state := funext hst
  refine { h with queue := h.queue.congr fun g hg => hnx g ?_ }
  rw [h.live, (h.ready g).mp hg]
  simp

end

end CFiber.Ev
