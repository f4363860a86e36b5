/-
  CFiber.Ev.Timers — the timer heap (`reactor.c`, "Timer min-heap").

  A binary heap of fibers ordered by `deadline_ns`; each member records its slot in `timer_i`.  Both
  sift loops take a bound on their turns; `heap_sift_up_eq` and `heap_sift_down_eq` show that the
  bound is never reached, so they are the loops of the source.

    • `timer_add_spec`    — the fiber becomes a member, or nothing but the allocator changes;
    • `timer_remove_spec` — the fiber is no member afterwards, and the others stay.
-/
import CFiber.Base.Heaped
import CFiber.Ev.Reactor
import Mathlib.Logic.Relation

namespace CFiber.Ev

open CFiber.Base CFiber.Memory

variable {T : Target} {γ σ κ : Type}

/-! ## §1. The functions. -/

def TIMER_HEAP_INIT_CAP : Nat := 16

def TIMER_HEAP_GROWTH : Nat := 2

def heap_reserve (L : Libc γ) (s : Reactor T γ σ κ) (need : Nat) : Bool × Reactor T γ σ κ :=
  if need ≤ s.heap_cap then (true, s)
  else
    let cap := if s.heap_cap ≠ 0 then s.heap_cap * TIMER_HEAP_GROWTH else TIMER_HEAP_INIT_CAP
    let cap := grow_cap need need cap
    match L.realloc (T.wrap (cap * sizeof_ptr T)) s.libc with
    | (false, c) => (false, { s with libc := c })
    | (true, c) => (true, { s with libc := c, heap_cap := cap })

def heap_swap (s : Reactor T γ σ κ) (a b : Nat) : Reactor T γ σ κ :=
  let tmp := s.heap a
  let s := { s with heap := Function.update s.heap a (s.heap b) }
  let s := { s with heap := Function.update s.heap b tmp }
  let s := { s with
    mem := { s.mem with timer_i := Function.update s.mem.timer_i (s.heap a) (some a) } }
  { s with mem := { s.mem with timer_i := Function.update s.mem.timer_i (s.heap b) (some b) } }

/-- The loop of `heap_sift_up`, in at most `fuel` turns. -/
def heap_sift_up_loop : Nat → Reactor T γ σ κ → Nat → Reactor T γ σ κ
  | 0, s, _ => s
  | fuel + 1, s, i =>
    if i > 0 then
      let parent := (i - 1) / 2
      if s.mem.deadline_ns (s.heap parent) ≤ s.mem.deadline_ns (s.heap i) then s
      else heap_sift_up_loop fuel (heap_swap s i parent) parent
    else s

def heap_sift_up (s : Reactor T γ σ κ) (i : Nat) : Reactor T γ σ κ := heap_sift_up_loop i s i

/-- The smallest of slot `i` and its two children. -/
def smallest (s : Reactor T γ σ κ) (i : Nat) : Nat :=
  let l := 2 * i + 1
  let r := 2 * i + 2
  let smallest := i
  let smallest :=
    if l < s.heap_len ∧ s.mem.deadline_ns (s.heap l) < s.mem.deadline_ns (s.heap smallest) then l
    else smallest
  if r < s.heap_len ∧ s.mem.deadline_ns (s.heap r) < s.mem.deadline_ns (s.heap smallest) then r
  else smallest

/-- The loop of `heap_sift_down`, in at most `fuel` turns. -/
def heap_sift_down_loop : Nat → Reactor T γ σ κ → Nat → Reactor T γ σ κ
  | 0, s, _ => s
  | fuel + 1, s, i =>
    if smallest s i = i then s
    else heap_sift_down_loop fuel (heap_swap s i (smallest s i)) (smallest s i)

def heap_sift_down (s : Reactor T γ σ κ) (i : Nat) : Reactor T γ σ κ :=
  heap_sift_down_loop s.heap_len s i

def timer_add (L : Libc γ) (s : Reactor T γ σ κ) (f : Nat) (deadline : UInt64) :
    Bool × Reactor T γ σ κ :=
  match heap_reserve L s (s.heap_len + 1) with
  | (false, s) => (false, s)
  | (true, s) =>
    let s := { s with
      mem := { s.mem with deadline_ns := Function.update s.mem.deadline_ns f deadline } }
    let s := { s with
      mem := { s.mem with timer_i := Function.update s.mem.timer_i f (some s.heap_len) } }
    let i := s.heap_len
    let s := { s with heap := Function.update s.heap s.heap_len f, heap_len := s.heap_len + 1 }
    (true, heap_sift_up s i)

def timer_remove (s : Reactor T γ σ κ) (f : Nat) : Reactor T γ σ κ :=
  match s.mem.timer_i f with
  | none => s
  | some i =>
    let s := { s with mem := { s.mem with timer_i := Function.update s.mem.timer_i f none } }
    let last := s.heap_len - 1
    let s := { s with heap_len := last }
    if i ≠ last then
      -- the last member moves into the hole, and may have to go either way
      let s := { s with heap := Function.update s.heap i (s.heap last) }
      let s := { s with
        mem := { s.mem with timer_i := Function.update s.mem.timer_i (s.heap i) (some i) } }
      heap_sift_up (heap_sift_down s i) i
    else s

/-! ## §2. The bounds of the sift loops are never reached. -/

theorem heap_swap_heap_len (s : Reactor T γ σ κ) (a b : Nat) :
    (heap_swap s a b).heap_len = s.heap_len := rfl

theorem heap_sift_up_loop_fuel :
    ∀ (n m : Nat) (s : Reactor T γ σ κ) (i : Nat), i ≤ n → i ≤ m →
      heap_sift_up_loop n s i = heap_sift_up_loop m s i := by
  intro n
  induction n with
  | zero =>
      intro m s i hn _
      obtain rfl : i = 0 := by omega
      cases m <;> simp [heap_sift_up_loop]
  | succ n ih =>
      intro m s i hn hm
      cases m with
      | zero =>
          obtain rfl : i = 0 := by omega
          simp [heap_sift_up_loop]
      | succ m =>
          -- the parent's slot is smaller, so both bounds still cover it
          simp only [heap_sift_up_loop]
          split_ifs with hi hle
          · rfl
          · exact ih m _ _ (by omega) (by omega)
          · rfl

/-- **`heap_sift_up` is its loop.** -/
theorem heap_sift_up_eq (s : Reactor T γ σ κ) (i : Nat) :
    heap_sift_up s i =
      if i > 0 then
        if s.mem.deadline_ns (s.heap ((i - 1) / 2)) ≤ s.mem.deadline_ns (s.heap i) then s
        else heap_sift_up (heap_swap s i ((i - 1) / 2)) ((i - 1) / 2)
      else s := by
  unfold heap_sift_up
  cases i with
  | zero => rfl
  | succ i =>
      rw [heap_sift_up_loop, if_pos (Nat.succ_pos i), if_pos (Nat.succ_pos i)]
      dsimp only
      split_ifs with hle
      · rfl
      · exact heap_sift_up_loop_fuel _ _ _ _ (by omega) (by omega)

theorem smallest_cases (s : Reactor T γ σ κ) (i : Nat) :
    smallest s i = i ∨ (i < smallest s i ∧ smallest s i < s.heap_len) := by
  simp only [smallest]
  split_ifs <;> omega

theorem heap_sift_down_loop_fuel :
    ∀ (n m : Nat) (s : Reactor T γ σ κ) (i : Nat), s.heap_len ≤ n + i → s.heap_len ≤ m + i →
      heap_sift_down_loop n s i = heap_sift_down_loop m s i := by
  -- past the last slot there is no child, so an exhausted bound means the loop is over
  have hstop : ∀ (m : Nat) (s : Reactor T γ σ κ) (i : Nat), s.heap_len ≤ i →
      heap_sift_down_loop m s i = s := by
    intro m s i hi
    cases m with
    | zero => rfl
    | succ m =>
        have hself : smallest s i = i := by
          rcases smallest_cases s i with h | h
          · exact h
          · omega
        simp [heap_sift_down_loop, hself]
  intro n
  induction n with
  | zero =>
      intro m s i hn hm
      rw [hstop m s i (by omega), hstop 0 s i (by omega)]
  | succ n ih =>
      intro m s i hn hm
      cases m with
      | zero => rw [hstop _ s i (by omega), hstop 0 s i (by omega)]
      | succ m =>
          simp only [heap_sift_down_loop]
          split_ifs with hself
          · rfl
          · have hgt : i < smallest s i := by
              rcases smallest_cases s i with h | h
              · exact absurd h hself
              · exact h.1
            apply ih
            · rw [heap_swap_heap_len]; omega
            · rw [heap_swap_heap_len]; omega

/-- **`heap_sift_down` is its loop.** -/
theorem heap_sift_down_eq (s : Reactor T γ σ κ) (i : Nat) :
    heap_sift_down s i =
      if smallest s i = i then s
      else heap_sift_down (heap_swap s i (smallest s i)) (smallest s i) := by
  show heap_sift_down_loop s.heap_len s i = _
  rw [heap_sift_down_loop_fuel s.heap_len (s.heap_len + 1) s i (by omega) (by omega),
    heap_sift_down_loop]
  rfl

/-! ## §3. What the sifts keep. -/

/-- Every member of the heap records its slot. -/
def HeapOk (s : Reactor T γ σ κ) : Prop := Indexed s.heap s.heap_len s.mem.timer_i

/-- `f` is in the heap. -/
def InHeap (s : Reactor T γ σ κ) (f : Nat) : Prop := Slotted s.heap s.heap_len f

/-- `s'` is `s` with the heap's members rearranged and their records corrected. -/
structure Reheaped (s s' : Reactor T γ σ κ) : Prop where
  frame : s' = { s with heap := s'.heap, mem := { s.mem with timer_i := s'.mem.timer_i } }
  index : Indexed s'.heap s.heap_len s'.mem.timer_i
  members : ∀ f, Slotted s'.heap s.heap_len f ↔ Slotted s.heap s.heap_len f
  others : ∀ f, ¬ Slotted s.heap s.heap_len f → s'.mem.timer_i f = s.mem.timer_i f

theorem Reheaped.len {s s' : Reactor T γ σ κ} (h : Reheaped s s') : s'.heap_len = s.heap_len := by
  rw [h.frame]

theorem Reheaped.heapOk {s s' : Reactor T γ σ κ} (h : Reheaped s s') : HeapOk s' := by
  unfold HeapOk
  rw [h.len]
  exact h.index

theorem Reheaped.refl {s : Reactor T γ σ κ} (h : HeapOk s) : Reheaped s s :=
  ⟨rfl, h, fun _ => Iff.rfl, fun _ _ => rfl⟩

theorem Reheaped.trans {s t u : Reactor T γ σ κ} (h : Reheaped s t) (k : Reheaped t u) :
    Reheaped s u := by
  have hlen := h.len
  refine ⟨?_, ?_, ?_, ?_⟩
  · rw [k.frame, h.frame]
  · rw [← hlen]; exact k.index
  · intro f
    rw [← h.members f, ← hlen]
    exact k.members f
  · intro f hf
    rw [← h.others f hf]
    apply k.others
    rw [hlen, h.members f]
    exact hf

theorem heap_swap_reheaped {s : Reactor T γ σ κ} (h : HeapOk s) {a b : Nat} (ha : a < s.heap_len)
    (hb : b < s.heap_len) : Reheaped s (heap_swap s a b) := by
  have hheap : (heap_swap s a b).heap = swapAt s.heap a b := rfl
  have hix : (heap_swap s a b).mem.timer_i = swapIx s.heap s.mem.timer_i a b := by
    show Function.update (Function.update s.mem.timer_i (swapAt s.heap a b a) (some a))
      (swapAt s.heap a b b) (some b) = _
    rw [swapAt_left, swapAt_right]
    rfl
  refine ⟨rfl, ?_, ?_, ?_⟩
  · rw [hheap, hix]
    exact h.swap ha hb
  · intro f
    rw [hheap]
    exact slotted_swapAt ha hb f
  · intro f hf
    rw [hix]
    exact swapIx_of_ne (fun e => hf ⟨a, ha, e.symm⟩) (fun e => hf ⟨b, hb, e.symm⟩)

/-- **Sifting up only rearranges**, by induction on the turns. -/
theorem heap_sift_up_loop_reheaped :
    ∀ (n : Nat) (s : Reactor T γ σ κ) (i : Nat), HeapOk s → i < s.heap_len →
      Reheaped s (heap_sift_up_loop n s i) := by
  intro n
  induction n with
  | zero =>
      intro s i h _
      exact Reheaped.refl h
  | succ n ih =>
      intro s i h hi
      unfold heap_sift_up_loop
      dsimp only
      split_ifs with hpos hle
      · exact Reheaped.refl h
      · have hswap := heap_swap_reheaped h hi (show (i - 1) / 2 < s.heap_len by omega)
        apply hswap.trans
        apply ih _ _ hswap.heapOk
        rw [hswap.len]
        omega
      · exact Reheaped.refl h

theorem heap_sift_up_reheaped {s : Reactor T γ σ κ} (h : HeapOk s) {i : Nat}
    (hi : i < s.heap_len) : Reheaped s (heap_sift_up s i) :=
  heap_sift_up_loop_reheaped i s i h hi

theorem heap_sift_down_loop_reheaped :
    ∀ (n : Nat) (s : Reactor T γ σ κ) (i : Nat), HeapOk s → i < s.heap_len →
      Reheaped s (heap_sift_down_loop n s i) := by
  intro n
  induction n with
  | zero =>
      intro s i h _
      exact Reheaped.refl h
  | succ n ih =>
      intro s i h hi
      unfold heap_sift_down_loop
      split_ifs with hself
      · exact Reheaped.refl h
      · have hlt : smallest s i < s.heap_len := by
          rcases smallest_cases s i with he | he
          · exact absurd he hself
          · exact he.2
        have hswap := heap_swap_reheaped h hi hlt
        apply hswap.trans
        apply ih _ _ hswap.heapOk
        rw [hswap.len]
        exact hlt

theorem heap_sift_down_reheaped {s : Reactor T γ σ κ} (h : HeapOk s) {i : Nat}
    (hi : i < s.heap_len) : Reheaped s (heap_sift_down s i) :=
  heap_sift_down_loop_reheaped s.heap_len s i h hi

/-! ## §4. What the sifts establish. -/

/-- The deadline of the fiber in slot `i`. -/
def deadlines (deadline_ns : Nat → UInt64) (heap : Nat → Nat) (i : Nat) : Nat :=
  (deadline_ns (heap i)).toNat

def key (s : Reactor T γ σ κ) : Nat → Nat := deadlines s.mem.deadline_ns s.heap

/-- No member's deadline is before its parent's. -/
def Sorted (s : Reactor T γ σ κ) : Prop := Heaped (key s) s.heap_len

theorem key_heap_swap (s : Reactor T γ σ κ) (a b : Nat) :
    key (heap_swap s a b) = swapAt (key s) a b := by
  funext i
  show (s.mem.deadline_ns (swapAt s.heap a b i)).toNat = _
  by_cases hib : i = b
  · subst hib
    rw [swapAt_right, swapAt_right]
    rfl
  by_cases hia : i = a
  · subst hia
    rw [swapAt_left, swapAt_left]
    rfl
  · rw [swapAt_of_ne _ hia hib, swapAt_of_ne _ hia hib]
    rfl

/-- **Sifting up restores the order**, by induction on the turns. -/
theorem heap_sift_up_loop_sorted :
    ∀ (n : Nat) (s : Reactor T γ σ κ) (i : Nat), i ≤ n → i < s.heap_len →
      UpHole (key s) s.heap_len i → Sorted (heap_sift_up_loop n s i) := by
  intro n
  induction n with
  | zero =>
      intro s i hn hi h
      exact h.done fun hpos => by omega
  | succ n ih =>
      intro s i hn hi h
      unfold heap_sift_up_loop
      dsimp only
      split_ifs with hpos hle
      · exact h.done fun _ => hle
      · apply ih
        · omega
        · rw [heap_swap_heap_len]; omega
        · rw [key_heap_swap, heap_swap_heap_len]
          exact h.move hpos hi (Nat.lt_of_not_le hle)
      · exact h.done fun hp => absurd hp hpos

theorem heap_sift_up_sorted {s : Reactor T γ σ κ} {i : Nat} (hi : i < s.heap_len)
    (h : UpHole (key s) s.heap_len i) : Sorted (heap_sift_up s i) :=
  heap_sift_up_loop_sorted i s i (Nat.le_refl i) hi h

/-- A slot whose parent is in order stays where it is. -/
theorem heap_sift_up_of_sorted {s : Reactor T γ σ κ} {i : Nat} (hi : i < s.heap_len)
    (h : Sorted s) : heap_sift_up s i = s := by
  rw [heap_sift_up_eq]
  split_ifs with hpos hle
  · rfl
  · exact absurd (h i hpos hi) hle
  · rfl

/-- What `smallest` picks: slot `i` or a child of it, and nothing below `i` has a lesser key. -/
theorem smallest_spec (s : Reactor T γ σ κ) (i : Nat) :
    (smallest s i = i ∨ (smallest s i - 1) / 2 = i ∧ i < smallest s i ∧
      smallest s i < s.heap_len ∧ key s (smallest s i) < key s i) ∧
    ∀ j, 0 < j → j < s.heap_len → (j - 1) / 2 = i → key s (smallest s i) ≤ key s j := by
  have hlt : ∀ a b, s.mem.deadline_ns (s.heap a) < s.mem.deadline_ns (s.heap b) ↔
      key s a < key s b := fun _ _ => Iff.rfl
  have hchild : ∀ j, 0 < j → (j - 1) / 2 = i → j = 2 * i + 1 ∨ j = 2 * i + 2 := by
    intro j _ _
    omega
  simp only [smallest, hlt]
  split_ifs with hl hr hr
  · refine ⟨Or.inr ⟨by omega, by omega, hr.1, by omega⟩, ?_⟩
    intro j hj _ hp
    rcases hchild j hj hp with rfl | rfl <;> omega
  · refine ⟨Or.inr ⟨by omega, by omega, hl.1, hl.2⟩, ?_⟩
    intro j hj hjn hp
    rcases hchild j hj hp with rfl | rfl
    · omega
    · by_contra hc
      exact hr ⟨hjn, by omega⟩
  · refine ⟨Or.inr ⟨by omega, by omega, hr.1, hr.2⟩, ?_⟩
    intro j hj hjn hp
    rcases hchild j hj hp with rfl | rfl
    · by_contra hc
      exact hl ⟨hjn, by omega⟩
    · omega
  · refine ⟨Or.inl rfl, ?_⟩
    intro j hj hjn hp
    rcases hchild j hj hp with rfl | rfl
    · by_contra hc
      exact hl ⟨hjn, by omega⟩
    · by_contra hc
      exact hr ⟨hjn, by omega⟩

theorem heap_sift_down_loop_sorted :
    ∀ (n : Nat) (s : Reactor T γ σ κ) (i : Nat), s.heap_len ≤ n + i →
      DownHole (key s) s.heap_len i → Sorted (heap_sift_down_loop n s i) := by
  intro n
  induction n with
  | zero =>
      intro s i hn h
      exact h.done fun j hj hjn hji => by omega
  | succ n ih =>
      intro s i hn h
      obtain ⟨hpick, hmin⟩ := smallest_spec s i
      unfold heap_sift_down_loop
      split_ifs with hself
      · rw [hself] at hmin
        exact h.done hmin
      · obtain ⟨hpar, hgt, hlen, hlt⟩ := hpick.resolve_left hself
        apply ih
        · rw [heap_swap_heap_len]; omega
        · rw [key_heap_swap, heap_swap_heap_len]
          exact h.move (by omega) hlen hpar hlt hmin

/-- **Both sifts** repair a slot that was overwritten. -/
theorem heap_sift_both_sorted {s : Reactor T γ σ κ} {i : Nat} (hi : i < s.heap_len)
    (h : Hole (key s) s.heap_len i) (hlen : (heap_sift_down s i).heap_len = s.heap_len) :
    Sorted (heap_sift_up (heap_sift_down s i) i) := by
  rcases h.split with hdown | ⟨hup, hbelow⟩
  · -- the key fits below its parent: sifting down does it, sifting up does nothing
    have hs : Sorted (heap_sift_down s i) :=
      heap_sift_down_loop_sorted s.heap_len s i (by omega) hdown
    rw [heap_sift_up_of_sorted (by rw [hlen]; exact hi) hs]
    exact hs
  · -- the key is no greater than its children's: sifting down does nothing
    have hself : smallest s i = i := by
      by_contra hne
      obtain ⟨hpar, hgt, hsl, hlt⟩ := (smallest_spec s i).1.resolve_left hne
      have := hbelow (smallest s i) (by omega) hsl hpar
      omega
    rw [heap_sift_down_eq, if_pos hself]
    exact heap_sift_up_sorted hi hup

/-! ## §5. Adding and removing a deadline. -/

/-- The libc heap went through any number of `realloc` calls and nothing else. -/
def Reallocs (L : Libc γ) : γ → γ → Prop :=
  Relation.ReflTransGen fun c c' => ∃ n, c' = (L.realloc n c).2

/-- **The capacity suffices or nothing but the allocator changes.** -/
theorem heap_reserve_spec (L : Libc γ) (s : Reactor T γ σ κ) :
    (∃ c, Reallocs L s.libc c ∧ heap_reserve L s (s.heap_len + 1) = (false, { s with libc := c })) ∨
    ∃ c cap, Reallocs L s.libc c ∧ s.heap_len + 1 ≤ cap ∧
      heap_reserve L s (s.heap_len + 1) = (true, { s with libc := c, heap_cap := cap }) := by
  unfold heap_reserve
  by_cases hroom : s.heap_len + 1 ≤ s.heap_cap
  · rw [if_pos hroom]
    exact Or.inr ⟨s.libc, s.heap_cap, .refl, hroom, rfl⟩
  · rw [if_neg hroom]
    have hge : s.heap_len + 1 ≤ grow_cap (s.heap_len + 1) (s.heap_len + 1)
        (if s.heap_cap ≠ 0 then s.heap_cap * TIMER_HEAP_GROWTH else TIMER_HEAP_INIT_CAP) := by
      apply grow_cap_ge
      · unfold TIMER_HEAP_GROWTH TIMER_HEAP_INIT_CAP
        split_ifs <;> omega
      · omega
    dsimp only
    generalize grow_cap _ _ _ = cap at hge ⊢
    rcases hres : L.realloc (T.wrap (cap * sizeof_ptr T)) s.libc with ⟨_ | _, c⟩
    · exact Or.inl ⟨c, .single ⟨_, by rw [hres]⟩, rfl⟩
    · exact Or.inr ⟨c, cap, .single ⟨_, by rw [hres]⟩, hge, rfl⟩

/-- **Adding a deadline.**  `f` becomes a member with its deadline set, or the heap could not
grow. -/
theorem timer_add_spec (L : Libc γ) {s : Reactor T γ σ κ} {f : Nat} (deadline : UInt64)
    (h : HeapOk s) (ho : Sorted s) (hf : ¬ InHeap s f) :
    (∃ c, Reallocs L s.libc c ∧ timer_add L s f deadline = (false, { s with libc := c })) ∨
    ∃ c cap heap timer_i, Reallocs L s.libc c ∧ s.heap_len + 1 ≤ cap ∧
      timer_add L s f deadline = (true,
        { s with
          libc := c
          heap_cap := cap
          heap_len := s.heap_len + 1
          heap := heap
          mem := { s.mem with
            deadline_ns := Function.update s.mem.deadline_ns f deadline
            timer_i := timer_i } }) ∧
      Indexed heap (s.heap_len + 1) timer_i ∧
      Heaped (deadlines (Function.update s.mem.deadline_ns f deadline) heap) (s.heap_len + 1) ∧
      (∀ g, Slotted heap (s.heap_len + 1) g ↔ g = f ∨ InHeap s g) ∧
      ∀ g, g ≠ f → ¬ InHeap s g → timer_i g = s.mem.timer_i g := by
  unfold timer_add
  rcases heap_reserve_spec L s with ⟨c, hc, heq⟩ | ⟨c, cap, hc, hcap, heq⟩
  · rw [heq]
    exact Or.inl ⟨c, hc, rfl⟩
  · rw [heq]
    right
    -- the newcomer sits in the last slot before the sift
    have hpush := h.push hf
    have hsift := heap_sift_up_reheaped
      (s := { s with
        libc := c
        heap_cap := cap
        heap_len := s.heap_len + 1
        heap := Function.update s.heap s.heap_len f
        mem := { s.mem with
          deadline_ns := Function.update s.mem.deadline_ns f deadline
          timer_i := Function.update s.mem.timer_i f (some s.heap_len) } })
      hpush (i := s.heap_len) (Nat.lt_succ_self _)
    have hsorted := heap_sift_up_sorted
      (s := { s with
        libc := c
        heap_cap := cap
        heap_len := s.heap_len + 1
        heap := Function.update s.heap s.heap_len f
        mem := { s.mem with
          deadline_ns := Function.update s.mem.deadline_ns f deadline
          timer_i := Function.update s.mem.timer_i f (some s.heap_len) } })
      (i := s.heap_len) (Nat.lt_succ_self _) (Heaped.push ho fun j hj => by
        have hne : s.heap j ≠ f := fun e => hf ⟨j, hj, e⟩
        simp [key, deadlines, Function.update_of_ne (Nat.ne_of_lt hj), Function.update_of_ne hne])
    refine ⟨c, cap, _, _, hc, hcap, ?_, hsift.index, ?_, ?_, ?_⟩
    · exact congrArg (Prod.mk true) hsift.frame
    · unfold Sorted key at hsorted
      rw [hsift.len] at hsorted
      rw [hsift.frame] at hsorted
      exact hsorted
    · intro g
      rw [hsift.members g]
      exact slotted_push
    · intro g hg hout
      rw [hsift.others g fun hm => (slotted_push.mp hm).elim hg hout]
      exact Function.update_of_ne hg _ _

/-- The last member, in slot `n`, has taken slot `i` over. -/
def refilled (s : Reactor T γ σ κ) (i n : Nat) : Reactor T γ σ κ :=
  { s with
    heap_len := n
    heap := Function.update s.heap i (s.heap n)
    mem := { s.mem with
      timer_i := Function.update (Function.update s.mem.timer_i (s.heap i) none)
        (Function.update s.heap i (s.heap n) i) (some i) } }

/-- **The slot is refilled**: sifting both ways puts the heap in order again. -/
theorem refilled_sifted {s : Reactor T γ σ κ} {i n : Nat}
    (hok : Indexed s.heap (n + 1) s.mem.timer_i) (ho : Sorted s) (hn : n ≤ s.heap_len) (hi : i < n) :
    Reheaped (refilled s i n) (heap_sift_up (heap_sift_down (refilled s i n) i) i) ∧
      Sorted (heap_sift_up (heap_sift_down (refilled s i n) i) i) := by
  have hself : Function.update s.heap i (s.heap n) i = s.heap n := Function.update_self _ _ _
  have hfilled : HeapOk (refilled s i n) := by
    unfold HeapOk refilled
    rw [hself]
    exact hok.fill hi
  have hdown := heap_sift_down_reheaped (i := i) hfilled hi
  have hup := heap_sift_up_reheaped (i := i) hdown.heapOk (by rw [hdown.len]; exact hi)
  refine ⟨hdown.trans hup, ?_⟩
  -- only slot `i` may be out of order
  have hole : Hole (key (refilled s i n)) n i := by
    apply Heaped.hole ho hn _ hi
    intro j _ hji
    simp [key, deadlines, refilled, Function.update_of_ne hji]
  exact heap_sift_both_sorted hi hole hdown.len

/-- **Removing a deadline.**  A fiber without one changes nothing; a member leaves the heap. -/
theorem timer_remove_spec {s : Reactor T γ σ κ} {f : Nat} (h : HeapOk s) (ho : Sorted s)
    (hf : s.mem.timer_i f = none ∨ InHeap s f) :
    (s.mem.timer_i f = none ∧ timer_remove s f = s) ∨
    ∃ heap len timer_i,
      timer_remove s f =
        { s with heap_len := len, heap := heap, mem := { s.mem with timer_i := timer_i } } ∧
      Indexed heap len timer_i ∧
      Heaped (deadlines s.mem.deadline_ns heap) len ∧
      timer_i f = none ∧
      len < s.heap_len ∧
      (∀ g, Slotted heap len g ↔ InHeap s g ∧ g ≠ f) ∧
      ∀ g, ¬ InHeap s g → timer_i g = s.mem.timer_i g := by
  rcases hf with hnone | hmem
  · left
    simp [timer_remove, hnone]
  right
  obtain ⟨i, hi, hrec, hslot⟩ := Indexed.slot h hmem
  obtain ⟨n, hn⟩ : ∃ n, s.heap_len = n + 1 := ⟨s.heap_len - 1, by omega⟩
  have hok : Indexed s.heap (n + 1) s.mem.timer_i := by rw [← hn]; exact h
  have hin : ∀ g, InHeap s g ↔ Slotted s.heap (n + 1) g := by
    intro g
    unfold InHeap
    rw [hn]
  unfold timer_remove
  simp only [hrec, hn, Nat.add_sub_cancel]
  split_ifs with hlast
  · -- the last member takes the slot and is sifted both ways
    have hin' : i < n := by omega
    subst hslot
    have hself : Function.update s.heap i (s.heap n) i = s.heap n := Function.update_self _ _ _
    obtain ⟨hall, hsorted⟩ := refilled_sifted hok ho (by omega) hin'
    have hgone : ¬ Slotted (Function.update s.heap i (s.heap n)) n (s.heap i) :=
      fun hm => ((slotted_fill hok hin' _).mp hm).2 rfl
    have hne : s.heap i ≠ s.heap n := fun e => hlast (hok.inj (by omega) (by omega) e)
    refine ⟨_, n, _, hall.frame, hall.index, ?order, ?gone, by omega, ?members, ?others⟩
    case order =>
      unfold Sorted key at hsorted
      rw [hall.len] at hsorted
      rw [hall.frame] at hsorted
      exact hsorted
    case gone =>
      rw [hall.others _ hgone]
      show Function.update (Function.update s.mem.timer_i (s.heap i) none)
        (Function.update s.heap i (s.heap n) i) (some i) (s.heap i) = none
      rw [hself, Function.update_of_ne hne, Function.update_self]
    case members =>
      intro g
      rw [hin]
      exact (hall.members g).trans (slotted_fill hok hin' g)
    case others =>
      intro g hg
      rw [hin] at hg
      have hgf : ¬ Slotted (Function.update s.heap i (s.heap n)) n g :=
        fun hm => hg ((slotted_fill hok hin' g).mp hm).1
      rw [hall.others g hgf]
      show Function.update (Function.update s.mem.timer_i (s.heap i) none)
        (Function.update s.heap i (s.heap n) i) (some i) g = _
      rw [hself, Function.update_of_ne fun e => hg ⟨n, by omega, e.symm⟩,
        Function.update_of_ne fun e => hg ⟨i, by omega, e.symm⟩]
  · -- the fiber is the last member
    obtain rfl : i = n := by omega
    subst hslot
    refine ⟨_, i, _, rfl, hok.clear, Heaped.mono ho (by omega), Function.update_self _ _ _, by omega,
      ?_, ?_⟩
    · intro g
      rw [hin]
      exact slotted_clear hok g
    · intro g hg
      apply Function.update_of_ne
      rintro rfl
      exact hg hmem

end CFiber.Ev
