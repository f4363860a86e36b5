/-
  CFiber.Ev.Descriptors — who holds which descriptor (`reactor.c`: `fd_owner_reserve`,
  `fd_owner_get`, `detach_fd`, `arm_fd`).

  `fd_owner` maps a descriptor number to the fiber that holds its epoll registration, `reg_fd` maps
  a fiber back to the descriptor.  `Owners` says that the two agree on the live fibers, whatever the
  kernel answers:

    • `detach_fd_spec` — the fiber holds nothing afterwards, the other holders keep theirs;
    • `arm_fd_spec`    — on success the fiber holds the descriptor; no parked holder is ever
                         robbed of its own.

  `Unarmed` records what a function did to the epoll object when it armed no entry.
-/
import CFiber.Ev.Timers

namespace CFiber.Ev

open CFiber.Base CFiber.Memory

/-! ## §1. The kernel's side. -/

inductive CtlOp where
  | EPOLL_CTL_ADD
  | EPOLL_CTL_MOD
  | EPOLL_CTL_DEL
  deriving DecidableEq, Repr

/-- An entry of `evs`.  `data` is `data.ptr`: a fiber, or `none` for the reactor itself (the
eventfd's registration).  `fd` is the descriptor the event is about; no function reads it. -/
structure Event where
  fd : Int
  data : Option Nat
  deriving DecidableEq, Repr

/-- The system calls of the reactor on an epoll object and a descriptor table in state `κ`.  A call
answers `none` or an error number.  `δ` is what the kernel and the rest of the process are free to
choose: which events a poll reports, and what happens to descriptors outside the reactor. -/
structure Kernel (κ δ : Type) where
  epoll_ctl : CtlOp → Int → UInt32 → Option Nat → κ → Option Errno × κ
  epoll_wait : δ → Int → κ → Option (Except Errno (List Event) × κ)
  close : Int → κ → Option Errno × κ
  other : δ → κ → Option κ

def EPOLLIN : UInt32 := 1

def EPOLLOUT : UInt32 := 4

def EPOLLONESHOT : UInt32 := 1073741824

variable {T : Target} {γ σ κ δ : Type}

/-! ## §2. The functions. -/

def FD_OWNER_INIT_CAP : Nat := 64

def fd_owner_reserve (L : Libc γ) (s : Reactor T γ σ κ) (fd : Int) : Bool × Reactor T γ σ κ :=
  let need := fd.toNat + 1
  if need ≤ s.fd_owner_cap then (true, s)
  else
    let cap := if s.fd_owner_cap ≠ 0 then s.fd_owner_cap else FD_OWNER_INIT_CAP
    let cap := grow_cap need need cap
    match L.realloc (T.wrap (cap * sizeof_ptr T)) s.libc with
    | (false, c) => (false, { s with libc := c })
    | (true, c) =>
      -- the new part of the array is zeroed
      (true, { s with
        libc := c
        fd_owner := fun i => if s.fd_owner_cap ≤ i ∧ i < cap then none else s.fd_owner i
        fd_owner_cap := cap })

def fd_owner_get (s : Reactor T γ σ κ) (fd : Int) : Option Nat :=
  if fd ≥ 0 ∧ fd.toNat < s.fd_owner_cap then s.fd_owner fd.toNat else none

/-- `epoll_ctl(s->epfd, op, fd, &e)`; `false` is the `-1` return. -/
def epoll_ctl (K : Kernel κ δ) (s : Reactor T γ σ κ) (op : CtlOp) (fd : Int) (events : UInt32)
    (ptr : Option Nat) : Bool × Reactor T γ σ κ :=
  match K.epoll_ctl op fd events ptr s.epoll with
  | (none, k) => (true, { s with epoll := k })
  | (some e, k) => (false, { s with epoll := k, errno := e })

def detach_fd (K : Kernel κ δ) (s : Reactor T γ σ κ) (f : Nat) : Reactor T γ σ κ :=
  let fd := s.mem.reg_fd f
  if fd = -1 then s
  else
    let s := { s with mem := { s.mem with reg_fd := Function.update s.mem.reg_fd f (-1) } }
    -- an entry that was taken over is left to its new holder
    if fd_owner_get s fd = some f then
      let s := { s with fd_owner := Function.update s.fd_owner fd.toNat none }
      (epoll_ctl K s .EPOLL_CTL_DEL fd 0 none).2
    else s

/-- The failed end of `arm_fd`: state unknown, start over next time. -/
def arm_failed (s : Reactor T γ σ κ) (f : Nat) (fd : Int) : Bool × Reactor T γ σ κ :=
  let s := { s with fd_owner := Function.update s.fd_owner fd.toNat none }
  (false, { s with mem := { s.mem with reg_fd := Function.update s.mem.reg_fd f (-1) } })

/-- The successful end of `arm_fd`. -/
def arm_done (s : Reactor T γ σ κ) (f : Nat) (fd : Int) : Bool × Reactor T γ σ κ :=
  let s := { s with fd_owner := Function.update s.fd_owner fd.toNat (some f) }
  (true, { s with mem := { s.mem with reg_fd := Function.update s.mem.reg_fd f fd } })

/-- The `epoll_ctl` calls of `arm_fd`: each op falls back to the other once. -/
def arm_entry (K : Kernel κ δ) (s : Reactor T γ σ κ) (f : Nat) (fd : Int) (events : UInt32)
    (op : CtlOp) : Bool × Reactor T γ σ κ :=
  match epoll_ctl K s op fd (events ||| EPOLLONESHOT) (some f) with
  | (true, s) => arm_done s f fd
  | (false, s) =>
    -- the kernel disagrees on whether the entry is there: the other operation, once
    let op : Option CtlOp :=
      if s.errno = .ENOENT then some .EPOLL_CTL_ADD
      else if s.errno = .EEXIST then some .EPOLL_CTL_MOD
      else none
    match op with
    | none => arm_failed s f fd
    | some op =>
      match epoll_ctl K s op fd (events ||| EPOLLONESHOT) (some f) with
      | (true, s) => arm_done s f fd
      | (false, s) => arm_failed s f fd

/-- The takeover in `arm_fd`, by the holder the map records. -/
def arm_holder (K : Kernel κ δ) (s : Reactor T γ σ κ) (f : Nat) (fd : Int) (events : UInt32) :
    Bool × Reactor T γ σ κ :=
  match s.fd_owner fd.toNat with
  | none => arm_entry K s f fd events .EPOLL_CTL_ADD
  | some holder =>
    if holder ≠ f then
      if s.mem.state holder = .FB_PARKED ∧ s.mem.wait_fd holder = fd then
        -- one fiber waits on a descriptor at a time
        (false, { s with errno := .EBUSY })
      else
        -- take over the entry another fiber left
        let s := { s with
          mem := { s.mem with reg_fd := Function.update s.mem.reg_fd holder (-1) } }
        arm_entry K s f fd events .EPOLL_CTL_MOD
    else arm_entry K s f fd events .EPOLL_CTL_MOD

/-- `arm_fd` once the map covers `fd`. -/
def arm_slot (K : Kernel κ δ) (s : Reactor T γ σ κ) (f : Nat) (fd : Int) (events : UInt32) :
    Bool × Reactor T γ σ κ :=
  -- moved to a different fd
  let s := if s.mem.reg_fd f ≠ fd then detach_fd K s f else s
  arm_holder K s f fd events

/-- Registers `f` as the holder of `fd`; `false` is the `-1` return. -/
def arm_fd (L : Libc γ) (K : Kernel κ δ) (s : Reactor T γ σ κ) (f : Nat) (fd : Int)
    (events : UInt32) : Bool × Reactor T γ σ κ :=
  if fd < 0 then (false, { s with errno := .EBADF })
  else match fd_owner_reserve L s fd with
    | (false, s) => (false, { s with errno := .ENOMEM })
    | (true, s) => arm_slot K s f fd events

/-! ## §3. The map and the fibers agree. -/

/-- `fd_owner[fd] = f` if and only if `f->reg_fd = fd`, on the live fibers `l`. -/
structure Owners (fd_owner : Nat → Option Nat) (cap : Nat) (reg_fd : Nat → Int) (l : List Nat) :
    Prop where
  past_cap : ∀ i, cap ≤ i → fd_owner i = none
  live : ∀ i f, fd_owner i = some f → f ∈ l
  law : ∀ f ∈ l, ∀ i : Nat, fd_owner i = some f ↔ reg_fd f = (i : Int)
  low : ∀ f ∈ l, -1 ≤ reg_fd f

/-- `Owners` of a reactor. -/
def OwnersOk (s : Reactor T γ σ κ) (l : List Nat) : Prop :=
  Owners s.fd_owner s.fd_owner_cap s.mem.reg_fd l

theorem Owners.empty (cap : Nat) (reg_fd : Nat → Int) : Owners (fun _ => none) cap reg_fd [] := by
  refine ⟨?_, ?_, ?_, ?_⟩ <;> simp

/-- The bounds check of `fd_owner_get` loses no holder. -/
theorem OwnersOk.get_eq {s : Reactor T γ σ κ} {l : List Nat} (h : OwnersOk s l) {fd : Int}
    (hfd : 0 ≤ fd) : fd_owner_get s fd = s.fd_owner fd.toNat := by
  unfold fd_owner_get
  split_ifs with hb
  · rfl
  · have hcap : s.fd_owner_cap ≤ fd.toNat := by omega
    exact (h.past_cap _ hcap).symm

theorem OwnersOk.get_some {s : Reactor T γ σ κ} {l : List Nat} (h : OwnersOk s l) {fd : Int} {f : Nat}
    (hget : fd_owner_get s fd = some f) : 0 ≤ fd ∧ f ∈ l ∧ s.mem.reg_fd f = fd := by
  unfold fd_owner_get at hget
  split_ifs at hget with hb
  have hmem := h.live _ _ hget
  have hreg := (h.law f hmem _).mp hget
  exact ⟨hb.1, hmem, by omega⟩

theorem OwnersOk.get_reg {s : Reactor T γ σ κ} {l : List Nat} (h : OwnersOk s l) {f : Nat}
    (hf : f ∈ l) (hreg : 0 ≤ s.mem.reg_fd f) : fd_owner_get s (s.mem.reg_fd f) = some f := by
  rw [h.get_eq hreg]
  apply (h.law f hf _).mpr
  omega

/-- A holder lets go: its slot is cleared together with its own record. -/
theorem Owners.drop {fd_owner : Nat → Option Nat} {cap : Nat} {reg_fd : Nat → Int} {l : List Nat}
    (h : Owners fd_owner cap reg_fd l) {f i : Nat} (hi : fd_owner i = some f) :
    Owners (Function.update fd_owner i none) cap (Function.update reg_fd f (-1)) l := by
  have hf : f ∈ l := h.live i f hi
  have hreg : reg_fd f = (i : Int) := (h.law f hf i).mp hi
  refine ⟨?_, ?_, ?_, ?_⟩
  · intro j hj
    by_cases hji : j = i
    · subst hji; simp
    · rw [Function.update_of_ne hji]
      exact h.past_cap j hj
  · intro j g hg
    by_cases hji : j = i
    · subst hji; simp at hg
    · rw [Function.update_of_ne hji] at hg
      exact h.live j g hg
  · intro g hg j
    by_cases hgf : g = f
    · -- the former holder is recorded nowhere
      subst hgf
      rw [Function.update_self]
      by_cases hji : j = i
      · subst hji; simp
      · rw [Function.update_of_ne hji, h.law g hg j]
        omega
    · rw [Function.update_of_ne hgf]
      by_cases hji : j = i
      · subst hji
        rw [Function.update_self, ← h.law g hg j, hi]
        simp [Ne.symm hgf]
      · rw [Function.update_of_ne hji]
        exact h.law g hg j
  · intro g hg
    by_cases hgf : g = f
    · subst hgf; simp
    · rw [Function.update_of_ne hgf]
      exact h.low g hg

/-- A fiber that holds nothing takes a slot that nobody holds. -/
theorem Owners.take {fd_owner : Nat → Option Nat} {cap : Nat} {reg_fd : Nat → Int} {l : List Nat}
    (h : Owners fd_owner cap reg_fd l) {f i : Nat} (hf : f ∈ l) (hi : i < cap)
    (hfree : fd_owner i = none) (hreg : reg_fd f = -1) :
    Owners (Function.update fd_owner i (some f)) cap (Function.update reg_fd f (i : Int)) l := by
  refine ⟨?_, ?_, ?_, ?_⟩
  · intro j hj
    rw [Function.update_of_ne (by omega)]
    exact h.past_cap j hj
  · intro j g hg
    by_cases hji : j = i
    · subst hji
      rw [Function.update_self] at hg
      rw [← Option.some.inj hg]
      exact hf
    · rw [Function.update_of_ne hji] at hg
      exact h.live j g hg
  · intro g hg j
    by_cases hgf : g = f
    · subst hgf
      rw [Function.update_self]
      by_cases hji : j = i
      · subst hji; simp
      · rw [Function.update_of_ne hji, h.law g hg j, hreg]
        omega
    · rw [Function.update_of_ne hgf]
      by_cases hji : j = i
      · subst hji
        rw [Function.update_self, ← h.law g hg j, hfree]
        simp [Ne.symm hgf]
      · rw [Function.update_of_ne hji]
        exact h.law g hg j
  · intro g hg
    by_cases hgf : g = f
    · subst hgf
      rw [Function.update_self]
      omega
    · rw [Function.update_of_ne hgf]
      exact h.low g hg

/-- New members of the live list that hold nothing. -/
theorem Owners.cons {fd_owner : Nat → Option Nat} {cap : Nat} {reg_fd : Nat → Int} {l : List Nat}
    (h : Owners fd_owner cap reg_fd l) {f : Nat} (hf : f ∉ l) (hreg : reg_fd f = -1) :
    Owners fd_owner cap reg_fd (f :: l) := by
  refine ⟨h.past_cap, fun i g hg => List.mem_cons_of_mem _ (h.live i g hg), ?_, ?_⟩
  · intro g hg i
    rcases List.mem_cons.mp hg with rfl | hg
    · constructor
      · intro hi
        exact absurd (h.live i g hi) hf
      · intro hi
        omega
    · exact h.law g hg i
  · intro g hg
    rcases List.mem_cons.mp hg with rfl | hg
    · omega
    · exact h.low g hg

/-- A fiber that holds nothing leaves the live list. -/
theorem Owners.erase {fd_owner : Nat → Option Nat} {cap : Nat} {reg_fd : Nat → Int} {l : List Nat}
    (h : Owners fd_owner cap reg_fd l) {f : Nat} (hreg : reg_fd f = -1) :
    Owners fd_owner cap reg_fd (l.erase f) := by
  refine ⟨h.past_cap, ?_, ?_, ?_⟩
  · intro i g hg
    have hmem := h.live i g hg
    have hne : g ≠ f := by
      rintro rfl
      have := (h.law g hmem i).mp hg
      omega
    exact (List.mem_erase_of_ne hne).mpr hmem
  · exact fun g hg => h.law g (List.mem_of_mem_erase hg)
  · exact fun g hg => h.low g (List.mem_of_mem_erase hg)

theorem Owners.congr {fd_owner : Nat → Option Nat} {cap : Nat} {reg_fd reg_fd' : Nat → Int}
    {l : List Nat} (h : Owners fd_owner cap reg_fd l) (hreg : ∀ f ∈ l, reg_fd' f = reg_fd f) :
    Owners fd_owner cap reg_fd' l := by
  refine ⟨h.past_cap, h.live, ?_, ?_⟩
  · intro f hf i
    rw [hreg f hf]
    exact h.law f hf i
  · intro f hf
    rw [hreg f hf]
    exact h.low f hf

/-! ## §4. `detach_fd`. -/

/-- **Detaching.**  `f` holds nothing afterwards; the other holders keep their slots.  The kernel
sees an `EPOLL_CTL_DEL` of the descriptor `f` held, if it held one. -/
theorem detach_fd_spec (K : Kernel κ δ) {s : Reactor T γ σ κ} {l : List Nat} (h : OwnersOk s l)
    {f : Nat} (hf : f ∈ l) :
    ∃ ow k e, detach_fd K s f =
        { s with
          mem := { s.mem with reg_fd := Function.update s.mem.reg_fd f (-1) }
          fd_owner := ow
          epoll := k
          errno := e } ∧
      Owners ow s.fd_owner_cap (Function.update s.mem.reg_fd f (-1)) l ∧
      (s.mem.reg_fd f = -1 → k = s.epoll) ∧
      (s.mem.reg_fd f ≠ -1 →
        k = (K.epoll_ctl .EPOLL_CTL_DEL (s.mem.reg_fd f) 0 none s.epoll).2) := by
  unfold detach_fd
  dsimp only
  by_cases hreg : s.mem.reg_fd f = -1
  · have hsame : Function.update s.mem.reg_fd f (-1) = s.mem.reg_fd := by
      rw [← hreg]
      exact Function.update_eq_self f s.mem.reg_fd
    rw [if_pos hreg, hsame]
    exact ⟨s.fd_owner, s.epoll, s.errno, rfl, h, fun _ => rfl, fun e => absurd hreg e⟩
  · have hlow := h.low f hf
    have hpos : 0 ≤ s.mem.reg_fd f := by omega
    have hget := h.get_reg hf hpos
    have hslot : s.fd_owner (s.mem.reg_fd f).toNat = some f := by
      rw [← h.get_eq hpos]
      exact hget
    have hdrop := h.drop hslot
    rw [if_neg hreg]
    split_ifs with hholds
    · unfold epoll_ctl
      rcases hk : K.epoll_ctl .EPOLL_CTL_DEL (s.mem.reg_fd f) 0 none s.epoll with ⟨_ | e, k⟩
      · exact ⟨_, k, s.errno, rfl, hdrop, fun e => absurd e hreg, fun _ => rfl⟩
      · exact ⟨_, k, e, rfl, hdrop, fun e => absurd e hreg, fun _ => rfl⟩
    · -- `fd_owner_get` does not look at the record just cleared
      exact absurd hget hholds

/-! ## §5. `arm_fd`. -/

/-- The epoll object went through calls none of which armed an entry: deletions and calls that
failed. -/
inductive Unarmed (K : Kernel κ δ) (k : κ) : κ → Prop where
  | refl : Unarmed K k k
  | del {k' : κ} (fd : Int) :
      Unarmed K k k' → Unarmed K k (K.epoll_ctl .EPOLL_CTL_DEL fd 0 none k').2
  | fail {k' k'' : κ} {op : CtlOp} {fd : Int} {events : UInt32} {p : Option Nat} {e : Errno} :
      Unarmed K k k' → K.epoll_ctl op fd events p k' = (some e, k'') → Unarmed K k k''

theorem Unarmed.trans {K : Kernel κ δ} {k k' k'' : κ} (h : Unarmed K k k')
    (h' : Unarmed K k' k'') : Unarmed K k k'' := by
  induction h' with
  | refl => exact h
  | del fd _ ih => exact ih.del fd
  | fail _ hf ih => exact ih.fail hf

/-- One call armed the entry of `fd` for `f`, after calls that armed nothing. -/
def Armed (K : Kernel κ δ) (k : κ) (fd : Int) (events : UInt32) (f : Nat) (k' : κ) : Prop :=
  ∃ k₁ op, Unarmed K k k₁ ∧ op ≠ CtlOp.EPOLL_CTL_DEL ∧
    K.epoll_ctl op fd (events ||| EPOLLONESHOT) (some f) k₁ = (none, k')

/-- **The two tries of `arm_fd`**, from a state where `f` either holds `fd` or nothing, and `fd`
is held by `f` or nobody that records it. -/
theorem arm_entry_spec (K : Kernel κ δ) (s : Reactor T γ σ κ) (f : Nat) (fd : Int) (events : UInt32)
    {op : CtlOp} (hop : op ≠ .EPOLL_CTL_DEL) :
    (∃ k e, arm_entry K s f fd events op = arm_failed { s with epoll := k, errno := e } f fd ∧
      Unarmed K s.epoll k) ∨
    ∃ k e, arm_entry K s f fd events op = arm_done { s with epoll := k, errno := e } f fd ∧
      Armed K s.epoll fd events f k := by
  unfold arm_entry epoll_ctl
  rcases hk : K.epoll_ctl op fd (events ||| EPOLLONESHOT) (some f) s.epoll with ⟨_ | e, k⟩
  · exact Or.inr ⟨k, s.errno, rfl, s.epoll, op, Unarmed.refl, hop, hk⟩
  · -- the first try failed: the fallback decides
    have hfail := Unarmed.fail Unarmed.refl hk
    dsimp only
    split_ifs with hnoent hexist
    · rcases hk' : K.epoll_ctl .EPOLL_CTL_ADD fd (events ||| EPOLLONESHOT) (some f) k
        with ⟨_ | e', k'⟩
      · exact Or.inr ⟨k', e, by simp only [hk'], k, _, hfail, by simp, hk'⟩
      · exact Or.inl ⟨k', e', by simp only [hk'], hfail.fail hk'⟩
    · rcases hk' : K.epoll_ctl .EPOLL_CTL_MOD fd (events ||| EPOLLONESHOT) (some f) k
        with ⟨_ | e', k'⟩
      · exact Or.inr ⟨k', e, by simp only [hk'], k, _, hfail, by simp, hk'⟩
      · exact Or.inl ⟨k', e', by simp only [hk'], hfail.fail hk'⟩
    · exact Or.inl ⟨k, e, rfl, hfail⟩

theorem fd_owner_reserve_spec (L : Libc γ) {s : Reactor T γ σ κ} {l : List Nat} (h : OwnersOk s l)
    (fd : Int) :
    (∃ c, Reallocs L s.libc c ∧ fd_owner_reserve L s fd = (false, { s with libc := c })) ∨
    ∃ c ow cap, Reallocs L s.libc c ∧ fd.toNat < cap ∧ Owners ow cap s.mem.reg_fd l ∧
      fd_owner_reserve L s fd =
        (true, { s with libc := c, fd_owner := ow, fd_owner_cap := cap }) := by
  unfold fd_owner_reserve
  dsimp only
  by_cases hroom : fd.toNat + 1 ≤ s.fd_owner_cap
  · rw [if_pos hroom]
    exact Or.inr ⟨s.libc, s.fd_owner, s.fd_owner_cap, .refl, hroom, h, rfl⟩
  · rw [if_neg hroom]
    have hge : fd.toNat + 1 ≤ grow_cap (fd.toNat + 1) (fd.toNat + 1)
        (if s.fd_owner_cap ≠ 0 then s.fd_owner_cap else FD_OWNER_INIT_CAP) := by
      apply grow_cap_ge
      · unfold FD_OWNER_INIT_CAP
        split_ifs <;> omega
      · omega
    generalize grow_cap _ _ _ = cap at hge ⊢
    rcases hres : L.realloc (T.wrap (cap * sizeof_ptr T)) s.libc with ⟨_ | _, c⟩
    · exact Or.inl ⟨c, .single ⟨_, by rw [hres]⟩, rfl⟩
    · -- past the old capacity the map was empty already
      have hsame : (fun i => if s.fd_owner_cap ≤ i ∧ i < cap then none else s.fd_owner i)
          = s.fd_owner := by
        funext i
        split_ifs with hi
        · exact (h.past_cap i hi.1).symm
        · rfl
      refine Or.inr ⟨c, s.fd_owner, cap, .single ⟨_, by rw [hres]⟩, hge, ?_, ?_⟩
      · exact ⟨fun i hi => h.past_cap i (by omega), h.live, h.law, h.low⟩
      · simp only [hsame]

/-- `g` waits on `fd`: no other fiber may take the descriptor over. -/
def ParkedOn (s : Reactor T γ σ κ) (g : Nat) (fd : Int) : Prop :=
  s.mem.state g = .FB_PARKED ∧ s.mem.wait_fd g = fd

instance (s : Reactor T γ σ κ) (g : Nat) (fd : Int) : Decidable (ParkedOn s g fd) :=
  inferInstanceAs (Decidable (_ ∧ _))

/-- What `arm_fd` may do to the fibers' own records: a record is cleared, and only of a fiber that
does not wait on what it holds. -/
def Robs (s : Reactor T γ σ κ) (f : Nat) (reg_fd : Nat → Int) : Prop :=
  ∀ g, g ≠ f → reg_fd g = s.mem.reg_fd g ∨
    (reg_fd g = -1 ∧ ¬ ParkedOn s g (s.mem.reg_fd g))

/-- The reactor after `arm_fd`: the two maps, the allocator, the kernel and `errno` are new. -/
def rearmed (s : Reactor T γ σ κ) (c : γ) (ow : Nat → Option Nat) (cap : Nat) (reg_fd : Nat → Int)
    (k : κ) (e : Errno) : Reactor T γ σ κ :=
  { s with
    libc := c
    fd_owner := ow
    fd_owner_cap := cap
    mem := { s.mem with reg_fd := reg_fd }
    epoll := k
    errno := e }

/-- The slot of `fd` is vacated: whoever holds it is recorded nowhere, and neither is `f`. -/
theorem Owners.vacate {fd_owner : Nat → Option Nat} {cap : Nat} {reg_fd : Nat → Int} {l : List Nat}
    (h : Owners fd_owner cap reg_fd l) {f i : Nat} (hf : f ∈ l)
    (hreg : reg_fd f = (i : Int) ∨ reg_fd f = -1) :
    Owners (Function.update fd_owner i none) cap
      (Function.update
        (match fd_owner i with
          | some g => Function.update reg_fd g (-1)
          | none => reg_fd) f (-1)) l := by
  cases hi : fd_owner i with
  | none =>
      -- nobody holds the slot, so `f` holds nothing at all
      have hf1 : reg_fd f = -1 := by
        rcases hreg with hr | hr
        · have := (h.law f hf i).mpr hr
          rw [hi] at this
          exact absurd this (by simp)
        · exact hr
      have h1 : Function.update fd_owner i none = fd_owner := by
        rw [← hi]; exact Function.update_eq_self i fd_owner
      have h2 : Function.update reg_fd f (-1) = reg_fd := by
        rw [← hf1]; exact Function.update_eq_self f reg_fd
      rw [h1]
      show Owners fd_owner cap (Function.update reg_fd f (-1)) l
      rw [h2]
      exact h
  | some g =>
      have hdrop := h.drop hi
      by_cases hgf : g = f
      · subst hgf
        simpa using hdrop
      · -- `f` is not the holder, so it holds nothing
        have hf1 : Function.update reg_fd g (-1) f = -1 := by
          rw [Function.update_of_ne (Ne.symm hgf)]
          rcases hreg with hr | hr
          · have := (h.law f hf i).mpr hr
            rw [hi] at this
            exact absurd (Option.some.inj this) hgf
          · exact hr
        have h2 : Function.update (Function.update reg_fd g (-1)) f (-1)
            = Function.update reg_fd g (-1) := by
          have := Function.update_eq_self f (Function.update reg_fd g (-1))
          rwa [hf1] at this
        show Owners _ cap (Function.update (Function.update reg_fd g (-1)) f (-1)) l
        rw [h2]
        exact hdrop

/-- What the result of an attempt to arm `fd` for `f` is: the maps agree, and either nothing is armed
or `f` holds `fd`. -/
def Arms (K : Kernel κ δ) (s : Reactor T γ σ κ) (l : List Nat) (f : Nat) (fd : Int)
    (events : UInt32) (res : Bool × Reactor T γ σ κ) : Prop :=
  ∃ ow reg_fd k e, Owners ow s.fd_owner_cap reg_fd l ∧ Robs s f reg_fd ∧
    ((res = (false, rearmed s s.libc ow s.fd_owner_cap reg_fd k e) ∧
        (reg_fd f = s.mem.reg_fd f ∨ reg_fd f = -1) ∧ Unarmed K s.epoll k) ∨
     (res = (true, rearmed s s.libc ow s.fd_owner_cap reg_fd k e) ∧
        reg_fd f = fd ∧ Armed K s.epoll fd events f k))

/-- Clearing the record of a holder that does not wait robs nobody. -/
theorem OwnersOk.robs {s : Reactor T γ σ κ} {l : List Nat} (h : OwnersOk s l) {f i : Nat}
    (hfree : ∀ g, s.fd_owner i = some g → g ≠ f → ¬ ParkedOn s g i) (v : Int) :
    Robs s f (Function.update
      (match s.fd_owner i with
        | some g => Function.update s.mem.reg_fd g (-1)
        | none => s.mem.reg_fd) f v) := by
  intro g hgf
  rw [Function.update_of_ne hgf]
  cases ho : s.fd_owner i with
  | none => exact Or.inl rfl
  | some g' =>
      show Function.update s.mem.reg_fd g' (-1) g = _ ∨ _
      by_cases hgg : g = g'
      · subst hgg
        rw [(h.law g (h.live i g ho) i).mp ho]
        exact Or.inr ⟨Function.update_self _ _ _, hfree g ho hgf⟩
      · exact Or.inl (Function.update_of_ne hgg _ _)

/-- **Both ends of `arm_entry`** leave the maps in agreement, once the record of whoever held the
slot is cleared. -/
theorem arm_entry_arms (K : Kernel κ δ) {s s' : Reactor T γ σ κ} {l : List Nat} (h : OwnersOk s l)
    {f i : Nat} (hf : f ∈ l) (events : UInt32) (hcap : i < s.fd_owner_cap)
    (hreg : s.mem.reg_fd f = (i : Int) ∨ s.mem.reg_fd f = -1) {op : CtlOp}
    (hop : op ≠ .EPOLL_CTL_DEL)
    (hs' : s' = { s with mem := { s.mem with reg_fd :=
      (match s.fd_owner i with
        | some g => Function.update s.mem.reg_fd g (-1)
        | none => s.mem.reg_fd) } })
    (hfree : ∀ g, s.fd_owner i = some g → g ≠ f → ¬ ParkedOn s g i) :
    Arms K s l f i events (arm_entry K s' f i events op) := by
  have hvac := h.vacate hf hreg
  have htake := hvac.take hf hcap (Function.update_self _ _ _) (Function.update_self _ _ _)
  rw [Function.update_idem, Function.update_idem] at htake
  have hepoll : s'.epoll = s.epoll := by rw [hs']
  rcases arm_entry_spec K s' f i events hop with ⟨k, e, hres, hk⟩ | ⟨k, e, hres, hk⟩
  · rw [hepoll] at hk
    refine ⟨_, _, k, e, hvac, h.robs hfree _, Or.inl ⟨?_, Or.inr (Function.update_self _ _ _), hk⟩⟩
    rw [hres, hs']
    rfl
  · rw [hepoll] at hk
    refine ⟨_, _, k, e, htake, h.robs hfree _, Or.inr ⟨?_, Function.update_self _ _ _, hk⟩⟩
    rw [hres, hs']
    rfl

/-- **Arming again** by the fiber that holds the slot: its record need not be cleared first. -/
theorem arm_entry_again (K : Kernel κ δ) {s : Reactor T γ σ κ} {l : List Nat} (h : OwnersOk s l)
    {f i : Nat} (ho : s.fd_owner i = some f) (events : UInt32) :
    Arms K s l f i events (arm_entry K s f i events .EPOLL_CTL_MOD) := by
  have hrec := (h.law f (h.live i f ho) i).mp ho
  have hmod : CtlOp.EPOLL_CTL_MOD ≠ .EPOLL_CTL_DEL := by simp
  rcases arm_entry_spec K s f i events hmod with ⟨k, e, hres, hk⟩ | ⟨k, e, hres, hk⟩
  · refine ⟨_, _, k, e, h.drop ho, ?_, Or.inl ⟨?_, Or.inr (Function.update_self _ _ _), hk⟩⟩
    · exact fun g hg => Or.inl (Function.update_of_ne hg _ _)
    · rw [hres]
      rfl
  · have h1 : Function.update s.fd_owner i (some f) = s.fd_owner := by
      rw [← ho]; exact Function.update_eq_self i _
    have h2 : Function.update s.mem.reg_fd f (i : Int) = s.mem.reg_fd := by
      rw [← hrec]; exact Function.update_eq_self f _
    refine ⟨s.fd_owner, s.mem.reg_fd, k, e, h, fun g _ => Or.inl rfl, Or.inr ⟨?_, hrec, hk⟩⟩
    rw [hres]
    simp only [Int.toNat_natCast, arm_done, h1, h2]
    rfl

/-- **Arming by the holder the map records**, from a state where `f` holds `fd` or nothing. -/
theorem arm_holder_spec (K : Kernel κ δ) {s : Reactor T γ σ κ} {l : List Nat} (h : OwnersOk s l)
    {f : Nat} (hf : f ∈ l) {fd : Int} (events : UInt32) (hfd : 0 ≤ fd)
    (hcap : fd.toNat < s.fd_owner_cap) (hreg : s.mem.reg_fd f = fd ∨ s.mem.reg_fd f = -1) :
    Arms K s l f fd events (arm_holder K s f fd events) := by
  obtain ⟨i, hi⟩ : ∃ i : Nat, fd = (i : Int) := ⟨fd.toNat, by omega⟩
  subst hi
  rw [Int.toNat_natCast] at hcap
  cases ho : s.fd_owner i with
  | none =>
      have hstep : arm_holder K s f i events = arm_entry K s f i events .EPOLL_CTL_ADD := by
        simp only [arm_holder, Int.toNat_natCast, ho]
      rw [hstep]
      apply arm_entry_arms K h hf events hcap hreg (by simp)
      · rw [ho]
      · intro g hg
        rw [ho] at hg
        exact absurd hg (by simp)
  | some holder =>
      by_cases hhf : holder = f
      · subst hhf
        have hstep : arm_holder K s holder i events =
            arm_entry K s holder i events .EPOLL_CTL_MOD := by
          simp only [arm_holder, Int.toNat_natCast, ho, ne_eq, not_true_eq_false, if_false]
        rw [hstep]
        exact arm_entry_again K h ho events
      · by_cases hbusy : s.mem.state holder = .FB_PARKED ∧ s.mem.wait_fd holder = i
        · -- somebody waits on it: refused
          refine ⟨s.fd_owner, s.mem.reg_fd, s.epoll, .EBUSY, h, fun g _ => Or.inl rfl,
            Or.inl ⟨?_, Or.inl rfl, Unarmed.refl⟩⟩
          simp only [arm_holder, Int.toNat_natCast, ho, ne_eq, hhf, not_false_eq_true, if_true,
            if_pos hbusy]
          rfl
        · have hstep : arm_holder K s f i events = arm_entry K { s with mem := { s.mem with
              reg_fd := Function.update s.mem.reg_fd holder (-1) } } f i events
                .EPOLL_CTL_MOD := by
            simp only [arm_holder, Int.toNat_natCast, ho, ne_eq, hhf, not_false_eq_true, if_true,
              if_neg hbusy]
          rw [hstep]
          apply arm_entry_arms K h hf events hcap hreg (by simp)
          · rw [ho]
          · intro g hg _
            rw [ho] at hg
            obtain rfl := Option.some.inj hg
            exact hbusy

/-- **Arming where the map covers `fd`**: the registration of another descriptor is dropped first. -/
theorem arm_slot_spec (K : Kernel κ δ) {s : Reactor T γ σ κ} {l : List Nat} (h : OwnersOk s l)
    {f : Nat} (hf : f ∈ l) {fd : Int} (events : UInt32) (hfd : 0 ≤ fd)
    (hcap : fd.toNat < s.fd_owner_cap) :
    Arms K s l f fd events (arm_slot K s f fd events) := by
  by_cases hreg : s.mem.reg_fd f = fd
  · have hstep : arm_slot K s f fd events = arm_holder K s f fd events := by
      simp only [arm_slot, hreg, ne_eq, not_true_eq_false, if_false]
    rw [hstep]
    exact arm_holder_spec K h hf events hfd hcap (Or.inl hreg)
  · -- the registration of another descriptor is dropped first
    obtain ⟨ow₁, k₁, e₁, hdet, hown₁, hk0, hk1⟩ := detach_fd_spec K h hf
    have hstep : arm_slot K s f fd events = arm_holder K (detach_fd K s f) f fd events := by
      simp only [arm_slot, ne_eq, hreg, not_false_eq_true, if_true]
    have hquiet : Unarmed K s.epoll k₁ := by
      by_cases hm : s.mem.reg_fd f = -1
      · rw [hk0 hm]
        exact Unarmed.refl
      · rw [hk1 hm]
        exact Unarmed.del _ Unarmed.refl
    rw [hstep, hdet]
    obtain ⟨ow, reg_fd, k, e, hown, hrobs, hres⟩ := arm_holder_spec K
      (s := { s with
        mem := { s.mem with reg_fd := Function.update s.mem.reg_fd f (-1) }
        fd_owner := ow₁
        epoll := k₁
        errno := e₁ })
      hown₁ hf events hfd hcap (Or.inr (Function.update_self _ _ _))
    refine ⟨ow, reg_fd, k, e, hown, ?_, ?_⟩
    · intro g hgf
      have := hrobs g hgf
      simp only [Function.update_of_ne hgf] at this
      exact this
    · rcases hres with ⟨heq, hr, hk⟩ | ⟨heq, hr, hk⟩
      · refine Or.inl ⟨heq, Or.inr ?_, hquiet.trans hk⟩
        rcases hr with hr | hr
        · exact hr.trans (Function.update_self _ _ _)
        · exact hr
      · obtain ⟨k', op, hk', hop, hlast⟩ := hk
        exact Or.inr ⟨heq, hr, k', op, hquiet.trans hk', hop, hlast⟩

/-- **Arming.**  The maps agree afterwards in every case.  On success `f` holds `fd` and one kernel
entry was armed, for `f`; on failure none was. -/
theorem arm_fd_spec (L : Libc γ) (K : Kernel κ δ) {s : Reactor T γ σ κ} {l : List Nat}
    (h : OwnersOk s l) {f : Nat} (hf : f ∈ l) (fd : Int) (events : UInt32) :
    ∃ c ow cap reg_fd k e, Reallocs L s.libc c ∧ Owners ow cap reg_fd l ∧ Robs s f reg_fd ∧
      ((arm_fd L K s f fd events = (false, rearmed s c ow cap reg_fd k e) ∧
          (reg_fd f = s.mem.reg_fd f ∨ reg_fd f = -1) ∧ Unarmed K s.epoll k) ∨
       (arm_fd L K s f fd events = (true, rearmed s c ow cap reg_fd k e) ∧ 0 ≤ fd ∧
          reg_fd f = fd ∧ Armed K s.epoll fd events f k)) := by
  by_cases hfd : fd < 0
  · -- a negative descriptor is refused at once
    refine ⟨s.libc, s.fd_owner, s.fd_owner_cap, s.mem.reg_fd, s.epoll, .EBADF, .refl, h,
      fun g _ => Or.inl rfl, Or.inl ⟨?_, Or.inl rfl, Unarmed.refl⟩⟩
    unfold arm_fd
    rw [if_pos hfd]
    rfl
  rcases fd_owner_reserve_spec L h fd with ⟨c, hc, heq⟩ | ⟨c, ow, cap, hc, hcap, hown, heq⟩
  · -- the map cannot grow
    refine ⟨c, s.fd_owner, s.fd_owner_cap, s.mem.reg_fd, s.epoll, .ENOMEM, hc, h,
      fun g _ => Or.inl rfl, Or.inl ⟨?_, Or.inl rfl, Unarmed.refl⟩⟩
    simp only [arm_fd, if_neg hfd, heq]
    rfl
  -- the map covers `fd`
  have hstep : arm_fd L K s f fd events =
      arm_slot K { s with libc := c, fd_owner := ow, fd_owner_cap := cap } f fd events := by
    simp only [arm_fd, if_neg hfd, heq]
  obtain ⟨ow', reg_fd, k, e, hown', hrobs, hres⟩ := arm_slot_spec K
    (s := { s with libc := c, fd_owner := ow, fd_owner_cap := cap }) hown hf events (by omega) hcap
  rw [hstep]
  refine ⟨c, ow', cap, reg_fd, k, e, hc, hown', hrobs, ?_⟩
  rcases hres with ⟨hfail, hreg, hk⟩ | ⟨hdone, hreg, hk⟩
  · exact Or.inl ⟨hfail, hreg, hk⟩
  · exact Or.inr ⟨hdone, by omega, hreg, hk⟩

end CFiber.Ev
