/-
  CFiber.Context.Routine — straight-line code that saves registers to one record and loads them
  from another, and a checker for it.

  An `Isa` says how many bytes each register has.  `Instr` has the moves, loads and stores such code
  is made of, with the addressing forms of several machines; `Instr.ops` breaks an instruction up
  into the four operations `Op`.

  `check` runs the code on symbolic values: the value a register had on entry, an address inside one
  of the two records, or what a field of the new record held.  If it accepts, the code does what it
  should on every state (`check_sound`):

    • every field of the old record gets its register's value, and no byte outside is written;
    • every register gets its field of the new record, as it is after the saving.

  Nothing here names a program.
-/
import Mathlib.Logic.Function.Basic
import CFiber.Context.Bytes

namespace CFiber.Context

/-! ## §1. The machine. -/

/-- `bytes` is the size of a register, `space` the number of addresses. -/
structure Isa (R : Type) where
  bytes : R → Nat
  space : Nat

/-- A register holds a number that fits into it. -/
structure State {R : Type} (I : Isa R) where
  regs : R → Nat
  fits : ∀ r, regs r < 256 ^ I.bytes r
  mem : Mem
  pc : Nat

inductive Instr (R : Type) where
  | mov (dst src : R)
  | str (src base : R) (off : Nat)
  | ldr (dst base : R) (off : Nat)
  /-- Two registers, one behind the other. -/
  | stp (r₁ r₂ base : R) (off : Nat)
  | ldp (r₁ r₂ base : R) (off : Nat)
  /-- The base register is moved on by `inc`. -/
  | str_post (src base : R) (inc : Nat)
  | ldr_post (dst base : R) (inc : Nat)
  /-- The registers `rs` one behind the other; the base register is moved on behind the last. -/
  | stmia (base : R) (rs : List R)
  | ldmia (base : R) (rs : List R)

inductive Op (R : Type) where
  | mov (dst src : R)
  | str (src base : R) (off : Nat)
  | ldr (dst base : R) (off : Nat)
  | add (base : R) (inc : Nat)

/-- How the code returns. -/
inductive Ret (R : Type) where
  /-- To the address in a register. -/
  | link (lr : R)
  /-- To the address on the stack, which is popped. -/
  | pop (sp : R)

variable {R : Type} [DecidableEq R] {I : Isa R}

def Instr.ops (I : Isa R) : Instr R → List (Op R)
  | .mov dst src => [.mov dst src]
  | .str src base off => [.str src base off]
  | .ldr dst base off => [.ldr dst base off]
  | .stp r₁ r₂ base off => [.str r₁ base off, .str r₂ base (off + I.bytes r₁)]
  | .ldp r₁ r₂ base off => [.ldr r₁ base off, .ldr r₂ base (off + I.bytes r₁)]
  | .str_post src base inc => [.str src base 0, .add base inc]
  | .ldr_post dst base inc => [.ldr dst base 0, .add base inc]
  | .stmia base rs => rs.flatMap fun r => [.str r base 0, .add base (I.bytes r)]
  | .ldmia base rs => rs.flatMap fun r => [.ldr r base 0, .add base (I.bytes r)]

def State.set (s : State I) (r : R) (v : Nat) : State I where
  regs := Function.update s.regs r (v % 256 ^ I.bytes r)
  fits := by
    intro q
    by_cases h : q = r
    · subst h
      rw [Function.update_self]
      exact Nat.mod_lt _ (Nat.pow_pos (by decide))
    · rw [Function.update_of_ne h]
      exact s.fits q
  mem := s.mem
  pc := s.pc

theorem State.set_self (s : State I) (r : R) (v : Nat) :
    (s.set r v).regs r = v % 256 ^ I.bytes r := Function.update_self ..

theorem State.set_of_ne (s : State I) {q r : R} (v : Nat) (h : q ≠ r) :
    (s.set r v).regs q = s.regs q := Function.update_of_ne h ..

def Op.exec (s : State I) : Op R → State I
  | .mov dst src => s.set dst (s.regs src)
  | .str src base off =>
    { s with mem := write s.mem ((s.regs base + off) % I.space) (I.bytes src) (s.regs src) }
  | .ldr dst base off =>
    s.set dst (read s.mem ((s.regs base + off) % I.space) (I.bytes dst))
  | .add base inc => s.set base (s.regs base + inc)

def Ret.exec (s : State I) : Ret R → State I
  | .link lr => { s with pc := s.regs lr }
  | .pop sp =>
    { s.set sp (s.regs sp + I.bytes sp) with pc := read s.mem (s.regs sp) (I.bytes sp) }

/-- The body of a routine. -/
def body (I : Isa R) (code : List (Instr R)) (s : State I) : State I :=
  (code.flatMap (Instr.ops I)).foldl Op.exec s

/-! ## §2. Symbolic values. -/

inductive Val (R : Type) where
  /-- What register `r` held on entry. -/
  | entry (r : R)
  /-- The address `k` bytes into the old record. -/
  | old (k : Nat)
  /-- The address `k` bytes into the new record. -/
  | new (k : Nat)
  /-- What the new record holds in the `n` bytes from offset `o` on. -/
  | field (o n : Nat)
  deriving DecidableEq

/-- `saved` lists the registers whose entry values are in the old record, with their offsets;
`loading` says that the saving is over. -/
structure Sym (R : Type) where
  val : R → Val R
  saved : List (Nat × R)
  loading : Bool

def Sym.start (old new : R) : Sym R where
  val := fun r => if r = old then .old 0 else if r = new then .new 0 else .entry r
  saved := []
  loading := false

/-- One operation, in records of `size` bytes; `none` when it is not accepted. -/
def Sym.step (I : Isa R) (size : Nat) (y : Sym R) : Op R → Option (Sym R)
  | .mov dst src =>
    if I.bytes dst = I.bytes src then some { y with val := Function.update y.val dst (y.val src) }
    else none
  | .str src base off =>
    match y.val base, y.val src with
    | .old k, .entry r =>
      if y.loading = false ∧ I.bytes src = I.bytes r ∧ 0 < I.bytes r ∧
          k + off + I.bytes r ≤ size ∧
          ∀ p ∈ y.saved, Apart (k + off) (I.bytes r) p.1 (I.bytes p.2) then
        some { y with saved := (k + off, r) :: y.saved }
      else none
    | _, _ => none
  | .ldr dst base off =>
    match y.val base with
    | .new k =>
      if 0 < I.bytes dst ∧ k + off + I.bytes dst ≤ size then
        some { y with
          val := Function.update y.val dst (.field (k + off) (I.bytes dst))
          loading := true }
      else none
    | _ => none
  | .add base inc =>
    if 256 ^ I.bytes base = I.space then
      match y.val base with
      | .old k => some { y with val := Function.update y.val base (.old (k + inc)) }
      | .new k => some { y with val := Function.update y.val base (.new (k + inc)) }
      | _ => none
    else none

def Sym.run (I : Isa R) (size : Nat) : Sym R → List (Op R) → Option (Sym R)
  | y, [] => some y
  | y, op :: ops => (y.step I size op).bind fun y' => Sym.run I size y' ops

/-- The code saves and loads each of the `fields`, given with their offsets. -/
def check (I : Isa R) (size : Nat) (old new : R) (fields : List (Nat × R))
    (code : List (Instr R)) : Bool :=
  match Sym.run I size (Sym.start old new) (code.flatMap (Instr.ops I)) with
  | none => false
  | some y => fields.all fun p =>
      decide (p ∈ y.saved) && decide (y.val p.2 = .field p.1 (I.bytes p.2))

/-! ## §3. Soundness. -/

/-- The old record lies at `a`, the new one at `b`; `s₀` is the state on entry.  `s` is what the
symbolic state `y` says. -/
structure Rel (size a b : Nat) (s₀ s : State I) (y : Sym R) : Prop where
  entry : ∀ q r, y.val q = .entry r → s.regs q = s₀.regs r
  old : ∀ q k, y.val q = .old k → s.regs q = (a + k) % I.space
  new : ∀ q k, y.val q = .new k → s.regs q = (b + k) % I.space
  field : ∀ q o n, y.val q = .field o n → y.loading = true ∧ s.regs q = read s.mem (b + o) n
  saved : ∀ p ∈ y.saved, read s.mem (a + p.1) (I.bytes p.2) = s₀.regs p.2
  frame : ∀ x, ¬ Within a size x → s.mem x = s₀.mem x

variable {size a b : Nat} {s₀ s : State I} {y y' : Sym R} {op : Op R}

omit [DecidableEq R] in
/-- An address inside a record is not wrapped. -/
theorem address_eq {base size k off n : Nat} (hfit : base + size ≤ I.space) (hn : 0 < n)
    (hle : k + off + n ≤ size) : ((base + k) % I.space + off) % I.space = base + (k + off) := by
  rw [Nat.mod_add_mod, Nat.mod_eq_of_lt (by omega)]
  omega

theorem Rel.start {old new : R} (ha : s₀.regs old = a) (hb : s₀.regs new = b)
    (hfa : a < I.space) (hfb : b < I.space) : Rel size a b s₀ s₀ (Sym.start old new) := by
  refine ⟨?_, ?_, ?_, ?_, ?_, fun _ _ => rfl⟩
  · intro q r h
    simp only [Sym.start] at h
    split_ifs at h
    obtain rfl : q = r := by simpa using h
    rfl
  · intro q k h
    simp only [Sym.start] at h
    split_ifs at h with h₁
    obtain rfl : 0 = k := by simpa using h
    rw [h₁, ha, Nat.add_zero, Nat.mod_eq_of_lt hfa]
  · intro q k h
    simp only [Sym.start] at h
    split_ifs at h with h₁ h₂
    obtain rfl : 0 = k := by simpa using h
    rw [h₂, hb, Nat.add_zero, Nat.mod_eq_of_lt hfb]
  · intro q o n h
    simp only [Sym.start] at h
    split_ifs at h
  · simp [Sym.start]

/-- A register gets a value that the symbolic state describes. -/
theorem Rel.set {v : Nat} {w : Val R} {dst : R} {loading : Bool} (h : Rel size a b s₀ s y)
    (hload : y.loading = true → loading = true)
    (hv : ∀ s' : State I, s'.mem = s.mem → s'.regs dst = v % 256 ^ I.bytes dst →
      (∀ r, w = .entry r → s'.regs dst = s₀.regs r) ∧
      (∀ k, w = .old k → s'.regs dst = (a + k) % I.space) ∧
      (∀ k, w = .new k → s'.regs dst = (b + k) % I.space) ∧
      ∀ o n, w = .field o n → loading = true ∧ s'.regs dst = read s'.mem (b + o) n) :
    Rel size a b s₀ (s.set dst v)
      { y with val := Function.update y.val dst w, loading := loading } := by
  obtain ⟨he, ho, hn, hf⟩ := hv (s.set dst v) rfl (s.set_self dst v)
  refine ⟨?_, ?_, ?_, ?_, h.saved, h.frame⟩
  · intro q r hq
    rcases eq_or_ne q dst with rfl | hne
    · exact he r (by simpa using hq)
    · rw [s.set_of_ne v hne]
      exact h.entry q r (by simpa [hne] using hq)
  · intro q k hq
    rcases eq_or_ne q dst with rfl | hne
    · exact ho k (by simpa using hq)
    · rw [s.set_of_ne v hne]
      exact h.old q k (by simpa [hne] using hq)
  · intro q k hq
    rcases eq_or_ne q dst with rfl | hne
    · exact hn k (by simpa using hq)
    · rw [s.set_of_ne v hne]
      exact h.new q k (by simpa [hne] using hq)
  · intro q o n hq
    rcases eq_or_ne q dst with rfl | hne
    · exact hf o n (by simpa using hq)
    · rw [s.set_of_ne v hne]
      obtain ⟨hl, hr⟩ := h.field q o n (by simpa [hne] using hq)
      exact ⟨hload hl, hr⟩

/-- **A move** carries over what is known. -/
theorem Rel.mov {dst src : R} (h : Rel size a b s₀ s y) (hb : I.bytes dst = I.bytes src) :
    Rel size a b s₀ (Op.exec s (.mov dst src))
      { y with val := Function.update y.val dst (y.val src) } := by
  refine h.set (fun hl => hl) fun s' hmem hreg => ?_
  have hsrc : s'.regs dst = s.regs src := by
    rw [hreg, hb, Nat.mod_eq_of_lt (s.fits src)]
  rw [hsrc, hmem]
  exact ⟨fun r => h.entry src r, fun k => h.old src k, fun k => h.new src k, fun o n => h.field src o n⟩

/-- **A store** puts an entry value into the old record. -/
theorem Rel.str {src base r : R} {k off : Nat} (h : Rel size a b s₀ s y)
    (hfit : a + size ≤ I.space) (hbase : y.val base = .old k) (hsrc : y.val src = .entry r)
    (hload : y.loading = false) (hbytes : I.bytes src = I.bytes r) (hpos : 0 < I.bytes r)
    (hle : k + off + I.bytes r ≤ size)
    (hap : ∀ p ∈ y.saved, Apart (k + off) (I.bytes r) p.1 (I.bytes p.2)) :
    Rel size a b s₀ (Op.exec s (.str src base off))
      { y with saved := (k + off, r) :: y.saved } := by
  have haddr : (s.regs base + off) % I.space = a + (k + off) := by
    rw [h.old base k hbase]
    exact address_eq hfit hpos hle
  have hmem : (Op.exec s (.str src base off)).mem
      = write s.mem (a + (k + off)) (I.bytes r) (s.regs src) := by
    simp only [Op.exec, haddr, hbytes]
  refine ⟨h.entry, h.old, h.new, ?_, ?_, ?_⟩
  · intro q o n hq
    have hl := (h.field q o n hq).1
    rw [hload] at hl
    exact absurd hl (by simp)
  · intro p hp
    rw [hmem]
    rcases List.mem_cons.mp hp with rfl | hp
    · rw [read_write, h.entry src r hsrc, Nat.mod_eq_of_lt (s₀.fits r)]
    · rw [read_write_apart, h.saved p hp]
      have := hap p hp
      unfold Apart at this ⊢
      omega
  · intro x hx
    rw [hmem, write_of_not_mem, h.frame x hx]
    unfold Within at hx ⊢
    omega

/-- **A load** takes a field of the new record. -/
theorem Rel.ldr {dst base : R} {k off : Nat} (h : Rel size a b s₀ s y)
    (hfit : b + size ≤ I.space) (hbase : y.val base = .new k) (hpos : 0 < I.bytes dst)
    (hle : k + off + I.bytes dst ≤ size) :
    Rel size a b s₀ (Op.exec s (.ldr dst base off))
      { y with
        val := Function.update y.val dst (.field (k + off) (I.bytes dst))
        loading := true } := by
  have haddr : (s.regs base + off) % I.space = b + (k + off) := by
    rw [h.new base k hbase]
    exact address_eq hfit hpos hle
  refine h.set (fun _ => rfl) fun s' hmem hreg => ⟨by simp, by simp, by simp, ?_⟩
  intro o n ho
  obtain ⟨rfl, rfl⟩ : k + off = o ∧ I.bytes dst = n := by simpa using ho
  rw [haddr, Nat.mod_eq_of_lt (read_lt ..)] at hreg
  rw [hmem]
  exact ⟨rfl, hreg⟩

/-- **A base register** moves on inside its record. -/
theorem Rel.add {base : R} {inc : Nat} {w : Val R} (h : Rel size a b s₀ s y)
    (hspace : 256 ^ I.bytes base = I.space)
    (hw : (∃ k, y.val base = .old k ∧ w = .old (k + inc)) ∨
      ∃ k, y.val base = .new k ∧ w = .new (k + inc)) :
    Rel size a b s₀ (Op.exec s (.add base inc)) { y with val := Function.update y.val base w } := by
  refine h.set (fun hl => hl) fun s' hmem hreg => ?_
  rcases hw with ⟨k, hk, rfl⟩ | ⟨k, hk, rfl⟩
  · refine ⟨by simp, fun k' hk' => ?_, by simp, by simp⟩
    obtain rfl : k + inc = k' := by simpa using hk'
    rw [hreg, h.old base k hk, hspace, Nat.mod_add_mod, Nat.add_assoc]
  · refine ⟨by simp, by simp, fun k' hk' => ?_, by simp⟩
    obtain rfl : k + inc = k' := by simpa using hk'
    rw [hreg, h.new base k hk, hspace, Nat.mod_add_mod, Nat.add_assoc]

/-- **An operation that is accepted** is described by the symbolic states. -/
theorem Rel.step (h : Rel size a b s₀ s y) (hfa : a + size ≤ I.space) (hfb : b + size ≤ I.space)
    (hstep : y.step I size op = some y') : Rel size a b s₀ (op.exec s) y' := by
  cases op with
  | mov dst src =>
      simp only [Sym.step] at hstep
      split_ifs at hstep with hb
      obtain rfl := Option.some.inj hstep
      exact h.mov hb
  | str src base off =>
      simp only [Sym.step] at hstep
      split at hstep
      · rename_i k r hbase hsrc
        split_ifs at hstep with hc
        obtain rfl := Option.some.inj hstep
        obtain ⟨hload, hbytes, hpos, hle, hap⟩ := hc
        exact h.str hfa hbase hsrc hload hbytes hpos hle hap
      · exact absurd hstep (by simp)
  | ldr dst base off =>
      simp only [Sym.step] at hstep
      split at hstep
      · rename_i k hbase
        split_ifs at hstep with hc
        obtain rfl := Option.some.inj hstep
        exact h.ldr hfb hbase hc.1 hc.2
      · exact absurd hstep (by simp)
  | add base inc =>
      simp only [Sym.step] at hstep
      split_ifs at hstep with hspace
      split at hstep
      · rename_i k hbase
        obtain rfl := Option.some.inj hstep
        exact h.add hspace (Or.inl ⟨k, hbase, rfl⟩)
      · rename_i k hbase
        obtain rfl := Option.some.inj hstep
        exact h.add hspace (Or.inr ⟨k, hbase, rfl⟩)
      · exact absurd hstep (by simp)

theorem Rel.run {ops : List (Op R)} (h : Rel size a b s₀ s y) (hfa : a + size ≤ I.space)
    (hfb : b + size ≤ I.space) (hrun : Sym.run I size y ops = some y') :
    Rel size a b s₀ (ops.foldl Op.exec s) y' := by
  induction ops generalizing s y with
  | nil =>
      obtain rfl := Option.some.inj hrun
      exact h
  | cons op ops ih =>
      obtain ⟨y₁, h₁, hrest⟩ := Option.bind_eq_some_iff.mp hrun
      exact ih (h.step hfa hfb h₁) hrest

/-- What saving to the record at `a` and loading from the one at `b` comes to. -/
structure Transfers (fields : List (Nat × R)) (size a b : Nat) (s₀ s : State I) : Prop where
  frame : ∀ x, ¬ Within a size x → s.mem x = s₀.mem x
  saved : ∀ p ∈ fields, read s.mem (a + p.1) (I.bytes p.2) = s₀.regs p.2
  loaded : ∀ p ∈ fields, s.regs p.2 = read s.mem (b + p.1) (I.bytes p.2)

/-- **What the checker accepts is right on every state.** -/
theorem check_sound {old new : R} {fields : List (Nat × R)} {code : List (Instr R)}
    (hsize : 0 < size) (hcheck : check I size old new fields code = true) (s₀ : State I)
    (hfa : s₀.regs old + size ≤ I.space) (hfb : s₀.regs new + size ≤ I.space) :
    Transfers fields size (s₀.regs old) (s₀.regs new) s₀ (body I code s₀) := by
  unfold check at hcheck
  split at hcheck
  · exact absurd hcheck (by simp)
  · rename_i y hrun
    have hstart : Rel size (s₀.regs old) (s₀.regs new) s₀ s₀ (Sym.start old new) :=
      Rel.start rfl rfl (by omega) (by omega)
    have h := hstart.run hfa hfb hrun
    simp only [List.all_eq_true, Bool.and_eq_true, decide_eq_true_eq] at hcheck
    exact ⟨h.frame, fun p hp => h.saved p (hcheck p hp).1,
      fun p hp => (h.field p.2 p.1 _ (hcheck p hp).2).2⟩

end CFiber.Context
