/-
  CFiber.Base.Lockstep — deterministic machines: two that keep pace, and one that stops.

  A deterministic machine is a function on its states, iterated; a machine that has stopped stays
  where it is.  `R` relates the states of two machines:

    • `orbit_follow` — if every step of the one is answered by some steps of the other, every state
      of the one is related to a state of the other;
    • `orbit_cover`  — the same in the other direction.

  And of one machine:

    • `orbit_stable` — what no step undoes holds from then on;
    • `orbit_ends`   — where every step brings a measure down, it stops within that many steps.

  Nothing here names a program.
-/
import Mathlib.Logic.Function.Iterate

namespace CFiber.Base

variable {σ τ : Type*} {f : σ → σ} {g : τ → τ} {R : σ → τ → Prop} {s : σ} {t : τ}

/-- **Every step of `f` is answered by some steps of `g`.** -/
theorem orbit_follow (h0 : R s t)
    (h : ∀ n u, R (f^[n] s) u → ∃ k, R (f^[n + 1] s) (g^[k] u)) (n : Nat) :
    ∃ m, R (f^[n] s) (g^[m] t) := by
  induction n with
  | zero => exact ⟨0, h0⟩
  | succ n ih =>
      obtain ⟨m, hm⟩ := ih
      obtain ⟨k, hk⟩ := h n _ hm
      refine ⟨k + m, ?_⟩
      rw [Function.iterate_add_apply g k m]
      exact hk

/-- **Every step of `g` is matched by some steps of `f`.** -/
theorem orbit_cover (h0 : R s t)
    (h : ∀ n u, R (f^[n] s) u → ∃ k, R (f^[n + k] s) (g u)) (m : Nat) :
    ∃ n, R (f^[n] s) (g^[m] t) := by
  induction m with
  | zero => exact ⟨0, h0⟩
  | succ m ih =>
      obtain ⟨n, hn⟩ := ih
      obtain ⟨k, hk⟩ := h n _ hn
      refine ⟨n + k, ?_⟩
      rw [Function.iterate_succ_apply']
      exact hk

/-- What no step of `f` undoes holds from then on. -/
theorem orbit_stable {P : σ → Prop} (h : ∀ s, P s → P (f s)) {n m : Nat} (hle : n ≤ m)
    (hn : P (f^[n] s)) : P (f^[m] s) := by
  induction hle with
  | refl => exact hn
  | step _ ih =>
      rw [Function.iterate_succ_apply']
      exact h _ ih

/-- **A machine whose every step brings `measure` down stops**, within as many steps. -/
theorem orbit_ends {P : σ → Prop} (measure : σ → Nat)
    (h : ∀ n, ¬ P (f^[n] s) → measure (f^[n + 1] s) < measure (f^[n] s)) :
    ∃ n ≤ measure s, P (f^[n] s) := by
  by_contra hnone
  have hnot : ∀ n ≤ measure s, ¬ P (f^[n] s) := fun n hn hP => hnone ⟨n, hn, hP⟩
  have hdown : ∀ n ≤ measure s + 1, measure (f^[n] s) + n ≤ measure s := by
    intro n
    induction n with
    | zero => exact fun _ => Nat.le_refl _
    | succ n ih =>
        intro hn
        have := ih (by omega)
        have := h n (hnot n (by omega))
        omega
  have := hdown (measure s + 1) (Nat.le_refl _)
  omega

end CFiber.Base
