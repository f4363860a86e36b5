/-
  CFiber.Base.Refine — one transition system carried out by another.

  `label s a` lists what the abstract system does while the concrete one takes action `a` from `s`.
  The empty list is a step that the abstract system does not see; a list of several actions is a
  step that stands for all of them.

    • `Simulates`      — every step is answered, by what its label says;
    • `Simulates.exec` — so is every run.

  Nothing here names a program.
-/
import CFiber.Base.Run

namespace CFiber.Base

variable {σ α ρ β : Type*}

/-- What the abstract system does along a run. -/
def labels (step : σ → α → Option σ) (label : σ → α → List β) : σ → List α → List β
  | _, [] => []
  | s, a :: as => label s a ++ match step s a with
    | some t => labels step label t as
    | none => []

theorem labels_cons {step : σ → α → Option σ} {label : σ → α → List β} {s t : σ} {a : α}
    (h : step s a = some t) (as : List α) :
    labels step label s (a :: as) = label s a ++ labels step label t as := by
  simp only [labels, h]

/-- **A forward simulation**: while the states satisfy `P`, a step between states of which the first
is related to `t` is answered from `t` by what its label says. -/
def Simulates (step : σ → α → Option σ) (spec : ρ → β → Option ρ) (label : σ → α → List β)
    (P : σ → Prop) (R : σ → ρ → Prop) : Prop :=
  ∀ s a s' t, R s t → P s → step s a = some s' →
    ∃ t', exec spec t (label s a) = some t' ∧ R s' t'

/-- **Every run is answered**, by induction on its actions. -/
theorem Simulates.exec {step : σ → α → Option σ} {spec : ρ → β → Option ρ}
    {label : σ → α → List β} {P : σ → Prop} {R : σ → ρ → Prop}
    (h : Simulates step spec label P R) {s s' : σ} {t : ρ} {as : List α} (hR : R s t)
    (hP : Along step P s as) (hrun : Base.exec step s as = some s') :
    ∃ t', Base.exec spec t (labels step label s as) = some t' ∧ R s' t' := by
  induction as generalizing s t with
  | nil =>
      obtain rfl : s = s' := by simpa using hrun
      exact ⟨t, rfl, hR⟩
  | cons a as ih =>
      obtain ⟨u, hu, hrest⟩ := exec_cons.mp hrun
      obtain ⟨v, hv, hRv⟩ := h s a u t hR hP.head hu
      obtain ⟨t', ht', hR'⟩ := ih hRv (hP.tail hu) hrest
      refine ⟨t', ?_, hR'⟩
      rw [labels_cons hu, exec_append]
      exact ⟨v, hv, ht'⟩

end CFiber.Base
