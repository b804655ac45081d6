import Elegance.Lib.Run

/-!
# Refinement

A machine refines another where each of its allowed steps is matched by a run of allowed steps of
the other, which may be empty (`Refines`). So every run is matched by a run (`Refines.run`), and
what the steps of the other machine keep is found, through the relation, at the end of every run of
this one (`Refines.invariant`).
-/

namespace Machine

variable {σ ε τ δ : Type*}

/-- The events of the other machine that match the events, step by step. -/
def matched (step : σ → ε → σ) (f : σ → ε → List δ) : σ → List ε → List δ
  | _, [] => []
  | s, e :: es => f s e ++ matched step f (step s e) es

/-- From related states, the events that match an allowed step are allowed and lead to a state
related to where the step leads. -/
def Refines (step : σ → ε → σ) (P : σ → ε → Prop) (step' : τ → δ → τ) (P' : τ → δ → Prop)
    (R : σ → τ → Prop) (f : σ → ε → List δ) : Prop :=
  ∀ s t e, R s t → P s e → Along step' P' t (f s e) ∧ R (step s e) (exec step' t (f s e))

variable {step : σ → ε → σ} {P Q : σ → ε → Prop} {step' : τ → δ → τ} {P' : τ → δ → Prop}
  {R : σ → τ → Prop} {f : σ → ε → List δ}

/-- Every run is matched by a run. -/
theorem Refines.run (h : Refines step P step' P' R f) :
    ∀ {s : σ} {t : τ} {es : List ε}, R s t → Along step P s es →
      Along step' P' t (matched step f s es) ∧
        R (exec step s es) (exec step' t (matched step f s es))
  | _, _, [], hR, _ => ⟨trivial, hR⟩
  | s, t, e :: es, hR, ⟨he, hes⟩ => by
    obtain ⟨hds, hstep⟩ := h s t e hR he
    obtain ⟨hds', hrun⟩ := h.run hstep hes
    rw [matched, along_append, exec_append]
    exact ⟨⟨hds, hds'⟩, hrun⟩

/-- What is asked of the events of a run is asked of the ones that match them. -/
theorem along_matched {D : δ → Prop} (hQ : ∀ s e, Q s e → ∀ d ∈ f s e, D d) :
    ∀ {s : σ} {t : τ} {es : List ε}, Along step Q s es →
      Along step' (fun _ => D) t (matched step f s es)
  | _, _, [], _ => trivial
  | s, t, e :: es, ⟨he, hes⟩ => by
    rw [matched, along_append]
    exact ⟨along_of_forall_mem (hQ s e he), along_matched hQ hes⟩

/-- What the steps of the other machine keep is found through the relation. -/
theorem Refines.invariant (h : Refines step P step' P' R f) {D : δ → Prop} {I : τ → Prop}
    (hQ : ∀ s e, Q s e → ∀ d ∈ f s e, D d) (hI : ∀ t d, I t → P' t d → D d → I (step' t d))
    {s : σ} {t : τ} {es : List ε} (hR : R s t) (ht : I t) (hP : Along step P s es)
    (hes : Along step Q s es) : ∃ t', R (exec step s es) t' ∧ I t' := by
  obtain ⟨hds, hR'⟩ := h.run hR hP
  have hboth := (along_and _ _).2 ⟨hds, along_matched hQ hes⟩
  exact ⟨_, hR', Machine.invariant (fun t d ht hd => hI t d ht hd.1 hd.2) ht hboth⟩

end Machine
