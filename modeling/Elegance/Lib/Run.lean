import Mathlib.Tactic

/-!
# Runs of a machine

A machine takes events one after another: `exec` is the state they lead to, and `Along P` says that
every event meets a state at which `P` allows it. A property kept by every allowed step holds after
a run (`invariant`); where a step that is not allowed breaks it, it holds all through a run exactly
when every step is allowed (`along_iff_forall_exec`). Where a step changes one part of a state, each
part is the one it changed, or as before (`eq_of_update`).
-/

namespace Machine

variable {σ ε : Type*} (step : σ → ε → σ)

/-- The state after the events. -/
def exec (s : σ) (es : List ε) : σ := es.foldl step s

/-- Every event is one `P` allows at the state it meets. -/
def Along (P : σ → ε → Prop) : σ → List ε → Prop
  | _, [] => True
  | s, e :: es => P s e ∧ Along P (step s e) es

instance decidableAlong (P : σ → ε → Prop) [∀ s e, Decidable (P s e)] :
    ∀ (s : σ) (es : List ε), Decidable (Along step P s es)
  | _, [] => .isTrue trivial
  | s, e :: es =>
    have := decidableAlong P (step s e) es
    inferInstanceAs (Decidable (P s e ∧ Along step P (step s e) es))

variable {step}

@[simp]
theorem exec_nil (s : σ) : exec step s [] = s := rfl

@[simp]
theorem exec_cons (s : σ) (e : ε) (es : List ε) :
    exec step s (e :: es) = exec step (step s e) es := rfl

theorem exec_append (s : σ) (es es' : List ε) :
    exec step s (es ++ es') = exec step (exec step s es) es' :=
  List.foldl_append

section Parts

variable {ι α : Type*} [DecidableEq ι] {parts : ι → α} {i j : ι} {a b : α}

theorem eq_of_update (h : Function.update parts i a j = b) :
    j = i ∧ a = b ∨ j ≠ i ∧ parts j = b := by
  by_cases hji : j = i
  · rw [hji, Function.update_self] at h
    exact .inl ⟨hji, h⟩
  · rw [Function.update_of_ne hji] at h
    exact .inr ⟨hji, h⟩

end Parts

variable {P Q : σ → ε → Prop}

theorem along_append : ∀ (s : σ) (es es' : List ε),
    Along step P s (es ++ es') ↔ Along step P s es ∧ Along step P (exec step s es) es'
  | s, [], es' => by simp [Along]
  | s, e :: es, es' => by
    simp only [List.cons_append, Along, along_append (step s e) es es', exec_cons, and_assoc]

theorem along_and : ∀ (s : σ) (es : List ε),
    Along step (fun s e => P s e ∧ Q s e) s es ↔ Along step P s es ∧ Along step Q s es
  | s, [] => by simp [Along]
  | s, e :: es => by
    simp only [Along, along_and (step s e) es]
    tauto

theorem along_of_forall (h : ∀ s e, P s e) : ∀ (s : σ) (es : List ε), Along step P s es
  | _, [] => trivial
  | s, e :: es => ⟨h s e, along_of_forall h (step s e) es⟩

theorem along_of_forall_mem {R : ε → Prop} : ∀ {s : σ} {es : List ε}, (∀ e ∈ es, R e) →
    Along step (fun _ => R) s es
  | _, [], _ => trivial
  | _, e :: _, h => ⟨h e (by simp), along_of_forall_mem fun e' he' => h e' (by simp [he'])⟩

theorem along_mono (h : ∀ s e, P s e → Q s e) :
    ∀ {s : σ} {es : List ε}, Along step P s es → Along step Q s es
  | _, [], _ => trivial
  | _, _ :: _, ⟨he, hes⟩ => ⟨h _ _ he, along_mono h hes⟩

variable {I G : σ → Prop}

/-- What every allowed step keeps holds after a run. -/
theorem invariant (h : ∀ s e, I s → P s e → I (step s e)) :
    ∀ {s : σ} {es : List ε}, I s → Along step P s es → I (exec step s es)
  | _, [], hs, _ => hs
  | s, e :: es, hs, ⟨he, hes⟩ => by
    rw [exec_cons]
    exact invariant h (h s e hs he) hes

/-- What every allowed step makes less bounds the length of a run. -/
theorem length_le_of_decreasing (left : σ → ℕ) (hkeep : ∀ s e, I s → P s e → I (step s e))
    (hless : ∀ s e, I s → P s e → left (step s e) < left s) :
    ∀ {s : σ} {es : List ε}, I s → Along step P s es → es.length ≤ left s
  | _, [], _, _ => Nat.zero_le _
  | s, e :: es, hs, ⟨he, hes⟩ => by
    have hrest := length_le_of_decreasing left hkeep hless (hkeep s e hs he) hes
    have hstep := hless s e hs he
    rw [List.length_cons]
    omega

/-- It holds at each step of the run too, where what another step keeps may rest on it. -/
theorem along_invariant (h : ∀ s e, I s → P s e → I (step s e)) :
    ∀ {s : σ} {es : List ε}, I s → Along step P s es →
      Along step (fun s e => P s e ∧ I s) s es
  | _, [], _, _ => trivial
  | s, e :: _, hs, ⟨he, hes⟩ => ⟨⟨he, hs⟩, along_invariant h (h s e hs he) hes⟩

/-- Where `P` keeps `I`, and under `I` allows just the steps `R` does, they allow the same runs. -/
theorem along_congr {R : σ → ε → Prop} (hkeep : ∀ s e, I s → P s e → I (step s e))
    (h : ∀ s e, I s → (R s e ↔ P s e)) :
    ∀ {s : σ} {es : List ε}, I s → (Along step R s es ↔ Along step P s es)
  | _, [], _ => Iff.rfl
  | s, e :: es, hs => by
    rw [Along, Along, h s e hs]
    exact and_congr_right fun hp => along_congr hkeep h (hkeep s e hs hp)

/-- Where allowed steps keep `I` and others lead to `J`, which every step keeps, a run ends in the one
or in the other. -/
theorem along_or_broken {J : σ → Prop} (hkeep : ∀ s e, I s → Q s e → P s e → I (step s e))
    (hbreak : ∀ s e, I s → Q s e → ¬ P s e → J (step s e))
    (hbroken : ∀ s e, J s → Q s e → J (step s e)) :
    ∀ {s : σ} {es : List ε}, I s → Along step Q s es →
      (Along step P s es ∧ I (exec step s es)) ∨ (¬ Along step P s es ∧ J (exec step s es))
  | _, [], hs, _ => .inl ⟨trivial, hs⟩
  | s, e :: es, hs, ⟨hq, hqs⟩ => by
    rw [Along, exec_cons]
    by_cases hp : P s e
    · rcases along_or_broken hkeep hbreak hbroken (hkeep s e hs hq hp) hqs with h | h
      · exact .inl ⟨⟨hp, h.1⟩, h.2⟩
      · exact .inr ⟨fun hps => h.1 hps.2, h.2⟩
    · exact .inr ⟨fun hps => hp hps.1, invariant (fun s e hj hq => hbroken s e hj hq)
        (hbreak s e hs hq hp) hqs⟩

/-- Where allowed steps keep `I`, which implies `G`, and others break `G`, every state of a run is
in `G` exactly when every step of it is allowed. -/
theorem along_iff_forall_exec (hI : ∀ s, I s → G s)
    (hkeep : ∀ s e, I s → Q s e → P s e → I (step s e))
    (hbreak : ∀ s e, I s → Q s e → ¬ P s e → ¬ G (step s e)) :
    ∀ {s : σ} {es : List ε}, I s → Along step Q s es →
      ((∀ pre, pre <+: es → G (exec step s pre)) ↔ Along step P s es)
  | s, [], hs, _ => by
    refine ⟨fun _ => trivial, fun _ pre hpre => ?_⟩
    rw [List.prefix_nil.1 hpre]
    exact hI s hs
  | s, e :: es, hs, ⟨hq, hqs⟩ => by
    constructor
    · intro hG
      have hp : P s e := by
        by_contra hp
        exact hbreak s e hs hq hp (hG [e] ⟨es, rfl⟩)
      refine ⟨hp, (along_iff_forall_exec hI hkeep hbreak (hkeep s e hs hq hp) hqs).1 ?_⟩
      exact fun pre hpre => hG (e :: pre) (List.cons_prefix_cons.2 ⟨rfl, hpre⟩)
    · rintro ⟨hp, hps⟩ pre hpre
      rcases pre with _ | ⟨e', pre⟩
      · exact hI s hs
      · obtain ⟨rfl, hpre'⟩ := List.cons_prefix_cons.1 hpre
        exact (along_iff_forall_exec hI hkeep hbreak (hkeep s e' hs hq hp) hqs).2 hps pre hpre'

end Machine
