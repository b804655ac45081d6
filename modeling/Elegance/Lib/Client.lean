import Mathlib.Tactic

/-!
# Clients of an object

What a client calls next may depend on the answers so far (`Client`). An implementation agrees with
a specification if it answers alike wherever the specification answers at all (`Agrees`); then so
does every client that keeps to what the specification answers (`run_of_agrees`).
-/

/-- Calls that depend on the answers to earlier ones, and a result; or the client breaks off. -/
inductive Client (Op : Type) (Ans : Op → Type) (ρ : Type) where
  | done (r : ρ)
  | call (op : Op) (next : Ans op → Client Op Ans ρ)
  | stop

namespace Client

variable {Op : Type} {Ans : Op → Type} {ρ ρ' σ τ : Type}

/-- The result of the one is where the other goes on. -/
def next : Client Op Ans ρ → (ρ → Client Op Ans ρ') → Client Op Ans ρ'
  | done r, f => f r
  | call op k, f => call op fun a => (k a).next f
  | stop, _ => stop

instance : Monad (Client Op Ans) where
  pure := done
  bind := next

/-- One call. -/
def ask (op : Op) : Client Op Ans (Ans op) := call op done

/-- The result of a client of an object that acts so, or `none` where a call has no answer. -/
def run (act : σ → (op : Op) → Option (Ans op × σ)) : Client Op Ans ρ → σ → Option (ρ × σ)
  | done r, s => some (r, s)
  | call op k, s => (act s op).bind fun p => (k p.1).run act p.2
  | stop, _ => none

variable {act : σ → (op : Op) → Option (Ans op × σ)} {act' : τ → (op : Op) → Option (Ans op × τ)}

@[simp]
theorem run_pure (r : ρ) (s : σ) : (pure r : Client Op Ans ρ).run act s = some (r, s) := rfl

@[simp]
theorem run_ask (op : Op) (s : σ) : (ask op : Client Op Ans (Ans op)).run act s = act s op :=
  Option.bind_fun_some _

@[simp]
theorem run_bind (c : Client Op Ans ρ) (f : ρ → Client Op Ans ρ') (s : σ) :
    (c >>= f).run act s = (c.run act s).bind fun p => (f p.1).run act p.2 := by
  induction c generalizing s with
  | done r => rfl
  | call op k ih =>
    show (act s op).bind (fun p => (k p.1 >>= f).run act p.2) = _
    rw [run, Option.bind_assoc]
    exact congrArg _ (funext fun p => ih p.1 p.2)
  | stop => rfl

/-- Where the one answers, the other gives the same answer, and they stay related. -/
def Agrees (act : σ → (op : Op) → Option (Ans op × σ))
    (act' : τ → (op : Op) → Option (Ans op × τ)) (R : σ → τ → Prop) : Prop :=
  ∀ s t op a t', R s t → act' t op = some (a, t') → ∃ s', act s op = some (a, s') ∧ R s' t'

/-- A client whose calls the one answers gets the same result from the other. -/
theorem run_of_agrees {R : σ → τ → Prop} (h : Agrees act act' R) (c : Client Op Ans ρ) :
    ∀ {s : σ} {t t' : τ} {r : ρ}, R s t → c.run act' t = some (r, t') →
      ∃ s', c.run act s = some (r, s') ∧ R s' t' := by
  induction c with
  | done r₀ =>
    rintro s t t' r hR hrun
    obtain ⟨rfl, rfl⟩ := Prod.mk.inj (Option.some.inj hrun)
    exact ⟨s, rfl, hR⟩
  | call op k ih =>
    rintro s t t' r hR hrun
    obtain ⟨⟨a, t₁⟩, hact, hrun⟩ := Option.bind_eq_some_iff.1 hrun
    obtain ⟨s₁, hact', hR₁⟩ := h s t op a t₁ hR hact
    obtain ⟨s', hrun', hR'⟩ := ih a hR₁ hrun
    refine ⟨s', ?_, hR'⟩
    rw [run, hact']
    exact hrun'
  | stop =>
    rintro s t t' r hR hrun
    cases hrun

end Client
