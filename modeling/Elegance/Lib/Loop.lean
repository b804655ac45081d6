import Mathlib.Tactic
import Mathlib.Data.List.Forall2

/-!
# Loops that thread a state

One step takes an item and a state, and gives a result with the next state or nothing. The loop is
`List.mapM`. `Exactly` says which items a step is right on, and a loop of such steps is right on the
lists of such items (`Exactly.mapM`), so that it holds of a loop over loops.
-/

namespace Loop

variable {σ α β : Type} {f : α → StateT σ Option β} {next : σ → α → Option σ} {Good : α → Prop}
  {Right : α → β → Prop}

/-- `f` goes from a state to the `next` one, and its result is right exactly for a good item and a
state that has a next one. -/
structure Exactly (f : α → StateT σ Option β) (next : σ → α → Option σ) (Good : α → Prop)
    (Right : α → β → Prop) : Prop where
  next_eq : ∀ {s s' a b}, f a s = some (b, s') → next s a = some s'
  right_iff : ∀ s a, (∃ b s', f a s = some (b, s') ∧ Right a b) ↔ Good a ∧ (next s a).isSome

theorem mapM_cons_eq_some {a : α} {as : List α} {s s' : σ} {bs : List β} :
    ((a :: as).mapM f) s = some (bs, s') ↔ ∃ b s₁ bs', f a s = some (b, s₁) ∧
      as.mapM f s₁ = some (bs', s') ∧ bs = b :: bs' := by
  rw [List.mapM_cons]
  show (f a s >>= fun p => as.mapM f p.2 >>= fun q => some (p.1 :: q.1, q.2)) = _ ↔ _
  simp only [bind, Option.bind_eq_some_iff, Prod.exists, Option.some.injEq, Prod.mk.injEq]
  constructor
  · rintro ⟨b, s₁, ha, bs', s₂, has, rfl, rfl⟩
    exact ⟨b, s₁, bs', ha, has, rfl⟩
  · rintro ⟨b, s₁, bs', ha, has, rfl⟩
    exact ⟨b, s₁, ha, bs', s', has, rfl, rfl⟩

theorem Exactly.mapM_next_eq (h : Exactly f next Good Right) : ∀ {as : List α} {s s' : σ}
    {bs : List β}, as.mapM f s = some (bs, s') → as.foldlM next s = some s'
  | [], s, s', bs, hrun => by
    obtain ⟨-, rfl⟩ := Prod.mk.inj (Option.some.inj hrun)
    rfl
  | a :: as, s, s', bs, hrun => by
    obtain ⟨b, s₁, bs', ha, has, -⟩ := mapM_cons_eq_some.1 hrun
    rw [List.foldlM_cons, h.next_eq ha]
    exact h.mapM_next_eq has

theorem Exactly.mapM_right_iff (h : Exactly f next Good Right) : ∀ (s : σ) (as : List α),
    (∃ bs s', as.mapM f s = some (bs, s') ∧ List.Forall₂ Right as bs) ↔
      (∀ a ∈ as, Good a) ∧ (as.foldlM next s).isSome
  | s, [] => by
    refine ⟨fun _ => ⟨by simp, rfl⟩, fun _ => ⟨[], s, rfl, .nil⟩⟩
  | s, a :: as => by
    have hstep := h.right_iff s a
    rw [List.foldlM_cons, List.forall_mem_cons]
    constructor
    · rintro ⟨bs, s', hrun, hright⟩
      obtain ⟨b, s₁, bs', ha, has, rfl⟩ := mapM_cons_eq_some.1 hrun
      obtain ⟨hb, hbs⟩ := List.forall₂_cons.1 hright
      obtain ⟨hgood, -⟩ := hstep.1 ⟨b, s₁, ha, hb⟩
      obtain ⟨hrest, hfold⟩ := (h.mapM_right_iff s₁ as).1 ⟨bs', s', has, hbs⟩
      rw [h.next_eq ha]
      exact ⟨⟨hgood, hrest⟩, hfold⟩
    · rintro ⟨⟨hgood, hrest⟩, hfold⟩
      obtain ⟨s₁, hnext⟩ : ∃ s₁, next s a = some s₁ := by
        rcases hnext : next s a with _ | s₁
        · rw [hnext] at hfold
          cases hfold
        · exact ⟨s₁, rfl⟩
      obtain ⟨b, s₂, ha, hb⟩ := hstep.2 ⟨hgood, by rw [hnext]; rfl⟩
      obtain rfl : s₁ = s₂ := Option.some.inj (hnext.symm.trans (h.next_eq ha))
      rw [hnext] at hfold
      obtain ⟨bs, s', has, hbs⟩ := (h.mapM_right_iff s₁ as).2 ⟨hrest, hfold⟩
      exact ⟨b :: bs, s', mapM_cons_eq_some.2 ⟨b, s₁, bs, ha, has, rfl⟩, .cons hb hbs⟩

/-- The loop over a list is right exactly on lists of good items, if it gets from state to state. -/
theorem Exactly.mapM (h : Exactly f next Good Right) :
    Exactly (fun as : List α => as.mapM f) (fun s as => as.foldlM next s)
      (fun as => ∀ a ∈ as, Good a) (List.Forall₂ Right) :=
  ⟨h.mapM_next_eq, h.mapM_right_iff⟩

/-- The same step, on items that are made from others. -/
theorem Exactly.comap {γ : Type} (h : Exactly f next Good Right) (g : γ → α) :
    Exactly (fun c => f (g c)) (fun s c => next s (g c)) (fun c => Good (g c))
      fun c => Right (g c) :=
  ⟨h.next_eq, fun s c => h.right_iff s (g c)⟩

/-- A loop of steps that each keep an invariant comes to its end. -/
theorem exists_foldlM {I : σ → Prop} : ∀ {as : List α},
    (∀ a ∈ as, ∀ s, I s → ∃ s', next s a = some s' ∧ I s') → ∀ {s}, I s →
      ∃ s', as.foldlM next s = some s' ∧ I s'
  | [], _, s, hs => ⟨s, rfl, hs⟩
  | a :: as, hstep, s, hs => by
    obtain ⟨s₁, hnext, hs₁⟩ := hstep a List.mem_cons_self s hs
    rw [List.foldlM_cons, hnext]
    exact exists_foldlM (fun a ha => hstep a (List.mem_cons_of_mem _ ha)) hs₁

end Loop
