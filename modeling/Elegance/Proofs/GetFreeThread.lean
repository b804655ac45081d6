import Elegance.Proofs.Thread

/-!
# `GetFreeThread` and `Run`

A `Thread` that is not running has had its last write, and its `thread_id_` is 0 unless a
`pthread_create` failed on it: until then `Run` takes every task.
-/

namespace Elegance

open Machine

variable {n : ℕ}

namespace Threads

variable {w : Threads n}

section Sync

variable {k : Fin n} {a : Addr} {t : Thread n}

theorem reach_idle (hwait : w.wait = .idle) : w.reach = w.threadSet := by
  rw [reach, hwait]

/-- No other call is under way while one is. -/
theorem eq_of_underWay (hothers : ∀ j, j ≠ k → ¬ (w.calls j).underWay) {pos c : SyncAt} {j : Fin n}
    (hc : c.underWay) (hj : Function.update w.calls k pos j = c) : j = k ∧ pos = c :=
  (eq_of_update hj).resolve_right fun ⟨hjk, hj⟩ => hothers j hjk (hj ▸ hc)

/-- The one call under way goes on, and no thread starts or is missed. -/
theorem Kept.syncGoes (h : Kept w) (threads : Addr → Option (Thread n)) (hwait : w.wait = .idle)
    (hothers : ∀ j, j ≠ k → ¬ (w.calls j).underWay) {pos : SyncAt} {threadSet : List Addr}
    (hnodup : threadSet.Nodup)
    (hset : ∀ a ∈ w.threadSet, a ∈ threadSet) (hpresent : ∀ a ∈ threadSet, threads a ≠ none)
    (hroutine : ∀ j t, (w.routines j).live → OnThread w j t →
      ∃ t', threads (w.routines j).thread = some t' ∧ t'.curTask = t.curTask ∧
        t'.threadId = t.threadId ∧ (t'.running = true ∨
          Function.update w.calls k pos j = .created (w.routines j).thread))
    (hunused : ∀ a ∈ threadSet, Free w a → ∀ t, threads a = some t → t.threadId = 0 ∨
      t.running = false ∧ w.failed ≠ [] ∧ pos ≠ .created a)
    (hearly : pos.early = (w.calls k).early) (hgoing : w.calls k ≠ .returned)
    (hscanning : ∀ rest, pos = .scanning rest → ∀ a ∈ rest, a ∈ threadSet)
    (hchosen : ∀ a, pos = .chosen a ∨ pos = .entered a → a ∈ threadSet ∧ Free w a ∧
      ∀ t, threads a = some t → t.running = false)
    (hentered : ∀ a, pos = .entered a → ∀ t, threads a = some t → t.curTask = some k)
    (hcreated : ∀ a, pos = .created a → a ∈ threadSet) :
    Kept { w with calls := Function.update w.calls k pos, threads, threadSet } := by
  have hreach : reach { w with calls := Function.update w.calls k pos, threads, threadSet } =
      threadSet := reach_idle hwait
  have hold : ∀ j, j ≠ k → Function.update w.calls k pos j = w.calls j :=
    fun j hj => Function.update_of_ne hj _ _
  have hover : ∀ j, (w.calls j).underWay → j = k := fun j hj => by
    by_contra hjk
    exact hothers j hjk hj
  have hunder : ∀ j, (Function.update w.calls k pos j).underWay → j = k := fun j hj =>
    (eq_of_underWay hothers hj rfl).1
  refine ⟨h.running, fun j hj => ?_, h.afterFailed,
    fun i j hi hj => (hunder i hi).trans (hunder j hj).symm,
    fun hw => absurd hwait hw, by rwa [hreach], by rwa [hreach], fun j hj => ?_, h.alone, h.ids,
    fun a ha hfree t ht => ?_, fun j => ?_, fun j hj => ?_, fun j rest hj => ?_, fun j a hj => ?_,
    fun j a hj => ?_, fun j a hj => ?_, h.detached, h.named, h.spent, fun a id rest hw => ?_, h.ran,
    h.deleted⟩
  · have hjk : j ≠ k := fun hjk => hgoing (hjk ▸ (h.refused j hj).1)
    dsimp only
    rw [hold j hjk]
    exact h.refused j hj
  · obtain ⟨t, ht⟩ := h.routine j hj
    obtain ⟨t', hthread, htask, hid, hbusy⟩ := hroutine j t hj ht
    refine ⟨t', hthread, ?_, ht.id, ?_, hbusy⟩
    · rw [hreach]
      exact hset _ (reach_idle hwait ▸ ht.reach)
    · exact ht.finds.congr htask hid
  · refine (hunused a (hreach ▸ ha) hfree t ht).imp_right fun ⟨hrun, hfailed, hnot⟩ =>
      ⟨hrun, hfailed, fun j hj => ?_, by simp [awaited, hwait]⟩
    exact hnot (eq_of_underWay hothers (by simp [SyncAt.underWay]) hj).2
  · by_cases hjk : j = k
    · subst hjk
      dsimp only
      rw [Function.update_self, hearly]
      exact h.begun j
    · dsimp only
      rw [hold j hjk]
      exact h.begun j
  · have hjk : j ≠ k := fun hjk => hgoing (hjk ▸ h.failed j hj)
    dsimp only
    rw [hold j hjk]
    exact h.failed j hj
  · exact hscanning rest (eq_of_underWay hothers (by simp [SyncAt.underWay]) hj).2
  · rcases hj with hj | hj
    · exact hchosen a (.inl (eq_of_underWay hothers (by simp [SyncAt.underWay]) hj).2)
    · exact hchosen a (.inr (eq_of_underWay hothers (by simp [SyncAt.underWay]) hj).2)
  · obtain ⟨rfl, hpos⟩ := eq_of_underWay hothers (by simp [SyncAt.underWay]) hj
    exact hentered a hpos
  · exact hcreated a (eq_of_underWay hothers (by simp [SyncAt.underWay]) hj).2
  · dsimp only at hw
    rw [hwait] at hw
    cases hw

/-- The step leaves every `Thread` as it is. -/
theorem Kept.scans (h : Kept w) (hwait : w.wait = .idle)
    (hothers : ∀ j, j ≠ k → ¬ (w.calls j).underWay) {pos : SyncAt}
    (hnot : ∀ a, w.calls k ≠ .created a) (hearly : pos.early = (w.calls k).early)
    (hgoing : w.calls k ≠ .returned)
    (hscanning : ∀ rest, pos = .scanning rest → ∀ a ∈ rest, a ∈ w.threadSet)
    (hchosen : ∀ a, pos = .chosen a → a ∈ w.threadSet ∧ Free w a ∧
      ∀ t, w.threads a = some t → t.running = false)
    (hpos : ∀ a, pos ≠ .entered a ∧ pos ≠ .created a) : Kept (w.callGoes k pos) := by
  have hreach := reach_idle hwait
  refine h.syncGoes w.threads hwait hothers (hreach ▸ h.nodup) (fun _ ha => ha) (hreach ▸ h.present)
    (fun j t hj ht => ⟨t, ht.thread, rfl, rfl, ?_⟩)
    (fun a ha hfree t ht => (h.unused a (hreach ▸ ha) hfree t ht).imp_right fun hs =>
      ⟨hs.running, hs.failed, (hpos a).2⟩) hearly hgoing hscanning
    (fun a ha => ha.elim (hchosen a) fun ha => absurd ha (hpos a).1)
    (fun a ha => absurd ha (hpos a).1) fun a ha => absurd ha (hpos a).2
  rcases ht.busy with hrun | hcreated
  · exact .inl hrun
  · refine .inr ?_
    have hjk : j ≠ k := fun hjk => hnot _ (hjk ▸ hcreated)
    rw [Function.update_of_ne hjk, hcreated]

theorem Kept.free_of_idle (h : Kept w) (hothers : ∀ j, j ≠ k → ¬ (w.calls j).underWay)
    (hnot : ∀ a, w.calls k ≠ .created a) (ht : w.threads a = some t) (hrun : t.running = false) :
    Free w a := by
  intro j hj hja
  obtain ⟨t', ht'⟩ := h.routine j hj
  have heq := ht'.thread
  rw [hja, ht, Option.some.injEq] at heq
  rcases ht'.busy with hbusy | hcreated
  · rw [← heq, hrun] at hbusy
    cases hbusy
  · by_cases hjk : j = k
    · exact hnot _ (hjk ▸ hcreated)
    · exact hothers j hjk (by rw [hcreated]; simp [SyncAt.underWay])

/-- `GetFreeThread` makes a new `Thread`. -/
theorem Kept.newThread (h : Kept w) (hwait : w.wait = .idle)
    (hothers : ∀ j, j ≠ k → ¬ (w.calls j).underWay) (hcall : w.calls k = .scanning [])
    (hnew : w.threads a = none) :
    Kept { (w.put a {}).callGoes k (.chosen a) with
      threadSet := w.threadSet.orderedInsert (· ≤ ·) a } := by
  have hreach := reach_idle hwait
  have hnot : a ∉ w.threadSet := fun ha => h.present a (hreach ▸ ha) hnew
  have hother : ∀ a', a' ∈ w.threadSet →
      Function.update w.threads a (some {}) a' = w.threads a' := fun a' ha' =>
    Function.update_of_ne (fun haa => hnot (by rwa [← haa])) _ _
  have hmem : ∀ a', a' ∈ w.threadSet.orderedInsert (· ≤ ·) a ↔ a' = a ∨ a' ∈ w.threadSet :=
    fun a' => List.mem_orderedInsert _
  have hfree : Free w a := fun j hj hja => by
    obtain ⟨t, ht⟩ := h.routine j hj
    have hthread := ht.thread
    rw [hja, hnew] at hthread
    cases hthread
  refine h.syncGoes (Function.update w.threads a (some {})) hwait hothers ?_
    (fun a' ha' => (hmem a').2 (.inr ha')) (fun a' ha' => ?_)
    (fun j t hj ht => ?_) (fun a' ha' hfree' t ht => ?_) (by rw [hcall]; rfl)
    (by simp [hcall]) (fun rest hrest => by cases hrest)
    (fun a' ha' => ?_) (fun a' ha' => by cases ha') fun a' ha' => by cases ha'
  · rw [(List.perm_orderedInsert _ _ _).nodup_iff]
    exact List.nodup_cons.2 ⟨hnot, hreach ▸ h.nodup⟩
  · rcases (hmem a').1 ha' with rfl | ha'
    · rw [Function.update_self]
      simp
    · rw [hother a' ha']
      exact h.present a' (hreach ▸ ha')
  · refine ⟨t, ?_, rfl, rfl, ?_⟩
    · rw [hother _ (hreach ▸ ht.reach), ht.thread]
    · rcases ht.busy with hrun | hcreated
      · exact .inl hrun
      · have hjk : j ≠ k := fun hjk => by
          rw [hjk, hcall] at hcreated
          cases hcreated
        exact .inr (by rw [Function.update_of_ne hjk, hcreated])
  · rcases (hmem a').1 ha' with rfl | ha'
    · rw [Function.update_self, Option.some.injEq] at ht
      exact .inl (by rw [← ht])
    · rw [hother a' ha'] at ht
      exact (h.unused a' (hreach ▸ ha') hfree' t ht).imp_right fun hs =>
        ⟨hs.running, hs.failed, nofun⟩
  · rcases ha' with ha' | ha'
    · rw [← SyncAt.chosen.inj ha']
      refine ⟨(hmem a).2 (.inl rfl), hfree, fun t ht => ?_⟩
      rw [Function.update_self, Option.some.injEq] at ht
      rw [← ht]
    · cases ha'

theorem not_failed (h : Kept w) (hcall : w.calls k ≠ .returned) : k ∉ w.failed :=
  fun hk => hcall (h.failed k hk)

theorem not_refused (h : Kept w) (hcall : w.calls k ≠ .returned) : k ∉ w.refused :=
  fun hk => hcall (h.refused k hk).1

/-- `Run` takes the task: the last thread that ran here has cleared `thread_id_`. -/
theorem Kept.enter (h : Kept w) (hwait : w.wait = .idle)
    (hothers : ∀ j, j ≠ k → ¬ (w.calls j).underWay) (hcall : w.calls k = .chosen a)
    (ht : w.threads a = some t) (hid : t.threadId = 0) :
    Kept ((w.put a { t with curTask := some k }).callGoes k (.entered a)) := by
  have hreach := reach_idle hwait
  obtain ⟨ha, hfree, hidle⟩ := h.chosen k a (.inl hcall)
  refine h.syncGoes (Function.update w.threads a (some { t with curTask := some k }))
    hwait hothers (hreach ▸ h.nodup) (fun _ ha => ha) (fun a' ha' => ?_) (fun j t' hj ht' => ?_)
    (fun a' ha' hfree' t' ht' => ?_) (by rw [hcall]; rfl) (by simp [hcall])
    (fun rest hrest => by cases hrest) (fun a' ha' => ?_) (fun a' ha' t' ht' => ?_)
    fun a' ha' => by cases ha'
  · by_cases haa : a' = a
    · rw [haa, Function.update_self]
      simp
    · rw [Function.update_of_ne haa]
      exact h.present a' (hreach ▸ ha')
  · refine ⟨t', ?_, rfl, rfl, ?_⟩
    · rw [Function.update_of_ne (hfree j hj), ht'.thread]
    · rcases ht'.busy with hrun | hcreated
      · exact .inl hrun
      · have hjk : j ≠ k := fun hjk => by
          rw [hjk, hcall] at hcreated
          cases hcreated
        exact .inr (by rw [Function.update_of_ne hjk, hcreated])
  · by_cases haa : a' = a
    · rw [haa, Function.update_self, Option.some.injEq] at ht'
      exact .inl (by rw [← ht']; exact hid)
    · rw [Function.update_of_ne haa] at ht'
      exact (h.unused a' (hreach ▸ ha') hfree' t' ht').imp_right fun hs =>
        ⟨hs.running, hs.failed, nofun⟩
  · rcases ha' with ha' | ha'
    · cases ha'
    · rw [← SyncAt.entered.inj ha']
      refine ⟨ha, hfree, fun t' ht' => ?_⟩
      rw [Function.update_self, Option.some.injEq] at ht'
      rw [← ht']
      exact hidle t ht
  · rw [← SyncAt.entered.inj ha', Function.update_self, Option.some.injEq] at ht'
    rw [← ht']

/-- `Run` returns. -/
theorem Kept.leave (h : Kept w) (hwait : w.wait = .idle)
    (hothers : ∀ j, j ≠ k → ¬ (w.calls j).underWay) (hcall : w.calls k = .created a)
    (ht : w.threads a = some t) :
    Kept ((w.put a { t with running := true }).callGoes k .returned) := by
  have hreach := reach_idle hwait
  refine h.syncGoes (Function.update w.threads a (some { t with running := true }))
    hwait hothers (hreach ▸ h.nodup) (fun _ ha => ha) (fun a' ha' => ?_) (fun j t' hj ht' => ?_)
    (fun a' ha' hfree' t' ht' => ?_) (by rw [hcall]; rfl) (by simp [hcall])
    (fun rest hrest => by cases hrest) (fun a' ha' => by rcases ha' with ha' | ha' <;> cases ha')
    (fun a' ha' => by cases ha') fun a' ha' => by cases ha'
  · by_cases haa : a' = a
    · rw [haa, Function.update_self]
      simp
    · rw [Function.update_of_ne haa]
      exact h.present a' (hreach ▸ ha')
  · by_cases haa : (w.routines j).thread = a
    · have heq := ht'.thread
      rw [haa, ht, Option.some.injEq] at heq
      refine ⟨{ t with running := true }, by rw [haa, Function.update_self], ?_, ?_, .inl rfl⟩
      · rw [heq]
      · rw [heq]
    · refine ⟨t', ?_, rfl, rfl, ?_⟩
      · rw [Function.update_of_ne haa, ht'.thread]
      · rcases ht'.busy with hrun | hcreated
        · exact .inl hrun
        · have hjk : j ≠ k := fun hjk => by
            rw [hjk, hcall] at hcreated
            exact haa (hjk ▸ (SyncAt.created.inj hcreated).symm)
          exact .inr (by rw [Function.update_of_ne hjk, hcreated])
  · by_cases haa : a' = a
    · rw [haa, Function.update_self, Option.some.injEq] at ht'
      rw [← ht']
      have hunused := h.unused a (hreach ▸ h.created k a hcall) (haa ▸ hfree') t ht
      exact .inl (hunused.resolve_right fun hs => hs.created k hcall)
    · rw [Function.update_of_ne haa] at ht'
      exact (h.unused a' (hreach ▸ ha') hfree' t' ht').imp_right fun hs =>
        ⟨hs.running, hs.failed, nofun⟩

/-- `pthread_create` starts a thread. -/
theorem Kept.create (h : Kept w) (hwait : w.wait = .idle)
    (hothers : ∀ j, j ≠ k → ¬ (w.calls j).underWay) (hcall : w.calls k = .entered a)
    (ht : w.threads a = some t) {id : ThreadID} (hid : id ≠ 0)
    (hnew : ∀ j, (w.routines j).live → (w.routines j).id ≠ id) :
    Kept { (w.put a { t with threadId := id }).callGoes k (.created a) with
      routines := Function.update w.routines k { pos := .testTask, thread := a, id } } := by
  have hreach := reach_idle hwait
  obtain ⟨ha, hfree, -⟩ := h.chosen k a (.inr hcall)
  have htask := h.entered k a hcall t ht
  have hgoing : w.calls k ≠ .returned := by simp [hcall]
  have hfailed := not_failed h hgoing
  have hrefused := not_refused h hgoing
  have hdead : (w.routines k).pos = .notStarted := (h.begun k).2 (.inl (by rw [hcall]; rfl))
  have hself : ∀ c : Routine n, Function.update w.routines k c k = c :=
    fun c => Function.update_self _ _ _
  have hold : ∀ (c : Routine n) j, j ≠ k → Function.update w.routines k c j = w.routines j :=
    fun c j hj => Function.update_of_ne hj _ _
  have hcalls : ∀ j, (Function.update w.calls k (.created a) j).underWay → j = k := fun j hj =>
    (eq_of_underWay hothers hj rfl).1
  have hcase : ∀ j c, c.underWay → Function.update w.calls k (.created a) j = c →
      c = .created a := fun j c hc hj => (eq_of_underWay hothers hc hj).2.symm
  refine ⟨h.running, fun j hj => ?_, h.afterFailed,
    fun i j hi hj => (hcalls i hi).trans (hcalls j hj).symm,
    fun hw => absurd hwait hw, h.nodup, fun a' ha' => ?_, fun j hj => ?_, fun i j hi hj hij => ?_,
    fun i j hi hj hij => ?_, fun a' ha' hfree' t' ht' => ?_, fun j => ?_, fun j hj => ?_,
    fun j rest hj => ?_, fun j a' hj => ?_, fun j a' hj => ?_, fun j a' hj => ?_,
    fun j hj hjoin => ?_, fun j hj => ?_, fun j hj => ?_, fun a' id' rest hw => ?_,
    ⟨h.ran.1, fun j => ?_⟩, ⟨h.deleted.1, fun j => ?_⟩⟩
  · have hjk : j ≠ k := fun hjk => hrefused (hjk ▸ hj)
    show Function.update w.calls k _ j = _ ∧ _
    rw [Function.update_of_ne hjk]
    exact h.refused j hj
  · show Function.update w.threads a _ a' ≠ none
    by_cases haa : a' = a
    · rw [haa, Function.update_self]
      simp
    · rw [Function.update_of_ne haa]
      exact h.present a' ha'
  · by_cases hjk : j = k
    · subst hjk
      refine ⟨{ t with threadId := id }, ?_, ?_, ?_, ?_, ?_⟩
      · show Function.update w.threads a _ (Function.update w.routines j _ j).thread = _
        rw [hself, Function.update_self]
      · show (Function.update w.routines j _ j).thread ∈ w.reach
        rw [hself, hreach]
        exact ha
      · show (Function.update w.routines j _ j).id ≠ 0
        rw [hself]
        exact hid
      · show (Function.update w.routines j _ j).pos.Finds j (Function.update w.routines j _ j).id _
        rw [hself]
        exact ⟨htask, rfl⟩
      · show _ ∨ Function.update w.calls j _ j = .created (Function.update w.routines j _ j).thread
        rw [hself, Function.update_self]
        exact .inr rfl
    · dsimp only at hj
      rw [hold _ j hjk] at hj
      obtain ⟨t', ht'⟩ := h.routine j hj
      refine ⟨t', ?_, ?_, ?_, ?_, ?_⟩
      · show Function.update w.threads a _ (Function.update w.routines k _ j).thread = _
        rw [hold _ j hjk, Function.update_of_ne (hfree j hj), ht'.thread]
      · show (Function.update w.routines k _ j).thread ∈ w.reach
        rw [hold _ j hjk]
        exact ht'.reach
      · show (Function.update w.routines k _ j).id ≠ 0
        rw [hold _ j hjk]
        exact ht'.id
      · show (Function.update w.routines k _ j).pos.Finds j (Function.update w.routines k _ j).id _
        rw [hold _ j hjk]
        exact ht'.finds
      · show _ ∨ Function.update w.calls k _ j = .created (Function.update w.routines k _ j).thread
        rw [hold _ j hjk, Function.update_of_ne hjk]
        exact ht'.busy
  · by_cases hik : i = k <;> by_cases hjk : j = k
    · rw [hik, hjk]
    · dsimp only at hj hij
      rw [hik, hself, hold _ j hjk] at hij
      rw [hold _ j hjk] at hj
      exact absurd hij.symm (hfree j hj)
    · dsimp only at hi hij
      rw [hjk, hself, hold _ i hik] at hij
      rw [hold _ i hik] at hi
      exact absurd hij (hfree i hi)
    · dsimp only at hi hj hij
      rw [hold _ i hik] at hi hij
      rw [hold _ j hjk] at hj hij
      exact h.alone i j hi hj hij
  · by_cases hik : i = k <;> by_cases hjk : j = k
    · rw [hik, hjk]
    · dsimp only at hj hij
      rw [hik, hself, hold _ j hjk] at hij
      rw [hold _ j hjk] at hj
      exact absurd hij.symm (hnew j hj)
    · dsimp only at hi hij
      rw [hjk, hself, hold _ i hik] at hij
      rw [hold _ i hik] at hi
      exact absurd hij (hnew i hi)
    · dsimp only at hi hj hij
      rw [hold _ i hik] at hi hij
      rw [hold _ j hjk] at hj hij
      exact h.ids i j hi hj hij
  · by_cases haa : a' = a
    · refine absurd ?_ (hfree' k ?_)
      · dsimp only
        rw [hself, haa]
      · dsimp only
        rw [hself]
        exact ⟨by simp, by simp⟩
    · have ht'' : Function.update w.threads a (some { t with threadId := id }) a' = some t' := ht'
      rw [Function.update_of_ne haa] at ht''
      have hfree'' : Free w a' := fun j hj hja => by
        have hjk : j ≠ k := fun hjk => hj.1 (hjk ▸ hdead)
        refine hfree' j ?_ ?_
        · dsimp only
          rwa [hold _ j hjk]
        · dsimp only
          rwa [hold _ j hjk]
      refine (h.unused a' ha' hfree'' t' ht'').imp_right fun hs =>
        ⟨hs.running, hs.failed, fun j hj => ?_, hs.awaited⟩
      exact haa (SyncAt.created.inj (hcase j _ (by simp [SyncAt.underWay]) hj))
  · show (Function.update w.routines k _ j).pos = .notStarted ↔
      (Function.update w.calls k _ j).early = true ∨ j ∈ w.failed ∨ j ∈ w.refused
    by_cases hjk : j = k
    · subst hjk
      rw [hself, Function.update_self]
      simp [SyncAt.early, hfailed, hrefused]
    · rw [hold _ j hjk, Function.update_of_ne hjk]
      exact h.begun j
  · have hjk : j ≠ k := fun hjk => hfailed (hjk ▸ hj)
    show Function.update w.calls k _ j = _
    rw [Function.update_of_ne hjk]
    exact h.failed j hj
  · cases hcase j _ (by simp [SyncAt.underWay]) hj
  · rcases hj with hj | hj
    · cases hcase j _ (by simp [SyncAt.underWay]) hj
    · cases hcase j _ (by simp [SyncAt.underWay]) hj
  · cases hcase j _ (by simp [SyncAt.underWay]) hj
  · obtain rfl := SyncAt.created.inj (hcase j _ (by simp [SyncAt.underWay]) hj)
    exact ha
  · dsimp only at hj hjoin ⊢
    by_cases hjk : j = k
    · rw [hjk, hself] at hjoin
      cases hjoin
    · rw [hold _ j hjk] at hj hjoin ⊢
      exact h.detached j hj hjoin
  · dsimp only at hj ⊢
    by_cases hjk : j = k
    · rw [hjk, hself]
      exact hid
    · rw [hold _ j hjk] at hj ⊢
      exact h.named j hj
  · dsimp only at hj ⊢
    by_cases hjk : j = k
    · rw [hjk, hself] at hj
      cases hj
    · rw [hold _ j hjk] at hj ⊢
      exact h.spent j hj
  · have hw : w.wait = .joining a' id' rest := hw
    rw [hwait] at hw
    cases hw
  · show j ∈ w.ran ↔ (Function.update w.routines k _ j).pos.hasRun = true
    rw [h.ran.2 j]
    dsimp only
    by_cases hjk : j = k
    · rw [hjk, hself, hdead]
      simp [RoutineAt.hasRun]
    · rw [hold _ j hjk]
  · show j ∈ w.deleted ↔ ((Function.update w.routines k _ j).pos.hasDeleted || _) = true
    rw [h.deleted.2 j]
    dsimp only
    by_cases hjk : j = k
    · rw [hjk, hself, hdead]
      exact Iff.rfl
    · rw [hold _ j hjk]
      rfl

/-- The one call under way returns, and no thread was started for it: it has failed, or was
refused. -/
theorem Kept.gives (h : Kept w) (threads : Addr → Option (Thread n)) (hwait : w.wait = .idle)
    (hothers : ∀ j, j ≠ k → ¬ (w.calls j).underWay) (hearly : (w.calls k).early = true)
    {failed refused deleted : List (Fin n)} (hpresent : ∀ a ∈ w.threadSet, threads a ≠ none)
    (hroutine : ∀ j t, (w.routines j).live → OnThread w j t →
      threads (w.routines j).thread = some t)
    (hunused : ∀ a ∈ w.threadSet, Free w a → ∀ t, threads a = some t → t.threadId = 0 ∨
      t.running = false ∧ failed ≠ [])
    (hafter : refused ≠ [] → failed ≠ [])
    (hgiven : ∀ j, j ∈ failed ∨ j ∈ refused ↔ (j ∈ w.failed ∨ j ∈ w.refused) ∨ j = k)
    (hapart : ∀ j ∈ refused, j ∉ failed)
    (hdeleted : Logged deleted fun j => (w.routines j).pos.hasDeleted || decide (j ∈ failed)) :
    Kept { w with
      threads, failed, refused, deleted
      calls := Function.update w.calls k .returned } := by
  have hreach : reach { w with
      threads, failed, refused, deleted
      calls := Function.update w.calls k .returned } = w.threadSet := reach_idle hwait
  have hdead : (w.routines k).pos = .notStarted := (h.begun k).2 (.inl hearly)
  have hnone : ∀ j, ¬ (Function.update w.calls k .returned j).underWay := fun j hj =>
    hj.2 (eq_of_underWay hothers hj rfl).2.symm
  have hcase : ∀ j c, c.underWay → Function.update w.calls k .returned j ≠ c :=
    fun j c hc hj => hnone j (hj ▸ hc)
  have hreturned : ∀ j, j ∈ failed ∨ j ∈ refused →
      Function.update w.calls k .returned j = .returned := fun j hj => by
    by_cases hjk : j = k
    · rw [hjk, Function.update_self]
    · rw [Function.update_of_ne hjk]
      rcases ((hgiven j).1 hj).resolve_right hjk with hj | hj
      · exact h.failed j hj
      · exact (h.refused j hj).1
  refine ⟨h.running, fun j hj => ⟨hreturned j (.inr hj), hapart j hj⟩, hafter,
    fun i j hi _ => absurd hi (hnone i), fun hw => absurd hwait hw,
    hreach.symm ▸ reach_idle hwait ▸ h.nodup, fun a ha => hpresent a (hreach ▸ ha), fun j hj => ?_,
    h.alone, h.ids, fun a ha hfree t ht => ?_, fun j => ?_, fun j hj => hreturned j (.inl hj),
    fun j rest hj => ?_, fun j a hj => ?_, fun j a hj => ?_, fun j a hj => ?_, h.detached, h.named,
    h.spent, fun a id rest hw => ?_, h.ran, hdeleted⟩
  · obtain ⟨t, ht⟩ := h.routine j hj
    refine ⟨t, hroutine j t hj ht, ?_, ht.id, ht.finds, ?_⟩
    · rw [hreach, ← reach_idle hwait]
      exact ht.reach
    · have hjk : j ≠ k := fun hjk => hj.1 (hjk ▸ hdead)
      dsimp only
      rw [Function.update_of_ne hjk]
      exact ht.busy
  · exact (hunused a (hreach ▸ ha) hfree t ht).imp_right fun ⟨hrun, hfailed⟩ =>
      ⟨hrun, hfailed, fun j => hcase j _ (by simp [SyncAt.underWay]), by simp [awaited, hwait]⟩
  · dsimp only
    rw [hgiven]
    by_cases hjk : j = k
    · rw [hjk]
      simp [hdead]
    · rw [Function.update_of_ne hjk, h.begun j]
      simp [hjk]
  · exact absurd hj (hcase j _ (by simp [SyncAt.underWay]))
  · rcases hj with hj | hj
    · exact absurd hj (hcase j _ (by simp [SyncAt.underWay]))
    · exact absurd hj (hcase j _ (by simp [SyncAt.underWay]))
  · exact absurd hj (hcase j _ (by simp [SyncAt.underWay]))
  · exact absurd hj (hcase j _ (by simp [SyncAt.underWay]))
  · dsimp only at hw
    rw [hwait] at hw
    cases hw

/-- `pthread_create` fails, and `Run` deletes the task. -/
theorem Kept.fail (h : Kept w) (hwait : w.wait = .idle)
    (hothers : ∀ j, j ≠ k → ¬ (w.calls j).underWay) (hcall : w.calls k = .entered a)
    (ht : w.threads a = some t) {contents : ThreadID} :
    Kept { (w.put a { t with threadId := contents, curTask := none }).callGoes k .returned with
      failed := w.failed ++ [k]
      deleted := w.deleted ++ [k] } := by
  have hreach := reach_idle hwait
  obtain ⟨ha, hfree, hidle⟩ := h.chosen k a (.inr hcall)
  have hgoing : w.calls k ≠ .returned := by simp [hcall]
  have hearly : (w.calls k).early = true := by rw [hcall]; rfl
  have hmem : ∀ j, j ∈ w.failed ++ [k] ↔ j ∈ w.failed ∨ j = k := fun j => by simp
  refine h.gives
    (Function.update w.threads a (some { t with threadId := contents, curTask := none }))
    hwait hothers hearly (fun a' ha' => ?_) (fun j t' hj ht' => ?_)
    (fun a' ha' hfree' t' ht' => ?_) (fun _ => by simp) (fun j => by rw [hmem]; tauto)
    (fun j hj hj' => ?_) ?_
  · by_cases haa : a' = a
    · rw [haa, Function.update_self]
      simp
    · rw [Function.update_of_ne haa]
      exact h.present a' (hreach ▸ ha')
  · rw [Function.update_of_ne (hfree j hj), ht'.thread]
  · by_cases haa : a' = a
    · rw [haa, Function.update_self, Option.some.injEq] at ht'
      exact .inr ⟨by rw [← ht']; exact hidle t ht, by simp⟩
    · rw [Function.update_of_ne haa] at ht'
      exact (h.unused a' (hreach ▸ ha') hfree' t' ht').imp_right fun hs =>
        ⟨hs.running, by simp⟩
  · rcases (hmem j).1 hj' with hj' | rfl
    · exact (h.refused j hj).2 hj'
    · exact not_refused h hgoing hj
  · have hnew := h.deleted.append (k := k)
      (Q := fun j => (w.routines j).pos.hasDeleted || decide (j ∈ w.failed ++ [k]))
      (fun j hj => by simp [hj]) fun _ => by simp
    have hone : RoutineAt.news k ((w.routines k).pos.hasDeleted || decide (k ∈ w.failed))
        ((w.routines k).pos.hasDeleted || decide (k ∈ w.failed ++ [k])) = [k] := by
      simp [RoutineAt.news, (h.begun k).2 (.inl hearly), not_failed h hgoing, RoutineAt.hasDeleted]
    rwa [hone] at hnew

/-- `Run` finds what a failed `pthread_create` left, and does not take the task. -/
theorem Kept.refuse (h : Kept w) (hwait : w.wait = .idle)
    (hothers : ∀ j, j ≠ k → ¬ (w.calls j).underWay) (hcall : w.calls k = .chosen a)
    (ht : w.threads a = some t) (hid : t.threadId ≠ 0) :
    Kept { w.callGoes k .returned with refused := w.refused ++ [k] } := by
  have hreach := reach_idle hwait
  obtain ⟨ha, hfree, -⟩ := h.chosen k a (.inl hcall)
  have hstale := (h.unused a (hreach ▸ ha) hfree t ht).resolve_left hid
  have hgoing : w.calls k ≠ .returned := by simp [hcall]
  have hmem : ∀ j, j ∈ w.refused ++ [k] ↔ j ∈ w.refused ∨ j = k := fun j => by simp
  refine h.gives w.threads hwait hothers (by rw [hcall]; rfl) (hreach ▸ h.present)
    (fun _ _ _ ht' => ht'.thread) (fun a' ha' hfree' t' ht' => ?_) (fun _ => hstale.failed)
    (fun j => by rw [hmem]; tauto) (fun j hj hj' => ?_) h.deleted
  · exact (h.unused a' (hreach ▸ ha') hfree' t' ht').imp_right fun hs => ⟨hs.running, hs.failed⟩
  · rcases (hmem j).1 hj with hj | rfl
    · exact (h.refused j hj).2 hj'
    · exact not_failed h hgoing hj'

theorem Kept.sync (h : Kept w) {new : Addr} {create : PthreadCreate}
    (hcan : w.Can (.sync k new create)) : Kept (w.sync k new create) := by
  obtain ⟨hwait, hothers, hnew, hid, hids⟩ := hcan
  have hreach := reach_idle hwait
  unfold Threads.sync
  split
  case h_1 hcall =>
    exact h.scans hwait hothers (by simp [hcall]) (by rw [hcall]; rfl)
      (by simp [hcall]) (fun rest hrest a ha => SyncAt.scanning.inj hrest ▸ ha)
      (fun a ha => by cases ha) fun a => ⟨nofun, nofun⟩
  case h_2 a rest hcall =>
    have hmem := h.scanning k _ hcall
    have hgoing : w.calls k ≠ .returned := by simp [hcall]
    rcases ht : w.threads a with _ | t
    · exact absurd ht (h.present a (hreach ▸ hmem a List.mem_cons_self))
    dsimp only
    rcases hrun : t.running with _ | _
    · have hfree := h.free_of_idle hothers (by simp [hcall]) ht hrun
      refine h.scans hwait hothers (by simp [hcall]) (by rw [hcall]; rfl) hgoing (by simp)
        (fun a' ha' => ?_) fun a' => ⟨by simp, by simp⟩
      obtain rfl := SyncAt.chosen.inj ha'
      refine ⟨hmem a List.mem_cons_self, hfree, fun t' ht' => ?_⟩
      rwa [← Option.some.inj (ht.symm.trans ht')]
    · exact h.scans hwait hothers (by simp [hcall]) (by rw [hcall]; rfl) hgoing
        (fun rest' hrest a' ha' => by
          rw [if_pos rfl] at hrest
          exact hmem a' (List.mem_cons_of_mem _ (SyncAt.scanning.inj hrest ▸ ha')))
        (fun a' ha' => by simp at ha') fun a' => ⟨by simp, by simp⟩
  case h_3 hcall => exact h.newThread hwait hothers hcall hnew
  case h_4 a hcall =>
    rcases ht : w.threads a with _ | t
    · exact absurd ht (h.present a (hreach ▸ (h.chosen k a (.inl hcall)).1))
    dsimp only
    split_ifs with hzero
    · exact h.refuse hwait hothers hcall ht hzero
    · exact h.enter hwait hothers hcall ht (not_not.1 hzero)
  case h_5 a hcall =>
    rcases ht : w.threads a with _ | t
    · exact absurd ht (h.present a (hreach ▸ (h.chosen k a (.inr hcall)).1))
    cases create with
    | creates id =>
      exact h.create hwait hothers hcall ht (fun hzero => hid (by rw [hzero]))
        fun j hj hji => hids j (.inl hj) hj.1 (by rw [hji])
    | fails contents => exact h.fail hwait hothers hcall ht
  case h_6 a hcall =>
    rcases ht : w.threads a with _ | t
    · exact absurd ht (h.present a (hreach ▸ h.created k a hcall))
    · exact h.leave hwait hothers hcall ht
  case h_7 => exact h

end Sync

end Threads

end Elegance
