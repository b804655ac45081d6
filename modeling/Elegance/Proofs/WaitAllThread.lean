import Elegance.Proofs.GetFreeThread

/-!
# `WaitAllThread`

It deletes a `Thread` too early, or joins a thread that cannot be joined, exactly where it meets a
thread between `pthread_detach` and the last write of it (`threads_sound_iff`). Otherwise each task
is run once and deleted once (`tasks_once`).
-/

namespace Elegance

open Machine

variable {n : ℕ}

namespace Threads

variable {w : Threads n}

section Wait

variable {a : Addr} {t : Thread n} {rest : List Addr} {wait : WaitAt}

/-- `WaitAllThread` goes on and passes only `Thread` objects no thread runs on. -/
theorem Kept.waitGoes (h : Kept w) (hcalls : ∀ j, ¬ (w.calls j).underWay)
    (hsub : reach { w with wait } <:+ w.reach)
    (hlive : ∀ k t, OnThread w k t → (w.routines k).thread ∈ reach { w with wait })
    (hspent : ∀ a id rest, w.wait ≠ .joining a id rest)
    (hawaited : ∀ a t, w.threads a = some t → awaited { w with wait } = some a →
      w.awaited = some a ∨ t.running = true)
    (hjoined : ∀ a id rest, wait = .joining a id rest → ∃ k, (w.routines k).pos ≠ .notStarted ∧
      (w.routines k).thread = a ∧ (w.routines k).id = id ∧ (w.routines k).joinable = true ∧
        ∀ j, (w.routines j).live → (w.routines j).thread = a → j = k) :
    Kept { w with wait } := by
  refine ⟨h.running, h.refused, h.afterFailed, h.single, fun _ => hcalls,
    h.nodup.sublist hsub.sublist, fun a ha => h.present a (hsub.subset ha), fun k hk => ?_, h.alone,
    h.ids, fun a ha hfree t ht => ?_, h.begun, h.failed, h.scanning, h.chosen, h.entered,
    h.created, h.detached, h.named, fun k hk => ?_, hjoined, h.ran, h.deleted⟩
  · obtain ⟨t, ht⟩ := h.routine k hk
    exact ⟨t, ht.thread, hlive k t ht, ht.id, ht.finds, ht.busy⟩
  · refine (h.unused a (hsub.subset ha) hfree t ht).imp_right fun hs =>
      ⟨hs.running, hs.failed, hs.created, fun ha => ?_⟩
    rcases hawaited a t ht ha with ha | hrun
    · exact hs.awaited ha
    · rw [hs.running] at hrun
      cases hrun
  · rcases h.spent k hk with hjoin | ⟨a, rest, hw⟩
    · exact .inl hjoin
    · exact absurd hw (hspent a _ rest)

theorem Kept.waitStays (h : Kept w) (hcalls : ∀ j, ¬ (w.calls j).underWay)
    (heq : reach { w with wait } = w.reach) (hspent : ∀ a id rest, w.wait ≠ .joining a id rest)
    (hawaited : ∀ a t, w.threads a = some t → awaited { w with wait } = some a →
      w.awaited = some a ∨ t.running = true)
    (hnot : ∀ a id rest, wait ≠ .joining a id rest) : Kept { w with wait } :=
  h.waitGoes hcalls (heq ▸ List.suffix_refl _) (fun _ _ ht => heq ▸ ht.reach) hspent hawaited
    fun a id rest hw => absurd hw (hnot a id rest)

/-- A thread that has not detached itself is joined under its own id. -/
theorem Kept.join (h : Kept w) (hcalls : ∀ j, ¬ (w.calls j).underWay)
    (hwait : w.wait = .join a rest) (ht : w.threads a = some t) (hjoin : w.Joinable t.threadId) :
    Kept { w with wait := .joining a t.threadId rest } := by
  have hreach : w.reach = a :: rest := by rw [reach, hwait]
  have hspent : ∀ a id rest, w.wait ≠ .joining a id rest := fun a id rest hw => by
    rw [hwait] at hw
    cases hw
  obtain ⟨k, hstarted, hjoinable, hid⟩ := hjoin
  have hexit : ∀ j, (w.routines j).pos.hasDetached = true → (w.routines j).joinable = false :=
    fun j hj => by
      rcases h.spent j hj with hjoin | ⟨a, rest, hw⟩
      · exact hjoin
      · exact absurd hw (hspent a _ rest)
  have hlive : (w.routines k).live := by
    refine ⟨hstarted, fun hpos => ?_⟩
    have hfalse := hexit k (by rw [hpos]; rfl)
    rw [hjoinable] at hfalse
    cases hfalse
  have hthread : (w.routines k).thread = a := by
    by_contra hne
    have hfree : Free w a := fun j hj hja => by
      obtain ⟨t', ht'⟩ := h.routine j hj
      have heq := ht'.thread
      rw [hja, ht, Option.some.injEq] at heq
      subst heq
      have hfinds := ht'.finds
      have hnotlate : (w.routines j).pos ≠ .clearRunning := fun hpos => by
        rw [hpos] at hfinds
        exact h.named k hstarted (hid.trans hfinds)
      have hsame : t.threadId = (w.routines j).id := by
        cases hpos : (w.routines j).pos <;> rw [hpos] at hfinds
        case notStarted => exact absurd hpos hj.1
        case exited => exact absurd hpos hj.2
        case clearRunning => exact absurd hpos hnotlate
        all_goals first | exact hfinds.2 | exact hfinds
      exact hne (h.ids k j hlive hj (hid.trans hsame) ▸ hja)
    have hunused := h.unused a (hreach ▸ List.mem_cons_self) hfree t ht
    have hzero := hunused.resolve_right fun hs => hs.awaited (by rw [awaited, hwait])
    exact h.named k hstarted (hid.trans hzero)
  refine h.waitGoes hcalls (by rw [hreach]; exact List.suffix_refl _)
    (fun j t' ht' => by
      show (w.routines j).thread ∈ a :: rest
      rw [← hreach]
      exact ht'.reach) hspent (fun a' t' _ ha' => .inl (by rw [awaited, hwait]; exact ha'))
    fun a' id' rest' hw => ?_
  obtain ⟨rfl, rfl, rfl⟩ := WaitAt.joining.inj hw
  exact ⟨k, hstarted, hthread, hid, hjoinable, fun j hj hja =>
    h.alone j k hj hlive (hja.trans hthread.symm)⟩

/-- The join returns: the thread that ran here has exited. -/
theorem Kept.joins (h : Kept w) (hcalls : ∀ j, ¬ (w.calls j).underWay) {id : ThreadID}
    (hwait : w.wait = .joining a id rest)
    (hexited : ∀ j, (w.routines j).id = id → ¬ (w.routines j).live) :
    Kept { w.put a { t with threadId := 0 } with
      routines := w.release id
      wait := .delete a rest } := by
  have hreach : w.reach = a :: rest := by rw [reach, hwait]
  obtain ⟨k, hstarted, hthread, hid, hjoinable, honly⟩ := h.joined a id rest hwait
  have hfree : Free w a := fun j hj hja => hexited k hid (honly j hj hja ▸ hj)
  have hfields := release_fields w id
  have hlive : ∀ j, (w.release id j).live ↔ (w.routines j).live := fun j => by
    rw [Routine.live, Routine.live, (hfields j).1]
  have hupdate : ∀ a', a' ≠ a → ∀ t', Function.update w.threads a t' a' = w.threads a' :=
    fun a' ha' t' => Function.update_of_ne ha' _ _
  have hnodup : (a :: rest).Nodup := hreach ▸ h.nodup
  refine ⟨h.running, h.refused, h.afterFailed, h.single, fun _ => hcalls, hnodup,
    fun a' ha' => ?_, fun j hj => ?_, fun i j hi hj hij => ?_, fun i j hi hj hij => ?_,
    fun a' ha' hfree' t' ht' => ?_, fun j => ?_, h.failed, h.scanning, fun j a' hj => ?_,
    fun j a' hj => ?_, h.created, fun j hj hjoin => ?_, fun j hj => ?_, fun j hj => ?_,
    fun a' id' rest' hw => (by cases hw), ⟨h.ran.1, fun j => ?_⟩, ⟨h.deleted.1, fun j => ?_⟩⟩
  · show Function.update w.threads a _ a' ≠ none
    by_cases haa : a' = a
    · rw [haa, Function.update_self]
      simp
    · rw [hupdate a' haa]
      exact h.present a' (hreach ▸ ha')
  · have hj' := (hlive j).1 hj
    obtain ⟨t', ht'⟩ := h.routine j hj'
    refine ⟨t', ?_, ?_, ?_, ?_, ?_⟩
    · show Function.update w.threads a _ (w.release id j).thread = _
      rw [(hfields j).2.1, hupdate _ (hfree j hj'), ht'.thread]
    · show (w.release id j).thread ∈ a :: rest
      rw [(hfields j).2.1, ← hreach]
      exact ht'.reach
    · show (w.release id j).id ≠ 0
      rw [(hfields j).2.2.1]
      exact ht'.id
    · show (w.release id j).pos.Finds j (w.release id j).id _
      rw [(hfields j).1, (hfields j).2.2.1]
      exact ht'.finds
    · show _ ∨ w.calls j = .created (w.release id j).thread
      rw [(hfields j).2.1]
      exact ht'.busy
  · have hij : (w.release id i).thread = (w.release id j).thread := hij
    rw [(hfields i).2.1, (hfields j).2.1] at hij
    exact h.alone i j ((hlive i).1 hi) ((hlive j).1 hj) hij
  · have hij : (w.release id i).id = (w.release id j).id := hij
    rw [(hfields i).2.2.1, (hfields j).2.2.1] at hij
    exact h.ids i j ((hlive i).1 hi) ((hlive j).1 hj) hij
  · have ht'' : Function.update w.threads a (some { t with threadId := 0 }) a' = some t' := ht'
    by_cases haa : a' = a
    · rw [haa, Function.update_self, Option.some.injEq] at ht''
      exact .inl (by rw [← ht''])
    · rw [hupdate a' haa] at ht''
      have hfree'' : Free w a' := fun j hj hja =>
        hfree' j ((hlive j).2 hj) ((hfields j).2.1.trans hja)
      refine (h.unused a' (hreach ▸ ha') hfree'' t' ht'').imp_right fun hs =>
        ⟨hs.running, hs.failed, hs.created, fun ha => haa (Option.some.inj ha).symm⟩
  · show (w.release id j).pos = _ ↔ _
    rw [(hfields j).1]
    exact h.begun j
  · exact absurd (by rcases hj with hj | hj <;> rw [show w.calls j = _ from hj] <;>
      simp [SyncAt.underWay]) (hcalls j)
  · exact absurd (by rw [show w.calls j = _ from hj]; simp [SyncAt.underWay]) (hcalls j)
  · have hj : (w.release id j).pos ≠ .notStarted := hj
    show (w.release id j).pos.hasDetached = true
    rw [(hfields j).1] at hj ⊢
    rcases (hfields j).2.2.2.1 hjoin with hjoin' | hjid
    · exact h.detached j hj hjoin'
    · have hpos : (w.routines j).pos = .exited := by
        by_contra hne
        exact hexited j hjid ⟨hj, hne⟩
      rw [hpos]
      rfl
  · have hj : (w.release id j).pos ≠ .notStarted := hj
    show (w.release id j).id ≠ 0
    rw [(hfields j).1] at hj
    rw [(hfields j).2.2.1]
    exact h.named j hj
  · have hj : (w.release id j).pos.hasDetached = true := hj
    rw [(hfields j).1] at hj
    refine .inl ?_
    show (w.release id j).joinable = false
    unfold release
    split_ifs with hjid
    · rfl
    · rcases h.spent j hj with hjoin | ⟨a', rest', hw⟩
      · exact hjoin
      · rw [hwait] at hw
        exact absurd (WaitAt.joining.inj hw).2.1.symm hjid
  · show j ∈ w.ran ↔ (w.release id j).pos.hasRun = true
    rw [(hfields j).1]
    exact h.ran.2 j
  · show j ∈ w.deleted ↔ ((w.release id j).pos.hasDeleted || _) = true
    rw [(hfields j).1]
    exact h.deleted.2 j

/-- A `Thread` no thread runs on is deleted. -/
theorem Kept.delete (h : Kept w) (hcalls : ∀ j, ¬ (w.calls j).underWay)
    (hwait : w.wait = .delete a rest) (hfree : Free w a) :
    Kept { w with threads := Function.update w.threads a none, wait := .visiting rest } := by
  have hreach : w.reach = a :: rest := by rw [reach, hwait]
  have hnodup := List.nodup_cons.1 (hreach ▸ h.nodup)
  have hne : ∀ a' ∈ rest, a' ≠ a := fun a' ha' haa => hnodup.1 (haa ▸ ha')
  have hold : ∀ a' ∈ rest, Function.update w.threads a none a' = w.threads a' :=
    fun a' ha' => Function.update_of_ne (hne a' ha') _ _
  have hin : ∀ a' ∈ rest, a' ∈ w.reach := fun a' ha' => by
    rw [hreach]
    exact List.mem_cons_of_mem _ ha'
  refine ⟨h.running, h.refused, h.afterFailed, h.single, fun _ => hcalls, hnodup.2,
    fun a' ha' => ?_, fun j hj => ?_, h.alone, h.ids, fun a' ha' hfree' t' ht' => ?_, h.begun,
    h.failed, h.scanning, fun j a' hj => ?_, fun j a' hj => ?_, h.created, h.detached, h.named,
    fun j hj => ?_, fun a' id' rest' hw => (by cases hw), h.ran, h.deleted⟩
  · exact (hold a' ha').trans_ne (h.present a' (hin a' ha'))
  · obtain ⟨t', ht'⟩ := h.routine j hj
    have hmem : (w.routines j).thread ∈ rest := by
      have hmem := ht'.reach
      rw [hreach] at hmem
      exact (List.mem_cons.1 hmem).resolve_left (hfree j hj)
    exact ⟨t', (hold _ hmem).trans ht'.thread, hmem, ht'.id, ht'.finds, ht'.busy⟩
  · exact (h.unused a' (hin a' ha') hfree' t' ((hold a' ha').symm.trans ht')).imp_right fun hs =>
      ⟨hs.running, hs.failed, hs.created, by simp [awaited]⟩
  · exact absurd (by rcases hj with hj | hj <;> rw [show w.calls j = _ from hj] <;>
      simp [SyncAt.underWay]) (hcalls j)
  · exact absurd (by rw [show w.calls j = _ from hj]; simp [SyncAt.underWay]) (hcalls j)
  · rcases h.spent j hj with hjoin | ⟨a', rest', hw⟩
    · exact .inl hjoin
    · rw [hwait] at hw
      cases hw

/-- `WaitAllThread` returns. -/
theorem Kept.waited (h : Kept w) (hcalls : ∀ j, ¬ (w.calls j).underWay)
    (hwait : w.wait = .visiting []) : Kept { w with wait := .idle, threadSet := [] } := by
  have hreach : w.reach = [] := by rw [reach, hwait]
  have hdead : ∀ j, ¬ (w.routines j).live := fun j hj => by
    obtain ⟨t, ht⟩ := h.routine j hj
    have hmem := ht.reach
    rw [hreach] at hmem
    cases hmem
  have hidle : ∀ j c, c.underWay → w.calls j ≠ c := fun j c hc hj => hcalls j (hj ▸ hc)
  refine ⟨h.running, h.refused, h.afterFailed, h.single, fun hw => absurd rfl hw, .nil,
    fun a ha => (by cases ha), fun j hj => absurd hj (hdead j), h.alone, h.ids,
    fun a ha => (by cases ha), h.begun, h.failed,
    fun j rest hj => absurd hj (hidle j _ (by simp [SyncAt.underWay])), fun j a hj => ?_,
    h.entered, fun j a hj => absurd hj (hidle j _ (by simp [SyncAt.underWay])), h.detached, h.named,
    fun j hj => ?_, fun a id rest hw => (by cases hw), h.ran, h.deleted⟩
  · rcases hj with hj | hj
    · exact absurd hj (hidle j _ (by simp [SyncAt.underWay]))
    · exact absurd hj (hidle j _ (by simp [SyncAt.underWay]))
  · rcases h.spent j hj with hjoin | ⟨a, rest, hw⟩
    · exact .inl hjoin
    · rw [hwait] at hw
      cases hw

theorem Kept.waitAllThread (h : Kept w) (hcan : w.Can .waitAllThread)
    (hcareful : w.Careful .waitAllThread) : Kept w.waitAllThread := by
  have hcalls : ∀ j, ¬ (w.calls j).underWay := hcan.1
  have hnone : ∀ {a rest}, w.reach = a :: rest → w.threads a ≠ none := fun hreach =>
    h.present _ (hreach ▸ List.mem_cons_self)
  unfold Threads.waitAllThread
  split
  case h_1 hwait =>
    exact h.waitStays hcalls (by rw [reach_idle hwait, reach]) (by simp [hwait])
      (by simp [awaited]) (by simp)
  case h_2 hwait => exact h.waited hcalls hwait
  case h_3 a rest hwait =>
    have hreach : w.reach = a :: rest := by rw [reach, hwait]
    rcases ht : w.threads a with _ | t
    · exact absurd ht (hnone hreach)
    dsimp only
    rcases hrun : t.running with _ | _
    · refine h.waitGoes hcalls (by rw [hreach]; exact List.suffix_cons _ _) (fun k t' ht' => ?_)
        (by simp [hwait]) (by simp [awaited]) fun a' id' rest' hw => by simp at hw
      have hmem := ht'.reach
      rw [hreach] at hmem
      refine (List.mem_cons.1 hmem).resolve_left fun hka => ?_
      have heq := ht'.thread
      rw [hka, ht, Option.some.injEq] at heq
      rcases ht'.busy with hbusy | hcreated
      · rw [← heq, hrun] at hbusy
        cases hbusy
      · exact hcalls k (by rw [hcreated]; simp [SyncAt.underWay])
    · refine h.waitStays hcalls (by rw [hreach]; rfl) (by simp [hwait])
        (fun a' t' ht' ha' => .inr ?_) (by simp)
      obtain rfl : a = a' := Option.some.inj ha'
      rwa [← Option.some.inj (ht.symm.trans ht')]
  case h_4 a rest hwait =>
    have hreach : w.reach = a :: rest := by rw [reach, hwait]
    rcases ht : w.threads a with _ | t
    · exact absurd ht (hnone hreach)
    dsimp only
    have hsame : ∀ a' t', w.threads a' = some t' → some a = some a' →
        w.awaited = some a' ∨ t'.running = true :=
      fun a' t' _ ha' => .inl (by rw [awaited, hwait]; exact ha')
    split_ifs
    · exact h.waitStays hcalls (by rw [hreach]; rfl) (by simp [hwait]) hsame (by simp)
    · exact h.waitStays hcalls (by rw [hreach]; rfl) (by simp [hwait]) hsame (by simp)
  case h_5 a rest hwait =>
    rcases ht : w.threads a with _ | t
    · exact absurd ht (hnone (by rw [reach, hwait]))
    simp only [Careful, hwait] at hcareful
    have hjoin := hcareful t ht
    dsimp only
    rw [if_pos hjoin]
    exact h.join hcalls hwait ht hjoin
  case h_6 a id rest hwait =>
    rcases ht : w.threads a with _ | t
    · exact absurd ht (hnone (by rw [reach, hwait]))
    have hexited := hcan.2
    rw [hwait] at hexited
    exact h.joins hcalls hwait hexited
  case h_7 a rest hwait =>
    have hreach : w.reach = a :: rest := by rw [reach, hwait]
    rcases ht : w.threads a with _ | t
    · exact absurd ht (hnone hreach)
    simp only [Careful, hwait] at hcareful
    have hfree : Free w a := fun j hj hja => hcareful j hja hj
    have hunused := h.unused a (hreach ▸ List.mem_cons_self) hfree t ht
    have hzero := hunused.resolve_right fun hs => hs.awaited (by rw [awaited, hwait])
    dsimp only
    rw [if_pos hzero]
    exact h.delete hcalls hwait hfree

end Wait

theorem Kept.step (h : Kept w) {ev : ThreadsStep n} (hcan : w.Can ev) (hcareful : w.Careful ev) :
    Kept (w.step ev) := by
  cases ev with
  | sync k new id => exact h.sync hcan
  | work k => exact h.work k
  | waitAllThread => exact h.waitAllThread hcan hcareful

theorem Kept.sound (h : Kept w) : Sound w := by
  refine ⟨h.running, fun k hk => ?_⟩
  obtain ⟨t, ht⟩ := h.routine k hk
  rw [ht.thread]
  simp

/-- Where `WaitAllThread` meets a thread between `pthread_detach` and its last write, it joins what
cannot be joined, or deletes the `Thread` under it. -/
theorem not_sound_of_not_careful (h : Kept w) {ev : ThreadsStep n} (hcareful : ¬ w.Careful ev) :
    ¬ Sound (w.step ev) := by
  cases ev with
  | sync k new id => exact absurd trivial hcareful
  | work k => exact absurd trivial hcareful
  | waitAllThread =>
    rw [Threads.step]
    unfold Threads.waitAllThread
    split
    case h_5 a rest hwait =>
      simp only [Careful, hwait] at hcareful
      push Not at hcareful
      obtain ⟨t, ht, hjoin⟩ := hcareful
      simp only [ht, if_neg hjoin]
      exact fun hs => by cases hs.1
    case h_7 a rest hwait =>
      simp only [Careful, hwait] at hcareful
      push Not at hcareful
      obtain ⟨k, hthread, hlive⟩ := hcareful
      rcases ht : w.threads a with _ | t
      · exact absurd ht (h.present a (by rw [reach, hwait]; exact List.mem_cons_self))
      dsimp only
      have hsame : ((if t.threadId = 0 then w.routines else w.pthreadDetach t.threadId) k).pos =
          (w.routines k).pos ∧
          ((if t.threadId = 0 then w.routines else w.pthreadDetach t.threadId) k).thread =
            (w.routines k).thread := by
        have hfields := pthreadDetach_fields w t.threadId k
        split_ifs
        · exact ⟨rfl, rfl⟩
        · exact ⟨hfields.1, hfields.2.1⟩
      intro hs
      refine hs.2 k ?_ ?_
      · rw [Routine.live]
        dsimp only
        rwa [hsame.1]
      · dsimp only
        rw [hsame.2, hthread, Function.update_self]
    all_goals
      next hwait =>
        simp only [Careful, hwait, not_true_eq_false] at hcareful

theorem Kept.mem_ran (h : Kept w) (k : Fin n) :
    k ∈ w.ran ↔ (w.routines k).pos.hasRun = true :=
  h.ran.2 k

theorem Kept.mem_deleted (h : Kept w) (k : Fin n) :
    k ∈ w.deleted ↔ (w.routines k).pos.hasDeleted = true ∨ k ∈ w.failed := by
  rw [h.deleted.2 k, Bool.or_eq_true, decide_eq_true_eq]

theorem Kept.tasksOnce (h : Kept w) : TasksOnce w where
  refused hnone := by
    by_contra hne
    exact h.afterFailed hne hnone
  kept k hk := by
    have hdead := (h.begun k).2 (.inr (.inr hk))
    have hfailed := (h.refused k hk).2
    refine ⟨fun hran => ?_, fun hdel => ?_, hfailed⟩
    · rw [h.mem_ran, hdead] at hran
      cases hran
    · rcases (h.mem_deleted k).1 hdel with hdel | hdel
      · rw [hdead] at hdel
        cases hdel
      · exact hfailed hdel
  ran := h.ran.1
  deleted := h.deleted.1
  either k hk hfailed := by
    have hdead := (h.begun k).2 (.inr (.inl hfailed))
    rw [h.mem_ran, hdead] at hk
    cases hk
  afterwards k hk := by
    refine ((h.mem_deleted k).1 hk).imp_left fun hdel => (h.mem_ran k).2 ?_
    cases hpos : (w.routines k).pos <;> rw [hpos] at hdel <;> first | rfl | cases hdel
  apart := h.alone
  settled hdead k hk hrefused := by
    by_cases hfailed : k ∈ w.failed
    · exact ⟨(h.mem_deleted k).2 (.inr hfailed), .inr hfailed⟩
    · have hstarted : (w.routines k).pos ≠ .notStarted := fun hpos => by
        rw [h.begun k, hk] at hpos
        rcases hpos with hpos | hpos | hpos
        · cases hpos
        · exact hfailed hpos
        · exact hrefused hpos
      have hpos : (w.routines k).pos = .exited := by
        by_contra hne
        exact hdead k ⟨hstarted, hne⟩
      exact ⟨(h.mem_deleted k).2 (.inl (by rw [hpos]; rfl)),
        .inl ((h.mem_ran k).2 (by rw [hpos]; rfl))⟩
  waited hwait hset k hk := by
    obtain ⟨t, ht⟩ := h.routine k hk
    have hmem := ht.reach
    rw [reach_idle hwait, hset] at hmem
    cases hmem

/-- Whatever the order of the steps, each task is run once and deleted once. -/
theorem tasks_once (evs : List (ThreadsStep n)) (hrun : Along step Can start evs)
    (hcareful : Along step Careful start evs) : TasksOnce (exec step start evs) := by
  have hboth := (along_and _ _).2 ⟨hrun, hcareful⟩
  exact (invariant (fun _ _ h hev => h.step hev.1 hev.2) kept_start hboth).tasksOnce

/-- No thread outlives its `Thread`, exactly as long as `WaitAllThread` meets no thread that has
detached itself and not written `running_` yet. -/
theorem threads_sound_iff (evs : List (ThreadsStep n)) (hrun : Along step Can start evs) :
    (∀ pre, pre <+: evs → Sound (exec step start pre)) ↔ Along step Careful start evs :=
  along_iff_forall_exec (I := Kept) (fun _ h => h.sound)
    (fun _ _ h hcan hcareful => h.step hcan hcareful)
    (fun _ _ h _ hcareful => not_sound_of_not_careful h hcareful) kept_start hrun

/-- The first thread is done before `Run` sets `running_`, so the second call makes a new `Thread`;
`WaitAllThread` joins its thread. -/
def twoCalls (i j : Fin n) : List (ThreadsStep n) := List.flatten
  [[.sync i 1 (.fails 0), .sync i 1 (.fails 0), .sync i 2 (.fails 0), .sync i 2 (.creates 7)],
    List.replicate 9 (.work i),
    [.sync i 2 (.fails 0), .sync j 2 (.fails 0), .sync j 2 (.fails 0), .sync j 2 (.fails 0),
      .sync j 3 (.fails 0), .sync j 3 (.creates 7), .work j, .work j, .sync j 3 (.fails 0)],
    List.replicate 7 .waitAllThread, List.replicate 7 (.work j), List.replicate 3 .waitAllThread]

/-- Then a `pthread_create` fails and leaves 9 in `thread_id_`, so the last task is not taken. -/
def failingCall (i j : Fin n) : List (ThreadsStep n) :=
  [.sync i 4 (.fails 9), .sync i 4 (.fails 9), .sync i 5 (.fails 9), .sync i 5 (.fails 9),
    .sync j 5 (.creates 7), .sync j 5 (.creates 7), .sync j 5 (.creates 7)]

theorem tasks_once_failing :
    TasksOnce (exec step (start : Threads 4) (twoCalls 0 1 ++ failingCall 2 3)) :=
  tasks_once (twoCalls 0 1 ++ failingCall 2 3) (by decide +kernel) (by decide +kernel)

theorem threads_sound_two : Sound (exec step (start : Threads 2) (twoCalls 0 1)) :=
  (threads_sound_iff (twoCalls 0 1) (by decide +kernel)).2 (by decide +kernel) _
    (List.prefix_refl _)

example : (exec step (start : Threads 4) (twoCalls 0 1 ++ failingCall 2 3)).refused = [3] := by
  decide +kernel

/-- A thread has detached itself when `WaitAllThread` looks at its `thread_id_`. -/
example : ¬ Along step Careful (start : Threads 1) (List.flatten
    [[.sync 0 1 (.creates 7), .sync 0 1 (.creates 7)], List.replicate 3 (.sync 0 2 (.creates 7)),
      List.replicate 8 (.work 0), List.replicate 4 .waitAllThread]) := by
  decide +kernel

end Threads

end Elegance
