import Elegance.Thread

/-!
# Threads on their `Thread`

A thread finds its own task and its own id in its `Thread` until it has cleared them (`Finds`), and
no other thread runs on it (`Kept`).
-/

namespace Elegance

open Machine

variable {n : ℕ}

namespace RoutineAt

def hasRun : RoutineAt n → Bool
  | .notStarted | .testTask | .runTask => false
  | _ => true

def hasDeleted : RoutineAt n → Bool
  | .notStarted | .testTask | .runTask | .inRun _ | .deleteTask => false
  | _ => true

def hasDetached : RoutineAt n → Bool
  | .clearId | .clearRunning | .exited => true
  | _ => false

/-- What the thread of the `k`-th call, with the id, finds in its `Thread`. -/
def Finds (k : Fin n) (id : ThreadID) (t : Thread n) : RoutineAt n → Prop
  | .testTask | .runTask | .inRun _ | .deleteTask => t.curTask = some k ∧ t.threadId = id
  | .clearTask | .testId | .detach | .clearId => t.threadId = id
  | .clearRunning => t.threadId = 0
  | .notStarted | .exited => True

theorem Finds.congr {k : Fin n} {id : ThreadID} {t t' : Thread n} {pos : RoutineAt n}
    (h : pos.Finds k id t) (htask : t'.curTask = t.curTask) (hid : t'.threadId = t.threadId) :
    pos.Finds k id t' := by
  cases pos <;> simp only [Finds, htask, hid] at h ⊢ <;> exact h

/-- The one that is there now and was not before. -/
def news (k : Fin n) (before after : Bool) : List (Fin n) := if !before && after then [k] else []

/-- A step from a position keeps what is found. -/
structure Goes (k : Fin n) (id : ThreadID) (t : Thread n) (pos : RoutineAt n) (r : RoutineStep n) :
    Prop where
  started : r.pos ≠ .notStarted
  finds : r.pos.Finds k id r.thread
  exits : r.pos = .exited → r.thread.threadId = 0
  running : r.pos ≠ .exited → r.thread.running = t.running
  ran : r.ran = news k pos.hasRun r.pos.hasRun
  deleted : r.deleted = news k pos.hasDeleted r.pos.hasDeleted
  hasRun : pos.hasRun = true → r.pos.hasRun = true
  hasDeleted : pos.hasDeleted = true → r.pos.hasDeleted = true
  hasDetached : pos ≠ .detach → r.pos.hasDetached = pos.hasDetached

theorem next_goes {k : Fin n} {id : ThreadID} {t : Thread n} {pos : RoutineAt n} (hid : id ≠ 0)
    (hstarted : pos ≠ .notStarted) (hexited : pos ≠ .exited) (hdetach : pos ≠ .detach)
    (h : pos.Finds k id t) : ∃ r, pos.next t = some r ∧ Goes k id t pos r := by
  cases pos with
  | notStarted => exact absurd rfl hstarted
  | exited => exact absurd rfl hexited
  | detach => exact absurd rfl hdetach
  | testTask =>
    exact ⟨_, rfl, by constructor <;> simp [h.1, h.2, Finds, news, hasRun, hasDeleted, hasDetached]⟩
  | runTask =>
    refine ⟨⟨.inRun k, t, [k], []⟩, by simp [next, h.1], ?_⟩
    constructor <;> simp [h.1, h.2, Finds, news, hasRun, hasDeleted, hasDetached]
  | inRun task =>
    exact ⟨_, rfl, by constructor <;> simp [h.1, h.2, Finds, news, hasRun, hasDeleted, hasDetached]⟩
  | deleteTask =>
    exact ⟨_, rfl, by constructor <;> simp [h.1, h.2, Finds, news, hasRun, hasDeleted, hasDetached]⟩
  | clearTask =>
    have h : t.threadId = id := h
    exact ⟨_, rfl, by constructor <;> simp [h, Finds, news, hasRun, hasDeleted, hasDetached]⟩
  | testId =>
    have h : t.threadId = id := h
    exact ⟨_, rfl, by constructor <;> simp [h, hid, Finds, news, hasRun, hasDeleted, hasDetached]⟩
  | clearId =>
    exact ⟨_, rfl, by constructor <;> simp [Finds, news, hasRun, hasDeleted, hasDetached]⟩
  | clearRunning =>
    have h : t.threadId = 0 := h
    exact ⟨_, rfl, by constructor <;> simp [h, Finds, news, hasRun, hasDeleted, hasDetached]⟩

theorem detach_goes {k : Fin n} {id : ThreadID} {t : Thread n} (h : t.threadId = id) :
    Goes k id t .detach { pos := .clearId, thread := t } := by
  constructor <;> simp [h, Finds, news, hasRun, hasDeleted, hasDetached]

end RoutineAt

/-- Each of those `P` holds for is in the list, once. -/
def Logged (l : List (Fin n)) (P : Fin n → Bool) : Prop := l.Nodup ∧ ∀ j, j ∈ l ↔ P j = true

theorem Logged.append {l : List (Fin n)} {P Q : Fin n → Bool} {k : Fin n} (h : Logged l P)
    (hother : ∀ j, j ≠ k → Q j = P j) (hk : P k = true → Q k = true) :
    Logged (l ++ RoutineAt.news k (P k) (Q k)) Q := by
  have hmem : ∀ j, j ∈ RoutineAt.news k (P k) (Q k) ↔ j = k ∧ P k = false ∧ Q k = true := by
    intro j
    rw [RoutineAt.news]
    rcases hP : P k with _ | _ <;> rcases hQ : Q k with _ | _ <;> simp
  refine ⟨List.nodup_append'.2 ⟨h.1, ?_, fun j hj hj' => ?_⟩, fun j => ?_⟩
  · rw [RoutineAt.news]
    split_ifs <;> simp
  · obtain ⟨rfl, hfalse, -⟩ := (hmem j).1 hj'
    rw [(h.2 j).1 hj] at hfalse
    cases hfalse
  · rw [List.mem_append, h.2 j, hmem j]
    by_cases hj : j = k
    · subst hj
      rcases hP : P j with _ | _
      · simp
      · simp [hk hP]
    · simp [hj, hother j hj]

/-- The call has started no thread yet. -/
def SyncAt.early : SyncAt → Bool
  | .toMake | .scanning _ | .chosen _ | .entered _ => true
  | .created _ | .returned => false

namespace Threads

variable {w : Threads n}

/-- The `Thread` objects no `WaitAllThread` is past. -/
def reach (w : Threads n) : List Addr :=
  match w.wait with
  | .idle => w.threadSet
  | .visiting rest => rest
  | .testId a rest | .join a rest | .joining a _ rest | .delete a rest => a :: rest

/-- The `Thread` that `WaitAllThread` has found running. -/
def awaited (w : Threads n) : Option Addr :=
  match w.wait with
  | .idle | .visiting _ => none
  | .testId a _ | .join a _ | .joining a _ _ | .delete a _ => some a

/-- The thread of the `k`-th call runs on `t`. -/
structure OnThread (w : Threads n) (k : Fin n) (t : Thread n) : Prop where
  thread : w.threads (w.routines k).thread = some t
  reach : (w.routines k).thread ∈ w.reach
  id : (w.routines k).id ≠ 0
  finds : (w.routines k).pos.Finds k (w.routines k).id t
  busy : t.running = true ∨ w.calls k = .created (w.routines k).thread

/-- No thread runs on it. -/
def Free (w : Threads n) (a : Addr) : Prop := ∀ j, (w.routines j).live → (w.routines j).thread ≠ a

/-- A `pthread_create` that failed may have left something in its `thread_id_`. -/
structure Stale (w : Threads n) (a : Addr) (t : Thread n) : Prop where
  running : t.running = false
  failed : w.failed ≠ []
  created : ∀ k, w.calls k ≠ .created a
  awaited : w.awaited ≠ some a

structure Kept (w : Threads n) : Prop where
  running : w.halted = false
  refused : ∀ k ∈ w.refused, w.calls k = .returned ∧ k ∉ w.failed
  afterFailed : w.refused ≠ [] → w.failed ≠ []
  single : ∀ j k, (w.calls j).underWay → (w.calls k).underWay → j = k
  waits : w.wait ≠ .idle → ∀ k, ¬ (w.calls k).underWay
  nodup : w.reach.Nodup
  present : ∀ a ∈ w.reach, w.threads a ≠ none
  routine : ∀ k, (w.routines k).live → ∃ t, OnThread w k t
  alone : ∀ j k, (w.routines j).live → (w.routines k).live →
    (w.routines j).thread = (w.routines k).thread → j = k
  ids : ∀ j k, (w.routines j).live → (w.routines k).live →
    (w.routines j).id = (w.routines k).id → j = k
  unused : ∀ a ∈ w.reach, Free w a → ∀ t, w.threads a = some t → t.threadId = 0 ∨ Stale w a t
  begun : ∀ k, (w.routines k).pos = .notStarted ↔
    (w.calls k).early = true ∨ k ∈ w.failed ∨ k ∈ w.refused
  failed : ∀ k ∈ w.failed, w.calls k = .returned
  scanning : ∀ k rest, w.calls k = .scanning rest → ∀ a ∈ rest, a ∈ w.threadSet
  chosen : ∀ k a, w.calls k = .chosen a ∨ w.calls k = .entered a → a ∈ w.threadSet ∧ Free w a ∧
    ∀ t, w.threads a = some t → t.running = false
  entered : ∀ k a, w.calls k = .entered a → ∀ t, w.threads a = some t → t.curTask = some k
  created : ∀ k a, w.calls k = .created a → a ∈ w.threadSet
  detached : ∀ k, (w.routines k).pos ≠ .notStarted → (w.routines k).joinable = false →
    (w.routines k).pos.hasDetached = true
  named : ∀ k, (w.routines k).pos ≠ .notStarted → (w.routines k).id ≠ 0
  spent : ∀ k, (w.routines k).pos.hasDetached = true → (w.routines k).joinable = false ∨
    ∃ a rest, w.wait = .joining a (w.routines k).id rest
  joined : ∀ a id rest, w.wait = .joining a id rest → ∃ k, (w.routines k).pos ≠ .notStarted ∧
    (w.routines k).thread = a ∧ (w.routines k).id = id ∧ (w.routines k).joinable = true ∧
      ∀ j, (w.routines j).live → (w.routines j).thread = a → j = k
  ran : Logged w.ran fun k => (w.routines k).pos.hasRun
  deleted : Logged w.deleted fun k => (w.routines k).pos.hasDeleted || decide (k ∈ w.failed)

theorem kept_start : Kept (start : Threads n) where
  running := rfl
  refused k hk := by simp [start] at hk
  afterFailed h := absurd rfl h
  single j k hj := absurd rfl hj.1
  waits hw := absurd rfl hw
  nodup := .nil
  present a ha := by simp [reach, start] at ha
  routine k hk := absurd rfl hk.1
  alone j k hj := absurd rfl hj.1
  ids j k hj := absurd rfl hj.1
  unused a ha := by simp [reach, start] at ha
  begun k := by simp [SyncAt.early, start]
  failed k hk := by simp [start] at hk
  scanning k rest hk := by simp [start] at hk
  chosen k a hk := by simp [start] at hk
  entered k a hk := by simp [start] at hk
  created k a hk := by simp [start] at hk
  detached k hk := absurd rfl hk
  named k hk := absurd rfl hk
  spent k hk := by simp [RoutineAt.hasDetached, start] at hk
  joined a id rest hw := by simp [start] at hw
  ran := ⟨.nil, fun j => by simp [RoutineAt.hasRun, start]⟩
  deleted := ⟨.nil, fun j => by simp [RoutineAt.hasDeleted, start]⟩

section Work

variable {k : Fin n} {t : Thread n} {r : RoutineStep n} {routines : Fin n → Routine n}

/-- A step of the thread of the `k`-th call. -/
theorem Kept.goes (h : Kept w) (hlive : (w.routines k).live) (ht : OnThread w k t)
    (hr : RoutineAt.Goes k (w.routines k).id t (w.routines k).pos r)
    (hsame : ∀ j, (routines j).thread = (w.routines j).thread ∧
      (routines j).id = (w.routines j).id)
    (hpos : ∀ j, (routines j).pos = if j = k then r.pos else (w.routines j).pos)
    (hdetached : ∀ j, (routines j).pos ≠ .notStarted → (routines j).joinable = false →
      (routines j).pos.hasDetached = true)
    (hspent : ∀ j, (routines j).pos.hasDetached = true → (routines j).joinable = false ∨
      ∃ a rest, w.wait = .joining a (w.routines j).id rest)
    (hjoined : ∀ a id rest, w.wait = .joining a id rest → ∀ j, (w.routines j).id = id →
      (w.routines j).joinable = true → (routines j).joinable = true) :
    Kept { w with
      routines
      threads := Function.update w.threads (w.routines k).thread (some r.thread)
      ran := w.ran ++ r.ran
      deleted := w.deleted ++ r.deleted } := by
  have hself : (routines k).pos = r.pos := by rw [hpos k, if_pos rfl]
  have hne : ∀ j, j ≠ k → (routines j).pos = (w.routines j).pos := fun j hj => by
    rw [hpos j, if_neg hj]
  have hback : ∀ j, (routines j).live → (w.routines j).live := fun j hj => by
    by_cases hjk : j = k
    · rwa [hjk]
    · rwa [Routine.live, ← hne j hjk]
  have hforth : ∀ j, j ≠ k → (w.routines j).live → (routines j).live := fun j hjk hj => by
    rwa [Routine.live, hne j hjk]
  have hfree : ∀ a, Free w a → ∀ j, (routines j).live → (routines j).thread ≠ a :=
    fun a ha j hj => by
      rw [(hsame j).1]
      exact ha j (hback j hj)
  have hother : ∀ a, a ≠ (w.routines k).thread → Function.update w.threads (w.routines k).thread
      (some r.thread) a = w.threads a := fun a ha => Function.update_of_ne ha _ _
  refine ⟨h.running, h.refused, h.afterFailed, h.single, h.waits, h.nodup, fun a ha => ?_,
    fun j hj => ?_, fun i j hi hj hij => ?_, fun i j hi hj hij => ?_,
    fun a ha hnone t' ht' => ?_, fun j => ?_,
    h.failed, h.scanning, fun j a hj => ?_, fun j a hj t' ht' => ?_, h.created, hdetached,
    fun j hj => ?_, fun j hj => ?_, fun a id rest hw => ?_, ?_, ?_⟩
  · dsimp only
    by_cases ha' : a = (w.routines k).thread
    · rw [ha', Function.update_self]
      simp
    · rw [hother a ha']
      exact h.present a ha
  · by_cases hjk : j = k
    · subst hjk
      refine ⟨r.thread, ?_, by rw [(hsame j).1]; exact ht.reach,
        by rw [(hsame j).2]; exact ht.id, ?_, ?_⟩
      · dsimp only
        rw [(hsame j).1, Function.update_self]
      · dsimp only
        rw [hself, (hsame j).2]
        exact hr.finds
      · rw [hr.running fun he => hj.2 (hself.trans he), (hsame j).1]
        exact ht.busy
    · obtain ⟨t', ht'⟩ := h.routine j (hback j hj)
      have ha : (w.routines j).thread ≠ (w.routines k).thread :=
        fun ha => hjk (h.alone j k (hback j hj) hlive ha)
      refine ⟨t', ?_, by rw [(hsame j).1]; exact ht'.reach,
        by rw [(hsame j).2]; exact ht'.id, ?_, ?_⟩
      · dsimp only
        rw [(hsame j).1, hother _ ha, ht'.thread]
      · dsimp only
        rw [hne j hjk, (hsame j).2]
        exact ht'.finds
      · rw [(hsame j).1]
        exact ht'.busy
  · dsimp only at hij
    rw [(hsame i).1, (hsame j).1] at hij
    exact h.alone i j (hback i hi) (hback j hj) hij
  · dsimp only at hij
    rw [(hsame i).2, (hsame j).2] at hij
    exact h.ids i j (hback i hi) (hback j hj) hij
  · by_cases ha' : a = (w.routines k).thread
    · subst ha'
      dsimp only at ht'
      rw [Function.update_self, Option.some.injEq] at ht'
      have hexit : r.pos = .exited := by
        by_contra hne'
        refine hnone k ⟨?_, ?_⟩ (hsame k).1
        · exact hself ▸ hr.started
        · exact hself ▸ hne'
      rw [← ht']
      exact .inl (hr.exits hexit)
    · dsimp only at ht'
      rw [hother a ha'] at ht'
      have hfree' : Free w a := fun j hj hja => by
        have hjk : j ≠ k := fun hjk => ha' (by rw [← hja, hjk])
        exact hnone j (hforth j hjk hj) ((hsame j).1.trans hja)
      exact (h.unused a ha hfree' t' ht').imp_right fun hs =>
        ⟨hs.running, hs.failed, hs.created, hs.awaited⟩
  · by_cases hjk : j = k
    · subst hjk
      dsimp only
      rw [hself, ← h.begun j]
      exact iff_of_false hr.started hlive.1
    · dsimp only
      rw [hne j hjk]
      exact h.begun j
  · obtain ⟨hmem, hfree', hidle⟩ := h.chosen j a hj
    refine ⟨hmem, hfree a hfree', fun t' ht' => hidle t' ?_⟩
    rwa [← hother a fun ha => hfree' k hlive ha.symm]
  · have ha : a ≠ (w.routines k).thread := fun ha =>
      (h.chosen j a (.inr hj)).2.1 k hlive ha.symm
    dsimp only at ht'
    rw [hother a ha] at ht'
    exact h.entered j a hj t' ht'
  · dsimp only
    rw [(hsame j).2]
    by_cases hjk : j = k
    · rw [hjk]
      exact ht.id
    · exact h.named j (by rwa [← hne j hjk])
  · dsimp only
    rw [(hsame j).2]
    exact hspent j hj
  · obtain ⟨j, hstarted, hthread, hid, hjoin, honly⟩ := h.joined a id rest hw
    refine ⟨j, fun hpos' => ?_, (hsame j).1.trans hthread, (hsame j).2.trans hid,
      hjoined a id rest hw j hid hjoin, fun i hi hia => ?_⟩
    · by_cases hjk : j = k
      · subst hjk
        exact hr.started (hself.symm.trans hpos')
      · exact hstarted ((hne j hjk).symm.trans hpos')
    · rw [(hsame i).1] at hia
      exact honly i (hback i hi) hia
  · have hrun := h.ran.append (k := k) (Q := fun j => (routines j).pos.hasRun)
      (fun j hj => by rw [hne j hj]) fun hk => by
        rw [hself]
        exact hr.hasRun hk
    rwa [hself, ← hr.ran] at hrun
  · have hfailed : k ∉ w.failed := fun hk => hlive.1 ((h.begun k).2 (.inr (.inl hk)))
    have hdel := h.deleted.append (k := k)
      (Q := fun j => (routines j).pos.hasDeleted || decide (j ∈ w.failed))
      (fun j hj => by rw [hne j hj]) fun hk => by
        rw [hself]
        simp only [hfailed, decide_false, Bool.or_false] at hk ⊢
        exact hr.hasDeleted hk
    rwa [hself, decide_eq_false hfailed, Bool.or_false, Bool.or_false, ← hr.deleted] at hdel

theorem release_fields (w : Threads n) (id : ThreadID) (j : Fin n) :
    (w.release id j).pos = (w.routines j).pos ∧ (w.release id j).thread = (w.routines j).thread ∧
      (w.release id j).id = (w.routines j).id ∧ ((w.release id j).joinable = false →
        (w.routines j).joinable = false ∨ (w.routines j).id = id) ∧
      ((w.routines j).id ≠ id → (w.release id j).joinable = (w.routines j).joinable) := by
  unfold release
  split_ifs with hid <;> simp [hid]

theorem pthreadDetach_cases (w : Threads n) (id : ThreadID) : w.pthreadDetach id = w.release id ∨
    w.pthreadDetach id = w.routines ∧ ∃ a rest, w.wait = .joining a id rest := by
  unfold pthreadDetach
  split
  · next a joined rest hw =>
    split_ifs with hid
    · exact .inr ⟨rfl, a, rest, by rw [hw, hid]⟩
    · exact .inl rfl
  · exact .inl rfl

theorem pthreadDetach_fields (w : Threads n) (id : ThreadID) (j : Fin n) :
    (w.pthreadDetach id j).pos = (w.routines j).pos ∧
      (w.pthreadDetach id j).thread = (w.routines j).thread ∧
      (w.pthreadDetach id j).id = (w.routines j).id ∧ ((w.pthreadDetach id j).joinable = false →
        (w.routines j).joinable = false ∨ (w.routines j).id = id) := by
  rcases pthreadDetach_cases w id with h | ⟨h, -⟩ <;> rw [h]
  · obtain ⟨hpos, hthread, hid, hjoin, -⟩ := release_fields w id j
    exact ⟨hpos, hthread, hid, hjoin⟩
  · exact ⟨rfl, rfl, rfl, .inl⟩

/-- A thread that is being joined stays so. -/
theorem joinable_pthreadDetach {id joined : ThreadID} {a : Addr} {rest : List Addr}
    (hw : w.wait = .joining a joined rest) {j : Fin n} (hj : (w.routines j).id = joined) :
    (w.pthreadDetach id j).joinable = (w.routines j).joinable := by
  by_cases hid : joined = id
  · simp only [pthreadDetach, hw, hid, if_true]
  · simp only [pthreadDetach, hw, hid, if_false]
    exact (release_fields w id j).2.2.2.2 (hj ▸ hid)

/-- The thread itself cannot be joined any more, if it is not being joined. -/
theorem joinable_self_pthreadDetach (j : Fin n) :
    (w.pthreadDetach (w.routines j).id j).joinable = false ∨
      ∃ a rest, w.wait = .joining a (w.routines j).id rest := by
  rcases pthreadDetach_cases w (w.routines j).id with h | ⟨-, hw⟩
  · rw [h]
    exact .inl (by simp [release])
  · exact .inr hw

theorem joinable_of_pthreadDetach {id : ThreadID} {j : Fin n}
    (hj : (w.routines j).joinable = false) : (w.pthreadDetach id j).joinable = false := by
  rcases pthreadDetach_cases w id with h | ⟨h, -⟩ <;> rw [h]
  · unfold release
    split_ifs
    · rfl
    · exact hj
  · exact hj

theorem Kept.detach (h : Kept w) (hlive : (w.routines k).live) (ht : OnThread w k t)
    (hpos : (w.routines k).pos = .detach) :
    Kept { w with
      routines := Function.update (w.pthreadDetach t.threadId) k
        { w.pthreadDetach t.threadId k with pos := .clearId } } := by
  have hfinds := ht.finds
  rw [hpos] at hfinds
  have hfinds : t.threadId = (w.routines k).id := hfinds
  have hfields := pthreadDetach_fields w t.threadId
  have hnew : ∀ j, (Function.update (w.pthreadDetach t.threadId) k
      { w.pthreadDetach t.threadId k with pos := .clearId } j).joinable =
        (w.pthreadDetach t.threadId j).joinable := fun j => by
    by_cases hjk : j = k
    · rw [hjk, Function.update_self]
    · rw [Function.update_of_ne hjk]
  have hnewPos : ∀ j, (Function.update (w.pthreadDetach t.threadId) k
      { w.pthreadDetach t.threadId k with pos := .clearId } j).pos =
        if j = k then .clearId else (w.routines j).pos := fun j => by
    by_cases hjk : j = k
    · rw [hjk, Function.update_self, if_pos rfl]
    · rw [Function.update_of_ne hjk, if_neg hjk, (hfields j).1]
  have hgoes := RoutineAt.detach_goes (k := k) hfinds
  rw [← hpos] at hgoes
  have hkept := h.goes hlive ht hgoes (fun j => by
      by_cases hjk : j = k
      · rw [hjk, Function.update_self]
        exact ⟨(hfields k).2.1, (hfields k).2.2.1⟩
      · rw [Function.update_of_ne hjk]
        exact ⟨(hfields j).2.1, (hfields j).2.2.1⟩)
    hnewPos (fun j hstarted hjoin => by
      rw [hnew] at hjoin
      rw [hnewPos] at hstarted ⊢
      split_ifs at hstarted ⊢ with hjk
      · rfl
      · rcases (hfields j).2.2.2 hjoin with hjoin' | hid
        · exact h.detached j hstarted hjoin'
        · by_cases hexit : (w.routines j).pos = .exited
          · rw [hexit]
            rfl
          · exact absurd (h.ids j k ⟨hstarted, hexit⟩ hlive (hid.trans hfinds)) hjk)
    (fun j hj => by
      rw [hnew]
      rw [hnewPos] at hj
      split_ifs at hj with hjk
      · subst hjk
        rw [hfinds]
        exact joinable_self_pthreadDetach j
      · rcases h.spent j hj with hjoin | hw
        · exact .inl (joinable_of_pthreadDetach hjoin)
        · exact .inr hw)
    fun a id rest hw j hid hjoin => by
      rw [hnew, joinable_pthreadDetach hw hid, hjoin]
  dsimp only at hkept
  rwa [← ht.thread, Function.update_eq_self, List.append_nil, List.append_nil] at hkept

theorem Kept.work (h : Kept w) (k : Fin n) : Kept (w.work k) := by
  unfold Threads.work
  by_cases hlive : (w.routines k).live
  · obtain ⟨t, ht⟩ := h.routine k hlive
    rw [if_pos hlive, ht.thread]
    by_cases hpos : (w.routines k).pos = .detach
    · have hfinds := ht.finds
      rw [hpos] at hfinds
      have hid : t.threadId ≠ 0 := fun h0 => ht.id (hfinds.symm.trans h0)
      simp only [hpos, if_true, hid, if_false]
      exact h.detach hlive ht hpos
    · obtain ⟨r, hr, hgoes⟩ := RoutineAt.next_goes ht.id hlive.1 hlive.2 hpos ht.finds
      simp only [hpos, if_false, hr]
      have hdet := hgoes.hasDetached hpos
      refine h.goes hlive ht hgoes (fun j => ?_) (fun j => ?_) (fun j hstarted hjoin => ?_)
        (fun j hj => ?_) fun a id rest hw j hid hjoin => ?_
      all_goals by_cases hjk : j = k
      · rw [hjk, Function.update_self]
        exact ⟨rfl, rfl⟩
      · rw [Function.update_of_ne hjk]
        exact ⟨rfl, rfl⟩
      · rw [hjk, Function.update_self, if_pos rfl]
      · rw [Function.update_of_ne hjk, if_neg hjk]
      · rw [hjk, Function.update_self] at hjoin ⊢
        exact hdet.trans (h.detached k hlive.1 hjoin)
      · rw [Function.update_of_ne hjk] at hstarted hjoin ⊢
        exact h.detached j hstarted hjoin
      · rw [hjk, Function.update_self] at hj ⊢
        exact h.spent k (hdet.symm.trans hj)
      · rw [Function.update_of_ne hjk] at hj ⊢
        exact h.spent j hj
      · rw [hjk, Function.update_self]
        exact hjk ▸ hjoin
      · rw [Function.update_of_ne hjk]
        exact hjoin
  · rwa [if_neg hlive]

end Work

end Threads

end Elegance
