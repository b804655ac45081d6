import Elegance.Proofs.EventPool

/-!
# A pool that waits for events empties its list

A worker that has seen a task may find it gone under the mutex, and then ends. So workers get fewer,
but never all of them end while the pool runs, and no task is left behind in the list
(`events_drain`).
-/

namespace Elegance

open Machine Handover

/-- A worker that will look at the list before it waits. -/
def EventWorkerAt.heading : EventWorkerAt → Bool
  | .testRunning | .wait | .waiting | .finished => false
  | _ => true

/-- How many steps a worker makes until it waits, but for those a task or an event adds. -/
def EventWorkerAt.left : EventWorkerAt → ℕ
  | .runTask => 7
  | .checkRunning => 6
  | .lock | .resetManual => 5
  | .testEmpty => 4
  | .relock => 3
  | .testRunning | .checkEmpty => 2
  | .wait | .recheckRunning => 1
  | .waiting | .popFront | .finished => 0

theorem EventWorkerAt.left_le (pos : EventWorkerAt) : pos.left ≤ 7 := by
  cases pos <;> simp [EventWorkerAt.left]

namespace EventPool

variable {n p s : ℕ} {w w' : EventPool n p s} {ev : EventPoolStep n p s} {i i' : Fin n}

section Healthy

/-- A worker that has not ended, and will not on what it has seen. -/
def Live (w : EventPool n p s) (i : Fin n) : Prop :=
  (w.workers i).pos ≠ .finished ∧
    (w.taskList = [] → (w.workers i).pos ≠ .relock ∧ (w.workers i).pos ≠ .checkEmpty)

/-- The task in front of the list will be seen. -/
def Served (w : EventPool n p s) : Prop :=
  w.autoReset = true ∨ (∃ i, (w.workers i).pos.heading = true) ∨
    ∃ k, (w.addTasks k).pos = .setEvent

/-- While no `Stop` has cleared the list: a worker lives, and will see what is in the list. -/
structure Healthy (w : EventPool n p s) : Prop where
  excl : Mutual w
  running : w.isRunning = true
  manual : w.manualReset = false
  noReset : ∀ i, (w.workers i).pos ≠ .resetManual
  quiet : w.autoReset = true → ∀ i, (w.workers i).pos ≠ .waiting
  live : ∃ i, Live w i
  served : w.taskList ≠ [] → Served w

theorem healthy_start (hn : 0 < n) (tasks : Fin p → Addr) :
    Healthy (start tasks : EventPool n p s) where
  excl := mutual_start tasks
  running := rfl
  manual := rfl
  noReset i hi := by cases hi
  quiet h := by cases h
  live := ⟨⟨0, hn⟩, by simp [start], fun _ => by simp [start]⟩
  served h := absurd rfl h

section Next

variable {isEmpty autoReset manualReset : Bool} {pos : EventWorkerAt}

theorem live_next (hpos : pos ≠ .finished)
    (hsaw : isEmpty = true → pos ≠ .relock ∧ pos ≠ .checkEmpty) :
    pos.next true isEmpty autoReset manualReset ≠ .finished ∧
      (isEmpty = true → pos.next true isEmpty autoReset manualReset ≠ .relock ∧
        pos.next true isEmpty autoReset manualReset ≠ .checkEmpty) := by
  cases pos <;> revert hpos hsaw <;> cases isEmpty <;> cases autoReset <;> cases manualReset <;>
    decide

theorem heading_next (hpos : pos.heading = true) :
    (pos.next true false autoReset manualReset).heading = true := by
  cases pos <;> revert hpos <;> cases autoReset <;> cases manualReset <;> decide

theorem next_ne_resetManual (isRunning : Bool) :
    pos.next isRunning isEmpty autoReset false ≠ .resetManual := by
  cases pos <;> cases isRunning <;> cases isEmpty <;> cases autoReset <;> decide

end Next

theorem healthy_take (h : Healthy w) (hmutual : Mutual (w.work i)) {task : Fin p}
    {rest : List (Fin p)} (heq : w.work i = { w with
      taskList := rest
      removed := w.removed ++ [task]
      workers := Function.update w.workers i
        { pos := .runTask, handed := (w.workers i).handed ++ [task] } }) :
    Healthy (w.work i) := by
  have hrun : ((w.work i).workers i).pos = .runTask := by
    rw [heq]
    simp
  refine ⟨hmutual, (fields_work w i).1.trans h.running, by rw [heq]; exact h.manual,
    fun i' hi' => ?_, fun hauto i' hi' => ?_, ⟨i, by simp [hrun], fun _ => by simp [hrun]⟩,
    fun _ => .inr (.inl ⟨i, by rw [hrun]; rfl⟩)⟩
  · by_cases hi : i' = i
    · rw [hi, hrun] at hi'
      cases hi'
    · rw [workers_work_ne w hi] at hi'
      exact h.noReset i' hi'
  · by_cases hi : i' = i
    · rw [hi, hrun] at hi'
      cases hi'
    · rw [workers_work_ne w hi] at hi'
      rw [heq] at hauto
      exact h.quiet hauto i' hi'

theorem healthy_goes (h : Healthy w) (hmutual : Mutual (w.workerGoes i)) :
    Healthy (w.workerGoes i) := by
  have hempty := List.isEmpty_iff (l := w.taskList)
  have hnext : w.nextPos i =
      (w.workers i).pos.next true w.taskList.isEmpty w.autoReset w.manualReset := by
    rw [nextPos, h.running]
  refine ⟨hmutual, h.running, by simp [workerGoes, h.manual], fun i' hi' => ?_,
    fun hauto i' hi' => ?_, ?_, fun hne => ?_⟩
  · by_cases hi : i' = i
    · rw [hi, pos_workerGoes, nextPos, h.manual] at hi'
      exact next_ne_resetManual _ hi'
    · rw [workers_workerGoes_ne w hi] at hi'
      exact h.noReset i' hi'
  · obtain ⟨hold, hpos⟩ : w.autoReset = true ∧ (w.workers i).pos ≠ .wait := by
      simpa [workerGoes] using hauto
    by_cases hi : i' = i
    · rw [hi, pos_workerGoes, nextPos] at hi'
      rcases next_eq_waiting hi' with hwait | ⟨hwait, -⟩
      · exact h.quiet hold i hwait
      · exact hpos hwait
    · rw [workers_workerGoes_ne w hi] at hi'
      exact h.quiet hold i' hi'
  · obtain ⟨i', hfinished, hsaw⟩ := h.live
    refine ⟨i', ?_⟩
    by_cases hi : i' = i
    · subst hi
      rw [Live, pos_workerGoes, hnext]
      have hlive := @live_next _ w.autoReset w.manualReset _ hfinished
        fun hnil => hsaw (hempty.1 hnil)
      exact ⟨hlive.1, fun hnil => hlive.2 (hempty.2 hnil)⟩
    · rw [Live, workers_workerGoes_ne w hi]
      exact ⟨hfinished, hsaw⟩
  · have hlist : w.taskList.isEmpty = false := Bool.eq_false_iff.2 fun hnil => hne (hempty.1 hnil)
    rcases h.served hne with hauto | ⟨i', hi'⟩ | hadd
    · by_cases hpos : (w.workers i).pos = .wait
      · refine .inr (.inl ⟨i, ?_⟩)
        rw [pos_workerGoes, nextPos, hpos, hauto]
        rfl
      · exact .inl (by simp [workerGoes, hauto, hpos])
    · refine .inr (.inl ⟨i', ?_⟩)
      by_cases hi : i' = i
      · subst hi
        rw [pos_workerGoes, hnext, hlist]
        exact heading_next hi'
      · rw [workers_workerGoes_ne w hi]
        exact hi'
    · exact .inr (.inr hadd)

theorem healthy_work (h : Healthy w) (hcan : w.Can (.work i)) : Healthy (w.work i) := by
  have hmutual := mutual_work h.excl hcan
  rcases work_cases w i with ⟨task, rest, -, -, heq⟩ | ⟨-, -, heq⟩ | ⟨-, heq⟩
  · exact healthy_take h hmutual heq
  · rwa [heq]
  · rw [heq] at hmutual ⊢
    exact healthy_goes h hmutual

theorem autoReset_addTask (w : EventPool n p s) (k : Fin p) (releases : Option (Fin n)) :
    (w.addTask k releases).autoReset =
      (w.autoReset || ((w.addTasks k).pos = .setEvent && releases.isNone)) := by
  unfold addTask
  split <;> next h => rcases releases with _ | i <;> simp [addTaskGoes, h]

theorem healthy_addTask (h : Healthy w) {k : Fin p} {releases : Option (Fin n)}
    (hcan : w.Can (.addTask k releases)) : Healthy (w.addTask k releases) := by
  have hreleases := releases_addTask w k releases
  obtain ⟨hrunning, hmanual, -⟩ := fields_addTask w k releases
  have hlist := (lists_addTask w k releases).1
  refine ⟨mutual_addTask h.excl hcan, hrunning.trans h.running, hmanual.trans h.manual,
    fun i hi => h.noReset i (hreleases.pos_eq hi (by simp)), fun hauto i hi => ?_, ?_,
    fun hne => ?_⟩
  · have hold := hreleases.pos_eq hi (by simp)
    rw [autoReset_addTask, Bool.or_eq_true] at hauto
    rcases hauto with hauto | hset
    · exact h.quiet hauto i hold
    · rcases releases with _ | j
      · exact hcan.2 (by simpa using hset) i hold
      · simp at hset
  · obtain ⟨i, hfinished, hsaw⟩ := h.live
    refine ⟨i, ?_⟩
    rcases hreleases i with heq | ⟨-, heq⟩ <;> rw [Live, heq]
    · refine ⟨hfinished, fun hnil => hsaw ?_⟩
      rw [hlist] at hnil
      exact (List.append_eq_nil_iff.1 hnil).1
    · simp
  · by_cases hpush : (w.addTasks k).pos = .pushBack
    · refine .inr (.inr ⟨k, ?_⟩)
      rw [pos_addTask, if_pos rfl, hpush]
      rfl
    by_cases hset : (w.addTasks k).pos = .setEvent
    · rcases releases with _ | i
      · exact .inl (by simp [autoReset_addTask, hset])
      · have hwait : (w.workers i).pos = .waiting := hcan.2 hset
        refine .inr (.inl ⟨i, ?_⟩)
        rw [addTask, hset]
        simp [released, hwait, EventWorkerAt.heading]
    · rw [hlist, if_neg hpush, List.append_nil] at hne
      rcases h.served hne with hauto | ⟨i, hi⟩ | ⟨k', hk'⟩
      · exact .inl (by rw [autoReset_addTask, hauto]; rfl)
      · refine .inr (.inl ⟨i, ?_⟩)
        rwa [hreleases.stays fun hwait => by rw [hwait] at hi; cases hi]
      · refine .inr (.inr ⟨k', ?_⟩)
        rw [pos_addTask, if_neg fun hk : k' = k => hset (hk ▸ hk')]
        exact hk'

theorem healthy_stop (h : Healthy w) {j : Fin s} (hcan : w.Can (.stop j))
    (hun : Unstopped (w.stop j)) : Healthy (w.stop j) := by
  have hmutual := mutual_stop h.excl hcan
  have hpos := hun j
  rw [pos_stop, if_pos rfl] at hpos
  have hcheck : (w.stops j).pos = .checkRunning := by
    rcases hat : (w.stops j).pos with _ | _ | _ | _ | _ | _ <;>
      simp [hat, ThreadPool.nextStop] at hpos ⊢
  have heq : w.stop j = w.stopGoes j .clearTasks := by
    rw [stop, hcheck]
    simp [h.running]
  rw [heq] at hmutual ⊢
  exact ⟨hmutual, h.running, h.manual, h.noReset, h.quiet, h.live, h.served⟩

theorem unstopped_of_step (h : Unstopped (w.step ev)) : Unstopped w := by
  cases ev with
  | addTask k releases =>
    rw [Unstopped, step, (fields_addTask w k releases).2.2.1] at h
    exact h
  | work i =>
    rw [Unstopped, step, (fields_work w i).2.2.1] at h
    exact h
  | stop j =>
    intro j'
    have hj' := h j'
    rw [step, pos_stop] at hj'
    split_ifs at hj' with hj
    · subst hj
      rcases hat : (w.stops j').pos with _ | _ | _ | _ | _ | _ <;>
        simp [hat, ThreadPool.nextStop] at hj' ⊢
    · exact hj'

theorem healthy_step (h : Healthy w) (hcan : w.Can ev) (hun : Unstopped (w.step ev)) :
    Healthy (w.step ev) := by
  cases ev with
  | addTask k releases => exact healthy_addTask h hcan
  | work i => exact healthy_work h hcan
  | stop j => exact healthy_stop h hcan hun

theorem healthy_exec (hn : 0 < n) {tasks : Fin p → Addr} {es : List (EventPoolStep n p s)}
    (hrun : Along step Can (start tasks) es) (hun : Unstopped (exec step (start tasks) es)) :
    Healthy (exec step (start tasks) es) :=
  invariant (I := fun w => Unstopped w → Healthy w)
    (fun _ _ h hcan hun => healthy_step (h (unstopped_of_step hun)) hcan hun)
    (fun _ => healthy_start hn tasks) hrun hun

end Healthy

section Taken

/-- What was pushed is handed to one worker each or still in the list, in order. -/
structure Taken (w : EventPool n p s) : Prop where
  order : w.pushed = w.removed ++ w.taskList
  accepted : ∀ k, k ∈ w.pushed ↔
    (w.addTasks k).pos = .setEvent ∨ (w.addTasks k).pos = .returned true
  nodup : w.pushed.Nodup
  handed : Handed w.removed fun i => (w.workers i).handed

theorem taken_start (tasks : Fin p → Addr) : Taken (start tasks : EventPool n p s) where
  order := rfl
  accepted k := by simp [start]
  nodup := .nil
  handed := handed_nil

theorem taken_work (h : Taken w) (i : Fin n) : Taken (w.work i) := by
  rcases work_cases w i with ⟨task, rest, -, hlist, heq⟩ | ⟨-, -, heq⟩ | ⟨-, heq⟩ <;> rw [heq]
  · have horder := h.order
    rw [hlist] at horder
    have hfresh : task ∉ w.removed := fun hmem => by
      have hnodup := h.nodup
      rw [horder] at hnodup
      exact (List.nodup_append.1 hnodup).2.2 task hmem task List.mem_cons_self rfl
    refine ⟨?_, h.accepted, h.nodup, ?_⟩
    · dsimp only
      rw [horder, List.append_assoc, List.singleton_append]
    · have hgive := h.handed.give (List.nodup_singleton task) (r := i) fun x hx =>
        List.mem_singleton.1 hx ▸ hfresh
      refine cast (congrArg (Handed _) (funext fun i' => ?_)) hgive
      by_cases hi : i' = i
      · subst hi
        simp
      · simp [hi]
  · exact h
  · refine ⟨h.order, h.accepted, h.nodup, cast (congrArg (Handed _) (funext fun i' => ?_)) h.handed⟩
    by_cases hi : i' = i
    · subst hi
      simp [workerGoes]
    · rw [workers_workerGoes_ne w hi]

theorem accepted_next {isRunning : Bool} {task : Addr} {pos : EventAddTaskAt} :
    (nextAddTask isRunning task pos = .setEvent ∨ nextAddTask isRunning task pos = .returned true) ↔
      pos = .pushBack ∨ pos = .setEvent ∨ pos = .returned true := by
  cases pos <;> simp [nextAddTask] <;> split_ifs <;> simp

theorem taken_addTask (h : Taken w) (k : Fin p) (releases : Option (Fin n)) :
    Taken (w.addTask k releases) := by
  obtain ⟨hlist, hpushed⟩ := lists_addTask w k releases
  have hremoved := (fields_addTask w k releases).2.2.2.1
  refine ⟨?_, fun k' => ?_, ?_, ?_⟩
  · rw [hpushed, hremoved, hlist, h.order, List.append_assoc]
  · rw [hpushed, List.mem_append, h.accepted, pos_addTask]
    by_cases hk : k' = k
    · subst hk
      rw [if_pos rfl, accepted_next]
      by_cases hpush : (w.addTasks k').pos = .pushBack <;> simp [hpush]
    · rw [if_neg hk]
      refine or_iff_left fun hmem => ?_
      split_ifs at hmem
      · exact hk (List.mem_singleton.1 hmem)
      · cases hmem
  · rw [hpushed]
    split_ifs with hpush
    · refine List.nodup_append.2 ⟨h.nodup, List.nodup_singleton _, fun x hx y hy hxy => ?_⟩
      have hmem := (h.accepted x).1 hx
      rw [hxy, List.mem_singleton.1 hy, hpush] at hmem
      simp at hmem
    · rw [List.append_nil]
      exact h.nodup
  · rw [hremoved]
    have hsame : (fun i => ((w.addTask k releases).workers i).handed) =
        fun i => (w.workers i).handed := funext (releases_addTask w k releases).handed
    rw [hsame]
    exact h.handed

theorem taken_exec {tasks : Fin p → Addr} {es : List (EventPoolStep n p s)}
    (hrun : Along step Can (start tasks) es) (hun : Unstopped (exec step (start tasks) es)) :
    Taken (exec step (start tasks) es) := by
  refine invariant (I := fun w => Unstopped w → Taken w) (fun w ev h hcan hun => ?_)
    (fun _ => taken_start tasks) hrun hun
  have hold := h (unstopped_of_step hun)
  cases ev with
  | addTask k releases => exact taken_addTask hold k releases
  | work i => exact taken_work hold i
  | stop j =>
    have hpos := hun j
    rw [step, pos_stop, if_pos rfl] at hpos
    rcases hat : (w.stops j).pos with _ | _ | _ | _ | _ | _ <;>
      simp [hat, ThreadPool.nextStop] at hpos
    rw [step, stop, hat]
    exact ⟨hold.order, hold.accepted, hold.nodup, hold.handed⟩

end Taken

section Drains

/-- How many steps the workers can make, with an `AddTask` that has pushed its task. -/
def left (w : EventPool n p s) : ℕ :=
  8 * w.taskList.length + (if w.autoReset then 4 else 0) + ∑ i, (w.workers i).pos.left +
    ∑ k, if (w.addTasks k).pos = .setEvent then 5 else 0

/-- Where the pool runs a worker comes nearer to waiting, or uses up an event. -/
theorem left_next {isEmpty autoReset : Bool} {pos : EventWorkerAt} (hpop : pos ≠ .popFront)
    (hwait : pos ≠ .waiting) (hend : pos ≠ .finished) :
    (pos.next true isEmpty autoReset false).left + (if autoReset && pos ≠ .wait then 4 else 0) <
      pos.left + if autoReset then 4 else 0 := by
  cases pos <;> revert hpop hwait hend <;> cases isEmpty <;> cases autoReset <;> decide

theorem Healthy.left_work (h : Healthy w) (hworks : w.Works (.work i)) :
    (w.work i).left < w.left := by
  have hsum := sum_add_of_ne (fun i' => ((w.work i).workers i').pos.left)
    (fun i' => (w.workers i').pos.left) i fun i' hi' => by rw [workers_work_ne w hi']
  obtain ⟨-, hadd, -⟩ := fields_work w i
  unfold left
  rw [hadd]
  rcases work_cases w i with ⟨task, rest, hpos, hlist, heq⟩ | ⟨hpos, hnil, -⟩ | ⟨hpos, heq⟩
  · have hrun : ((w.work i).workers i).pos.left = 7 := by
      rw [heq]
      simp [EventWorkerAt.left]
    have hlen : (w.work i).taskList.length + 1 = w.taskList.length := by
      rw [heq, hlist]
      rfl
    have hauto : (w.work i).autoReset = w.autoReset := by rw [heq]
    rw [hauto]
    omega
  · exact absurd hnil (h.excl.listed i (.inr hpos))
  · have hnext := @left_next w.taskList.isEmpty w.autoReset _ hpos hworks.1 hworks.2
    have hgoes : ((w.work i).workers i).pos.left =
        ((w.workers i).pos.next true w.taskList.isEmpty w.autoReset false).left := by
      rw [heq, pos_workerGoes, nextPos, h.running, h.manual]
    have hauto : (w.work i).autoReset = (w.autoReset && (w.workers i).pos ≠ .wait) := by
      rw [heq]
      rfl
    have hlist : (w.work i).taskList = w.taskList := by
      rw [heq]
      rfl
    rw [hauto, hlist]
    omega

theorem left_le (h : Mutual w) : w.left ≤ 8 * w.taskList.length + 7 * n + 9 := by
  have hsum := Finset.sum_le_card_nsmul Finset.univ (fun i => (w.workers i).pos.left) 7
    fun i _ => (w.workers i).pos.left_le
  rw [Finset.card_univ, Fintype.card_fin, smul_eq_mul] at hsum
  have hadd := sum_setEvent_le h 5
  have hauto : (if w.autoReset then 4 else 0) ≤ 4 := by split_ifs <;> omega
  unfold left
  omega

theorem left_addTask {k : Fin p} {releases : Option (Fin n)} (hcan : w.Can (.addTask k releases))
    (hset : (w.addTasks k).pos = .setEvent) : (w.addTask k releases).left < w.left := by
  have hlist := (lists_addTask w k releases).1
  rw [if_neg (by simp [hset]), List.append_nil] at hlist
  have hadd := sum_setEvent releases 5 hset
  unfold left
  rw [hlist]
  rcases releases with _ | i
  · have hworkers : (w.addTask k (none : Option (Fin n))).workers = w.workers := by
      rw [addTask, hset]
      rfl
    rw [hworkers]
    split_ifs <;> omega
  · have hwait : (w.workers i).pos = .waiting := hcan.2 hset
    have hworkers : (w.addTask k (some i)).workers =
        Function.update w.workers i { w.workers i with pos := .testEmpty } := by
      rw [addTask, hset]
      simp [released, hwait]
    have hauto : (w.addTask k (some i)).autoReset = w.autoReset := by
      simp [autoReset_addTask]
    have hsum := sum_add_of_ne (fun i' => ((w.addTask k (some i)).workers i').pos.left)
      (fun i' => (w.workers i').pos.left) i fun i' hi' => by
        rw [hworkers, Function.update_of_ne hi']
    have hleft : ((w.addTask k (some i)).workers i).pos.left = 4 := by
      rw [hworkers, Function.update_self]
      rfl
    rw [hauto]
    omega

/-- Where nothing can go on the list is empty, and a worker waits for the next task. -/
theorem Healthy.rest (h : Healthy w) (hadd : ∀ k, (w.addTasks k).pos ≠ .setEvent)
    (hstuck : ∀ i, ¬ (w.Can (.work i) ∧ w.Works (.work i))) :
    w.taskList = [] ∧ ∃ i, (w.workers i).pos = .waiting := by
  obtain ⟨i, hi, -⟩ := h.live
  have hwait := waiting_of_stuck hadd hstuck hi
  refine ⟨?_, i, hwait⟩
  by_contra hne
  rcases h.served hne with hauto | ⟨i', hi'⟩ | ⟨k, hk⟩
  · exact h.quiet hauto i hwait
  · have hwait' : (w.workers i').pos = .waiting := waiting_of_stuck hadd hstuck fun hend => by
      rw [hend] at hi'
      cases hi'
    rw [hwait'] at hi'
    cases hi'
  · exact hadd k hk

/-- While no `Stop` has cleared the list, never all workers have ended; and from where nothing is
added any more they make a bounded number of steps, and come to rest with the list empty and every
task that was accepted handed to one of them. -/
theorem events_drain (hn : 0 < n) {tasks : Fin p → Addr} {es ws : List (EventPoolStep n p s)}
    (hrun : Along step Can (start tasks) es) (hun : Unstopped (exec step (start tasks) es))
    (hwork : Along step (fun w ev => w.Can ev ∧ w.Works ev) (exec step (start tasks) es) ws) :
    let w := exec step (start tasks) es
    let w' := exec step (start tasks) (es ++ ws)
    (∃ i, (w.workers i).pos ≠ .finished) ∧ ws.length ≤ 8 * w.taskList.length + 7 * n + 9 ∧
      ((∀ k, (w'.addTasks k).pos ≠ .setEvent) →
        (∀ i, ¬ (w'.Can (.work i) ∧ w'.Works (.work i))) →
        w'.taskList = [] ∧ (∃ i, (w'.workers i).pos = .waiting) ∧
          ∀ k, (w'.addTasks k).pos = .returned true →
            OneTaker (fun i => (w'.workers i).handed) k) := by
  intro w w'
  have hboth := And.intro (healthy_exec hn hrun hun) (taken_exec hrun hun)
  have hkeep : ∀ (w : EventPool n p s) ev, Healthy w ∧ Taken w → w.Can ev ∧ w.Works ev →
      Healthy (w.step ev) ∧ Taken (w.step ev) := fun w ev h hev => by
    cases ev with
    | work i => exact ⟨healthy_work h.1 hev.1, taken_work h.2 i⟩
    | addTask k releases => exact ⟨healthy_addTask h.1 hev.1, taken_addTask h.2 k releases⟩
    | stop j => exact hev.2.elim
  have hless : ∀ (w : EventPool n p s) ev, Healthy w ∧ Taken w → w.Can ev ∧ w.Works ev →
      (w.step ev).left < w.left := fun w ev h hev => by
    cases ev with
    | work i => exact h.1.left_work hev.2
    | addTask k releases => exact left_addTask hev.1 hev.2
    | stop j => exact hev.2.elim
  refine ⟨?_, (length_le_of_decreasing left hkeep hless hboth hwork).trans (left_le hboth.1.excl),
    fun hadd hstuck => ?_⟩
  · obtain ⟨i, hi, -⟩ := hboth.1.live
    exact ⟨i, hi⟩
  · obtain ⟨hhealthy, htaken⟩ := invariant hkeep hboth hwork
    rw [← exec_append] at hhealthy htaken
    obtain ⟨hnil, hwait⟩ := hhealthy.rest hadd hstuck
    refine ⟨hnil, hwait, fun k hk => htaken.handed.one k ?_⟩
    have horder := htaken.order
    rw [hnil, List.append_nil] at horder
    rw [← horder]
    exact (htaken.accepted k).2 (.inr hk)

open ThreadPool (aTask nth)

/-- A second worker has seen the task that the first one takes, and ends. -/
theorem events_drain_two :
    let es : List (EventPoolStep 2 1 0) := List.flatten [works (nth 0) 5, works (nth 1) 2,
      [.addTask (nth 0) none, .addTask (nth 0) none, .addTask (nth 0) none,
        .addTask (nth 0) (some (nth 0))]]
    let ws := List.flatten [works (nth 1) 1, works (nth 0) 5, works (nth 1) 2, works (nth 0) 6]
    (exec step (start aTask) (es ++ ws)).taskList = [] ∧
      ((exec step (start aTask) (es ++ ws)).workers (nth 1)).pos = .finished := by
  intro es ws
  have hdrains := @events_drain 2 1 0 (by decide) aTask es ws (by decide +kernel)
    (by decide +kernel) (by decide +kernel)
  exact ⟨(hdrains.2.2 (by decide +kernel) (by decide +kernel)).1, by decide +kernel⟩

end Drains

end EventPool

end Elegance
