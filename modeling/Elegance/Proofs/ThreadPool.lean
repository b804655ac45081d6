import Elegance.ThreadPool

/-!
# What a run of the pool keeps

The mutex has one holder, and what leaves the list goes to one worker or to one `Stop`
(`pool_order`). A task that is pushed when no `Stop` will clear the list any more is lost
(`tasks_settled_iff`), and so is the broadcast to a worker that was about to wait
(`none_waiting_after_broadcast`).
-/

namespace Elegance

open Machine Handover

namespace ThreadPool

variable {n p s : ℕ} {w w' : ThreadPool n p s} {ev : PoolEvent n p s}

section Woken

variable (c : PoolWorker (Fin p))

theorem handed_woken : (woken c).handed = c.handed := by
  unfold woken
  split <;> rfl

theorem pos_woken : (woken c).pos = c.pos ∨ c.pos = .waiting ∧ (woken c).pos = .relock := by
  unfold woken
  split
  · next h => exact .inr ⟨h, rfl⟩
  · exact .inl rfl

theorem woken_pos_ne : (woken c).pos ≠ .waiting := by
  unfold woken
  split
  · simp
  · assumption

/-- A woken worker is at a position of its own only if it waited. -/
theorem woken_pos_eq {pos : WorkerAt} (h : (woken c).pos = pos) (hpos : pos ≠ .relock) :
    c.pos = pos := by
  rcases pos_woken c with heq | ⟨-, heq⟩
  · rw [← heq, h]
  · exact absurd (h.symm.trans heq) hpos

end Woken

/-- Workers only go on waiting for the mutex. -/
def Wakes (w w' : ThreadPool n p s) : Prop :=
  ∀ i, w'.workers i = w.workers i ∨ w'.workers i = woken (w.workers i)

theorem Wakes.pos_eq (h : Wakes w w') {i : Fin n} {pos : WorkerAt}
    (hi : (w'.workers i).pos = pos) (hpos : pos ≠ .relock) : (w.workers i).pos = pos := by
  rcases h i with heq | heq <;> rw [heq] at hi
  · exact hi
  · exact woken_pos_eq _ hi hpos

theorem Wakes.holds (h : Wakes w w') {i : Fin n} (hi : (w'.workers i).pos.holds = true) :
    (w.workers i).pos.holds = true := by
  rw [h.pos_eq rfl fun he => by rw [he] at hi; cases hi]
  exact hi

theorem Wakes.handed (h : Wakes w w') (i : Fin n) :
    (w'.workers i).handed = (w.workers i).handed := by
  rcases h i with heq | heq <;> rw [heq]
  exact handed_woken _

theorem Wakes.refl (h : w'.workers = w.workers) : Wakes w w' :=
  fun i => .inl (congrFun h i)

/-- What a step of a worker does: it takes a task from the list, or only goes on. -/
theorem work_cases (w : ThreadPool n p s) (i : Fin n) :
    (∃ task rest, (w.workers i).pos = .popFront ∧ w.taskList = task :: rest ∧
      w.work i = { w with
        taskList := rest
        removed := w.removed ++ [task]
        workers := Function.update w.workers i
          { pos := .runTask, handed := (w.workers i).handed ++ [task] } }) ∨
    ((w.workers i).pos = .popFront ∧ w.taskList = [] ∧ w.work i = w) ∨
    ((w.workers i).pos ≠ .popFront ∧
      w.work i = w.workerGoes i ((w.workers i).pos.next w.isRunning w.taskList.isEmpty)) := by
  unfold work
  split
  · next task rest hpos hlist => exact .inl ⟨task, rest, hpos, hlist, rfl⟩
  · next hpos hlist => exact .inr (.inl ⟨hpos, hlist, rfl⟩)
  · next hpop hnil =>
    refine .inr (.inr ⟨fun hpos => ?_, rfl⟩)
    rcases hlist : w.taskList with _ | ⟨task, rest⟩
    · exact hnil hpos hlist
    · exact hpop task rest hpos hlist

theorem wakes_addTask (w : ThreadPool n p s) (k : Fin p) (wakes : Option (Fin n)) :
    Wakes w (w.addTask k wakes) := by
  unfold addTask
  split
  case h_3 =>
    intro i
    dsimp only
    split
    · exact .inr rfl
    · exact .inl rfl
  all_goals exact .refl rfl

theorem wakes_stop (w : ThreadPool n p s) (j : Fin s) : Wakes w (w.stop j) := by
  unfold stop
  split
  case h_4 => exact fun i => .inr rfl
  all_goals exact .refl rfl

theorem wakes_wake (w : ThreadPool n p s) (i : Fin n) : Wakes w (w.step (.wake i)) := by
  intro i'
  by_cases hi : i' = i
  · subst hi
    exact .inr (Function.update_self _ _ _)
  · exact .inl (Function.update_of_ne hi _ _)

/-- The position a `Stop` goes on to. -/
def nextStop (isRunning : Bool) : StopAt → StopAt
  | .checkRunning => if isRunning then .clearTasks else .returned
  | .clearTasks => .clearRunning
  | .clearRunning => .broadcast
  | .broadcast => .join
  | .join => .returned
  | .returned => .returned

theorem pos_stop (w : ThreadPool n p s) (j j' : Fin s) : ((w.stop j).stops j').pos =
    if j' = j then nextStop w.isRunning (w.stops j).pos else (w.stops j').pos := by
  unfold stop
  by_cases hj : j' = j
  · subst hj
    split <;> next h => simp [stopGoes, nextStop, h]
  · split <;> simp [stopGoes, hj]

theorem isRunning_stop (w : ThreadPool n p s) (j : Fin s) :
    (w.stop j).isRunning = (w.isRunning && (w.stops j).pos ≠ .clearRunning) := by
  unfold stop
  split <;> next h => simp [stopGoes, h]

theorem fields_addTask (w : ThreadPool n p s) (k : Fin p) (wakes : Option (Fin n)) :
    (w.addTask k wakes).isRunning = w.isRunning ∧ (w.addTask k wakes).stops = w.stops ∧
      (w.addTask k wakes).hasBroadcast = w.hasBroadcast := by
  unfold addTask
  split <;> exact ⟨rfl, rfl, rfl⟩

theorem fields_work (w : ThreadPool n p s) (i : Fin n) :
    (w.work i).isRunning = w.isRunning ∧ (w.work i).stops = w.stops ∧
      (w.work i).hasBroadcast = w.hasBroadcast := by
  rcases work_cases w i with ⟨task, rest, -, -, heq⟩ | ⟨-, -, heq⟩ | ⟨-, heq⟩ <;> rw [heq] <;>
    exact ⟨rfl, rfl, rfl⟩

/-- A worker goes to its next position, and the others stay. -/
theorem pos_work (w : ThreadPool n p s) (i i' : Fin n) :
    ((w.work i).workers i').pos = (w.workers i').pos ∨ i' = i ∧ ((w.work i).workers i').pos =
      (w.workers i).pos.next w.isRunning w.taskList.isEmpty := by
  rcases work_cases w i with ⟨task, rest, hpos, -, heq⟩ | ⟨-, -, heq⟩ | ⟨-, heq⟩ <;> rw [heq]
  · by_cases hi : i' = i
    · subst hi
      right
      simp [hpos, WorkerAt.next]
    · left
      simp [hi]
  · exact .inl rfl
  · unfold workerGoes
    by_cases hi : i' = i
    · subst hi
      right
      simp
    · left
      simp [hi]

def aTask : Fin p → Addr := fun k => 16 * (k + 1)

/-- So many steps of one worker. -/
def works (i : Fin n) (count : ℕ) : List (PoolEvent n p s) := List.replicate count (.work i)

/-- The thread of a number. -/
def nth (i : ℕ) : Fin (n + 1) := ⟨i % (n + 1), Nat.mod_lt i n.succ_pos⟩

/-- Three workers wait, one of them runs the first task, and the second is deleted. -/
def oneLeft : List (PoolEvent 3 2 1) :=
  List.flatten [works (nth 0) 5, works (nth 1) 5, works (nth 2) 5,
    [.addTask (nth 0) none, .addTask (nth 0) none, .addTask (nth 0) (some (nth 1))],
    works (nth 1) 5,
    [.addTask (nth 1) none, .addTask (nth 1) none, .addTask (nth 1) (some (nth 0))],
    List.replicate 4 (.stop (nth 0)), works (nth 1) 2, works (nth 0) 4, works (nth 2) 4,
    [.stop (nth 0)]]

section Order

/-- What was pushed is what was removed and then what is in the list, and what was removed has been
handed to someone. -/
structure Fifo (w : ThreadPool n p s) : Prop where
  pushed : w.pushed = w.removed ++ w.taskList
  nodup : w.pushed.Nodup
  accepted : ∀ k, k ∈ w.pushed ↔ (w.addTasks k).pos = .returned true
  handed : Handed w.removed w.takes

theorem takes_eq (hworkers : ∀ i, (w'.workers i).handed = (w.workers i).handed)
    (hstops : ∀ j, (w'.stops j).deleted = (w.stops j).deleted) : w'.takes = w.takes := by
  funext r
  rcases r with i | j
  · exact hworkers i
  · exact hstops j

theorem fifo_start (tasks : Fin p → Addr) : Fifo (start tasks : ThreadPool n p s) where
  pushed := rfl
  nodup := .nil
  accepted k := by simp [start]
  handed := by
    have htakes : (start tasks : ThreadPool n p s).takes = fun _ => [] := by
      funext r
      rcases r with i | j <;> rfl
    rw [htakes]
    exact handed_nil

/-- A step that touches no list. -/
theorem Fifo.frame (h : Fifo w) (hpushed : w'.pushed = w.pushed) (hremoved : w'.removed = w.removed)
    (hlist : w'.taskList = w.taskList) (haccepted : w'.addTasks = w.addTasks)
    (hworkers : ∀ i, (w'.workers i).handed = (w.workers i).handed)
    (hstops : ∀ j, (w'.stops j).deleted = (w.stops j).deleted) : Fifo w' := by
  have htakes := takes_eq hworkers hstops
  constructor
  · rw [hpushed, hremoved, hlist]
    exact h.pushed
  · rw [hpushed]
    exact h.nodup
  · rw [hpushed, haccepted]
    exact h.accepted
  · rw [hremoved, htakes]
    exact h.handed

/-- An `AddTask` that does not push. -/
theorem Fifo.addTaskGoes (h : Fifo w) {k : Fin p} {pos : AddTaskAt}
    (hold : (w.addTasks k).pos ≠ .returned true) (hnew : pos ≠ .returned true) :
    Fifo (w.addTaskGoes k pos) := by
  refine ⟨h.pushed, h.nodup, fun k' => ?_, h.handed⟩
  refine (h.accepted k').trans ?_
  unfold ThreadPool.addTaskGoes
  by_cases hk : k' = k
  · subst hk
    simp [hold, hnew]
  · simp [hk]

theorem fifo_addTask (h : Fifo w) (k : Fin p) (wakes : Option (Fin n)) :
    Fifo (w.addTask k wakes) := by
  have hwakes := wakes_addTask w k wakes
  unfold addTask at hwakes ⊢
  split
  · next hpos =>
    refine h.addTaskGoes (by simp [hpos]) ?_
    split <;> simp
  · next hpos =>
    refine h.addTaskGoes (by simp [hpos]) ?_
    split <;> simp
  · next hpos =>
    rw [hpos] at hwakes
    have hfresh : k ∉ w.pushed := fun hmem => by
      rw [h.accepted, hpos] at hmem
      cases hmem
    constructor
    · dsimp only
      rw [h.pushed, List.append_assoc]
      rfl
    · exact List.nodup_append.2 ⟨h.nodup, List.nodup_singleton k, fun a ha b hb heq => by
        rw [heq, List.mem_singleton.1 hb] at ha
        exact hfresh ha⟩
    · intro k'
      rw [List.mem_append, List.mem_singleton, h.accepted]
      unfold ThreadPool.addTaskGoes
      by_cases hk : k' = k
      · subst hk
        simp
      · simp [hk]
    · rw [takes_eq (w := w) hwakes.handed fun _ => rfl]
      exact h.handed
  · exact h

theorem fifo_work (h : Fifo w) (i : Fin n) : Fifo (w.work i) := by
  rcases work_cases w i with ⟨task, rest, hpos, hlist, heq⟩ | ⟨-, -, heq⟩ | ⟨-, heq⟩ <;> rw [heq]
  · have hpushed := h.pushed
    have hnodup := h.nodup
    rw [hlist] at hpushed
    rw [hpushed] at hnodup
    have hfresh : task ∉ w.removed := fun hmem =>
      (List.nodup_append.1 hnodup).2.2 task hmem task (by simp) rfl
    refine ⟨by rw [hpushed]; simp, h.nodup, h.accepted, ?_⟩
    have hgive := h.handed.give (r := .inl i) (List.nodup_singleton task) (by simpa)
    refine (congrArg (Handed _) ?_).mpr hgive
    funext r
    rcases r with i' | j
    · by_cases hi : i' = i
      · subst hi
        simp [takes]
      · simp [takes, hi]
    · simp [takes]
  · exact h
  · refine h.frame rfl rfl rfl rfl (fun i' => ?_) fun _ => rfl
    unfold workerGoes
    by_cases hi : i' = i
    · subst hi
      simp
    · simp [hi]

theorem deleted_stopGoes (w : ThreadPool n p s) (j j' : Fin s) (pos : StopAt) :
    ((w.stopGoes j pos).stops j').deleted = (w.stops j').deleted := by
  unfold stopGoes
  by_cases hj : j' = j
  · subst hj
    simp
  · simp [hj]

theorem fifo_stop (h : Fifo w) (j : Fin s) : Fifo (w.stop j) := by
  unfold stop
  split
  case h_2 hpos =>
    have hnodup := h.nodup
    rw [h.pushed, List.nodup_append] at hnodup
    refine ⟨by simp [h.pushed], h.nodup, h.accepted, ?_⟩
    have hgive := h.handed.give (r := .inr j) hnodup.2.1 fun x hx hmem => hnodup.2.2 x hmem x hx rfl
    refine (congrArg (Handed _) ?_).mpr hgive
    funext r
    rcases r with i | j'
    · simp [takes]
    · by_cases hj : j' = j
      · subst hj
        simp [takes]
      · simp [takes, hj]
  case h_4 =>
    exact h.frame rfl rfl rfl rfl (fun i => handed_woken _) fun j' => deleted_stopGoes w j j' _
  case h_6 => exact h
  all_goals exact h.frame rfl rfl rfl rfl (fun _ => rfl) fun j' => deleted_stopGoes w j j' _

theorem fifo_step (h : Fifo w) : Fifo (w.step ev) := by
  cases ev with
  | addTask k wakes => exact fifo_addTask h k wakes
  | work i => exact fifo_work h i
  | stop j => exact fifo_stop h j
  | wake i => exact h.frame rfl rfl rfl rfl (wakes_wake w i).handed fun _ => rfl

theorem fifo_exec {tasks : Fin p → Addr} {es : List (PoolEvent n p s)}
    (hcan : Along step Can (start tasks) es) : Fifo (exec step (start tasks) es) :=
  invariant (fun _ _ h _ => fifo_step h) (fifo_start tasks) hcan

/-- Tasks leave the list in the order they were pushed in, each to one worker or to one `Stop`. -/
theorem pool_order {tasks : Fin p → Addr} {es : List (PoolEvent n p s)}
    (hcan : Along step Can (start tasks) es) :
    (exec step (start tasks) es).pushed =
        (exec step (start tasks) es).removed ++ (exec step (start tasks) es).taskList ∧
      ∀ k ∈ (exec step (start tasks) es).removed, OneTaker (exec step (start tasks) es).takes k :=
  have h := fifo_exec hcan
  ⟨h.pushed, h.handed.one⟩

theorem pool_order_oneLeft :
    (exec step (start aTask) oneLeft).pushed =
        (exec step (start aTask) oneLeft).removed ++ (exec step (start aTask) oneLeft).taskList ∧
      ∀ k ∈ (exec step (start aTask) oneLeft).removed,
        OneTaker (exec step (start aTask) oneLeft).takes k :=
  pool_order (by decide +kernel)

end Order

section Flags

/-- It has cleared `is_running_`, or found it cleared. -/
def cleared : StopAt → Bool
  | .broadcast | .join | .returned => true
  | _ => false

/-- It will wait for the workers. -/
def underway : StopAt → Bool
  | .broadcast | .join => true
  | _ => false

/-- `is_running_` stays cleared, and a `Stop` returns when the workers have finished. -/
structure Flags (w : ThreadPool n p s) : Prop where
  cleared : ∀ j, cleared (w.stops j).pos = true → w.isRunning = false
  sent : w.hasBroadcast = true → w.isRunning = false
  joined : w.isRunning = false →
    (∃ j, underway (w.stops j).pos = true) ∨ ∀ i, (w.workers i).pos = .finished

theorem Flags.of_workers (h : Flags w) (hrunning : w'.isRunning = w.isRunning)
    (hstops : w'.stops = w.stops) (hsent : w'.hasBroadcast = w.hasBroadcast)
    (hfinished : (∀ i, (w.workers i).pos = .finished) → ∀ i, (w'.workers i).pos = .finished) :
    Flags w' := by
  constructor
  · rw [hstops, hrunning]
    exact h.cleared
  · rw [hsent, hrunning]
    exact h.sent
  · rw [hstops, hrunning]
    exact fun hr => (h.joined hr).imp_right hfinished

theorem Wakes.finished (h : Wakes w w') (hw : ∀ i, (w.workers i).pos = .finished) (i : Fin n) :
    (w'.workers i).pos = .finished := by
  rcases h i with heq | heq
  · rw [heq, hw i]
  · rcases pos_woken (w.workers i) with hpos | ⟨hpos, -⟩
    · rw [heq, hpos, hw i]
    · rw [hw i] at hpos
      cases hpos

theorem flags_stop (h : Flags w) (j : Fin s) (hcan : w.Can (.stop j)) : Flags (w.stop j) := by
  have hrunning := isRunning_stop w j
  have hkeep : w.isRunning = false → (w.stop j).isRunning = false := fun hr => by
    rw [hrunning, hr, Bool.false_and]
  refine ⟨fun j' hj' => ?_, fun hb => ?_, fun hr => ?_⟩
  · rw [pos_stop] at hj'
    split_ifs at hj' with hj
    · have hold := h.cleared j
      rcases hr : w.isRunning with _ | _
      · exact hkeep hr
      · rw [hrunning]
        rcases hpos : (w.stops j).pos with _ | _ | _ | _ | _ | _ <;>
          simp_all [nextStop, ThreadPool.cleared]
    · exact hkeep (h.cleared j' hj')
  · by_cases hpos : (w.stops j).pos = .broadcast
    · exact hkeep (h.cleared j (by rw [hpos]; rfl))
    · refine hkeep (h.sent ?_)
      unfold stop at hb
      split at hb <;> first | exact hb | contradiction
  · by_cases hjoin : (w.stops j).pos = .join
    · exact .inr ((wakes_stop w j).finished (hcan.2 hjoin))
    by_cases hclear : (w.stops j).pos = .clearRunning
    · refine .inl ⟨j, ?_⟩
      rw [pos_stop, if_pos rfl, hclear]
      rfl
    have hold : w.isRunning = false := by simpa [hrunning, hclear] using hr
    refine (h.joined hold).imp ?_ (wakes_stop w j).finished
    rintro ⟨j', hj'⟩
    refine ⟨j', ?_⟩
    rw [pos_stop]
    split_ifs with hj
    · subst hj
      rcases hpos : (w.stops j').pos with _ | _ | _ | _ | _ | _ <;>
        simp_all [nextStop, underway]
    · exact hj'

theorem flags_step (h : Flags w) (hcan : w.Can ev) : Flags (w.step ev) := by
  cases ev with
  | addTask k wakes =>
    obtain ⟨hrunning, hstops, hsent⟩ := fields_addTask w k wakes
    exact h.of_workers hrunning hstops hsent (wakes_addTask w k wakes).finished
  | work i =>
    obtain ⟨hrunning, hstops, hsent⟩ := fields_work w i
    refine h.of_workers hrunning hstops hsent fun hw i' => ?_
    rcases pos_work w i i' with heq | ⟨-, heq⟩
    · exact heq.trans (hw i')
    · rw [step, heq, hw i]
      rfl
  | stop j => exact flags_stop h j hcan
  | wake i => exact h.of_workers rfl rfl rfl (wakes_wake w i).finished

theorem flags_start (tasks : Fin p → Addr) : Flags (start tasks : ThreadPool n p s) where
  cleared j hj := by cases hj
  sent hb := by cases hb
  joined hr := by cases hr

theorem flags_along {tasks : Fin p → Addr} {es : List (PoolEvent n p s)}
    (hcan : Along step Can (start tasks) es) :
    Along step (fun w ev => Can w ev ∧ Flags w) (start tasks) es :=
  along_invariant (fun _ _ h hev => flags_step h hev) (flags_start tasks) hcan

end Flags

section Broadcast

/-- After the broadcast no worker waits or is about to. -/
def Awake (w : ThreadPool n p s) : Prop :=
  w.hasBroadcast = true → ∀ i, (w.workers i).pos ≠ .condWait ∧ (w.workers i).pos ≠ .waiting

theorem Awake.wakes (h : Awake w) (hwakes : Wakes w w') (hsent : w'.hasBroadcast = w.hasBroadcast) :
    Awake w' := by
  intro hb i
  obtain ⟨hcond, hwait⟩ := h (hsent ▸ hb) i
  exact ⟨fun he => hcond (hwakes.pos_eq he (by simp)), fun he => hwait (hwakes.pos_eq he (by simp))⟩

theorem awake_work (h : Awake w) (hflags : Flags w) (i : Fin n) : Awake (w.work i) := by
  obtain ⟨-, -, hsent⟩ := fields_work w i
  intro hb i'
  rw [hsent] at hb
  rcases pos_work w i i' with heq | ⟨rfl, heq⟩
  · rw [heq]
    exact h hb i'
  · obtain ⟨hcond, hwait⟩ := h hb i'
    rw [heq, hflags.sent hb]
    rcases hpos : (w.workers i').pos with _ | _ | _ | _ | _ | _ | _ | _ | _ | _ | _ | _ <;>
      simp_all [WorkerAt.next] <;> split <;> simp

theorem awake_stop (h : Awake w) (j : Fin s) (hnone : w.NoneBetween (.stop j)) :
    Awake (w.stop j) := by
  by_cases hpos : (w.stops j).pos = .broadcast
  · have hnew : (w.stop j).workers = fun i => woken (w.workers i) := by
      unfold stop
      rw [hpos]
    intro _ i
    rw [hnew]
    exact ⟨fun he => hnone hpos i (woken_pos_eq _ he (by simp)), woken_pos_ne _⟩
  · refine h.wakes (wakes_stop w j) ?_
    unfold stop
    split <;> first | rfl | contradiction

theorem awake_step (h : Awake w) (hflags : Flags w) (hnone : w.NoneBetween ev) :
    Awake (w.step ev) := by
  cases ev with
  | addTask k wakes => exact h.wakes (wakes_addTask w k wakes) (fields_addTask w k wakes).2.2
  | work i => exact awake_work h hflags i
  | stop j => exact awake_stop h j hnone
  | wake i => exact h.wakes (wakes_wake w i) rfl

/-- No worker waits after the broadcast of a `Stop`, in a run in which none is on its way from the
test of `is_running_` to `pthread_cond_wait` at a broadcast. -/
theorem none_waiting_after_broadcast {tasks : Fin p → Addr} {es : List (PoolEvent n p s)}
    (hcan : Along step Can (start tasks) es) (hnone : Along step NoneBetween (start tasks) es)
    (hsent : (exec step (start tasks) es).hasBroadcast = true) (i : Fin n) :
    ((exec step (start tasks) es).workers i).pos ≠ .waiting := by
  have hawake : Awake (exec step (start tasks) es) := by
    refine invariant (I := Awake) ?_ (fun hb => by cases hb)
      ((along_and _ _).2 ⟨flags_along hcan, hnone⟩)
    rintro w ev h ⟨⟨-, hflags⟩, hev⟩
    exact awake_step h hflags hev
  exact (hawake hsent i).2

theorem none_waiting_after_broadcast_oneLeft :
    ((exec step (start aTask) oneLeft).workers 2).pos ≠ .waiting :=
  none_waiting_after_broadcast (by decide +kernel) (by decide +kernel) (by decide +kernel) 2

/-- The broadcast comes between the worker's test of `is_running_` and its wait. -/
def lateWait : List (PoolEvent 1 0 1) :=
  List.flatten [List.replicate 2 (.stop (nth 0)), works (nth 0) 4,
    List.replicate 2 (.stop (nth 0)), works (nth 0) 1]

theorem waiting_after_broadcast :
    ¬ ∀ es, Along step Can (start aTask : ThreadPool 1 0 1) es →
      (exec step (start aTask : ThreadPool 1 0 1) es).hasBroadcast = true →
      ∀ i, ((exec step (start aTask : ThreadPool 1 0 1) es).workers i).pos ≠ .waiting := by
  intro h
  exact h lateWait (by decide +kernel) (by decide +kernel) 0 (by decide +kernel)

end Broadcast

section Settled

/-- One worker holds the mutex, and one that has found the list not empty still has a task in it. -/
structure Mutual (w : ThreadPool n p s) : Prop where
  excl : ∀ i i', (w.workers i).pos.holds = true → (w.workers i').pos.holds = true → i = i'
  listed : ∀ i, (w.workers i).pos = .recheckRunning ∨ (w.workers i).pos = .popFront →
    w.taskList ≠ []

theorem mutual_start (tasks : Fin p → Addr) : Mutual (start tasks : ThreadPool n p s) where
  excl i i' hi := by cases hi
  listed i hi := by rcases hi with hi | hi <;> cases hi

theorem Mutual.wakes (h : Mutual w) (hwakes : Wakes w w')
    (hlist : w.Locked → w.taskList ≠ [] → w'.taskList ≠ []) : Mutual w' := by
  refine ⟨fun i i' hi hi' => h.excl i i' (hwakes.holds hi) (hwakes.holds hi'), fun i hi => ?_⟩
  have hold := hi.imp (hwakes.pos_eq · (by simp)) (hwakes.pos_eq · (by simp))
  refine hlist ⟨i, ?_⟩ (h.listed i hold)
  rcases hold with he | he <;> rw [he] <;> rfl

/-- A worker comes to hold the mutex by waiting for it. -/
theorem holds_next {isRunning isEmpty : Bool} {pos : WorkerAt}
    (h : (pos.next isRunning isEmpty).holds = true) :
    pos.holds = true ∨ pos = .lock ∨ pos = .relock := by
  rcases pos with _ | _ | _ | _ | _ | _ | _ | _ | _ | _ | _ | _ <;> revert h <;>
    cases isRunning <;> cases isEmpty <;> decide

theorem mutual_work (h : Mutual w) (i : Fin n) (hcan : w.Can (.work i)) : Mutual (w.work i) := by
  have hnew : ∀ i', ((w.work i).workers i').pos.holds = true →
      (w.workers i').pos.holds = true ∨ i' = i ∧ ¬ w.Locked := by
    intro i' hi'
    rcases pos_work w i i' with heq | ⟨rfl, heq⟩
    · exact .inl (heq ▸ hi')
    · rw [heq] at hi'
      exact (holds_next hi').imp_right fun hlock => ⟨rfl, hcan hlock⟩
  constructor
  · intro i₁ i₂ h₁ h₂
    rcases hnew i₁ h₁ with hold₁ | ⟨rfl, hfree⟩ <;> rcases hnew i₂ h₂ with hold₂ | ⟨rfl, hfree'⟩
    · exact h.excl i₁ i₂ hold₁ hold₂
    · exact absurd ⟨i₁, hold₁⟩ hfree'
    · exact absurd ⟨i₂, hold₂⟩ hfree
    · rfl
  · intro i' hi'
    rcases work_cases w i with ⟨task, rest, hpos, hlist, heq⟩ | ⟨-, -, heq⟩ | ⟨hpos, heq⟩ <;>
      rw [heq] at hi' ⊢
    · by_cases hi : i' = i
      · subst hi
        simp at hi'
      · dsimp only at hi'
        rw [Function.update_of_ne hi] at hi'
        refine absurd (h.excl i' i ?_ (by rw [hpos]; rfl)) hi
        rcases hi' with he | he <;> rw [he] <;> rfl
    · exact h.listed i' hi'
    · unfold workerGoes at hi'
      by_cases hi : i' = i
      · subst hi
        have hold := h.listed i'
        have hempty := List.isEmpty_iff (l := w.taskList)
        rcases hat : (w.workers i').pos with _ | _ | _ | _ | _ | _ | _ | _ | _ | _ | _ | _ <;>
          simp_all [WorkerAt.next, workerGoes] <;> split at hi' <;> simp_all
      · dsimp only at hi'
        rw [Function.update_of_ne hi] at hi'
        exact h.listed i' hi'

theorem taskList_addTask (w : ThreadPool n p s) (k : Fin p) (wakes : Option (Fin n)) :
    (w.addTask k wakes).taskList =
      if (w.addTasks k).pos = .pushBack then w.taskList ++ [k] else w.taskList := by
  unfold addTask
  split <;> next h => simp [h, addTaskGoes]

theorem taskList_stop (w : ThreadPool n p s) (j : Fin s) : (w.stop j).taskList =
    if (w.stops j).pos = .clearTasks then [] else w.taskList := by
  unfold stop
  split <;> next h => simp [h, stopGoes]

theorem mutual_step (h : Mutual w) (hcan : w.Can ev) : Mutual (w.step ev) := by
  cases ev with
  | addTask k wakes =>
    refine h.wakes (wakes_addTask w k wakes) fun _ hne => ?_
    rw [step, taskList_addTask]
    split_ifs
    · simp
    · exact hne
  | work i => exact mutual_work h i hcan
  | stop j =>
    refine h.wakes (wakes_stop w j) fun hlocked hne => ?_
    rw [step, taskList_stop, if_neg fun hpos => hcan.1 hpos hlocked]
    exact hne
  | wake i => exact h.wakes (wakes_wake w i) fun _ hne => hne

/-- What is left to take stays where the list and the worker at `pop_front` do. -/
theorem unclaimed_congr (hlist : w'.taskList = w.taskList)
    (hpop : ∀ i, (w'.workers i).pos = .popFront ↔ (w.workers i).pos = .popFront) :
    w'.unclaimed = w.unclaimed := by
  simp only [unclaimed, hlist, hpop]

theorem Wakes.popFront (h : Wakes w w') (i : Fin n) :
    (w'.workers i).pos = .popFront ↔ (w.workers i).pos = .popFront := by
  refine ⟨fun hi => h.pos_eq hi (by simp), fun hi => ?_⟩
  rcases h i with heq | heq
  · rw [heq, hi]
  · rcases pos_woken (w.workers i) with hpos | ⟨hpos, -⟩
    · rw [heq, hpos, hi]
    · rw [hi] at hpos
      cases hpos

/-- Once `is_running_` is cleared a worker takes nothing but the task it was about to. -/
theorem unclaimed_work (h : Mutual w) (hr : w.isRunning = false) (i : Fin n) :
    (w.work i).unclaimed = w.unclaimed := by
  rcases work_cases w i with ⟨task, rest, hpos, hlist, heq⟩ | ⟨-, -, heq⟩ | ⟨hpos, heq⟩ <;> rw [heq]
  · have hnone : ¬ ∃ i', (Function.update w.workers i
        { pos := .runTask, handed := (w.workers i).handed ++ [task] } i').pos = .popFront := by
      rintro ⟨i', hi'⟩
      by_cases hi : i' = i
      · subst hi
        simp at hi'
      · rw [Function.update_of_ne hi] at hi'
        exact hi (h.excl i' i (by rw [hi']; rfl) (by rw [hpos]; rfl))
    rw [unclaimed, unclaimed, if_neg hnone, if_pos ⟨i, hpos⟩, hlist, List.tail_cons]
  · refine unclaimed_congr rfl fun i' => ?_
    unfold workerGoes
    by_cases hi : i' = i
    · subst hi
      rw [hr]
      rcases hat : (w.workers i').pos with _ | _ | _ | _ | _ | _ | _ | _ | _ | _ | _ | _ <;>
        simp_all [WorkerAt.next] <;> split <;> simp
    · simp [hi]

/-- The mutex is free when a task is pushed, so that nobody is about to take it. -/
theorem unclaimed_pushBack {k : Fin p} {wakes : Option (Fin n)}
    (hpos : (w.addTasks k).pos = .pushBack) (hcan : w.Can (.addTask k wakes)) :
    (w.addTask k wakes).unclaimed ≠ [] := by
  have hnone : ¬ ∃ i, ((w.addTask k wakes).workers i).pos = .popFront := by
    rintro ⟨i, hi⟩
    refine (hcan hpos).1 ⟨i, ?_⟩
    rw [((wakes_addTask w k wakes).popFront i).1 hi]
    rfl
  rw [unclaimed, if_neg hnone, taskList_addTask, if_pos hpos]
  simp

theorem unclaimed_addTask {k : Fin p} {wakes : Option (Fin n)}
    (hpos : (w.addTasks k).pos ≠ .pushBack) : (w.addTask k wakes).unclaimed = w.unclaimed :=
  unclaimed_congr (by rw [taskList_addTask, if_neg hpos]) (wakes_addTask w k wakes).popFront

theorem unclaimed_wake (i : Fin n) : (w.step (.wake i)).unclaimed = w.unclaimed :=
  unclaimed_congr rfl (wakes_wake w i).popFront

theorem unclaimed_stop {j : Fin s} (hpos : (w.stops j).pos ≠ .clearTasks) :
    (w.stop j).unclaimed = w.unclaimed :=
  unclaimed_congr (by rw [taskList_stop, if_neg hpos]) (wakes_stop w j).popFront

theorem Clearing.of_stops (h : w.Clearing) (hstops : w'.stops = w.stops) : w'.Clearing := by
  rw [Clearing, hstops]
  exact h

theorem Clearing.stop (h : w.Clearing) {j : Fin s} (hpos : (w.stops j).pos ≠ .clearTasks) :
    (w.stop j).Clearing := by
  obtain ⟨j', hj'⟩ := h
  refine ⟨j', ?_⟩
  have hj : j' ≠ j := by
    rintro rfl
    exact hpos hj'
  rw [pos_stop, if_neg hj]
  exact hj'

/-- No `Stop` goes to clear the list once `is_running_` is cleared. -/
theorem clearing_of_stop {j : Fin s} (hr : w.isRunning = false ∨ (w.stops j).pos = .clearRunning)
    (h : (w.stop j).Clearing) : w.Clearing := by
  obtain ⟨j', hj'⟩ := h
  rw [pos_stop] at hj'
  split_ifs at hj'
  · exfalso
    rcases hpos : (w.stops j).pos with _ | _ | _ | _ | _ | _ <;> simp_all [nextStop]
  · exact ⟨j', hj'⟩

/-- What is in the list when `is_running_` is cleared will be taken or cleared. -/
structure Good (w : ThreadPool n p s) : Prop where
  fifo : Fifo w
  flags : Flags w
  mutex : Mutual w
  claimed : w.isRunning = false → w.Clearing ∨ w.unclaimed = []

/-- There is a task in the list that nobody will take. -/
structure Lost (w : ThreadPool n p s) : Prop where
  fifo : Fifo w
  flags : Flags w
  mutex : Mutual w
  stopping : w.isRunning = false
  notClearing : ¬ w.Clearing
  unclaimed : w.unclaimed ≠ []

theorem good_start (tasks : Fin p → Addr) : Good (start tasks : ThreadPool n p s) where
  fifo := fifo_start tasks
  flags := flags_start tasks
  mutex := mutual_start tasks
  claimed hr := by cases hr

theorem claimed_stop (h : Good w) {j : Fin s} (hkept : w.Kept (.stop j))
    (hr : (w.stop j).isRunning = false) : (w.stop j).Clearing ∨ (w.stop j).unclaimed = [] := by
  by_cases hpos : (w.stops j).pos = .clearTasks
  · right
    rw [unclaimed, taskList_stop, if_pos hpos]
    simp
  · have hold : w.Clearing ∨ w.unclaimed = [] := by
      by_cases hclear : (w.stops j).pos = .clearRunning
      · exact (hkept hclear).symm
      · refine h.claimed ?_
        simpa [isRunning_stop, hclear] using hr
    rw [unclaimed_stop hpos]
    exact hold.imp_left (Clearing.stop · hpos)

theorem good_step (h : Good w) (hcan : w.Can ev) (hkept : w.Kept ev) : Good (w.step ev) := by
  refine ⟨fifo_step h.fifo, flags_step h.flags hcan, mutual_step h.mutex hcan, fun hr => ?_⟩
  cases ev with
  | addTask k wakes =>
    obtain ⟨hrunning, hstops, -⟩ := fields_addTask w k wakes
    have hold : w.isRunning = false := hrunning.symm.trans hr
    by_cases hpos : (w.addTasks k).pos = .pushBack
    · rcases hkept hpos with hon | hclearing
      · rw [hold] at hon
        cases hon
      · exact .inl (hclearing.of_stops hstops)
    · rw [step, unclaimed_addTask hpos]
      exact (h.claimed hold).imp_left (Clearing.of_stops · hstops)
  | work i =>
    obtain ⟨hrunning, hstops, -⟩ := fields_work w i
    have hold : w.isRunning = false := hrunning.symm.trans hr
    rw [step, unclaimed_work h.mutex hold]
    exact (h.claimed hold).imp_left (Clearing.of_stops · hstops)
  | stop j => exact claimed_stop h hkept hr
  | wake i =>
    rw [unclaimed_wake]
    exact h.claimed hr

theorem lost_of_not_kept (h : Good w) (hcan : w.Can ev) (hkept : ¬ w.Kept ev) :
    Lost (w.step ev) := by
  have hfifo : Fifo (w.step ev) := fifo_step h.fifo
  have hflags := flags_step h.flags hcan
  have hmutex := mutual_step h.mutex hcan
  cases ev with
  | addTask k wakes =>
    obtain ⟨hrunning, hstops, -⟩ := fields_addTask w k wakes
    simp only [Kept, Classical.not_imp, not_or, Bool.not_eq_true] at hkept
    obtain ⟨hpos, hold, hclearing⟩ := hkept
    exact ⟨hfifo, hflags, hmutex, hrunning.trans hold, fun hc => hclearing (hc.of_stops hstops.symm),
      unclaimed_pushBack hpos hcan⟩
  | work i => exact absurd trivial hkept
  | stop j =>
    simp only [Kept, Classical.not_imp, not_or] at hkept
    obtain ⟨hpos, hunclaimed, hclearing⟩ := hkept
    refine ⟨hfifo, hflags, hmutex, ?_, fun hc => hclearing (clearing_of_stop (.inr hpos) hc), ?_⟩
    · simp [step, isRunning_stop, hpos]
    · rw [step, unclaimed_stop (by simp [hpos])]
      exact hunclaimed
  | wake i => exact absurd trivial hkept

theorem lost_step (h : Lost w) (hcan : w.Can ev) : Lost (w.step ev) := by
  have hfifo : Fifo (w.step ev) := fifo_step h.fifo
  have hflags := flags_step h.flags hcan
  have hmutex := mutual_step h.mutex hcan
  cases ev with
  | addTask k wakes =>
    obtain ⟨hrunning, hstops, -⟩ := fields_addTask w k wakes
    refine ⟨hfifo, hflags, hmutex, hrunning.trans h.stopping,
      fun hc => h.notClearing (hc.of_stops hstops.symm), ?_⟩
    by_cases hpos : (w.addTasks k).pos = .pushBack
    · exact unclaimed_pushBack hpos hcan
    · rw [step, unclaimed_addTask hpos]
      exact h.unclaimed
  | work i =>
    obtain ⟨hrunning, hstops, -⟩ := fields_work w i
    refine ⟨hfifo, hflags, hmutex, hrunning.trans h.stopping,
      fun hc => h.notClearing (hc.of_stops hstops.symm), ?_⟩
    rw [step, unclaimed_work h.mutex h.stopping]
    exact h.unclaimed
  | stop j =>
    have hpos : (w.stops j).pos ≠ .clearTasks := fun hpos => h.notClearing ⟨j, hpos⟩
    refine ⟨hfifo, hflags, hmutex, ?_,
      fun hc => h.notClearing (clearing_of_stop (.inl h.stopping) hc), ?_⟩
    · simp [step, isRunning_stop, h.stopping]
    · rw [step, unclaimed_stop hpos]
      exact h.unclaimed
  | wake i =>
    refine ⟨hfifo, hflags, hmutex, h.stopping, h.notClearing, ?_⟩
    rw [unclaimed_wake]
    exact h.unclaimed

/-- When the calls have returned nobody is about to do anything. -/
theorem Stopped.rest (h : w.Stopped) (hflags : Flags w) :
    w.isRunning = false ∧ ¬ w.Clearing ∧ w.unclaimed = w.taskList ∧ w.disposes = w.takes := by
  have hr : w.isRunning = false :=
    hflags.cleared ⟨0, h.stop⟩ (by rw [h.stops]; rfl)
  have hfinished : ∀ i, (w.workers i).pos = .finished := by
    refine (hflags.joined hr).resolve_left ?_
    rintro ⟨j, hj⟩
    rw [h.stops] at hj
    cases hj
  refine ⟨hr, ?_, ?_, ?_⟩
  · rintro ⟨j, hj⟩
    rw [h.stops] at hj
    cases hj
  · rw [unclaimed, if_neg]
    rintro ⟨i, hi⟩
    rw [hfinished i] at hi
    cases hi
  · funext r
    rcases r with i | j
    · simp [disposes, takes, PoolWorker.ran, hfinished i]
    · rfl

theorem Good.settled (h : Good w) (hstopped : w.Stopped) : w.Settled := by
  obtain ⟨hr, hclearing, hunclaimed, hdisposes⟩ := hstopped.rest h.flags
  have hempty : w.taskList = [] := hunclaimed ▸ (h.claimed hr).resolve_left hclearing
  intro k hk
  have hmem := (h.fifo.accepted k).2 hk
  rw [h.fifo.pushed, hempty, List.append_nil] at hmem
  rw [hdisposes]
  exact h.fifo.handed.one k hmem

theorem Lost.not_settled (h : Lost w) (hstopped : w.Stopped) : ¬ w.Settled := by
  obtain ⟨-, -, hunclaimed, hdisposes⟩ := hstopped.rest h.flags
  obtain ⟨k, hk⟩ := List.exists_mem_of_ne_nil _ (hunclaimed ▸ h.unclaimed)
  have hpushed : k ∈ w.pushed := by
    rw [h.fifo.pushed]
    exact List.mem_append_right _ hk
  have hnodup := h.fifo.nodup
  rw [h.fifo.pushed] at hnodup
  have hleft : k ∉ w.removed := fun hmem => (List.nodup_append.1 hnodup).2.2 k hmem k hk rfl
  intro hsettled
  have hone := hsettled k ((h.fifo.accepted k).1 hpushed)
  rw [hdisposes] at hone
  exact h.fifo.handed.not_oneTaker hleft hone

/-- When all the calls have returned, each accepted task was run by one worker or deleted by a `Stop`
exactly if none was pushed after the list had been cleared for the last time and left in it. -/
theorem tasks_settled_iff {tasks : Fin p → Addr} {es : List (PoolEvent n p s)}
    (hcan : Along step Can (start tasks) es) (hstopped : (exec step (start tasks) es).Stopped) :
    (exec step (start tasks) es).Settled ↔ Along step Kept (start tasks) es := by
  rcases along_or_broken (I := Good) (J := Lost) (fun _ _ h hc hk => good_step h hc hk)
    (fun _ _ h hc hk => lost_of_not_kept h hc hk) (fun _ _ h hc => lost_step h hc)
    (good_start tasks) hcan with ⟨hkept, hgood⟩ | ⟨hkept, hlost⟩
  · exact ⟨fun _ => hkept, fun _ => hgood.settled hstopped⟩
  · exact ⟨fun hs => absurd hs (hlost.not_settled hstopped), fun hk => absurd hk hkept⟩

theorem stopped_of_returned {w : ThreadPool n p s} (hs : 0 < s)
    (h : (∀ j, (w.stops j).pos = .returned) ∧
      ∀ k, (w.addTasks k).pos = .returned true ∨ (w.addTasks k).pos = .returned false) :
    w.Stopped :=
  ⟨hs, h.1, fun k => (h.2 k).elim (fun hk => ⟨_, hk⟩) fun hk => ⟨_, hk⟩⟩

theorem tasks_settled_oneLeft :
    (exec step (start aTask) oneLeft).Settled ↔ Along step Kept (start aTask) oneLeft :=
  tasks_settled_iff (by decide +kernel) (stopped_of_returned (by decide) (by decide +kernel))

/-- `AddTask` finds `is_running_` set, and pushes its task when the `Stop` has gone by. -/
def latePush : List (PoolEvent 1 1 1) :=
  List.flatten [List.replicate 2 (.addTask (nth 0) none), List.replicate 4 (.stop (nth 0)),
    works (nth 0) 1, [.stop (nth 0), .addTask (nth 0) none]]

theorem not_settled_latePush :
    ¬ ∀ es, Along step Can (start aTask : ThreadPool 1 1 1) es →
      (exec step (start aTask : ThreadPool 1 1 1) es).Stopped →
      (exec step (start aTask : ThreadPool 1 1 1) es).Settled := by
  intro h
  have hstopped : (exec step (start aTask) latePush).Stopped :=
    stopped_of_returned (by decide) (by decide +kernel)
  obtain ⟨r, hcount, -⟩ := h latePush (by decide +kernel) hstopped 0 (by decide +kernel)
  have hnone : ∀ r, ((exec step (start aTask) latePush).disposes r).count 0 = 0 := by
    rintro (i | j)
    · revert i
      decide +kernel
    · revert j
      decide +kernel
  rw [hnone r] at hcount
  cases hcount

end Settled

end ThreadPool

end Elegance
