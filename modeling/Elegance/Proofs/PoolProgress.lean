import Elegance.Proofs.ThreadPool

/-!
# A running pool serves its list

A worker goes to wait only where it has found the list empty under the mutex, and every task pushed
wakes one that waits. So as long as the pool runs, either no worker waits or at least as many are
awake as there are tasks in the list (`waiting_or_served`), and once nothing more is added the
workers empty the list and come to rest (`drains`).
-/

namespace Elegance

open Machine

/-- How many steps a worker makes until it waits, but for those a task in the list adds. -/
def WorkerAt.left : WorkerAt → ℕ
  | .runTask => 6
  | .checkRunning => 5
  | .lock | .relock => 4
  | .testEmpty => 3
  | .testRunning | .checkEmpty => 2
  | .condWait | .recheckRunning => 1
  | .waiting | .popFront | .finished => 0

theorem WorkerAt.left_le (pos : WorkerAt) : pos.left ≤ 6 := by
  cases pos <;> simp [WorkerAt.left]

namespace ThreadPool

variable {n p s : ℕ} {w w' : ThreadPool n p s} {ev : PoolEvent n p s}

/-- The workers that do not wait. -/
def awake (w : ThreadPool n p s) : Finset (Fin n) :=
  Finset.univ.filter fun i => (w.workers i).pos ≠ .waiting

@[simp]
theorem mem_awake {i : Fin n} : i ∈ w.awake ↔ (w.workers i).pos ≠ .waiting := by
  simp [awake]

/-- No worker waits, or there is one awake for each task in the list. -/
def Served (w : ThreadPool n p s) : Prop :=
  (∀ i, (w.workers i).pos ≠ .waiting) ∨ w.taskList.length ≤ w.awake.card

theorem Served.of_subset (h : Served w) (hlist : w'.taskList = w.taskList)
    (hsub : w.awake ⊆ w'.awake) : Served w' := by
  refine h.imp (fun hnone i => ?_) fun hle => ?_
  · exact mem_awake.1 (hsub (mem_awake.2 (hnone i)))
  · rw [hlist]
    exact hle.trans (Finset.card_le_card hsub)

theorem Served.of_nil (h : w.taskList = []) : Served w :=
  .inr (by rw [h]; exact Nat.zero_le _)

/-- What a worker has found under the mutex still holds, and enough workers are awake. -/
structure Serving (w : ThreadPool n p s) : Prop where
  excl : Mutual w
  running : w.isRunning = true
  working : ∀ i, (w.workers i).pos ≠ .finished
  empty : ∀ i, (w.workers i).pos = .testRunning ∨ (w.workers i).pos = .condWait → w.taskList = []
  listed : ∀ i, (w.workers i).pos = .checkEmpty → w.taskList ≠ []
  served : Served w

theorem serving_start (tasks : Fin p → Addr) : Serving (start tasks : ThreadPool n p s) where
  excl := mutual_start tasks
  running := rfl
  working i hi := by cases hi
  empty i hi := by rcases hi with hi | hi <;> cases hi
  listed i hi := by cases hi
  served := .of_nil rfl

theorem Wakes.awake_subset (h : Wakes w w') : w.awake ⊆ w'.awake := by
  intro i hi
  rw [mem_awake] at hi ⊢
  rcases h i with heq | heq <;> rw [heq]
  · exact hi
  · exact woken_pos_ne _

/-- A step that wakes workers only, and leaves what one found under the mutex. -/
theorem Serving.wakes (h : Serving w) (hwakes : Wakes w w') (hmutual : Mutual w')
    (hrunning : w'.isRunning = true) (hempty : w.Locked → w.taskList = [] → w'.taskList = [])
    (hlisted : w.Locked → w.taskList ≠ [] → w'.taskList ≠ []) (hserved : Served w') :
    Serving w' := by
  refine ⟨hmutual, hrunning, fun i hi => h.working i (hwakes.pos_eq hi (by simp)), fun i hi => ?_,
    fun i hi => ?_, hserved⟩
  · have hold := hi.imp (hwakes.pos_eq · (by simp)) (hwakes.pos_eq · (by simp))
    refine hempty ⟨i, ?_⟩ (h.empty i hold)
    rcases hold with he | he <;> rw [he] <;> rfl
  · have hold := hwakes.pos_eq hi (by simp)
    exact hlisted ⟨i, by rw [hold]; rfl⟩ (h.listed i hold)

theorem served_addTask (h : Serving w) {k : Fin p} {wakes : Option (Fin n)}
    (hcan : w.Can (.addTask k wakes)) : Served (w.addTask k wakes) := by
  have hwakes := wakes_addTask w k wakes
  by_cases hpos : (w.addTasks k).pos = .pushBack
  · have hsignal := (hcan hpos).2
    have hlist := taskList_addTask w k wakes
    rw [if_pos hpos] at hlist
    rcases wakes with _ | i
    · refine .inl fun i hi => ?_
      exact hsignal i (hwakes.pos_eq hi (by simp))
    · have hwaits : (w.workers i).pos = .waiting := hsignal
      have hup : i ∈ (w.addTask k (some i)).awake := by
        rw [mem_awake, addTask, hpos]
        simpa using woken_pos_ne _
      have hle := h.served.resolve_left fun hnone => hnone i hwaits
      refine .inr ?_
      rw [hlist, List.length_append, List.length_singleton]
      have hinsert : insert i w.awake ⊆ (w.addTask k (some i)).awake :=
        Finset.insert_subset hup hwakes.awake_subset
      have hcard := Finset.card_le_card hinsert
      rw [Finset.card_insert_of_notMem (by simpa using hwaits)] at hcard
      omega
  · have hlist := taskList_addTask w k wakes
    rw [if_neg hpos] at hlist
    exact h.served.of_subset hlist hwakes.awake_subset

theorem serving_addTask (h : Serving w) {k : Fin p} {wakes : Option (Fin n)}
    (hcan : w.Can (.addTask k wakes)) : Serving (w.addTask k wakes) := by
  have hlist := taskList_addTask w k wakes
  refine h.wakes (wakes_addTask w k wakes) (mutual_step h.excl hcan)
    ((fields_addTask w k wakes).1.trans h.running) (fun hlocked hnil => ?_) (fun _ hne => ?_)
    (served_addTask h hcan)
  · rw [hlist, if_neg fun hpos => (hcan hpos).1 hlocked, hnil]
  · rw [hlist]
    split_ifs
    · simp
    · exact hne

theorem serving_stop (h : Serving w) {j : Fin s} (hcan : w.Can (.stop j))
    (hrunning : (w.stop j).isRunning = true) : Serving (w.stop j) := by
  have hlist := taskList_stop w j
  have hmutual : Mutual (w.step (.stop j)) := mutual_step h.excl hcan
  refine h.wakes (wakes_stop w j) hmutual hrunning
    (fun _ hnil => ?_) (fun hlocked hne => ?_) ?_
  · rw [hlist, hnil, ite_self]
  · rw [hlist, if_neg fun hpos => hcan.1 hpos hlocked]
    exact hne
  · by_cases hpos : (w.stops j).pos = .clearTasks
    · rw [if_pos hpos] at hlist
      exact .of_nil hlist
    · rw [if_neg hpos] at hlist
      exact h.served.of_subset hlist (wakes_stop w j).awake_subset

theorem serving_wake (h : Serving w) (i : Fin n) : Serving (w.step (.wake i)) :=
  h.wakes (wakes_wake w i) (mutual_step h.excl trivial) h.running (fun _ hnil => hnil)
    (fun _ hne => hne) (h.served.of_subset rfl (wakes_wake w i).awake_subset)

/-- Where a worker of a running pool goes from what it found. -/
theorem Serving.next (h : Serving w) (i : Fin n) :
    (w.workers i).pos.next w.isRunning w.taskList.isEmpty ≠ .finished ∧
      ((w.workers i).pos.next w.isRunning w.taskList.isEmpty = .waiting →
        (w.workers i).pos = .waiting ∨ w.taskList = []) ∧
      ((w.workers i).pos.next w.isRunning w.taskList.isEmpty = .testRunning ∨
        (w.workers i).pos.next w.isRunning w.taskList.isEmpty = .condWait → w.taskList = []) ∧
      ((w.workers i).pos.next w.isRunning w.taskList.isEmpty = .checkEmpty → w.taskList ≠ []) := by
  have hworking := h.working i
  have hempty := h.empty i
  have hlisted := h.listed i
  have hnil := List.isEmpty_iff (l := w.taskList)
  rw [h.running]
  by_cases hlist : w.taskList = [] <;>
    rcases hpos : (w.workers i).pos with _ | _ | _ | _ | _ | _ | _ | _ | _ | _ | _ | _ <;>
      simp_all [WorkerAt.next]

theorem serving_work (h : Serving w) {i : Fin n} (hcan : w.Can (.work i)) :
    Serving (w.work i) := by
  obtain ⟨hfinished, hwaiting, hempty, hlisted⟩ := h.next i
  have hrunning : (w.work i).isRunning = true := (fields_work w i).1.trans h.running
  have hmutual : Mutual (w.step (.work i)) := mutual_step h.excl hcan
  rcases work_cases w i with ⟨task, rest, hpos, hlist, heq⟩ | ⟨-, -, heq⟩ | ⟨hpos, heq⟩
  · -- the worker holds the mutex, so no other has found anything
    have halone : ∀ i', ((w.work i).workers i').pos.holds = true → False := fun i' hi' => by
      rw [heq] at hi'
      dsimp only at hi'
      by_cases hi : i' = i
      · rw [hi, Function.update_self] at hi'
        cases hi'
      · rw [Function.update_of_ne hi] at hi'
        exact hi (h.excl.excl i' i hi' (by rw [hpos]; rfl))
    refine ⟨hmutual, hrunning, fun i' hi' => ?_, fun i' hi' => ?_, fun i' hi' => ?_, ?_⟩
    · rcases pos_work w i i' with hsame | ⟨rfl, hsame⟩ <;> rw [hsame] at hi'
      · exact h.working i' hi'
      · exact hfinished hi'
    · exact (halone i' (by rcases hi' with he | he <;> rw [he] <;> rfl)).elim
    · exact (halone i' (by rw [hi']; rfl)).elim
    · have hsub : w.awake ⊆ (w.work i).awake := fun i' hi' => by
        rw [mem_awake] at hi' ⊢
        rw [heq]
        by_cases hi : i' = i
        · simp [hi]
        · simpa [hi] using hi'
      refine h.served.imp (fun hnone i' => mem_awake.1 (hsub (mem_awake.2 (hnone i')))) fun hle => ?_
      have hcard := Finset.card_le_card hsub
      have hlen : (w.work i).taskList.length + 1 = w.taskList.length := by
        rw [heq, hlist]
        rfl
      omega
  · rwa [heq]
  · have hlist : (w.work i).taskList = w.taskList := by
      rw [heq]
      rfl
    refine ⟨hmutual, hrunning, fun i' hi' => ?_, fun i' hi' => ?_, fun i' hi' => ?_, ?_⟩
    · rcases pos_work w i i' with hsame | ⟨rfl, hsame⟩ <;> rw [hsame] at hi'
      · exact h.working i' hi'
      · exact hfinished hi'
    · rw [hlist]
      rcases pos_work w i i' with hsame | ⟨rfl, hsame⟩ <;> rw [hsame] at hi'
      · exact h.empty i' hi'
      · exact hempty hi'
    · rw [hlist]
      rcases pos_work w i i' with hsame | ⟨rfl, hsame⟩ <;> rw [hsame] at hi'
      · exact h.listed i' hi'
      · exact hlisted hi'
    · by_cases hnil : w.taskList = []
      · exact .of_nil (hlist.trans hnil)
      · refine h.served.of_subset hlist fun i' hi' => ?_
        rw [mem_awake] at hi' ⊢
        intro hi''
        rcases pos_work w i i' with hsame | ⟨rfl, hsame⟩ <;> rw [hsame] at hi''
        · exact hi' hi''
        · exact (hwaiting hi'').elim hi' hnil

theorem serving_step (h : Serving w) (hcan : w.Can ev) (hrunning : (w.step ev).isRunning = true) :
    Serving (w.step ev) := by
  cases ev with
  | addTask k wakes => exact serving_addTask h hcan
  | work i => exact serving_work h hcan
  | stop j => exact serving_stop h hcan hrunning
  | wake i => exact serving_wake h i

theorem isRunning_of_step (h : (w.step ev).isRunning = true) : w.isRunning = true := by
  cases ev with
  | addTask k wakes => exact (fields_addTask w k wakes).1.symm.trans h
  | work i => exact (fields_work w i).1.symm.trans h
  | stop j =>
    have hstop := isRunning_stop w j
    rw [show (w.stop j).isRunning = true from h, eq_comm, Bool.and_eq_true] at hstop
    exact hstop.1
  | wake i => exact h

theorem serving_exec {tasks : Fin p → Addr} {es : List (PoolEvent n p s)}
    (hrun : Along step Can (start tasks) es)
    (hrunning : (exec step (start tasks) es).isRunning = true) :
    Serving (exec step (start tasks) es) :=
  invariant (I := fun w => w.isRunning = true → Serving w)
    (fun _ _ h hcan hrunning => serving_step (h (isRunning_of_step hrunning)) hcan hrunning)
    (fun _ => serving_start tasks) hrun hrunning

/-- While the pool runs, a worker waits only if as many workers are awake as there are tasks in the
list. -/
theorem waiting_or_served {tasks : Fin p → Addr} {es : List (PoolEvent n p s)}
    (hrun : Along step Can (start tasks) es)
    (hrunning : (exec step (start tasks) es).isRunning = true) :
    (∀ i, ((exec step (start tasks) es).workers i).pos ≠ .waiting) ∨
      (exec step (start tasks) es).taskList.length ≤ (exec step (start tasks) es).awake.card :=
  (serving_exec hrun hrunning).served

/-- Three workers, two of them awake for the two tasks in the list. -/
theorem waiting_or_served_three :
    let es : List (PoolEvent 3 2 0) := List.flatten [works (nth 0) 5, works (nth 1) 5,
      works (nth 2) 5, [.addTask (nth 0) none, .addTask (nth 0) none, .addTask (nth 0) (some (nth 1)),
        .addTask (nth 1) none, .addTask (nth 1) none, .addTask (nth 1) (some (nth 2))]]
    2 ≤ (exec step (start aTask) es).awake.card := by
  intro es
  exact (@waiting_or_served 3 2 0 aTask es (by decide +kernel)
    (by decide +kernel)).resolve_left (by decide +kernel)

section Drains

/-- A worker that does not wait makes a step. -/
def Works (w : ThreadPool n p s) : PoolEvent n p s → Prop
  | .work i => (w.workers i).pos ≠ .waiting
  | .addTask _ _ | .stop _ | .wake _ => False

instance (w : ThreadPool n p s) : ∀ ev, Decidable (w.Works ev)
  | .work _ => inferInstanceAs (Decidable (_ ≠ _))
  | .addTask _ _ | .stop _ | .wake _ => .isFalse id

/-- How many steps the workers can make. -/
def left (w : ThreadPool n p s) : ℕ := 7 * w.taskList.length + ∑ i, (w.workers i).pos.left

theorem left_le (w : ThreadPool n p s) : w.left ≤ 7 * w.taskList.length + 6 * n := by
  have hsum := Finset.sum_le_card_nsmul Finset.univ (fun i => (w.workers i).pos.left) 6
    fun i _ => (w.workers i).pos.left_le
  rw [Finset.card_univ, Fintype.card_fin, smul_eq_mul] at hsum
  unfold left
  omega

theorem Serving.left_next (h : Serving w) {i : Fin n} (hpop : (w.workers i).pos ≠ .popFront)
    (hwait : (w.workers i).pos ≠ .waiting) :
    ((w.workers i).pos.next w.isRunning w.taskList.isEmpty).left < (w.workers i).pos.left := by
  have hworking := h.working i
  have hlisted := h.listed i
  rw [h.running]
  by_cases hlist : w.taskList = [] <;>
    rcases hpos : (w.workers i).pos with _ | _ | _ | _ | _ | _ | _ | _ | _ | _ | _ | _ <;>
      simp_all [WorkerAt.next, WorkerAt.left]

theorem Serving.left_work (h : Serving w) {i : Fin n} (hwait : (w.workers i).pos ≠ .waiting) :
    (w.work i).left < w.left := by
  have hrest : ∑ i' ∈ Finset.univ.erase i, ((w.work i).workers i').pos.left =
      ∑ i' ∈ Finset.univ.erase i, (w.workers i').pos.left := by
    refine Finset.sum_congr rfl fun i' hi' => ?_
    rcases pos_work w i i' with hsame | ⟨hi, -⟩
    · rw [hsame]
    · exact absurd hi (Finset.ne_of_mem_erase hi')
  have hnew := Finset.add_sum_erase Finset.univ
    (fun i' => ((w.work i).workers i').pos.left) (Finset.mem_univ i)
  have hold := Finset.add_sum_erase Finset.univ (fun i' => (w.workers i').pos.left)
    (Finset.mem_univ i)
  unfold left
  rw [← hnew, ← hold, hrest]
  rcases work_cases w i with ⟨task, rest, hpos, hlist, heq⟩ | ⟨hpos, hnil, -⟩ | ⟨hpos, heq⟩
  · have hleft : ((w.work i).workers i).pos.left = 6 := by
      rw [heq]
      simp [WorkerAt.left]
    have hlen : (w.work i).taskList.length + 1 = w.taskList.length := by
      rw [heq, hlist]
      rfl
    omega
  · exact absurd hnil (h.excl.listed i (.inr hpos))
  · have hleft : ((w.work i).workers i).pos.left < (w.workers i).pos.left := by
      rw [heq]
      simpa [workerGoes] using h.left_next hpos hwait
    have hlen : (w.work i).taskList = w.taskList := by
      rw [heq]
      rfl
    rw [hlen]
    omega

/-- Where no worker can make a step, all wait, and the list is empty. -/
theorem Serving.rest (h : Serving w) (hn : 0 < n)
    (hstuck : ∀ i, ¬ (w.Can (.work i) ∧ w.Works (.work i))) :
    w.taskList = [] ∧ ∀ i, (w.workers i).pos = .waiting := by
  have hfree : ¬ w.Locked := fun ⟨i, hi⟩ => by
    refine hstuck i ⟨fun hlock => ?_, fun hwait => ?_⟩
    · rcases hlock with he | he <;> rw [he] at hi <;> cases hi
    · rw [hwait] at hi
      cases hi
  have hwait : ∀ i, (w.workers i).pos = .waiting := fun i => by
    by_contra hne
    exact hstuck i ⟨fun _ => hfree, hne⟩
  refine ⟨?_, hwait⟩
  rcases h.served with hnone | hle
  · exact absurd (hwait ⟨0, hn⟩) (hnone ⟨0, hn⟩)
  · have hawake : w.awake = ∅ := by
      ext i
      simp [hwait i]
    rw [hawake, Finset.card_empty, Nat.le_zero] at hle
    exact List.length_eq_zero_iff.1 hle

/-- From where nothing is added any more the workers make a bounded number of steps, and come to
rest with the list empty. -/
theorem drains (hn : 0 < n) {tasks : Fin p → Addr} {es ws : List (PoolEvent n p s)}
    (hrun : Along step Can (start tasks) es)
    (hrunning : (exec step (start tasks) es).isRunning = true)
    (hwork : Along step (fun w ev => w.Can ev ∧ w.Works ev) (exec step (start tasks) es) ws) :
    ws.length ≤ 7 * (exec step (start tasks) es).taskList.length + 6 * n ∧
      ((∀ i, ¬ ((exec step (start tasks) (es ++ ws)).Can (.work i) ∧
          (exec step (start tasks) (es ++ ws)).Works (.work i))) →
        (exec step (start tasks) (es ++ ws)).taskList = [] ∧
          ∀ i, ((exec step (start tasks) (es ++ ws)).workers i).pos = .waiting) := by
  have hserving := serving_exec hrun hrunning
  have hkeep : ∀ (w : ThreadPool n p s) ev, Serving w → w.Can ev ∧ w.Works ev →
      Serving (w.step ev) := fun w ev h hev => by
    cases ev with
    | work i => exact serving_work h hev.1
    | addTask k wakes => exact hev.2.elim
    | stop j => exact hev.2.elim
    | wake i => exact hev.2.elim
  have hless : ∀ (w : ThreadPool n p s) ev, Serving w → w.Can ev ∧ w.Works ev →
      (w.step ev).left < w.left := fun w ev h hev => by
    cases ev with
    | work i => exact h.left_work hev.2
    | addTask k wakes => exact hev.2.elim
    | stop j => exact hev.2.elim
    | wake i => exact hev.2.elim
  refine ⟨(length_le_of_decreasing left hkeep hless hserving hwork).trans (left_le _), ?_⟩
  rw [exec_append]
  exact (invariant hkeep hserving hwork).rest hn

/-- One worker, and a task pushed while it waits. -/
theorem drains_one :
    let es : List (PoolEvent 1 1 0) := List.flatten [works (nth 0) 5,
      [.addTask (nth 0) none, .addTask (nth 0) none, .addTask (nth 0) (some (nth 0))]]
    (exec step (start aTask) (es ++ works (nth 0) 11)).taskList = [] :=
  ((drains (by decide) (by decide +kernel) (by decide +kernel) (by decide +kernel)).2
    (by decide +kernel)).1

end Drains

end ThreadPool

end Elegance
