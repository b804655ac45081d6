import Elegance.EventPool
import Elegance.Proofs.ThreadPool

/-!
# The steps of a pool that waits for events

What one step changes, who holds the mutex (`Mutual`), and where a worker stands that cannot go on
(`waiting_of_stuck`).
-/

namespace Elegance

namespace EventPool

variable {n p s : ℕ} {w w' : EventPool n p s} {ev : EventPoolStep n p s} {i i' : Fin n}

section Step

/-- The position a worker goes on to. -/
def nextPos (w : EventPool n p s) (i : Fin n) : EventWorkerAt :=
  (w.workers i).pos.next w.isRunning w.taskList.isEmpty w.autoReset w.manualReset

@[simp]
theorem pos_workerGoes (w : EventPool n p s) (i : Fin n) :
    ((w.workerGoes i).workers i).pos = w.nextPos i := by
  simp [workerGoes, nextPos]

theorem workers_workerGoes_ne (w : EventPool n p s) (h : i' ≠ i) :
    (w.workerGoes i).workers i' = w.workers i' := Function.update_of_ne h _ _

/-- What a step of a worker does: it takes a task from the list, or only goes on. -/
theorem work_cases (w : EventPool n p s) (i : Fin n) :
    (∃ task rest, (w.workers i).pos = .popFront ∧ w.taskList = task :: rest ∧
      w.work i = { w with
        taskList := rest
        removed := w.removed ++ [task]
        workers := Function.update w.workers i
          { pos := .runTask, handed := (w.workers i).handed ++ [task] } }) ∨
    ((w.workers i).pos = .popFront ∧ w.taskList = [] ∧ w.work i = w) ∨
    ((w.workers i).pos ≠ .popFront ∧ w.work i = w.workerGoes i) := by
  unfold work
  split
  · next task rest hpos hlist => exact .inl ⟨task, rest, hpos, hlist, rfl⟩
  · next hpos hlist => exact .inr (.inl ⟨hpos, hlist, rfl⟩)
  · next hpop hnil =>
    refine .inr (.inr ⟨fun hpos => ?_, rfl⟩)
    rcases hlist : w.taskList with _ | ⟨task, rest⟩
    · exact hnil hpos hlist
    · exact hpop task rest hpos hlist

/-- Another worker stays where it is. -/
theorem workers_work_ne (w : EventPool n p s) (h : i' ≠ i) :
    (w.work i).workers i' = w.workers i' := by
  rcases work_cases w i with ⟨task, rest, -, -, heq⟩ | ⟨-, -, heq⟩ | ⟨-, heq⟩ <;> rw [heq]
  · exact Function.update_of_ne h _ _
  · exact workers_workerGoes_ne w h

theorem fields_work (w : EventPool n p s) (i : Fin n) :
    (w.work i).isRunning = w.isRunning ∧ (w.work i).addTasks = w.addTasks ∧
      (w.work i).stops = w.stops ∧ (w.work i).pushed = w.pushed ∧ (w.work i).hasSet = w.hasSet := by
  rcases work_cases w i with ⟨task, rest, -, -, heq⟩ | ⟨-, -, heq⟩ | ⟨-, heq⟩ <;> rw [heq] <;>
    exact ⟨rfl, rfl, rfl, rfl, rfl⟩

/-- Workers that wait are released, and go on at `pos`. -/
def Releases (pos : EventWorkerAt) (w w' : EventPool n p s) : Prop :=
  ∀ i, w'.workers i = w.workers i ∨
    (w.workers i).pos = .waiting ∧ w'.workers i = { w.workers i with pos }

variable {pos : EventWorkerAt}

theorem Releases.refl (h : w'.workers = w.workers) : Releases pos w w' :=
  fun i => .inl (congrFun h i)

theorem Releases.handed (h : Releases pos w w') (i : Fin n) :
    (w'.workers i).handed = (w.workers i).handed := by
  rcases h i with heq | ⟨-, heq⟩ <;> rw [heq]

theorem Releases.pos_eq (h : Releases pos w w') {pos' : EventWorkerAt}
    (hi : (w'.workers i).pos = pos') (hpos : pos' ≠ pos) : (w.workers i).pos = pos' := by
  rcases h i with heq | ⟨-, heq⟩ <;> rw [heq] at hi
  · exact hi
  · exact absurd hi.symm hpos

theorem Releases.stays (h : Releases pos w w') (hi : (w.workers i).pos ≠ .waiting) :
    w'.workers i = w.workers i :=
  (h i).resolve_right fun ⟨hwait, _⟩ => hi hwait

theorem Releases.holds (h : Releases pos w w') (hpos : pos.holds = false)
    (hi : (w'.workers i).pos.holds = true) : (w.workers i).pos.holds = true := by
  rcases h i with heq | ⟨-, heq⟩ <;> rw [heq] at hi
  · exact hi
  · exact absurd hi (by simp [hpos])

theorem releases_released (c : EventWorker (Fin p)) :
    released pos c = c ∨ c.pos = .waiting ∧ released pos c = { c with pos } := by
  unfold released
  split
  · next h => exact .inr ⟨h, rfl⟩
  · exact .inl rfl

theorem releases_addTask (w : EventPool n p s) (k : Fin p) (releases : Option (Fin n)) :
    Releases .testEmpty w (w.addTask k releases) := by
  unfold addTask
  split
  case h_4 =>
    rcases releases with _ | j
    · exact .refl rfl
    · intro i
      by_cases hi : i = j
      · subst hi
        dsimp only
        rw [Function.update_self]
        exact releases_released _
      · exact .inl (Function.update_of_ne hi _ _)
  all_goals exact .refl rfl

theorem releases_stop (w : EventPool n p s) (j : Fin s) :
    Releases .resetManual w (w.stop j) := by
  unfold stop
  split
  case h_4 => exact fun i => releases_released _
  all_goals exact .refl rfl

/-- The position an `AddTask` goes on to. -/
def nextAddTask (isRunning : Bool) (task : Addr) : EventAddTaskAt → EventAddTaskAt
  | .checkTask => if task = 0 then .returned false else .checkRunning
  | .checkRunning => if isRunning then .pushBack else .returned false
  | .pushBack => .setEvent
  | .setEvent => .returned true
  | .returned result => .returned result

theorem pos_addTask (w : EventPool n p s) (k k' : Fin p) (releases : Option (Fin n)) :
    ((w.addTask k releases).addTasks k').pos =
      if k' = k then nextAddTask w.isRunning (w.addTasks k).task (w.addTasks k).pos
      else (w.addTasks k').pos := by
  unfold addTask
  by_cases hk : k' = k
  · subst hk
    split <;> next h => rcases releases with _ | i <;> simp [addTaskGoes, nextAddTask, h]
  · split <;> rcases releases with _ | i <;> simp [addTaskGoes, hk]

theorem fields_addTask (w : EventPool n p s) (k : Fin p) (releases : Option (Fin n)) :
    (w.addTask k releases).isRunning = w.isRunning ∧
      (w.addTask k releases).manualReset = w.manualReset ∧
      (w.addTask k releases).stops = w.stops ∧ (w.addTask k releases).removed = w.removed ∧
      (w.addTask k releases).hasSet = w.hasSet := by
  unfold addTask
  split <;> rcases releases with _ | i <;> exact ⟨rfl, rfl, rfl, rfl, rfl⟩

theorem lists_addTask (w : EventPool n p s) (k : Fin p) (releases : Option (Fin n)) :
    (w.addTask k releases).taskList =
        w.taskList ++ (if (w.addTasks k).pos = .pushBack then [k] else []) ∧
      (w.addTask k releases).pushed =
        w.pushed ++ (if (w.addTasks k).pos = .pushBack then [k] else []) := by
  unfold addTask
  split <;> next h => rcases releases with _ | i <;> simp [addTaskGoes, h]

theorem pos_stop (w : EventPool n p s) (j j' : Fin s) : ((w.stop j).stops j').pos =
    if j' = j then ThreadPool.nextStop w.isRunning (w.stops j).pos else (w.stops j').pos := by
  unfold stop
  by_cases hj : j' = j
  · subst hj
    split <;> next h => simp [stopGoes, ThreadPool.nextStop, h]
  · split <;> simp [stopGoes, hj]

end Step

section Mutual

/-- One thread holds the mutex, and a worker that is past its tests has a task to take. -/
structure Mutual (w : EventPool n p s) : Prop where
  excl : ∀ i i', (w.workers i).pos.holds = true → (w.workers i').pos.holds = true → i = i'
  apart : ∀ i k, (w.workers i).pos.holds = true → (w.addTasks k).pos ≠ .setEvent
  one : ∀ k k', (w.addTasks k).pos = .setEvent → (w.addTasks k').pos = .setEvent → k = k'
  listed : ∀ i, (w.workers i).pos = .recheckRunning ∨ (w.workers i).pos = .popFront →
    w.taskList ≠ []

theorem mutual_start (tasks : Fin p → Addr) : Mutual (start tasks : EventPool n p s) where
  excl i i' hi := by cases hi
  apart i k hi := by cases hi
  one k k' hk := by cases hk
  listed i hi := by rcases hi with hi | hi <;> cases hi

/-- A worker comes to hold the mutex by waiting for it. -/
theorem holds_next {isRunning isEmpty autoReset manualReset : Bool} {pos : EventWorkerAt}
    (h : (pos.next isRunning isEmpty autoReset manualReset).holds = true) :
    pos.holds = true ∨ pos = .relock := by
  cases pos <;> revert h <;> cases isRunning <;> cases isEmpty <;> cases autoReset <;>
    cases manualReset <;> decide

/-- It is past its tests where it found a task. -/
theorem listed_next {isRunning isEmpty autoReset manualReset : Bool} {pos : EventWorkerAt}
    (h : pos.next isRunning isEmpty autoReset manualReset = .recheckRunning ∨
      pos.next isRunning isEmpty autoReset manualReset = .popFront) :
    isEmpty = false ∨ pos = .recheckRunning := by
  cases pos <;> revert h <;> cases isRunning <;> cases isEmpty <;> cases autoReset <;>
    cases manualReset <;> decide

theorem mutual_work (h : Mutual w) (hcan : w.Can (.work i)) : Mutual (w.work i) := by
  have hadd : (w.work i).addTasks = w.addTasks := (fields_work w i).2.1
  have hnew : ∀ i', ((w.work i).workers i').pos.holds = true →
      (w.workers i').pos.holds = true ∨ i' = i ∧ ¬ w.Locked := fun i' hi' => by
    by_cases hi : i' = i
    · subst hi
      rcases work_cases w i' with ⟨task, rest, -, -, heq⟩ | ⟨-, -, heq⟩ | ⟨-, heq⟩ <;>
        rw [heq] at hi'
      · simp [EventWorkerAt.holds] at hi'
      · exact .inl hi'
      · rw [pos_workerGoes] at hi'
        exact (holds_next hi').imp_right fun hlock => ⟨rfl, hcan (.inr hlock)⟩
    · rw [workers_work_ne w hi] at hi'
      exact .inl hi'
  refine ⟨fun i₁ i₂ h₁ h₂ => ?_, fun i' k hi' => ?_, ?_, fun i' hi' => ?_⟩
  · rcases hnew i₁ h₁ with hold₁ | ⟨rfl, hfree⟩ <;> rcases hnew i₂ h₂ with hold₂ | ⟨rfl, hfree'⟩
    · exact h.excl i₁ i₂ hold₁ hold₂
    · exact absurd (.inl ⟨i₁, hold₁⟩) hfree'
    · exact absurd (.inl ⟨i₂, hold₂⟩) hfree
    · rfl
  · rw [hadd]
    rcases hnew i' hi' with hold | ⟨rfl, hfree⟩
    · exact h.apart i' k hold
    · exact fun hk => hfree (.inr ⟨k, hk⟩)
  · rw [hadd]
    exact h.one
  · rcases work_cases w i with ⟨task, rest, hpos, hlist, heq⟩ | ⟨-, -, heq⟩ | ⟨hpos, heq⟩ <;>
      rw [heq] at hi' ⊢
    · by_cases hi : i' = i
      · subst hi
        simp at hi'
      · dsimp only at hi'
        rw [Function.update_of_ne hi] at hi'
        refine absurd (h.excl i' i ?_ (by rw [hpos]; rfl)) hi
        rcases hi' with he | he <;> rw [he] <;> rfl
    · exact h.listed i' hi'
    · show w.taskList ≠ []
      by_cases hi : i' = i
      · subst hi
        rw [pos_workerGoes] at hi'
        rcases listed_next hi' with hempty | hrecheck
        · exact fun hnil => by simp [hnil] at hempty
        · exact h.listed i' (.inl hrecheck)
      · rw [workers_workerGoes_ne w hi] at hi'
        exact h.listed i' hi'

theorem nextAddTask_eq_setEvent {isRunning : Bool} {task : Addr} {pos : EventAddTaskAt}
    (h : nextAddTask isRunning task pos = .setEvent) : pos = .pushBack := by
  cases pos <;> simp [nextAddTask] at h ⊢ <;> split_ifs at h

theorem mutual_addTask (h : Mutual w) {k : Fin p} {releases : Option (Fin n)}
    (hcan : w.Can (.addTask k releases)) : Mutual (w.addTask k releases) := by
  have hreleases := releases_addTask w k releases
  have hnew : ∀ k', ((w.addTask k releases).addTasks k').pos = .setEvent →
      (w.addTasks k').pos = .setEvent ∨ k' = k ∧ ¬ w.Locked := fun k' hk' => by
    rw [pos_addTask] at hk'
    split_ifs at hk' with hk
    · exact .inr ⟨hk, hcan.1 (nextAddTask_eq_setEvent hk')⟩
    · exact .inl hk'
  refine ⟨fun i i' hi hi' => h.excl i i' (hreleases.holds rfl hi) (hreleases.holds rfl hi'),
    fun i k' hi hk' => ?_, fun k₁ k₂ h₁ h₂ => ?_, fun i hi => ?_⟩
  · rcases hnew k' hk' with hold | ⟨-, hfree⟩
    · exact h.apart i k' (hreleases.holds rfl hi) hold
    · exact hfree (.inl ⟨i, hreleases.holds rfl hi⟩)
  · rcases hnew k₁ h₁ with hold₁ | ⟨rfl, hfree⟩ <;> rcases hnew k₂ h₂ with hold₂ | ⟨rfl, hfree'⟩
    · exact h.one k₁ k₂ hold₁ hold₂
    · exact absurd (.inr ⟨k₁, hold₁⟩) hfree'
    · exact absurd (.inr ⟨k₂, hold₂⟩) hfree
    · rfl
  · rw [(lists_addTask w k releases).1]
    have hold := hi.imp (hreleases.pos_eq · (by simp)) (hreleases.pos_eq · (by simp))
    exact fun hnil => h.listed i hold (List.append_eq_nil_iff.1 hnil).1

theorem mutual_stop (h : Mutual w) {j : Fin s} (hcan : w.Can (.stop j)) : Mutual (w.stop j) := by
  have hreleases := releases_stop w j
  have hadd : (w.stop j).addTasks = w.addTasks := by
    unfold stop
    split <;> rfl
  have hlist : (w.stop j).taskList = if (w.stops j).pos = .clearTasks then [] else w.taskList := by
    unfold stop
    split <;> next h => simp [h, stopGoes]
  refine ⟨fun i i' hi hi' => h.excl i i' (hreleases.holds rfl hi) (hreleases.holds rfl hi'),
    fun i k hi => ?_, ?_, fun i hi => ?_⟩
  · rw [hadd]
    exact h.apart i k (hreleases.holds rfl hi)
  · rw [hadd]
    exact h.one
  · have hold := hi.imp (hreleases.pos_eq · (by simp)) (hreleases.pos_eq · (by simp))
    have hheld : (w.workers i).pos.holds = true := by rcases hold with he | he <;> rw [he] <;> rfl
    rw [hlist, if_neg fun hpos => hcan.1 hpos (.inl ⟨i, hheld⟩)]
    exact h.listed i hold

theorem mutual_step (h : Mutual w) (hcan : w.Can ev) : Mutual (w.step ev) := by
  cases ev with
  | addTask k releases => exact mutual_addTask h hcan
  | work i => exact mutual_work h hcan
  | stop j => exact mutual_stop h hcan

end Mutual

section Rest

theorem next_eq_waiting {isRunning isEmpty autoReset manualReset : Bool} {pos : EventWorkerAt}
    (h : pos.next isRunning isEmpty autoReset manualReset = .waiting) :
    pos = .waiting ∨ pos = .wait ∧ autoReset = false ∧ manualReset = false := by
  cases pos <;> revert h <;> cases isRunning <;> cases isEmpty <;> cases autoReset <;>
    cases manualReset <;> decide

/-- Two sums that differ in one place. -/
theorem sum_add_of_ne {m : ℕ} (f g : Fin m → ℕ) (a : Fin m) (h : ∀ b ≠ a, f b = g b) :
    ∑ b, f b + g a = ∑ b, g b + f a := by
  have hrest : ∑ b ∈ Finset.univ.erase a, f b = ∑ b ∈ Finset.univ.erase a, g b :=
    Finset.sum_congr rfl fun b hb => h b (Finset.ne_of_mem_erase hb)
  have hf := Finset.add_sum_erase Finset.univ f (Finset.mem_univ a)
  have hg := Finset.add_sum_erase Finset.univ g (Finset.mem_univ a)
  omega

/-- One `AddTask` less is about to set its event. -/
theorem sum_setEvent {k : Fin p} (releases : Option (Fin n)) (c : ℕ)
    (hset : (w.addTasks k).pos = .setEvent) :
    (∑ k', if ((w.addTask k releases).addTasks k').pos = .setEvent then c else 0) + c =
      ∑ k', if (w.addTasks k').pos = .setEvent then c else 0 := by
  have hsum := sum_add_of_ne
    (fun k' => if ((w.addTask k releases).addTasks k').pos = .setEvent then c else 0)
    (fun k' => if (w.addTasks k').pos = .setEvent then c else 0) k fun k' hk' => by
      rw [pos_addTask, if_neg hk']
  simpa [pos_addTask, hset, nextAddTask] using hsum

/-- At most one is. -/
theorem sum_setEvent_le (h : Mutual w) (c : ℕ) :
    (∑ k, if (w.addTasks k).pos = .setEvent then c else 0) ≤ c := by
  by_cases hset : ∃ k, (w.addTasks k).pos = .setEvent
  · obtain ⟨k, hk⟩ := hset
    rw [Finset.sum_eq_single k (fun k' _ hk' => if_neg fun hset => hk' (h.one k' k hset hk))
      fun hk' => absurd (Finset.mem_univ k) hk', if_pos hk]
  · rw [Finset.sum_eq_zero fun k _ => if_neg fun hk => hset ⟨k, hk⟩]
    exact Nat.zero_le _

/-- A worker that cannot go on waits or has ended. -/
theorem waiting_of_stuck (hadd : ∀ k, (w.addTasks k).pos ≠ .setEvent)
    (hstuck : ∀ i, ¬ (w.Can (.work i) ∧ w.Works (.work i))) (hend : (w.workers i).pos ≠ .finished) :
    (w.workers i).pos = .waiting := by
  have hfree : ¬ w.Locked := by
    rintro (⟨i, hi⟩ | ⟨k, hk⟩)
    · refine hstuck i ⟨fun hlock => ?_, fun hwait => ?_, fun hend => ?_⟩
      · rcases hlock with he | he <;> rw [he] at hi <;> cases hi
      · rw [hwait] at hi
        cases hi
      · rw [hend] at hi
        cases hi
    · exact hadd k hk
  by_contra hne
  exact hstuck i ⟨fun _ => hfree, hne, hend⟩

/-- So many steps of one worker. -/
def works (i : Fin n) (count : ℕ) : List (EventPoolStep n p s) := List.replicate count (.work i)

end Rest

end EventPool

end Elegance
