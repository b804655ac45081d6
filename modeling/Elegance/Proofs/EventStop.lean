import Elegance.Proofs.EventPool

/-!
# `Stop` of a pool that waits for events

Each worker that the manual-reset event wakes resets it, so another that is about to wait may miss
it. Where none does, the event reaches all of them and they end (`stop_heard`).
-/

namespace Elegance

open Machine

/-- How many steps a worker makes until it ends, once `is_running_` is cleared. -/
def EventWorkerAt.leftToEnd : EventWorkerAt → ℕ
  | .wait => 7
  | .lock | .resetManual => 6
  | .testEmpty => 5
  | .testRunning => 4
  | .relock | .popFront => 3
  | .checkEmpty | .runTask => 2
  | .checkRunning | .recheckRunning => 1
  | .waiting | .finished => 0

theorem EventWorkerAt.leftToEnd_le (pos : EventWorkerAt) : pos.leftToEnd ≤ 7 := by
  cases pos <;> simp [EventWorkerAt.leftToEnd]

namespace EventPool

variable {n p s : ℕ} {w w' : EventPool n p s} {ev : EventPoolStep n p s} {i i' : Fin n}

section Heard

/-- Once its event is set, a `Stop` finds no worker that waits, nor one that will. -/
structure Heard (w : EventPool n p s) : Prop where
  excl : Mutual w
  cleared : ∀ j, (w.stops j).pos = .broadcast → w.isRunning = false
  stopped : w.hasSet = true → w.isRunning = false
  awake : w.hasSet = true → ∀ i, (w.workers i).pos ≠ .waiting
  ahead : w.hasSet = true → w.manualReset = true ∨ ∀ i, (w.workers i).pos ≠ .wait

theorem heard_start (tasks : Fin p → Addr) : Heard (start tasks : EventPool n p s) where
  excl := mutual_start tasks
  cleared j hj := by cases hj
  stopped h := by cases h
  awake h := by cases h
  ahead h := by cases h

theorem heard_addTask (h : Heard w) {k : Fin p} {releases : Option (Fin n)}
    (hcan : w.Can (.addTask k releases)) : Heard (w.addTask k releases) := by
  have hreleases := releases_addTask w k releases
  obtain ⟨hrunning, hmanual, hstops, -, hset⟩ := fields_addTask w k releases
  refine ⟨mutual_addTask h.excl hcan, fun j hj => ?_, fun hs => ?_, fun hs i hi => ?_, fun hs => ?_⟩
  · rw [hrunning]
    rw [hstops] at hj
    exact h.cleared j hj
  · rw [hrunning]
    exact h.stopped (hset ▸ hs)
  · exact h.awake (hset ▸ hs) i (hreleases.pos_eq hi (by simp))
  · rw [hmanual]
    exact (h.ahead (hset ▸ hs)).imp_right fun hnone i hi =>
      hnone i (hreleases.pos_eq hi (by simp))

theorem next_ne_wait {isEmpty autoReset manualReset : Bool} (pos : EventWorkerAt) :
    pos.next false isEmpty autoReset manualReset ≠ .wait := by
  cases pos <;> cases isEmpty <;> cases autoReset <;> cases manualReset <;> decide

theorem heard_goes (h : Heard w) (hmutual : Mutual (w.workerGoes i))
    (harriving : w.NoneArriving (.work i)) : Heard (w.workerGoes i) := by
  refine ⟨hmutual, h.cleared, h.stopped, fun hs i' hi' => ?_, fun hs => ?_⟩
  · by_cases hi : i' = i
    · rw [hi, pos_workerGoes, nextPos] at hi'
      rcases next_eq_waiting hi' with hwait | ⟨hwait, -, hmanual⟩
      · exact h.awake hs i hwait
      · rcases h.ahead hs with hahead | hnone
        · rw [hmanual] at hahead
          cases hahead
        · exact hnone i hwait
    · rw [workers_workerGoes_ne w hi] at hi'
      exact h.awake hs i' hi'
  · have hkeep : (∀ i', (w.workers i').pos ≠ .wait) →
        ∀ i', ((w.workerGoes i).workers i').pos ≠ .wait := fun hnone i' => by
      by_cases hi : i' = i
      · rw [hi, pos_workerGoes, nextPos, h.stopped hs]
        exact next_ne_wait _
      · rw [workers_workerGoes_ne w hi]
        exact hnone i'
    by_cases hreset : (w.workers i).pos = .resetManual
    · exact .inr (hkeep (harriving hreset))
    · refine (h.ahead hs).imp (fun hmanual => ?_) hkeep
      simp [workerGoes, hmanual, hreset]

theorem heard_work (h : Heard w) (hcan : w.Can (.work i)) (harriving : w.NoneArriving (.work i)) :
    Heard (w.work i) := by
  have hmutual := mutual_work h.excl hcan
  rcases work_cases w i with ⟨task, rest, -, -, heq⟩ | ⟨-, -, heq⟩ | ⟨-, heq⟩
  · rw [heq] at hmutual ⊢
    refine ⟨hmutual, h.cleared, h.stopped, fun hs i' => ?_, fun hs => (h.ahead hs).imp_right
      fun hnone i' => ?_⟩ <;> by_cases hi : i' = i
    · simp [hi]
    · simpa [hi] using h.awake hs i'
    · simp [hi]
    · simpa [hi] using hnone i'
  · rwa [heq]
  · rw [heq] at hmutual ⊢
    exact heard_goes h hmutual harriving

theorem heard_stop (h : Heard w) {j : Fin s} (hcan : w.Can (.stop j)) : Heard (w.stop j) := by
  have hreleases := releases_stop w j
  have hrunning : (w.stop j).isRunning = (w.isRunning && (w.stops j).pos ≠ .clearRunning) := by
    unfold stop
    split <;> next h => simp [stopGoes, h]
  have hcleared : ∀ j', ((w.stop j).stops j').pos = .broadcast →
      (w.stop j).isRunning = false := fun j' hj' => by
    rw [pos_stop] at hj'
    rw [hrunning]
    split_ifs at hj' with hj
    · rcases hat : (w.stops j).pos with _ | _ | _ | _ | _ | _ <;>
        simp [hat, ThreadPool.nextStop] at hj' ⊢
      split_ifs at hj'
    · rw [h.cleared j' hj']
      rfl
  by_cases hbroadcast : (w.stops j).pos = .broadcast
  · refine ⟨mutual_stop h.excl hcan, hcleared, fun _ => ?_, fun _ i hi => ?_, fun _ => .inl ?_⟩
    · rw [hrunning, h.cleared j hbroadcast]
      rfl
    · rw [stop, hbroadcast] at hi
      dsimp only [released] at hi
      split_ifs at hi with hwait
      exact hwait hi
    · rw [stop, hbroadcast]
  · have hkeep : (w.stop j).hasSet = w.hasSet ∧ (w.stop j).manualReset = w.manualReset := by
      unfold stop
      split <;> first | exact ⟨rfl, rfl⟩ | exact absurd ‹_› hbroadcast
    refine ⟨mutual_stop h.excl hcan, hcleared, fun hs => ?_, fun hs i hi => ?_, fun hs => ?_⟩ <;>
      rw [hkeep.1] at hs
    · rw [hrunning, h.stopped hs]
      rfl
    · exact h.awake hs i (hreleases.pos_eq hi (by simp))
    · rw [hkeep.2]
      exact (h.ahead hs).imp_right fun hnone i hi => hnone i (hreleases.pos_eq hi (by simp))

theorem heard_step (h : Heard w) (hcan : w.Can ev) (harriving : w.NoneArriving ev) :
    Heard (w.step ev) := by
  cases ev with
  | addTask k releases => exact heard_addTask h hcan
  | work i => exact heard_work h hcan harriving
  | stop j => exact heard_stop h hcan

theorem heard_exec {tasks : Fin p → Addr} {es : List (EventPoolStep n p s)}
    (hrun : Along step (fun w ev => w.Can ev ∧ w.NoneArriving ev) (start tasks) es) :
    Heard (exec step (start tasks) es) :=
  invariant (fun _ _ h hev => heard_step h hev.1 hev.2) (heard_start tasks) hrun

/-- How many steps the workers make until they end, with an `AddTask` that has pushed its task. -/
def leftToEnd (w : EventPool n p s) : ℕ :=
  ∑ i, (w.workers i).pos.leftToEnd + ∑ k, if (w.addTasks k).pos = .setEvent then 1 else 0

end Heard

section Left

open ThreadPool (aTask nth)

variable {isEmpty autoReset manualReset : Bool} {pos : EventWorkerAt}

/-- Where `is_running_` is cleared a worker comes nearer to its end, unless it goes to sleep. -/
theorem leftToEnd_next (hpop : pos ≠ .popFront) (hend : pos ≠ .finished)
    (hwait : pos.next false isEmpty autoReset manualReset ≠ .waiting) :
    (pos.next false isEmpty autoReset manualReset).leftToEnd < pos.leftToEnd := by
  cases pos <;> revert hpop hend hwait <;> cases isEmpty <;> cases autoReset <;>
    cases manualReset <;> decide

theorem Heard.leftToEnd_work (h : Heard w) (hset : w.hasSet = true)
    (hheard : Heard (w.work i)) (hworks : w.Works (.work i)) :
    (w.work i).leftToEnd < w.leftToEnd := by
  have hsum := sum_add_of_ne (fun i' => ((w.work i).workers i').pos.leftToEnd)
    (fun i' => (w.workers i').pos.leftToEnd) i fun i' hi' => by rw [workers_work_ne w hi']
  obtain ⟨-, hadd, -, -, hkept⟩ := fields_work w i
  have hless : ((w.work i).workers i).pos.leftToEnd < (w.workers i).pos.leftToEnd := by
    have hawake := hheard.awake (hkept.trans hset) i
    rcases work_cases w i with ⟨task, rest, hpos, -, heq⟩ | ⟨hpos, hnil, -⟩ | ⟨hpos, heq⟩
    · rw [heq, hpos]
      simp [EventWorkerAt.leftToEnd]
    · exact absurd hnil (h.excl.listed i (.inr hpos))
    · rw [heq, pos_workerGoes, nextPos, h.stopped hset] at hawake ⊢
      exact leftToEnd_next hpos hworks.2 hawake
  unfold leftToEnd
  rw [hadd]
  omega

theorem Heard.leftToEnd_addTask (h : Heard w) (hset : w.hasSet = true) {k : Fin p}
    (releases : Option (Fin n)) (hk : (w.addTasks k).pos = .setEvent) :
    (w.addTask k releases).leftToEnd < w.leftToEnd := by
  have hadd := sum_setEvent releases 1 hk
  have hsame : (w.addTask k releases).workers = w.workers :=
    funext fun i => (releases_addTask w k releases).stays (h.awake hset i)
  unfold leftToEnd
  rw [hsame]
  omega

theorem leftToEnd_le (h : Mutual w) : w.leftToEnd ≤ 7 * n + 1 := by
  have hsum := Finset.sum_le_card_nsmul Finset.univ (fun i => (w.workers i).pos.leftToEnd) 7
    fun i _ => (w.workers i).pos.leftToEnd_le
  rw [Finset.card_univ, Fintype.card_fin, smul_eq_mul] at hsum
  have hadd := sum_setEvent_le h 1
  unfold leftToEnd
  omega

/-- As long as no worker resets the event of a `Stop` while another is about to wait: once the event
is set no worker waits, and they make a bounded number of steps until all of them have ended. -/
theorem stop_heard {tasks : Fin p → Addr} {es ws : List (EventPoolStep n p s)}
    (hrun : Along step (fun w ev => w.Can ev ∧ w.NoneArriving ev) (start tasks) es)
    (hset : (exec step (start tasks) es).hasSet = true)
    (hwork : Along step (fun w ev => (w.Can ev ∧ w.NoneArriving ev) ∧ w.Works ev)
      (exec step (start tasks) es) ws) :
    let w' := exec step (start tasks) (es ++ ws)
    (∀ i, (w'.workers i).pos ≠ .waiting) ∧ ws.length ≤ 7 * n + 1 ∧
      ((∀ k, (w'.addTasks k).pos ≠ .setEvent) →
        (∀ i, ¬ (w'.Can (.work i) ∧ w'.Works (.work i))) →
        ∀ i, (w'.workers i).pos = .finished) := by
  intro w'
  have hheard := heard_exec hrun
  have hkeep : ∀ (w : EventPool n p s) ev, Heard w ∧ w.hasSet = true →
      (w.Can ev ∧ w.NoneArriving ev) ∧ w.Works ev →
      Heard (w.step ev) ∧ (w.step ev).hasSet = true := fun w ev h hev => by
    refine ⟨heard_step h.1 hev.1.1 hev.1.2, ?_⟩
    cases ev with
    | work i => exact (fields_work w i).2.2.2.2.trans h.2
    | addTask k releases => exact (fields_addTask w k releases).2.2.2.2.trans h.2
    | stop j => exact hev.2.elim
  have hless : ∀ (w : EventPool n p s) ev, Heard w ∧ w.hasSet = true →
      (w.Can ev ∧ w.NoneArriving ev) ∧ w.Works ev → (w.step ev).leftToEnd < w.leftToEnd :=
    fun w ev h hev => by
      cases ev with
      | work i => exact h.1.leftToEnd_work h.2 (heard_work h.1 hev.1.1 hev.1.2) hev.2
      | addTask k releases => exact h.1.leftToEnd_addTask h.2 releases hev.2
      | stop j => exact hev.2.elim
  obtain ⟨hheard', hset'⟩ := invariant hkeep ⟨hheard, hset⟩ hwork
  rw [← exec_append] at hheard' hset'
  refine ⟨hheard'.awake hset', (length_le_of_decreasing leftToEnd hkeep hless ⟨hheard, hset⟩
    hwork).trans (leftToEnd_le hheard.excl), fun hadd hstuck i => ?_⟩
  by_contra hend
  exact hheard'.awake hset' i (waiting_of_stuck hadd hstuck hend)

/-- Two workers wait when the event is set, and both end. -/
theorem stop_heard_two :
    let es : List (EventPoolStep 2 0 1) := List.flatten [works (nth 0) 5, works (nth 1) 5,
      List.replicate 4 (.stop (nth 0))]
    ∀ i, ((exec step (start aTask)
      (es ++ (works (nth 0) 5 ++ works (nth 1) 5))).workers i).pos = .finished := by
  intro es
  exact (@stop_heard 2 0 1 aTask es (works (nth 0) 5 ++ works (nth 1) 5) (by decide +kernel)
    (by decide +kernel) (by decide +kernel)).2.2 (by decide +kernel) (by decide +kernel)

/-- The second worker arrives after the first has reset the event, and waits for ever. -/
example :
    let es : List (EventPoolStep 2 0 1) := List.flatten [works (nth 0) 5, works (nth 1) 4,
      List.replicate 4 (.stop (nth 0)), works (nth 0) 5, works (nth 1) 1]
    Along step Can (start aTask) es ∧ ¬ Along step NoneArriving (start aTask) es ∧
      ((exec step (start aTask) es).workers (nth 1)).pos = .waiting := by
  decide +kernel

end Left

end EventPool

end Elegance
