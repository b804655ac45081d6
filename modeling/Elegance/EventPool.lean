import Elegance.ThreadPool

/-!
# `ThreadPool` on Windows

In `GetNextTask` a worker looks at `task_list_` without the mutex, and where it is empty waits for
one of two events. `AddTask` sets the auto-reset one, which releases one worker that waits; `Stop`
sets the manual-reset one, which releases all of them, and each of them resets it. An event that is
set while nobody waits stays so. The calls are those of `ThreadPool`, but for the event set under
the mutex in a step of its own; `broadcast` in a `Stop` is its `SetEvent`.
-/

namespace Elegance

/-- The next step of an `AddTask`. -/
inductive EventAddTaskAt where
  | checkTask
  | checkRunning
  | pushBack
  | setEvent
  | returned (result : Bool)
  deriving DecidableEq, Repr

structure EventAddTaskCall where
  task : Addr
  pos : EventAddTaskAt := .checkTask
  deriving DecidableEq, Repr

/-- The next step of a `ThreadPoolWorkingTask`, from `checkRunning` to `popFront` in
`GetNextTask`. -/
inductive EventWorkerAt where
  | checkRunning
  /-- `Lock` and `Unlock` in front of the loop. -/
  | lock
  | testEmpty
  | testRunning
  | wait
  | waiting
  | resetManual
  | relock
  | checkEmpty
  | recheckRunning
  | popFront
  | runTask
  | finished
  deriving DecidableEq, Repr

/-- It holds the mutex. -/
def EventWorkerAt.holds : EventWorkerAt → Bool
  | .checkEmpty | .recheckRunning | .popFront => true
  | _ => false

/-- The step after the one at a position, by what it reads. -/
def EventWorkerAt.next (isRunning isEmpty autoReset manualReset : Bool) :
    EventWorkerAt → EventWorkerAt
  | .checkRunning => if isRunning then .lock else .finished
  | .lock => .testEmpty
  | .testEmpty => if isEmpty then .testRunning else .relock
  | .testRunning => if isRunning then .wait else .relock
  | .wait => if autoReset then .testEmpty else if manualReset then .resetManual else .waiting
  | .waiting => .waiting
  | .resetManual => .testEmpty
  | .relock => .checkEmpty
  | .checkEmpty => if isEmpty then .finished else .recheckRunning
  | .recheckRunning => if isRunning then .popFront else .finished
  | .popFront => .runTask
  | .runTask => .checkRunning
  | .finished => .finished

/-- A worker, with the tasks `GetNextTask` returned to it. -/
structure EventWorker (τ : Type) where
  pos : EventWorkerAt := .checkRunning
  handed : List τ := []
  deriving DecidableEq, Repr

/-- The pool with `n` workers, and `p` calls of `AddTask` and `s` of `Stop`, with all that was
pushed to and removed from its list. -/
structure EventPool (n p s : ℕ) where
  isRunning : Bool := true
  autoReset : Bool := false
  manualReset : Bool := false
  taskList : List (Fin p) := []
  workers : Fin n → EventWorker (Fin p) := fun _ => {}
  addTasks : Fin p → EventAddTaskCall
  stops : Fin s → StopCall (Fin p) := fun _ => {}
  pushed : List (Fin p) := []
  removed : List (Fin p) := []
  hasSet : Bool := false

inductive EventPoolStep (n p s : ℕ) where
  /-- The next step of an `AddTask`, with the worker its `SetEvent` releases. -/
  | addTask (k : Fin p) (releases : Option (Fin n))
  | work (i : Fin n)
  | stop (j : Fin s)

namespace EventPool

variable {n p s : ℕ}

/-- After `Run`: the workers are about to call `GetNextTask`. -/
def start (tasks : Fin p → Addr) : EventPool n p s where
  addTasks k := { task := tasks k }

/-- The mutex is held. -/
def Locked (w : EventPool n p s) : Prop :=
  (∃ i, (w.workers i).pos.holds = true) ∨ ∃ k, (w.addTasks k).pos = .setEvent

instance (w : EventPool n p s) : Decidable w.Locked :=
  inferInstanceAs (Decidable ((∃ _, _) ∨ ∃ _, _))

def addTaskGoes (w : EventPool n p s) (k : Fin p) (pos : EventAddTaskAt) : EventPool n p s :=
  { w with addTasks := Function.update w.addTasks k { w.addTasks k with pos } }

def stopGoes (w : EventPool n p s) (j : Fin s) (pos : StopAt) : EventPool n p s :=
  { w with stops := Function.update w.stops j { w.stops j with pos } }

/-- A step of a worker that takes no task. -/
def workerGoes (w : EventPool n p s) (i : Fin n) : EventPool n p s :=
  let pos := (w.workers i).pos
  { w with
    autoReset := w.autoReset && pos ≠ .wait
    manualReset := w.manualReset && pos ≠ .resetManual
    workers := Function.update w.workers i { w.workers i with
      pos := pos.next w.isRunning w.taskList.isEmpty w.autoReset w.manualReset } }

/-- `WaitForMultipleObjects` returns, and the worker goes on at `pos`. -/
def released (pos : EventWorkerAt) (c : EventWorker (Fin p)) : EventWorker (Fin p) :=
  if c.pos = .waiting then { c with pos } else c

def addTask (w : EventPool n p s) (k : Fin p) (releases : Option (Fin n)) : EventPool n p s :=
  match (w.addTasks k).pos with
  | .checkTask =>
    w.addTaskGoes k (if (w.addTasks k).task = 0 then .returned false else .checkRunning)
  | .checkRunning => w.addTaskGoes k (if w.isRunning then .pushBack else .returned false)
  | .pushBack =>
    { w.addTaskGoes k .setEvent with taskList := w.taskList ++ [k], pushed := w.pushed ++ [k] }
  | .setEvent =>
    match releases with
    | some i =>
      { w.addTaskGoes k (.returned true) with
        workers := Function.update w.workers i (released .testEmpty (w.workers i)) }
    | none => { w.addTaskGoes k (.returned true) with autoReset := true }
  | .returned _ => w

def work (w : EventPool n p s) (i : Fin n) : EventPool n p s :=
  match (w.workers i).pos, w.taskList with
  | .popFront, task :: taskList =>
    { w with
      taskList
      removed := w.removed ++ [task]
      workers := Function.update w.workers i
        { pos := .runTask, handed := (w.workers i).handed ++ [task] } }
  | .popFront, [] => w
  | _, _ => w.workerGoes i

def stop (w : EventPool n p s) (j : Fin s) : EventPool n p s :=
  match (w.stops j).pos with
  | .checkRunning => w.stopGoes j (if w.isRunning then .clearTasks else .returned)
  | .clearTasks =>
    { w with
      taskList := []
      removed := w.removed ++ w.taskList
      stops := Function.update w.stops j
        { pos := .clearRunning, deleted := (w.stops j).deleted ++ w.taskList } }
  | .clearRunning => { w.stopGoes j .broadcast with isRunning := false }
  | .broadcast =>
    { w.stopGoes j .join with
      manualReset := true
      workers := fun i => released .resetManual (w.workers i)
      hasSet := true }
  | .join => w.stopGoes j .returned
  | .returned => w

def step (w : EventPool n p s) : EventPoolStep n p s → EventPool n p s
  | .addTask k releases => w.addTask k releases
  | .work i => w.work i
  | .stop j => w.stop j

/-- The mutex is taken when nobody holds it, the auto-reset event releases a worker if one waits,
and `Join` returns when its worker has finished. -/
def Can (w : EventPool n p s) : EventPoolStep n p s → Prop
  | .addTask k releases =>
    ((w.addTasks k).pos = .pushBack → ¬ w.Locked) ∧
      ((w.addTasks k).pos = .setEvent → match releases with
        | some i => (w.workers i).pos = .waiting
        | none => ∀ i, (w.workers i).pos ≠ .waiting)
  | .work i => (w.workers i).pos = .lock ∨ (w.workers i).pos = .relock → ¬ w.Locked
  | .stop j =>
    ((w.stops j).pos = .clearTasks → ¬ w.Locked) ∧
      ((w.stops j).pos = .join → ∀ i, (w.workers i).pos = .finished)

instance (w : EventPool n p s) : ∀ ev, Decidable (w.Can ev)
  | .addTask _ (some _) => inferInstanceAs (Decidable ((_ → _) ∧ (_ → _ = _)))
  | .addTask _ none => inferInstanceAs (Decidable ((_ → _) ∧ (_ → ∀ _, _)))
  | .work _ => inferInstanceAs (Decidable (_ → _))
  | .stop _ => inferInstanceAs (Decidable ((_ → _) ∧ (_ → _)))

/-- No `Stop` has cleared the list. -/
def Unstopped (w : EventPool n p s) : Prop :=
  ∀ j, (w.stops j).pos = .checkRunning ∨ (w.stops j).pos = .clearTasks

instance (w : EventPool n p s) : Decidable w.Unstopped :=
  inferInstanceAs (Decidable (∀ _, _))

/-- A worker that neither waits nor has finished makes a step, or an `AddTask` that holds the mutex
sets its event. -/
def Works (w : EventPool n p s) : EventPoolStep n p s → Prop
  | .work i => (w.workers i).pos ≠ .waiting ∧ (w.workers i).pos ≠ .finished
  | .addTask k _ => (w.addTasks k).pos = .setEvent
  | .stop _ => False

instance (w : EventPool n p s) : ∀ ev, Decidable (w.Works ev)
  | .work _ => inferInstanceAs (Decidable (_ ∧ _))
  | .addTask _ _ => inferInstanceAs (Decidable (_ = _))
  | .stop _ => .isFalse id

/-- No worker resets the manual-reset event while another is about to wait, which it decided to do
when it read `is_running_`. -/
def NoneArriving (w : EventPool n p s) : EventPoolStep n p s → Prop
  | .work i => (w.workers i).pos = .resetManual → ∀ i', (w.workers i').pos ≠ .wait
  | .addTask _ _ | .stop _ => True

instance (w : EventPool n p s) : ∀ ev, Decidable (w.NoneArriving ev)
  | .work _ => inferInstanceAs (Decidable (_ → ∀ _, _))
  | .addTask _ _ | .stop _ => .isTrue trivial

end EventPool

end Elegance
