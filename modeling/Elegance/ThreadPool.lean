import Elegance.Socket
import Elegance.Lib.Run
import Elegance.Lib.Handover

/-!
# `ThreadPool`

The steps of any number of `AddTask` and `Stop` calls and of workers, which call `GetNextTask` until
it returns no task. `is_running_` is read and written outside the mutex or in a step of its own;
the rest of what `AddTask` and `Stop` do under it is one step. A task is the number of the `AddTask`
call that brings it.
-/

namespace Elegance

/-- The next step of an `AddTask`. -/
inductive AddTaskAt where
  | checkTask
  | checkRunning
  | pushBack
  | returned (result : Bool)
  deriving DecidableEq, Repr

structure AddTaskCall where
  task : Addr
  pos : AddTaskAt := .checkTask
  deriving DecidableEq, Repr

/-- The next step of a `ThreadPoolWorkingTask`, from `checkRunning` to `popFront` in
`GetNextTask`. -/
inductive WorkerAt where
  | checkRunning
  | lock
  | testEmpty
  | testRunning
  | condWait
  | waiting
  | relock
  | checkEmpty
  | recheckRunning
  | popFront
  | runTask
  | finished
  deriving DecidableEq, Repr

/-- It holds the mutex. -/
def WorkerAt.holds : WorkerAt → Bool
  | .testEmpty | .testRunning | .condWait | .checkEmpty | .recheckRunning | .popFront => true
  | _ => false

/-- The step after the one at a position, by what it reads. -/
def WorkerAt.next (isRunning isEmpty : Bool) : WorkerAt → WorkerAt
  | .checkRunning => if isRunning then .lock else .finished
  | .lock => .testEmpty
  | .testEmpty => if isEmpty then .testRunning else .checkEmpty
  | .testRunning => if isRunning then .condWait else .checkEmpty
  | .condWait => .waiting
  | .waiting => .waiting
  | .relock => .testEmpty
  | .checkEmpty => if isEmpty then .finished else .recheckRunning
  | .recheckRunning => if isRunning then .popFront else .finished
  | .popFront => .runTask
  | .runTask => .checkRunning
  | .finished => .finished

/-- A worker, with the tasks `GetNextTask` returned to it; the last one is under way in
`runTask`. -/
structure PoolWorker (τ : Type) where
  pos : WorkerAt := .checkRunning
  handed : List τ := []
  deriving DecidableEq, Repr

/-- The tasks it has run. -/
def PoolWorker.ran {τ : Type} (c : PoolWorker τ) : List τ :=
  if c.pos = .runTask then c.handed.dropLast else c.handed

/-- The next step of a `Stop`. -/
inductive StopAt where
  | checkRunning
  | clearTasks
  | clearRunning
  | broadcast
  | join
  | returned
  deriving DecidableEq, Repr

/-- A `Stop`, with the tasks it has deleted. -/
structure StopCall (τ : Type) where
  pos : StopAt := .checkRunning
  deleted : List τ := []
  deriving DecidableEq, Repr

/-- The pool with `n` workers, and `p` calls of `AddTask` and `s` of `Stop`, with all that was pushed
to and removed from its list. -/
structure ThreadPool (n p s : ℕ) where
  isRunning : Bool := true
  taskList : List (Fin p) := []
  workers : Fin n → PoolWorker (Fin p) := fun _ => {}
  addTasks : Fin p → AddTaskCall
  stops : Fin s → StopCall (Fin p) := fun _ => {}
  pushed : List (Fin p) := []
  removed : List (Fin p) := []
  hasBroadcast : Bool := false

inductive PoolEvent (n p s : ℕ) where
  /-- The next step of an `AddTask`, with the worker its `pthread_cond_signal` wakes. -/
  | addTask (k : Fin p) (wakes : Option (Fin n))
  | work (i : Fin n)
  | stop (j : Fin s)
  /-- A `pthread_cond_wait` ends without a signal. -/
  | wake (i : Fin n)

namespace ThreadPool

variable {n p s : ℕ}

/-- After `Run`: the workers are about to call `GetNextTask`. -/
def start (tasks : Fin p → Addr) : ThreadPool n p s where
  addTasks k := { task := tasks k }

/-- A worker holds the mutex. -/
def Locked (w : ThreadPool n p s) : Prop := ∃ i, (w.workers i).pos.holds = true

instance (w : ThreadPool n p s) : Decidable w.Locked :=
  inferInstanceAs (Decidable (∃ _, _))

def addTaskGoes (w : ThreadPool n p s) (k : Fin p) (pos : AddTaskAt) : ThreadPool n p s :=
  { w with addTasks := Function.update w.addTasks k { w.addTasks k with pos } }

def workerGoes (w : ThreadPool n p s) (i : Fin n) (pos : WorkerAt) : ThreadPool n p s :=
  { w with workers := Function.update w.workers i { w.workers i with pos } }

def stopGoes (w : ThreadPool n p s) (j : Fin s) (pos : StopAt) : ThreadPool n p s :=
  { w with stops := Function.update w.stops j { w.stops j with pos } }

/-- A worker waits for the mutex instead of `condition_`. -/
def woken (c : PoolWorker (Fin p)) : PoolWorker (Fin p) :=
  if c.pos = .waiting then { c with pos := .relock } else c

def addTask (w : ThreadPool n p s) (k : Fin p) (wakes : Option (Fin n)) : ThreadPool n p s :=
  match (w.addTasks k).pos with
  | .checkTask =>
    w.addTaskGoes k (if (w.addTasks k).task = 0 then .returned false else .checkRunning)
  | .checkRunning => w.addTaskGoes k (if w.isRunning then .pushBack else .returned false)
  | .pushBack =>
    { w.addTaskGoes k (.returned true) with
      taskList := w.taskList ++ [k]
      pushed := w.pushed ++ [k]
      workers := fun i => if wakes = some i then woken (w.workers i) else w.workers i }
  | .returned _ => w

def work (w : ThreadPool n p s) (i : Fin n) : ThreadPool n p s :=
  match (w.workers i).pos, w.taskList with
  | .popFront, task :: taskList =>
    { w with
      taskList
      removed := w.removed ++ [task]
      workers := Function.update w.workers i
        { pos := .runTask, handed := (w.workers i).handed ++ [task] } }
  | .popFront, [] => w
  | pos, taskList => w.workerGoes i (pos.next w.isRunning taskList.isEmpty)

def stop (w : ThreadPool n p s) (j : Fin s) : ThreadPool n p s :=
  match (w.stops j).pos with
  | .checkRunning => w.stopGoes j (if w.isRunning then .clearTasks else .returned)
  | .clearTasks =>
    { w with
      taskList := []
      removed := w.removed ++ w.taskList
      stops := Function.update w.stops j
        { pos := .clearRunning, deleted := (w.stops j).deleted ++ w.taskList } }
  | .clearRunning => { w.stopGoes j .broadcast with isRunning := false }
  | .broadcast =>
    { w.stopGoes j .join with workers := fun i => woken (w.workers i), hasBroadcast := true }
  | .join => w.stopGoes j .returned
  | .returned => w

def step (w : ThreadPool n p s) : PoolEvent n p s → ThreadPool n p s
  | .addTask k wakes => w.addTask k wakes
  | .work i => w.work i
  | .stop j => w.stop j
  | .wake i => { w with workers := Function.update w.workers i (woken (w.workers i)) }

/-- The mutex is taken when no worker holds it, a signal wakes a worker if one waits, and `Join`
returns when its worker has finished. -/
def Can (w : ThreadPool n p s) : PoolEvent n p s → Prop
  | .addTask k wakes => (w.addTasks k).pos = .pushBack →
    ¬ w.Locked ∧ match wakes with
      | some i => (w.workers i).pos = .waiting
      | none => ∀ i, (w.workers i).pos ≠ .waiting
  | .work i => (w.workers i).pos = .lock ∨ (w.workers i).pos = .relock → ¬ w.Locked
  | .stop j =>
    ((w.stops j).pos = .clearTasks → ¬ w.Locked) ∧
      ((w.stops j).pos = .join → ∀ i, (w.workers i).pos = .finished)
  | .wake _ => True

instance (w : ThreadPool n p s) : ∀ ev, Decidable (w.Can ev)
  | .addTask _ (some _) => inferInstanceAs (Decidable (_ → _ ∧ _ = _))
  | .addTask _ none => inferInstanceAs (Decidable (_ → _ ∧ ∀ _, _))
  | .work _ => inferInstanceAs (Decidable (_ → _))
  | .stop _ => inferInstanceAs (Decidable ((_ → _) ∧ (_ → _)))
  | .wake _ => .isTrue trivial

/-- What each worker was handed and each `Stop` has deleted. -/
def takes (w : ThreadPool n p s) : Fin n ⊕ Fin s → List (Fin p)
  | .inl i => (w.workers i).handed
  | .inr j => (w.stops j).deleted

/-- What each worker has run and each `Stop` has deleted. -/
def disposes (w : ThreadPool n p s) : Fin n ⊕ Fin s → List (Fin p)
  | .inl i => (w.workers i).ran
  | .inr j => (w.stops j).deleted

/-- A `Stop` has returned, and so have all the calls. -/
structure Stopped (w : ThreadPool n p s) : Prop where
  stop : 0 < s
  stops : ∀ j, (w.stops j).pos = .returned
  addTasks : ∀ k, ∃ result, (w.addTasks k).pos = .returned result

/-- Every task that was accepted was run by one worker or deleted by a `Stop`. -/
def Settled (w : ThreadPool n p s) : Prop :=
  ∀ k, (w.addTasks k).pos = .returned true → Handover.OneTaker w.disposes k

/-- A `Stop` is about to clear the list. -/
def Clearing (w : ThreadPool n p s) : Prop := ∃ j, (w.stops j).pos = .clearTasks

/-- The list but for the task a worker is about to take. -/
def unclaimed (w : ThreadPool n p s) : List (Fin p) :=
  if ∃ i, (w.workers i).pos = .popFront then w.taskList.tail else w.taskList

/-- A task is pushed while `is_running_` is set, and there is none in the list when it is cleared but
for the one a worker is about to take; or a `Stop` is about to clear the list. -/
def Kept (w : ThreadPool n p s) : PoolEvent n p s → Prop
  | .addTask k _ => (w.addTasks k).pos = .pushBack → w.isRunning = true ∨ w.Clearing
  | .stop j => (w.stops j).pos = .clearRunning → w.unclaimed = [] ∨ w.Clearing
  | .work _ | .wake _ => True

/-- No worker is between the test of `is_running_` and `pthread_cond_wait` at a broadcast. -/
def NoneBetween (w : ThreadPool n p s) : PoolEvent n p s → Prop
  | .stop j => (w.stops j).pos = .broadcast → ∀ i, (w.workers i).pos ≠ .condWait
  | .addTask _ _ | .work _ | .wake _ => True

instance (w : ThreadPool n p s) : Decidable w.Clearing :=
  inferInstanceAs (Decidable (∃ _, _))

instance (w : ThreadPool n p s) : ∀ ev, Decidable (w.NoneBetween ev)
  | .stop _ => inferInstanceAs (Decidable (_ → ∀ _, _))
  | .addTask _ _ | .work _ | .wake _ => .isTrue trivial

end ThreadPool

end Elegance
