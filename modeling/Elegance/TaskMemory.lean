import Elegance.HandleNetTask
import Elegance.MemoryPool

/-!
# The tasks of single-thread mode in memory

`handle_task_queue_` holds pointers. A report of an event takes a buffer from
`network_task_memory_pool_`, makes a `NetworkHandleTask` in it and pushes it under
`handle_task_mutex_`; `HandleNetTask` pops it under the mutex, makes its calls from it and gives the
buffer back. The pool has no lock: the steps of its `Alloc` are steps of their own. A report whose
package does not fit into its task gets no further than the `memcpy`.
-/

namespace Elegance

/-- The `memcpy` of a package into its task stays inside it. -/
def NetworkHandleTask.Fits (t : NetworkHandleTask) : Prop :=
  t.taskType = .onRecv → MemCopy.InBounds ⟨t.length, t.data.length, 0, maxSocketMsgBuffLength⟩

instance (t : NetworkHandleTask) : Decidable t.Fits := inferInstanceAs (Decidable (_ → _))

/-- The next step of a report, of which the first four are those of `Alloc`. -/
inductive ReportAt where
  | testEmpty
  | increase
  | top
  | pop (mem : Addr)
  | construct (mem : Addr)
  | push (mem : Addr)
  | returned
  deriving DecidableEq, Repr

/-- `Alloc` has begun and not returned. -/
def ReportAt.inAlloc : ReportAt → Bool
  | .increase | .top | .pop _ => true
  | _ => false

/-- The buffer `Alloc` returned. -/
def ReportAt.held : ReportAt → Option Addr
  | .construct mem | .push mem => some mem
  | _ => none

/-- The next step of a thread that calls `HandleNetTask` again and again. -/
inductive HandleAt where
  | popFront
  /-- In the loop over the handlers, of which these are left. -/
  | calls (task : Addr) (handlers : List Addr)
  deriving DecidableEq, Repr

def HandleAt.held : HandleAt → Option Addr
  | .popFront => none
  | .calls task _ => some task

/-- The next step is the `Free`. -/
def HandleAt.atFree : HandleAt → Bool
  | .calls _ [] => true
  | _ => false

/-- Report `i` is of `tasks i`; `content` is what was last made at an address. `pushed` and `popped`
are the reports that pushed their task and the threads that popped one, in order. -/
structure TaskMemory (n m : ℕ) where
  tasks : Fin n → NetworkHandleTask
  handlerList : List Addr
  pool : MemoryPool
  content : Addr → NetworkHandleTask := fun _ => { taskType := .onConnect }
  queue : List Addr := []
  reports : Fin n → ReportAt := fun _ => .testEmpty
  handles : Fin m → HandleAt := fun _ => .popFront
  made : Fin m → List (Addr × HandlerCall) := fun _ => []
  pushed : List (Fin n) := []
  popped : List (Fin m) := []
  overrun : Bool := false

inductive TaskEvent (n m : ℕ) where
  /-- A step of a report; `base` is what `new` returns where it is called. -/
  | report (i : Fin n) (base : Addr)
  | handle (k : Fin m)
  deriving DecidableEq, Repr

namespace TaskMemory

variable {n m : ℕ}

def start (tasks : Fin n → NetworkHandleTask) (handlerList : List Addr) (itemLen : ℤ) :
    TaskMemory n m where
  tasks
  handlerList
  pool := { itemLen }

/-- A report goes on. -/
def goes (w : TaskMemory n m) (i : Fin n) (pos : ReportAt) : TaskMemory n m :=
  { w with reports := Function.update w.reports i pos }

/-- A thread in `HandleNetTask` goes on. -/
def handleGoes (w : TaskMemory n m) (k : Fin m) (pos : HandleAt) : TaskMemory n m :=
  { w with handles := Function.update w.handles k pos }

def report (w : TaskMemory n m) (i : Fin n) (base : Addr) : TaskMemory n m :=
  match w.reports i with
  | .testEmpty => w.goes i (if w.pool.freeBuffers = [] then .increase else .top)
  | .increase => { w with pool := w.pool.increase base }.goes i .top
  | .top => w.goes i (.pop (w.pool.freeBuffers.headD 0))
  | .pop mem =>
    { w with pool := { w.pool with freeBuffers := w.pool.freeBuffers.tail } }.goes i
      (if mem = 0 then .returned else .construct mem)
  | .construct mem =>
    if (w.tasks i).Fits then
      { w with content := Function.update w.content mem (w.tasks i) }.goes i (.push mem)
    else { w with overrun := true }
  | .push mem => { w with queue := w.queue ++ [mem], pushed := w.pushed ++ [i] }.goes i .returned
  | .returned => w

def handle (w : TaskMemory n m) (k : Fin m) : TaskMemory n m :=
  match w.handles k with
  | .popFront =>
    match w.queue with
    | [] => w
    | task :: queue =>
      { w with queue, popped := w.popped ++ [k] }.handleGoes k (.calls task w.handlerList)
  | .calls task [] => { w with pool := w.pool.free task }.handleGoes k .popFront
  | .calls task (handler :: handlers) =>
    { w with made := Function.update w.made k (w.made k ++ [(handler, (w.content task).call)]) }
      |>.handleGoes k (.calls task handlers)

def step (w : TaskMemory n m) : TaskEvent n m → TaskMemory n m
  | .report i base => w.report i base
  | .handle k => w.handle k

/-- `new` returns memory that it has not returned. -/
def Can (w : TaskMemory n m) : TaskEvent n m → Prop
  | .report i base => w.reports i = .increase → base ≠ 0 ∧ ∀ c ∈ w.pool.realBufferPtrs,
      Span.Apart ⟨c, 10 * w.pool.itemLen.toNat⟩ ⟨base, 10 * w.pool.itemLen.toNat⟩
  | .handle _ => True

/-- No `Alloc` and no `Free` of the pool begins while an `Alloc` is under way. -/
def Alone (w : TaskMemory n m) : TaskEvent n m → Prop
  | .report i _ => w.reports i = .testEmpty → ∀ j, (w.reports j).inAlloc = false
  | .handle k => (w.handles k).atFree → ∀ j, (w.reports j).inAlloc = false

instance (w : TaskMemory n m) : ∀ ev, Decidable (w.Can ev)
  | .report _ _ => inferInstanceAs (Decidable (_ → _ ∧ ∀ c ∈ _, _))
  | .handle _ => inferInstanceAs (Decidable True)

instance (w : TaskMemory n m) : ∀ ev, Decidable (w.Alone ev)
  | .report _ _ => inferInstanceAs (Decidable (_ → ∀ _, _))
  | .handle _ => inferInstanceAs (Decidable (_ → ∀ _, _))

/-- The calls a thread in `HandleNetTask` has still to make for its task. -/
def pending (w : TaskMemory n m) (k : Fin m) : List (Addr × HandlerCall) :=
  match w.handles k with
  | .popFront => []
  | .calls task handlers => handlers.map fun handler => (handler, (w.content task).call)

end TaskMemory

/-- The manager with its queue of tasks, the reports told to it and the tasks handled, each with the
thread that called `HandleNetTask`. -/
structure TaskValues (n m : ℕ) where
  mgr : NetworkManager
  told : List (Fin n) := []
  handled : List (Fin m × NetworkHandleTask) := []
  made : Fin m → List (Addr × HandlerCall) := fun _ => []

inductive ValueEvent (n m : ℕ) where
  | tell (i : Fin n)
  | handle (k : Fin m)

namespace TaskValues

variable {n m : ℕ} (tasks : Fin n → NetworkHandleTask)

def start (handlerList : List Addr) : TaskValues n m where
  mgr := { handlerList, singleThreadHandleMode := true }

def step (q : TaskValues n m) : ValueEvent n m → TaskValues n m
  | .tell i =>
    { q with mgr := (q.mgr.tell (tasks i) (tasks i).call).1, told := q.told ++ [i] }
  | .handle k =>
    let (mgr, calls) := q.mgr.handleNetTask
    { q with
      mgr
      handled := q.handled ++ (q.mgr.handleTaskQueue.head?.map fun task => (k, task)).toList
      made := Function.update q.made k (q.made k ++ calls) }

end TaskValues

end Elegance
