import Elegance.Socket
import Elegance.Lib.Run

/-!
# `Thread`

`SyncListen` and `SyncConnect` run their task on the first `Thread` in `thread_set_` that is not
running, or on a new one; `WaitAllThread` joins the ones that are running and deletes them. One
thread makes these calls, one after another; every access it and the threads it starts make to a
`Thread` is a step, but `Run` tests `thread_id_` and writes `cur_task_` in one, and the destructor
makes its accesses in one. `pthread_create` stores the id before the new thread starts, and leaves
anything in `thread_id_` where it fails. A task is the number of the call that brings it.
-/

namespace Elegance

/-- `pthread_t`; `thread_id_` is 0 where there is none. -/
abbrev ThreadID := ℕ

structure Thread (n : ℕ) where
  threadId : ThreadID := 0
  curTask : Option (Fin n) := none
  running : Bool := false
  deriving DecidableEq, Repr

/-- The next step of a `StartRoutine`. -/
inductive RoutineAt (n : ℕ) where
  | notStarted
  | testTask
  | runTask
  | inRun (task : Fin n)
  | deleteTask
  | clearTask
  | testId
  | detach
  | clearId
  | clearRunning
  | exited
  deriving DecidableEq, Repr

/-- A thread of the system; while it is joinable its id names it alone. -/
structure Routine (n : ℕ) where
  pos : RoutineAt n := .notStarted
  thread : Addr := 0
  id : ThreadID := 0
  joinable : Bool := true
  deriving DecidableEq, Repr

/-- It was started and has not exited. -/
def Routine.live {n : ℕ} (c : Routine n) : Prop := c.pos ≠ .notStarted ∧ c.pos ≠ .exited

instance {n : ℕ} (c : Routine n) : Decidable c.live := inferInstanceAs (Decidable (_ ∧ _))

/-- The next step of a `SyncListen` or a `SyncConnect`, from `scanning` on in `GetFreeThread`, from
`chosen` on in `Run`. -/
inductive SyncAt where
  | toMake
  | scanning (rest : List Addr)
  | chosen (thread : Addr)
  | entered (thread : Addr)
  | created (thread : Addr)
  | returned
  deriving DecidableEq, Repr

def SyncAt.underWay (c : SyncAt) : Prop := c ≠ .toMake ∧ c ≠ .returned

instance (c : SyncAt) : Decidable c.underWay := inferInstanceAs (Decidable (_ ∧ _))

/-- The next step of a `WaitAllThread`, with the threads its loop still has to visit. -/
inductive WaitAt where
  | idle
  | visiting (rest : List Addr)
  | testId (thread : Addr) (rest : List Addr)
  | join (thread : Addr) (rest : List Addr)
  | joining (thread : Addr) (id : ThreadID) (rest : List Addr)
  | delete (thread : Addr) (rest : List Addr)
  deriving DecidableEq, Repr

/-- The `Thread` objects, `thread_set_` in the order of the addresses, and `n` calls of `SyncListen`
and `SyncConnect` with the threads they start. `ran` and `deleted` are the tasks `Run` was called on
and those deleted, `failed` the ones no thread could be created for, and `refused` the ones `Run`
did not take. -/
structure Threads (n : ℕ) where
  threads : Addr → Option (Thread n) := fun _ => none
  threadSet : List Addr := []
  calls : Fin n → SyncAt := fun _ => .toMake
  routines : Fin n → Routine n := fun _ => {}
  wait : WaitAt := .idle
  ran : List (Fin n) := []
  deleted : List (Fin n) := []
  failed : List (Fin n) := []
  refused : List (Fin n) := []
  halted : Bool := false

/-- What `pthread_create` does: it starts a thread, or fails and leaves `contents` in
`thread_id_`. -/
inductive PthreadCreate where
  | creates (id : ThreadID)
  | fails (contents : ThreadID)
  deriving DecidableEq, Repr

inductive ThreadsStep (n : ℕ) where
  /-- The next step of a call, with a new `Thread` at `new`. -/
  | sync (k : Fin n) (new : Addr) (create : PthreadCreate)
  | work (k : Fin n)
  | waitAllThread
  deriving DecidableEq, Repr

/-- What a step of `StartRoutine` does. -/
structure RoutineStep (n : ℕ) where
  pos : RoutineAt n
  thread : Thread n
  ran : List (Fin n) := []
  deleted : List (Fin n) := []

/-- The step at a position, by the `Thread` it finds; `none` where a null pointer is called. The
step `detach` is left to `Threads.work`. -/
def RoutineAt.next {n : ℕ} (t : Thread n) : RoutineAt n → Option (RoutineStep n)
  | .testTask => some { pos := if t.curTask = none then .exited else .runTask, thread := t }
  | .runTask => t.curTask.map fun task => { pos := .inRun task, thread := t, ran := [task] }
  | .inRun _ => some { pos := .deleteTask, thread := t }
  | .deleteTask => some { pos := .clearTask, thread := t, deleted := t.curTask.toList }
  | .clearTask => some { pos := .testId, thread := { t with curTask := none } }
  | .testId => some { pos := if t.threadId = 0 then .clearRunning else .detach, thread := t }
  | .clearId => some { pos := .clearRunning, thread := { t with threadId := 0 } }
  | .clearRunning => some { pos := .exited, thread := { t with running := false } }
  | pos => some { pos, thread := t }

namespace Threads

variable {n : ℕ}

/-- A manager that has started nothing. -/
def start : Threads n := {}

def callGoes (w : Threads n) (k : Fin n) (pos : SyncAt) : Threads n :=
  { w with calls := Function.update w.calls k pos }

def put (w : Threads n) (a : Addr) (t : Thread n) : Threads n :=
  { w with threads := Function.update w.threads a (some t) }

/-- No thread with the id can be joined any more. -/
def release (w : Threads n) (id : ThreadID) : Fin n → Routine n :=
  fun k => if (w.routines k).id = id then { w.routines k with joinable := false } else w.routines k

/-- `pthread_detach(id)`; it fails on a thread that is being joined. -/
def pthreadDetach (w : Threads n) (id : ThreadID) : Fin n → Routine n :=
  match w.wait with
  | .joining _ joined _ => if joined = id then w.routines else w.release id
  | _ => w.release id

def halt (w : Threads n) : Threads n := { w with halted := true }

/-- A step of `StartRoutine`; it needs its `Thread`. -/
def work (w : Threads n) (k : Fin n) : Threads n :=
  if (w.routines k).live then
    match w.threads (w.routines k).thread with
    | none => w.halt
    | some t =>
      if (w.routines k).pos = .detach then
        if t.threadId = 0 then w.halt
        else
          { w with
            routines := Function.update (w.pthreadDetach t.threadId) k
              { w.pthreadDetach t.threadId k with pos := .clearId } }
      else
        match (w.routines k).pos.next t with
        | none => w.halt
        | some r =>
          { w with
            routines := Function.update w.routines k { w.routines k with pos := r.pos }
            threads := Function.update w.threads (w.routines k).thread (some r.thread)
            ran := w.ran ++ r.ran
            deleted := w.deleted ++ r.deleted }
  else w

def sync (w : Threads n) (k : Fin n) (new : Addr) (create : PthreadCreate) : Threads n :=
  match w.calls k with
  | .toMake => w.callGoes k (.scanning w.threadSet)
  | .scanning (a :: rest) =>
    match w.threads a with
    | none => w.halt
    | some t => w.callGoes k (if t.running then .scanning rest else .chosen a)
  | .scanning [] =>
    { (w.put new {}).callGoes k (.chosen new) with
      threadSet := w.threadSet.orderedInsert (· ≤ ·) new }
  | .chosen a =>
    match w.threads a with
    | none => w.halt
    | some t =>
      if t.threadId ≠ 0 then { w.callGoes k .returned with refused := w.refused ++ [k] }
      else (w.put a { t with curTask := some k }).callGoes k (.entered a)
  | .entered a =>
    match w.threads a with
    | none => w.halt
    | some t =>
      match create with
      | .creates id =>
        { (w.put a { t with threadId := id }).callGoes k (.created a) with
          routines := Function.update w.routines k { pos := .testTask, thread := a, id } }
      | .fails contents =>
        { (w.put a { t with threadId := contents, curTask := none }).callGoes k .returned with
          failed := w.failed ++ [k]
          deleted := w.deleted ++ [k] }
  | .created a =>
    match w.threads a with
    | none => w.halt
    | some t => (w.put a { t with running := true }).callGoes k .returned
  | .returned => w

/-- Some thread can be joined under the id. -/
def Joinable (w : Threads n) (id : ThreadID) : Prop :=
  ∃ k, (w.routines k).pos ≠ .notStarted ∧ (w.routines k).joinable = true ∧ (w.routines k).id = id

instance (w : Threads n) (id : ThreadID) : Decidable (w.Joinable id) :=
  inferInstanceAs (Decidable (∃ _, _))

/-- A step of `WaitAllThread`, of the `Join` it calls, or of the destructor. -/
def waitAllThread (w : Threads n) : Threads n :=
  match w.wait with
  | .idle => { w with wait := .visiting w.threadSet }
  | .visiting [] => { w with wait := .idle, threadSet := [] }
  | .visiting (a :: rest) =>
    match w.threads a with
    | none => w.halt
    | some t => { w with wait := if t.running then .testId a rest else .visiting rest }
  | .testId a rest =>
    match w.threads a with
    | none => w.halt
    | some t => { w with wait := if t.threadId = 0 then .delete a rest else .join a rest }
  | .join a rest =>
    match w.threads a with
    | none => w.halt
    | some t =>
      if w.Joinable t.threadId then { w with wait := .joining a t.threadId rest } else w.halt
  | .joining a id rest =>
    match w.threads a with
    | none => w.halt
    | some t =>
      { w.put a { t with threadId := 0 } with
        routines := w.release id
        wait := .delete a rest }
  | .delete a rest =>
    match w.threads a with
    | none => w.halt
    | some t =>
      { w with
        routines := if t.threadId = 0 then w.routines else w.pthreadDetach t.threadId
        threads := Function.update w.threads a none
        wait := .visiting rest }

def step (w : Threads n) : ThreadsStep n → Threads n
  | .sync k new create => w.sync k new create
  | .work k => w.work k
  | .waitAllThread => w.waitAllThread

/-- A new `Thread` is where none is, the id of a new thread is not 0 and not the one of a thread
that is live or can be joined, and a join returns once the thread has exited. -/
def Can (w : Threads n) : ThreadsStep n → Prop
  | .sync k new create =>
    w.wait = .idle ∧ (∀ j, j ≠ k → ¬ (w.calls j).underWay) ∧ w.threads new = none ∧
      create ≠ .creates 0 ∧ ∀ j, (w.routines j).live ∨ (w.routines j).joinable = true →
        (w.routines j).pos ≠ .notStarted → create ≠ .creates (w.routines j).id
  | .work _ => True
  | .waitAllThread =>
    (∀ j, ¬ (w.calls j).underWay) ∧
      match w.wait with
      | .joining _ id _ => ∀ j, (w.routines j).id = id → ¬ (w.routines j).live
      | _ => True

instance (w : Threads n) : ∀ ev, Decidable (w.Can ev)
  | .sync _ _ _ => inferInstanceAs (Decidable (_ ∧ _ ∧ _ ∧ _ ∧ _))
  | .work _ => .isTrue trivial
  | .waitAllThread =>
    match h : w.wait with
    | .joining _ id _ =>
      decidable_of_iff ((∀ j, ¬ (w.calls j).underWay) ∧
        ∀ j, (w.routines j).id = id → ¬ (w.routines j).live) (by simp only [Can, h])
    | .idle | .visiting _ | .testId _ _ | .join _ _ | .delete _ _ =>
      decidable_of_iff (∀ j, ¬ (w.calls j).underWay) (by simp only [Can, h, and_true])

instance : ∀ (w : Threads n) (a : Addr),
    Decidable (∀ t, w.threads a = some t → w.Joinable t.threadId)
  | w, a => match h : w.threads a with
    | none => .isTrue fun t ht => by cases ht
    | some t => decidable_of_iff (w.Joinable t.threadId) ⟨fun hj t' ht' => Option.some.inj ht' ▸ hj,
        fun hj => hj t rfl⟩

/-- `WaitAllThread` joins a thread that has not detached itself yet, and deletes a `Thread` that no
thread runs on any more. -/
def Careful (w : Threads n) : ThreadsStep n → Prop
  | .waitAllThread =>
    match w.wait with
    | .join a _ => ∀ t, w.threads a = some t → w.Joinable t.threadId
    | .delete a _ => ∀ k, (w.routines k).thread = a → ¬ (w.routines k).live
    | _ => True
  | _ => True

instance (w : Threads n) : ∀ ev, Decidable (w.Careful ev)
  | .sync _ _ _ | .work _ => .isTrue trivial
  | .waitAllThread =>
    match h : w.wait with
    | .join a _ =>
      decidable_of_iff (∀ t, w.threads a = some t → w.Joinable t.threadId)
        (by simp only [Careful, h])
    | .delete a _ =>
      decidable_of_iff (∀ k, (w.routines k).thread = a → ¬ (w.routines k).live)
        (by simp only [Careful, h])
    | .idle | .visiting _ | .testId _ _ | .joining _ _ _ => .isTrue (by simp only [Careful, h])

/-- Nothing undefined happened, and every thread has its `Thread`. -/
def Sound (w : Threads n) : Prop :=
  w.halted = false ∧ ∀ k, (w.routines k).live → w.threads (w.routines k).thread ≠ none

/-- A task is run once and deleted once, after it was run or where no thread could be created for
it; `Run` takes every task until a `pthread_create` has failed, and one it does not take is neither
run nor deleted; no two threads run on one `Thread`; and where none runs any more, as after
`WaitAllThread`, nothing is left to do for the tasks taken. -/
structure TasksOnce (w : Threads n) : Prop where
  refused : w.failed = [] → w.refused = []
  kept : ∀ k ∈ w.refused, k ∉ w.ran ∧ k ∉ w.deleted ∧ k ∉ w.failed
  ran : w.ran.Nodup
  deleted : w.deleted.Nodup
  either : ∀ k ∈ w.ran, k ∉ w.failed
  afterwards : ∀ k ∈ w.deleted, k ∈ w.ran ∨ k ∈ w.failed
  apart : ∀ j k, (w.routines j).live → (w.routines k).live →
    (w.routines j).thread = (w.routines k).thread → j = k
  settled : (∀ k, ¬ (w.routines k).live) → ∀ k, w.calls k = .returned → k ∉ w.refused →
    k ∈ w.deleted ∧ (k ∈ w.ran ∨ k ∈ w.failed)
  waited : w.wait = .idle → w.threadSet = [] → ∀ k, ¬ (w.routines k).live

end Threads

end Elegance
