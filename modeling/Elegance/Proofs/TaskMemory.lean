import Elegance.TaskMemory
import Elegance.Lib.Holders
import Elegance.Lib.Refinement
import Elegance.Proofs.MemoryPool

/-!
# Pooled tasks are the tasks reported

As long as no two uses of the pool overlap, a buffer in use belongs to the report that took it, to
the queue or to the thread that handles it, and to one of them only (`Kept`). So the queue of
pointers with what lies behind them is the queue of tasks of the manager, step by step
(`tasks_refine`), and the calls made are those of the tasks reported (`tasks_handled`).
-/

namespace Elegance

open CInt Machine Holders

namespace TaskMemory

variable {n m : ℕ} {w : TaskMemory n m} {i : Fin n} {k : Fin m}

section Used

/-- The buffers that reports have. -/
def reporting (w : TaskMemory n m) : List Addr := Holders.held fun i => (w.reports i).held

/-- The buffers of the tasks in hand. -/
def handling (w : TaskMemory n m) : List Addr := Holders.held fun k => (w.handles k).held

/-- The buffers that are not free. -/
def used (w : TaskMemory n m) : List Addr := w.queue ++ (w.reporting ++ w.handling)

@[simp]
theorem reports_goes (w : TaskMemory n m) (i : Fin n) (pos : ReportAt) :
    (w.goes i pos).reports i = pos := Function.update_self _ _ _

theorem reports_goes_ne (w : TaskMemory n m) {i j : Fin n} (hj : j ≠ i) (pos : ReportAt) :
    (w.goes i pos).reports j = w.reports j := Function.update_of_ne hj _ _

@[simp]
theorem handles_handleGoes (w : TaskMemory n m) (k : Fin m) (pos : HandleAt) :
    (w.handleGoes k pos).handles k = pos := Function.update_self _ _ _

theorem handles_handleGoes_ne (w : TaskMemory n m) {k l : Fin m} (hl : l ≠ k) (pos : HandleAt) :
    (w.handleGoes k pos).handles l = w.handles l := Function.update_of_ne hl _ _

theorem held_goes_ne (w : TaskMemory n m) (i : Fin n) (pos : ReportAt) :
    ∀ j ≠ i, ((w.goes i pos).reports j).held = (w.reports j).held :=
  fun _ hj => by rw [reports_goes_ne w hj]

theorem held_handleGoes_ne (w : TaskMemory n m) (k : Fin m) (pos : HandleAt) :
    ∀ l ≠ k, ((w.handleGoes k pos).handles l).held = (w.handles l).held :=
  fun _ hl => by rw [handles_handleGoes_ne w hl]

theorem used_goes_keep {pos : ReportAt} (h : pos.held = (w.reports i).held) :
    (w.goes i pos).used = w.used := by
  have hkeep : (w.goes i pos).reporting = w.reporting :=
    held_keep (w.held_goes_ne i pos) (by rw [reports_goes, h])
  rw [used, hkeep]
  rfl

theorem used_goes_take {pos : ReportAt} {mem : Addr} (hi : (w.reports i).held = none)
    (hpos : pos.held = some mem) : (w.goes i pos).used.Perm (mem :: w.used) := by
  have htake : (w.goes i pos).reporting.Perm (mem :: w.reporting) :=
    held_take (w.held_goes_ne i pos) hi (by rw [reports_goes, hpos])
  refine ((htake.append_right _).append_left _).trans ?_
  rw [List.cons_append]
  exact List.perm_middle

theorem used_goes_give {pos : ReportAt} {mem : Addr} (hi : (w.reports i).held = some mem)
    (hpos : pos.held = none) : w.used.Perm (mem :: (w.goes i pos).used) := by
  have hgive : w.reporting.Perm (mem :: (w.goes i pos).reporting) :=
    held_give (w.held_goes_ne i pos) hi (by rw [reports_goes, hpos])
  refine ((hgive.append_right _).append_left _).trans ?_
  rw [List.cons_append]
  exact List.perm_middle

theorem used_handleGoes_keep {pos : HandleAt} (h : pos.held = (w.handles k).held) :
    (w.handleGoes k pos).used = w.used := by
  have hkeep : (w.handleGoes k pos).handling = w.handling :=
    held_keep (w.held_handleGoes_ne k pos) (by rw [handles_handleGoes, h])
  rw [used, hkeep]
  rfl

theorem used_handleGoes_take {pos : HandleAt} {mem : Addr} (hk : (w.handles k).held = none)
    (hpos : pos.held = some mem) : (w.handleGoes k pos).used.Perm (mem :: w.used) := by
  have htake : (w.handleGoes k pos).handling.Perm (mem :: w.handling) :=
    held_take (w.held_handleGoes_ne k pos) hk (by rw [handles_handleGoes, hpos])
  refine ((htake.append_left _).append_left _).trans ?_
  exact (List.perm_middle.append_left _).trans List.perm_middle

theorem used_handleGoes_give {pos : HandleAt} {mem : Addr} (hk : (w.handles k).held = some mem)
    (hpos : pos.held = none) : w.used.Perm (mem :: (w.handleGoes k pos).used) := by
  have hgive : w.handling.Perm (mem :: (w.handleGoes k pos).handling) :=
    held_give (w.held_handleGoes_ne k pos) hk (by rw [handles_handleGoes, hpos])
  refine ((hgive.append_left _).append_left _).trans ?_
  exact (List.perm_middle.append_left _).trans List.perm_middle

end Used

/-- A report in `Alloc` finds the free buffers as it left them. -/
def Ready (free : List Addr) : ReportAt → Prop
  | .top => free ≠ []
  | .pop mem => ∃ rest, free = mem :: rest
  | _ => True

theorem ready_of_inAlloc {pos : ReportAt} (h : pos.inAlloc = false) (free : List Addr) :
    Ready free pos := by
  cases pos <;> trivial

/-- Every buffer is free or in use once, one report at a time is in `Alloc`, and what a report is
about to push is its task. -/
structure Kept (w : TaskMemory n m) : Prop where
  inside : w.overrun = false
  fits : ∀ i, (w.tasks i).Fits
  num : w.pool.increaseNum = memoryPoolDefaultIncreaseAllocNum
  pos : 0 < w.pool.itemLen
  le : memoryPoolDefaultIncreaseAllocNum * w.pool.itemLen ≤ intMax
  nonzero : ∀ c ∈ w.pool.realBufferPtrs, c ≠ 0
  slots : SlotPool w.pool.itemLen.toNat 10 w.pool.realBufferPtrs w.pool.freeBuffers w.used
  one : ∀ i j, (w.reports i).inAlloc → (w.reports j).inAlloc → i = j
  ready : ∀ i, Ready w.pool.freeBuffers (w.reports i)
  written : ∀ i mem, w.reports i = .push mem → w.content mem = w.tasks i

theorem kept_start (tasks : Fin n → NetworkHandleTask) (handlerList : List Addr) {itemLen : ℤ}
    (hfits : ∀ i, (tasks i).Fits) (hpos : 0 < itemLen)
    (hle : memoryPoolDefaultIncreaseAllocNum * itemLen ≤ intMax) :
    Kept (start tasks handlerList itemLen : TaskMemory n m) where
  inside := rfl
  fits := hfits
  num := rfl
  pos := hpos
  le := hle
  nonzero c hc := by simp [start] at hc
  slots := by
    have hnil : (start tasks handlerList itemLen : TaskMemory n m).used = [] := by
      simp [used, reporting, handling, start, Holders.held, ReportAt.held, HandleAt.held]
    rw [hnil]
    exact SlotPool.empty _ _
  one i j hi := by simp [start, ReportAt.inAlloc] at hi
  ready _ := trivial
  written i mem hi := by simp [start] at hi

theorem Kept.nodup (h : Kept w) : (w.pool.freeBuffers ++ w.used).Nodup := by
  refine h.slots.pairwise.imp fun {a b} hab => ?_
  have hpos : 0 < w.pool.itemLen.toNat := by
    have := h.pos
    omega
  exact hab.base_ne hpos hpos

theorem Kept.ne_zero (h : Kept w) {a : Addr} (ha : a ∈ w.pool.freeBuffers ++ w.used) : a ≠ 0 := by
  obtain ⟨c, hc, hslot⟩ := h.slots.chunk_of_mem ha
  obtain ⟨j, -, rfl⟩ := mem_slots.1 hslot
  have hc := Nat.pos_of_ne_zero (h.nonzero c hc)
  exact (hc.trans_le (Nat.le_add_right _ _)).ne'

section Report

/-- What a report goes to is checked for it, and holds for the others. -/
theorem forall_goes {P : Fin n → ReportAt → Prop} {pos : ReportAt} (h : ∀ j ≠ i, P j (w.reports j))
    (hi : P i pos) (j : Fin n) : P j ((w.goes i pos).reports j) := by
  by_cases hj : j = i
  · rw [hj, reports_goes]
    exact hi
  · rw [reports_goes_ne w hj]
    exact h j hj

theorem Kept.others (h : Kept w) (hi : (w.reports i).inAlloc = true) :
    ∀ j ≠ i, (w.reports j).inAlloc = false := fun j hj =>
  Bool.eq_false_iff.2 fun hjn => hj (h.one j i hjn hi)

/-- One report is in `Alloc` where the others are not. -/
theorem one_of_others (h : ∀ j ≠ i, (w.reports j).inAlloc = false) (a b : Fin n)
    (ha : (w.reports a).inAlloc) (hb : (w.reports b).inAlloc) : a = b := by
  have hi : ∀ c, (w.reports c).inAlloc = true → c = i := fun c hc => by
    by_contra hne
    rw [h c hne] at hc
    cases hc
  rw [hi a ha, hi b hb]

/-- Outside `Alloc` a step adds nobody to it. -/
theorem one_goes (h : ∀ a b, (w.reports a).inAlloc → (w.reports b).inAlloc → a = b)
    {pos : ReportAt} (hpos : pos.inAlloc = false) (a b : Fin n)
    (ha : ((w.goes i pos).reports a).inAlloc) (hb : ((w.goes i pos).reports b).inAlloc) :
    a = b := by
  have hold : ∀ c, ((w.goes i pos).reports c).inAlloc → (w.reports c).inAlloc :=
    forall_goes (P := fun c new => new.inAlloc → (w.reports c).inAlloc) (fun _ _ hc => hc)
      fun hc => by
        rw [hpos] at hc
        cases hc
  exact h a b (hold a ha) (hold b hb)

/-- What is about to be pushed is not changed by a report that goes elsewhere. -/
theorem written_goes (h : ∀ j mem, w.reports j = .push mem → w.content mem = w.tasks j)
    {pos : ReportAt} (hpos : ∀ mem, pos ≠ .push mem) :
    ∀ j mem, (w.goes i pos).reports j = .push mem → w.content mem = w.tasks j :=
  forall_goes (P := fun j pos => ∀ mem, pos = .push mem → w.content mem = w.tasks j)
    (fun j _ => h j) fun mem he => absurd he (hpos mem)

theorem kept_testEmpty (h : Kept w) (hi : w.reports i = .testEmpty)
    (halone : ∀ j, (w.reports j).inAlloc = false) :
    Kept (w.goes i (if w.pool.freeBuffers = [] then .increase else .top)) where
  inside := h.inside
  fits := h.fits
  num := h.num
  pos := h.pos
  le := h.le
  nonzero := h.nonzero
  slots := by
    rw [used_goes_keep (by rw [hi]; split_ifs <;> rfl)]
    exact h.slots
  one := one_of_others (i := i) fun j hj => by
    rw [reports_goes_ne w hj]
    exact halone j
  ready := forall_goes (P := fun _ => Ready w.pool.freeBuffers) (fun j _ => h.ready j) (by
    split_ifs with hempty
    · trivial
    · exact hempty)
  written := written_goes h.written fun mem => by split_ifs <;> simp

theorem kept_increase (h : Kept w) (hi : w.reports i = .increase) {base : Addr} (hbase : base ≠ 0)
    (hnew : ∀ c ∈ w.pool.realBufferPtrs,
      Span.Apart ⟨c, 10 * w.pool.itemLen.toNat⟩ ⟨base, 10 * w.pool.itemLen.toNat⟩) :
    Kept ({ w with pool := w.pool.increase base }.goes i .top) := by
  have hcut := MemoryPool.cut_eq_slots h.num h.pos h.le base
  have hothers := h.others (i := i) (by rw [hi]; rfl)
  refine ⟨h.inside, h.fits, h.num, h.pos, h.le, fun c hc => ?_, ?_,
    one_of_others (i := i) fun j hj => ?_, ?_, written_goes (w := w) h.written (by simp)⟩
  · rcases List.mem_append.1 hc with hc | hc
    · exact h.nonzero c hc
    · rwa [List.mem_singleton.1 hc]
  · have hused : ({ w with pool := w.pool.increase base }.goes i .top).used = w.used :=
      used_goes_keep (w := w) (by rw [hi]; rfl)
    rw [hused]
    show SlotPool _ 10 (w.pool.realBufferPtrs ++ [base])
      ((w.pool.cut base).reverse ++ w.pool.freeBuffers) _
    rw [hcut]
    exact h.slots.grow hnew
  · rw [reports_goes_ne _ hj]
    exact hothers j hj
  · refine forall_goes (P := fun _ => Ready _) (fun j hj => ready_of_inAlloc (hothers j hj) _) ?_
    intro hempty
    have hlen := congrArg List.length hempty
    simp [goes, MemoryPool.increase, hcut] at hlen

theorem kept_top (h : Kept w) (hi : w.reports i = .top) :
    Kept (w.goes i (.pop (w.pool.freeBuffers.headD 0))) := by
  have hothers := h.others (i := i) (by rw [hi]; rfl)
  have hready := h.ready i
  rw [hi] at hready
  refine ⟨h.inside, h.fits, h.num, h.pos, h.le, h.nonzero, ?_,
    one_of_others (i := i) fun j hj => ?_, ?_, written_goes h.written (by simp)⟩
  · rw [used_goes_keep (by rw [hi]; rfl)]
    exact h.slots
  · rw [reports_goes_ne _ hj]
    exact hothers j hj
  · refine forall_goes (P := fun _ => Ready _) (fun j _ => h.ready j) ?_
    obtain ⟨mem, rest, hfree⟩ := List.exists_cons_of_ne_nil hready
    refine ⟨rest, ?_⟩
    show w.pool.freeBuffers = _
    rw [hfree]
    rfl

theorem kept_pop (h : Kept w) {mem : Addr} (hi : w.reports i = .pop mem) :
    mem ≠ 0 ∧ Kept ({ w with pool := { w.pool with freeBuffers := w.pool.freeBuffers.tail } }.goes i
      (.construct mem)) := by
  have hothers := h.others (i := i) (by rw [hi]; rfl)
  obtain ⟨rest, hfree⟩ : ∃ rest, w.pool.freeBuffers = mem :: rest := by
    have hready := h.ready i
    rw [hi] at hready
    exact hready
  refine ⟨h.ne_zero (by rw [hfree]; exact List.mem_cons_self), h.inside, h.fits, h.num, h.pos,
    h.le, h.nonzero, ?_,
    one_of_others (i := i) fun j hj => ?_, ?_, written_goes (w := w) h.written (by simp)⟩
  · have hslots := h.slots
    rw [hfree] at hslots
    have hused : (w.goes i (.construct mem)).used.Perm (mem :: w.used) :=
      used_goes_take (by rw [hi]; rfl) rfl
    show SlotPool _ 10 w.pool.realBufferPtrs w.pool.freeBuffers.tail (w.goes i _).used
    rw [hfree]
    exact hslots.take.perm hused.symm
  · rw [reports_goes_ne _ hj]
    exact hothers j hj
  · exact forall_goes (P := fun _ => Ready _) (fun j hj => ready_of_inAlloc (hothers j hj) _)
      trivial

/-- Nobody else has the buffer a report has. -/
theorem Kept.alone (h : Kept w) {mem : Addr} (hi : (w.reports i).held = some mem) :
    mem ∉ w.queue ∧ (∀ k, (w.handles k).held ≠ some mem) ∧
      ∀ j ≠ i, (w.reports j).held ≠ some mem := by
  have hnodup := (List.nodup_append.1 h.nodup).2.1
  have hmem : mem ∈ w.reporting := mem_held.2 ⟨i, hi⟩
  rw [used, List.nodup_append, List.nodup_append] at hnodup
  obtain ⟨-, ⟨hreporting, -, hhandling⟩, hqueue⟩ := hnodup
  refine ⟨fun hq => hqueue mem hq mem (List.mem_append_left _ hmem) rfl, fun k hk => ?_,
    fun j hj hjm => hj (held_inj hreporting hjm hi)⟩
  exact hhandling mem hmem mem (mem_held.2 ⟨k, hk⟩) rfl

theorem kept_construct (h : Kept w) {mem : Addr} (hi : w.reports i = .construct mem) :
    Kept ({ w with content := Function.update w.content mem (w.tasks i) }.goes i (.push mem)) := by
  obtain ⟨-, -, hothers⟩ := h.alone (i := i) (by rw [hi]; rfl)
  refine ⟨h.inside, h.fits, h.num, h.pos, h.le, h.nonzero, ?_, one_goes (w := w) h.one rfl,
    forall_goes (P := fun _ => Ready _) (fun j _ => h.ready j) trivial, ?_⟩
  · have hused : ({ w with content := Function.update w.content mem (w.tasks i) }.goes i
        (.push mem)).used = w.used := used_goes_keep (w := w) (by rw [hi]; rfl)
    rw [hused]
    exact h.slots
  · refine forall_goes (P := fun j pos => ∀ mem', pos = .push mem' →
      Function.update w.content mem (w.tasks i) mem' = w.tasks j) (fun j hj mem' hj' => ?_)
      fun mem' he => ?_
    · have hne : mem' ≠ mem := fun he => hothers j hj (by rw [hj', he]; rfl)
      rw [Function.update_of_ne hne]
      exact h.written j mem' hj'
    · obtain rfl := ReportAt.push.inj he
      exact Function.update_self _ _ _

theorem kept_push (h : Kept w) {mem : Addr} (hi : w.reports i = .push mem) :
    Kept ({ w with queue := w.queue ++ [mem], pushed := w.pushed ++ [i] }.goes i .returned) := by
  refine ⟨h.inside, h.fits, h.num, h.pos, h.le, h.nonzero, h.slots.perm ?_,
    one_goes (w := w) h.one rfl,
    forall_goes (P := fun _ => Ready _) (fun j _ => h.ready j) trivial,
    written_goes (w := w) h.written (by simp)⟩
  have hgive : w.used.Perm (mem :: (w.goes i .returned).used) :=
    used_goes_give (by rw [hi]; rfl) rfl
  refine hgive.trans ?_
  show (mem :: (w.queue ++ _)).Perm (w.queue ++ [mem] ++ _)
  rw [List.append_assoc]
  exact List.perm_middle.symm

theorem kept_report (h : Kept w) {base : Addr} (hcan : w.Can (.report i base))
    (halone : w.Alone (.report i base)) : Kept (w.report i base) := by
  unfold report
  rcases hi : w.reports i with _ | _ | _ | mem | mem | mem | _ <;> dsimp only
  · exact kept_testEmpty h hi (halone hi)
  · exact kept_increase h hi (hcan hi).1 (hcan hi).2
  · exact kept_top h hi
  · obtain ⟨hne, hkept⟩ := kept_pop h hi
    rwa [if_neg hne]
  · rw [if_pos (h.fits i)]
    exact kept_construct h hi
  · exact kept_push h hi
  · exact h

end Report

section Handle

theorem kept_popFront (h : Kept w) (hk : w.handles k = .popFront) {task : Addr} {queue : List Addr}
    (hqueue : w.queue = task :: queue) (handlers : List Addr) (popped : List (Fin m)) :
    Kept ({ w with queue, popped }.handleGoes k (.calls task handlers)) := by
  refine ⟨h.inside, h.fits, h.num, h.pos, h.le, h.nonzero, h.slots.perm ?_, h.one, h.ready,
    h.written⟩
  have htake : ({ w with queue, popped }.handleGoes k (.calls task handlers)).used.Perm
      (task :: ({ w with queue, popped } : TaskMemory n m).used) :=
    used_handleGoes_take (w := { w with queue, popped }) (by rw [hk]; rfl) rfl
  refine List.Perm.trans ?_ htake.symm
  rw [used, hqueue]
  exact List.Perm.refl _

theorem kept_free (h : Kept w) {task : Addr} (hk : w.handles k = .calls task [])
    (halone : ∀ j, (w.reports j).inAlloc = false) :
    Kept ({ w with pool := w.pool.free task }.handleGoes k .popFront) := by
  have hgive : w.used.Perm (task :: (w.handleGoes k .popFront).used) :=
    used_handleGoes_give (by rw [hk]; rfl) rfl
  exact ⟨h.inside, h.fits, h.num, h.pos, h.le, h.nonzero, (h.slots.perm hgive).give, h.one,
    fun j => ready_of_inAlloc (halone j) _, h.written⟩

theorem kept_call (h : Kept w) {task handler : Addr} {handlers : List Addr}
    (hk : w.handles k = .calls task (handler :: handlers))
    (made : Fin m → List (Addr × HandlerCall)) :
    Kept ({ w with made }.handleGoes k (.calls task handlers)) := by
  have hused : ({ w with made }.handleGoes k (.calls task handlers)).used = w.used :=
    used_handleGoes_keep (w := w) (by rw [hk]; rfl)
  refine ⟨h.inside, h.fits, h.num, h.pos, h.le, h.nonzero, ?_, h.one, h.ready, h.written⟩
  rw [hused]
  exact h.slots

theorem kept_handle (h : Kept w) (halone : w.Alone (.handle k)) : Kept (w.handle k) := by
  unfold handle
  rcases hk : w.handles k with _ | ⟨task, _ | ⟨handler, handlers⟩⟩ <;> dsimp only
  · rcases hqueue : w.queue with _ | ⟨task, queue⟩ <;> dsimp only
    · exact h
    · exact kept_popFront h hk hqueue _ _
  · exact kept_free h hk (halone (by rw [hk]; rfl))
  · exact kept_call h hk _

end Handle

theorem kept_step (h : Kept w) {ev : TaskEvent n m} (hcan : w.Can ev) (halone : w.Alone ev) :
    Kept (w.step ev) := by
  cases ev with
  | report i base => exact kept_report h hcan halone
  | handle k => exact kept_handle h halone

section Refines

variable (tasks : Fin n → NetworkHandleTask)

/-- What a step does to the queue of tasks. -/
def values (w : TaskMemory n m) : TaskEvent n m → List (ValueEvent n m)
  | .report i _ =>
    match w.reports i with
    | .push _ => [.tell i]
    | _ => []
  | .handle k =>
    match w.handles k, w.queue with
    | .popFront, _ :: _ => [.handle k]
    | _, _ => []

/-- The manager has the tasks that the pointers lead to. -/
structure Stored (w : TaskMemory n m) (q : TaskValues n m) : Prop where
  tasks : w.tasks = tasks
  mode : q.mgr.singleThreadHandleMode = true
  list : q.mgr.handlerList = w.handlerList
  queue : q.mgr.handleTaskQueue = w.queue.map w.content
  made : ∀ k, q.made k = w.made k ++ w.pending k
  told : q.told = w.pushed
  handled : q.handled.map Prod.fst = w.popped
  returned : ∀ i, i ∈ w.pushed ↔ w.reports i = .returned
  once : w.pushed.Nodup

theorem stored_start (handlerList : List Addr) (itemLen : ℤ) :
    Stored tasks (start tasks handlerList itemLen : TaskMemory n m)
      (TaskValues.start handlerList) where
  tasks := rfl
  mode := rfl
  list := rfl
  queue := rfl
  made _ := rfl
  told := rfl
  handled := rfl
  returned i := by simp [start]
  once := .nil

variable {tasks} {q : TaskValues n m} {w' : TaskMemory n m}

/-- A step that leaves the queue and what the handling threads have and made. -/
theorem Stored.goes (h : Stored tasks w q) (htasks : w'.tasks = w.tasks)
    (hlist : w'.handlerList = w.handlerList) (hqueue : w'.queue = w.queue)
    (hcontent : ∀ a, a ∈ w.queue ∨ (∃ k, (w.handles k).held = some a) →
      w'.content a = w.content a)
    (hhandles : w'.handles = w.handles) (hmade : w'.made = w.made)
    (hpushed : w'.pushed = w.pushed) (hpopped : w'.popped = w.popped)
    (hreports : ∀ j, w'.reports j = .returned ↔ w.reports j = .returned) :
    Stored tasks w' q where
  tasks := htasks.trans h.tasks
  mode := h.mode
  list := h.list.trans hlist.symm
  queue := by
    rw [h.queue, hqueue]
    exact List.map_congr_left fun a ha => (hcontent a (.inl ha)).symm
  made k := by
    have hpending : w'.pending k = w.pending k := by
      unfold pending
      rw [hhandles]
      rcases hk : w.handles k with _ | ⟨task, handlers⟩ <;> dsimp only
      rw [hcontent task (.inr ⟨k, by rw [hk]; rfl⟩)]
    rw [h.made, hmade, hpending]
  told := h.told.trans hpushed.symm
  handled := h.handled.trans hpopped.symm
  returned j := by
    rw [hpushed, h.returned, hreports]
  once := hpushed ▸ h.once

theorem returned_goes {pos : ReportAt} (hi : w.reports i ≠ .returned) (hpos : pos ≠ .returned)
    (j : Fin n) : (w.goes i pos).reports j = .returned ↔ w.reports j = .returned := by
  by_cases hj : j = i
  · rw [hj, reports_goes]
    exact iff_of_false hpos hi
  · rw [reports_goes_ne w hj]

theorem stored_push (hkept : Kept w) (h : Stored tasks w q) {mem : Addr}
    (hi : w.reports i = .push mem) :
    Stored tasks ({ w with queue := w.queue ++ [mem], pushed := w.pushed ++ [i] }.goes i .returned)
      (q.step tasks (.tell i)) := by
  have htell : (q.mgr.tell (tasks i) (tasks i).call).1 =
      { q.mgr with handleTaskQueue := q.mgr.handleTaskQueue ++ [tasks i] } := by
    rw [NetworkManager.tell, if_pos h.mode]
  simp only [TaskValues.step, htell]
  refine ⟨h.tasks, h.mode, h.list, ?_, h.made, congrArg (· ++ [i]) h.told, h.handled, fun j => ?_,
    ?_⟩
  · show q.mgr.handleTaskQueue ++ [tasks i] = (w.queue ++ [mem]).map w.content
    rw [h.queue, List.map_append, List.map_singleton, hkept.written i mem hi, h.tasks]
  · show j ∈ w.pushed ++ [i] ↔ _
    by_cases hj : j = i
    · rw [hj, reports_goes]
      simp
    · rw [reports_goes_ne _ hj, List.mem_append, h.returned]
      simp [hj]
  · refine List.nodup_append.2 ⟨h.once, List.nodup_singleton _, fun j hj j' hj' he => ?_⟩
    have hreturned := (h.returned j).1 hj
    rw [he, List.mem_singleton.1 hj', hi] at hreturned
    cases hreturned

theorem stored_alloc (h : Stored tasks w q) (hi : w.reports i ≠ .returned) (pool : MemoryPool)
    {pos : ReportAt} (hpos : pos ≠ .returned) : Stored tasks ({ w with pool }.goes i pos) q :=
  h.goes rfl rfl rfl (fun _ _ => rfl) rfl rfl rfl rfl (returned_goes (w := { w with pool }) hi hpos)

theorem stored_construct (hkept : Kept w) (h : Stored tasks w q) {mem : Addr}
    (hi : w.reports i = .construct mem) : Stored tasks
      ({ w with content := Function.update w.content mem (w.tasks i) }.goes i (.push mem)) q := by
  obtain ⟨hqueue, hhandles, -⟩ := hkept.alone (i := i) (by rw [hi]; rfl)
  have hreturned : w.reports i ≠ .returned := by simp [hi]
  refine h.goes rfl rfl rfl (fun a ha => Function.update_of_ne (fun ham => ?_) _ _) rfl rfl rfl
    rfl (returned_goes (w := w) hreturned (by simp))
  rcases ha with ha | ⟨k, hk⟩
  · exact hqueue (ham ▸ ha)
  · exact hhandles k (ham ▸ hk)

theorem stored_report (hkept : Kept w) (h : Stored tasks w q) (base : Addr) :
    Stored tasks (w.report i base)
      (exec (TaskValues.step tasks) q (w.values (.report i base))) := by
  rw [report, values]
  rcases hi : w.reports i with _ | _ | _ | mem | mem | mem | _ <;>
    simp only [exec_nil, exec_cons]
  · have hpos : (if w.pool.freeBuffers = [] then ReportAt.increase else .top) ≠ .returned := by
      split_ifs <;> simp
    exact stored_alloc h (by simp [hi]) w.pool hpos
  · have hpos : ReportAt.top ≠ .returned := by simp
    exact stored_alloc h (by simp [hi]) (w.pool.increase base) hpos
  · have hpos : ReportAt.pop (w.pool.freeBuffers.headD 0) ≠ .returned := by simp
    exact stored_alloc h (by simp [hi]) w.pool hpos
  · have hpos : ReportAt.construct mem ≠ .returned := by simp
    rw [if_neg (kept_pop hkept hi).1]
    exact stored_alloc h (by simp [hi]) _ hpos
  · rw [if_pos (hkept.fits i)]
    exact stored_construct hkept h hi
  · exact stored_push hkept h hi
  · exact h

theorem stored_popFront (h : Stored tasks w q) (hk : w.handles k = .popFront) {task : Addr}
    {queue : List Addr} (hqueue : w.queue = task :: queue) :
    Stored tasks ({ w with queue, popped := w.popped ++ [k] }.handleGoes k
      (.calls task w.handlerList)) (q.step tasks (.handle k)) := by
  have hvalues : q.mgr.handleTaskQueue = w.content task :: queue.map w.content := by
    rw [h.queue, hqueue]
    rfl
  have hhandle : q.mgr.handleNetTask = ({ q.mgr with handleTaskQueue := queue.map w.content },
      w.handlerList.map fun handler => (handler, (w.content task).call)) := by
    rw [NetworkManager.handleNetTask, hvalues, ← h.list]
  simp only [TaskValues.step, hhandle]
  have hhead : q.mgr.handleTaskQueue.head? = some (w.content task) := by
    rw [hvalues, List.head?_cons]
  refine ⟨h.tasks, h.mode, h.list, rfl, fun l => ?_, h.told, ?_, h.returned, h.once⟩
  swap
  · show (q.handled ++ (q.mgr.handleTaskQueue.head?.map _).toList).map Prod.fst = w.popped ++ [k]
    rw [hhead, List.map_append, h.handled]
    rfl
  by_cases hl : l = k
  · subst hl
    have hnone : w.pending l = [] := by
      rw [pending, hk]
    have hmade := h.made l
    rw [hnone, List.append_nil] at hmade
    dsimp only
    rw [Function.update_self, hmade, pending, handles_handleGoes]
    rfl
  · have hpending : ({ w with queue, popped := w.popped ++ [k] }.handleGoes k
        (.calls task w.handlerList)).pending l = w.pending l := by
      rw [pending, handles_handleGoes_ne _ hl]
      rfl
    dsimp only
    rw [Function.update_of_ne hl, h.made, hpending]
    rfl

theorem stored_handle (h : Stored tasks w q) :
    Stored tasks (w.handle k) (exec (TaskValues.step tasks) q (w.values (.handle k))) := by
  rw [handle, values]
  rcases hk : w.handles k with _ | ⟨task, _ | ⟨handler, handlers⟩⟩ <;>
    simp only [exec_nil]
  · rcases hqueue : w.queue with _ | ⟨task, queue⟩ <;> simp only [exec_nil, exec_cons]
    · exact h
    · exact stored_popFront h hk hqueue
  · refine ⟨h.tasks, h.mode, h.list, h.queue, fun l => ?_, h.told, h.handled,
      h.returned, h.once⟩
    rw [h.made]
    congr 1
    by_cases hl : l = k
    · subst hl
      rw [pending, pending, handles_handleGoes, hk]
      rfl
    · rw [pending, pending, handles_handleGoes_ne _ hl]
      rfl
  · refine ⟨h.tasks, h.mode, h.list, h.queue, fun l => ?_, h.told, h.handled,
      h.returned, h.once⟩
    rw [h.made]
    by_cases hl : l = k
    · subst hl
      rw [pending, pending, handles_handleGoes, hk]
      show _ = Function.update w.made l _ l ++ _
      rw [Function.update_self, List.append_assoc]
      rfl
    · rw [pending, pending, handles_handleGoes_ne _ hl]
      show _ = Function.update w.made k _ l ++ _
      rw [Function.update_of_ne hl]
      rfl

/-- Every step of the pointers is a step of the tasks, or none. -/
theorem tasks_refine : Refines step (fun w ev => w.Can ev ∧ w.Alone ev)
    (TaskValues.step tasks : TaskValues n m → _) (fun _ _ => True)
    (fun w q => Kept w ∧ Stored tasks w q) values := by
  rintro w q ev ⟨hkept, hstored⟩ ⟨hcan, halone⟩
  refine ⟨along_of_forall (fun _ _ => trivial) _ _, kept_step hkept hcan halone, ?_⟩
  cases ev with
  | report i base => exact stored_report hkept hstored base
  | handle k => exact stored_handle hstored

end Refines

section Handled

variable {tasks : Fin n → NetworkHandleTask} {q : TaskValues n m}

/-- The manager's queue: what was told, but for what was handled, each with its calls. -/
structure InTurn (tasks : Fin n → NetworkHandleTask) (handlerList : List Addr)
    (q : TaskValues n m) : Prop where
  mode : q.mgr.singleThreadHandleMode = true
  list : q.mgr.handlerList = handlerList
  order : q.told.map tasks = q.handled.map Prod.snd ++ q.mgr.handleTaskQueue
  made : ∀ k, q.made k = (q.handled.filter (·.1 = k)).flatMap fun p =>
    handlerList.map fun handler => (handler, p.2.call)

theorem inTurn_step {handlerList : List Addr} (h : InTurn tasks handlerList q)
    (ev : ValueEvent n m) : InTurn tasks handlerList (q.step tasks ev) := by
  cases ev with
  | tell i =>
    have htell : (q.mgr.tell (tasks i) (tasks i).call).1 =
        { q.mgr with handleTaskQueue := q.mgr.handleTaskQueue ++ [tasks i] } := by
      rw [NetworkManager.tell, if_pos h.mode]
    simp only [TaskValues.step, htell]
    refine ⟨h.mode, h.list, ?_, h.made⟩
    dsimp only
    rw [List.map_append, h.order, List.append_assoc, List.map_singleton]
  | handle k =>
    rcases hqueue : q.mgr.handleTaskQueue with _ | ⟨task, rest⟩
    · have hsame : q.step tasks (.handle k) = q := by
        simp [TaskValues.step, NetworkManager.handleNetTask, hqueue]
      rwa [hsame]
    · have horder := h.order
      rw [hqueue] at horder
      simp only [TaskValues.step, NetworkManager.handleNetTask, hqueue, h.list, List.head?_cons,
        Option.map_some, Option.toList_some]
      refine ⟨h.mode, rfl, ?_, fun l => ?_⟩
      · dsimp only
        rw [horder, List.map_append, List.append_assoc]
        rfl
      · dsimp only
        by_cases hl : l = k
        · subst hl
          rw [Function.update_self, List.filter_append, List.flatMap_append, h.made]
          simp
        · rw [Function.update_of_ne hl, List.filter_append, List.flatMap_append, h.made]
          simp [Ne.symm hl]

theorem inTurn_exec {handlerList : List Addr} (h : InTurn tasks handlerList q)
    (es : List (ValueEvent n m)) :
    InTurn tasks handlerList (exec (TaskValues.step tasks) q es) := by
  have hstep : ∀ (q : TaskValues n m) (ev : ValueEvent n m), InTurn tasks handlerList q → True →
      InTurn tasks handlerList (TaskValues.step tasks q ev) := fun _ ev h _ => inTurn_step h ev
  exact invariant hstep h (along_of_forall (fun _ _ => trivial) _ _)

/-- A connection and a packet, of which the first is handled before the second is pushed. -/
def twoTasks : Fin 2 → NetworkHandleTask :=
  ![{ taskType := .onAccept, netId := 1 },
    { taskType := .onRecv, netId := 1, data := [1, 2, 3, 4], length := 4 }]

def twoReports (i j : Fin 2) (k : Fin 1) : List (TaskEvent 2 1) :=
  List.replicate 6 (.report i 100) ++ [.handle k] ++ List.replicate 5 (.report j 0) ++
    List.replicate 5 (.handle k)

/-- Where two uses overlap, both reports push the same buffer and the first task is lost. -/
example :
    let w : TaskMemory 2 1 := exec step (start twoTasks [8] 4144)
      (List.replicate 3 (.report 0 100) ++ List.replicate 3 (.report 1 0) ++
        List.replicate 3 (.report 0 0) ++ List.replicate 2 (.report 1 0))
    w.queue.length = 2 ∧ w.queue.dedup.length = 1 ∧
      w.queue.map w.content = [twoTasks 1, twoTasks 1] := by
  decide +kernel

end Handled

end TaskMemory

end Elegance
