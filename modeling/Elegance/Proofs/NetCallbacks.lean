import Elegance.Proofs.NetworkThreads
import Elegance.Proofs.HandleNetTask

/-!
# The order of the callbacks

What a handler has been told of a net id, what the tasks in the queue will tell it and what the
connection that holds the id is about to tell it make up whole sessions and, where the connection is
not on its way out, one under way (`Ordered`). What the handler has been told is the first part.
-/

namespace Elegance

open CInt StrictWeakOrd Machine Sessions

variable {κ : Type}

/-- What calls, each by a thread, tell a handler of a net id. -/
def word (handler : Addr) (netId : NetworkID) (calls : List (ℕ × Addr × HandlerCall)) :
    List (ℕ × Phase) :=
  calls.filterMap fun x =>
    if x.2.1 = handler then (x.2.2.phase netId).map (x.1, ·) else none

section Word

variable {handler : Addr} {netId : NetworkID} {i : ℕ} {call : HandlerCall}

@[simp]
theorem word_nil : word handler netId [] = [] := rfl

theorem word_append (l l' : List (ℕ × Addr × HandlerCall)) :
    word handler netId (l ++ l') = word handler netId l ++ word handler netId l' :=
  List.filterMap_append

theorem word_cons (x : ℕ × Addr × HandlerCall) (l : List (ℕ × Addr × HandlerCall)) :
    word handler netId (x :: l) = word handler netId [x] ++ word handler netId l :=
  word_append [x] l

theorem word_single (i : ℕ) (call : HandlerCall) :
    word handler netId [(i, handler, call)] = ((call.phase netId).map (i, ·)).toList := by
  rw [word, List.filterMap_cons, if_pos rfl]
  rcases call.phase netId with _ | p <;> rfl

theorem word_eq_nil {l : List (ℕ × Addr × HandlerCall)}
    (h : ∀ x ∈ l, x.2.2.phase netId = none) : word handler netId l = [] := by
  rw [word, List.filterMap_eq_nil_iff]
  intro x hx
  rw [h x hx]
  split_ifs <;> rfl

/-- A call of every handler tells each once. -/
theorem word_handlers : ∀ {handlers : List Addr}, handlers.Nodup → handler ∈ handlers →
    word handler netId (handlers.map fun h => (i, h, call)) = word handler netId [(i, handler, call)]
  | [], _, h => by simp at h
  | a :: handlers, hnodup, h => by
    obtain ⟨ha, hnodup⟩ := List.nodup_cons.1 hnodup
    rw [List.map_cons, word_cons]
    by_cases hah : a = handler
    · subst hah
      have hrest : word a netId (handlers.map fun h => (i, h, call)) = [] := by
        rw [word, List.filterMap_eq_nil_iff]
        rintro x hx
        obtain ⟨b, hb, rfl⟩ := List.mem_map.1 hx
        exact if_neg fun hba : b = a => ha (hba ▸ hb)
      rw [hrest, List.append_nil]
    · have hfirst : word handler netId [(i, a, call)] = [] := by
        simp [word, hah]
      rw [hfirst, List.nil_append]
      exact word_handlers hnodup ((List.mem_cons.1 h).resolve_left (Ne.symm hah))

theorem seen_append (trace trace' : List (Callback κ)) :
    seen handler netId (trace ++ trace') = seen handler netId trace ++ seen handler netId trace' :=
  List.filterMap_append

theorem seen_inl (h : Addr) (call : HandlerCall) (i : ℕ) (inTask : Bool) :
    seen handler netId [({ handler := h, call := .inl call, thread := i, inTask } : Callback κ)] =
      word handler netId [(i, h, call)] := rfl

theorem seen_inr (h : Addr) (call : κ) (i : ℕ) (inTask : Bool) :
    seen handler netId [({ handler := h, call := .inr call, thread := i, inTask } : Callback κ)] =
      [] := rfl

end Word

/-- The task and the call of a report that was not made yet. -/
def ThreadAt.reports : ThreadAt κ → Option (NetworkHandleTask × HandlerCall)
  | .report task call => some (task, call)
  | _ => none

/-- What a thread is about to tell a handler. -/
def pending (handler : Addr) (i : ℕ) (c : NetThread κ) : List (ℕ × Addr × HandlerCall) :=
  match c.pos with
  | .checkSockets _ | .setOwner _ | .setTables _ | .tellOpen => [(i, handler, c.openCall)]
  | .eraseOwners | .tellClose => [(i, handler, .onDisconnect c.netId)]
  | p => p.calls.map (i, ·)

namespace NetworkThreads

variable {H : HostLayout} {afterPackage : NetworkID → List Byte → ℤ → Option (List (Addr × κ))}
  {w w' : NetworkThreads κ} {handler : Addr} {i : ℕ} {c c' : NetThread κ} {p q : ThreadAt κ}

/-- The calls `HandleNetTask` makes of a handler from now on. -/
def ahead (w : NetworkThreads κ) (handler : Addr) : List (ℕ × Addr × HandlerCall) :=
  w.handling ++ (w.origins.zip w.mgr.handleTaskQueue).map fun x => (x.1, handler, x.2.call)

/-- What a handler was told, and what the tasks will tell it. -/
def shared (w : NetworkThreads κ) (handler : Addr) (netId : NetworkID) : List (ℕ × Phase) :=
  seen handler netId w.trace ++ word handler netId (w.ahead handler)

/-- With what a thread is about to tell it. -/
def whole (w : NetworkThreads κ) (handler : Addr) (i : ℕ) (c : NetThread κ) : List (ℕ × Phase) :=
  w.shared handler c.netId ++ word handler c.netId (pending handler i c)

/-- The calls a thread is about to make are about the id it holds, and in single-thread mode there
are none. -/
structure CallsOk (singleThread : Bool) (c : NetThread κ) : Prop where
  single : singleThread = true → c.pos.calls = []
  phase : ∀ x ∈ c.pos.calls, ∀ n, (c.pos.holds = true → n ≠ c.netId) → x.2.phase n = none
  report : ∀ x ∈ c.pos.reports, ∀ n, x.1.call.phase n = none ∧ x.2.phase n = none

structure Ordered (handler : Addr) (w : NetworkThreads κ) : Prop where
  nodup : w.mgr.handlerList.Nodup
  mem : handler ∈ w.mgr.handlerList
  origins : w.origins.length = w.mgr.handleTaskQueue.length
  direct : w.mgr.singleThreadHandleMode = false → w.mgr.handleTaskQueue = [] ∧ w.handling = []
  calls : ∀ c ∈ w.threads, CallsOk w.mgr.singleThreadHandleMode c
  opened : ∀ i c, w.threads[i]? = some c → c.pos.holds = true → c.pos.closing = false →
    Open i (w.whole handler i c)
  closing : ∀ i c, w.threads[i]? = some c → c.pos.closing = true →
    Ended (i + 1) (w.whole handler i c)
  free : ∀ n, (∀ c ∈ w.threads, c.pos.holds = true → c.netId ≠ n) →
    Ended w.threads.length (w.shared handler n)

section Shared

/-- `tell` leaves it to the queue or to the thread. -/
theorem shared_told (horigins : w.origins.length = w.mgr.handleTaskQueue.length)
    (task : NetworkHandleTask) (call : HandlerCall) (n : NetworkID) :
    (w.told i (w.mgr.tell task call)).shared handler n = w.shared handler n ++
      if w.mgr.singleThreadHandleMode then word handler n [(i, handler, task.call)] else [] := by
  unfold NetworkManager.tell
  split_ifs with hs
  · have hlen : (w.mgr.handleTaskQueue ++ [task]).length - w.mgr.handleTaskQueue.length = 1 := by
      simp
    simp only [shared, ahead, told, hlen, List.replicate_one]
    rw [List.zip_append horigins, List.map_append, ← List.append_assoc w.handling, word_append,
      ← List.append_assoc]
    rfl
  · simp [shared, ahead, told]

/-- Either way the handler is told once. -/
theorem whole_told (hw : Ordered handler w) {task : NetworkHandleTask} {call : HandlerCall}
    {n : NetworkID} (htask : task.call.phase n = call.phase n) :
    (w.told i (w.mgr.tell task call)).shared handler n ++
        word handler n ((w.mgr.tell task call).2.map (i, ·)) =
      w.shared handler n ++ word handler n [(i, handler, call)] := by
  rw [shared_told hw.origins, List.append_assoc]
  congr 1
  unfold NetworkManager.tell
  split_ifs with hs
  · rw [List.map_nil, word_nil, List.append_nil, word_single, word_single, htask]
  · rw [List.nil_append, List.map_map]
    exact word_handlers hw.nodup hw.mem

theorem shared_callsHandler (hahead : w.ahead handler = []) (h : Addr) (call : HandlerCall)
    (n : NetworkID) : (w.callsHandler i h (.inl call)).shared handler n =
      w.shared handler n ++ word handler n [(i, h, call)] := by
  have hahead' : (w.callsHandler i h (.inl call)).ahead handler = [] := hahead
  rw [shared, shared, hahead, hahead', callsHandler, seen_append, seen_inl, word_nil,
    List.append_nil, List.append_nil]

theorem shared_callsAfter (h : Addr) (call : κ) (n : NetworkID) :
    (w.callsHandler i h (.inr call)).shared handler n = w.shared handler n := by
  simp only [shared, callsHandler, seen_append, seen_inr, List.append_nil]
  rfl

theorem Ordered.ahead_eq_nil (hw : Ordered handler w)
    (hd : w.mgr.singleThreadHandleMode = false) : w.ahead handler = [] := by
  obtain ⟨hq, hh⟩ := hw.direct hd
  simp [ahead, hq, hh]

end Shared

theorem Ids.netId_ne (h : Ids w) {j : ℕ} {d : NetThread κ} (hi : w.threads[i]? = some c)
    (hj : w.threads[j]? = some d) (hij : i ≠ j) (hc : c.pos.holds = true)
    (hd : d.pos.holds = true) : d.netId ≠ c.netId := by
  have hnodup := h.pool.nodup_used
  rw [ids, List.Nodup, List.pairwise_map, List.pairwise_filter, List.pairwise_iff_getElem]
    at hnodup
  obtain ⟨hi', rfl⟩ := List.getElem?_eq_some_iff.1 hi
  obtain ⟨hj', rfl⟩ := List.getElem?_eq_some_iff.1 hj
  rcases Nat.lt_or_gt_of_ne hij with hlt | hlt
  · exact (hnodup i j hi' hj' hlt hc hd).symm
  · exact hnodup j i hj' hi' hlt hd hc

theorem holds_of_closing (h : p.closing = true) : p.holds = true := by
  unfold ThreadAt.holds
  split <;> simp [h]

/-- The handlers and their mode stay, and every task in the queue has its origin. -/
structure QueueOk (w w' : NetworkThreads κ) : Prop where
  handlers : w'.mgr.handlerList = w.mgr.handlerList
  mode : w'.mgr.singleThreadHandleMode = w.mgr.singleThreadHandleMode
  origins : w'.origins.length = w'.mgr.handleTaskQueue.length
  direct : w.mgr.singleThreadHandleMode = false →
    w'.mgr.handleTaskQueue = [] ∧ w'.handling = []

/-- A thread goes on: what that asks for is asked of the thread alone. -/
theorem Ordered.update (hw : Ordered handler w) (hids : Ids w) (hi : w.threads[i]? = some c)
    (ht : w'.threads = w.threads.set i c') (hid : c'.netId = c.netId)
    (hqueue : QueueOk w w')
    (hcalls : CallsOk w.mgr.singleThreadHandleMode c')
    (hother : ∀ n, (c.pos.holds = true → n ≠ c.netId) →
      w'.shared handler n = w.shared handler n)
    (hholds : c'.pos.holds = true → c.pos.holds = true)
    (hopened : c'.pos.holds = true → c'.pos.closing = false → Open i (w'.whole handler i c'))
    (hclosing : c'.pos.closing = true → Ended (i + 1) (w'.whole handler i c'))
    (hfree : c.pos.holds = true → c'.pos.holds = false →
      Ended (i + 1) (w'.shared handler c.netId)) : Ordered handler w' := by
  have hlt : i < w.threads.length := (List.getElem?_eq_some_iff.1 hi).1
  have hget : ∀ j d, w'.threads[j]? = some d →
      (j = i ∧ d = c') ∨ (j ≠ i ∧ w.threads[j]? = some d) := by
    intro j d hj
    rw [ht, List.getElem?_set] at hj
    split_ifs at hj with hij
    · exact .inl ⟨hij.symm, (Option.some.inj hj).symm⟩
    · exact .inr ⟨Ne.symm hij, hj⟩
  have hkeep : ∀ j d, j ≠ i → w.threads[j]? = some d → d.pos.holds = true →
      w'.whole handler j d = w.whole handler j d := by
    intro j d hj hjd hd
    rw [whole, whole, hother d.netId fun hc => hids.netId_ne hi hjd hj.symm hc hd]
  refine ⟨hqueue.handlers ▸ hw.nodup, hqueue.handlers ▸ hw.mem, hqueue.origins,
    hqueue.mode ▸ hqueue.direct, ?_, ?_, ?_, ?_⟩
  · intro d hd
    rw [ht] at hd
    rw [hqueue.mode]
    rcases List.mem_or_eq_of_mem_set hd with hd | rfl
    · exact hw.calls d hd
    · exact hcalls
  · intro j d hj hd hd'
    rcases hget j d hj with ⟨rfl, rfl⟩ | ⟨hne, hj⟩
    · exact hopened hd hd'
    · rw [hkeep j d hne hj hd]
      exact hw.opened j d hj hd hd'
  · intro j d hj hd
    rcases hget j d hj with ⟨rfl, rfl⟩ | ⟨hne, hj⟩
    · exact hclosing hd
    · rw [hkeep j d hne hj (holds_of_closing hd)]
      exact hw.closing j d hj hd
  · intro n hn
    have hmem : ∀ d ∈ w.threads, d = c ∨ d ∈ w.threads.set i c' := by
      obtain ⟨l₁, l₂, hl, hset⟩ := exists_set hi
      rw [hset, hl]
      intro d hd
      rw [List.mem_append, List.mem_cons] at hd ⊢
      rcases hd with hd | rfl | hd
      exacts [.inr (.inl hd), .inl rfl, .inr (.inr (.inr hd))]
    rw [ht] at hn
    rw [ht, List.length_set]
    by_cases hn' : c.pos.holds = true ∧ c.netId = n
    · obtain ⟨hc, rfl⟩ := hn'
      refine (hfree hc ?_).mono hlt
      rw [Bool.eq_false_iff]
      exact fun hc' => hn c' (List.mem_set hlt _) hc' hid
    · rw [hother n fun hc he => hn' ⟨hc, he.symm⟩]
      refine hw.free n fun d hd hd' he => ?_
      rcases hmem d hd with rfl | hd
      · exact hn' ⟨hd', he⟩
      · exact hn d hd hd' he

/-- No thread goes on. -/
theorem Ordered.keep (hw : Ordered handler w) (ht : w'.threads = w.threads)
    (hqueue : QueueOk w w')
    (hshared : ∀ n, w'.shared handler n = w.shared handler n) : Ordered handler w' := by
  refine ⟨hqueue.handlers ▸ hw.nodup, hqueue.handlers ▸ hw.mem, hqueue.origins,
    hqueue.mode ▸ hqueue.direct, ?_, ?_, ?_, ?_⟩ <;>
    simp only [ht, hqueue.mode, whole, hshared]
  exacts [hw.calls, hw.opened, hw.closing, hw.free]

/-- A step that tells no handler anything new. -/
theorem Ordered.same (hw : Ordered handler w) (hids : Ids w) (hi : w.threads[i]? = some c)
    (ht : w'.threads = w.threads.set i c') (hid : c'.netId = c.netId)
    (hqueue : QueueOk w w')
    (hcalls : CallsOk w.mgr.singleThreadHandleMode c')
    (hother : ∀ n, (c.pos.holds = true → n ≠ c.netId) →
      w'.shared handler n = w.shared handler n)
    (hholds : c'.pos.holds = c.pos.holds) (hclosing : c'.pos.closing = c.pos.closing)
    (hwhole : c.pos.holds = true → w'.whole handler i c' = w.whole handler i c) :
    Ordered handler w' := by
  refine hw.update hids hi ht hid hqueue hcalls hother
    (fun h => hholds ▸ h) (fun h h' => ?_) (fun h => ?_) fun h h' => ?_
  · rw [hwhole (hholds ▸ h)]
    exact hw.opened i c hi (hholds ▸ h) (hclosing ▸ h')
  · rw [hwhole (hholds ▸ holds_of_closing h)]
    exact hw.closing i c hi (hclosing ▸ h)
  · rw [hholds, h] at h'
    cases h'

/-- What handlers are told by is the same. -/
structure Quiet (w w' : NetworkThreads κ) : Prop where
  handlers : w'.mgr.handlerList = w.mgr.handlerList
  mode : w'.mgr.singleThreadHandleMode = w.mgr.singleThreadHandleMode
  queue : w'.mgr.handleTaskQueue = w.mgr.handleTaskQueue
  origins : w'.origins = w.origins
  handling : w'.handling = w.handling
  trace : w'.trace = w.trace

theorem Quiet.shared (h : Quiet w w') (n : NetworkID) :
    w'.shared handler n = w.shared handler n := by
  simp only [NetworkThreads.shared, ahead, h.queue, h.origins, h.handling, h.trace]

/-- A position where the thread is about to make no call. -/
theorem callsOk_of_nil {single : Bool} (hcalls : c.pos.calls = [])
    (hreport : c.pos.reports = none) : CallsOk single c where
  single _ := hcalls
  phase x hx := by
    rw [hcalls] at hx
    cases hx
  report x hx := by
    rw [hreport] at hx
    cases hx

theorem Ordered.quiet (hw : Ordered handler w) (hids : Ids w) (hi : w.threads[i]? = some c)
    (hp : c.pos = q) (hq : Quiet w w') (ht : w'.threads = w.threads.set i c')
    (hid : c'.netId = c.netId) (hcalls : c'.pos.calls = []) (hreport : c'.pos.reports = none)
    (hholds : c'.pos.holds = q.holds) (hclosing : c'.pos.closing = q.closing)
    (hpending : pending handler i c' = pending handler i { c with pos := q }) :
    Ordered handler w' := by
  subst hp
  refine hw.same hids hi ht hid ⟨hq.handlers, hq.mode, ?_, fun hd => ?_⟩
    (callsOk_of_nil hcalls hreport) (fun n _ => hq.shared n) hholds hclosing fun _ => ?_
  · rw [hq.origins, hq.queue]
    exact hw.origins
  · rw [hq.queue, hq.handling]
    exact hw.direct hd
  · rw [whole, whole, hid, hq.shared, hpending]

theorem mem_tell {m : NetworkManager} {task : NetworkHandleTask} {call : HandlerCall}
    {x : Addr × HandlerCall} (h : x ∈ (m.tell task call).2) : x.2 = call := by
  unfold NetworkManager.tell at h
  split_ifs at h
  · cases h
  · obtain ⟨a, -, rfl⟩ := List.mem_map.1 h
    rfl

/-- A thread tells the handlers, by way of the queue or on its own. -/
theorem Ordered.told (hw : Ordered handler w) (hids : Ids w) (hi : w.threads[i]? = some c)
    {task : NetworkHandleTask} {call : HandlerCall}
    (htask : ∀ n, task.call.phase n = call.phase n)
    (hphase : ∀ n, (c.pos.holds = true → n ≠ c.netId) → call.phase n = none)
    (hcalls : p.calls = (w.mgr.tell task call).2) (hreport : p.reports = none)
    (hholds : p.holds = c.pos.holds)
    (hpending : pending handler i { c with pos := p } = p.calls.map (i, ·))
    (hopened : p.holds = true → p.closing = false →
      Open i (w.shared handler c.netId ++ word handler c.netId [(i, handler, call)]))
    (hclosing : p.closing = true →
      Ended (i + 1) (w.shared handler c.netId ++ word handler c.netId [(i, handler, call)])) :
    Ordered handler ((w.told i (w.mgr.tell task call)).goesTo i { c with pos := p }) := by
  have htell := NetworkManager.tell_fields w.mgr task call
  have hwhole : ((w.told i (w.mgr.tell task call)).goesTo i { c with pos := p }).whole handler i
      { c with pos := p } =
      w.shared handler c.netId ++ word handler c.netId [(i, handler, call)] := by
    rw [whole, hpending, hcalls]
    exact whole_told hw (htask _)
  refine hw.update hids hi rfl rfl ⟨?_, ?_, ?_, fun hd => ?_⟩ ?_ (fun n hn => ?_)
    (fun h => hholds ▸ h) (fun h h' => hwhole ▸ hopened h h') (fun h => hwhole ▸ hclosing h)
    fun h h' => ?_
  · simp only [goesTo, NetworkThreads.told]
    rw [htell]
  · simp only [goesTo, NetworkThreads.told]
    rw [htell]
  · have hle : w.mgr.handleTaskQueue.length ≤ (w.mgr.tell task call).1.handleTaskQueue.length := by
      unfold NetworkManager.tell
      split_ifs <;> simp
    simp only [goesTo, NetworkThreads.told, List.length_append, List.length_replicate, hw.origins]
    omega
  · simpa [goesTo, NetworkThreads.told, NetworkManager.tell, hd] using hw.direct hd
  · refine ⟨fun hs => ?_, fun x hx n hn => ?_, fun x hx => by rw [hreport] at hx; cases hx⟩
    · rw [hcalls, NetworkManager.tell, if_pos hs]
    · rw [hcalls] at hx
      rw [mem_tell hx]
      exact hphase n (hholds ▸ hn)
  · refine (shared_told hw.origins task call n).trans ?_
    have hword : word handler n [(i, handler, task.call)] = [] :=
      word_eq_nil fun x hx => by
        rw [List.mem_singleton.1 hx]
        exact (htask n).trans (hphase n hn)
    rw [hword, ite_self, List.append_nil]
  · rw [hholds, h] at h'
    cases h'

/-- It tells them what it was about to. -/
theorem Ordered.tells (hw : Ordered handler w) (hids : Ids w) (hi : w.threads[i]? = some c)
    (hp : c.pos = q) {task : NetworkHandleTask} {call : HandlerCall}
    (htask : ∀ n, task.call.phase n = call.phase n)
    (hphase : ∀ n, (q.holds = true → n ≠ c.netId) → call.phase n = none)
    (hcalls : p.calls = (w.mgr.tell task call).2) (hreport : p.reports = none)
    (hholds : p.holds = q.holds) (hclosing : p.closing = q.closing)
    (hpending : q.holds = true → pending handler i { c with pos := q } = [(i, handler, call)])
    (hpending' : pending handler i { c with pos := p } = p.calls.map (i, ·)) :
    Ordered handler ((w.told i (w.mgr.tell task call)).goesTo i { c with pos := p }) := by
  subst hp
  refine hw.told hids hi htask hphase hcalls hreport hholds hpending' (fun h h' => ?_) fun h => ?_
  · rw [← hpending (hholds ▸ h)]
    exact hw.opened i c hi (hholds ▸ h) (hclosing ▸ h')
  · rw [← hpending (hholds ▸ holds_of_closing h)]
    exact hw.closing i c hi (hclosing ▸ h)

/-- A thread calls a handler. -/
theorem Ordered.says (hw : Ordered handler w) (hids : Ids w) (hi : w.threads[i]? = some c)
    (hp : c.pos = q) {x : Addr × HandlerCall} (hcalls : q.calls = x :: p.calls)
    (hreport : p.reports = none) (hholds : p.holds = q.holds) (hclosing : p.closing = q.closing)
    (hpending : pending handler i { c with pos := q } = q.calls.map (i, ·))
    (hpending' : pending handler i { c with pos := p } = p.calls.map (i, ·)) :
    Ordered handler ((w.callsHandler i x.1 (.inl x.2)).goesTo i { c with pos := p }) := by
  subst hp
  have hok := hw.calls c (List.mem_of_getElem? hi)
  have hd : w.mgr.singleThreadHandleMode = false := by
    rw [Bool.eq_false_iff]
    intro hs
    have := hok.single hs
    rw [hcalls] at this
    cases this
  have hshared := shared_callsHandler (i := i) (hw.ahead_eq_nil hd) x.1 x.2
  refine hw.same hids hi rfl rfl ⟨rfl, rfl, hw.origins, hw.direct⟩ ?_ (fun n hn => ?_)
    hholds hclosing fun hc => ?_
  · refine ⟨fun hs => absurd (hd ▸ hs) (by simp), fun y hy n hn => ?_,
      fun y hy => by rw [hreport] at hy; cases hy⟩
    exact hok.phase y (hcalls ▸ List.mem_cons_of_mem _ hy) n (hholds ▸ hn)
  · refine (hshared n).trans ?_
    have hword : word handler n [(i, x.1, x.2)] = [] := word_eq_nil fun y hy => by
      rw [List.mem_singleton.1 hy]
      exact hok.phase x (hcalls ▸ List.mem_cons_self ..) n hn
    rw [hword, List.append_nil]
  · rw [whole, whole, hpending, hpending', hcalls, List.map_cons, word_cons (i, x)]
    refine (congrArg (· ++ _) (hshared c.netId)).trans ?_
    rw [List.append_assoc]

/-- A package is one more message of a session under way. -/
theorem Ordered.receives (hw : Ordered handler w) (hids : Ids w) (hi : w.threads[i]? = some c)
    {data : List Byte} {length : ℤ} {rest : Option (List Byte)}
    (hp : c.pos = .recvPackage data length rest) {r : NetworkManager × List (Addr × HandlerCall)}
    (hr : w.mgr.onRecvPackage c.netId data length = some r) :
    Ordered handler ((w.told i r).goesTo i { c with pos := .callRecv r.2 data length rest }) := by
  have hholds : c.pos.holds = true := by
    rw [hp]
    rfl
  have hpending : pending handler i c = [] := by
    rw [pending, hp]
    rfl
  rcases onRecvPackage_cases hr with rfl | ⟨-, rfl⟩
  · have hquiet : Quiet w ((w.told i (w.mgr, [])).goesTo i
        { c with pos := .callRecv [] data length rest }) := by
      refine ⟨rfl, rfl, rfl, ?_, rfl, rfl⟩
      simp [goesTo, NetworkThreads.told]
    exact hw.quiet hids hi hp hquiet rfl rfl rfl rfl rfl rfl rfl
  · have hopened := hw.opened i c hi hholds (by rw [hp]; rfl)
    rw [whole, hpending, word_nil, List.append_nil] at hopened
    refine hw.told hids hi (fun n => ?_) (fun n hn => if_neg (hn hholds).symm) rfl rfl
      (by rw [hp]; rfl) rfl (fun _ _ => ?_) fun h => by cases h
    · rfl
    · have hreceived := hopened.receive
      rw [word_single, HandlerCall.phase, if_pos rfl]
      exact hreceived

/-- An activation of `UnPack` tells nothing. -/
theorem Ordered.unPacks (hw : Ordered handler w) (hids : Ids w) (hi : w.threads[i]? = some c)
    {data : List Byte} (hp : c.pos = .unPack data) {m : NetIdToBufferMap}
    {package : Option (List Byte × ℤ)} {rest : Option (List Byte)} {d : List Byte} :
    Ordered handler ({ w with mgr := { w.mgr with netIdToBufferMap := m } }.goesTo i
      { c with
        pos := match package with
          | some package => .recvPackage d package.2 rest
          | none => .resume rest }) := by
  have hquiet : ∀ {p : ThreadAt κ}, Quiet w
      ({ w with mgr := { w.mgr with netIdToBufferMap := m } }.goesTo i { c with pos := p }) :=
    ⟨rfl, rfl, rfl, rfl, rfl, rfl⟩
  rcases package with _ | package
  · rcases rest with _ | rest <;>
      exact hw.quiet hids hi hp hquiet rfl rfl rfl rfl rfl rfl rfl
  · exact hw.quiet hids hi hp hquiet rfl rfl rfl rfl rfl rfl rfl

/-- The session is over when the id is free again. -/
theorem Ordered.finish (hw : Ordered handler w) (hids : Ids w) (hi : w.threads[i]? = some c)
    (hp : c.pos = .pushFree) : Ordered handler
      ({ w with mgr := w.mgr.pushFree c.netId }.goesTo i { c with pos := .finished }) := by
  have hended := hw.closing i c hi (by rw [hp]; rfl)
  refine hw.update hids hi rfl rfl ⟨rfl, rfl, hw.origins, hw.direct⟩ (callsOk_of_nil rfl rfl)
    (fun n _ => rfl) (nomatch ·) (nomatch ·) (nomatch ·) fun _ _ => ?_
  have hpending : pending handler i c = [] := by
    rw [pending, hp]
    rfl
  rw [whole, hpending, word_nil, List.append_nil] at hended
  exact hended

/-- It is over, but for the close, when `OnDisconnect` has found the endpoint. -/
theorem Ordered.closes (hw : Ordered handler w) (hids : Ids w) (hi : w.threads[i]? = some c)
    (hp : c.pos = .idle) : Ordered handler
      ({ w with mgr := w.mgr.eraseTables c.netId c.endpoint }.goesTo i
        { c with entered := false, pos := .eraseOwners }) := by
  have hholds : c.pos.holds = true := by
    rw [hp]
    rfl
  have hopened := hw.opened i c hi hholds (by rw [hp]; rfl)
  have hpending : pending handler i c = [] := by
    rw [pending, hp]
    rfl
  rw [whole, hpending, word_nil, List.append_nil] at hopened
  refine hw.update hids hi rfl rfl ⟨rfl, rfl, hw.origins, hw.direct⟩ (callsOk_of_nil rfl rfl)
    (fun n _ => rfl) (fun _ => hholds) (fun _ h => nomatch h) (fun _ => ?_) fun _ h => nomatch h
  have hclosed := hopened.close
  rw [whole, pending, word_single, HandlerCall.phase, if_pos rfl]
  exact hclosed

theorem eq_idle (h : p.isIdle = true) : p = .idle := by
  unfold ThreadAt.isIdle at h
  split at h
  · rfl
  · cases h

theorem openTask_call (c : NetThread κ) : c.openTask.call = c.openCall := by
  unfold NetThread.openTask NetThread.openCall NetworkHandleTask.call
  rcases c.kind with _ | _ <;> rfl

theorem phase_openCall {n : NetworkID} (hn : n ≠ c.netId) : c.openCall.phase n = none := by
  unfold NetThread.openCall
  split <;> exact if_neg hn.symm

/-- The step of a thread keeps the order. -/
theorem ordered_runThread (hw : Ordered handler w) (hids : Ids w) (hi : w.threads[i]? = some c) :
    Ordered handler (w.runThread H afterPackage i c) := by
  have hq : ∀ {m : NetworkManager} {c' : NetThread κ}, m.handlerList = w.mgr.handlerList →
      m.singleThreadHandleMode = w.mgr.singleThreadHandleMode →
      m.handleTaskQueue = w.mgr.handleTaskQueue → Quiet w ({ w with mgr := m }.goesTo i c') :=
    fun hh hm hq => ⟨hh, hm, hq, rfl, rfl, rfl⟩
  have hgo : ∀ {p q : ThreadAt κ}, c.pos = q → p.calls = [] → p.reports = none →
      p.holds = q.holds → p.closing = q.closing →
      pending handler i { c with pos := p } = pending handler i { c with pos := q } →
      Ordered handler (w.goesTo i { c with pos := p }) := fun hp hc hr hh hcl hpending =>
    hw.quiet hids hi hp (hq rfl rfl rfl) rfl rfl hc hr hh hcl hpending
  unfold runThread
  split
  case h_1 check hp =>
    exact hgo hp rfl rfl rfl rfl rfl
  case h_2 hp =>
    exact hgo hp rfl rfl rfl rfl rfl
  case h_3 socket found hp =>
    have hmgr : ∀ kind, (w.mgr.setOwner c.netId socket kind).handlerList = w.mgr.handlerList ∧
        (w.mgr.setOwner c.netId socket kind).singleThreadHandleMode =
          w.mgr.singleThreadHandleMode ∧
        (w.mgr.setOwner c.netId socket kind).handleTaskQueue = w.mgr.handleTaskQueue := by
      rintro (_ | _) <;> exact ⟨rfl, rfl, rfl⟩
    exact hw.quiet hids hi hp (hq (hmgr _).1 (hmgr _).2.1 (hmgr _).2.2) rfl rfl rfl rfl rfl rfl rfl
  case h_4 found hp =>
    exact hw.quiet hids hi hp (hq rfl rfl rfl) rfl rfl rfl rfl rfl rfl rfl
  case h_5 hp =>
    exact hw.tells hids hi hp (fun n => by rw [openTask_call])
      (fun n hn => phase_openCall (hn rfl)) rfl rfl rfl rfl (fun _ => rfl) rfl
  case h_6 hp =>
    exact hgo hp rfl rfl rfl rfl rfl
  case h_7 x calls hp =>
    exact hw.says hids hi hp rfl rfl rfl rfl rfl rfl
  case h_8 data hp =>
    dsimp only
    split
    · exact hw.unPacks hids hi hp
    · exact hw.keep rfl ⟨rfl, rfl, hw.origins, hw.direct⟩ fun _ => rfl
  case h_9 data length rest hp =>
    split
    · next r hr => exact hw.receives hids hi hp hr
    · exact hw.keep rfl ⟨rfl, rfl, hw.origins, hw.direct⟩ fun _ => rfl
  case h_10 hp =>
    exact hgo hp rfl rfl rfl rfl rfl
  case h_11 x calls _ _ _ hp =>
    exact hw.says hids hi hp rfl rfl rfl rfl rfl rfl
  case h_12 hp =>
    split
    · exact hgo hp rfl rfl rfl rfl rfl
    · exact hw.keep rfl ⟨rfl, rfl, hw.origins, hw.direct⟩ fun _ => rfl
  case h_13 rest hp =>
    rcases rest with _ | data <;>
      exact hgo hp rfl rfl rfl rfl rfl
  case h_14 x calls rest hp =>
    refine hw.same hids hi rfl rfl ⟨rfl, rfl, hw.origins, hw.direct⟩ (callsOk_of_nil rfl rfl)
      (fun n _ => shared_callsAfter _ _ n) (by rw [hp]; rfl) (by rw [hp]; rfl) fun _ => ?_
    rw [whole, whole, pending, pending, hp]
    exact congrArg (· ++ _) (shared_callsAfter _ _ c.netId)
  case h_15 hp =>
    exact hw.quiet hids hi hp (hq rfl rfl rfl) rfl rfl rfl rfl rfl rfl rfl
  case h_16 hp =>
    exact hw.tells hids hi hp (fun n => rfl) (fun n hn => if_neg (hn rfl).symm) rfl rfl rfl rfl
      (fun _ => rfl) rfl
  case h_17 hp =>
    exact hgo hp rfl rfl rfl rfl rfl
  case h_18 x calls hp =>
    exact hw.says hids hi hp rfl rfl rfl rfl rfl rfl
  case h_19 hp => exact hw.finish hids hi hp
  case h_20 task call hp =>
    have hok := (hw.calls c (List.mem_of_getElem? hi)).report (task, call) (by rw [hp]; rfl)
    exact hw.tells hids hi hp (fun n => by rw [(hok n).1, (hok n).2]) (fun n _ => (hok n).2) rfl rfl
      rfl rfl (fun h => by cases h) rfl
  case h_21 hp =>
    exact hgo hp rfl rfl rfl rfl rfl
  case h_22 x calls hp =>
    exact hw.says hids hi hp rfl rfl rfl rfl rfl rfl
  all_goals exact hw

/-- `HandleNetTask` goes from a task to its calls. -/
theorem Ordered.handles (hw : Ordered handler w) (hh : w.handling = []) :
    Ordered handler (w.step H afterPackage .handleNetTask) := by
  have horigins := hw.origins
  simp only [step, NetworkManager.handleNetTask]
  rcases hq : w.mgr.handleTaskQueue with _ | ⟨task, queue⟩
  · rw [hq, List.length_nil, List.length_eq_zero_iff] at horigins
    refine hw.keep rfl ⟨rfl, rfl, ?_, fun hd => ⟨hq, rfl⟩⟩ fun n => ?_
    · simp [horigins, hq]
    · simp [shared, ahead, hh, horigins]
  · rcases ho : w.origins with _ | ⟨o, origins⟩
    · simp [ho, hq] at horigins
    refine hw.keep rfl ⟨rfl, rfl, ?_, fun hd => ?_⟩ fun n => ?_
    · simpa [ho, hq] using horigins
    · rw [(hw.direct hd).1] at hq
      cases hq
    · simp only [shared, ahead, hh, ho, hq, List.zip_cons_cons, List.map_cons, List.nil_append,
        List.map_map, word_append, List.headD_cons, List.tail_cons]
      rw [word_cons (o, handler, task.call)]
      exact congrArg (fun u => seen handler n w.trace ++ (u ++ _)) (word_handlers hw.nodup hw.mem)

/-- A thread joins the others. -/
theorem Ordered.join (hw : Ordered handler w) (hq : Quiet w w')
    (ht : w'.threads = w.threads ++ [c]) (hcalls : CallsOk w.mgr.singleThreadHandleMode c)
    (hclosing : c.pos.closing = false)
    (hopened : c.pos.holds = true → Open w.threads.length (w.whole handler w.threads.length c)) :
    Ordered handler w' := by
  have hwhole : ∀ i c, w'.whole handler i c = w.whole handler i c := fun i c => by
    rw [whole, whole, hq.shared]
  have hget : ∀ j d, w'.threads[j]? = some d →
      w.threads[j]? = some d ∨ (j = w.threads.length ∧ d = c) := by
    intro j d hj
    rw [ht, List.getElem?_append] at hj
    split_ifs at hj with hlt
    · exact .inl hj
    · obtain ⟨hj', rfl⟩ := List.getElem?_eq_some_iff.1 hj
      rw [List.length_singleton] at hj'
      refine .inr ⟨by omega, ?_⟩
      simp
  refine ⟨hq.handlers ▸ hw.nodup, hq.handlers ▸ hw.mem, ?_, ?_, ?_, ?_, ?_, ?_⟩
  · rw [hq.origins, hq.queue]
    exact hw.origins
  · rw [hq.mode, hq.queue, hq.handling]
    exact hw.direct
  · intro d hd
    rw [hq.mode]
    rw [ht] at hd
    rcases List.mem_append.1 hd with hd | hd
    · exact hw.calls d hd
    · rw [List.mem_singleton.1 hd]
      exact hcalls
  · intro j d hj hd hd'
    rw [hwhole]
    rcases hget j d hj with hj | ⟨rfl, rfl⟩
    · exact hw.opened j d hj hd hd'
    · exact hopened hd
  · intro j d hj hd
    rw [hwhole]
    rcases hget j d hj with hj | ⟨rfl, rfl⟩
    · exact hw.closing j d hj hd
    · rw [hclosing] at hd
      cases hd
  · intro n hn
    rw [ht] at hn
    rw [hq.shared, ht]
    refine (hw.free n fun d hd => hn d (List.mem_append_left _ hd)).mono ?_
    simp

theorem Ordered.opens (hw : Ordered handler w) (hids : Ids w) {kind : SocketKind}
    {check : Addr → Bool} {endpoint : Endpoint} :
    Ordered handler (w.opens kind check endpoint) := by
  unfold NetworkThreads.opens
  split_ifs with hroom
  · exact hw.keep rfl ⟨rfl, rfl, hw.origins, hw.direct⟩ fun _ => rfl
  have hfresh := (hids.pool_getFreeNetID hroom).2
  have hfields := NetworkManager.getFreeNetID_fields w.mgr
  refine hw.join ?_ rfl (callsOk_of_nil rfl rfl) rfl fun _ => ?_
  · refine ⟨?_, ?_, ?_, rfl, rfl, rfl⟩ <;> dsimp only <;> rw [hfields]
  · have hended := hw.free w.mgr.getFreeNetID.1 fun c hc hh he => hfresh
      (he ▸ List.mem_map_of_mem (List.mem_filter.2 ⟨hc, hh⟩))
    have hopened := hended.open
    rw [whole, pending, word_single]
    rcases kind with _ | _ <;> simpa [NetThread.openCall, HandlerCall.phase] using hopened

theorem Ordered.reports (hw : Ordered handler w) {task : NetworkHandleTask} {call : HandlerCall}
    (h : ∀ n, task.call.phase n = none ∧ call.phase n = none) :
    Ordered handler { w with threads := w.threads ++ [{ pos := .report task call }] } := by
  refine hw.join ⟨rfl, rfl, rfl, rfl, rfl, rfl⟩ rfl ⟨fun _ => rfl, nofun, fun x hx => ?_⟩ rfl
    (nomatch ·)
  obtain rfl := Option.some.inj hx
  exact h

theorem ordered_step {ev : ThreadsEvent} (hw : Ordered handler w) (hids : Ids w)
    (hcan : w.Can ev) : Ordered handler (w.step H afterPackage ev) := by
  cases ev with
  | insertSocket kind a =>
    rcases kind with _ | _ <;> simp only [step, NetworkManager.insertSocket] <;> split_ifs <;>
      exact hw.keep rfl ⟨rfl, rfl, hw.origins, hw.direct⟩ fun _ => rfl
  | eraseSocket kind a =>
    rcases kind with _ | _ <;> exact hw.keep rfl ⟨rfl, rfl, hw.origins, hw.direct⟩ fun _ => rfl
  | listenFail port => exact hw.reports fun n => ⟨rfl, rfl⟩
  | connectFail ip port localPort => exact hw.reports fun n => ⟨rfl, rfl⟩
  | accept accepts ip port localPort => exact hw.opens hids
  | connect connects ip port localPort => exact hw.opens hids
  | recv i data =>
    obtain ⟨c, hi, hc⟩ := hcan.2
    have hi : w.threads[i]? = some c := hi
    have hc := eq_idle hc
    simp only [step, hi]
    split
    · exact hw
    · next n hn =>
      rw [(hids.find_eq hi (by rw [hc]; rfl) hn).1]
      exact hw.quiet hids hi hc ⟨rfl, rfl, rfl, rfl, rfl, rfl⟩ rfl rfl rfl rfl rfl rfl rfl
  | disconnect i =>
    obtain ⟨c, hi, hc⟩ := hcan.2
    have hi : w.threads[i]? = some c := hi
    have hc := eq_idle hc
    simp only [step, hi]
    split
    · exact hw.quiet hids hi hc ⟨rfl, rfl, rfl, rfl, rfl, rfl⟩ rfl rfl rfl rfl rfl rfl rfl
    · next n hn =>
      rw [(hids.find_eq hi (by rw [hc]; rfl) hn).1]
      exact hw.closes hids hi hc
  | run i =>
    simp only [step]
    split
    · exact hw
    · next c hi => exact ordered_runThread hw hids hi
  | handleNetTask =>
    exact hw.handles hcan.2
  | handle =>
    simp only [step]
    split
    · exact hw
    · next j h call rest hh =>
      refine hw.keep rfl ⟨rfl, rfl, hw.origins, fun hd => ?_⟩ fun n => ?_
      · rw [(hw.direct hd).2] at hh
        cases hh
      · simp only [shared, ahead, hh, seen_append, seen_inl, List.cons_append, List.append_assoc]
        rw [← word_append]
        rfl

theorem ordered_start {registered : List Addr} (hhandler : handler ∈ registered)
    (singleThread : Bool) :
    Ordered handler (start registered singleThread : NetworkThreads κ) := by
  obtain ⟨handlers, hm, hnodup, hmem⟩ := NetworkManager.foldl_registHandler registered
    { singleThreadHandleMode := singleThread } .nil
  rw [start, hm]
  refine ⟨hnodup, (hmem handler).2 (.inr hhandler), rfl, fun _ => ⟨rfl, rfl⟩, ?_, ?_, ?_, ?_⟩
  · simp
  · simp
  · simp
  · exact fun _ _ => ended_nil 0

section Run

variable {registered : List Addr} {singleThread : Bool} {es : List ThreadsEvent}

/-- In a run every handler is told of the sessions in order. -/
theorem ordered_exec (hhandler : handler ∈ registered)
    (hcan : Along (step H afterPackage) Can (start registered singleThread) es) :
    Ordered handler (exec (step H afterPackage) (start registered singleThread) es) :=
  invariant (fun _ _ hw h => ordered_step hw h.2 h.1) (ordered_start hhandler singleThread)
    (ids_along hcan)

theorem ordered_along (hhandler : handler ∈ registered)
    (hcan : Along (step H afterPackage) Can (start registered singleThread) es) :
    Along (step H afterPackage) (fun w ev => (Can w ev ∧ Ids w) ∧ Ordered handler w)
      (start registered singleThread) es :=
  along_invariant (fun _ _ hw h => ordered_step hw h.2 h.1) (ordered_start hhandler singleThread)
    (ids_along hcan)

end Run

/-- What a handler was told of a net id is the first part of sessions in order. -/
theorem Ordered.inOrder (hw : Ordered handler w) (n : NetworkID) :
    InOrder (seen handler n w.trace) := by
  by_cases hn : ∀ c ∈ w.threads, c.pos.holds = true → c.netId ≠ n
  · exact (hw.free n hn).inOrder.part (List.prefix_append _ _)
  · push Not at hn
    obtain ⟨c, hc, hh, rfl⟩ := hn
    obtain ⟨i, hi⟩ := List.getElem?_of_mem hc
    have hprefix : seen handler c.netId w.trace <+: w.whole handler i c := by
      rw [whole, shared, List.append_assoc]
      exact List.prefix_append _ _
    rcases hcl : c.pos.closing with _ | _
    · exact (hw.opened i c hi hh hcl).inOrder.part hprefix
    · exact (hw.closing i c hi hcl).inOrder.part hprefix

/-- The callbacks a handler sees for a net id: for one connection after another its `OnAccept` or
`OnConnect`, its `OnRecv`s and its `OnDisconnect`. -/
theorem callbacks_inOrder {registered : List Addr} {singleThread : Bool} {es : List ThreadsEvent}
    (hhandler : handler ∈ registered)
    (hcan : Along (step H NetworkManager.afterPackage) Can (start registered singleThread) es)
    (netId : NetworkID) : InOrder (seen handler netId
      (exec (step H NetworkManager.afterPackage) (start registered singleThread) es).trace) :=
  (ordered_exec hhandler hcan).inOrder netId

theorem callbacks_inOrder_three :
    InOrder (seen 7 1 (exec (step littleEndian NetworkManager.afterPackage)
      (start [7] false) threeConnections).trace) :=
  callbacks_inOrder (by decide) (by decide +kernel) 1

end NetworkThreads

end Elegance
