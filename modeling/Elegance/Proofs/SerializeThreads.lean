import Elegance.SerializeThreads
import Elegance.Proofs.Generated
import Elegance.Proofs.NetCallbacks

/-!
# On which thread a `SerializeNetworkManager` calls its handlers

In single-thread mode the threads of the connections leave everything to the queue but the objects,
which they hand to the handlers themselves (`callbacks_on_socket_thread`). As long as no object is
made of a package, every callback is made in `HandleNetTask` and in order.
-/

namespace Elegance

open CInt StrictWeakOrd Machine Sessions

variable {κ : Type}

/-- The calls after the base class's `OnRecvPackage` that are to be made. -/
def ThreadAt.after : ThreadAt κ → List (Addr × κ)
  | .callAfter calls _ => calls
  | _ => []

namespace NetworkThreads

variable {H : HostLayout} {afterPackage : NetworkID → List Byte → ℤ → Option (List (Addr × κ))}
  {w w' : NetworkThreads κ} {handler : Addr} {i : ℕ} {c c' : NetThread κ} {p : ThreadAt κ}

/-- In single-thread mode the calls so far were made in `HandleNetTask`, and no other is under
way. -/
structure Tasked (w : NetworkThreads κ) : Prop where
  mode : w.mgr.singleThreadHandleMode = true
  after : ∀ c ∈ w.threads, c.pos.after = []
  trace : ∀ x ∈ w.trace, x.inTask = true ∧ ∃ call, x.call = .inl call

theorem Tasked.goes (h : Tasked w) (ht : w'.threads = w.threads.set i c')
    (hmode : w'.mgr.singleThreadHandleMode = w.mgr.singleThreadHandleMode)
    (htrace : w'.trace = w.trace) (hafter : c'.pos.after = []) : Tasked w' := by
  refine ⟨hmode.trans h.mode, fun d hd => ?_, htrace ▸ h.trace⟩
  rw [ht] at hd
  rcases List.mem_or_eq_of_mem_set hd with hd | rfl
  · exact h.after d hd
  · exact hafter

theorem Tasked.keep (h : Tasked w) (ht : w'.threads = w.threads)
    (hmode : w'.mgr.singleThreadHandleMode = w.mgr.singleThreadHandleMode)
    (htrace : w'.trace = w.trace) : Tasked w' :=
  ⟨hmode.trans h.mode, ht ▸ h.after, htrace ▸ h.trace⟩

theorem Tasked.join (h : Tasked w) (ht : w'.threads = w.threads ++ [c])
    (hmode : w'.mgr.singleThreadHandleMode = w.mgr.singleThreadHandleMode)
    (htrace : w'.trace = w.trace) (hafter : c.pos.after = []) : Tasked w' := by
  refine ⟨hmode.trans h.mode, fun d hd => ?_, htrace ▸ h.trace⟩
  rw [ht] at hd
  rcases List.mem_append.1 hd with hd | hd
  · exact h.after d hd
  · rw [List.mem_singleton.1 hd]
    exact hafter

theorem mode_tell (m : NetworkManager) (task : NetworkHandleTask) (call : HandlerCall) :
    (m.tell task call).1.singleThreadHandleMode = m.singleThreadHandleMode := by
  rw [NetworkManager.tell_fields]

theorem after_resume (rest : Option (List Byte)) :
    (ThreadAt.resume rest : ThreadAt κ).after = [] := by
  rcases rest with _ | data <;> rfl

/-- A thread that makes no object of a package makes no call. -/
theorem tasked_runThread (h : Tasked w) (hi : w.threads[i]? = some c) (hcalls : c.pos.calls = [])
    (hnone : ∀ data length rest, c.pos = .afterPackage data length rest →
      ∀ calls, afterPackage c.netId data length = some calls → calls = []) :
    Tasked (w.runThread H afterPackage i c) := by
  have hafter := h.after c (List.mem_of_getElem? hi)
  unfold runThread
  split
  case h_3 =>
    refine h.goes rfl ?_ rfl rfl
    rcases c.kind with _ | _ <;> rfl
  case h_5 | h_16 | h_20 => exact h.goes rfl (mode_tell _ _ _) rfl rfl
  case h_7 hp | h_18 hp | h_22 hp =>
    rw [hp] at hcalls
    cases hcalls
  case h_8 hp =>
    dsimp only
    split
    · refine h.goes rfl rfl rfl ?_
      dsimp only
      split
      · rfl
      · exact after_resume _
    · exact h.keep rfl rfl rfl
  case h_9 =>
    split
    · next r hr =>
      refine h.goes rfl ?_ rfl rfl
      rcases onRecvPackage_cases hr with rfl | ⟨-, rfl⟩
      · rfl
      · exact mode_tell _ _ _
    · exact h.keep rfl rfl rfl
  case h_11 hp =>
    rw [hp] at hcalls
    cases hcalls
  case h_12 hp =>
    split
    · next calls hc => exact h.goes rfl rfl rfl (hnone _ _ _ hp _ hc)
    · exact h.keep rfl rfl rfl
  case h_13 => exact h.goes rfl rfl rfl (after_resume _)
  case h_14 hp =>
    rw [hp] at hafter
    cases hafter
  case h_23 | h_24 | h_25 => exact h
  all_goals exact h.goes rfl rfl rfl rfl

/-- No call follows the packages a step hands over. -/
def NoneAfter (afterPackage : NetworkID → List Byte → ℤ → Option (List (Addr × κ)))
    (w : NetworkThreads κ) : ThreadsEvent → Prop
  | .run i => ∀ c ∈ w.threads[i]?, ∀ data length rest, c.pos = .afterPackage data length rest →
    ∀ calls, afterPackage c.netId data length = some calls → calls = []
  | _ => True

theorem tasked_step {ev : ThreadsEvent} (h : Tasked w) (hw : Ordered handler w)
    (hnone : w.NoneAfter afterPackage ev) : Tasked (w.step H afterPackage ev) := by
  have hopens : ∀ kind check endpoint, Tasked (w.opens kind check endpoint) := by
    intro kind check endpoint
    unfold NetworkThreads.opens
    split_ifs
    · exact h.keep rfl rfl rfl
    · refine h.join rfl ?_ rfl rfl
      dsimp only
      rw [NetworkManager.getFreeNetID_fields]
  cases ev with
  | insertSocket kind a =>
    rcases kind with _ | _ <;> simp only [step, NetworkManager.insertSocket] <;> split_ifs <;>
      exact h.keep rfl rfl rfl
  | eraseSocket kind a => rcases kind with _ | _ <;> exact h.keep rfl rfl rfl
  | listenFail port => exact h.join rfl rfl rfl rfl
  | connectFail ip port localPort => exact h.join rfl rfl rfl rfl
  | accept accepts ip port localPort => exact hopens _ _ _
  | connect connects ip port localPort => exact hopens _ _ _
  | recv i data =>
    simp only [step]
    split
    · exact h
    · split
      · exact h
      · exact h.goes rfl rfl rfl rfl
  | disconnect i =>
    simp only [step]
    split
    · exact h
    · split
      · exact h.goes rfl rfl rfl rfl
      · exact h.goes rfl rfl rfl rfl
  | run i =>
    simp only [step]
    split
    · exact h
    · next c hi =>
      refine tasked_runThread h hi ?_ (hnone c hi)
      exact (hw.calls c (List.mem_of_getElem? hi)).single h.mode
  | handleNetTask =>
    simp only [step, NetworkManager.handleNetTask]
    split <;> exact h.keep rfl rfl rfl
  | handle =>
    simp only [step]
    split
    · exact h
    · refine ⟨h.mode, h.after, fun x hx => ?_⟩
      rcases List.mem_append.1 hx with hx | hx
      · exact h.trace x hx
      · rw [List.mem_singleton.1 hx]
        exact ⟨rfl, _, rfl⟩

theorem tasked_start (registered : List Addr) :
    Tasked (start registered true : NetworkThreads κ) := by
  obtain ⟨handlers, hm, -⟩ := NetworkManager.foldl_registHandler registered
    { singleThreadHandleMode := true } .nil
  rw [start, hm]
  exact ⟨rfl, by simp, by simp⟩

theorem tasked_exec {registered : List Addr} (hhandler : handler ∈ registered)
    {es : List ThreadsEvent} (hcan : Along (step H afterPackage) Can (start registered true) es)
    (hnone : Along (step H afterPackage) (NoneAfter afterPackage) (start registered true) es) :
    Tasked (exec (step H afterPackage) (start registered true) es) := by
  refine invariant (I := Tasked) ?_ (tasked_start registered)
    ((along_and _ _).2 ⟨ordered_along hhandler hcan, hnone⟩)
  rintro w ev h ⟨⟨-, hw⟩, hn⟩
  exact tasked_step h hw hn

end NetworkThreads

section Trace

variable {handler : Addr}

/-- Calls in order that are all made in `HandleNetTask`. -/
theorem singleThread_of_inOrder {trace : List (Callback (NetworkID × Data))}
    (htask : ∀ x ∈ trace, x.inTask = true ∧ ∃ call, x.call = .inl call)
    (horder : ∀ netId, InOrder (seen handler netId trace)) : SingleThread handler trace := by
  refine ⟨fun x hx _ => (htask x hx).1, fun pre x netId hpre hx habout => ?_⟩
  obtain ⟨call, hcall⟩ := (htask x (hpre.subset (by simp))).2
  have hphase : (call.phase netId).isSome := by
    rw [Callback.About, hcall] at habout
    exact habout
  obtain ⟨p, hp⟩ := Option.isSome_iff_exists.1 hphase
  have hmem : (x.thread, p) ∈ seen handler netId (pre ++ [x]) := by
    refine List.mem_filterMap.2 ⟨x, by simp, ?_⟩
    rw [hcall]
    simp [hx, hp]
  have hin := (horder netId).part (hpre.filterMap _)
  obtain ⟨y, hy, hyc⟩ := List.mem_filterMap.1 (hin.opened_mem hmem)
  rcases hcall' : y.call with call' | object <;> rw [hcall'] at hyc
  · dsimp only at hyc
    split_ifs at hyc with hy'
    obtain ⟨q, hq, heq⟩ := Option.map_eq_some_iff.1 hyc
    obtain ⟨hthread, rfl⟩ := Prod.mk.inj heq
    exact ⟨y, hy, hy', hthread, call', hcall', hq⟩
  · cases hyc

end Trace

namespace SerializeNetworkManager

theorem toNetworkManager_foldl : ∀ (registered : List Addr) (m : SerializeNetworkManager),
    (registered.foldl registSerializeHandler m).toNetworkManager =
      registered.foldl NetworkManager.registHandler m.toNetworkManager
  | [], _ => rfl
  | _ :: registered, _ => toNetworkManager_foldl registered _

/-- Without an object at its front a package is not handed on. -/
theorem afterPackage_eq_nil {behind : Behind} {declared : List GeneratedClass} {fuel : ℕ}
    {m : SerializeNetworkManager} {netId : NetworkID} {data : List Byte} {length : ℤ}
    {calls : List (Addr × NetworkID × Data)} (h : ¬ HoldsObject declared data length)
    (hcalls : m.afterPackage behind declared fuel netId data length = some calls) : calls = [] := by
  obtain ⟨object, hobject, rfl⟩ := Option.map_eq_some_iff.1 hcalls
  rcases object with _ | d
  · rfl
  refine absurd ?_ h
  unfold createFrom at hobject
  split_ifs at hobject with hlen
  dsimp only at hobject
  split_ifs at hobject with hname hcopy hserialize
  · cases hobject
  · split at hobject <;> cases hobject
  · split at hobject
    · cases hobject
    · next g hclass =>
      push Not at hname hserialize
      have hsize : 2 ≤ data.length := not_lt.1 hlen
      obtain ⟨-, hle, -⟩ := hcopy
      refine ⟨?_, hname.1, hname.2, by rw [hclass]; rfl, hserialize⟩
      simp only [sizeofShort] at hle ⊢
      omega

end SerializeNetworkManager

namespace NetworkThreads

theorem serializeStart_eq (others registered : List Addr) :
    serializeStart others registered = start (others ++ registered) true := by
  rw [serializeStart, start, List.foldl_append, SerializeNetworkManager.new,
    SerializeNetworkManager.toNetworkManager_foldl]

theorem noneAfter_of_noObject {behind : Behind} {declared : List GeneratedClass} {fuel : ℕ}
    {m : SerializeNetworkManager} {w : NetworkThreads (NetworkID × Data)} {ev : ThreadsEvent}
    (h : w.NoObject declared ev) : w.NoneAfter (m.afterPackage behind declared fuel) ev := by
  cases ev with
  | run i =>
    intro c hc data length rest hp calls hcalls
    have hobject := h c hc (data, length) (by rw [hp]; rfl)
    exact SerializeNetworkManager.afterPackage_eq_nil hobject hcalls
  | _ => trivial

/-- In single-thread mode every callback is made in `HandleNetTask`, and none for a net id before
the connection's first, in a run in which no package has an object of a known class at its front. -/
theorem callbacks_in_handleNetTask {behind : Behind} {declared : List GeneratedClass} {fuel : ℕ}
    {others registered : List Addr} {handler : Addr} (hhandler : handler ∈ registered)
    {es : List ThreadsEvent}
    (hcan : Along (step littleEndian ((SerializeNetworkManager.new others registered).afterPackage
      behind declared fuel)) Can (serializeStart others registered) es)
    (hnone : Along (step littleEndian ((SerializeNetworkManager.new others registered).afterPackage
      behind declared fuel)) (NoObject declared) (serializeStart others registered) es) :
    SingleThread handler (exec (step littleEndian
      ((SerializeNetworkManager.new others registered).afterPackage behind declared fuel))
      (serializeStart others registered) es).trace := by
  rw [serializeStart_eq] at hcan hnone ⊢
  have hmem : handler ∈ others ++ registered := List.mem_append_right _ hhandler
  have htasked := tasked_exec hmem hcan (along_mono (fun _ _ => noneAfter_of_noObject) hnone)
  exact singleThread_of_inOrder htasked.trace (ordered_exec hmem hcan).inOrder

/-- What a manager with one handler of objects, number 7, and the classes of boxes does after the
base class. -/
def boxAfterPackage : NetworkID → List Byte → ℤ → Option (List (Addr × NetworkID × Data)) :=
  (SerializeNetworkManager.new [] [7]).afterPackage (fun _ => []) boxClasses 2

/-- An empty box. -/
def boxPackage : Chunk := ⟨[5, 0, 0, 0, 1, 0, 98, 0, 0], by simp, by simp [intMax]⟩

/-- A package without a name. -/
def namelessPackage : Chunk := ⟨[3, 0, 0, 0, 0, 0, 65], by simp, by simp [intMax]⟩

/-- A connection is opened and gets a package. -/
def openAndRecv (package : Chunk) : List ThreadsEvent :=
  openFirst ++ runFirst 6 ++ [.recv 0 package] ++ runFirst 7

def handleTasks : List ThreadsEvent := [.handleNetTask, .handle, .handleNetTask, .handle]

theorem callbacks_on_socket_thread :
    ¬ ∀ es, Along (step littleEndian boxAfterPackage) Can (serializeStart [] [7]) es →
      SingleThread 7 (exec (step littleEndian boxAfterPackage) (serializeStart [] [7]) es).trace := by
  intro h
  have hcan : Along (step littleEndian boxAfterPackage) Can (serializeStart [] [7])
      (openAndRecv boxPackage) := by
    decide +kernel
  have hmem : ∃ x ∈ (exec (step littleEndian boxAfterPackage) (serializeStart [] [7])
      (openAndRecv boxPackage)).trace, x.handler = 7 ∧ x.inTask = false := by
    decide +kernel
  obtain ⟨x, hx, hhandler, htask⟩ := hmem
  rw [(h _ hcan).1 x hx hhandler] at htask
  cases htask

theorem callbacks_in_handleNetTask_nameless :
    SingleThread 7 (exec (step littleEndian boxAfterPackage) (serializeStart [] [7])
      (openAndRecv namelessPackage ++ handleTasks)).trace :=
  callbacks_in_handleNetTask (by decide) (by decide +kernel) (by decide +kernel)

end NetworkThreads

end Elegance
