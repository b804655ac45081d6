import Elegance.HandleNetTask

/-!
# Queued mode and direct mode

A manager in single-thread mode and one in direct mode go through the same states but for the queue
(`report_queued`): where the one makes the calls, the other puts a task that stands for them behind
the queue. Draining the queue then makes the calls of direct mode, as long as every package had
room in its task (`queued_refines_direct`).
-/

namespace Elegance

namespace NetworkManager

/-- The calls of some tasks. -/
def callsOf (handlers : List Addr) (tasks : List NetworkHandleTask) : List (Addr × HandlerCall) :=
  tasks.flatMap fun task => handlers.map fun handler => (handler, task.call)

theorem callsOf_append (handlers : List Addr) (t t' : List NetworkHandleTask) :
    callsOf handlers (t ++ t') = callsOf handlers t ++ callsOf handlers t' :=
  List.flatMap_append

/-- The manager in the other mode, with tasks in its queue. -/
def queued (m : NetworkManager) (q : List NetworkHandleTask) : NetworkManager :=
  { m with singleThreadHandleMode := true, handleTaskQueue := q }

/-- What a step of the manager in direct mode does, it does in single-thread mode by way of the
tasks. -/
def Queues (m : NetworkManager) (q : List NetworkHandleTask)
    (direct single : Option (NetworkManager × List (Addr × HandlerCall))) : Prop :=
  ∃ m' tasks, direct = some (m', callsOf m.handlerList tasks) ∧
    single = some (m'.queued (q ++ tasks), []) ∧
    m'.singleThreadHandleMode = false ∧ m'.handlerList = m.handlerList

variable {m : NetworkManager} {q : List NetworkHandleTask}

theorem tell_queues {m' : NetworkManager} (hmode : m'.singleThreadHandleMode = false)
    (hhandlers : m'.handlerList = m.handlerList) {task : NetworkHandleTask} {call : HandlerCall}
    (hcall : task.call = call) :
    Queues m q (some (m'.tell task call)) (some ((m'.queued q).tell task call)) := by
  refine ⟨m', [task], ?_, ?_, hmode, hhandlers⟩
  · simp [tell, hmode, callsOf, hcall, hhandlers]
  · simp [tell, queued]

theorem getFreeNetID_queued (m : NetworkManager) (q : List NetworkHandleTask) :
    (m.queued q).getFreeNetID = (m.getFreeNetID.1, m.getFreeNetID.2.queued q) := by
  unfold getFreeNetID queued
  rcases m.freeNetIdList with _ | ⟨id, rest⟩ <;> rfl

theorem getFreeNetID_mode (m : NetworkManager) :
    m.getFreeNetID.2.singleThreadHandleMode = m.singleThreadHandleMode ∧
      m.getFreeNetID.2.handlerList = m.handlerList := by
  unfold getFreeNetID
  split <;> exact ⟨rfl, rfl⟩

theorem onAccept_queues (hmode : m.singleThreadHandleMode = false)
    (accepts : Addr → SocketAccept) (ip : IPAddr) (port localPort : Port) :
    Queues m q (some (onAccept accepts m ip port localPort))
      (some (onAccept accepts (m.queued q) ip port localPort)) := by
  obtain ⟨hmode', hhandlers⟩ := getFreeNetID_mode m
  unfold onAccept
  rw [getFreeNetID_queued]
  refine tell_queues ?_ ?_ ?_
  · exact hmode'.trans hmode
  · exact hhandlers
  · rfl

theorem onConnect_queues (hmode : m.singleThreadHandleMode = false)
    (connects : Addr → SocketConnect) (ip : IPAddr) (port localPort : Port) :
    Queues m q (some (onConnect connects m ip port localPort))
      (some (onConnect connects (m.queued q) ip port localPort)) := by
  obtain ⟨hmode', hhandlers⟩ := getFreeNetID_mode m
  unfold onConnect
  rw [getFreeNetID_queued]
  refine tell_queues ?_ ?_ ?_
  · exact hmode'.trans hmode
  · exact hhandlers
  · rfl

theorem nothing_queues (hmode : m.singleThreadHandleMode = false) :
    Queues m q (some (m, [])) (some (m.queued q, [])) :=
  ⟨m, [], rfl, by rw [List.append_nil], hmode, rfl⟩

theorem onDisconnect_queues (hmode : m.singleThreadHandleMode = false) (ip : IPAddr)
    (port localPort : Port) :
    Queues m q (some (m.onDisconnect ip port localPort))
      (some ((m.queued q).onDisconnect ip port localPort)) := by
  unfold onDisconnect
  rw [show (m.queued q).endpointToNetIdMap = m.endpointToNetIdMap from rfl]
  rcases m.endpointToNetIdMap.find ⟨ip, port, localPort⟩ with _ | netId
  · exact nothing_queues hmode
  · simp only [tell, queued, hmode, Bool.false_eq_true, if_false, if_true]
    refine ⟨{ m with
      netIdToEndpointMap := m.netIdToEndpointMap.erase netId
      endpointToNetIdMap := m.endpointToNetIdMap.erase ⟨ip, port, localPort⟩
      netIdToAccept := m.netIdToAccept.erase netId
      netIdToConnect := m.netIdToConnect.erase netId
      freeNetIdList := netId :: m.freeNetIdList },
      [{ taskType := .onDisconnect, netId, localPort }], ?_, rfl, hmode, rfl⟩
    rw [callsOf, List.flatMap_singleton]
    rw [hmode]
    rfl

theorem onRecvPackage_queues (hmode : m.singleThreadHandleMode = false) {netId : NetworkID}
    {data : List Byte} {length : ℤ} (hread : length ≤ data.length)
    (hfits : 0 < netId → length ≤ maxSocketMsgBuffLength) :
    Queues m q (m.onRecvPackage netId data length) ((m.queued q).onRecvPackage netId data length) := by
  unfold onRecvPackage
  by_cases h : netId ≤ 0 ∨ length ≤ 0
  · rw [if_pos h, if_pos h]
    exact nothing_queues hmode
  · obtain ⟨hid, hlength⟩ := not_or.1 h
    have hin : MemCopy.InBounds ⟨length, data.length, 0, maxSocketMsgBuffLength⟩ := by
      refine ⟨(not_le.1 hlength).le, hread, le_refl 0, ?_⟩
      rw [zero_add]
      exact hfits (not_le.1 hid)
    rw [if_neg h, if_neg h, if_neg (by simp [hmode]), if_neg (by simp [hin])]
    refine tell_queues hmode rfl ?_
    rw [NetworkHandleTask.call]
    simp only [List.take_take, min_self]

/-- One event. -/
theorem report_queues (hmode : m.singleThreadHandleMode = false) {ev : ManagerEvent}
    (hread : ev.Readable) (hfits : ev.Fits) :
    Queues m q (m.report ev) ((m.queued q).report ev) := by
  cases ev with
  | listenFail port => exact tell_queues hmode rfl rfl
  | connectFail ip port localPort => exact tell_queues hmode rfl rfl
  | accept accepts ip port localPort => exact onAccept_queues hmode accepts ip port localPort
  | connect connects ip port localPort => exact onConnect_queues hmode connects ip port localPort
  | recvPackage netId data length => exact onRecvPackage_queues hmode hread hfits
  | disconnect ip port localPort => exact onDisconnect_queues hmode ip port localPort

/-- A package that has no room in a task is copied past it. -/
theorem report_overrun {ev : ManagerEvent} (hfits : ¬ ev.Fits) : (m.queued q).report ev = none := by
  cases ev with
  | recvPackage netId data length =>
    rw [ManagerEvent.Fits] at hfits
    push Not at hfits
    obtain ⟨hid, hlength⟩ := hfits
    have hout : ¬ MemCopy.InBounds ⟨length, data.length, 0, maxSocketMsgBuffLength⟩ := by
      rintro ⟨-, -, -, hle⟩
      rw [zero_add] at hle
      exact absurd hle (not_le.2 hlength)
    have hpos : 0 < length := lt_of_le_of_lt (Int.natCast_nonneg _) hlength
    unfold report onRecvPackage
    dsimp only
    rw [if_neg (not_or.2 ⟨not_le.2 hid, not_le.2 hpos⟩), if_pos ⟨rfl, hout⟩]
  | _ => exact absurd trivial hfits

theorem reports_queues : ∀ {m : NetworkManager} (q : List NetworkHandleTask) {evs : List ManagerEvent},
    m.singleThreadHandleMode = false → (∀ ev ∈ evs, ev.Readable) → (∀ ev ∈ evs, ev.Fits) →
      Queues m q (m.reports evs) ((m.queued q).reports evs)
  | m, q, [], hmode, _, _ => nothing_queues hmode
  | m, q, ev :: evs, hmode, hread, hfits => by
    obtain ⟨m', tasks, hdirect, hsingle, hmode', hhandlers⟩ :=
      @report_queues m q hmode ev (hread ev List.mem_cons_self) (hfits ev List.mem_cons_self)
    obtain ⟨m'', rest, hdirect', hsingle', hmode'', hhandlers'⟩ :=
      reports_queues (q ++ tasks) hmode' (fun b hb => hread b (List.mem_cons_of_mem ev hb))
        (fun b hb => hfits b (List.mem_cons_of_mem ev hb))
    refine ⟨m'', tasks ++ rest, ?_, ?_, hmode'', hhandlers'.trans hhandlers⟩
    · rw [reports, hdirect]
      dsimp only [Option.bind_eq_bind, Option.bind_some]
      rw [hdirect', callsOf_append, hhandlers]
      rfl
    · rw [reports, hsingle]
      dsimp only [Option.bind_eq_bind, Option.bind_some]
      rw [hsingle', List.append_assoc]
      rfl

theorem reports_overrun : ∀ {m : NetworkManager} (q : List NetworkHandleTask)
    {evs : List ManagerEvent}, m.singleThreadHandleMode = false → (∀ ev ∈ evs, ev.Readable) →
      (¬ ∀ ev ∈ evs, ev.Fits) → (m.queued q).reports evs = none
  | m, q, [], _, _, hfits => absurd (by simp) hfits
  | m, q, ev :: evs, hmode, hread, hfits => by
    by_cases hev : ev.Fits
    · obtain ⟨m', tasks, -, hsingle, hmode', -⟩ :=
        @report_queues m q hmode ev (hread ev List.mem_cons_self) hev
      have hrest : ¬ ∀ ev ∈ evs, ev.Fits := by
        intro hall
        exact hfits (List.forall_mem_cons.2 ⟨hev, hall⟩)
      rw [reports, hsingle]
      dsimp only [Option.bind_eq_bind, Option.bind_some]
      rw [reports_overrun (q ++ tasks) hmode' (fun b hb => hread b (List.mem_cons_of_mem ev hb)) hrest]
      rfl
    · rw [reports, report_overrun hev]
      rfl

theorem handleNetTasks_eq : ∀ (n : ℕ) (m : NetworkManager),
    (handleNetTasks n m).1.handleTaskQueue = m.handleTaskQueue.drop n ∧
      (handleNetTasks n m).2 = callsOf m.handlerList (m.handleTaskQueue.take n)
  | 0, m => ⟨rfl, rfl⟩
  | n + 1, m => by
    rw [handleNetTasks, handleNetTask]
    rcases hqueue : m.handleTaskQueue with _ | ⟨task, rest⟩
    · obtain ⟨hdrop, htake⟩ := handleNetTasks_eq n m
      rw [hqueue] at hdrop htake
      refine ⟨?_, ?_⟩
      · simpa using hdrop
      · simpa using htake
    · obtain ⟨hdrop, htake⟩ := handleNetTasks_eq n { m with handleTaskQueue := rest }
      refine ⟨hdrop, ?_⟩
      dsimp only
      rw [htake]
      rfl

/-- In single-thread mode the run stays defined, and `HandleNetTask`, called until the queue is
empty, makes the calls of direct mode. -/
def QueuedIsDirect (m : NetworkManager) (evs : List ManagerEvent) : Prop :=
  ∃ direct single,
    { m with singleThreadHandleMode := false }.reports evs = some direct ∧
    { m with singleThreadHandleMode := true }.reports evs = some single ∧
    (∃ n, (handleNetTasks n single.1).1.handleTaskQueue = []) ∧
    ∀ n, (handleNetTasks n single.1).1.handleTaskQueue = [] →
      single.2 ++ (handleNetTasks n single.1).2 = direct.2

/-- Queued mode makes the calls of direct mode exactly when every package fits into its task. -/
theorem queued_refines_direct {m : NetworkManager} (hempty : m.handleTaskQueue = [])
    {evs : List ManagerEvent} (hread : ∀ ev ∈ evs, ev.Readable) :
    m.QueuedIsDirect evs ↔ ∀ ev ∈ evs, ev.Fits := by
  have hqueued : { m with singleThreadHandleMode := true } =
      ({ m with singleThreadHandleMode := false } : NetworkManager).queued [] := by
    rw [queued, hempty]
  unfold QueuedIsDirect
  rw [hqueued]
  constructor
  · rintro ⟨_, single, -, hsingle, -⟩
    by_contra hfits
    rw [reports_overrun [] rfl hread hfits] at hsingle
    cases hsingle
  · intro hfits
    obtain ⟨m', tasks, hdirect, hsingle, -, hhandlers⟩ :=
      reports_queues (m := { m with singleThreadHandleMode := false }) [] rfl hread hfits
    refine ⟨_, _, hdirect, hsingle, ⟨tasks.length, ?_⟩, ?_⟩
    · rw [(handleNetTasks_eq _ _).1]
      simp [queued]
    · intro n hn
      obtain ⟨hdrop, htake⟩ := handleNetTasks_eq n (m'.queued ([] ++ tasks))
      rw [hdrop] at hn
      rw [htake, List.take_of_length_le (List.drop_eq_nil_iff.1 hn)]
      simp [queued, hhandlers]

/-- A package of 4097 bytes. -/
theorem queued_refines_direct_overrun :
    ¬ QueuedIsDirect { handlerList := [1] }
      [.recvPackage 1 (List.replicate 4097 7) 4097] := by
  rintro ⟨_, single, -, hsingle, -⟩
  have hfits : ¬ (ManagerEvent.recvPackage 1 (List.replicate 4097 7) 4097).Fits := by
    simp [ManagerEvent.Fits, maxSocketMsgBuffLength]
  have hnone : (queued { handlerList := [1] } []).report
      (.recvPackage 1 (List.replicate 4097 7) 4097) = none := report_overrun hfits
  rw [show ({ handlerList := [1], singleThreadHandleMode := true } : NetworkManager) =
    queued { handlerList := [1] } [] from rfl, reports, hnone] at hsingle
  cases hsingle

theorem queued_refines_direct_fits :
    QueuedIsDirect { handlerList := [1, 2] }
      [.connectFail [49] 80 5, .recvPackage 1 [7, 8] 2, .disconnect [49] 80 5] := by
  refine (queued_refines_direct rfl ?_).2 ?_
  · simp [ManagerEvent.Readable]
  · simp [ManagerEvent.Fits, maxSocketMsgBuffLength]

end NetworkManager

end Elegance
