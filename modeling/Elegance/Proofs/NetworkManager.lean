import Elegance.NetworkManager
import Elegance.Lib.IdPool

/-!
# What the manager's callbacks do to its tables

`OnAccept` and `OnConnect` enter one id and one endpoint (`Opens`), the owner being the last socket
object in set order that passes `CheckOnHandle`; `OnDisconnect` takes them out again (`Closes`).
-/

namespace Elegance

open CInt StrictWeakOrd

section Register

variable {check : Addr → Bool} {netId : NetworkID} {e : Endpoint}

theorem find_owner_registerSockets : ∀ (sockets : List Addr) (owner : StdMap NetworkID Addr)
    (t : EndpointTables) (k : NetworkID),
    (registerSockets check netId e sockets (owner, t)).1.find k =
      if k = netId then ((sockets.filter check).getLast?).or (owner.find k) else owner.find k
  | [], owner, t, k => by simp [registerSockets]
  | s :: sockets, owner, t, k => by
    rw [registerSockets]
    rcases hs : check s with _ | _
    · rw [if_neg (by simp), find_owner_registerSockets, List.filter_cons_of_neg (by simp [hs])]
    · rw [if_pos rfl, find_owner_registerSockets, List.filter_cons_of_pos hs, List.getLast?_cons,
        StdMap.find_set_eq]
      by_cases hk : k = netId
      · subst hk
        simp only [if_true]
        rcases (sockets.filter check).getLast? with _ | b <;> rfl
      · rw [if_neg hk, if_neg hk, if_neg hk]

theorem registerSockets_tables_none : ∀ (sockets : List Addr) (owner : StdMap NetworkID Addr)
    (t : EndpointTables), (∀ a ∈ sockets, check a = false) →
    (registerSockets check netId e sockets (owner, t)).2 = t
  | [], _, _, _ => rfl
  | s :: sockets, owner, t, h => by
    rw [registerSockets, if_neg (by simp [h s List.mem_cons_self])]
    exact registerSockets_tables_none sockets owner t fun a ha => h a (List.mem_cons_of_mem _ ha)

/-- Entering the endpoint again changes nothing. -/
theorem find_tables_registerSockets : ∀ (sockets : List Addr) (owner : StdMap NetworkID Addr)
    (t : EndpointTables), (∃ a ∈ sockets, check a = true) →
    (∀ k, (registerSockets check netId e sockets (owner, t)).2.netIdToEndpointMap.find k =
      if k = netId then some e else t.netIdToEndpointMap.find k) ∧
    ∀ e', (registerSockets check netId e sockets (owner, t)).2.endpointToNetIdMap.find e' =
      if equiv e e' then some netId else t.endpointToNetIdMap.find e'
  | [], _, _, h => by simp at h
  | s :: sockets, owner, t, h => by
    rw [registerSockets]
    by_cases hrest : ∃ a ∈ sockets, check a = true
    · split_ifs with hs
      · obtain ⟨hid, hep⟩ := find_tables_registerSockets sockets (owner.set netId s)
          { netIdToEndpointMap := t.netIdToEndpointMap.set netId e
            endpointToNetIdMap := t.endpointToNetIdMap.set e netId } hrest
        refine ⟨fun k => ?_, fun e' => ?_⟩
        · rw [hid, StdMap.find_set_eq]
          split_ifs <;> rfl
        · rw [hep, StdMap.find_set]
          split_ifs <;> rfl
      · exact find_tables_registerSockets sockets owner t hrest
    · push Not at hrest
      have hs : check s = true := by
        obtain ⟨a, ha, hca⟩ := h
        rcases List.mem_cons.1 ha with rfl | ha
        · exact hca
        · exact absurd hca (hrest a ha)
      rw [if_pos hs, registerSockets_tables_none _ _ _ fun a ha => by simpa using hrest a ha]
      refine ⟨fun k => ?_, fun e' => StdMap.find_set _ _ _ _⟩
      exact StdMap.find_set_eq _ _ _ _

end Register

theorem nodup_orderedInsert {l : List Addr} {a : Addr} (ha : a ∉ l) (hl : l.Nodup) :
    (l.orderedInsert (· ≤ ·) a).Nodup :=
  (List.perm_orderedInsert _ a l).nodup_iff.2 (List.nodup_cons.2 ⟨ha, hl⟩)

namespace NetworkManager

/-- The manager entered `e` under the id that was next. -/
structure Opens (m m' : NetworkManager) (e : Endpoint) : Prop where
  acceptList : m'.acceptList = m.acceptList
  connectList : m'.connectList = m.connectList
  buffers : m'.netIdToBufferMap = m.netIdToBufferMap
  free : m'.freeNetIdList = m.getFreeNetID.2.freeNetIdList
  max : m'.maxNetId = m.getFreeNetID.2.maxNetId
  byId : ∀ k, m'.netIdToEndpointMap.find k =
    if k = m.getFreeNetID.1 then some e else m.netIdToEndpointMap.find k
  byEndpoint : ∀ e', m'.endpointToNetIdMap.find e' =
    if equiv e e' then some m.getFreeNetID.1 else m.endpointToNetIdMap.find e'

/-- The manager took out `netId`, found under `e`. -/
structure Closes (m m' : NetworkManager) (netId : NetworkID) (e : Endpoint) : Prop where
  acceptList : m'.acceptList = m.acceptList
  connectList : m'.connectList = m.connectList
  buffers : m'.netIdToBufferMap = m.netIdToBufferMap
  free : m'.freeNetIdList = netId :: m.freeNetIdList
  max : m'.maxNetId = m.maxNetId
  byId : ∀ k, m'.netIdToEndpointMap.find k =
    if k = netId then none else m.netIdToEndpointMap.find k
  byEndpoint : ∀ e', m'.endpointToNetIdMap.find e' =
    if equiv e e' then none else m.endpointToNetIdMap.find e'
  accept : ∀ k, m'.netIdToAccept.find k = if k = netId then none else m.netIdToAccept.find k
  connect : ∀ k, m'.netIdToConnect.find k = if k = netId then none else m.netIdToConnect.find k

@[simp]
theorem tell_fields (m : NetworkManager) (task : NetworkHandleTask) (call : HandlerCall) :
    (m.tell task call).1 = { m with handleTaskQueue := (m.tell task call).1.handleTaskQueue } := by
  unfold tell
  split_ifs <;> rfl

theorem getFreeNetID_fields (m : NetworkManager) : m.getFreeNetID.2 =
    { m with
      freeNetIdList := m.getFreeNetID.2.freeNetIdList
      maxNetId := m.getFreeNetID.2.maxNetId } := by
  unfold getFreeNetID
  split <;> rfl

variable {m : NetworkManager} {accepts : Addr → SocketAccept} {connects : Addr → SocketConnect}
  {ip : IPAddr} {port localPort : Port}

theorem onAccept_opens (h : ∃ a ∈ m.acceptList, (accepts a).checkOnHandle ip port = true) :
    Opens m (m.onAccept accepts ip port localPort).1 ⟨ip, port, localPort⟩ := by
  have hlist : m.getFreeNetID.2.acceptList = m.acceptList := by rw [getFreeNetID_fields]
  have htab : m.getFreeNetID.2.toEndpointTables = m.toEndpointTables := by rw [getFreeNetID_fields]
  have hreg := fun (netId : NetworkID) (e : Endpoint) =>
    @find_tables_registerSockets _ netId e m.acceptList m.getFreeNetID.2.netIdToAccept
      m.toEndpointTables h
  obtain ⟨hid, hep⟩ := hreg m.getFreeNetID.1 ⟨ip, port, localPort⟩
  unfold onAccept
  dsimp only
  rw [tell_fields, hlist, htab]
  refine ⟨rfl, ?_, ?_, rfl, rfl, hid, hep⟩ <;> dsimp only <;> rw [getFreeNetID_fields]

theorem onConnect_opens (h : ∃ a ∈ m.connectList, (connects a).checkOnHandle ip port = true) :
    Opens m (m.onConnect connects ip port localPort).1 ⟨ip, port, localPort⟩ := by
  have hlist : m.getFreeNetID.2.connectList = m.connectList := by rw [getFreeNetID_fields]
  have htab : m.getFreeNetID.2.toEndpointTables = m.toEndpointTables := by rw [getFreeNetID_fields]
  have hreg := fun (netId : NetworkID) (e : Endpoint) =>
    @find_tables_registerSockets _ netId e m.connectList m.getFreeNetID.2.netIdToConnect
      m.toEndpointTables h
  obtain ⟨hid, hep⟩ := hreg m.getFreeNetID.1 ⟨ip, port, localPort⟩
  unfold onConnect
  dsimp only
  rw [tell_fields, hlist, htab]
  refine ⟨?_, rfl, ?_, rfl, rfl, hid, hep⟩ <;> dsimp only <;> rw [getFreeNetID_fields]

theorem onAccept_owners (k : NetworkID) :
    (m.onAccept accepts ip port localPort).1.netIdToAccept.find k =
      (if k = m.getFreeNetID.1 then ((m.acceptList.filter
        fun a => (accepts a).checkOnHandle ip port).getLast?).or (m.netIdToAccept.find k)
      else m.netIdToAccept.find k) ∧
    (m.onAccept accepts ip port localPort).1.netIdToConnect = m.netIdToConnect := by
  unfold onAccept
  dsimp only
  rw [tell_fields]
  dsimp only
  rw [find_owner_registerSockets, getFreeNetID_fields]
  exact ⟨rfl, rfl⟩

theorem onConnect_owners (k : NetworkID) :
    (m.onConnect connects ip port localPort).1.netIdToConnect.find k =
      (if k = m.getFreeNetID.1 then ((m.connectList.filter
        fun a => (connects a).checkOnHandle ip port).getLast?).or (m.netIdToConnect.find k)
      else m.netIdToConnect.find k) ∧
    (m.onConnect connects ip port localPort).1.netIdToAccept = m.netIdToAccept := by
  unfold onConnect
  dsimp only
  rw [tell_fields]
  dsimp only
  rw [find_owner_registerSockets, getFreeNetID_fields]
  exact ⟨rfl, rfl⟩

theorem onDisconnect_closes {netId : NetworkID}
    (h : m.endpointToNetIdMap.find ⟨ip, port, localPort⟩ = some netId) :
    Closes m (m.onDisconnect ip port localPort).1 netId ⟨ip, port, localPort⟩ := by
  unfold onDisconnect
  rw [h]
  dsimp only
  rw [tell_fields]
  exact ⟨rfl, rfl, rfl, rfl, rfl, fun k => StdMap.find_erase_eq _ _ k, StdMap.find_erase _ _,
    fun k => StdMap.find_erase_eq _ _ k, fun k => StdMap.find_erase_eq _ _ k⟩

/-- The ids in use, with the one just issued. -/
theorem pool_getFreeNetID {used : List NetworkID} (hused : (used.length : ℤ) < intMax)
    (h : Pool 1 (m.maxNetId + 1) m.freeNetIdList used) :
    Pool 1 (m.getFreeNetID.2.maxNetId + 1) m.getFreeNetID.2.freeNetIdList
      (m.getFreeNetID.1 :: used) ∧ m.getFreeNetID.1 ∉ used := by
  unfold getFreeNetID
  rcases hf : m.freeNetIdList with _ | ⟨i, rest⟩ <;> rw [hf] at h <;> dsimp only
  · have hlen := h.length_used
    have hwrap : wrap32 (m.maxNetId + 1) = m.maxNetId + 1 := by
      refine wrap32_of_range ?_ ?_
      · rw [intMin]
        omega
      · omega
    rw [hwrap]
    exact ⟨h.make, h.next_not_mem⟩
  · exact ⟨h.take, h.not_mem_used⟩

/-- The object a write of `SendRaw` is on is the one entered for the id. -/
theorem writer_of_mem_sendRaw {m : NetworkManager} {id : NetworkID} {data : List Byte}
    {x : SocketWrite} (h : x ∈ m.sendRaw id data) :
    match x with
    | .accept a _ _ _ => m.netIdToAccept.find id = some a
    | .connect a _ => m.netIdToConnect.find id = some a := by
  unfold sendRaw at h
  split at h
  · cases h
  rcases List.mem_append.1 h with h | h
  · split at h
    · rename_i a ha
      obtain rfl := List.mem_singleton.1 h
      exact ha
    · cases h
  · split at h
    · rename_i a ha
      obtain rfl := List.mem_singleton.1 h
      exact ha
    · cases h

end NetworkManager

end Elegance
