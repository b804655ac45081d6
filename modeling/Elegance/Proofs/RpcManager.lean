import Elegance.RpcHandshake

/-!
# What one callback of the manager does

A callback for one network id leaves the session of every other id, the keys and the ports alone,
and no session is ever stored under the empty id. A message makes a session active exactly when
`OnRecv` takes it for a right key or for the word that one was right.
-/

namespace Elegance

open CInt StdString

variable {ρ : Type} {H : HostLayout}

theorem calculateRPCSessionKey_ne_nil (localPort : Port) (remoteIpAddr : IPAddr)
    (remotePort : Port) : calculateRPCSessionKey localPort remoteIpAddr remotePort ≠ [] := by
  simp [calculateRPCSessionKey]

theorem keyEnds_iff {data : List Byte} (h : data.headD 0 = rpcMessageTypeCheckKey)
    (beyond : List Byte) :
    KeyEnds data beyond ↔ carriedKey data = some (RPCManager.receiveKey data beyond) := by
  rw [KeyEnds, carriedKey, RPCManager.receiveKey]
  by_cases hlen : keyStrOffset ≤ data.length
  · have hends := cString_append_eq_iff (data.drop keyStrOffset) beyond
    rw [if_pos ⟨h, hlen⟩, List.drop_append_of_le_length hlen, Option.some_inj, ← hends]
    exact ⟨fun he => he.2.symm, fun he => ⟨hlen, he.symm⟩⟩
  · simp [hlen]

namespace RPCManager

variable {m m' : RPCManager ρ} {n : NetworkID}

/-- What a callback for the id `n` leaves as it is. -/
structure Leaves (m m' : RPCManager ρ) (n : NetworkID) : Prop where
  listen : m'.listenPort2KeyMap = m.listenPort2KeyMap
  noSession : m.sessionMap.find [] = none → m'.sessionMap.find [] = none
  session : ∀ j, j ≠ n → m'.networkId2SessionIdMap.find j = m.networkId2SessionIdMap.find j
  key : ∀ j, j ≠ n → m'.networkId2KeyMap.find j = m.networkId2KeyMap.find j

theorem Leaves.refl (m : RPCManager ρ) (n : NetworkID) : Leaves m m n :=
  ⟨rfl, id, fun _ _ => rfl, fun _ _ => rfl⟩

theorem find_sessionMap_set {k : RPCSessionID} (hk : k ≠ []) (session : RPCSession ρ) :
    (m.sessionMap.set k session).find [] = m.sessionMap.find [] := by
  rw [StdMap.find_set_eq, if_neg hk.symm]

theorem find_networkId_ne {υ : Type} (map : StdMap NetworkID υ) {j : NetworkID} (hj : j ≠ n)
    (v : υ) : (map.set n v).find j = map.find j := by
  rw [StdMap.find_set_eq, if_neg hj]

theorem find_index_ne {υ : Type} (map : StdMap NetworkID υ) {j : NetworkID} (hj : j ≠ n) (d : υ) :
    (map.index n d).1.find j = map.find j := by
  rw [StdMap.find_index_eq, if_neg hj]

theorem find_index_self {υ : Type} (map : StdMap NetworkID υ) (n : NetworkID) (d : υ) :
    (map.index n d).1.find n = some ((map.find n).getD d) := by
  rw [StdMap.index_fst_find, if_pos (StrictWeakOrd.equiv_refl n)]

theorem leaves_onActiveNetwork (m : RPCManager ρ) (reserveCh : Byte) (n : NetworkID)
    (listenPort : Port) (remoteIpAddr : IPAddr) (remotePort : Port) :
    Leaves m (m.onActiveNetwork reserveCh n listenPort remoteIpAddr remotePort).1 n := by
  refine ⟨rfl, fun hnone => ?_, fun j hj => find_networkId_ne _ hj _, fun j hj => rfl⟩
  rw [onActiveNetwork]
  dsimp only
  split
  · exact hnone
  · rw [find_sessionMap_set (calculateRPCSessionKey_ne_nil _ _ _)]
    exact hnone

theorem leaves_activate (m : RPCManager ρ) (reserveCh : Byte) (n : NetworkID) :
    Leaves m (m.activate reserveCh n).1 n := by
  have h := leaves_onActiveNetwork
    { m with uncheckRpcInfoMap := (m.uncheckRpcInfoMap.index n {}).1 } reserveCh n
    (m.uncheckRpcInfoMap.index n {}).2.localPort (m.uncheckRpcInfoMap.index n {}).2.remoteIpAddr
    (m.uncheckRpcInfoMap.index n {}).2.remotePort
  exact ⟨h.listen, h.noSession, h.session, h.key⟩

theorem activate_enters (m : RPCManager ρ) (reserveCh : Byte) (n : NetworkID) :
    ∃ sessionId, .onSessionActive sessionId ∈ (m.activate reserveCh n).2 :=
  ⟨_, List.mem_singleton_self _⟩

theorem key_activate (m : RPCManager ρ) (reserveCh : Byte) (n : NetworkID) :
    (m.activate reserveCh n).1.networkId2KeyMap = m.networkId2KeyMap := rfl

theorem leaves_onRecv (m : RPCManager ρ) (n : NetworkID) (data beyond : List Byte)
    (reserveCh : Byte) (results : List HandleResult) :
    Leaves m (m.onRecv H n data beyond reserveCh results).1 n := by
  unfold onRecv
  dsimp only
  split_ifs
  · have h := leaves_activate
      { m with networkId2KeyMap := (m.networkId2KeyMap.index n []).1 } reserveCh n
    exact ⟨h.listen, h.noSession, h.session,
      fun j hj => (h.key j hj).trans (find_index_ne _ hj _)⟩
  · exact ⟨rfl, id, fun _ _ => rfl, fun j hj => find_index_ne _ hj _⟩
  · exact leaves_activate _ _ _
  · exact .refl m n
  · have hindex : Leaves m
        { m with networkId2SessionIdMap := (m.networkId2SessionIdMap.index n []).1 } n :=
      ⟨rfl, id, fun j hj => find_index_ne _ hj _, fun _ _ => rfl⟩
    split
    · exact hindex
    · rename_i session hfind
      refine ⟨rfl, fun hnone => ?_, hindex.session, hindex.key⟩
      dsimp only
      rw [find_sessionMap_set fun hnil => by
        rw [hnil, hnone] at hfind
        cases hfind]
      exact hnone

/-- The key noted for an id is the same to the next comparison. -/
theorem key_onRecv (m : RPCManager ρ) (n : NetworkID) (data beyond : List Byte)
    (reserveCh : Byte) (results : List HandleResult) :
    ((m.onRecv H n data beyond reserveCh results).1.networkId2KeyMap.find n).getD [] =
      (m.networkId2KeyMap.find n).getD [] := by
  have hindex : ((m.networkId2KeyMap.index n []).1.find n).getD [] =
      (m.networkId2KeyMap.find n).getD [] := by
    rw [find_index_self, Option.getD_some]
  unfold onRecv
  dsimp only
  split_ifs
  · rw [key_activate]
    exact hindex
  · exact hindex
  · rw [key_activate]
  · rfl
  · split <;> rfl

/-- A message `OnRecv` takes for one of the two makes a session active. -/
theorem onRecv_enters {data beyond : List Byte} {reserveCh : Byte} {results : List HandleResult}
    (h : m.acceptsKey n data beyond = true ∨ acceptsResponse data beyond = true) :
    ∃ sessionId, .onSessionActive sessionId ∈ (m.onRecv H n data beyond reserveCh results).2 := by
  unfold onRecv
  dsimp only
  rcases h with h | h
  · rw [acceptsKey, Bool.and_eq_true, decide_eq_true_eq, decide_eq_true_eq] at h
    rw [if_pos h.1, StdMap.index_snd, if_pos h.2]
    obtain ⟨sessionId, hmem⟩ := activate_enters
      { m with networkId2KeyMap := (m.networkId2KeyMap.index n []).1 } reserveCh n
    exact ⟨sessionId, List.mem_cons_of_mem _ hmem⟩
  · rw [acceptsResponse, Bool.and_eq_true, decide_eq_true_eq, decide_eq_true_eq] at h
    rw [if_neg (by rw [h.1]; decide), if_pos h.1, if_pos h.2]
    exact activate_enters m reserveCh n

/-- On an id without a session every other message enters none and leaves the id without one. -/
theorem onRecv_refuses {data beyond : List Byte} {reserveCh : Byte} {results : List HandleResult}
    (hkey : m.acceptsKey n data beyond = false) (hresponse : acceptsResponse data beyond = false)
    (hsession : (m.networkId2SessionIdMap.find n).getD [] = [])
    (hnone : m.sessionMap.find [] = none) :
    (∀ call ∈ (m.onRecv H n data beyond reserveCh results).2, call.entersSession = false) ∧
      ((m.onRecv H n data beyond reserveCh results).1.networkId2SessionIdMap.find n).getD [] =
        [] := by
  unfold onRecv
  dsimp only
  rw [StdMap.index_snd, StdMap.index_snd, hsession]
  split_ifs with htype hright htype' hright'
  · rw [acceptsKey, htype, hright] at hkey
    simp at hkey
  · exact ⟨by simp [RPCManagerCall.entersSession], hsession⟩
  · rw [acceptsResponse, htype', hright'] at hresponse
    simp at hresponse
  · exact ⟨by simp [RPCManagerCall.entersSession], hsession⟩
  · rw [hnone]
    refine ⟨by simp, ?_⟩
    dsimp only
    rw [find_index_self, Option.getD_some]
    exact hsession

theorem leaves_onAccept (m : RPCManager ρ) (remoteIpAddr : IPAddr) (remotePort localPort : Port)
    (n : NetworkID) : Leaves m (m.onAccept remoteIpAddr remotePort localPort n) n := by
  unfold onAccept
  split
  · exact .refl m n
  · exact ⟨rfl, id, fun _ _ => rfl, fun j hj => find_networkId_ne _ hj _⟩

theorem onAccept_session (m : RPCManager ρ) (remoteIpAddr : IPAddr) (remotePort localPort : Port)
    (n : NetworkID) : (m.onAccept remoteIpAddr remotePort localPort n).networkId2SessionIdMap =
      m.networkId2SessionIdMap := by
  unfold onAccept
  split <;> rfl

/-- A connection accepted on a port with a key has that key noted. -/
theorem onAccept_key {remoteIpAddr : IPAddr} {remotePort localPort : Port} {key : List Byte}
    (h : m.listenPort2KeyMap.find localPort.toNat = some key) :
    (m.onAccept remoteIpAddr remotePort localPort n).networkId2KeyMap.find n = some key := by
  rw [onAccept, h]
  simp

theorem onConnect_fields (m : RPCManager ρ) (ip : IPAddr) (port localPort : Port) (success : Bool)
    (n : NetworkID) : (m.onConnect H ip port localPort success n).1 =
      { m with uncheckRpcInfoMap :=
        (m.onConnect H ip port localPort success n).1.uncheckRpcInfoMap } := by
  unfold onConnect
  split_ifs
  · rfl
  · split
    · rfl
    · split_ifs <;> rfl

theorem onConnect_enters {ip : IPAddr} {port localPort : Port} {success : Bool} {n : NetworkID} :
    ∀ call ∈ (m.onConnect H ip port localPort success n).2, call.entersSession = false := by
  unfold onConnect
  split_ifs
  · simp [RPCManagerCall.entersSession]
  · split
    · simp
    · split_ifs <;> simp [RPCManagerCall.entersSession]

theorem leaves_onDisconnect (m : RPCManager ρ) (n : NetworkID) :
    Leaves m (m.onDisconnect n).1 n := by
  refine ⟨rfl, id, fun j hj => ?_, fun _ _ => rfl⟩
  rw [onDisconnect]
  dsimp only
  rw [StdMap.find_erase_eq, if_neg hj]
  exact find_index_ne _ hj _

theorem onDisconnect_session (m : RPCManager ρ) (n : NetworkID) :
    (m.onDisconnect n).1.networkId2SessionIdMap.find n = none := by
  rw [onDisconnect]
  simp

theorem onDisconnect_enters (m : RPCManager ρ) (n : NetworkID) :
    ∀ call ∈ (m.onDisconnect n).2, call.entersSession = false := by
  rw [onDisconnect]
  dsimp only
  split <;> simp [RPCManagerCall.entersSession]

theorem registerHandler_fields (m : RPCManager ρ) (sessionId : RPCSessionID) (handler : Addr) :
    ∃ sessionMap, m.registerHandler sessionId handler = { m with sessionMap } ∧
      (m.sessionMap.find [] = none → sessionMap.find [] = none) := by
  unfold registerHandler
  split
  · exact ⟨m.sessionMap, rfl, id⟩
  · rename_i session hfind
    refine ⟨_, rfl, fun hnone => ?_⟩
    rw [find_sessionMap_set fun hnil => by
      rw [hnil, hnone] at hfind
      cases hfind]
    exact hnone

end RPCManager

end Elegance
