import Elegance.Proofs.RpcManager
import Elegance.Proofs.RpcSession
import Elegance.RpcSessions

/-!
# What one event does to the sessions of a manager

Only a message that `OnRecv` takes for a right key or for the word that one was right, and the end of
an id, change which ids and sessions belong together; a session keeps the id and the endpoint it was
created with.
-/

namespace Elegance

open CInt StdString

variable {ρ : Type} {H : HostLayout}

/-- The key of a session with this endpoint. -/
def Endpoint.sessionKey (endpoint : Endpoint) : RPCSessionID :=
  calculateRPCSessionKey endpoint.localPort endpoint.remoteIpAddr endpoint.remotePort

theorem Endpoint.sessionKey_injective : Function.Injective Endpoint.sessionKey := by
  have hport : ∀ {p p' : Port}, decimal p.toNat = decimal p'.toNat → p = p' :=
    fun h => UInt16.toNat_inj.1 (decimal_injective h)
  rintro ⟨ip, remote, loc⟩ ⟨ip', remote', loc'⟩ h
  unfold sessionKey calculateRPCSessionKey at h
  dsimp only at h
  obtain ⟨hlocal, hrest⟩ := append_cons_inj (underscore_not_mem_decimal _)
    (underscore_not_mem_decimal _) h
  have hreverse := congrArg List.reverse hrest
  simp only [List.reverse_append, List.reverse_cons, List.append_assoc,
    List.singleton_append] at hreverse
  obtain ⟨hremote, hip⟩ := append_cons_inj (by simp [underscore_not_mem_decimal])
    (by simp [underscore_not_mem_decimal]) hreverse
  rw [List.reverse_inj] at hremote hip
  simp only [hip, hport hlocal, hport hremote]

namespace RPCManager

variable {m m' : RPCManager ρ} {n : NetworkID}

theorem sessionIdFor_eq (m : RPCManager ρ) (n : NetworkID) :
    m.sessionIdFor n = (m.infoEndpoint n).sessionKey := rfl

/-- What is kept of a session for good: its id and its endpoint. -/
def identity (m : RPCManager ρ) (sessionId : RPCSessionID) : Option (NetworkID × Endpoint) :=
  (m.sessionMap.find sessionId).map fun session => (session.networkId, session.endpoint)

/-- The sessions and what they are bound to stay. -/
structure Quiet (m m' : RPCManager ρ) : Prop where
  networks : ∀ n, m'.networkId2SessionIdMap.find n = m.networkId2SessionIdMap.find n
  sessions : ∀ sid, m'.sessionId2NetworkIdMap.find sid = m.sessionId2NetworkIdMap.find sid
  identity : ∀ sid, m'.identity sid = m.identity sid

theorem Quiet.refl (m : RPCManager ρ) : Quiet m m := ⟨fun _ => rfl, fun _ => rfl, fun _ => rfl⟩

/-- A session is replaced by what it has become. -/
theorem identity_set {session session' : RPCSession ρ} {sid : RPCSessionID}
    (hfind : m.sessionMap.find sid = some session)
    (hsame : (session'.networkId, session'.endpoint) = (session.networkId, session.endpoint))
    (k : RPCSessionID) :
    { m with sessionMap := m.sessionMap.set sid session' }.identity k = m.identity k := by
  unfold identity
  dsimp only
  rw [StdMap.find_set_eq]
  by_cases hk : k = sid
  · rw [if_pos hk, hk, hfind, Option.map_some, Option.map_some, hsame]
  · rw [if_neg hk]

theorem session_onRecv (session : RPCSession ρ) (data : List Byte) (results : List HandleResult) :
    ((session.onRecv H data results).1.networkId, (session.onRecv H data results).1.endpoint) =
      (session.networkId, session.endpoint) := by
  unfold RPCSession.onRecv
  split_ifs
  · rfl
  · dsimp only
    split <;> rfl
  · rfl
  · rfl

theorem session_asyncCall {session session' : RPCSession ρ} {req : ρ} {data message : List Byte}
    {id : ℤ} (h : session.asyncCall H req data = .sent id message session') :
    (session'.networkId, session'.endpoint) = (session.networkId, session.endpoint) := by
  have hfields := session.getRequestID_fields
  unfold RPCSession.asyncCall at h
  split_ifs at h
  rcases hid : session.getRequestID with ⟨id, s⟩
  rw [hid] at h hfields
  dsimp only at h hfields
  split at h
  · cases h
  · injection h with hid hm hs
    rw [← hs, RPCSession.register, hfields]

theorem mem_activityOf {sid : RPCSessionID} {calls : List (RPCManagerCall ρ)} :
    true ∈ activityOf sid calls ↔ .onSessionActive sid ∈ calls := by
  unfold activityOf
  rw [List.mem_filterMap]
  constructor
  · rintro ⟨call, hcall, hactive⟩
    rcases call with _ | _ | _ | _ | _ | active | inactive | _ <;>
      simp only [RPCManagerCall.activity, reduceCtorEq] at hactive
    · split_ifs at hactive with hsid
      rwa [hsid] at hcall
    · split_ifs at hactive
      cases hactive
  · exact fun h => ⟨_, h, by simp [RPCManagerCall.activity]⟩

/-- `OnActiveNetwork` binds an id and its session, and creates the session where there is none. -/
structure Activated (m m' : RPCManager ρ) (n : NetworkID) : Prop where
  networks : ∀ j, m'.networkId2SessionIdMap.find j =
    if j = n then some (m.sessionIdFor n) else m.networkId2SessionIdMap.find j
  sessions : ∀ sid, m'.sessionId2NetworkIdMap.find sid =
    if sid = m.sessionIdFor n then some n else m.sessionId2NetworkIdMap.find sid
  identity : ∀ sid, m'.identity sid = if sid = m.sessionIdFor n then
    some ((m.identity sid).getD (n, m.infoEndpoint n)) else m.identity sid
  info : ∀ j, m'.infoEndpoint j = m.infoEndpoint j

theorem sessionIdFor_ne_nil (m : RPCManager ρ) (n : NetworkID) : m.sessionIdFor n ≠ [] :=
  calculateRPCSessionKey_ne_nil _ _ _

theorem Activated.identity_nil (h : Activated m m' n) : m'.identity [] = m.identity [] := by
  rw [h.identity, if_neg (sessionIdFor_ne_nil m n).symm]

/-- `OnActiveNetwork` leaves the entries under other keys. -/
theorem onActiveNetwork_ne (m : RPCManager ρ) (reserveCh : Byte) (n : NetworkID)
    {listenPort remotePort : Port} {remoteIpAddr : IPAddr} {sid : RPCSessionID}
    (hsid : sid ≠ calculateRPCSessionKey listenPort remoteIpAddr remotePort) :
    (m.onActiveNetwork reserveCh n listenPort remoteIpAddr remotePort).1.sessionMap.find sid =
        m.sessionMap.find sid ∧
      (m.onActiveNetwork reserveCh n listenPort remoteIpAddr
        remotePort).1.sessionId2NetworkIdMap.find sid = m.sessionId2NetworkIdMap.find sid := by
  unfold onActiveNetwork
  dsimp only
  refine ⟨?_, by rw [StdMap.find_set_eq, if_neg hsid]⟩
  split
  · rfl
  · rw [StdMap.find_set_eq, if_neg hsid]

theorem identity_onActiveNetwork (m : RPCManager ρ) (reserveCh : Byte) (n : NetworkID)
    (endpoint : Endpoint) (sid : RPCSessionID) :
    (m.onActiveNetwork reserveCh n endpoint.localPort endpoint.remoteIpAddr
        endpoint.remotePort).1.identity sid =
      if sid = endpoint.sessionKey then some ((m.identity sid).getD (n, endpoint))
      else m.identity sid := by
  by_cases hsid : sid = endpoint.sessionKey
  · rw [if_pos hsid, hsid]
    unfold identity onActiveNetwork
    dsimp only
    rw [← Endpoint.sessionKey]
    rcases hfind : m.sessionMap.find endpoint.sessionKey with _ | session
    · dsimp only
      rw [StdMap.find_set_self]
      rfl
    · dsimp only
      rw [hfind]
      rfl
  · rw [if_neg hsid]
    unfold identity
    rw [(m.onActiveNetwork_ne reserveCh n hsid).1]

/-- Equal keys come of equal triples, whatever digits and underscores the address strings hold, so
making a connection that of a session leaves the entries of every other triple alone. -/
theorem calculateRPCSessionKey_unambiguous (localPort localPort' : Port)
    (remoteIpAddr remoteIpAddr' : IPAddr) (remotePort remotePort' : Port) :
    (calculateRPCSessionKey localPort remoteIpAddr remotePort =
        calculateRPCSessionKey localPort' remoteIpAddr' remotePort' ↔
      (localPort, remoteIpAddr, remotePort) = (localPort', remoteIpAddr', remotePort')) ∧
    ∀ (m : RPCManager ρ) (reserveCh : Byte) (n : NetworkID),
      (localPort, remoteIpAddr, remotePort) ≠ (localPort', remoteIpAddr', remotePort') →
        (m.onActiveNetwork reserveCh n localPort remoteIpAddr remotePort).1.sessionMap.find
            (calculateRPCSessionKey localPort' remoteIpAddr' remotePort') =
          m.sessionMap.find (calculateRPCSessionKey localPort' remoteIpAddr' remotePort') ∧
        (m.onActiveNetwork reserveCh n localPort remoteIpAddr
            remotePort).1.sessionId2NetworkIdMap.find
            (calculateRPCSessionKey localPort' remoteIpAddr' remotePort') =
          m.sessionId2NetworkIdMap.find
            (calculateRPCSessionKey localPort' remoteIpAddr' remotePort') := by
  have hkey : calculateRPCSessionKey localPort remoteIpAddr remotePort =
        calculateRPCSessionKey localPort' remoteIpAddr' remotePort' ↔
      (localPort, remoteIpAddr, remotePort) = (localPort', remoteIpAddr', remotePort') := by
    refine ⟨fun h => ?_, fun h => ?_⟩
    · have hendpoint := @Endpoint.sessionKey_injective ⟨remoteIpAddr, remotePort, localPort⟩
        ⟨remoteIpAddr', remotePort', localPort'⟩ h
      injection hendpoint with hip hremote hlocal
      rw [hip, hremote, hlocal]
    · simp only [Prod.mk.injEq] at h
      obtain ⟨rfl, rfl, rfl⟩ := h
      rfl
  exact ⟨hkey, fun m reserveCh n hne =>
    m.onActiveNetwork_ne reserveCh n fun h => hne (hkey.1 h.symm)⟩

/-- An address string that looks like an address and a port, and that address. -/
theorem calculateRPCSessionKey_unambiguous_underscore :
    let m := (({} : RPCManager Unit).onActiveNetwork 0 1 80 [49, 95, 50] 443).1
    (m.onActiveNetwork 0 2 80 [49] 443).1.sessionMap.find
        (calculateRPCSessionKey 80 [49, 95, 50] 443) =
      m.sessionMap.find (calculateRPCSessionKey 80 [49, 95, 50] 443) ∧
    (m.onActiveNetwork 0 2 80 [49] 443).1.sessionId2NetworkIdMap.find
        (calculateRPCSessionKey 80 [49, 95, 50] 443) =
      m.sessionId2NetworkIdMap.find (calculateRPCSessionKey 80 [49, 95, 50] 443) :=
  (calculateRPCSessionKey_unambiguous 80 80 [49] [49, 95, 50] 443 443).2 _ 0 2 (by simp)

theorem activate_activated (m : RPCManager ρ) (reserveCh : Byte) (n : NetworkID) :
    Activated m (m.activate reserveCh n).1 n ∧
      (m.activate reserveCh n).2 = [.onSessionActive (m.sessionIdFor n)] := by
  have hactivate : m.activate reserveCh n =
      { m with uncheckRpcInfoMap := (m.uncheckRpcInfoMap.index n {}).1 }.onActiveNetwork reserveCh n
        (m.infoEndpoint n).localPort (m.infoEndpoint n).remoteIpAddr
        (m.infoEndpoint n).remotePort := by
    unfold activate infoEndpoint
    rw [← StdMap.index_snd]
  rw [hactivate]
  refine ⟨⟨fun j => ?_, fun sid => ?_, fun sid => ?_, fun j => ?_⟩, rfl⟩
  · exact StdMap.find_set_eq m.networkId2SessionIdMap n j _
  · exact StdMap.find_set_eq m.sessionId2NetworkIdMap _ sid n
  · exact identity_onActiveNetwork _ _ _ _ _
  · unfold infoEndpoint onActiveNetwork
    dsimp only
    rw [StdMap.find_index_eq]
    by_cases hj : j = n
    · rw [if_pos hj, hj, Option.getD_some]
    · rw [if_neg hj]

theorem activityOf_activates (sid sid' : RPCSessionID) (calls : List (RPCManagerCall ρ))
    (hcalls : ∀ call ∈ calls, ∃ n data, call = .send n data) :
    activityOf sid (calls ++ [.onSessionActive sid']) = if sid = sid' then [true] else [] := by
  have hquiet : activityOf sid calls = [] := by
    refine List.filterMap_eq_nil_iff.2 fun call hcall => ?_
    obtain ⟨n, data, rfl⟩ := hcalls call hcall
    rfl
  rw [activityOf, List.filterMap_append, ← activityOf, hquiet]
  by_cases hsid : sid = sid'
  · simp [RPCManagerCall.activity, hsid]
  · simp [RPCManagerCall.activity, hsid, Ne.symm hsid]

section OnRecv

variable {data beyond : List Byte} {reserveCh : Byte} {results : List HandleResult}

theorem onRecv_activates (h : m.activates n data beyond = true) :
    Activated m (m.onRecv H n data beyond reserveCh results).1 n ∧
      ∀ sid, activityOf sid (m.onRecv H n data beyond reserveCh results).2 =
        if sid = m.sessionIdFor n then [true] else [] := by
  rw [activates, Bool.or_eq_true] at h
  unfold onRecv
  dsimp only
  rcases h with h | h
  · rw [acceptsKey, Bool.and_eq_true, decide_eq_true_eq, decide_eq_true_eq] at h
    rw [if_pos h.1, StdMap.index_snd, if_pos h.2]
    obtain ⟨hactivated, hcalls⟩ := activate_activated
      { m with networkId2KeyMap := (m.networkId2KeyMap.index n []).1 } reserveCh n
    refine ⟨⟨hactivated.networks, hactivated.sessions, hactivated.identity, hactivated.info⟩, ?_⟩
    intro sid
    dsimp only
    rw [hcalls]
    exact activityOf_activates sid _ [.send n _] (by simp)
  · rw [acceptsResponse, Bool.and_eq_true, decide_eq_true_eq, decide_eq_true_eq] at h
    rw [if_neg (by rw [h.1]; decide), if_pos h.1, if_pos h.2]
    obtain ⟨hactivated, hcalls⟩ := activate_activated m reserveCh n
    refine ⟨hactivated, fun sid => ?_⟩
    rw [hcalls]
    exact activityOf_activates sid _ [] (by simp)

/-- The message of a handshake that failed. -/
theorem onRecv_rejects (h : m.activates n data beyond = false) (hsession : isForSession data = false) :
    Quiet m (m.onRecv H n data beyond reserveCh results).1 ∧
      (∀ j, (m.onRecv H n data beyond reserveCh results).1.infoEndpoint j = m.infoEndpoint j) ∧
      ∀ sid, activityOf sid (m.onRecv H n data beyond reserveCh results).2 = [] := by
  rw [activates, Bool.or_eq_false_iff] at h
  unfold onRecv
  dsimp only
  rw [StdMap.index_snd]
  split_ifs with htype hright htype' hright'
  · rw [acceptsKey, htype, hright] at h
    simp at h
  · exact ⟨⟨fun _ => rfl, fun _ => rfl, fun _ => rfl⟩, fun _ => rfl, fun _ => rfl⟩
  · rw [acceptsResponse, htype', hright'] at h
    simp at h
  · exact ⟨.refl m, fun _ => rfl, fun _ => rfl⟩
  · rw [isForSession, decide_eq_true htype, decide_eq_true htype'] at hsession
    cases hsession

/-- A message for a session only notes that the id has none. -/
theorem onRecv_forSession (hsession : isForSession data = true) :
    Quiet { m with networkId2SessionIdMap := (m.networkId2SessionIdMap.index n []).1 }
        (m.onRecv H n data beyond reserveCh results).1 ∧
      (∀ j, (m.onRecv H n data beyond reserveCh results).1.infoEndpoint j = m.infoEndpoint j) ∧
      ∀ sid, activityOf sid (m.onRecv H n data beyond reserveCh results).2 = [] := by
  simp only [isForSession, Bool.and_eq_true, decide_eq_true_eq] at hsession
  unfold onRecv
  dsimp only
  rw [if_neg hsession.1, if_neg hsession.2]
  split
  · exact ⟨.refl _, fun _ => rfl, fun _ => rfl⟩
  · next session hfind =>
    refine ⟨⟨fun _ => rfl, fun _ => rfl, fun k => ?_⟩, fun _ => rfl, fun sid => ?_⟩
    · exact identity_set (m := { m with
        networkId2SessionIdMap := (m.networkId2SessionIdMap.index n []).1 }) hfind
        (session_onRecv session data results) k
    · dsimp only
      rw [activityOf, List.filterMap_map]
      exact List.filterMap_eq_nil_iff.2 fun _ _ => rfl

end OnRecv

/-- The end of an id takes it and its session out of the maps. -/
theorem onDisconnect_spec (m : RPCManager ρ) (n : NetworkID) :
    (∀ j, (m.onDisconnect n).1.networkId2SessionIdMap.find j =
        if j = n then none else m.networkId2SessionIdMap.find j) ∧
      (∀ sid, (m.onDisconnect n).1.sessionId2NetworkIdMap.find sid =
        if sid = (m.networkId2SessionIdMap.find n).getD [] then none
        else m.sessionId2NetworkIdMap.find sid) ∧
      (∀ sid, (m.onDisconnect n).1.identity sid = m.identity sid) ∧
      (∀ j, (m.onDisconnect n).1.infoEndpoint j = m.infoEndpoint j) ∧
      ∀ sid, activityOf sid (m.onDisconnect n).2 =
        if sid = (m.networkId2SessionIdMap.find n).getD [] ∧ (m.identity sid).isSome then [false]
        else [] := by
  unfold onDisconnect
  dsimp only
  rw [StdMap.index_snd]
  refine ⟨fun j => ?_, fun sid => ?_, fun sid => rfl, fun j => rfl, fun sid => ?_⟩
  · rw [StdMap.find_erase_eq, StdMap.find_index_eq]
    split_ifs <;> rfl
  · exact StdMap.find_erase_eq _ _ _
  · unfold identity
    by_cases hsid : sid = (m.networkId2SessionIdMap.find n).getD []
    · rw [← hsid]
      split <;> next hfind => simp [activityOf, RPCManagerCall.activity, hfind]
    · split <;> simp [activityOf, RPCManagerCall.activity, hsid, Ne.symm hsid]

theorem quiet_onAccept (m : RPCManager ρ) (remoteIpAddr : IPAddr) (remotePort localPort : Port)
    (n : NetworkID) : Quiet m (m.onAccept remoteIpAddr remotePort localPort n) := by
  unfold onAccept
  split <;> exact ⟨fun _ => rfl, fun _ => rfl, fun _ => rfl⟩

theorem quiet_onConnect (m : RPCManager ρ) (ip : IPAddr) (port localPort : Port) (success : Bool)
    (n : NetworkID) : Quiet m (m.onConnect H ip port localPort success n).1 ∧
      ∀ sid, activityOf sid (m.onConnect H ip port localPort success n).2 = [] := by
  rw [onConnect_fields]
  refine ⟨⟨fun _ => rfl, fun _ => rfl, fun _ => rfl⟩, fun sid => ?_⟩
  unfold onConnect
  split_ifs
  · rfl
  · split
    · rfl
    · split_ifs <;> rfl

/-- What a report leaves of its id in `uncheck_rpc_info_map_`. -/
theorem infoEndpoint_onAccept (m : RPCManager ρ) (remoteIpAddr : IPAddr)
    (remotePort localPort : Port) (n j : NetworkID) :
    (m.onAccept remoteIpAddr remotePort localPort n).infoEndpoint j =
      if j = n ∧ (m.listenPort2KeyMap.find localPort.toNat).isSome ∧
          (m.uncheckRpcInfoMap.find n).isNone then ⟨remoteIpAddr, remotePort, 0⟩
      else m.infoEndpoint j := by
  unfold onAccept infoEndpoint
  rcases hkey : m.listenPort2KeyMap.find localPort.toNat with _ | key
  · simp
  · rcases hinfo : m.uncheckRpcInfoMap.find n with _ | info
    · dsimp only
      rw [StdMap.find_set_eq]
      by_cases hj : j = n
      · simp [hj]
      · simp [hj]
    · simp

theorem infoEndpoint_onConnect (m : RPCManager ρ) (ip : IPAddr) (port localPort : Port)
    (success : Bool) (n j : NetworkID) :
    (m.onConnect H ip port localPort success n).1.infoEndpoint j =
      if j = n ∧ success = true ∧ (m.uncheckKeyMap.find (calculateRPCSessionKey 0 ip port)).any
          (·.length < rpcMaxKeyStringLength) then ⟨ip, port, localPort⟩
      else m.infoEndpoint j := by
  unfold onConnect infoEndpoint
  cases success with
  | false => simp
  | true =>
    rcases hkey : m.uncheckKeyMap.find (calculateRPCSessionKey 0 ip port) with _ | key
    · simp
    · by_cases hlen : key.length < rpcMaxKeyStringLength
      · simp only [Bool.not_true, Bool.false_eq_true, if_false, if_pos hlen, Option.any_some,
          decide_eq_true hlen, and_true]
        rw [StdMap.find_set_eq]
        by_cases hj : j = n
        · simp [hj]
        · simp [hj]
      · simp [hlen]

theorem quiet_registerHandler (m : RPCManager ρ) (sessionId : RPCSessionID) (handler : Addr) :
    Quiet m (m.registerHandler sessionId handler) := by
  unfold registerHandler
  split
  · exact .refl m
  · next session hfind =>
    refine ⟨fun _ => rfl, fun _ => rfl, identity_set hfind ?_⟩
    unfold RPCSession.registerHandler
    split_ifs <;> rfl

theorem quiet_asyncCall (m : RPCManager ρ) (sessionId : RPCSessionID) (req : ρ) (data : List Byte) :
    Quiet m (m.asyncCall H sessionId req data).1 ∧
      ∀ call ∈ (m.asyncCall H sessionId req data).2, ∃ message, ∃ identity ∈ m.identity sessionId,
        call = .send identity.1 message := by
  unfold asyncCall
  split
  · exact ⟨.refl m, by simp⟩
  · next session hfind =>
    split
    · exact ⟨.refl m, by simp⟩
    · exact ⟨.refl m, by simp⟩
    · next hsent =>
      refine ⟨⟨fun _ => rfl, fun _ => rfl, identity_set hfind (session_asyncCall hsent)⟩, ?_⟩
      intro call hcall
      rw [List.mem_singleton] at hcall
      exact ⟨_, _, by rw [identity, hfind]; rfl, hcall⟩

variable {ev : RpcSessionsEvent ρ}

/-- A message, the end of an id, or neither. -/
theorem kinds (ev : RpcSessionsEvent ρ) :
    (∃ n data beyond reserveCh results,
        ev = .callback (.onRecv n data beyond reserveCh results)) ∨
      (∃ n, ev = .callback (.onDisconnect n)) ∨ ev.receivedOn = none ∧ ev.ends = none := by
  cases ev with
  | callback ev =>
    cases ev with
    | onRecv => exact .inl ⟨_, _, _, _, _, rfl⟩
    | onDisconnect => exact .inr (.inl ⟨_, rfl⟩)
    | _ => exact .inr (.inr ⟨rfl, rfl⟩)
  | _ => exact .inr (.inr ⟨rfl, rfl⟩)

theorem take_quiet (m : RPCManager ρ) (hreceived : ev.receivedOn = none) (hends : ev.ends = none) :
    Quiet m (m.take H ev).1 ∧ ∀ sid, activityOf sid (m.take H ev).2 = [] := by
  cases ev with
  | callback ev =>
    cases ev with
    | onAccept => exact ⟨quiet_onAccept _ _ _ _ _, fun _ => rfl⟩
    | onConnect => exact quiet_onConnect _ _ _ _ _ _
    | onRecv => cases hreceived
    | onDisconnect => cases hends
    | registerHandler => exact ⟨quiet_registerHandler _ _ _, fun _ => rfl⟩
  | asyncConnect => exact ⟨⟨fun _ => rfl, fun _ => rfl, fun _ => rfl⟩, fun _ => rfl⟩
  | asyncListen => exact ⟨⟨fun _ => rfl, fun _ => rfl, fun _ => rfl⟩, fun _ => rfl⟩
  | asyncCall sessionId req data =>
    obtain ⟨hquiet, hcalls⟩ := quiet_asyncCall (H := H) m sessionId req data
    refine ⟨hquiet, fun sid => List.filterMap_eq_nil_iff.2 fun call hcall => ?_⟩
    obtain ⟨message, identity, -, rfl⟩ := hcalls call hcall
    rfl

/-- The connection a report is about is the only one it changes. -/
theorem take_info (m : RPCManager ρ) {j : NetworkID} (h : ev.opens ≠ some j) :
    (m.take H ev).1.infoEndpoint j = m.infoEndpoint j := by
  cases ev with
  | callback ev =>
    cases ev with
    | onAccept ip remotePort localPort n =>
      have hj : j ≠ n := fun hj => h (by rw [hj]; rfl)
      exact (infoEndpoint_onAccept _ _ _ _ _ _).trans (if_neg fun hc => hj hc.1)
    | onConnect ip port localPort success n =>
      refine (infoEndpoint_onConnect _ _ _ _ _ _ _).trans (if_neg fun hc => ?_)
      obtain ⟨hj, rfl, -⟩ := hc
      exact h (by rw [hj]; rfl)
    | onRecv n data beyond reserveCh results =>
      rcases hactivates : m.activates n data beyond with _ | _
      · rcases hsession : isForSession data with _ | _
        · exact (onRecv_rejects hactivates hsession).2.1 j
        · exact (onRecv_forSession hsession).2.1 j
      · exact (onRecv_activates hactivates).1.info j
    | onDisconnect n => exact (onDisconnect_spec m n).2.2.2.1 j
    | registerHandler sid handler =>
      obtain ⟨sessionMap, heq, -⟩ := registerHandler_fields m sid handler
      rw [take, handle, heq]
      rfl
  | asyncConnect => rfl
  | asyncListen => rfl
  | asyncCall sid req data =>
    rw [take, asyncCall]
    split
    · rfl
    · split <;> rfl

/-- What `notes` says of the state after the report. -/
theorem notes_iff (m : RPCManager ρ) {report : NetworkID × Endpoint}
    (h : ev.reports = some report) :
    m.notes ev = true ↔ (m.take H ev).1.infoEndpoint report.1 = report.2 := by
  cases ev with
  | callback ev =>
    cases ev with
    | onAccept ip remotePort localPort n =>
      obtain rfl := Option.some.inj h
      rw [take, handle, infoEndpoint_onAccept, notes]
      by_cases hwrite : (m.listenPort2KeyMap.find localPort.toNat).isSome ∧
          (m.uncheckRpcInfoMap.find n).isNone
      · rw [if_pos hwrite, if_pos ⟨rfl, hwrite⟩]
        simp [eq_comm]
      · rw [if_neg hwrite, if_neg fun hc => hwrite hc.2]
        simp
    | onConnect ip port localPort success n =>
      cases success with
      | false => cases h
      | true =>
        obtain rfl := Option.some.inj h
        rw [take, handle, infoEndpoint_onConnect, notes]
        split_ifs with hkey
        · simp [hkey.2.2]
        · simp only [true_and] at hkey
          simp [hkey]
    | _ => cases h
  | _ => cases h

end RPCManager

namespace RpcSessions

open RPCManager

variable {w : RpcSessions ρ} {ev : RpcSessionsEvent ρ}

theorem mem_onRecv_iff {m : RPCManager ρ} {n : NetworkID} {data beyond : List Byte}
    {reserveCh : Byte} {results : List HandleResult} {sid : RPCSessionID} :
    .onSessionActive sid ∈ (m.onRecv H n data beyond reserveCh results).2 ↔
      m.activates n data beyond = true ∧ sid = m.sessionIdFor n := by
  rw [← mem_activityOf]
  rcases hactivates : m.activates n data beyond with _ | _
  · rcases hsession : isForSession data with _ | _
    · rw [(onRecv_rejects hactivates hsession).2.2]
      simp
    · rw [(onRecv_forSession hsession).2.2]
      simp
  · rw [(onRecv_activates hactivates).2]
    split_ifs with hsid <;> simp [hsid]

/-- Only a message activates a session. -/
theorem onRecv_of_mem {sid : RPCSessionID} (h : .onSessionActive sid ∈ (w.manager.take H ev).2) :
    ∃ n data beyond reserveCh results,
      ev = .callback (.onRecv n data beyond reserveCh results) := by
  rcases kinds ev with hreceived | ⟨n, rfl⟩ | ⟨hreceived, hends⟩
  · exact hreceived
  · rw [← mem_activityOf] at h
    change true ∈ activityOf sid (w.manager.onDisconnect n).2 at h
    rw [(onDisconnect_spec w.manager n).2.2.2.2] at h
    split_ifs at h <;> simp at h
  · rw [← mem_activityOf, (take_quiet w.manager hreceived hends).2] at h
    cases h

/-- A client of port 80 that presents the key. -/
def aClient (netId : NetworkID) : List (RpcSessionsEvent ℕ) :=
  [.callback (.onAccept [49] 5000 80 netId),
    .callback (.onRecv netId [0, 0, 1, 0, 107, 0] [] 0 [])]

/-- The client comes again from the same port, under another id. -/
def clientTwice : List (RpcSessionsEvent ℕ) :=
  .asyncListen 80 [107] :: aClient 1 ++ .callback (.onDisconnect 1) :: aClient 2

end RpcSessions

end Elegance
