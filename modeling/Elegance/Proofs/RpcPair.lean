import Elegance.Proofs.RpcSessions
import Elegance.RpcPair

/-!
# The handshake of two managers

The key of the client comes to the server as it was given, so the server compares the two keys; what
follows is one of a few `Stage`s, and every run comes to an end (`pair_agreement`).
-/

namespace Elegance

open CInt StdString Machine

variable {ρ : Type} {H : HostLayout}

namespace RPCManager

variable {m : RPCManager ρ} {n : NetworkID} {key serverKey beyond : List Byte} {reserveCh : Byte}
  {results : List HandleResult}

theorem receiveKey_checkKeyMessage (hkey : 0 ∉ key) (beyond : List Byte) :
    receiveKey (checkKeyMessage H key) beyond = key := by
  have hdrop : (checkKeyMessage H key ++ beyond).drop keyStrOffset = key ++ 0 :: beyond := by
    rw [checkKeyMessage, keyStrOffset]
    simp only [List.cons_append, List.append_assoc, List.drop_succ_cons]
    rw [List.drop_left' (H.length_writeShort _)]
    rfl
  rw [receiveKey, hdrop, cString_append_of_not_mem _ hkey]
  simp [cString]

theorem onConnect_calls {ip : IPAddr} {port localPort : Port}
    (h : m.uncheckKeyMap.find (calculateRPCSessionKey 0 ip port) = some key) :
    (m.onConnect H ip port localPort true n).2 =
      if key.length < rpcMaxKeyStringLength then [.send n (checkKeyMessage H key)] else [] := by
  rw [onConnect, h]
  simp only [Bool.not_true, Bool.false_eq_true, if_false]
  split_ifs <;> rfl

/-- The server's answer to a key. -/
theorem onRecv_checkKeyMessage (hkey : 0 ∉ key)
    (hnoted : (m.networkId2KeyMap.find n).getD [] = serverKey) :
    (m.onRecv H n (checkKeyMessage H key) beyond reserveCh results).2 =
      if key = serverKey then
        [.send n [rpcMessageTypeCheckKeyResponse, 1], .onSessionActive (m.sessionIdFor n)]
      else [.disconnect n] := by
  have htype : (checkKeyMessage H key).headD 0 = rpcMessageTypeCheckKey := rfl
  unfold onRecv
  dsimp only
  rw [if_pos htype, receiveKey_checkKeyMessage hkey, StdMap.index_snd, hnoted]
  split_ifs
  · dsimp only
    rw [(activate_activated _ reserveCh n).2]
    rfl
  · rfl

theorem onRecv_response : (m.onRecv H n [rpcMessageTypeCheckKeyResponse, 1] beyond reserveCh
    results).2 = [.onSessionActive (m.sessionIdFor n)] := by
  have htype : [rpcMessageTypeCheckKeyResponse, 1].headD 0 = rpcMessageTypeCheckKeyResponse := rfl
  have hright : response [rpcMessageTypeCheckKeyResponse, 1] beyond = 1 := rfl
  unfold onRecv
  dsimp only
  rw [if_neg (by decide), if_pos htype, if_pos hright, (activate_activated m reserveCh n).2]

theorem onDisconnect_calls (m : RPCManager ρ) (n : NetworkID) :
    (m.onDisconnect n).2 = [] ∨ ∃ sid, (m.onDisconnect n).2 = [.onSessionInactive sid] := by
  unfold onDisconnect
  dsimp only
  split
  · exact .inl rfl
  · exact .inr ⟨_, rfl⟩

end RPCManager

namespace RpcPair

open RPCManager

variable {p : RpcPairing} {w w' : RpcPair ρ} {ev : RpcPairEvent}

/-- What each side still has of its key. -/
structure Ready (p : RpcPairing) (w : RpcPair ρ) : Prop where
  client : w.client.state = .before → w.client.manager.uncheckKeyMap.find
    (calculateRPCSessionKey 0 p.serverIp p.port) = some p.clientKey
  server : w.server.state = .before →
    w.server.manager.listenPort2KeyMap.find p.port.toNat = some p.serverKey
  noted : w.server.state = .opened →
    (w.server.manager.networkId2KeyMap.find p.serverId).getD [] = p.serverKey

/-- The messages on their way and the sessions that were made active. -/
structure At (p : RpcPairing) (w : RpcPair ρ) (toClient toServer : List (List Byte))
    (clientActive serverActive : ℕ) (dropped : Bool) : Prop where
  toClient : w.client.inbox = toClient
  toServer : w.server.inbox = toServer
  clientActive : w.client.activations.length = clientActive
  serverActive : w.server.activations.length = serverActive
  dropped : w.dropped p = dropped

/-- How far the handshake has come. -/
inductive Stage (H : HostLayout) (p : RpcPairing) (w : RpcPair ρ) : Prop where
  | idle (client : w.client.state = .before) (server : w.server.state ≠ .closed)
    (at_ : At p w [] [] 0 0 false)
  | sent (short : p.clientKey.length < rpcMaxKeyStringLength) (client : w.client.state = .opened)
    (server : w.server.state ≠ .closed) (at_ : At p w [] [checkKeyMessage H p.clientKey] 0 0 false)
  | answered (short : p.clientKey.length < rpcMaxKeyStringLength)
    (same : p.clientKey = p.serverKey) (client : w.client.state = .opened)
    (server : w.server.state = .opened)
    (at_ : At p w [[rpcMessageTypeCheckKeyResponse, 1]] [] 0 1 false)
  | agreed (short : p.clientKey.length < rpcMaxKeyStringLength)
    (same : p.clientKey = p.serverKey) (client : w.client.state = .opened)
    (server : w.server.state = .opened) (at_ : At p w [] [] 1 1 false)
  | refused (other : p.clientKey ≠ p.serverKey) (client : w.client.state ≠ .before)
    (server : w.server.state ≠ .before) (called : .disconnect p.serverId ∈ w.server.trace)
    (at_ : At p w [] [] 0 0 true)
  | silent (long : rpcMaxKeyStringLength ≤ p.clientKey.length) (client : w.client.state = .opened)
    (server : w.server.state ≠ .closed) (at_ : At p w [] [] 0 0 false)

theorem At.clientTakes {toClient toServer : List (List Byte)} {i j : ℕ} {dropped : Bool}
    (h : At p w toClient toServer i j dropped) (state : ConnState) (inbox : List (List Byte))
    (result : RPCManager ρ × List (RPCManagerCall ρ)) :
    At p (w.clientTakes p state inbox result) inbox
      (toServer ++ result.2.filterMap (·.sentOn p.clientId))
      (i + (result.2.filterMap (·.activates)).length) j
      (dropped || result.2.any (·.drops p.clientId)) := by
  refine ⟨rfl, by rw [← h.toServer]; rfl, ?_, h.serverActive, ?_⟩
  · rw [← h.clientActive]
    simp [RpcSide.activations, RpcPair.clientTakes]
  · rw [← h.dropped]
    simp [RpcPair.dropped, RpcPair.clientTakes, Bool.or_right_comm]

theorem At.serverTakes {toClient toServer : List (List Byte)} {i j : ℕ} {dropped : Bool}
    (h : At p w toClient toServer i j dropped) (state : ConnState) (inbox : List (List Byte))
    (result : RPCManager ρ × List (RPCManagerCall ρ)) :
    At p (w.serverTakes p state inbox result)
      (toClient ++ result.2.filterMap (·.sentOn p.serverId)) inbox
      i (j + (result.2.filterMap (·.activates)).length)
      (dropped || result.2.any (·.drops p.serverId)) := by
  refine ⟨by rw [← h.toClient]; rfl, rfl, h.clientActive, ?_, ?_⟩
  · rw [← h.serverActive]
    simp [RpcSide.activations, RpcPair.serverTakes]
  · rw [← h.dropped]
    simp [RpcPair.dropped, RpcPair.serverTakes, Bool.or_assoc]

theorem ready_start : Ready p (start p : RpcPair ρ) where
  client _ := by simp [start, asyncConnect]
  server _ := by simp [start, asyncListen]
  noted h := by cases h

theorem stage_start : Stage H p (start p : RpcPair ρ) :=
  .idle rfl (by simp [start]) ⟨rfl, rfl, rfl, rfl, rfl⟩

theorem ready_step (h : Ready p w) (hcan : w.Can p ev) : Ready p (w.step H p ev) := by
  cases ev with
  | onConnect => exact ⟨(fun hb => by cases hb), h.server, h.noted⟩
  | onAccept =>
    refine ⟨h.client, (fun hb => by cases hb), fun _ => ?_⟩
    exact congrArg (·.getD []) (onAccept_key (h.server hcan))
  | clientRecv beyond reserveCh results =>
    rcases hinbox : w.client.inbox with _ | ⟨data, inbox⟩
    · exact absurd hinbox hcan.2.1
    · rw [step, hinbox]
      exact ⟨(fun hb => by cases hcan.1.symm.trans hb), h.server, h.noted⟩
  | serverRecv beyond reserveCh results =>
    rcases hinbox : w.server.inbox with _ | ⟨data, inbox⟩
    · exact absurd hinbox hcan.2.1
    · rw [step, hinbox]
      refine ⟨h.client, (fun hb => by cases hcan.1.symm.trans hb), fun ho => ?_⟩
      exact (key_onRecv _ _ _ _ _ _).trans (h.noted ho)
  | clientDisconnect => exact ⟨(fun hb => by cases hb), h.server, h.noted⟩
  | serverDisconnect => exact ⟨h.client, (fun hb => by cases hb), fun hb => by cases hb⟩

/-- What is left to happen to the client at most, its key's way to the server counted in. -/
def clientLeft : ConnState → ℕ
  | .before => 4
  | .opened => 1
  | .closed => 0

def serverLeft : ConnState → ℕ
  | .before => 2
  | .opened => 1
  | .closed => 0

/-- What is left to happen at most. -/
def left (w : RpcPair ρ) : ℕ :=
  clientLeft w.client.state + serverLeft w.server.state + 2 * w.server.inbox.length +
    w.client.inbox.length

theorem At.left {toClient toServer : List (List Byte)} {i j : ℕ} {dropped : Bool}
    (h : At p w toClient toServer i j dropped) : w.left = clientLeft w.client.state +
      serverLeft w.server.state + 2 * toServer.length + toClient.length := by
  rw [RpcPair.left, h.toClient, h.toServer]

/-- The next stage, and less is left. -/
def Advances (H : HostLayout) (p : RpcPairing) (w w' : RpcPair ρ) : Prop :=
  Stage H p w' ∧ w'.left < w.left

theorem advances_onConnect (h : Stage H p w) (hready : Ready p w) (hcan : w.Can p .onConnect) :
    Advances H p w (w.step H p .onConnect) := by
  have hbefore : w.client.state = .before := hcan
  have hcalls : (w.client.manager.onConnect H p.serverIp p.port p.localPort true p.clientId).2 =
      if p.clientKey.length < rpcMaxKeyStringLength then
        [.send p.clientId (checkKeyMessage H p.clientKey)]
      else [] := onConnect_calls (hready.client hcan)
  cases h with
  | idle _ server at_ =>
    have hat := at_.clientTakes .opened w.client.inbox
      (w.client.manager.onConnect H p.serverIp p.port p.localPort true p.clientId)
    rw [hcalls, at_.toClient] at hat
    have hleft : (w.step H p .onConnect).client.state = .opened ∧
      (w.step H p .onConnect).server.state = w.server.state := ⟨rfl, rfl⟩
    by_cases hshort : p.clientKey.length < rpcMaxKeyStringLength
    · have hat' : At p (w.step H p .onConnect) [] [checkKeyMessage H p.clientKey] 0 0 false := by
        simpa [hshort, RPCManagerCall.sentOn, RPCManagerCall.activates, RPCManagerCall.drops, step,
          at_.toClient] using hat
      refine ⟨.sent hshort rfl server hat', ?_⟩
      rw [hat'.left, at_.left, hleft.1, hleft.2, hbefore]
      simp only [clientLeft, List.length_nil, List.length_singleton]
      omega
    · have hat' : At p (w.step H p .onConnect) [] [] 0 0 false := by
        simpa [hshort, step, at_.toClient] using hat
      refine ⟨.silent (not_lt.1 hshort) rfl server hat', ?_⟩
      rw [hat'.left, at_.left, hleft.1, hleft.2, hbefore]
      simp [clientLeft]
  | refused _ client => exact absurd hbefore client
  | sent _ client => cases hbefore.symm.trans client
  | answered _ _ client => cases hbefore.symm.trans client
  | agreed _ _ client => cases hbefore.symm.trans client
  | silent _ client => cases hbefore.symm.trans client

theorem At.onAccept {toClient toServer : List (List Byte)} {i j : ℕ} {dropped : Bool}
    (h : At p w toClient toServer i j dropped) :
    At p (w.step H p .onAccept) toClient toServer i j dropped := by
  have hat := h.serverTakes .opened w.server.inbox
    (w.server.manager.onAccept p.clientIp p.clientPort p.port p.serverId, [])
  rw [h.toServer] at hat
  simpa [step, h.toServer] using hat

theorem advances_onAccept (h : Stage H p w) (hcan : w.Can p .onAccept) :
    Advances H p w (w.step H p .onAccept) := by
  have hbefore : w.server.state = .before := hcan
  have hstate : (w.step H p .onAccept).client.state = w.client.state ∧
    (w.step H p .onAccept).server.state = .opened := ⟨rfl, rfl⟩
  have hleft : ∀ {toClient toServer i j dropped}, At p w toClient toServer i j dropped →
      (w.step H p .onAccept).left < w.left := by
    intro toClient toServer i j dropped at_
    rw [at_.left, (at_.onAccept (H := H)).left, hstate.1, hstate.2, hbefore]
    simp [serverLeft]
  have hopen : (w.step H p .onAccept).server.state ≠ .closed := by
    rw [hstate.2]
    simp
  cases h with
  | idle client _ at_ => exact ⟨.idle client hopen at_.onAccept, hleft at_⟩
  | sent short client _ at_ => exact ⟨.sent short client hopen at_.onAccept, hleft at_⟩
  | silent long client _ at_ => exact ⟨.silent long client hopen at_.onAccept, hleft at_⟩
  | answered _ _ _ server => cases hbefore.symm.trans server
  | agreed _ _ _ server => cases hbefore.symm.trans server
  | refused _ _ server => exact absurd hbefore server

theorem advances_clientRecv {beyond : List Byte} {reserveCh : Byte} {results : List HandleResult}
    (h : Stage H p w) (hcan : w.Can p (.clientRecv beyond reserveCh results)) :
    Advances H p w (w.step H p (.clientRecv beyond reserveCh results)) := by
  obtain ⟨-, hne, hnot⟩ := hcan
  cases h with
  | answered short same client server at_ =>
    have hat := at_.clientTakes .opened [] (w.client.manager.onRecv H p.clientId
      [rpcMessageTypeCheckKeyResponse, 1] beyond reserveCh results)
    have hat' : At p (w.step H p (.clientRecv beyond reserveCh results)) [] [] 1 1 false := by
      rw [step, at_.toClient]
      rw [onRecv_response] at hat
      simpa [RPCManagerCall.sentOn, RPCManagerCall.activates, RPCManagerCall.drops, client] using hat
    have hstate : (w.step H p (.clientRecv beyond reserveCh results)).client.state = .opened ∧
        (w.step H p (.clientRecv beyond reserveCh results)).server.state = w.server.state := by
      rw [step, at_.toClient]
      exact ⟨client, rfl⟩
    refine ⟨.agreed short same hstate.1 (hstate.2.trans server) hat', ?_⟩
    rw [hat'.left, at_.left, hstate.1, hstate.2, client]
    simp
  | idle _ _ at_ => exact absurd at_.toClient hne
  | sent _ _ _ at_ => exact absurd at_.toClient hne
  | agreed _ _ _ _ at_ => exact absurd at_.toClient hne
  | refused _ _ _ _ at_ => exact absurd at_.toClient hne
  | silent _ _ _ at_ => exact absurd at_.toClient hne

theorem advances_serverRecv {beyond : List Byte} {reserveCh : Byte} {results : List HandleResult}
    (hkey : 0 ∉ p.clientKey) (h : Stage H p w) (hready : Ready p w)
    (hcan : w.Can p (.serverRecv beyond reserveCh results)) :
    Advances H p w (w.step H p (.serverRecv beyond reserveCh results)) := by
  obtain ⟨hopened, hne, hnot⟩ := hcan
  cases h with
  | sent short client _ at_ =>
    have hat := at_.serverTakes .opened [] (w.server.manager.onRecv H p.serverId
      (checkKeyMessage H p.clientKey) beyond reserveCh results)
    have hcalls : (w.server.manager.onRecv H p.serverId (checkKeyMessage H p.clientKey) beyond
        reserveCh results).2 =
        if p.clientKey = p.serverKey then [.send p.serverId [rpcMessageTypeCheckKeyResponse, 1],
          .onSessionActive (w.server.manager.sessionIdFor p.serverId)]
        else [.disconnect p.serverId] := onRecv_checkKeyMessage hkey (hready.noted hopened)
    have hstate : (w.step H p (.serverRecv beyond reserveCh results)).client.state = .opened ∧
        (w.step H p (.serverRecv beyond reserveCh results)).server.state = .opened := by
      rw [step, at_.toServer]
      exact ⟨client, hopened⟩
    have hstep : w.step H p (.serverRecv beyond reserveCh results) = w.serverTakes p .opened []
        (w.server.manager.onRecv H p.serverId (checkKeyMessage H p.clientKey) beyond reserveCh
          results) := by
      rw [step, at_.toServer, hopened]
    rw [hcalls] at hat
    by_cases hsame : p.clientKey = p.serverKey
    · have hat' : At p (w.step H p (.serverRecv beyond reserveCh results))
          [[rpcMessageTypeCheckKeyResponse, 1]] [] 0 1 false := by
        rw [hstep]
        simpa [hsame, RPCManagerCall.sentOn, RPCManagerCall.activates, RPCManagerCall.drops]
          using hat
      refine ⟨.answered short hsame hstate.1 hstate.2 hat', ?_⟩
      rw [hat'.left, at_.left, hstate.1, hstate.2, client, hopened]
      simp
    · have hat' : At p (w.step H p (.serverRecv beyond reserveCh results)) [] [] 0 0 true := by
        rw [hstep]
        simpa [hsame, RPCManagerCall.sentOn, RPCManagerCall.activates, RPCManagerCall.drops]
          using hat
      refine ⟨.refused hsame (by rw [hstate.1]; simp) (by rw [hstate.2]; simp) ?_ hat', ?_⟩
      · rw [hstep, serverTakes, hcalls, if_neg hsame]
        simp
      · rw [hat'.left, at_.left, hstate.1, hstate.2, client, hopened]
        simp
  | idle _ _ at_ => exact absurd at_.toServer hne
  | answered _ _ _ _ at_ => exact absurd at_.toServer hne
  | agreed _ _ _ _ at_ => exact absurd at_.toServer hne
  | refused _ _ _ _ at_ => exact absurd at_.toServer hne
  | silent _ _ _ at_ => exact absurd at_.toServer hne

/-- The end of a connection activates, sends and drops nothing. -/
theorem onDisconnect_quiet (m : RPCManager ρ) (n : NetworkID) :
    (m.onDisconnect n).2.filterMap (·.sentOn n) = [] ∧
      (m.onDisconnect n).2.filterMap (·.activates) = [] ∧
      (m.onDisconnect n).2.any (·.drops n) = false := by
  rcases onDisconnect_calls m n with hcalls | ⟨sid, hcalls⟩ <;> rw [hcalls]
  · exact ⟨rfl, rfl, rfl⟩
  · exact ⟨rfl, rfl, rfl⟩

/-- What can come of a connection that a side has dropped. -/
theorem Stage.of_dropped (h : Stage H p w) (hdropped : w.dropped p = true) :
    p.clientKey ≠ p.serverKey ∧ w.client.state ≠ .before ∧ w.server.state ≠ .before ∧
      .disconnect p.serverId ∈ w.server.trace ∧ At p w [] [] 0 0 true := by
  cases h with
  | refused other client server called at_ => exact ⟨other, client, server, called, at_⟩
  | idle _ _ at_ => cases hdropped.symm.trans at_.dropped
  | sent _ _ _ at_ => cases hdropped.symm.trans at_.dropped
  | answered _ _ _ _ at_ => cases hdropped.symm.trans at_.dropped
  | agreed _ _ _ _ at_ => cases hdropped.symm.trans at_.dropped
  | silent _ _ _ at_ => cases hdropped.symm.trans at_.dropped

theorem advances_clientDisconnect (h : Stage H p w) (hcan : w.Can p .clientDisconnect) :
    Advances H p w (w.step H p .clientDisconnect) := by
  obtain ⟨hopened, hdropped⟩ := hcan
  obtain ⟨other, -, server, called, at_⟩ := h.of_dropped hdropped
  obtain ⟨hsent, hactive, hdrops⟩ := onDisconnect_quiet w.client.manager p.clientId
  have hat := at_.clientTakes .closed w.client.inbox (w.client.manager.onDisconnect p.clientId)
  have hat' : At p (w.step H p .clientDisconnect) [] [] 0 0 true := by
    simpa [hsent, hactive, hdrops, at_.toClient, step] using hat
  have hclosed : (w.step H p .clientDisconnect).client.state = .closed := rfl
  have hsame : (w.step H p .clientDisconnect).server.state = w.server.state := rfl
  refine ⟨.refused other (by rw [hclosed]; simp) server called hat', ?_⟩
  rw [hat'.left, at_.left, hclosed, hsame, hopened]
  simp [clientLeft]

theorem advances_serverDisconnect (h : Stage H p w) (hcan : w.Can p .serverDisconnect) :
    Advances H p w (w.step H p .serverDisconnect) := by
  obtain ⟨hopened, hdropped⟩ := hcan
  obtain ⟨other, client, -, called, at_⟩ := h.of_dropped hdropped
  obtain ⟨hsent, hactive, hdrops⟩ := onDisconnect_quiet w.server.manager p.serverId
  have hat := at_.serverTakes .closed w.server.inbox (w.server.manager.onDisconnect p.serverId)
  have hat' : At p (w.step H p .serverDisconnect) [] [] 0 0 true := by
    simpa [hsent, hactive, hdrops, at_.toServer, step] using hat
  have hclosed : (w.step H p .serverDisconnect).server.state = .closed := rfl
  have hsame : (w.step H p .serverDisconnect).client.state = w.client.state := rfl
  refine ⟨.refused other client (by rw [hclosed]; simp) (List.mem_append_left _ called) hat', ?_⟩
  rw [hat'.left, at_.left, hclosed, hsame, hopened]
  simp [serverLeft]

theorem advances_step (hkey : 0 ∉ p.clientKey) (h : Stage H p w) (hready : Ready p w)
    (hcan : w.Can p ev) : Advances H p w (w.step H p ev) := by
  cases ev with
  | onConnect => exact advances_onConnect h hready hcan
  | onAccept => exact advances_onAccept h hcan
  | clientRecv => exact advances_clientRecv h hcan
  | serverRecv => exact advances_serverRecv hkey h hready hcan
  | clientDisconnect => exact advances_clientDisconnect h hcan
  | serverDisconnect => exact advances_serverDisconnect h hcan

/-- When nothing more happens the handshake has come to one of its ends. -/
theorem Stage.of_done (h : Stage H p w) (hdone : w.Done p) :
    (p.clientKey = p.serverKey ∧ At p w [] [] 1 1 false) ∨
      (p.clientKey ≠ p.serverKey ∧ .disconnect p.serverId ∈ w.server.trace) ∨
      rpcMaxKeyStringLength ≤ p.clientKey.length := by
  have hserver : w.server.state ≠ .before := hdone .onAccept
  cases h with
  | idle client => exact absurd client (hdone .onConnect)
  | sent _ _ server at_ =>
    have hopened : w.server.state = .opened := by
      rcases hstate : w.server.state with _ | _ | _
      · exact absurd hstate hserver
      · rfl
      · exact absurd hstate server
    exact absurd ⟨hopened, by rw [at_.toServer]; simp, at_.dropped⟩ (hdone (.serverRecv [] 0 []))
  | answered _ _ client _ at_ =>
    exact absurd ⟨client, by rw [at_.toClient]; simp, at_.dropped⟩ (hdone (.clientRecv [] 0 []))
  | agreed _ same _ _ at_ => exact .inl ⟨same, at_⟩
  | refused other _ _ called => exact .inr (.inl ⟨other, called⟩)
  | silent long => exact .inr (.inr long)

/-- Sessions are made active only for equal keys that are not too long. -/
theorem Stage.inactive (h : Stage H p w)
    (hkeys : p.clientKey ≠ p.serverKey ∨ rpcMaxKeyStringLength ≤ p.clientKey.length) :
    w.client.activations = [] ∧ w.server.activations = [] := by
  have hnone : ∀ {toClient toServer dropped}, At p w toClient toServer 0 0 dropped →
      w.client.activations = [] ∧ w.server.activations = [] := fun at_ =>
    ⟨List.eq_nil_of_length_eq_zero at_.clientActive, List.eq_nil_of_length_eq_zero at_.serverActive⟩
  cases h with
  | idle _ _ at_ => exact hnone at_
  | sent _ _ _ at_ => exact hnone at_
  | refused _ _ _ _ at_ => exact hnone at_
  | silent _ _ _ at_ => exact hnone at_
  | answered short same =>
    exact hkeys.elim (fun hother => absurd same hother) fun hlong => absurd short (not_lt.2 hlong)
  | agreed short same =>
    exact hkeys.elim (fun hother => absurd same hother) fun hlong => absurd short (not_lt.2 hlong)

/-- In every run of the two managers, which ends after a few callbacks, the keys decide whether each
side is told once that its session is active, or neither is. -/
theorem pair_agreement (hkey : 0 ∉ p.clientKey) {es : List RpcPairEvent}
    (hcan : Along (step H p) (Can p) (start p : RpcPair ρ) es) :
    es.length ≤ 6 ∧ Agreement p (exec (step H p) (start p : RpcPair ρ) es) := by
  have hkeep : ∀ (w : RpcPair ρ) ev, Ready p w ∧ Stage H p w → w.Can p ev →
      Ready p (w.step H p ev) ∧ Stage H p (w.step H p ev) := fun w ev h hev =>
    ⟨ready_step h.1 hev, (advances_step hkey h.2 h.1 hev).1⟩
  have hstart : Ready p (start p : RpcPair ρ) ∧ Stage H p (start p : RpcPair ρ) :=
    ⟨ready_start, stage_start⟩
  obtain ⟨-, hstage⟩ := invariant hkeep hstart hcan
  refine ⟨?_, fun hshort hsame hdone => ?_, fun hshort hother => ?_, fun hlong => ?_⟩
  · exact length_le_of_decreasing left hkeep
      (fun w ev h hev => (advances_step hkey h.2 h.1 hev).2) hstart hcan
  · rcases hstage.of_done hdone with ⟨-, at_⟩ | ⟨hother, -⟩ | hlong
    · exact ⟨at_.clientActive, at_.serverActive⟩
    · exact absurd hsame hother
    · exact absurd hshort (not_lt.2 hlong)
  · obtain ⟨hclient, hserver⟩ := hstage.inactive (.inl hother)
    refine ⟨hclient, hserver, fun hdone => ?_⟩
    rcases hstage.of_done hdone with ⟨hsame, -⟩ | ⟨-, hcalled⟩ | hlong
    · exact absurd hsame hother
    · exact hcalled
    · exact absurd hshort (not_lt.2 hlong)
  · exact hstage.inactive (.inr hlong)

/-- Both know the key `k`. -/
def aPairing : RpcPairing :=
  ⟨[107], [107], [49], 80, 5000, [50], 5000, 1, 2⟩

theorem pair_agreement_aPairing :
    [RpcPairEvent.onConnect, .onAccept, .serverRecv [] 0 [], .clientRecv [] 0 []].length ≤ 6 ∧
      Agreement aPairing (exec (step littleEndian aPairing) (start aPairing : RpcPair ℕ)
        [.onConnect, .onAccept, .serverRecv [] 0 [], .clientRecv [] 0 []]) :=
  pair_agreement (by decide) (by decide +kernel)

end RpcPair

end Elegance
