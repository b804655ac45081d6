import Elegance.Lib.Refinement
import Elegance.Proofs.RpcLink
import Elegance.Proofs.ByteLink

/-!
# Agreement over byte streams

However the bytes of the two streams are read, the sessions go through a run of `RpcLink`
(`refines`): the messages in flight there are those handed over and not served yet, and those whose
frames are under way. There the calls called back and the responses in flight are together what was
produced (`Ordered`), so calls are called back in the order in which they were made.
-/

namespace Elegance

open CInt RPCSession Machine

variable {H : HostLayout}

section Messages

variable {ρ : Type}

theorem packable_message {h : RPCMessageHeader} (hid : h.messageId.length = 2) {body : List Byte}
    (hlen : (sizeofRPCMessageHeader + body.length : ℤ) < rpcSessionNetworkMessageMaxLen) :
    Packable (h.message body) := by
  have hl := length_message hid body
  rw [sizeofRPCMessageHeader] at hl
  rw [rpcSessionNetworkMessageMaxLen, sizeofRPCMessageHeader] at hlen
  refine ⟨fun hnil => ?_, ?_⟩
  · rw [hnil, List.length_nil] at hl
    omega
  · rw [hl, intMax]
    omega

theorem packable_of_sent {s s' : RPCSession ρ} {req : ρ} {data message : List Byte} {k : ℤ}
    (h : s.asyncCall H req data = .sent k message s') : Packable message := by
  rw [(asyncCall_sent h).message]
  exact packable_message (H.length_writeShort _) (length_of_sent h).2

theorem HandleResult.answers_iff (r : HandleResult) : r.answers = true ↔ r.handleResult = 0 ∧
    0 < r.resultDataLen ∧
    r.resultDataLen + sizeofRPCMessageHeader < rpcSessionNetworkMessageMaxLen := by
  have hle := r.resultDataLen_le
  simp only [answers, Bool.and_eq_true, decide_eq_true_eq, and_assoc]
  refine and_congr_right fun _ => and_congr_right fun hpos => ?_
  rw [sizeofRPCMessageHeader] at *
  rw [wrap32_of_range (by rw [intMin]; omega) (by omega)]

/-- A handler's result becomes a message of its own length. -/
theorem packable_answer {s : RPCSession ρ} {data : List Byte}
    (hlong : sizeofRPCMessageHeader < data.length) {r : HandleResult} (hr : r.answers = true) :
    Packable (s.answer data r) := by
  obtain ⟨-, hpos, hlt⟩ := r.answers_iff.1 hr
  have hlen := r.length_resultData
  refine packable_message
    (h := ⟨rpcMessageTypeResponse, s.reserveCh, (messageHeader data).messageId⟩)
    (length_messageId hlong) ?_
  rw [hlen, Int.toNat_of_nonneg hpos.le]
  omega

theorem mem_sendsOn {netId : NetworkID} {calls : List (SessionCall ρ)} {msg : List Byte} :
    msg ∈ sendsOn netId calls ↔ .send netId msg ∈ calls := by
  simp only [sendsOn, List.mem_filterMap]
  constructor
  · rintro ⟨call, hcall, hmsg⟩
    rcases call with _ | _ | ⟨id, data⟩
    · cases hmsg
    · cases hmsg
    · simp only [Option.ite_none_right_eq_some, Option.some.injEq] at hmsg
      obtain ⟨rfl, rfl⟩ := hmsg
      exact hcall
  · exact fun h => ⟨_, h, by simp⟩

theorem send_mem_onRecv {s : RPCSession ρ} {data msg : List Byte} {results : List HandleResult}
    {netId : NetworkID} (h : .send netId msg ∈ (s.onRecv H data results).2) :
    netId = s.networkId ∧ Packable msg := by
  unfold onRecv at h
  split_ifs at h with hlong htype hreq
  · simp at h
  · split at h <;> simp at h
  · obtain ⟨p, -, hp⟩ := List.mem_flatMap.1 h
    rw [handleRequest] at hp
    split_ifs at hp with hans
    · simp only [List.mem_cons, reduceCtorEq, SessionCall.send.injEq, List.not_mem_nil, or_false,
        false_or] at hp
      obtain ⟨rfl, rfl⟩ := hp
      exact ⟨rfl, packable_answer (not_le.1 hlong) hans⟩
    · simp at hp
  · simp at h

/-- A session sends under its own net id alone. -/
theorem sendsOn_eq_sends {netId : NetworkID} : ∀ {calls : List (SessionCall ρ)},
    (∀ id msg, .send id msg ∈ calls → id = netId) → sendsOn netId calls = sends calls
  | [], _ => rfl
  | call :: calls, h => by
    have ih := @sendsOn_eq_sends netId calls fun id msg hmem =>
      h id msg (List.mem_cons_of_mem _ hmem)
    rw [sendsOn, sends] at ih ⊢
    rcases call with _ | _ | ⟨id, data⟩
    · exact ih
    · exact ih
    · simp [ih, h id data List.mem_cons_self]

theorem networkId_onRecv (s : RPCSession ρ) (data : List Byte) (results : List HandleResult) :
    (s.onRecv H data results).1.networkId = s.networkId := by
  unfold onRecv
  split_ifs
  · rfl
  · split <;> rfl
  · rfl
  · rfl

theorem networkId_asyncCall {s s' : RPCSession ρ} {req : ρ} {data message : List Byte} {k : ℤ}
    (h : s.asyncCall H req data = .sent k message s') : s'.networkId = s.networkId := by
  unfold asyncCall at h
  split_ifs at h with hacc
  dsimp only at h
  split at h
  · cases h
  · cases h
    rw [getRequestID_fields]
    rfl

end Messages

namespace RpcStreams

section Lists

variable {α β : Type*}

theorem zip_append_of_length_le : ∀ {l : List α} {k : List β} (l' : List α),
    k.length ≤ l.length → (l ++ l').zip k = l.zip k
  | l, [], l', _ => by rw [List.zip_nil_right, List.zip_nil_right]
  | [], y :: k, l', h => by simp at h
  | x :: l, y :: k, l', h => by
    rw [List.cons_append, List.zip_cons_cons, List.zip_cons_cons,
      zip_append_of_length_le l' (by simpa using h)]

/-- The next of the one goes with the next of the other. -/
theorem zip_concat : ∀ {l : List α} {k : List β} {x : α} {rest : List α} (y : β),
    l.drop k.length = x :: rest → l.zip (k ++ [y]) = l.zip k ++ [(x, y)]
  | l, [], x, rest, y, h => by
    rw [List.length_nil, List.drop_zero] at h
    rw [h, List.zip_nil_right, List.nil_append, List.nil_append, List.zip_cons_cons,
      List.zip_nil_right]
  | [], z :: k, x, rest, y, h => by simp at h
  | w :: l, z :: k, x, rest, y, h => by
    rw [List.length_cons, List.drop_succ_cons] at h
    rw [List.cons_append, List.zip_cons_cons, List.zip_cons_cons, zip_concat y h, List.cons_append]

end Lists

/-- What the link does when the streams do this. -/
def linkEvents (_ : RpcStreams) : StreamEvent → List LinkEvent
  | .asyncCall data => [.asyncCall data]
  | .serve results => [.serve results]
  | .respond => [.respond]
  | .serverReads _ | .clientReads _ => []

variable (H) in
/-- The messages in flight on the link are those handed over, and those whose frames are under
way. -/
structure Carried (w : RpcStreams) (v : RpcLink) : Prop where
  client : v.client = w.client
  server : v.server = w.server
  calls : v.calls = w.calls
  calledBack : v.calledBack = w.calledBack
  running : w.halted = false
  linkRunning : v.halted = false
  clientId : 0 < w.client.networkId
  serverId : 0 < w.server.networkId
  requests : ∃ msgs, Carrying H w.serverMap w.server.networkId w.requestBytes msgs ∧
    v.requests.map Prod.snd = w.serverInbox ++ msgs
  responses : ∃ msgs, Carrying H w.clientMap w.client.networkId w.responseBytes msgs ∧
    v.responses.map Prod.snd = w.clientInbox ++ msgs
  numbers : v.requests.map Prod.fst = w.sentCalls.drop w.served.length
  served : w.served.length ≤ w.sentCalls.length
  produced : v.produced = w.answered

variable {w : RpcStreams} {v : RpcLink}

theorem carried_start (clientHandlers serverHandlers : List Addr) (clientCh serverCh : Byte)
    {clientId serverId : NetworkID} (hc : 0 < clientId) (hs : 0 < serverId) :
    Carried H (start clientHandlers serverHandlers clientCh serverCh clientId serverId)
      { client := { handlerList := clientHandlers, reserveCh := clientCh, networkId := clientId }
        server := { handlerList := serverHandlers, reserveCh := serverCh, networkId := serverId } }
    where
  client := rfl
  server := rfl
  calls := rfl
  calledBack := rfl
  running := rfl
  linkRunning := rfl
  clientId := hc
  serverId := hs
  requests := ⟨[], carrying_start (StdMap.find_empty _), rfl⟩
  responses := ⟨[], carrying_start (StdMap.find_empty _), rfl⟩
  numbers := rfl
  served := le_rfl
  produced := rfl

theorem not_badCopy {data : List Byte}
    (hlen : (data.length + sizeofRPCMessageHeader : ℤ) ≤ intMax) :
    w.client.asyncCall H w.calls data ≠ .badCopy := by
  intro hc
  unfold asyncCall at hc
  split_ifs at hc with hacc
  simp only [acceptsLength, Bool.and_eq_true, decide_eq_true_eq] at hacc
  have hlt := hacc.2
  rw [wrap32_of_range (by rw [intMin, sizeofRPCMessageHeader]; omega) hlen] at hlt
  simp only [requestMessage] at hc
  rw [if_pos (by omega)] at hc
  cases hc

theorem step_sent {data message : List Byte} {k : ℤ} {client : RPCSession ℕ}
    (hc : w.client.asyncCall H w.calls data = .sent k message client) :
    w.step H (.asyncCall data) = sendRequest
      { w with client, sentCalls := w.sentCalls ++ [w.calls], calls := w.calls + 1 }
      (packAll H [message]) := by
  simp only [step, hc]

theorem carried_sent {data message : List Byte} {k : ℤ} {client : RPCSession ℕ}
    (h : Carried H w v) (hc : w.client.asyncCall H w.calls data = .sent k message client) :
    Carried H (w.step H (.asyncCall data)) (v.step H (.asyncCall data)) := by
  have hsend := packable_of_sent hc
  have hid := networkId_asyncCall hc
  obtain ⟨msgs, hmsgs, hqueue⟩ := h.requests
  have hone : ∀ msg ∈ [message], Packable msg := by simpa using hsend
  have hwrite := hmsgs.write hone
  have hlink : v.step H (.asyncCall data) = { v with
      client, requests := v.requests ++ [(w.calls, message)], calls := w.calls + 1 } := by
    simp only [RpcLink.step, h.client, h.calls, hc]
  rw [step_sent hc, packAll_eq hone, sendRequest, hlink]
  refine ⟨rfl, h.server, rfl, h.calledBack, h.running, h.linkRunning, by rw [hid]; exact h.clientId,
    h.serverId, ⟨msgs ++ [message], hwrite, ?_⟩, ?_, ?_, ?_, ?_⟩
  · rw [List.map_append, hqueue, List.append_assoc]
    rfl
  · dsimp only
    rw [hid]
    exact h.responses
  · rw [List.map_append, h.numbers, List.drop_append_of_le_length h.served]
    rfl
  · dsimp only
    rw [List.length_append]
    exact h.served.trans (Nat.le_add_right _ _)
  · rw [answered, zip_append_of_length_le _ h.served]
    exact h.produced

theorem carried_asyncCall {data : List Byte} (h : Carried H w v)
    (hcan : w.Can (.asyncCall data)) :
    v.Can (.asyncCall data) ∧ Carried H (w.step H (.asyncCall data))
      (v.step H (.asyncCall data)) := by
  refine ⟨⟨h.linkRunning, by rw [h.client]; exact hcan.2.1⟩, ?_⟩
  rcases hc : w.client.asyncCall H w.calls data with _ | _ | ⟨k, message, client⟩
  · have hstep : w.step H (.asyncCall data) = { w with calls := w.calls + 1 } := by
      simp only [step, hc]
    have hlink : v.step H (.asyncCall data) = { v with calls := w.calls + 1 } := by
      simp only [RpcLink.step, h.client, h.calls, hc]
    rw [hstep, hlink]
    exact ⟨h.client, h.server, rfl, h.calledBack, h.running, h.linkRunning, h.clientId, h.serverId,
      h.requests, h.responses, h.numbers, h.served, h.produced⟩
  · exact absurd hc (not_badCopy hcan.2.2)
  · exact carried_sent h hc

/-- The server reads some bytes, the link does nothing. -/
theorem carried_serverReads {size : ℕ} (h : Carried H w v) (hcan : w.Can (.serverReads size)) :
    Carried H (w.step H (.serverReads size)) v := by
  obtain ⟨msgs, hmsgs, hqueue⟩ := h.requests
  obtain ⟨serverMap, rest, hfinal, hsplit, hrest⟩ :=
    hmsgs.passedOn h.serverId hcan.2.2.1 hcan.2.2.2.1
  have hstep : w.step H (.serverReads size) = { w with
      serverMap
      requestBytes := w.requestBytes.drop size
      serverInbox := w.serverInbox ++ passedOn w.server.networkId
        (unPack H w.serverMap w.server.networkId (w.requestBytes.take size)).events } := by
    simp only [step, hfinal]
  rw [hstep]
  refine ⟨h.client, h.server, h.calls, h.calledBack, h.running, h.linkRunning, h.clientId,
    h.serverId, ⟨rest, hrest, ?_⟩, h.responses, h.numbers, h.served, h.produced⟩
  rw [hqueue, List.append_assoc, ← hsplit]

theorem carried_clientReads {size : ℕ} (h : Carried H w v) (hcan : w.Can (.clientReads size)) :
    Carried H (w.step H (.clientReads size)) v := by
  obtain ⟨msgs, hmsgs, hqueue⟩ := h.responses
  obtain ⟨clientMap, rest, hfinal, hsplit, hrest⟩ :=
    hmsgs.passedOn h.clientId hcan.2.2.1 hcan.2.2.2.1
  have hstep : w.step H (.clientReads size) = { w with
      clientMap
      responseBytes := w.responseBytes.drop size
      clientInbox := w.clientInbox ++ passedOn w.client.networkId
        (unPack H w.clientMap w.client.networkId (w.responseBytes.take size)).events } := by
    simp only [step, hfinal]
  rw [hstep]
  refine ⟨h.client, h.server, h.calls, h.calledBack, h.running, h.linkRunning, h.clientId,
    h.serverId, h.requests, ⟨rest, hrest, ?_⟩, h.numbers, h.served, h.produced⟩
  rw [hqueue, List.append_assoc, ← hsplit]

/-- The server's next message is the link's. -/
theorem carried_serve {results : List HandleResult} (h : Carried H w v)
    (hcan : w.Can (.serve results)) :
    v.Can (.serve results) ∧ Carried H (w.step H (.serve results)) (v.step H (.serve results)) := by
  obtain ⟨msgs, hmsgs, hqueue⟩ := h.requests
  rcases hin : w.serverInbox with _ | ⟨message, serverInbox⟩
  · exact absurd hin hcan.2.1
  rcases hreq : v.requests with _ | ⟨⟨n, message'⟩, requests⟩
  · rw [hreq, hin] at hqueue
    cases hqueue
  rw [hreq, hin, List.map_cons, List.cons_append, List.cons.injEq] at hqueue
  obtain ⟨rfl, hqueue⟩ := hqueue
  have hnumbers := h.numbers
  rw [hreq, List.map_cons] at hnumbers
  refine ⟨⟨by rw [hreq]; simp, by rw [h.server]; exact hcan.2.2⟩, ?_⟩
  have hmem : ∀ id msg, .send id msg ∈ (w.server.onRecv H message' results).2 →
      id = w.server.networkId ∧ Packable msg := fun id msg hmsg => send_mem_onRecv hmsg
  have hsends : sendsOn w.server.networkId (w.server.onRecv H message' results).2 =
      sends (w.server.onRecv H message' results).2 :=
    sendsOn_eq_sends fun id msg hmsg => (hmem id msg hmsg).1
  have hpackable : ∀ msg ∈ sends (w.server.onRecv H message' results).2, Packable msg := by
    intro msg hmsg
    rw [← hsends, mem_sendsOn] at hmsg
    exact (hmem _ _ hmsg).2
  have hid := networkId_onRecv (H := H) w.server message' results
  have hstep : w.step H (.serve results) = { w with
      server := (w.server.onRecv H message' results).1
      serverInbox
      responseBytes := w.responseBytes ++
        ((sends (w.server.onRecv H message' results).2).map (frame H)).flatten
      served := w.served ++ [results] } := by
    simp only [step, hin, hsends, packAll_eq hpackable]
  have hlink : v.step H (.serve results) = { v with
      server := (w.server.onRecv H message' results).1
      requests
      responses := v.responses ++
        (sends (w.server.onRecv H message' results).2).map fun m => (n, m)
      produced := v.produced ++
        (results.filter HandleResult.answers).map fun r => (n, r.resultData) } := by
    simp only [RpcLink.step, hreq, h.server]
  obtain ⟨responses, hresponses, hresp⟩ := h.responses
  rw [hstep, hlink]
  refine ⟨h.client, rfl, h.calls, h.calledBack, h.running, h.linkRunning, h.clientId,
    by rw [hid]; exact h.serverId, ⟨msgs, by rw [hid]; exact hmsgs, hqueue⟩,
    ⟨_, hresponses.write hpackable, ?_⟩, ?_, ?_, ?_⟩
  · rw [List.map_append, hresp, List.map_map, List.append_assoc]
    simp
  · have htail := congrArg List.tail hnumbers
    rw [List.tail_cons, List.tail_drop] at htail
    rw [List.length_append]
    exact htail
  · have hlt := congrArg List.length hnumbers
    rw [List.length_cons, List.length_drop] at hlt
    have hpos : w.served.length + 1 ≤ w.sentCalls.length := by omega
    dsimp only
    rwa [List.length_append, List.length_singleton]
  · rw [answered, zip_concat results hnumbers.symm, List.flatMap_append, List.flatMap_singleton,
      h.produced]
    rfl

theorem carried_respond (h : Carried H w v) (hcan : w.Can .respond) :
    v.Can .respond ∧ Carried H (w.step H .respond) (v.step H .respond) := by
  obtain ⟨msgs, hmsgs, hqueue⟩ := h.responses
  rcases hin : w.clientInbox with _ | ⟨message, clientInbox⟩
  · exact absurd hin hcan.2
  rcases hresp : v.responses with _ | ⟨⟨n, message'⟩, responses⟩
  · rw [hresp, hin] at hqueue
    cases hqueue
  rw [hresp, hin, List.map_cons, List.cons_append, List.cons.injEq] at hqueue
  obtain ⟨rfl, hqueue⟩ := hqueue
  refine ⟨by rw [RpcLink.Can, hresp]; simp, ?_⟩
  have hid := networkId_onRecv (H := H) w.client message' []
  have hstep : w.step H .respond = { w with
      client := (w.client.onRecv H message' []).1
      clientInbox
      calledBack := w.calledBack ++ callBacks (w.client.onRecv H message' []).2 } := by
    simp only [step, hin]
  have hlink : v.step H .respond = { v with
      client := (w.client.onRecv H message' []).1
      responses
      calledBack := w.calledBack ++ callBacks (w.client.onRecv H message' []).2 } := by
    simp only [RpcLink.step, hresp, h.client, h.calledBack]
  rw [hstep, hlink]
  exact ⟨rfl, h.server, h.calls, rfl, h.running, h.linkRunning, by rw [hid]; exact h.clientId,
    h.serverId, h.requests, ⟨msgs, by rw [hid]; exact hmsgs, hqueue⟩, h.numbers, h.served,
    h.produced⟩

theorem refines (H : HostLayout) :
    Refines (step H) Can (RpcLink.step H) RpcLink.Can (Carried H) linkEvents := by
  intro w v ev h hcan
  cases ev with
  | asyncCall data =>
    obtain ⟨hlink, hcarried⟩ := carried_asyncCall h hcan
    exact ⟨⟨hlink, trivial⟩, hcarried⟩
  | serverReads size => exact ⟨trivial, carried_serverReads h hcan⟩
  | serve results =>
    obtain ⟨hlink, hcarried⟩ := carried_serve h hcan
    exact ⟨⟨hlink, trivial⟩, hcarried⟩
  | clientReads size => exact ⟨trivial, carried_clientReads h hcan⟩
  | respond =>
    obtain ⟨hlink, hcarried⟩ := carried_respond h hcan
    exact ⟨⟨hlink, trivial⟩, hcarried⟩

section Order

variable (H) in
/-- What was called back and what is on its way back are what was produced, in order. -/
structure Ordered (v : RpcLink) : Prop where
  linked : v.Linked H
  order : v.calledBack ++ v.responses.map (fun x => (x.1, messageBody x.2)) = v.produced

theorem ordered_serve {results : List HandleResult} (h : Ordered H v)
    (hcan : v.Can (.serve results)) :
    (v.step H (.serve results)).calledBack ++
      (v.step H (.serve results)).responses.map (fun x => (x.1, messageBody x.2)) =
        (v.step H (.serve results)).produced := by
  rcases hreq : v.requests with _ | ⟨⟨n, message⟩, requests⟩
  · exact absurd hreq hcan.1
  obtain ⟨k, -, hcarries⟩ := h.linked.request (n, message) (by simp [hreq])
  obtain ⟨-, hsends⟩ := onRecv_request hcarries hcan.2
  have hbodies : ((results.filter HandleResult.answers).map (v.server.answer message)).map
      (fun m => (n, messageBody m)) =
        (results.filter HandleResult.answers).map fun r => (n, r.resultData) := by
    rw [List.map_map]
    refine List.map_congr_left fun r hr => ?_
    have hbody := (hcarries.answer (s := v.server) (List.mem_filter.1 hr).2).2
    rw [Function.comp_apply, hbody]
  simp only [RpcLink.step, hreq, hsends, List.map_append, List.map_map]
  rw [← List.append_assoc, h.order, ← hbodies, List.map_map]
  rfl

theorem ordered_respond (h : Ordered H v) (hcan : v.Can .respond) :
    (v.step H .respond).calledBack ++
      (v.step H .respond).responses.map (fun x => (x.1, messageBody x.2)) =
        (v.step H .respond).produced := by
  rcases hresp : v.responses with _ | ⟨⟨n, message⟩, responses⟩
  · exact absurd hresp hcan
  obtain ⟨k, hk, hcarries, -⟩ := h.linked.response (n, message) (by simp [hresp])
  have hid : H.readShort (messageHeader message).messageId = k := hcarries.id
  have hanswers : Answers H v.client message n :=
    ⟨hcarries.long, hcarries.type, by rw [responseTarget, hid, hk]⟩
  have horder := h.order
  rw [hresp, List.map_cons] at horder
  simp only [RpcLink.step, hresp, onRecv_answers hanswers]
  rw [← horder, List.append_assoc]
  rfl

theorem ordered_step {ev : LinkEvent} (h : Ordered H v) (hcan : v.Can ev)
    (hone : v.OneAnswer ev) : Ordered H (v.step H ev) := by
  refine ⟨RpcLink.linked_step h.linked hcan hone, ?_⟩
  cases ev with
  | asyncCall data =>
    rw [RpcLink.step]
    split <;> exact h.order
  | serve results => exact ordered_serve h hcan
  | respond => exact ordered_respond h hcan

theorem ordered_start {client server : RPCSession ℕ} (hc : client.requestList = .empty)
    (hstack : client.freeRequestIdStack = []) (hnext : client.nextRequestId = 0) :
    Ordered H { client, server } where
  linked :=
    { tabled := ⟨0, by rw [hc]; exact ⟨hstack ▸ Pool.empty 0, by decide, hnext⟩⟩
      inj := fun j k n hj => by simp [hc] at hj
      pending := fun k n hk => by simp [hc] at hk
      flight := .nil
      request := fun x hx => by simp at hx
      response := fun x hx => by simp at hx
      agrees := ⟨.nil, fun x hx => by simp at hx⟩
      made := fun x hx => by simp at hx }
  order := rfl

end Order

end RpcStreams

end Elegance
