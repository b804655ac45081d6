import Elegance.RpcLink
import Elegance.Proofs.RpcPending

/-!
# Agreement

As long as each request is answered at most once, every message in flight carries the id under
which its own call is registered (`Linked`), so a response calls back the call it belongs to.
-/

namespace Elegance

open CInt RPCSession Machine

variable {H : HostLayout}

section Carries

variable (H) in
/-- A message of a type under an id, with something behind its header. -/
structure Carries (type : Byte) (k : ℤ) (message : List Byte) : Prop where
  long : sizeofRPCMessageHeader < message.length
  type : (messageHeader message).type = type
  id : RpcCalls.messageId H message = k

theorem carries_message {h : RPCMessageHeader} (hid : h.messageId.length = 2) {body : List Byte}
    (hne : body ≠ []) : Carries H h.type (H.readShort h.messageId) (h.message body) := by
  have hpos := List.length_pos_iff.2 hne
  refine ⟨by rw [length_message hid]; omega, ?_, ?_⟩
  · rw [messageHeader_message hid]
  · rw [RpcCalls.messageId, messageHeader_message hid]

theorem RPCSession.Sends.carries {ρ : Type} {s s' : RPCSession ρ} {req : ρ}
    {data message : List Byte} {k : ℤ} (h : Sends H s s' req data k message)
    (hk : IsRequestId k) : Carries H rpcMessageTypeRequest k message := by
  have hc := carries_message (H := H)
    (h := ⟨rpcMessageTypeRequest, s.reserveCh, H.writeShort (wrap16 k)⟩)
    (H.length_writeShort _) h.nonEmpty
  rwa [← h.message, hk.readShort_eq] at hc

theorem length_messageId {message : List Byte} (h : sizeofRPCMessageHeader < message.length) :
    (messageHeader message).messageId.length = 2 := by
  rw [sizeofRPCMessageHeader] at h
  simp only [messageHeader, List.length_take, List.length_drop]
  omega

theorem HandleResult.resultData_ne_nil {r : HandleResult} (h : r.answers = true) :
    r.resultData ≠ [] := by
  simp only [HandleResult.answers, Bool.and_eq_true, decide_eq_true_eq] at h
  intro hnil
  have hlen := r.length_resultData
  rw [hnil, List.length_nil] at hlen
  omega

theorem Carries.answer {s : RPCSession ℕ} {k : ℤ} {message : List Byte} {type : Byte}
    (h : Carries H type k message) {r : HandleResult} (hr : r.answers = true) :
    Carries H rpcMessageTypeResponse k (s.answer message r) ∧
      messageBody (s.answer message r) = r.resultData := by
  have hid := length_messageId h.long
  refine ⟨?_, messageBody_message hid _⟩
  have hc := carries_message (H := H)
    (h := ⟨rpcMessageTypeResponse, s.reserveCh, (messageHeader message).messageId⟩) hid
    (HandleResult.resultData_ne_nil hr)
  rwa [show H.readShort (messageHeader message).messageId = k from h.id] at hc

theorem sends_handleRequest (s : RPCSession ℕ) (data : List Byte) :
    ∀ l : List (Addr × HandleResult),
      sends (l.flatMap fun p => s.handleRequest data p.1 p.2) =
        ((l.map Prod.snd).filter HandleResult.answers).map (s.answer data)
  | [] => rfl
  | (a, r) :: l => by
    have ih := sends_handleRequest s data l
    rw [sends] at ih ⊢
    rw [List.flatMap_cons, List.filterMap_append, ih, List.map_cons]
    rcases hr : r.answers with _ | _ <;> simp [handleRequest, hr]

/-- A request leaves the server's tables alone and is answered by each handler that has a result. -/
theorem onRecv_request {s : RPCSession ℕ} {k : ℤ} {message : List Byte}
    (h : Carries H rpcMessageTypeRequest k message) {results : List HandleResult}
    (hlen : results.length = s.handlerList.length) :
    (s.onRecv H message results).1 = s ∧ sends (s.onRecv H message results).2 =
      (results.filter HandleResult.answers).map (s.answer message) := by
  have hlong := h.long
  unfold onRecv
  rw [if_neg (by omega)]
  dsimp only
  rw [if_neg (by rw [h.type]; decide), if_pos h.type]
  refine ⟨rfl, ?_⟩
  rw [sends_handleRequest, List.map_snd_zip (by omega)]

end Carries

namespace RpcLink

variable {w : RpcLink} {ev : LinkEvent}

variable (H) in
/-- Each call in flight is in flight once, and registered under the id its message carries. -/
structure Linked (w : RpcLink) : Prop where
  tabled : Tabled w.client
  inj : ∀ j k n, w.client.requestList.find j = some n → w.client.requestList.find k = some n → j = k
  pending : ∀ k n, w.client.requestList.find k = some n → n < w.calls ∧ n ∉ w.calledBack.map Prod.fst
  flight : ((w.requests ++ w.responses).map Prod.fst).Nodup
  request : ∀ x ∈ w.requests, ∃ k, w.client.requestList.find k = some x.1 ∧
    Carries H rpcMessageTypeRequest k x.2
  response : ∀ x ∈ w.responses, ∃ k, w.client.requestList.find k = some x.1 ∧
    Carries H rpcMessageTypeResponse k x.2 ∧ (x.1, messageBody x.2) ∈ w.produced
  agrees : w.Agrees
  made : ∀ x ∈ w.calledBack, x.1 < w.calls

theorem linked_start (clientHandlers serverHandlers : List Addr) (clientCh serverCh : Byte) :
    Linked H (start clientHandlers serverHandlers clientCh serverCh) where
  tabled := ⟨0, Pool.empty 0, by decide, rfl⟩
  inj j k n hj := by simp [start] at hj
  pending k n hk := by simp [start] at hk
  flight := .nil
  request x hx := by simp [start] at hx
  response x hx := by simp [start] at hx
  agrees := ⟨.nil, fun x hx => by simp [start] at hx⟩
  made x hx := by simp [start] at hx

theorem linked_sent {data message : List Byte} {k : ℤ} {s' : RPCSession ℕ} (h : Linked H w)
    (hroom : w.client.Room data) (hs : w.client.asyncCall H w.calls data = .sent k message s') :
    Linked H { w with
      client := s', requests := w.requests ++ [(w.calls, message)], calls := w.calls + 1 } := by
  obtain ⟨hnone, htabled⟩ := h.tabled.asyncCall hroom hs
  have hsends := asyncCall_sent hs
  have hkeep : ∀ j n, w.client.requestList.find j = some n → s'.requestList.find j = some n :=
    fun j n hj => by
      have hjk : j ≠ k := fun hjk => by
        rw [hjk, hnone] at hj
        cases hj
      rw [hsends.find, if_neg hjk, hj]
  have hnew : s'.requestList.find k = some w.calls := by rw [hsends.find, if_pos rfl]
  have hflight : w.calls ∉ (w.requests ++ w.responses).map Prod.fst := fun hmem => by
    obtain ⟨x, hx, hxn⟩ := List.mem_map.1 hmem
    obtain ⟨j, hj⟩ : ∃ j, w.client.requestList.find j = some x.1 := by
      rcases List.mem_append.1 hx with hx | hx
      · obtain ⟨j, hj, -⟩ := h.request x hx
        exact ⟨j, hj⟩
      · obtain ⟨j, hj, -⟩ := h.response x hx
        exact ⟨j, hj⟩
    have := (h.pending j _ hj).1
    omega
  refine ⟨htabled, fun i j n hi hj => ?_, fun j n hj => ?_, ?_, fun x hx => ?_, fun x hx => ?_,
    h.agrees, fun x hx => Nat.lt_succ_of_lt (h.made x hx)⟩
  · dsimp only at hi hj
    rw [hsends.find] at hi hj
    split_ifs at hi hj with hik hjk hjk
    · rw [hik, hjk]
    · have := (h.pending j n hj).1
      rw [← Option.some.inj hi] at this
      omega
    · have := (h.pending i n hi).1
      rw [← Option.some.inj hj] at this
      omega
    · exact h.inj i j n hi hj
  · dsimp only at hj ⊢
    rw [hsends.find] at hj
    split_ifs at hj with hjk
    · obtain rfl := Option.some.inj hj
      refine ⟨Nat.lt_succ_self _, fun hmem => ?_⟩
      obtain ⟨x, hx, hxn⟩ := List.mem_map.1 hmem
      have := h.made x hx
      omega
    · obtain ⟨hlt, hnot⟩ := h.pending j n hj
      exact ⟨Nat.lt_succ_of_lt hlt, hnot⟩
  · have hperm : (w.requests ++ [(w.calls, message)] ++ w.responses).Perm
        ((w.calls, message) :: (w.requests ++ w.responses)) := by
      rw [List.append_assoc]
      exact List.perm_middle
    rw [(hperm.map Prod.fst).nodup_iff, List.map_cons, List.nodup_cons]
    exact ⟨hflight, h.flight⟩
  · rcases List.mem_append.1 hx with hx | hx
    · obtain ⟨j, hj, hc⟩ := h.request x hx
      exact ⟨j, hkeep j _ hj, hc⟩
    · rw [List.mem_singleton.1 hx]
      exact ⟨k, hnew, hsends.carries (htabled.isRequestId hnew)⟩
  · obtain ⟨j, hj, hc⟩ := h.response x hx
    exact ⟨j, hkeep j _ hj, hc⟩

theorem linked_serve {results : List HandleResult} (h : Linked H w) (hcan : w.Can (.serve results))
    (hone : w.OneAnswer (.serve results)) : Linked H (w.step H (.serve results)) := by
  rcases hreq : w.requests with _ | ⟨⟨n, message⟩, requests⟩
  · exact absurd hreq hcan.1
  obtain ⟨k, hk, hcarries⟩ := h.request (n, message) (by simp [hreq])
  obtain ⟨hserver, hsends⟩ := onRecv_request hcarries hcan.2
  have hstep : w.step H (.serve results) = { w with
      requests
      responses := w.responses ++ (results.filter HandleResult.answers).map
        fun r => (n, w.server.answer message r)
      produced := w.produced ++
        (results.filter HandleResult.answers).map fun r => (n, r.resultData) } := by
    rw [step, hreq]
    dsimp only
    rw [hserver, hsends, List.map_map]
    rfl
  have hflight := h.flight
  rw [hreq, List.cons_append, List.map_cons, List.nodup_cons] at hflight
  rw [hstep]
  refine ⟨h.tabled, h.inj, h.pending, ?_, fun x hx => ?_, fun x hx => ?_, ?_, h.made⟩
  · dsimp only
    rcases hans : results.filter HandleResult.answers with _ | ⟨r, rest⟩
    · rw [List.map_nil, List.append_nil]
      exact hflight.2
    · have hrest : rest = [] := by
        have hlen : (results.filter HandleResult.answers).length ≤ 1 := hone
        rw [hans, List.length_cons] at hlen
        exact List.length_eq_zero_iff.1 (by omega)
      rw [hrest, List.map_singleton, ← List.append_assoc, List.map_append,
        (List.perm_append_comm).nodup_iff]
      exact List.nodup_cons.2 hflight
  · exact h.request x (by rw [hreq]; exact List.mem_cons_of_mem _ hx)
  · rcases List.mem_append.1 hx with hx | hx
    · obtain ⟨j, hj, hc, hp⟩ := h.response x hx
      exact ⟨j, hj, hc, List.mem_append_left _ hp⟩
    · obtain ⟨r, hr, rfl⟩ := List.mem_map.1 hx
      obtain ⟨hc, hbody⟩ := hcarries.answer (s := w.server) (List.mem_filter.1 hr).2
      refine ⟨k, hk, hc, List.mem_append_right _ ?_⟩
      rw [hbody]
      exact List.mem_map.2 ⟨r, hr, rfl⟩
  · exact ⟨h.agrees.1, fun x hx => List.mem_append_left _ (h.agrees.2 x hx)⟩

theorem linked_respond (h : Linked H w) (hcan : w.Can .respond) :
    Linked H (w.step H .respond) := by
  rcases hresp : w.responses with _ | ⟨⟨n, message⟩, responses⟩
  · exact absurd hresp hcan
  obtain ⟨k, hk, hcarries, hprod⟩ := h.response (n, message) (by simp [hresp])
  have hid : H.readShort (messageHeader message).messageId = k := hcarries.id
  have hanswers : Answers H w.client message n :=
    ⟨hcarries.long, hcarries.type, by rw [responseTarget, hid, hk]⟩
  have hstep : w.step H .respond = { w with
      client := (w.client.eraseRequest k).pushFreeId k
      responses
      calledBack := w.calledBack ++ [(n, messageBody message)] } := by
    rw [step, hresp]
    dsimp only
    rw [onRecv_answers hanswers, hcarries.id]
    rfl
  have hflight := h.flight
  rw [hresp, (List.perm_middle.map Prod.fst).nodup_iff, List.map_cons, List.nodup_cons] at hflight
  have hkeep : ∀ j m, w.client.requestList.find j = some m → m ≠ n →
      ((w.client.eraseRequest k).pushFreeId k).requestList.find j = some m := fun j m hj hm => by
    have hjk : j ≠ k := fun hjk => by
      rw [hjk, hk] at hj
      exact hm (Option.some.inj hj).symm
    rw [pushFreeId, find_eraseRequest, if_neg hjk, hj]
  have hback : ∀ j m, ((w.client.eraseRequest k).pushFreeId k).requestList.find j = some m →
      w.client.requestList.find j = some m ∧ j ≠ k := fun j m hj => by
    rw [pushFreeId, find_eraseRequest] at hj
    split_ifs at hj with hjk
    exact ⟨hj, hjk⟩
  have hother : ∀ x ∈ w.requests ++ responses, x.1 ≠ n := fun x hx hxn => by
    have hmem := List.mem_map_of_mem (f := Prod.fst) hx
    rw [hxn] at hmem
    exact hflight.1 hmem
  rw [hstep]
  refine ⟨h.tabled.free hk, fun i j m hi hj => ?_, fun j m hj => ?_, hflight.2, fun x hx => ?_,
    fun x hx => ?_, ⟨?_, fun x hx => ?_⟩, fun x hx => ?_⟩
  · exact h.inj i j m (hback i m hi).1 (hback j m hj).1
  · obtain ⟨hold, hjk⟩ := hback j m hj
    obtain ⟨hlt, hnot⟩ := h.pending j m hold
    refine ⟨hlt, fun hmem => ?_⟩
    rw [List.map_append, List.mem_append] at hmem
    rcases hmem with hmem | hmem
    · exact hnot hmem
    · obtain rfl : m = n := List.mem_singleton.1 hmem
      exact hjk (h.inj j k m hold hk)
  · obtain ⟨j, hj, hc⟩ := h.request x hx
    exact ⟨j, hkeep j _ hj (hother x (List.mem_append_left _ hx)), hc⟩
  · obtain ⟨j, hj, hc⟩ := h.response x (by rw [hresp]; exact List.mem_cons_of_mem _ hx)
    exact ⟨j, hkeep j _ hj (hother x (List.mem_append_right _ hx)), hc⟩
  · dsimp only
    rw [List.map_append, (List.perm_append_comm).nodup_iff]
    exact List.nodup_cons.2 ⟨(h.pending k n hk).2, h.agrees.1⟩
  · rcases List.mem_append.1 hx with hx | hx
    · exact h.agrees.2 x hx
    · rw [List.mem_singleton.1 hx]
      exact hprod
  · rcases List.mem_append.1 hx with hx | hx
    · exact h.made x hx
    · rw [List.mem_singleton.1 hx]
      exact (h.pending k n hk).1

theorem linked_step (h : Linked H w) (hcan : w.Can ev) (hone : w.OneAnswer ev) :
    Linked H (w.step H ev) := by
  cases ev with
  | asyncCall data =>
    rw [step]
    rcases hc : w.client.asyncCall H w.calls data with _ | _ | ⟨k, message, s'⟩
    · exact ⟨h.tabled, h.inj, fun k n hk => ⟨Nat.lt_succ_of_lt (h.pending k n hk).1,
        (h.pending k n hk).2⟩, h.flight, h.request, h.response, h.agrees,
        fun x hx => Nat.lt_succ_of_lt (h.made x hx)⟩
    · exact ⟨h.tabled, h.inj, h.pending, h.flight, h.request, h.response, h.agrees, h.made⟩
    · exact linked_sent h hcan.2 hc
  | serve results => exact linked_serve h hcan hone
  | respond => exact linked_respond h hcan

/-- In a run in which no request is answered twice, each call is called back at most once, with
what was produced for it. -/
theorem agrees_of_oneAnswer (H : HostLayout) (clientHandlers serverHandlers : List Addr)
    (clientCh serverCh : Byte) (evs : List LinkEvent)
    (hrun : Along (step H) Can (start clientHandlers serverHandlers clientCh serverCh) evs)
    (hone : Along (step H) OneAnswer (start clientHandlers serverHandlers clientCh serverCh) evs) :
    Agrees (exec (step H) (start clientHandlers serverHandlers clientCh serverCh) evs) := by
  have hboth := (along_and _ _).2 ⟨hrun, hone⟩
  exact (invariant (fun _ _ h hev => linked_step h hev.1 hev.2)
    (linked_start (H := H) _ _ _ _) hboth).agrees

/-- Two calls, of which the first is answered by one of two handlers. -/
theorem agrees_two_calls :
    let evs : List LinkEvent := [.asyncCall [1], .asyncCall [2],
      .serve [⟨0, 1, [7], rfl, by decide⟩, ⟨1, 1, [8], rfl, by decide⟩], .respond, .asyncCall [3]]
    Agrees (exec (step littleEndian) (start [] [1, 2] 0 0) evs) :=
  agrees_of_oneAnswer littleEndian [] [1, 2] 0 0 _ (by decide +kernel) (by decide +kernel)

/-- Two handlers answer the first call; the second answer calls back the second call, which reuses
the id. -/
theorem not_agrees_two_answers : ¬ ∀ (H : HostLayout) (clientHandlers serverHandlers : List Addr)
    (clientCh serverCh : Byte) (evs : List LinkEvent),
    Along (step H) Can (start clientHandlers serverHandlers clientCh serverCh) evs →
      Agrees (exec (step H) (start clientHandlers serverHandlers clientCh serverCh) evs) := by
  intro h
  have hrun := h littleEndian [] [1, 2] 0 0 [.asyncCall [1],
    .serve [⟨0, 1, [7], rfl, by decide⟩, ⟨0, 1, [8], rfl, by decide⟩], .respond, .asyncCall [2],
    .respond] (by decide +kernel)
  exact absurd (hrun.2 (1, [8]) (by decide +kernel)) (by decide +kernel)

end RpcLink

end Elegance
