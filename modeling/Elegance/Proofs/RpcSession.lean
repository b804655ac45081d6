import Elegance.RpcCalls
import Elegance.Lib.IdPool

/-!
# What one call on a session does

A request that is sent enters the id drawn; a response whose id is found takes its entry out, runs
its callback and frees the id, and no other message changes the tables.
-/

namespace Elegance

open CInt

variable {ρ : Type} {H : HostLayout} {s : RPCSession ρ}

section Message

theorem messageHeader_message {h : RPCMessageHeader} (hid : h.messageId.length = 2)
    (body : List Byte) : messageHeader (h.message body) = h := by
  simp only [messageHeader, RPCMessageHeader.message, List.headD_cons, List.drop_succ_cons,
    List.drop_zero]
  rw [List.take_left' hid]

theorem messageBody_message {h : RPCMessageHeader} (hid : h.messageId.length = 2)
    (body : List Byte) : messageBody (h.message body) = body := by
  simp only [messageBody, RPCMessageHeader.message, sizeofRPCMessageHeader, List.drop_succ_cons]
  rw [List.drop_left' hid]

theorem length_message {h : RPCMessageHeader} (hid : h.messageId.length = 2) (body : List Byte) :
    (h.message body).length = sizeofRPCMessageHeader + body.length := by
  simp only [RPCMessageHeader.message, List.length_cons, List.length_append, hid,
    sizeofRPCMessageHeader]
  omega

end Message

namespace RPCSession

/-- An id that survives the cast to the 16 bits of a message. -/
def IsRequestId (k : ℤ) : Prop := 0 ≤ k ∧ k < shrtMax

theorem IsRequestId.wrap16_eq {k : ℤ} (hk : IsRequestId k) : wrap16 k = k := by
  refine wrap16_of_range (le_trans ?_ hk.1) hk.2.le
  decide

theorem IsRequestId.readShort_eq {k : ℤ} (hk : IsRequestId k) :
    H.readShort (H.writeShort (wrap16 k)) = k := by
  rw [hk.wrap16_eq]
  exact H.readShort_writeShort k (le_trans (by decide) hk.1) hk.2.le

/-- What a call that is sent did. -/
structure Sends (H : HostLayout) (s s' : RPCSession ρ) (req : ρ) (data : List Byte) (k : ℤ)
    (message : List Byte) : Prop where
  id : s.getRequestID.1 = k
  message : message = RPCMessageHeader.message
    ⟨rpcMessageTypeRequest, s.reserveCh, H.writeShort (wrap16 k)⟩ data
  nonEmpty : data ≠ []
  find : ∀ j, s'.requestList.find j = if j = k then some req else s.requestList.find j
  next : s'.nextRequestId = s.getRequestID.2.nextRequestId
  stack : s'.freeRequestIdStack = s.getRequestID.2.freeRequestIdStack
  same : s'.reserveCh = s.reserveCh

theorem getRequestID_nil (h : s.freeRequestIdStack = []) : s.getRequestID =
    (s.nextRequestId, { s with nextRequestId := (s.nextRequestId + 1) % shrtMax }) := by
  rw [getRequestID, h]

theorem getRequestID_cons {top : ℤ} {rest : List ℤ} (h : s.freeRequestIdStack = top :: rest) :
    s.getRequestID = (top, { s with freeRequestIdStack := rest }) := by
  rw [getRequestID, h]

theorem getRequestID_fields (s : RPCSession ρ) : s.getRequestID.2 =
    { s with
      nextRequestId := s.getRequestID.2.nextRequestId
      freeRequestIdStack := s.getRequestID.2.freeRequestIdStack } := by
  unfold getRequestID
  split <;> rfl

theorem find_register (k j : ℤ) (req : ρ) : (s.register k req).requestList.find j =
    if j = k then some req else s.requestList.find j := by
  rw [register, StdMap.find_set_eq]

theorem find_eraseRequest (k j : ℤ) : (s.eraseRequest k).requestList.find j =
    if j = k then none else s.requestList.find j := by
  rw [eraseRequest, StdMap.find_erase_eq]

theorem asyncCall_sent {req : ρ} {data message : List Byte} {k : ℤ} {s' : RPCSession ρ}
    (h : s.asyncCall H req data = .sent k message s') : Sends H s s' req data k message := by
  have hfields := s.getRequestID_fields
  unfold asyncCall at h
  split_ifs at h with hacc
  rcases hid : s.getRequestID with ⟨id, s₁⟩
  rw [hid] at h hfields
  dsimp only at h hfields
  split at h
  · cases h
  · rename_i msg hmsg
    injection h with hk hm hs
    subst hk hm hs
    rw [requestMessage] at hmsg
    split_ifs at hmsg
    have hne : data ≠ [] := fun hd => by
      rw [hd] at hacc
      simp [acceptsLength] at hacc
    refine ⟨by rw [hid], ?_, hne, fun j => ?_, by rw [hid]; rfl, by rw [hid]; rfl, ?_⟩
    · rw [← Option.some.inj hmsg, hfields]
    · rw [find_register, hfields]
    · rw [register, hfields]

/-- A call of a length in range is sent. -/
theorem sent_of_length (s : RPCSession ρ) (req : ρ) {data : List Byte} (hne : data ≠ [])
    (hlen : (sizeofRPCMessageHeader + data.length : ℤ) < rpcSessionNetworkMessageMaxLen) :
    s.asyncCall H req data = .sent s.getRequestID.1
      (RPCMessageHeader.message ⟨rpcMessageTypeRequest, s.getRequestID.2.reserveCh,
        H.writeShort (wrap16 s.getRequestID.1)⟩ data)
      (s.getRequestID.2.register s.getRequestID.1 req) := by
  have hpos := List.length_pos_iff.2 hne
  rw [rpcSessionNetworkMessageMaxLen, sizeofRPCMessageHeader] at hlen
  have hwrap : wrap32 ((data.length : ℤ) + (4 : ℕ)) = data.length + 4 := by
    refine wrap32_of_range ?_ ?_
    · rw [intMin]
      omega
    · rw [intMax]
      omega
  have hacc : acceptsLength data = true := by
    rw [acceptsLength, sizeofRPCMessageHeader, rpcSessionNetworkMessageMaxLen, hwrap]
    simp only [Bool.and_eq_true, decide_eq_true_eq]
    omega
  have hfits : (sizeofRPCMessageHeader + data.length : ℤ) ≤ rpcSessionNetworkMessageMaxLen := by
    rw [sizeofRPCMessageHeader, rpcSessionNetworkMessageMaxLen]
    omega
  rw [asyncCall, if_pos hacc]
  dsimp only
  rw [requestMessage, if_pos hfits]

theorem length_of_sent {s s' : RPCSession ρ} {req : ρ} {data message : List Byte} {k : ℤ}
    (h : s.asyncCall H req data = .sent k message s') : data ≠ [] ∧
      (sizeofRPCMessageHeader + data.length : ℤ) < rpcSessionNetworkMessageMaxLen := by
  refine ⟨(asyncCall_sent h).nonEmpty, ?_⟩
  unfold asyncCall at h
  split_ifs at h with hacc
  dsimp only at h
  split at h
  · cases h
  · rename_i msg hmsg
    rw [requestMessage] at hmsg
    split_ifs at hmsg with hfits
    simp only [acceptsLength, Bool.and_eq_true, decide_eq_true_eq] at hacc
    have hlt := hacc.2
    rw [rpcSessionNetworkMessageMaxLen, sizeofRPCMessageHeader] at *
    rw [wrap32_of_range (by rw [intMin]; omega) (by rw [intMax]; omega)] at hlt
    omega

/-- A response found its request. -/
structure Answers (H : HostLayout) (s : RPCSession ρ) (data : List Byte) (request : ρ) : Prop where
  long : sizeofRPCMessageHeader < data.length
  type : (messageHeader data).type = rpcMessageTypeResponse
  target : s.responseTarget H data = some request

theorem onRecv_answers {data : List Byte} {request : ρ} (h : Answers H s data request)
    (results : List HandleResult) : s.onRecv H data results =
      ((s.eraseRequest (RpcCalls.messageId H data)).pushFreeId (RpcCalls.messageId H data),
        [.onCallBack request (messageBody data)]) := by
  unfold onRecv
  rw [if_neg (by have := h.long; omega)]
  dsimp only
  rw [if_pos h.type, h.target]
  rfl

theorem callBacks_handleRequest (s : RPCSession ρ) (l : List (Addr × HandleResult))
    (data : List Byte) :
    callBacks (l.flatMap fun p => s.handleRequest data p.1 p.2) = [] := by
  rw [callBacks, List.filterMap_eq_nil_iff]
  intro call hcall
  obtain ⟨p, -, hp⟩ := List.mem_flatMap.1 hcall
  rw [handleRequest] at hp
  rcases List.mem_cons.1 hp with rfl | hp
  · rfl
  · split_ifs at hp
    · rw [List.mem_singleton.1 hp]
    · cases hp

theorem onRecv_other {data : List Byte} (results : List HandleResult)
    (h : ∀ request, ¬ Answers H s data request) :
    (s.onRecv H data results).1 = s ∧ callBacks (s.onRecv H data results).2 = [] := by
  unfold onRecv
  split_ifs with hlong htype
  · exact ⟨rfl, rfl⟩
  · dsimp only
    split
    · rename_i request hreq
      exact absurd ⟨by omega, htype, hreq⟩ (h request)
    · exact ⟨rfl, rfl⟩
  · exact ⟨rfl, callBacks_handleRequest s _ data⟩
  · exact ⟨rfl, rfl⟩

end RPCSession

end Elegance
