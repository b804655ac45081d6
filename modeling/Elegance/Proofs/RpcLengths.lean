import Elegance.RpcLengths

/-!
# Messages too long to be counted

The four bytes of a header make a length near `INT_MAX` negative, which passes the test for messages
that are too long (`totalLen_of_gt`). The request and the response agree in this: what is sent is in
bounds exactly when the length leaves room for the header (`inBounds_send_iff`).
-/

namespace Elegance

open CInt

theorem totalLen_eq (length : ℤ) : totalLen length = wrap32 (length + sizeofRPCMessageHeader) := by
  rw [totalLen, wrap32_eq, wrap32_eq]
  omega

variable {length : ℤ}

theorem totalLen_of_le (hpos : 0 < length) (h : length ≤ intMax - sizeofRPCMessageHeader) :
    totalLen length = length + sizeofRPCMessageHeader := by
  rw [sizeofRPCMessageHeader] at h
  rw [totalLen_eq, wrap32_of_range] <;> rw [sizeofRPCMessageHeader]
  · rw [intMin]
    omega
  · omega

/-- The total of any other length is negative. -/
theorem totalLen_of_gt (h : intMax - sizeofRPCMessageHeader < length) (hle : length ≤ intMax) :
    totalLen length < 0 := by
  rw [sizeofRPCMessageHeader, intMax] at h
  rw [intMax] at hle
  rw [totalLen_eq, wrap32_eq, sizeofRPCMessageHeader]
  omega

namespace LengthEvent

/-- Both tests send a message of a length that fits only if it is in bounds. -/
theorem inBounds_of_le {copy : Option MemCopy} (hpos : 0 < length)
    (hle : length ≤ intMax - sizeofRPCMessageHeader)
    (hlt : totalLen length < rpcSessionNetworkMessageMaxLen)
    (hcopy : ∀ c ∈ copy,
      c = ⟨length, length, sizeofRPCMessageHeader, rpcSessionNetworkMessageMaxLen⟩) :
    SessionSend.InBounds ⟨copy, totalLen length⟩ := by
  rw [totalLen_of_le hpos hle, sizeofRPCMessageHeader, rpcSessionNetworkMessageMaxLen] at hlt
  refine ⟨fun c hc => ?_, ?_⟩
  · rw [hcopy c hc, MemCopy.InBounds, sizeofRPCMessageHeader, rpcSessionNetworkMessageMaxLen]
    dsimp only
    omega
  · dsimp only
    rw [totalLen_of_le hpos hle, sizeofRPCMessageHeader, rpcSessionNetworkMessageMaxLen]
    omega

/-- A message of a negative length is not in bounds. -/
theorem not_inBounds_of_gt {copy : Option MemCopy} (h : intMax - sizeofRPCMessageHeader < length)
    (hle : length ≤ intMax) : ¬ SessionSend.InBounds ⟨copy, totalLen length⟩ := by
  intro hbounds
  have hneg := totalLen_of_gt h hle
  have hmin := hbounds.2.1
  rw [sizeofRPCMessageHeader] at hmin
  dsimp only at hmin
  omega

theorem mem_send_asyncCall {s : SessionSend} : s ∈ (asyncCall length).send ↔
    0 < length ∧ totalLen length < rpcSessionNetworkMessageMaxLen ∧
      s = ⟨some ⟨length, length, sizeofRPCMessageHeader, rpcSessionNetworkMessageMaxLen⟩,
        totalLen length⟩ := by
  rw [send]
  split_ifs with hpos hlong
  · simp [hpos]
  · simp [hlong]
  · simp [not_le.1 hpos, not_le.1 hlong, eq_comm]

theorem mem_send_handleCall {handleResult : ℤ} {s : SessionSend} :
    s ∈ (handleCall handleResult length).send ↔
      handleResult = 0 ∧ 0 < length ∧ totalLen length < rpcSessionNetworkMessageMaxLen ∧
        s = ⟨none, totalLen length⟩ := by
  rw [send]
  split_ifs with hresult hpos hlong
  · simp [hresult]
  · simp [hpos]
  · simp [hlong]
  · simp [not_not.1 hresult, not_le.1 hpos, not_le.1 hlong, eq_comm]

/-- No test stops a length that does not fit. -/
theorem passes_of_gt (h : intMax - sizeofRPCMessageHeader < length) (hle : length ≤ intMax) :
    0 < length ∧ totalLen length < rpcSessionNetworkMessageMaxLen := by
  have hneg := totalLen_of_gt h hle
  rw [sizeofRPCMessageHeader, intMax] at h
  rw [rpcSessionNetworkMessageMaxLen]
  omega

/-- What is sent is in bounds exactly when the length leaves room for the header. -/
theorem inBounds_send_iff {ev : LengthEvent} (hint : ev.IsInt) :
    (∀ s ∈ ev.send, s.InBounds) ↔ ev.Fits := by
  cases ev with
  | asyncCall length =>
    constructor
    · intro h
      by_contra hfits
      have hgt : intMax - sizeofRPCMessageHeader < length := not_le.1 hfits
      obtain ⟨hpos, hlt⟩ := passes_of_gt hgt hint.2
      exact not_inBounds_of_gt hgt hint.2 (h _ (mem_send_asyncCall.2 ⟨hpos, hlt, rfl⟩))
    · intro hfits s hs
      obtain ⟨hpos, hlt, rfl⟩ := mem_send_asyncCall.1 hs
      exact inBounds_of_le hpos hfits hlt fun c hc => (Option.some.inj hc).symm
  | handleCall handleResult returnLength =>
    constructor
    · intro h hzero
      by_contra hfits
      have hgt : intMax - sizeofRPCMessageHeader < returnLength := not_le.1 hfits
      obtain ⟨hpos, hlt⟩ := passes_of_gt hgt hint.2.2
      exact not_inBounds_of_gt hgt hint.2.2 (h _ (mem_send_handleCall.2 ⟨hzero, hpos, hlt, rfl⟩))
    · intro hfits s hs
      obtain ⟨hzero, hpos, hlt, rfl⟩ := mem_send_handleCall.1 hs
      exact inBounds_of_le hpos (hfits hzero) hlt fun c hc => by cases hc

theorem inBounds_send_iff_oneByte :
    (∀ s ∈ (asyncCall 1).send, s.InBounds) ↔ (asyncCall 1).Fits :=
  inBounds_send_iff (by unfold IsInt; decide)

/-- A call with `INT_MAX` bytes and an answer with as many are sent, with a negative length. -/
theorem not_inBounds_intMax :
    ¬ (∀ s ∈ (asyncCall intMax).send, s.InBounds) ∧
      ¬ ∀ s ∈ (handleCall 0 intMax).send, s.InBounds :=
  ⟨fun h => absurd (h _ rfl).2.1 (by decide), fun h => absurd (h _ rfl).2.1 (by decide)⟩

end LengthEvent

namespace RPCSession

variable {ρ : Type} (H : HostLayout) (s : RPCSession ρ)

/-- `AsyncCall` of some data gives the request up where nothing is sent of its length. -/
theorem acceptsLength_eq_isSome (data : List Byte) :
    acceptsLength data = (LengthEvent.asyncCall data.length).send.isSome := by
  rw [acceptsLength, ← totalLen_eq, LengthEvent.send]
  generalize (data.length : ℤ) = length
  split_ifs with hpos hlong
  · simp [hpos]
  · simp [hlong]
  · simp [not_le.1 hpos, not_le.1 hlong]

/-- It leaves `message_buffer_` where the copy of that length does, and sends the total otherwise. -/
theorem requestMessage_spec {requestId : ℤ} {data : List Byte} {send : SessionSend}
    (h : send ∈ (LengthEvent.asyncCall data.length).send) :
    ((s.requestMessage H requestId data).isSome ↔ ∀ c ∈ send.copy, c.InBounds) ∧
      ∀ message ∈ s.requestMessage H requestId data, (message.length : ℤ) = send.totalLen := by
  obtain ⟨hpos, hlt, rfl⟩ := LengthEvent.mem_send_asyncCall.1 h
  rw [requestMessage]
  split_ifs with hroom
  · refine ⟨?_, fun message hmessage => ?_⟩
    · simp [MemCopy.InBounds, hroom]
    · obtain rfl := Option.some.inj hmessage
      have hle : (data.length : ℤ) ≤ intMax - sizeofRPCMessageHeader := by
        rw [sizeofRPCMessageHeader, rpcSessionNetworkMessageMaxLen] at hroom
        rw [sizeofRPCMessageHeader, intMax]
        omega
      rw [totalLen_of_le hpos hle]
      simp [RPCMessageHeader.message, sizeofRPCMessageHeader]
      ring
  · simp [MemCopy.InBounds, hroom]

end RPCSession

/-- A handler's result is sent as an answer where a message of its length is. -/
theorem HandleResult.answers_eq_isSome (r : HandleResult) :
    r.answers = (LengthEvent.handleCall r.handleResult r.resultDataLen).send.isSome := by
  rw [answers, ← totalLen_eq, LengthEvent.send]
  split_ifs with hresult hpos hlong
  · simp [hresult]
  · simp [hpos]
  · simp [hlong]
  · simp [not_not.1 hresult, not_le.1 hpos, not_le.1 hlong]

end Elegance
