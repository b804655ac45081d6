import Elegance.RpcReads

/-!
# Which messages are read inside their bounds

Only a session looks at the length of a message. A key is read up to a NUL, which only a message that
has one ends (`range_key_iff`), and the byte of a response is read whether or not there is one. Where
all reads are inside, what lies beyond the message does not matter (`onRecv_congr_beyond`).
-/

namespace Elegance

open StdString

variable {ρ : Type} {data beyond : List Byte} {results : List HandleResult}

theorem RPCSession.lt_of_mem_onRecvReads (s : RPCSession ρ) {offset : ℕ}
    (h : offset ∈ s.onRecvReads data results) : offset < data.length := by
  have hids : ∀ o ∈ messageIdReads, o < sizeofRPCMessageHeader := by decide
  have htype : ∀ o ∈ typeReads, o < sizeofRPCMessageHeader := by decide
  unfold onRecvReads at h
  split_ifs at h with hlen hresponse hrequest
  · cases h
  all_goals
    refine lt_trans ?_ (not_le.1 hlen)
    rcases List.mem_append.1 h with h | h
    · exact htype _ h
  · exact hids _ h
  · obtain ⟨p, -, h⟩ := List.mem_flatMap.1 h
    split_ifs at h
    · exact hids _ h
    · cases h
  · cases h

/-- The key of a message ends inside it exactly when the message has its NUL. -/
theorem range_key_iff (data beyond : List Byte) :
    (∀ offset ∈ List.range' keyStrOffset ((RPCManager.receiveKey data beyond).length + 1),
      offset < data.length) ↔ 0 ∈ data.drop keyStrOffset := by
  have hrange : (∀ offset ∈ List.range' keyStrOffset ((RPCManager.receiveKey data beyond).length + 1),
      offset < data.length) ↔
        keyStrOffset + (RPCManager.receiveKey data beyond).length < data.length := by
    constructor
    · intro h
      exact h _ (List.mem_range'_1.2 ⟨by omega, by omega⟩)
    · intro h offset hoffset
      have := (List.mem_range'_1.1 hoffset).2
      omega
  rw [hrange, RPCManager.receiveKey, List.drop_append]
  by_cases hnul : 0 ∈ data.drop keyStrOffset
  · have hlt := length_cString_lt hnul
    rw [cString_append_of_mem _ hnul]
    rw [List.length_drop] at hlt
    simp only [hnul, iff_true]
    omega
  · rw [cString_append_of_not_mem _ hnul, List.length_append, List.length_drop]
    simp only [hnul, iff_false, not_lt]
    omega

namespace RPCManager

variable (m : RPCManager ρ) (networkId : NetworkID)

/-- Both parsers read inside a message exactly when it is well formed, whatever the state is and
whatever lies beyond. -/
theorem readsInside_iff (hne : data ≠ []) :
    m.ReadsInside networkId data beyond results ↔ WellFormed data := by
  have hpos : 0 < data.length := List.length_pos_of_ne_nil hne
  unfold ReadsInside onRecvReads WellFormed
  simp only [List.forall_mem_cons]
  rw [and_iff_right hpos]
  split_ifs with hkey hresponse
  · have hother : data.headD 0 ≠ rpcMessageTypeCheckKeyResponse := by
      rw [hkey]
      decide
    rw [range_key_iff]
    exact ⟨fun h => ⟨fun _ => h, fun hr => absurd hr hother⟩, fun h => h.1 hkey⟩
  · rw [List.forall_mem_singleton]
    exact ⟨fun h => ⟨fun hk => absurd hk hkey, fun _ => h⟩, fun h => h.2 hresponse⟩
  · refine ⟨fun _ => ⟨fun hk => absurd hk hkey, fun hr => absurd hr hresponse⟩, fun _ => ?_⟩
    split
    · simp
    · exact fun offset hoffset => RPCSession.lt_of_mem_onRecvReads _ hoffset

/-- What is read inside a message is what was sent: what lies beyond it has no effect. -/
theorem onRecv_congr_beyond (H : CInt.HostLayout) (hne : data ≠ [])
    (h : m.ReadsInside networkId data beyond results) (beyond' : List Byte) (reserveCh : Byte) :
    m.onRecv H networkId data beyond reserveCh results =
      m.onRecv H networkId data beyond' reserveCh results := by
  obtain ⟨hkey, hresponse⟩ := (m.readsInside_iff networkId hne).1 h
  have hreceive : data.headD 0 = rpcMessageTypeCheckKey →
      receiveKey data beyond = receiveKey data beyond' := by
    intro htype
    unfold receiveKey
    rw [List.drop_append, List.drop_append, cString_append_of_mem _ (hkey htype),
      cString_append_of_mem _ (hkey htype)]
  have hbyte : data.headD 0 = rpcMessageTypeCheckKeyResponse →
      response data beyond = response data beyond' := by
    intro htype
    have hlen := hresponse htype
    obtain ⟨a, b, rest, rfl⟩ : ∃ a b rest, data = a :: b :: rest := by
      match data, hlen with
      | a :: b :: rest, _ => exact ⟨a, b, rest, rfl⟩
    rfl
  unfold onRecv
  by_cases htype : data.headD 0 = rpcMessageTypeCheckKey
  · simp only [if_pos htype, hreceive htype]
  by_cases htype' : data.headD 0 = rpcMessageTypeCheckKeyResponse
  · simp only [if_neg htype, if_pos htype', hbyte htype']
  · simp only [if_neg htype, if_neg htype']

theorem readsInside_iff_key :
    ReadsInside ({} : RPCManager Unit) 1 [0, 0, 1, 0, 65, 0] [] [] ↔ WellFormed [0, 0, 1, 0, 65, 0] :=
  readsInside_iff _ _ (by simp)

/-- A key message of its type alone is read at the offset of the key. -/
theorem not_readsInside_type : ¬ ReadsInside ({} : RPCManager Unit) 1 [0] [] [] := by
  intro h
  exact absurd (h 4 (by simp [onRecvReads, rpcMessageTypeCheckKey, keyStrOffset])) (by decide)

end RPCManager

end Elegance
