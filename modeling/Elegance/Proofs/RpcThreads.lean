import Elegance.RpcThreads
import Elegance.Proofs.RpcLink

/-!
# No response is lost

`AsyncCall` sends a request before it registers it. A response that is processed in between finds
nothing under its id; one processed later finds its own request, while fewer than `SHRT_MAX` ids are
in use.
-/

namespace Elegance

open CInt RPCSession Machine

variable {H : HostLayout}

namespace RpcThreads

variable {w : RpcThreads} {ev : ThreadEvent}

/-- The three steps of the calling thread are `AsyncCall`. -/
theorem exec_asyncCall {data message : List Byte} {k : ℤ} {s' : RPCSession ℕ}
    (h : w.session.asyncCall H w.calls data = .sent k message s') :
    exec (step H) w [.draw data, .send, .register] =
      { w with
        session := s'
        caller := .idle
        calls := w.calls + 1
        unanswered := w.unanswered ++ [(w.calls, message)] } := by
  unfold asyncCall at h
  split_ifs at h
  rw [exec_cons, exec_cons, exec_cons, exec_nil, step]
  rcases hid : w.session.getRequestID with ⟨id, s₁⟩
  rw [hid] at h
  dsimp only at h ⊢
  split at h
  · cases h
  · rename_i msg hmsg
    injection h with _ hm hs
    rw [step]
    dsimp only
    rw [hmsg]
    dsimp only
    rw [step, hm, ← hs]

/-- The two steps of the receiving thread are `OnRecv`. -/
theorem exec_onRecv {n : ℕ} {message : List Byte} {responses : List (ℕ × List Byte)}
    (hresp : w.responses = (n, message) :: responses) (hfree : w.freeing = none) {k : ℤ}
    (hcarries : Carries H rpcMessageTypeResponse k message) (results : List HandleResult) :
    (exec (step H) w [.recv, .push]).session = (w.session.onRecv H message results).1 := by
  rw [exec_cons, exec_cons, exec_nil, step, hresp]
  dsimp only
  rcases htarget : w.session.responseTarget H message with _ | request
  · have hno : ∀ request, ¬ Answers H w.session message request := fun request ha => by
      rw [ha.target] at htarget
      cases htarget
    rw [(onRecv_other results hno).1, step]
    dsimp only
    rw [hfree]
  · rw [onRecv_answers ⟨hcarries.long, hcarries.type, htarget⟩ results, step]

/-- The ids that are not free: drawn for a call, in the table, or on their way back. -/
def used (w : RpcThreads) : List ℤ :=
  w.caller.ids ++ w.freeing.toList ++ w.session.requestList.keys

/-- The call `n` has the id `k`, registered or about to be. -/
def Has (w : RpcThreads) (k : ℤ) (n : ℕ) : Prop :=
  w.session.requestList.find k = some n ∨ w.caller = .sent k n

variable (H) in
structure Threaded (w : RpcThreads) : Prop where
  pooled : ∃ m, Pooled w.session w.used m
  delivered : w.Delivered
  flight : ((w.unanswered ++ w.responses).map Prod.fst).Nodup
  request : ∀ x ∈ w.unanswered, ∃ k, w.Has k x.1 ∧ Carries H rpcMessageTypeRequest k x.2
  response : ∀ x ∈ w.responses, ∃ k, w.Has k x.1 ∧ Carries H rpcMessageTypeResponse k x.2
  made : ∀ x ∈ w.unanswered ++ w.responses, x.1 < w.calls
  registered : ∀ k n, w.session.requestList.find k = some n → n < w.calls ∧
    w.caller.call? ≠ some n
  drawn : ∀ k n data, w.caller = .drawn k n data →
    n < w.calls ∧ data ≠ [] ∧ n ∉ (w.unanswered ++ w.responses).map Prod.fst
  sent : ∀ k n, w.caller = .sent k n → n < w.calls

theorem threaded_start (networkId : NetworkID) (reserveCh : Byte) :
    Threaded H (start networkId reserveCh) where
  pooled := ⟨0, Pool.empty 0, by decide, rfl⟩
  delivered := rfl
  flight := .nil
  request x hx := by simp [start] at hx
  response x hx := by simp [start] at hx
  made x hx := by simp [start] at hx
  registered k n hk := by simp [start] at hk
  drawn k n data hc := by simp [start] at hc
  sent k n hc := by simp [start] at hc

/-- The id of the call under way is not in the table. -/
theorem Threaded.find_eq_none (h : Threaded H w) {k : ℤ} (hk : k ∈ w.caller.ids) :
    w.session.requestList.find k = none := by
  obtain ⟨m, hm⟩ := h.pooled
  have hnodup := hm.pool.nodup_used
  rw [used, List.append_assoc, List.nodup_append] at hnodup
  have hnot : k ∉ w.session.requestList.keys := fun hmem =>
    hnodup.2.2 k hk k (List.mem_append_right _ hmem) rfl
  rw [StdMap.mem_keys_iff, Bool.not_eq_true, Option.isSome_eq_false_iff,
    Option.isNone_iff_eq_none] at hnot
  exact hnot

theorem threaded_draw {data : List Byte} (h : Threaded H w) (hcan : w.Can (.draw data))
    (hroom : w.Room (.draw data)) : Threaded H (w.step H (.draw data)) := by
  obtain ⟨-, hidle, hacc⟩ := hcan
  obtain ⟨m, hm⟩ := h.pooled
  have hused : w.used = w.freeing.toList ++ w.session.requestList.keys := by
    rw [used, hidle]
    rfl
  rw [hused] at hm
  obtain ⟨-, m', hm'⟩ := hm.draw hroom
  have hfind : w.session.getRequestID.2.requestList = w.session.requestList := by
    rw [getRequestID_fields]
  have hhas : ∀ k n, w.Has k n → w.session.requestList.find k = some n := fun k n hk => by
    rcases hk with hk | hk
    · exact hk
    · rw [hidle] at hk
      cases hk
  rw [step]
  dsimp only
  refine ⟨⟨m', ?_⟩, h.delivered, h.flight, fun x hx => ?_, fun x hx => ?_,
    fun x hx => Nat.lt_succ_of_lt (h.made x hx), fun k n hk => ?_, fun k n d hc => ?_,
    fun k n hc => by cases hc⟩
  · rw [used]
    dsimp only
    rw [hfind]
    exact hm'
  · obtain ⟨k, hk, hc⟩ := h.request x hx
    exact ⟨k, .inl (by dsimp only; rw [hfind]; exact hhas k _ hk), hc⟩
  · obtain ⟨k, hk, hc⟩ := h.response x hx
    exact ⟨k, .inl (by dsimp only; rw [hfind]; exact hhas k _ hk), hc⟩
  · dsimp only at hk
    rw [hfind] at hk
    have hlt := (h.registered k n hk).1
    refine ⟨Nat.lt_succ_of_lt hlt, fun hcall => ?_⟩
    have := Option.some.inj hcall
    omega
  · injection hc with hk hn hd
    subst hn hd
    refine ⟨Nat.lt_succ_self _, fun hnil => ?_, fun hmem => ?_⟩
    · rw [hnil] at hacc
      simp [acceptsLength] at hacc
    · obtain ⟨x, hx, hxn⟩ := List.mem_map.1 hmem
      have := h.made x hx
      omega

theorem threaded_send (h : Threaded H w) : Threaded H (w.step H .send) := by
  rw [step]
  rcases hcaller : w.caller with _ | ⟨k, n, data⟩ | ⟨k, n⟩
  · exact h
  · dsimp only
    rcases hmsg : w.session.requestMessage H k data with _ | message
    · rw [← hcaller]
      exact ⟨h.pooled, h.delivered, h.flight, h.request, h.response, h.made, h.registered,
        h.drawn, h.sent⟩
    obtain ⟨hlt, hne, hnew⟩ := h.drawn k n data hcaller
    have hhas : ∀ j i, w.Has j i → w.session.requestList.find j = some i := fun j i hj => by
      rcases hj with hj | hj
      · exact hj
      · rw [hcaller] at hj
        cases hj
    have hid : IsRequestId k := by
      obtain ⟨m, hm⟩ := h.pooled
      exact hm.isRequestId (by simp [used, hcaller, Caller.ids])
    have hcarries : Carries H rpcMessageTypeRequest k message := by
      rw [requestMessage] at hmsg
      split_ifs at hmsg
      have hc := carries_message (H := H)
        (h := ⟨rpcMessageTypeRequest, w.session.reserveCh, H.writeShort (wrap16 k)⟩)
        (H.length_writeShort _) hne
      rwa [Option.some.inj hmsg, hid.readShort_eq] at hc
    have hperm : (w.unanswered ++ [(n, message)] ++ w.responses).Perm
        ((n, message) :: (w.unanswered ++ w.responses)) := by
      rw [List.append_assoc]
      exact List.perm_middle
    refine ⟨?_, h.delivered, ?_, fun x hx => ?_, fun x hx => ?_, fun x hx => ?_,
      fun j i hj => ?_, (fun j i d hc => by cases hc), fun j i hc => ?_⟩
    · have hpooled := h.pooled
      rw [used, hcaller] at hpooled
      exact hpooled
    · dsimp only
      rw [(hperm.map Prod.fst).nodup_iff]
      exact List.nodup_cons.2 ⟨hnew, h.flight⟩
    · rcases List.mem_append.1 hx with hx | hx
      · obtain ⟨j, hj, hc⟩ := h.request x hx
        exact ⟨j, .inl (hhas j _ hj), hc⟩
      · rw [List.mem_singleton.1 hx]
        exact ⟨k, .inr rfl, hcarries⟩
    · obtain ⟨j, hj, hc⟩ := h.response x hx
      exact ⟨j, .inl (hhas j _ hj), hc⟩
    · rcases List.mem_cons.1 (hperm.mem_iff.1 hx) with rfl | hx
      · exact hlt
      · exact h.made x hx
    · obtain ⟨hi, hcall⟩ := h.registered j i hj
      rw [hcaller] at hcall
      exact ⟨hi, hcall⟩
    · injection hc with hk hn
      subst hn
      exact hlt
  · exact h

theorem threaded_register (h : Threaded H w) (hcan : w.Can .register) :
    Threaded H (w.step H .register) := by
  obtain ⟨-, -, hfree⟩ := hcan
  rw [step]
  rcases hcaller : w.caller with _ | ⟨k, n, data⟩ | ⟨k, n⟩
  · exact h
  · exact h
  have hnone : w.session.requestList.find k = none :=
    h.find_eq_none (by rw [hcaller]; exact List.mem_cons_self)
  have hhas : ∀ j i, w.Has j i → (w.session.register k n).requestList.find j = some i :=
    fun j i hj => by
      rw [find_register]
      rcases hj with hj | hj
      · rw [if_neg fun hjk => by
          rw [hjk, hnone] at hj
          cases hj]
        exact hj
      · rw [hcaller] at hj
        injection hj with hjk hin
        rw [if_pos hjk.symm, hin]
  dsimp only
  refine ⟨?_, h.delivered, h.flight, fun x hx => ?_, fun x hx => ?_, h.made, fun j i hj => ?_,
    (fun j i d hc => by cases hc), fun j i hc => by cases hc⟩
  · obtain ⟨m, hm⟩ := h.pooled
    have hkeys := (StdMap.keys_set hnone n).symm
    refine ⟨m, ?_⟩
    rw [used, hcaller, hfree] at hm
    rw [used, hfree]
    exact ⟨hm.pool.perm hkeys, hm.le, hm.next⟩
  · obtain ⟨j, hj, hc⟩ := h.request x hx
    exact ⟨j, .inl (hhas j _ hj), hc⟩
  · obtain ⟨j, hj, hc⟩ := h.response x hx
    exact ⟨j, .inl (hhas j _ hj), hc⟩
  · dsimp only at hj
    rw [find_register] at hj
    refine ⟨?_, by simp [Caller.call?]⟩
    split_ifs at hj with hjk
    · rw [← Option.some.inj hj]
      exact h.sent k n hcaller
    · exact (h.registered j i hj).1

theorem threaded_answer {x : ℕ × List Byte} {reserveCh : Byte} {payload : List Byte}
    (h : Threaded H w) (hcan : w.Can (.answer x reserveCh payload)) :
    Threaded H (w.step H (.answer x reserveCh payload)) := by
  obtain ⟨-, hx, hne⟩ := hcan
  obtain ⟨k, hk, hcarries⟩ := h.request x hx
  set message := RPCMessageHeader.message
    ⟨rpcMessageTypeResponse, reserveCh, (messageHeader x.2).messageId⟩ payload
  have hanswer : Carries H rpcMessageTypeResponse k message := by
    have hc := carries_message (H := H)
      (h := ⟨rpcMessageTypeResponse, reserveCh, (messageHeader x.2).messageId⟩)
      (length_messageId hcarries.long) hne
    rwa [show H.readShort (messageHeader x.2).messageId = k from hcarries.id] at hc
  have hperm : ((w.unanswered.erase x ++ (w.responses ++ [(x.1, message)])).map Prod.fst).Perm
      ((w.unanswered ++ w.responses).map Prod.fst) := by
    have hsplit := ((List.perm_cons_erase hx).append_right w.responses).map Prod.fst
    refine List.Perm.trans ?_ hsplit.symm
    rw [← List.append_assoc, List.map_append, List.cons_append, List.map_cons]
    exact List.perm_append_singleton _ _
  rw [step]
  refine ⟨h.pooled, h.delivered, hperm.nodup_iff.2 h.flight, fun y hy => ?_, fun y hy => ?_,
    fun y hy => ?_, h.registered, fun j n d hc => ?_, h.sent⟩
  · exact h.request y (List.mem_of_mem_erase hy)
  · rcases List.mem_append.1 hy with hy | hy
    · exact h.response y hy
    · rw [List.mem_singleton.1 hy]
      exact ⟨k, hk, hanswer⟩
  · obtain ⟨z, hz, hzy⟩ := List.mem_map.1 (hperm.mem_iff.1 (List.mem_map_of_mem hy))
    rw [← hzy]
    exact h.made z hz
  · obtain ⟨hlt, hd, hnew⟩ := h.drawn j n d hc
    exact ⟨hlt, hd, fun hmem => hnew (hperm.mem_iff.1 hmem)⟩

theorem threaded_recv (h : Threaded H w) (hcan : w.Can .recv) (hreg : w.Registered .recv) :
    Threaded H (w.step H .recv) := by
  obtain ⟨-, hne, hfree⟩ := hcan
  rcases hresp : w.responses with _ | ⟨⟨n, message⟩, responses⟩
  · exact absurd hresp hne
  obtain ⟨k, hhas, hcarries⟩ := h.response (n, message) (by simp [hresp])
  have hk : w.session.requestList.find k = some n := by
    rcases hhas with hk | hk
    · exact hk
    · refine absurd ?_ (hreg (n, message) (by rw [hresp]; rfl))
      rw [hk]
      rfl
  have hid : RpcCalls.messageId H message = k := hcarries.id
  have htarget : w.session.responseTarget H message = some n := by
    rw [responseTarget, show H.readShort (messageHeader message).messageId = k from hid, hk]
  have hflight := h.flight
  rw [hresp, (List.perm_middle.map Prod.fst).nodup_iff, List.map_cons, List.nodup_cons] at hflight
  have hother : ∀ x ∈ w.unanswered ++ responses, x.1 ≠ n := fun x hx hxn => by
    have hmem := List.mem_map_of_mem (f := Prod.fst) hx
    rw [hxn] at hmem
    exact hflight.1 hmem
  have hkeep : ∀ j i, w.Has j i → i ≠ n →
      (w.session.eraseRequest k).requestList.find j = some i ∨ w.caller = .sent j i :=
    fun j i hj hin => by
      rcases hj with hj | hj
      · left
        rw [find_eraseRequest, if_neg fun hjk => by
          rw [hjk, hk] at hj
          exact hin (Option.some.inj hj).symm]
        exact hj
      · exact .inr hj
  have hsub : ∀ x ∈ w.unanswered ++ responses, x ∈ w.unanswered ++ w.responses := fun x hx => by
    rw [hresp]
    exact (List.perm_middle.mem_iff).2 (List.mem_cons_of_mem _ hx)
  rw [step, hresp]
  dsimp only
  rw [htarget, hid]
  refine ⟨?_, ?_, hflight.2, fun x hx => ?_, fun x hx => ?_, fun x hx => h.made x (hsub x hx),
    fun j i hj => ?_, fun j i d hc => ?_, h.sent⟩
  · obtain ⟨m, hm⟩ := h.pooled
    have hkeys := StdMap.keys_erase (m := w.session.requestList) (k := k) (by rw [hk]; rfl)
    refine ⟨m, ?_⟩
    rw [used, hfree] at hm
    refine ⟨hm.pool.perm ?_, hm.le, hm.next⟩
    have hp := hkeys.append_left (w.caller.ids ++ [])
    simpa [used, eraseRequest] using hp
  · rw [Delivered]
    dsimp only
    rw [h.delivered]
  · obtain ⟨j, hj, hc⟩ := h.request x hx
    exact ⟨j, hkeep j _ hj (hother x (List.mem_append_left _ hx)), hc⟩
  · obtain ⟨j, hj, hc⟩ := h.response x (by rw [hresp]; exact List.mem_cons_of_mem _ hx)
    exact ⟨j, hkeep j _ hj (hother x (List.mem_append_right _ hx)), hc⟩
  · dsimp only at hj
    rw [find_eraseRequest] at hj
    split_ifs at hj with hjk
    exact h.registered j i hj
  · obtain ⟨hlt, hd, hnew⟩ := h.drawn j i d hc
    refine ⟨hlt, hd, fun hmem => ?_⟩
    obtain ⟨x, hx, hxi⟩ := List.mem_map.1 hmem
    exact hnew (List.mem_map.2 ⟨x, hsub x hx, hxi⟩)

theorem threaded_push (h : Threaded H w) : Threaded H (w.step H .push) := by
  rw [step]
  rcases hfreeing : w.freeing with _ | k
  · exact h
  refine ⟨?_, h.delivered, h.flight, h.request, h.response, h.made, h.registered, h.drawn, h.sent⟩
  obtain ⟨m, hm⟩ := h.pooled
  have hp : w.used.Perm (k :: (w.caller.ids ++ w.session.requestList.keys)) := by
    rw [used, hfreeing, List.append_assoc]
    exact List.perm_middle
  refine ⟨m, (hm.perm hp).push.perm ?_⟩
  rw [used]
  simp [pushFreeId]

theorem threaded_step (h : Threaded H w) (hcan : w.Can ev ∧ w.Room ev) (hreg : w.Registered ev) :
    Threaded H (w.step H ev) := by
  obtain ⟨hcan, hroom⟩ := hcan
  cases ev with
  | draw data => exact threaded_draw h hcan hroom
  | send => exact threaded_send h
  | register => exact threaded_register h hcan
  | answer x reserveCh payload => exact threaded_answer h hcan
  | recv => exact threaded_recv h hcan hreg
  | push => exact threaded_push h

/-- A response processed before its request is registered finds nothing and is dropped. -/
theorem not_delivered (h : Threaded H w) (hreg : ¬ w.Registered ev) :
    ¬ (w.step H ev).Delivered := by
  cases ev with
  | recv =>
    rcases hresp : w.responses with _ | ⟨⟨n, message⟩, responses⟩
    · simp [Registered, hresp] at hreg
    have hcall : w.caller.sentCall = some n := by
      simpa [Registered, hresp] using hreg
    obtain ⟨k, hhas, hcarries⟩ := h.response (n, message) (by simp [hresp])
    have hsent : w.caller = .sent k n := by
      rcases hhas with hk | hk
      · refine absurd ?_ (h.registered k n hk).2
        rcases hcaller : w.caller with _ | _ | _ <;> rw [hcaller] at hcall
        · cases hcall
        · cases hcall
        · exact hcall
      · exact hk
    have hnone : w.session.responseTarget H message = none := by
      rw [responseTarget, show H.readShort (messageHeader message).messageId = k from hcarries.id]
      exact h.find_eq_none (by rw [hsent]; exact List.mem_cons_self)
    intro hdelivered
    rw [step, hresp] at hdelivered
    dsimp only at hdelivered
    rw [hnone, Delivered] at hdelivered
    dsimp only at hdelivered
    rw [h.delivered] at hdelivered
    have := congrArg List.length hdelivered
    simp at this
  | _ => exact absurd trivial hreg

/-- In every run with room for its calls, every response processed reached its request exactly when
each was processed after its request was registered. -/
theorem delivered_iff (H : HostLayout) (networkId : NetworkID) (reserveCh : Byte)
    (evs : List ThreadEvent)
    (hrun : Along (step H) (fun w ev => w.Can ev ∧ w.Room ev) (start networkId reserveCh) evs) :
    (∀ pre, pre <+: evs → Delivered (exec (step H) (start networkId reserveCh) pre)) ↔
      Along (step H) Registered (start networkId reserveCh) evs :=
  along_iff_forall_exec (I := Threaded H) (fun _ h => h.delivered) (fun _ _ => threaded_step)
    (fun _ _ h _ => not_delivered h) (threaded_start networkId reserveCh) hrun

/-- Two calls, the second drawn before the first is answered. -/
theorem delivered_two_calls :
    (∀ pre, pre <+: [.draw [1], .send, .register, .draw [2],
        .answer (0, [2, 0, 0, 0, 1]) 0 [7], .recv, .push, .send, .register] →
      Delivered (exec (step littleEndian) (start 1 0) pre)) ↔
      Along (step littleEndian) Registered (start 1 0) [.draw [1], .send, .register, .draw [2],
        .answer (0, [2, 0, 0, 0, 1]) 0 [7], .recv, .push, .send, .register] :=
  delivered_iff littleEndian 1 0 _ (by decide +kernel)

/-- The answer arrives between the send and the registration. -/
theorem not_delivered_early :
    Along (step littleEndian) (fun w ev => w.Can ev ∧ w.Room ev) (start 1 0)
      [.draw [1], .send, .answer (0, [2, 0, 0, 0, 1]) 0 [7], .recv] ∧
    ¬ Delivered (exec (step littleEndian) (start 1 0)
      [.draw [1], .send, .answer (0, [2, 0, 0, 0, 1]) 0 [7], .recv]) := by
  unfold Delivered
  decide +kernel

end RpcThreads

end Elegance
