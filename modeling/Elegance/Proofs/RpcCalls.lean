import Elegance.Proofs.RpcSession

/-!
# The request table over a run

An id in use lies in `0..SHRT_MAX-1`, is not free, and leads to the request last sent with it,
unless that was called back already (`Consistent`).
-/

namespace Elegance

open CInt Machine

variable {ρ : Type} {H : HostLayout}

namespace RPCSession

variable {s s' : RPCSession ρ}

/-- The ids in use and the free ones. -/
structure Table (s : RPCSession ρ) : Prop where
  range : ∀ k r, s.requestList.find k = some r → IsRequestId k
  stackRange : ∀ k ∈ s.freeRequestIdStack, IsRequestId k
  nextRange : IsRequestId s.nextRequestId
  free : ∀ k ∈ s.freeRequestIdStack, s.requestList.find k = none
  nodup : s.freeRequestIdStack.Nodup

theorem Table.getRequestID (h : Table s) : IsRequestId s.getRequestID.1 ∧
    IsRequestId s.getRequestID.2.nextRequestId ∧
    ∀ k ∈ s.getRequestID.2.freeRequestIdStack, k ∈ s.freeRequestIdStack ∧ k ≠ s.getRequestID.1 := by
  rcases hs : s.freeRequestIdStack with _ | ⟨top, rest⟩
  · have hnext := h.nextRange
    rw [getRequestID_nil hs]
    refine ⟨hnext, ?_, fun k hk => ?_⟩
    · rw [IsRequestId, shrtMax] at hnext ⊢
      dsimp only
      omega
    · dsimp only at hk
      rw [hs] at hk
      cases hk
  · have hnodup := h.nodup
    rw [hs, List.nodup_cons] at hnodup
    rw [getRequestID_cons hs]
    refine ⟨h.stackRange top (by simp [hs]), h.nextRange, fun k hk => ?_⟩
    exact ⟨List.mem_cons_of_mem _ hk, fun hkt : k = top => hnodup.1 (hkt ▸ hk)⟩

theorem Table.nodup_getRequestID (h : Table s) : s.getRequestID.2.freeRequestIdStack.Nodup := by
  have hnodup := h.nodup
  rcases hs : s.freeRequestIdStack with _ | ⟨top, rest⟩
  · rwa [getRequestID_nil hs]
  · rw [hs, List.nodup_cons] at hnodup
    rw [getRequestID_cons hs]
    exact hnodup.2

theorem Table.sends {req : ρ} {data message : List Byte} {k : ℤ} (h : Table s)
    (hs : Sends H s s' req data k message) : Table s' := by
  obtain ⟨hid, hnext, hstack⟩ := h.getRequestID
  rw [hs.id] at hid hstack
  refine ⟨fun j r hj => ?_, fun j hj => ?_, ?_, fun j hj => ?_, ?_⟩
  · rw [hs.find] at hj
    split_ifs at hj with hjk
    · rwa [hjk]
    · exact h.range j r hj
  · rw [hs.stack] at hj
    exact h.stackRange j (hstack j hj).1
  · rwa [hs.next]
  · rw [hs.stack] at hj
    rw [hs.find, if_neg (hstack j hj).2]
    exact h.free j (hstack j hj).1
  · rw [hs.stack]
    exact h.nodup_getRequestID

theorem Table.answers {data : List Byte} {r : ρ} (h : Table s) (ha : Answers H s data r) :
    Table ((s.eraseRequest (RpcCalls.messageId H data)).pushFreeId (RpcCalls.messageId H data)) := by
  set k := RpcCalls.messageId H data
  have hk : s.requestList.find k = some r := ha.target
  refine ⟨fun j r' hj => ?_, fun j hj => ?_, h.nextRange, fun j hj => ?_, ?_⟩
  · rw [pushFreeId, find_eraseRequest] at hj
    split_ifs at hj with hjk
    exact h.range j r' hj
  · rcases List.mem_cons.1 hj with rfl | hj
    · exact h.range _ r hk
    · exact h.stackRange j hj
  · rw [pushFreeId, find_eraseRequest]
    rcases List.mem_cons.1 hj with rfl | hj
    · rw [if_pos rfl]
    · split_ifs
      · rfl
      · exact h.free j hj
  · refine List.nodup_cons.2 ⟨fun hmem => ?_, h.nodup⟩
    rw [h.free k hmem] at hk
    cases hk

end RPCSession

open RPCSession

namespace RpcCalls

variable {w : RpcCalls ρ} {ev : CallEvent ρ}

/-- What a step can do. -/
theorem step_cases (H : HostLayout) (w : RpcCalls ρ) (ev : CallEvent ρ) :
    (∃ req data k message s', w.halted = false ∧ ev = .asyncCall req data ∧
      Sends H w.session s' req data k message ∧
      w.step H ev = { w with session := s', sent := (message, req) :: w.sent }) ∨
    (∃ data results r, w.halted = false ∧ ev = .onRecv data results ∧
      Answers H w.session data r ∧ w.step H ev = { w with
        session := (w.session.eraseRequest (messageId H data)).pushFreeId (messageId H data)
        calledBack := w.calledBack ++ [r] }) ∨
    ∃ halted, w.step H ev = { w with halted } := by
  by_cases hh : w.halted = true
  · refine .inr <| .inr ⟨w.halted, ?_⟩
    cases ev with
    | asyncCall req data => rw [step, if_pos hh]
    | onRecv data results => rw [step, if_pos hh]
  have hf : w.halted = false := by simpa using hh
  cases ev with
  | asyncCall req data =>
    rw [step, if_neg hh]
    rcases hc : w.session.asyncCall H req data with _ | _ | ⟨k, message, s'⟩
    · exact .inr <| .inr ⟨w.halted, rfl⟩
    · exact .inr <| .inr ⟨true, rfl⟩
    · exact .inl ⟨req, data, k, message, s', hf, rfl, asyncCall_sent hc, rfl⟩
  | onRecv data results =>
    rw [step, if_neg hh]
    by_cases ha : ∃ r, Answers H w.session data r
    · obtain ⟨r, ha⟩ := ha
      refine .inr <| .inl ⟨data, results, r, hf, rfl, ha, ?_⟩
      rw [onRecv_answers ha]
      rfl
    · push Not at ha
      obtain ⟨hs, hc⟩ := onRecv_other results ha
      refine .inr <| .inr ⟨w.halted, ?_⟩
      dsimp only
      rw [hs, hc]
      simp

variable (H) in
/-- The table and the history agree. -/
structure Consistent (w : RpcCalls ρ) : Prop where
  table : Table w.session
  latest : ∀ k r, w.session.requestList.find k = some r ↔
    w.latest H k = some r ∧ r ∉ w.calledBack
  distinct : (w.sent.map Prod.snd).Nodup
  once : w.calledBack.Nodup
  known : ∀ r ∈ w.calledBack, r ∈ w.sent.map Prod.snd

theorem latest_mem {k : ℤ} {r : ρ} (h : w.latest H k = some r) :
    ∃ m, (m, r) ∈ w.sent ∧ messageId H m = k := by
  obtain ⟨⟨m, r'⟩, hm, rfl⟩ := Option.map_eq_some_iff.1 h
  exact ⟨m, List.mem_of_find?_eq_some hm, by simpa using List.find?_some hm⟩

theorem Consistent.latest_inj (h : Consistent H w) {j k : ℤ} {r : ρ} (hj : w.latest H j = some r)
    (hk : w.latest H k = some r) : j = k := by
  obtain ⟨m, hm, rfl⟩ := latest_mem hj
  obtain ⟨m', hm', rfl⟩ := latest_mem hk
  obtain ⟨rfl, -⟩ := Prod.ext_iff.1 (List.inj_on_of_nodup_map h.distinct hm hm' rfl)
  rfl

theorem consistent_start (endpoint : Endpoint) (networkId : NetworkID) (reserveCh : Byte)
    (handlerList : List Addr) :
    Consistent H (start (ρ := ρ) endpoint networkId reserveCh handlerList) where
  table :=
    { range := fun k r h => by simp [start] at h
      stackRange := fun k h => by simp [start] at h
      nextRange := ⟨le_rfl, by simp [start, shrtMax]⟩
      free := fun k h => by simp [start] at h
      nodup := .nil }
  latest k r := by simp [start, RpcCalls.latest]
  distinct := .nil
  once := .nil
  known r hr := by simp [start] at hr

theorem consistent_sends {s' : RPCSession ρ} {req : ρ} {data message : List Byte} {k : ℤ}
    (h : Consistent H w) (hreq : req ∉ w.sent.map Prod.snd)
    (hs : Sends H w.session s' req data k message) :
    Consistent H { w with session := s', sent := (message, req) :: w.sent } := by
  have hid : messageId H message = k := by
    have hk := h.table.getRequestID.1
    rw [hs.id] at hk
    rw [messageId, hs.message, messageHeader_message (H.length_writeShort _)]
    exact hk.readShort_eq
  refine ⟨h.table.sends hs, fun j r => ?_, List.nodup_cons.2 ⟨hreq, h.distinct⟩, h.once,
    fun r hr => List.mem_cons_of_mem _ (h.known r hr)⟩
  dsimp only [RpcCalls.latest]
  rw [hs.find, List.find?_cons, hid]
  by_cases hj : j = k
  · subst hj
    simp only [if_true, decide_true, Option.map_some, Option.some.injEq]
    constructor
    · rintro rfl
      exact ⟨rfl, fun hmem => hreq (h.known _ hmem)⟩
    · exact And.left
  · rw [if_neg hj]
    rw [decide_eq_false (Ne.symm hj)]
    exact h.latest j r

theorem consistent_answers {data : List Byte} {r : ρ} (h : Consistent H w)
    (ha : Answers H w.session data r) : Consistent H { w with
      session := (w.session.eraseRequest (messageId H data)).pushFreeId (messageId H data)
      calledBack := w.calledBack ++ [r] } := by
  have hk : w.session.requestList.find (messageId H data) = some r := ha.target
  obtain ⟨hlast, hnew⟩ := (h.latest _ r).1 hk
  obtain ⟨m, hm, -⟩ := latest_mem hlast
  refine ⟨h.table.answers ha, fun j r' => ?_, h.distinct, ?_, fun r' hr' => ?_⟩
  · dsimp only
    rw [pushFreeId, find_eraseRequest, List.mem_append, List.mem_singleton, not_or]
    show _ ↔ w.latest H j = some r' ∧ _
    by_cases hj : j = messageId H data
    · rw [if_pos hj, hj, hlast]
      simp only [Option.some.injEq, reduceCtorEq, false_iff]
      rintro ⟨rfl, -, hne⟩
      exact hne rfl
    · rw [if_neg hj, h.latest]
      refine and_congr_right fun hl => ⟨fun hc => ⟨hc, fun hrr => ?_⟩, And.left⟩
      exact hj (h.latest_inj hl (hrr ▸ hlast))
  · refine List.nodup_append.2 ⟨h.once, List.nodup_singleton r, fun a ha' b hb => ?_⟩
    rw [List.mem_singleton.1 hb]
    exact fun hab => hnew (hab ▸ ha')
  · rcases List.mem_append.1 hr' with hr' | hr'
    · exact h.known r' hr'
    · rw [List.mem_singleton.1 hr']
      exact List.mem_map_of_mem hm

theorem consistent_step (h : Consistent H w) (hd : w.Distinct ev) : Consistent H (w.step H ev) := by
  rcases step_cases H w ev with ⟨req, data, k, message, s', -, rfl, hs, hstep⟩ |
    ⟨data, results, r, -, rfl, ha, hstep⟩ | ⟨halted, hstep⟩ <;> rw [hstep]
  · exact consistent_sends h hd hs
  · exact consistent_answers h ha
  · exact ⟨h.table, h.latest, h.distinct, h.once, h.known⟩

variable [DecidableEq ρ]

variable (H) in
/-- The ids in use are request ids and not free, none is free twice, no request object was called
back twice, and a response calls back the request last sent with its id, if it was not before. -/
structure TableOk (w : RpcCalls ρ) : Prop where
  range : ∀ k ∈ w.session.requestList.keys, 0 ≤ k ∧ k ≤ shrtMax - 1 ∧ wrap16 k = k
  disjoint : w.session.requestList.keys.Disjoint w.session.freeRequestIdStack
  nodup : w.session.freeRequestIdStack.Nodup
  once : w.calledBack.Nodup
  response : ∀ data results, sizeofRPCMessageHeader < data.length →
    (messageHeader data).type = rpcMessageTypeResponse →
      callBacks (w.session.onRecv H data results).2 =
        match w.latest H (messageId H data) with
        | some r => if r ∈ w.calledBack then [] else [(r, messageBody data)]
        | none => []

theorem Consistent.tableOk (h : Consistent H w) : TableOk H w where
  range k hk := by
    rw [StdMap.mem_keys_iff] at hk
    obtain ⟨r, hr⟩ := Option.isSome_iff_exists.1 hk
    have hid := h.table.range k r hr
    exact ⟨hid.1, Int.le_sub_one_of_lt hid.2, hid.wrap16_eq⟩
  disjoint k hk hfree := by
    rw [StdMap.mem_keys_iff, h.table.free k hfree] at hk
    cases hk
  nodup := h.table.nodup
  once := h.once
  response data results hlong htype := by
    by_cases ha : ∃ r, Answers H w.session data r
    · obtain ⟨r, ha⟩ := ha
      obtain ⟨hlast, hnew⟩ := (h.latest _ r).1 ha.target
      rw [onRecv_answers ha, show w.latest H (messageId H data) = some r from hlast]
      dsimp only
      rw [if_neg hnew]
      rfl
    · push Not at ha
      rw [(onRecv_other results ha).2]
      rcases hl : w.latest H (messageId H data) with _ | r
      · rfl
      · dsimp only
        rw [if_pos]
        by_contra hnew
        exact ha r ⟨hlong, htype, (h.latest _ r).2 ⟨hl, hnew⟩⟩

/-- The request table is in order after every run of calls, on request objects sent once each, and
arbitrary messages. -/
theorem requestTable_ok (H : HostLayout) (endpoint : Endpoint) (networkId : NetworkID)
    (reserveCh : Byte) (handlerList : List Addr) (evs : List (CallEvent ρ))
    (hrun : Along (step H) Distinct (start endpoint networkId reserveCh handlerList) evs) :
    TableOk H (exec (step H) (start endpoint networkId reserveCh handlerList) evs) := by
  have hinv : Consistent H (exec (step H) (start endpoint networkId reserveCh handlerList) evs) :=
    invariant (fun _ _ h hd => consistent_step h hd) (consistent_start _ _ _ _) hrun
  exact hinv.tableOk

/-- The id of the first call goes to the second, after a response that comes twice. -/
theorem requestTable_ok_twice :
    let evs : List (CallEvent ℕ) := [.asyncCall 7 [1], .onRecv [3, 0, 0, 0, 9] [],
      .onRecv [3, 0, 0, 0, 9] [], .asyncCall 8 [1]]
    TableOk littleEndian (exec (step littleEndian) (start {} 1 0 []) evs) :=
  requestTable_ok littleEndian {} 1 0 [] _ (by decide +kernel)

end RpcCalls

end Elegance
