import Elegance.RpcLocks

/-!
# No deadlock among the locks of a session

A thread in an `AsyncCall` takes `request_lock_` while it holds `send_message_lock_`, and an
`OnCallBack` that issues a call takes them the other way round. While no thread is on its way from
the first to the second as another is on its way back, the threads that block all take the locks in
one order.
-/

namespace Elegance

open CInt Machine

namespace AsyncCallAt

variable {ρ : Type} {H : HostLayout} {s s' : RPCSession ρ} {call : AsyncCallAt ρ}
  {r : Option (AsyncCallAt ρ)}

/-- A step takes no lock but the one the call was about to take. -/
theorem held_run (h : call.run H s = some (s', r)) {l : SessionLock}
    (hl : l ∈ r.elim [] (·.held)) : l ∈ call.held ∨ call.wants = some l := by
  cases call with
  | sending req data requestId =>
    simp only [run] at h
    split at h <;> simp at h
    obtain ⟨-, rfl⟩ := h
    exact .inl hl
  | lockRequest req requestId =>
    obtain ⟨-, rfl⟩ := by simpa [run] using h
    rcases List.mem_cons.1 hl with rfl | hl
    · simp [held]
    · simp_all [wants]
  | _ =>
    obtain ⟨-, rfl⟩ := by simpa [run] using h
    simp_all [held, wants]

theorem beforeSend_run (h : call.run H s = some (s', r)) (hr : r.any (·.beforeSend) = true) :
    call.beforeSend = true := by
  cases call with
  | sending req data requestId =>
    simp only [run] at h
    split at h <;> simp at h
    obtain ⟨-, rfl⟩ := h
    simp [beforeSend] at hr
  | _ =>
    obtain ⟨-, rfl⟩ := by simpa [run] using h
    simp_all [beforeSend]

theorem beforeRequest_run (h : call.run H s = some (s', r))
    (hr : r.any (·.beforeRequest) = true) : call.beforeRequest = true := by
  cases call with
  | sending req data requestId => rfl
  | _ =>
    obtain ⟨-, rfl⟩ := by simpa [run] using h
    simp_all [beforeRequest]

/-- A call outside a callback gets on its way from `send_message_lock_` to `request_lock_` when it
takes the first. -/
theorem beforeRequest_run_out (h : call.run H s = some (s', r))
    (hr : (r.elim RpcThread.idle .inAsyncCall).beforeRequest = true) :
    (RpcThread.inAsyncCall call).beforeRequest = true ∨ ∃ req data requestId,
      RpcThread.inAsyncCall call = .inAsyncCall (.lockSendMessage req data requestId) := by
  cases call with
  | sending req data requestId => exact .inl rfl
  | lockSendMessage req data requestId => exact .inr ⟨req, data, requestId, rfl⟩
  | _ =>
    obtain ⟨-, rfl⟩ := by simpa [run] using h
    simp_all [RpcThread.beforeRequest, beforeRequest, beforeSend]

/-- Of the three locks a call takes only `request_lock_` while it holds another. -/
theorem wants_cases {l : SessionLock} (h : call.wants = some l) :
    (l = .freeRequestIdLock ∧ call.held = []) ∨
    (l = .sendMessageLock ∧ call.held = [] ∧ call.beforeSend = true) ∨
    (l = .requestLock ∧ call.held = [.sendMessageLock] ∧ call.beforeRequest = true ∧
      call.beforeSend = false) := by
  cases call with
  | lockFreeRequestId req data => exact .inl ⟨(Option.some.inj h).symm, rfl⟩
  | lockSendMessage req data requestId =>
    exact .inr (.inl ⟨(Option.some.inj h).symm, rfl, rfl⟩)
  | lockRequest req requestId =>
    exact .inr (.inr ⟨(Option.some.inj h).symm, rfl, rfl, rfl⟩)
  | drawing _ _ | sending _ _ _ | registering _ _ | unlockSendMessage => cases h

end AsyncCallAt

namespace RpcThread

variable {ρ : Type} {H : HostLayout} {s s' : RPCSession ρ} {th th' : RpcThread ρ}

/-- A step of a thread is one of the call it is in, or leads nowhere a lock is yet to be taken in
the wrong order. -/
theorem run_cases (h : th.run H s = some (s', th')) :
    (∃ call r, th = .inAsyncCall call ∧ call.run H s = some (s', r) ∧
      th' = r.elim .idle .inAsyncCall) ∨
    (∃ data call r, th = .inOnCallBack data (some call) ∧ call.run H s = some (s', r) ∧
      th' = .inOnCallBack data r) ∨
    (∃ handlers call r, th = .inHandleCall handlers (some call) ∧ call.run H s = some (s', r) ∧
      th' = .inHandleCall handlers r) ∨
    ((∀ l ∈ th'.held, l ∈ th.held ∨ th.wants = some l) ∧ th'.beforeSend = false ∧
      th'.beforeRequest = false) := by
  cases th with
  | inAsyncCall call =>
    obtain ⟨⟨_, r⟩, hr, h⟩ := Option.map_eq_some_iff.1 h
    obtain ⟨rfl, rfl⟩ := Prod.mk.inj h
    exact .inl ⟨call, r, rfl, hr, rfl⟩
  | inOnCallBack data call =>
    rcases call with _ | call
    · obtain ⟨-, rfl⟩ := by simpa [run] using h
      simp [held, beforeSend, beforeRequest]
    · obtain ⟨⟨_, r⟩, hr, h⟩ := Option.map_eq_some_iff.1 h
      obtain ⟨rfl, rfl⟩ := Prod.mk.inj h
      exact .inr (.inl ⟨data, call, r, rfl, hr, rfl⟩)
  | inHandleCall handlers call =>
    rcases call with _ | call
    · obtain ⟨-, rfl⟩ := by simpa [run] using h
      simp [held, beforeSend, beforeRequest]
    · obtain ⟨⟨_, r⟩, hr, h⟩ := Option.map_eq_some_iff.1 h
      obtain ⟨rfl, rfl⟩ := Prod.mk.inj h
      exact .inr (.inr (.inl ⟨handlers, call, r, rfl, hr, rfl⟩))
  | finding data =>
    simp only [run] at h
    split at h <;> obtain ⟨-, rfl⟩ := by simpa using h
    all_goals simp [held, beforeSend, beforeRequest]
  | unlockSendMessage handlers =>
    simp only [run] at h
    split at h <;> obtain ⟨-, rfl⟩ := by simpa using h
    all_goals simp [held, beforeSend, beforeRequest]
  | _ =>
    obtain ⟨-, rfl⟩ := by simpa [run] using h
    simp [held, wants, beforeSend, beforeRequest]

theorem held_run (h : th.run H s = some (s', th')) {l : SessionLock} (hl : l ∈ th'.held) :
    l ∈ th.held ∨ th.wants = some l := by
  rcases run_cases h with ⟨call, r, rfl, hr, rfl⟩ | ⟨data, call, r, rfl, hr, rfl⟩ |
    ⟨handlers, call, r, rfl, hr, rfl⟩ | ⟨hheld, -⟩
  · refine AsyncCallAt.held_run hr ?_
    cases r <;> exact hl
  · rcases List.mem_cons.1 hl with rfl | hl
    · exact .inl (List.mem_cons_self ..)
    · exact (AsyncCallAt.held_run hr hl).imp_left (List.mem_cons_of_mem _)
  · rcases List.mem_cons.1 hl with rfl | hl
    · exact .inl (List.mem_cons_self ..)
    · exact (AsyncCallAt.held_run hr hl).imp_left (List.mem_cons_of_mem _)
  · exact hheld l hl

theorem beforeSend_run (h : th.run H s = some (s', th')) (hs : th'.beforeSend = true) :
    th.beforeSend = true := by
  rcases run_cases h with ⟨call, r, rfl, hr, rfl⟩ | ⟨data, call, r, rfl, hr, rfl⟩ |
    ⟨handlers, call, r, rfl, hr, rfl⟩ | ⟨-, hs', -⟩
  · cases r <;> simp [beforeSend] at hs
  · exact AsyncCallAt.beforeSend_run hr hs
  · simp [beforeSend] at hs
  · simp [hs] at hs'

/-- Only a call outside a callback gets on its way to `request_lock_`, when it takes
`send_message_lock_`. -/
theorem beforeRequest_run (h : th.run H s = some (s', th')) (hs : th'.beforeRequest = true) :
    th.beforeRequest = true ∨ ∃ req data requestId,
      th = .inAsyncCall (.lockSendMessage req data requestId) := by
  rcases run_cases h with ⟨call, r, rfl, hr, rfl⟩ | ⟨data, call, r, rfl, hr, rfl⟩ |
    ⟨handlers, call, r, rfl, hr, rfl⟩ | ⟨-, -, hs'⟩
  · exact AsyncCallAt.beforeRequest_run_out hr hs
  · simp [beforeRequest] at hs
  · exact .inl (AsyncCallAt.beforeRequest_run hr hs)
  · simp [hs] at hs'

theorem beforeRequest_of_beforeSend (h : th.beforeSend = true) : th.beforeRequest = false := by
  cases th <;> simp_all [beforeSend, beforeRequest]

theorem mayCall_cases (h : th.mayCall = true) :
    th = .idle ∨ (∃ data, th = .inOnCallBack data none) ∨
      ∃ handlers, th = .inHandleCall handlers none := by
  unfold mayCall at h
  split at h <;> simp_all

theorem returns_cases (th : RpcThread ρ) :
    th.returns = th ∨ (∀ l ∈ th.returns.held, l ∈ th.held) ∧ th.returns.beforeSend = false ∧
      th.returns.beforeRequest = false := by
  unfold returns
  split
  · exact .inr (by simp [held, beforeSend, beforeRequest])
  · exact .inr (by simp [held, beforeSend, beforeRequest])
  · exact .inl rfl

/-- A thread that holds a lock and waits for another waits for the last of the three, or is on its
way between the first two. -/
theorem blocked_cases {l l' : SessionLock} (hl : l ∈ th.held) (hw : th.wants = some l')
    (hl' : l' ∉ th.held) :
    (l ≠ .freeRequestIdLock ∧ l' = .freeRequestIdLock) ∨
    (l = .sendMessageLock ∧ l' = .requestLock ∧ th.beforeRequest = true) ∨
    (l = .requestLock ∧ l' = .sendMessageLock ∧ th.beforeSend = true) := by
  cases th with
  | inAsyncCall call =>
    rcases AsyncCallAt.wants_cases hw with ⟨-, hc⟩ | ⟨-, hc, -⟩ | ⟨rfl, hc, hr, hs⟩
    · simp [held, hc] at hl
    · simp [held, hc] at hl
    · exact .inr (.inl ⟨by simpa [held, hc] using hl, rfl, by simp [beforeRequest, hr, hs]⟩)
  | inOnCallBack data call =>
    obtain ⟨call, rfl, hw⟩ := Option.bind_eq_some_iff.1 hw
    rcases AsyncCallAt.wants_cases hw with ⟨rfl, hc⟩ | ⟨rfl, hc, hs⟩ | ⟨rfl, -⟩
    · have hl : l = .requestLock := by simpa [held, hc] using hl
      exact .inl ⟨by simp [hl], rfl⟩
    · exact .inr (.inr ⟨by simpa [held, hc] using hl, rfl, hs⟩)
    · simp [held] at hl'
  | inHandleCall handlers call =>
    obtain ⟨call, rfl, hw⟩ := Option.bind_eq_some_iff.1 hw
    rcases AsyncCallAt.wants_cases hw with ⟨rfl, hc⟩ | ⟨rfl, -⟩ | ⟨rfl, hc, hr, -⟩
    · have hl : l = .sendMessageLock := by simpa [held, hc] using hl
      exact .inl ⟨by simp [hl], rfl⟩
    · simp [held] at hl'
    · exact .inr (.inl ⟨by simpa [held, hc] using hl, rfl, hr⟩)
  | lockFreeRequestId data =>
    have hl : l = .requestLock := by simpa [held] using hl
    exact .inl ⟨by simp [hl], (Option.some.inj hw).symm⟩
  | idle | lockRequest data | lockSendMessage handlers => cases hl
  | finding data | erasing data | pushing data | unlockRequest | unlockSendMessage handlers =>
    cases hw

/-- While no `OnCallBack` of it is on its way to `send_message_lock_`, a blocked thread waits for a
lock that comes after all it holds. -/
theorem sendFirst_lt (h : th.beforeSend = false) {l l' : SessionLock} (hl : l ∈ th.held)
    (hw : th.wants = some l') (hl' : l' ∉ th.held) : l.sendFirst < l'.sendFirst := by
  rcases blocked_cases hl hw hl' with ⟨hne, rfl⟩ | ⟨rfl, rfl, -⟩ | ⟨-, -, hs⟩
  · cases l <;> simp [SessionLock.sendFirst] at hne ⊢
  · show 0 < 1
    omega
  · simp [hs] at h

/-- While it is not on its way from `send_message_lock_` to `request_lock_`, it waits for one that
comes after in the other order. -/
theorem requestFirst_lt (h : th.beforeRequest = false) {l l' : SessionLock} (hl : l ∈ th.held)
    (hw : th.wants = some l') (hl' : l' ∉ th.held) : l.requestFirst < l'.requestFirst := by
  rcases blocked_cases hl hw hl' with ⟨hne, rfl⟩ | ⟨-, -, hr⟩ | ⟨rfl, rfl, -⟩
  · cases l <;> simp [SessionLock.requestFirst] at hne ⊢
  · simp [hr] at h
  · show 0 < 1
    omega

end RpcThread

namespace RpcLocks

variable {ρ : Type} {n : ℕ} {H : HostLayout} {w : RpcLocks ρ n}

/-- A lock has one holder, and no two threads are on their ways between `send_message_lock_` and
`request_lock_` in both directions. -/
structure Locked (threads : Fin n → RpcThread ρ) : Prop where
  held : ∀ t u l, u ≠ t → l ∈ (threads t).held → l ∉ (threads u).held
  apart : ∀ t u, (threads t).beforeSend = true → (threads u).beforeRequest = false

theorem Locked.update {threads : Fin n → RpcThread ρ} (hw : Locked threads) {t : Fin n}
    {th : RpcThread ρ}
    (hheld : ∀ l ∈ th.held, l ∈ (threads t).held ∨ ∀ u, u ≠ t → l ∉ (threads u).held)
    (hsend : th.beforeSend = true →
      (threads t).beforeSend = true ∨ ∀ u, (threads u).beforeRequest = false)
    (hrequest : th.beforeRequest = true →
      (threads t).beforeRequest = true ∨ ∀ u, (threads u).beforeSend = false) :
    Locked (Function.update threads t th) := by
  have hfree : ∀ l ∈ th.held, ∀ u, u ≠ t → l ∉ (threads u).held := fun l hl u hu =>
    (hheld l hl).elim (fun hl => hw.held t u l hu hl) fun h => h u hu
  constructor
  · intro s u l hne hl
    by_cases hs : s = t
    · subst hs
      rw [Function.update_self] at hl
      rw [Function.update_of_ne hne]
      exact hfree l hl u hne
    · rw [Function.update_of_ne hs] at hl
      by_cases hu : u = t
      · subst hu
        rw [Function.update_self]
        exact fun hl' => hfree l hl' s hs hl
      · rw [Function.update_of_ne hu]
        exact hw.held s u l hne hl
  · intro s u hs
    by_cases hst : s = t
    · subst hst
      rw [Function.update_self] at hs
      by_cases hu : u = s
      · rw [hu, Function.update_self]
        exact RpcThread.beforeRequest_of_beforeSend hs
      · rw [Function.update_of_ne hu]
        exact (hsend hs).elim (fun hs => hw.apart s u hs) fun h => h u
    · rw [Function.update_of_ne hst] at hs
      by_cases hu : u = t
      · subst hu
        rw [Function.update_self, Bool.eq_false_iff]
        intro hr
        rcases hrequest hr with hr | hr
        · rw [hw.apart s u hs] at hr
          cases hr
        · rw [hr s] at hs
          cases hs
      · rw [Function.update_of_ne hu]
        exact hw.apart s u hs

theorem locked_step {ev : LockEvent ρ n} (hw : Locked w.threads) (hcan : w.Can ev)
    (hapart : w.Apart ev) : Locked (w.step H ev).threads := by
  cases ev with
  | asyncCall t req data =>
    simp only [step]
    split
    · next hlen =>
      have hmay : (w.threads t).mayCall = true := hcan.2
      have ha := hapart hlen
      rw [goesTo]
      rcases RpcThread.mayCall_cases hmay with ht | ⟨data, ht⟩ | ⟨handlers, ht⟩
      · refine hw.update ?_ ?_ ?_ <;> rw [ht] <;>
          simp [RpcThread.enter, RpcThread.held, RpcThread.beforeSend, RpcThread.beforeRequest,
            AsyncCallAt.held, AsyncCallAt.beforeSend]
      · have ha := ha.1 (by rw [ht]; rfl)
        refine hw.update ?_ (fun _ => .inr ha) ?_ <;> rw [ht] <;>
          simp [RpcThread.enter, RpcThread.held, RpcThread.beforeRequest, AsyncCallAt.held]
      · have ha := ha.2 (by rw [ht]; rfl)
        refine hw.update ?_ ?_ (fun _ => .inr ha) <;> rw [ht] <;>
          simp [RpcThread.enter, RpcThread.held, RpcThread.beforeSend, AsyncCallAt.held]
    · exact hw
  | onRecv t data =>
    refine hw.update ?_ ?_ ?_ <;> unfold RpcThread.onRecv <;> split_ifs <;>
      try split
    all_goals simp [RpcThread.held, RpcThread.beforeSend, RpcThread.beforeRequest]
  | returns t =>
    rw [step, goesTo]
    rcases RpcThread.returns_cases (w.threads t) with h | ⟨hheld, hs, hr⟩
    · rwa [h, Function.update_eq_self]
    · refine hw.update (fun l hl => .inl (hheld l hl)) ?_ ?_ <;> simp [hs, hr]
  | run t =>
    simp only [step]
    split
    · exact hw
    · next session th h =>
      refine hw.update (fun l hl => ?_) (fun hs => ?_) fun hr => ?_
      · exact (RpcThread.held_run h hl).imp_right fun hl => hcan.2 l hl
      · exact .inl (RpcThread.beforeSend_run h hs)
      · refine (RpcThread.beforeRequest_run h hr).imp_right ?_
        rintro ⟨req, data, requestId, ht⟩
        exact hapart (by rw [ht]; rfl)

theorem Locked.noDeadlock (hw : Locked w.threads) : w.NoDeadlock := by
  by_cases h : ∃ t, (w.threads t).beforeSend = true
  · obtain ⟨t, ht⟩ := h
    refine LockOrder.acyclic_of_rank SessionLock.requestFirst ?_
    intro s u l l' hne hl hwant hl'
    exact RpcThread.requestFirst_lt (hw.apart t s ht) hl hwant (hw.held u s l' hne.symm hl')
  · refine LockOrder.acyclic_of_rank SessionLock.sendFirst ?_
    intro s u l l' hne hl hwant hl'
    have hs : (w.threads s).beforeSend = false := by
      rw [Bool.eq_false_iff]
      exact fun hs => h ⟨s, hs⟩
    exact RpcThread.sendFirst_lt hs hl hwant (hw.held u s l' hne.symm hl')

theorem locked_start (session : RPCSession ρ) :
    Locked ({ session } : RpcLocks ρ n).threads := by
  constructor
  · intro t u l _ hl
    cases hl
  · intro t u hs
    cases hs

/-- No threads of a session deadlock in a run in which no `OnCallBack` issues a call while another
thread, with `send_message_lock_`, has yet to take `request_lock_`. -/
theorem apart_noDeadlock (session : RPCSession ρ) {es : List (LockEvent ρ n)}
    (hcan : Along (step H) Can { session } es) (hapart : Along (step H) Apart { session } es) :
    (exec (step H) { session } es).NoDeadlock := by
  have hlocked : Locked (exec (step H) ({ session } : RpcLocks ρ n) es).threads := by
    refine invariant (P := fun (w : RpcLocks ρ n) ev => w.Can ev ∧ w.Apart ev)
      (I := fun w => Locked w.threads)
      (fun _ _ hw hev => locked_step hw hev.1 hev.2) (locked_start session) ?_
    exact (along_and _ _).2 ⟨hcan, hapart⟩
  exact hlocked.noDeadlock

/-- Thread 0 makes a call and receives the response. -/
def answeredCall : List (LockEvent ℕ 2) :=
  .asyncCall 0 1 [7] :: List.replicate 7 (.run 0) ++
    [.onRecv 0 [3, 0, 0, 0, 9], .run 0, .run 0]

/-- Thread 1 makes a call up to `request_lock_`. -/
def callUpToRequest : List (LockEvent ℕ 2) :=
  .asyncCall 1 2 [7] :: List.replicate 4 (.run 1)

/-- The callback makes another call, up to `send_message_lock_`. -/
def callFromCallBack : List (LockEvent ℕ 2) :=
  .asyncCall 0 3 [7] :: List.replicate 2 (.run 0)

/-- The callback's call while thread 1 has yet to take `send_message_lock_`. -/
theorem apart_noDeadlock_answered :
    (exec (step littleEndian) ({ session := {} } : RpcLocks ℕ 2)
      (answeredCall ++ callFromCallBack ++ callUpToRequest.take 3)).NoDeadlock :=
  apart_noDeadlock {} (by decide +kernel) (by decide +kernel)

theorem noDeadlock_crossed :
    ¬ ∀ es, Along (step littleEndian) Can ({ session := {} } : RpcLocks ℕ 2) es →
      (exec (step littleEndian) { session := {} } es).NoDeadlock := by
  intro h
  have hcan : Along (step littleEndian) Can ({ session := {} } : RpcLocks ℕ 2)
      (answeredCall ++ callUpToRequest ++ callFromCallBack) := by
    decide +kernel
  refine h _ hcan 0 ?_
  refine .tail (b := 1) (.single ?_) ?_
  · exact ⟨by decide, .sendMessageLock, by decide +kernel, by decide +kernel⟩
  · exact ⟨by decide, .requestLock, by decide +kernel, by decide +kernel⟩

end RpcLocks

end Elegance
