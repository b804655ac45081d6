import Elegance.Proofs.RpcSessions

/-!
# Which ids and sessions belong together

The two maps stay inverse and lead to sessions that send on the ids they are bound to, as long as no
message meets an old entry (`bound_iff`).
-/

namespace Elegance

open CInt Machine

variable {ρ : Type} {H : HostLayout}

namespace RPCManager

variable {m m' : RPCManager ρ} {n : NetworkID}

/-- The maps are inverse and lead to sessions with the ids they are bound to. -/
structure Inverse (m : RPCManager ρ) : Prop where
  inverse : ∀ n sid, m.networkId2SessionIdMap.find n = some sid ↔
    m.sessionId2NetworkIdMap.find sid = some n
  session : ∀ n sid, m.networkId2SessionIdMap.find n = some sid →
    ∃ endpoint, m.identity sid = some (n, endpoint)
  noSession : m.identity [] = none

theorem Inverse.bound (h : Inverse m) : Bound H m := by
  refine ⟨h.inverse, fun n sid hfind => ?_, fun n sid hfind req data call hcall => ?_⟩
  · obtain ⟨endpoint, hid⟩ := h.session n sid hfind
    obtain ⟨session, hsession, heq⟩ := Option.map_eq_some_iff.1 hid
    exact ⟨session, hsession, congrArg Prod.fst heq⟩
  · obtain ⟨endpoint, hid⟩ := h.session n sid hfind
    obtain ⟨message, identity, hmem, rfl⟩ := (quiet_asyncCall m sid req data).2 call hcall
    rw [hid, Option.mem_some_iff] at hmem
    exact ⟨message, by rw [← hmem]⟩

theorem Bound.identity (h : Bound H m) {sid : RPCSessionID}
    (hfind : m.networkId2SessionIdMap.find n = some sid) :
    ∃ endpoint, m.identity sid = some (n, endpoint) := by
  obtain ⟨session, hsession, hid⟩ := h.session n sid hfind
  refine ⟨session.endpoint, ?_⟩
  rw [RPCManager.identity, hsession, Option.map_some, hid]

theorem Inverse.quiet (h : Inverse m) (hquiet : Quiet m m') : Inverse m' := by
  refine ⟨fun n sid => ?_, fun n sid => ?_, ?_⟩
  · rw [hquiet.networks, hquiet.sessions]
    exact h.inverse n sid
  · rw [hquiet.networks, hquiet.identity]
    exact h.session n sid
  · rw [hquiet.identity]
    exact h.noSession

theorem Inverse.activated (h : Inverse m) (hactivated : Activated m m' n) (hfits : FitsSession m n) :
    Inverse m' := by
  refine ⟨fun j sid => ?_, fun j sid hfind => ?_, ?_⟩
  · rw [hactivated.networks, hactivated.sessions]
    by_cases hj : j = n <;> by_cases hsid : sid = m.sessionIdFor n
    · simp [hj, hsid]
    · rw [if_pos hj, if_neg hsid, ← h.inverse, hj]
      refine iff_of_false (fun heq => hsid (Option.some.inj heq).symm) fun hfind => ?_
      exact hsid (hfits.sessionId sid hfind)
    · rw [if_neg hj, if_pos hsid, h.inverse, hsid]
      refine iff_of_false (fun hfind => hj (hfits.networkId j hfind)) fun heq => ?_
      exact hj (Option.some.inj heq).symm
    · rw [if_neg hj, if_neg hsid]
      exact h.inverse j sid
  · rw [hactivated.networks] at hfind
    rw [hactivated.identity]
    split_ifs at hfind with hj
    · rw [if_pos (Option.some.inj hfind).symm, ← Option.some.inj hfind, hj]
      rcases hid : m.identity (m.sessionIdFor n) with _ | ⟨id, endpoint⟩
      · exact ⟨_, rfl⟩
      · obtain ⟨session, hsession, heq⟩ := Option.map_eq_some_iff.1 hid
        obtain rfl : session.networkId = id := congrArg Prod.fst heq
        rw [hfits.session session hsession]
        exact ⟨endpoint, rfl⟩
    · obtain ⟨endpoint, hid⟩ := h.session j sid hfind
      by_cases hsid : sid = m.sessionIdFor n
      · rw [if_pos hsid, hid]
        exact ⟨endpoint, rfl⟩
      · rw [if_neg hsid]
        exact ⟨endpoint, hid⟩
  · rw [hactivated.identity_nil]
    exact h.noSession

theorem Inverse.fitsSession (h : Inverse m) (hactivated : Activated m m' n) (hbound : Bound H m') :
    FitsSession m n := by
  have hnew : m'.networkId2SessionIdMap.find n = some (m.sessionIdFor n) := by
    rw [hactivated.networks, if_pos rfl]
  refine ⟨fun sid hfind => ?_, fun j hfind => ?_, fun session hsession => ?_⟩
  · by_contra hne
    have hold : m'.sessionId2NetworkIdMap.find sid = some n := by
      rw [hactivated.sessions, if_neg hne]
      exact (h.inverse n sid).1 hfind
    rw [← hbound.inverse, hnew] at hold
    exact hne (Option.some.inj hold).symm
  · by_contra hne
    have hold : m'.networkId2SessionIdMap.find j = some (m.sessionIdFor n) := by
      rw [hactivated.networks, if_neg hne]
      exact (h.inverse j _).2 hfind
    rw [hbound.inverse, (hbound.inverse _ _).1 hnew] at hold
    exact hne (Option.some.inj hold).symm
  · obtain ⟨endpoint, hid⟩ := hbound.identity hnew
    rw [hactivated.identity, if_pos rfl, RPCManager.identity, hsession] at hid
    exact congrArg Prod.fst (Option.some.inj hid)

section OnRecv

variable {data beyond : List Byte} {reserveCh : Byte} {results : List HandleResult}

theorem Inverse.onRecv_forSession (h : Inverse m) (hsession : isForSession data = true)
    (hsome : (m.networkId2SessionIdMap.find n).isSome) :
    Inverse (m.onRecv H n data beyond reserveCh results).1 := by
  obtain ⟨hquiet, -, -⟩ := RPCManager.onRecv_forSession (H := H) (m := m) (n := n) hsession
  obtain ⟨sid, hfind⟩ := Option.isSome_iff_exists.1 hsome
  refine h.quiet ⟨fun j => ?_, hquiet.sessions, hquiet.identity⟩
  rw [hquiet.networks]
  dsimp only
  rw [StdMap.find_index_eq]
  split_ifs with hj
  · rw [hj, hfind, Option.getD_some]
  · rfl

/-- A message for a session on an id without one leaves an entry that leads nowhere. -/
theorem Inverse.isSome_of_forSession (h : Inverse m) (hsession : isForSession data = true)
    (hbound : Bound H (m.onRecv H n data beyond reserveCh results).1) :
    (m.networkId2SessionIdMap.find n).isSome := by
  obtain ⟨hquiet, -, -⟩ := RPCManager.onRecv_forSession (H := H) (m := m) (n := n) hsession
  by_contra hnone
  rw [Bool.not_eq_true, Option.isSome_eq_false_iff, Option.isNone_iff_eq_none] at hnone
  have hnil : (m.onRecv H n data beyond reserveCh results).1.networkId2SessionIdMap.find n =
      some [] := by
    rw [hquiet.networks]
    dsimp only
    rw [StdMap.find_index_eq, if_pos rfl, hnone, Option.getD_none]
  obtain ⟨endpoint, hid⟩ := hbound.identity hnil
  rw [hquiet.identity] at hid
  cases h.noSession.symm.trans hid

theorem Inverse.onRecv (h : Inverse m) (hfits : FitsMessage m n data beyond) :
    Inverse (m.onRecv H n data beyond reserveCh results).1 := by
  rcases hactivates : m.activates n data beyond with _ | _
  · rcases hsession : isForSession data with _ | _
    · exact h.quiet (onRecv_rejects hactivates hsession).1
    · exact h.onRecv_forSession hsession (hfits.forSession hsession)
  · exact h.activated (onRecv_activates hactivates).1 (hfits.activates hactivates)

theorem Inverse.fitsMessage (h : Inverse m)
    (hbound : Bound H (m.onRecv H n data beyond reserveCh results).1) :
    FitsMessage m n data beyond :=
  ⟨fun hactivates => h.fitsSession (onRecv_activates hactivates).1 hbound,
    fun hsession => h.isSome_of_forSession hsession hbound⟩

end OnRecv

theorem Inverse.onDisconnect (h : Inverse m) (n : NetworkID) : Inverse (m.onDisconnect n).1 := by
  obtain ⟨hnetworks, hsessions, hidentity, -, -⟩ := onDisconnect_spec m n
  refine ⟨fun j sid => ?_, fun j sid hfind => ?_, (hidentity []).trans h.noSession⟩
  · rw [hnetworks, hsessions]
    by_cases hj : j = n
    · subst hj
      rw [if_pos rfl]
      refine iff_of_false (by simp) fun hfind => ?_
      split_ifs at hfind with hsid
      refine hsid ?_
      rw [(h.inverse j sid).2 hfind, Option.getD_some]
    · rw [if_neg hj, h.inverse]
      split_ifs with hsid
      · refine iff_of_false (fun hfind => ?_) (by simp)
        rcases hn : m.networkId2SessionIdMap.find n with _ | sid'
        · rw [hn, Option.getD_none] at hsid
          obtain ⟨endpoint, hid⟩ := h.session j sid ((h.inverse j sid).2 hfind)
          rw [hsid, h.noSession] at hid
          cases hid
        · rw [hn, Option.getD_some] at hsid
          rw [hsid, (h.inverse n sid').1 hn] at hfind
          exact hj (Option.some.inj hfind).symm
      · rfl
  · rw [hnetworks] at hfind
    split_ifs at hfind
    rw [hidentity]
    exact h.session j sid hfind

end RPCManager

namespace RpcSessions

open RPCManager

variable {w : RpcSessions ρ} {ev : RpcSessionsEvent ρ}

theorem inverse_step (h : Inverse w.manager) (hfits : w.Fits ev) :
    Inverse (w.step H ev).manager := by
  rcases kinds ev with ⟨n, data, beyond, reserveCh, results, rfl⟩ | ⟨n, rfl⟩ | ⟨hreceived, hends⟩
  · exact h.onRecv hfits
  · exact h.onDisconnect n
  · exact h.quiet (take_quiet _ hreceived hends).1

theorem fits_of_bound (h : Inverse w.manager) (hbound : Bound H (w.step H ev).manager) :
    w.Fits ev := by
  unfold Fits
  split
  · exact h.fitsMessage hbound
  · trivial

/-- The maps are inverse in every state of a run, and lead to sessions that send on the ids they are
bound to, exactly when every message fits what it meets. -/
theorem bound_iff (H : HostLayout) (es : List (RpcSessionsEvent ρ)) :
    (∀ pre, pre <+: es → Bound H (exec (step H) ({} : RpcSessions ρ) pre).manager) ↔
      Along (step H) Fits ({} : RpcSessions ρ) es := by
  refine along_iff_forall_exec (G := fun w => Bound H w.manager)
    (I := fun w : RpcSessions ρ => Inverse w.manager) (Q := fun _ _ => True)
    (fun w h => h.bound) (fun w ev h _ hfits => inverse_step h hfits) (fun w ev h _ hnot hbound => ?_)
    ⟨?_, ?_, ?_⟩ (along_of_forall (fun _ _ => trivial) _ _)
  · exact hnot (fits_of_bound h hbound)
  · exact fun n sid => by simp
  · exact fun n sid hfind => by cases hfind
  · rfl

/-- The session of a client that comes again still has the id it was created with. -/
theorem not_bound_clientTwice :
    ¬ ∀ es, Along (step littleEndian) Can ({} : RpcSessions ℕ) es →
      Bound littleEndian (exec (step littleEndian) ({} : RpcSessions ℕ) es).manager := by
  intro h
  have hbound := h clientTwice (by decide +kernel)
  have hid : (exec (step littleEndian) ({} : RpcSessions ℕ) clientTwice).manager.identity
      (calculateRPCSessionKey 0 [49] 5000) = some (1, ⟨[49], 5000, 0⟩) := by
    decide +kernel
  have hfind : (exec (step littleEndian) ({} : RpcSessions ℕ)
      clientTwice).manager.networkId2SessionIdMap.find 2 =
        some (calculateRPCSessionKey 0 [49] 5000) := by
    decide +kernel
  obtain ⟨endpoint, hid'⟩ := hbound.identity hfind
  rw [hid] at hid'
  cases hid'

end RpcSessions

end Elegance
