import Elegance.Proofs.RpcSessions

/-!
# The endpoint of a session

A session is stored under a string that says all of its endpoint, so one that is made active has the
endpoint `uncheck_rpc_info_map_` holds, and that is the one last reported where the report was noted
(`endpoint_iff`).
-/

namespace Elegance

open CInt Machine

variable {ρ : Type} {H : HostLayout}

namespace RpcSessions

open RPCManager

variable {w : RpcSessions ρ} {ev : RpcSessionsEvent ρ}

/-- Sessions are stored under the keys of their endpoints, and `noted` says where the last report is
in `uncheck_rpc_info_map_`. -/
structure Keyed (w : RpcSessions ρ) : Prop where
  session : ∀ sid identity, w.manager.identity sid = some identity → sid = identity.2.sessionKey
  noted : ∀ n, w.noted n = true ↔ w.reported n = some (w.manager.infoEndpoint n)

theorem Keyed.noted_step (h : Keyed w) (n : NetworkID) : (w.step H ev).noted n = true ↔
    (w.step H ev).reported n = some ((w.step H ev).manager.infoEndpoint n) := by
  unfold step
  dsimp only
  by_cases hopens : ev.opens = some n
  · obtain ⟨report, hreport, rfl⟩ := Option.map_eq_some_iff.1 hopens
    rw [if_pos hopens, if_pos hopens, notes_iff (H := H) _ hreport, hreport, Option.map_some,
      Option.some_inj, eq_comm]
  · rw [if_neg hopens, if_neg hopens, take_info _ hopens]
    exact h.noted n

theorem Keyed.activated (h : Keyed w) {m' : RPCManager ρ} {n : NetworkID}
    (hactivated : Activated w.manager m' n) :
    ∃ id, m'.identity (w.manager.sessionIdFor n) = some (id, w.manager.infoEndpoint n) := by
  rw [hactivated.identity, if_pos rfl]
  rcases hid : w.manager.identity (w.manager.sessionIdFor n) with _ | ⟨id, endpoint⟩
  · exact ⟨n, rfl⟩
  · have hkey : w.manager.sessionIdFor n = endpoint.sessionKey := h.session _ _ hid
    rw [sessionIdFor_eq] at hkey
    rw [Endpoint.sessionKey_injective hkey]
    exact ⟨id, rfl⟩

theorem Keyed.quiet (h : Keyed w) {m' : RPCManager ρ}
    (hidentity : ∀ sid, m'.identity sid = w.manager.identity sid) :
    ∀ sid identity, m'.identity sid = some identity → sid = identity.2.sessionKey := by
  intro sid identity hid
  rw [hidentity] at hid
  exact h.session sid identity hid

theorem keyed_step (h : Keyed w) : Keyed (w.step H ev) := by
  refine ⟨?_, h.noted_step⟩
  rcases kinds ev with ⟨n, data, beyond, reserveCh, results, rfl⟩ | ⟨n, rfl⟩ | ⟨hreceived, hends⟩
  · rcases hactivates : w.manager.activates n data beyond with _ | _
    · rcases hsession : isForSession data with _ | _
      · exact h.quiet (onRecv_rejects hactivates hsession).1.identity
      · exact h.quiet (onRecv_forSession hsession).1.identity
    · have hactivated : Activated w.manager
        (w.manager.onRecv H n data beyond reserveCh results).1 n := (onRecv_activates hactivates).1
      intro sid identity hid
      by_cases hsid : sid = w.manager.sessionIdFor n
      · obtain ⟨id, hid'⟩ := h.activated hactivated
        have heq := hid.symm.trans (hsid ▸ hid')
        rw [Option.some.inj heq, hsid]
        rfl
      · have hold := (hactivated.identity sid).symm.trans hid
        rw [if_neg hsid] at hold
        exact h.session sid identity hold
  · exact h.quiet (onDisconnect_spec _ n).2.2.1
  · exact h.quiet (take_quiet _ hreceived hends).1.identity

theorem endpointRight_onRecv (h : Keyed w) {n : NetworkID} {data beyond : List Byte}
    {reserveCh : Byte} {results : List HandleResult} :
    w.EndpointRight H (.callback (.onRecv n data beyond reserveCh results)) ↔
      w.Noted (.callback (.onRecv n data beyond reserveCh results)) := by
  have hsession : w.manager.activates n data beyond = true → ∃ session,
      (w.manager.onRecv H n data beyond reserveCh results).1.sessionMap.find
        (w.manager.sessionIdFor n) = some session ∧
      session.endpoint = w.manager.infoEndpoint n := by
    intro hactivates
    obtain ⟨id, hid⟩ := h.activated (onRecv_activates hactivates).1
    obtain ⟨session, hfind, heq⟩ := Option.map_eq_some_iff.1 hid
    exact ⟨session, hfind, congrArg Prod.snd heq⟩
  constructor
  · intro hright hactivates
    obtain ⟨session, hfind, hendpoint⟩ := hsession hactivates
    obtain ⟨j, hj, session', hfind', hreported⟩ := hright _ (mem_onRecv_iff.2 ⟨hactivates, rfl⟩)
    obtain rfl := Option.some.inj hj
    obtain rfl := Option.some.inj (hfind.symm.trans hfind')
    rw [h.noted, hreported, hendpoint]
  · intro hnoted sid hmem
    obtain ⟨hactivates, rfl⟩ := mem_onRecv_iff.1 hmem
    obtain ⟨session, hfind, hendpoint⟩ := hsession hactivates
    exact ⟨n, rfl, session, hfind, by rw [hendpoint, ← h.noted]; exact hnoted hactivates⟩

theorem endpointRight_iff (h : Keyed w) : w.EndpointRight H ev ↔ w.Noted ev := by
  by_cases hrecv : ∃ n data beyond reserveCh results,
      ev = .callback (.onRecv n data beyond reserveCh results)
  · obtain ⟨n, data, beyond, reserveCh, results, rfl⟩ := hrecv
    exact endpointRight_onRecv h
  · refine iff_of_true (fun sid hmem => absurd (onRecv_of_mem hmem) hrecv) ?_
    unfold Noted
    split
    · exact absurd ⟨_, _, _, _, _, rfl⟩ hrecv
    · trivial

/-- Every session that is made active has the endpoint last reported for the id of the message,
exactly when every message that activates one comes on an id whose last report was noted. -/
theorem endpoint_iff (H : HostLayout) (es : List (RpcSessionsEvent ρ)) :
    Along (step H) (EndpointRight H) ({} : RpcSessions ρ) es ↔
      Along (step H) Noted ({} : RpcSessions ρ) es := by
  refine along_congr (I := Keyed) (fun w ev h _ => keyed_step h) (fun w ev h => endpointRight_iff h)
    ⟨fun sid identity hid => ?_, fun n => ?_⟩
  · cases hid
  · exact iff_of_false (by simp) (by simp)

/-- An accepted connection's session has no local port. -/
theorem not_endpointRight_aClient :
    ¬ ∀ es, Along (step littleEndian) Can ({} : RpcSessions ℕ) es →
      Along (step littleEndian) (EndpointRight littleEndian) ({} : RpcSessions ℕ) es := by
  intro h
  have hright := h (.asyncListen 80 [107] :: aClient 1) (by decide +kernel)
  set w := exec (step littleEndian) ({} : RpcSessions ℕ)
    (.asyncListen 80 [107] :: (aClient 1).take 1) with hw
  set w' := exec (step littleEndian) ({} : RpcSessions ℕ) (.asyncListen 80 [107] :: aClient 1)
    with hw'
  have hmem : .onSessionActive (calculateRPCSessionKey 0 [49] 5000) ∈
      (w.manager.take littleEndian (.callback (.onRecv 1 [0, 0, 1, 0, 107, 0] [] 0 []))).2 := by
    rw [hw]
    decide +kernel
  obtain ⟨n, hn, session, hfind, hreported⟩ := hright.2.2.1 _ hmem
  obtain rfl := Option.some.inj hn
  have hidentity : w'.manager.identity (calculateRPCSessionKey 0 [49] 5000) =
      some (1, ⟨[49], 5000, 0⟩) := by
    rw [hw']
    decide +kernel
  have hlast : w.reported 1 = some ⟨[49], 5000, 80⟩ := by
    rw [hw]
    decide +kernel
  obtain ⟨session', hfind', heq⟩ := Option.map_eq_some_iff.1 hidentity
  obtain rfl := Option.some.inj (hfind.symm.trans hfind')
  have hendpoint := (congrArg Prod.snd heq).symm.trans (Option.some.inj (hreported.symm.trans hlast))
  revert hendpoint
  decide +kernel

end RpcSessions

end Elegance
