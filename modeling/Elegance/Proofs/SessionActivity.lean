import Elegance.Proofs.RpcSessions

/-!
# When a session is active

A session is active exactly while one id is bound to it, as long as no message activates one that is
bound already (`bracketed_iff`).
-/

namespace Elegance

open CInt Machine Brackets

variable {ρ : Type} {H : HostLayout}

namespace RpcSessions

open RPCManager

variable {w : RpcSessions ρ} {ev : RpcSessionsEvent ρ}

/-- A session is active exactly while one id is bound to it, a live one that leads to it. -/
structure Tracked (w : RpcSessions ρ) : Prop where
  noSession : w.manager.identity [] = none
  bound : ∀ n sid, sid ≠ [] → w.manager.networkId2SessionIdMap.find n = some sid →
    w.live n = true ∧ sid = w.manager.sessionIdFor n ∧ (w.manager.identity sid).isSome
  once : ∀ n n' sid, sid ≠ [] → w.manager.networkId2SessionIdMap.find n = some sid →
    w.manager.networkId2SessionIdMap.find n' = some sid → n = n'
  alternates : ∀ sid, Alternates (activityOf sid w.trace)
  isOpen : ∀ sid, IsOpen (activityOf sid w.trace) ↔
    sid ≠ [] ∧ ∃ n, w.manager.networkId2SessionIdMap.find n = some sid
  activated : ∀ n, ∀ sid ∈ w.activated n,
    sid ≠ [] ∧ w.manager.networkId2SessionIdMap.find n = some sid

theorem activityOf_step (sid : RPCSessionID) : activityOf sid (w.step H ev).trace =
    activityOf sid w.trace ++ activityOf sid (w.manager.take H ev).2 :=
  List.filterMap_append

theorem mem_activates {sid : RPCSessionID} {calls : List (RPCManagerCall ρ)} :
    sid ∈ calls.filterMap (·.activates) ↔ .onSessionActive sid ∈ calls := by
  rw [List.mem_filterMap]
  constructor
  · rintro ⟨call, hcall, hactive⟩
    cases call <;> simp only [RPCManagerCall.activates, reduceCtorEq] at hactive
    rwa [Option.some.inj hactive] at hcall
  · exact fun h => ⟨_, h, rfl⟩

theorem mem_activated_step {n : NetworkID} {sid : RPCSessionID}
    (h : sid ∈ (w.step H ev).activated n) : ev.ends ≠ some n ∧ (sid ∈ w.activated n ∨
      ev.receivedOn = some n ∧ .onSessionActive sid ∈ (w.manager.take H ev).2) := by
  unfold step at h
  dsimp only at h
  split_ifs at h with hends hreceived
  · cases h
  · rw [not_or] at hends
    rw [List.mem_append, mem_activates] at h
    exact ⟨hends.2, h.imp_right fun h => ⟨hreceived, h⟩⟩
  · rw [not_or] at hends
    exact ⟨hends.2, .inl h⟩

/-- A step that makes no session active or inactive. -/
theorem Tracked.quiet (h : Tracked w) (hcan : w.Can ev) (hends : ev.ends = none)
    (hnetworks : ∀ n sid, sid ≠ [] →
      ((w.step H ev).manager.networkId2SessionIdMap.find n = some sid ↔
        w.manager.networkId2SessionIdMap.find n = some sid))
    (hidentity : ∀ sid, (w.step H ev).manager.identity sid = w.manager.identity sid)
    (hcalls : ∀ sid, activityOf sid (w.manager.take H ev).2 = []) : Tracked (w.step H ev) := by
  have htrace : ∀ sid, activityOf sid (w.step H ev).trace = activityOf sid w.trace := by
    intro sid
    rw [activityOf_step, hcalls, List.append_nil]
  refine ⟨?_, fun n sid hne hfind => ?_, fun n n' sid hne hfind hfind' => ?_, fun sid => ?_,
    fun sid => ?_, fun n sid hmem => ?_⟩
  · rw [hidentity]
    exact h.noSession
  · obtain ⟨hlive, hsid, hsome⟩ := h.bound n sid hne ((hnetworks n sid hne).1 hfind)
    have hopens : ev.opens ≠ some n := fun hopens => by
      rw [hcan.1 n hopens] at hlive
      cases hlive
    refine ⟨?_, ?_, ?_⟩
    · simp [step, hopens, hends, hlive]
    · rw [sessionIdFor_eq, step, take_info _ hopens, ← sessionIdFor_eq]
      exact hsid
    · rw [hidentity]
      exact hsome
  · exact h.once n n' sid hne ((hnetworks n sid hne).1 hfind) ((hnetworks n' sid hne).1 hfind')
  · rw [htrace]
    exact h.alternates sid
  · rw [htrace, h.isOpen]
    refine and_congr_right fun hne => exists_congr fun n => ?_
    exact (hnetworks n sid hne).symm
  · obtain ⟨-, hmem | ⟨-, hactive⟩⟩ := mem_activated_step hmem
    · obtain ⟨hne, hfind⟩ := h.activated n sid hmem
      exact ⟨hne, (hnetworks n sid hne).2 hfind⟩
    · rw [← mem_activityOf, hcalls] at hactive
      cases hactive

section OnRecv

variable {n : NetworkID} {data beyond : List Byte} {reserveCh : Byte} {results : List HandleResult}

theorem Tracked.rejects (h : Tracked w)
    (hcan : w.Can (.callback (.onRecv n data beyond reserveCh results)))
    (hactivates : w.manager.activates n data beyond = false) :
    Tracked (w.step H (.callback (.onRecv n data beyond reserveCh results))) := by
  rcases hsession : isForSession data with _ | _
  · obtain ⟨hquiet, -, hcalls⟩ := onRecv_rejects (H := H) (m := w.manager) hactivates hsession
    refine h.quiet hcan rfl (fun j sid _ => ?_) hquiet.identity hcalls
    exact Eq.congr_left (hquiet.networks j)
  · obtain ⟨hquiet, -, hcalls⟩ := onRecv_forSession (H := H) (m := w.manager) (n := n) hsession
    refine h.quiet hcan rfl (fun j sid hne => ?_) hquiet.identity hcalls
    refine (Eq.congr_left (hquiet.networks j)).trans ?_
    dsimp only
    rw [StdMap.find_index_eq]
    split_ifs with hj
    · rw [hj]
      rcases w.manager.networkId2SessionIdMap.find n with _ | sid'
      · simp [Ne.symm hne]
      · rfl
    · rfl

/-- An id that is bound to another session does not reach an unbound one. -/
theorem Tracked.unbound (h : Tracked w)
    (hfree : ∀ j, w.manager.networkId2SessionIdMap.find j ≠ some (w.manager.sessionIdFor n))
    {sid : RPCSessionID} (hne : sid ≠ []) :
    w.manager.networkId2SessionIdMap.find n ≠ some sid := by
  intro hfind
  obtain ⟨-, hsid, -⟩ := h.bound n sid hne hfind
  exact hfree n (hsid ▸ hfind)

/-- What an activation binds, on top of what is bound. -/
theorem Tracked.bound_activated (h : Tracked w)
    (hfree : ∀ j, w.manager.networkId2SessionIdMap.find j ≠ some (w.manager.sessionIdFor n))
    (j : NetworkID) {sid : RPCSessionID} (hne : sid ≠ []) :
    (if j = n then some (w.manager.sessionIdFor n) else
      w.manager.networkId2SessionIdMap.find j) = some sid ↔
        (sid = w.manager.sessionIdFor n ∧ j = n) ∨
          sid ≠ w.manager.sessionIdFor n ∧
            w.manager.networkId2SessionIdMap.find j = some sid := by
  by_cases hj : j = n
  · subst hj
    have hunbound := h.unbound hfree hne
    simp [hunbound, eq_comm]
  · have hsid : w.manager.networkId2SessionIdMap.find j = some sid →
        sid ≠ w.manager.sessionIdFor n := fun hfind heq => hfree j (heq ▸ hfind)
    rw [if_neg hj]
    exact ⟨fun hfind => .inr ⟨hsid hfind, hfind⟩, fun hor => hor.elim (fun hand => absurd hand.2 hj)
      And.right⟩

theorem Tracked.activates (h : Tracked w)
    (hcan : w.Can (.callback (.onRecv n data beyond reserveCh results)))
    (hactivates : w.manager.activates n data beyond = true)
    (hfree : ∀ j, w.manager.networkId2SessionIdMap.find j ≠ some (w.manager.sessionIdFor n)) :
    Tracked (w.step H (.callback (.onRecv n data beyond reserveCh results))) := by
  set w' := w.step H (.callback (.onRecv n data beyond reserveCh results))
  obtain ⟨hactivated, hcalls⟩ := onRecv_activates (H := H) (m := w.manager) hactivates
  have hbound : ∀ j sid, sid ≠ [] → (w'.manager.networkId2SessionIdMap.find j = some sid ↔
      (sid = w.manager.sessionIdFor n ∧ j = n) ∨ sid ≠ w.manager.sessionIdFor n ∧
        w.manager.networkId2SessionIdMap.find j = some sid) := fun j sid hne => by
    rw [show w'.manager.networkId2SessionIdMap.find j = _ from hactivated.networks j]
    exact h.bound_activated hfree j hne
  have hlive : ∀ j, w'.live j = w.live j := fun j => rfl
  have hinfo : ∀ j, w'.manager.sessionIdFor j = w.manager.sessionIdFor j := fun j =>
    congrArg Endpoint.sessionKey (hactivated.info j)
  have htrace : ∀ sid, activityOf sid w'.trace = activityOf sid w.trace ++
      if sid = w.manager.sessionIdFor n then [true] else [] := fun sid =>
    (activityOf_step sid).trans (congrArg _ (hcalls sid))
  have hclosed : ¬ IsOpen (activityOf (w.manager.sessionIdFor n) w.trace) := by
    rw [h.isOpen]
    exact fun hopen => hopen.2.elim fun j hj => hfree j hj
  have hsome : ∀ sid, (w.manager.identity sid).isSome ∨ sid = w.manager.sessionIdFor n →
      (w'.manager.identity sid).isSome := by
    intro sid hor
    rw [show w'.manager.identity sid = _ from hactivated.identity sid]
    split_ifs with hsid
    · rfl
    · exact hor.resolve_right hsid
  refine ⟨hactivated.identity_nil.trans h.noSession, fun j sid hne hfind => ?_,
    fun j j' sid hne hfind hfind' => ?_, fun sid => ?_, fun sid => ?_, fun j sid hmem => ?_⟩
  · rw [hlive, hinfo]
    rcases (hbound j sid hne).1 hfind with ⟨hsid, rfl⟩ | ⟨-, hfind⟩
    · exact ⟨hcan.2 _ rfl, hsid, hsome sid (.inr hsid)⟩
    · obtain ⟨hlive, heq, hid⟩ := h.bound j sid hne hfind
      exact ⟨hlive, heq, hsome sid (.inl hid)⟩
  · rcases (hbound j sid hne).1 hfind with ⟨hsid, rfl⟩ | ⟨hsid, hfind⟩ <;>
      rcases (hbound j' sid hne).1 hfind' with ⟨hsid', rfl⟩ | ⟨hsid', hfind'⟩
    · rfl
    · exact absurd hsid hsid'
    · exact absurd hsid' hsid
    · exact h.once j j' sid hne hfind hfind'
  · rw [htrace]
    split_ifs with hsid
    · rw [hsid]
      exact (alternates_append_singleton true).2 ⟨h.alternates _, by simpa using hclosed⟩
    · rw [List.append_nil]
      exact h.alternates sid
  · rw [htrace]
    split_ifs with hsid
    · rw [isOpen_append_singleton, hsid]
      have hne : w.manager.sessionIdFor n ≠ [] := sessionIdFor_ne_nil _ _
      exact iff_of_true rfl ⟨hne, n, (hbound n _ hne).2 (.inl ⟨rfl, rfl⟩)⟩
    · rw [List.append_nil, h.isOpen]
      refine and_congr_right fun hne => exists_congr fun j => ?_
      rw [hbound j sid hne]
      simp [hsid]
  · obtain ⟨-, hmem | ⟨hreceived, hactive⟩⟩ := mem_activated_step hmem
    · obtain ⟨hne, hfind⟩ := h.activated j sid hmem
      have hsid : sid ≠ w.manager.sessionIdFor n := fun hsid => hfree j (hsid ▸ hfind)
      exact ⟨hne, (hbound j sid hne).2 (.inr ⟨hsid, hfind⟩)⟩
    · obtain rfl := Option.some.inj hreceived
      obtain ⟨-, rfl⟩ := mem_onRecv_iff.1 hactive
      have hne : w.manager.sessionIdFor n ≠ [] := sessionIdFor_ne_nil _ _
      exact ⟨hne, (hbound n _ hne).2 (.inl ⟨rfl, rfl⟩)⟩

end OnRecv

theorem tracked_onDisconnect (h : Tracked w) (n : NetworkID) :
    Tracked (w.step H (.callback (.onDisconnect n))) := by
  set w' := w.step H (.callback (.onDisconnect n))
  obtain ⟨hnetworks, -, hidentity, hinfo, hcalls⟩ := onDisconnect_spec w.manager n
  have hfind_iff : ∀ j sid, w'.manager.networkId2SessionIdMap.find j = some sid ↔
      j ≠ n ∧ w.manager.networkId2SessionIdMap.find j = some sid := by
    intro j sid
    rw [show w'.manager.networkId2SessionIdMap.find j = _ from hnetworks j]
    split_ifs with hj <;> simp [hj]
  have htrace : ∀ sid, activityOf sid w'.trace = activityOf sid w.trace ++
      if w.manager.networkId2SessionIdMap.find n = some sid ∧ sid ≠ [] then [false] else [] := by
    intro sid
    refine (activityOf_step sid).trans (congrArg _ ((hcalls sid).trans ?_))
    refine if_congr ?_ rfl rfl
    constructor
    · rintro ⟨hsid, hsome⟩
      have hne : sid ≠ [] := fun hnil => by
        rw [hnil, h.noSession] at hsome
        cases hsome
      rcases hfind : w.manager.networkId2SessionIdMap.find n with _ | sid'
      · rw [hfind] at hsid
        exact absurd hsid hne
      · rw [hsid, hfind]
        exact ⟨rfl, by rwa [hsid, hfind] at hne⟩
    · rintro ⟨hfind, hne⟩
      exact ⟨by rw [hfind]; rfl, (h.bound n sid hne hfind).2.2⟩
  refine ⟨(hidentity []).trans h.noSession, fun j sid hne hfind => ?_,
    fun j j' sid hne hfind hfind' => ?_, fun sid => ?_, fun sid => ?_, fun j sid hmem => ?_⟩
  · obtain ⟨hj, hfind⟩ := (hfind_iff j sid).1 hfind
    obtain ⟨hlive, hsid, hsome⟩ := h.bound j sid hne hfind
    refine ⟨?_, hsid.trans (congrArg Endpoint.sessionKey (hinfo j)).symm, ?_⟩
    · simp [w', step, RpcSessionsEvent.opens, RpcSessionsEvent.reports, RpcSessionsEvent.ends,
        Ne.symm hj, hlive]
    · rw [show w'.manager.identity sid = _ from hidentity sid]
      exact hsome
  · exact h.once j j' sid hne ((hfind_iff j sid).1 hfind).2 ((hfind_iff j' sid).1 hfind').2
  · rw [htrace]
    split_ifs with hsid
    · refine (alternates_append_singleton false).2 ⟨h.alternates sid, ?_⟩
      have hopen := (h.isOpen sid).2 ⟨hsid.2, n, hsid.1⟩
      simp [hopen]
    · rw [List.append_nil]
      exact h.alternates sid
  · rw [htrace]
    split_ifs with hsid
    · rw [isOpen_append_singleton]
      refine iff_of_false (by simp) ?_
      rintro ⟨hne, j, hj⟩
      obtain ⟨hjn, hfind⟩ := (hfind_iff j sid).1 hj
      exact hjn (h.once j n sid hne hfind hsid.1)
    · rw [List.append_nil, h.isOpen]
      refine and_congr_right fun hne => exists_congr fun j => ?_
      rw [hfind_iff]
      refine ⟨fun hfind => ⟨fun hj => hsid ⟨hj ▸ hfind, hne⟩, hfind⟩, fun hfind => hfind.2⟩
  · obtain ⟨hends, hmem | ⟨hreceived, -⟩⟩ := mem_activated_step hmem
    · obtain ⟨hne, hfind⟩ := h.activated j sid hmem
      exact ⟨hne, (hfind_iff j sid).2 ⟨fun hj => hends (by rw [hj]; rfl), hfind⟩⟩
    · cases hreceived

theorem tracked_step (h : Tracked w) (hcan : w.Can ev) (hunbound : w.Unbound ev) :
    Tracked (w.step H ev) := by
  rcases kinds ev with ⟨n, data, beyond, reserveCh, results, rfl⟩ | ⟨n, rfl⟩ | ⟨hreceived, hends⟩
  · rcases hactivates : w.manager.activates n data beyond with _ | _
    · exact h.rejects hcan hactivates
    · exact h.activates hcan hactivates (hunbound hactivates)
  · exact tracked_onDisconnect h n
  · obtain ⟨hquiet, hcalls⟩ := take_quiet (H := H) w.manager hreceived hends
    exact h.quiet hcan hends (fun n sid _ => Eq.congr_left (hquiet.networks n)) hquiet.identity
      hcalls

theorem unbound_of_bracketed (h : Tracked w) (hbracketed : w.Bracketed H ev) : w.Unbound ev := by
  unfold Unbound
  split
  · next n data beyond reserveCh results =>
    intro hactivates j hj
    have halternates := hbracketed.1 (w.manager.sessionIdFor n)
    rw [activityOf_step] at halternates
    change Alternates (_ ++ activityOf _ (w.manager.onRecv H n data beyond reserveCh results).2)
      at halternates
    rw [(onRecv_activates hactivates).2, if_pos rfl, alternates_append_singleton,
      h.isOpen] at halternates
    exact halternates.2.1 rfl ⟨sessionIdFor_ne_nil _ _, j, hj⟩
  · trivial

theorem bracketed_of_unbound (h : Tracked w) (hcan : w.Can ev) (hunbound : w.Unbound ev) :
    w.Bracketed H ev := by
  refine ⟨(tracked_step h hcan hunbound).alternates, fun n hends sid hmem => ?_⟩
  obtain ⟨hne, hfind⟩ := h.activated n sid hmem
  rcases kinds ev with ⟨n, data, beyond, reserveCh, results, rfl⟩ | ⟨n', rfl⟩ | ⟨-, hnone⟩
  · cases hends
  · obtain rfl := Option.some.inj hends
    refine ((onDisconnect_spec w.manager n').2.2.2.2 sid).trans (if_pos ⟨?_, ?_⟩)
    · rw [hfind, Option.getD_some]
    · exact (h.bound n' sid hne hfind).2.2
  · rw [hnone] at hends
    cases hends

theorem tracked_start : Tracked ({} : RpcSessions ρ) where
  noSession := rfl
  bound n sid _ hfind := by cases hfind
  once n n' sid _ hfind := by cases hfind
  alternates sid := alternates_nil
  isOpen sid := by
    refine iff_of_false not_isOpen_nil ?_
    rintro ⟨-, n, hn⟩
    cases hn
  activated n sid hmem := by cases hmem

/-- Each session is active and inactive in turns, and inactive once for the end of each id that
activated it, exactly when no message activates a session that is bound to an id. -/
theorem bracketed_iff {es : List (RpcSessionsEvent ρ)}
    (hcan : Along (step H) Can ({} : RpcSessions ρ) es) :
    Along (step H) (Bracketed H) ({} : RpcSessions ρ) es ↔
      Along (step H) Unbound ({} : RpcSessions ρ) es := by
  have hcongr : Along (step H) (fun w ev => Can w ev ∧ Bracketed H w ev) ({} : RpcSessions ρ) es ↔
      Along (step H) (fun w ev => Can w ev ∧ Unbound w ev) ({} : RpcSessions ρ) es :=
    along_congr (I := Tracked) (fun w ev h hev => tracked_step h hev.1 hev.2)
      (fun w ev h => and_congr_right fun hc =>
        ⟨unbound_of_bracketed h, bracketed_of_unbound h hc⟩) tracked_start
  rw [along_and, along_and] at hcongr
  exact ⟨fun hb => (hcongr.1 ⟨hcan, hb⟩).2, fun hu => (hcongr.2 ⟨hcan, hu⟩).2⟩

theorem bracketed_clientTwice :
    Along (step littleEndian) (Bracketed littleEndian) ({} : RpcSessions ℕ) clientTwice ↔
      Along (step littleEndian) Unbound ({} : RpcSessions ℕ) clientTwice :=
  bracketed_iff (by decide +kernel)

/-- A client presents its key twice. -/
def keyTwice : List (RpcSessionsEvent ℕ) :=
  .asyncListen 80 [107] :: aClient 1 ++ (aClient 1).tail

theorem not_bracketed_keyTwice :
    ¬ ∀ es, Along (step littleEndian) Can ({} : RpcSessions ℕ) es →
      Along (step littleEndian) (Bracketed littleEndian) ({} : RpcSessions ℕ) es := by
  intro h
  have hbracketed := h keyTwice (by decide +kernel)
  have halternates : Alternates (activityOf (calculateRPCSessionKey 0 [49] 5000)
      (exec (step littleEndian) ({} : RpcSessions ℕ) keyTwice).trace) := hbracketed.2.2.2.1.1 _
  have htrace : activityOf (calculateRPCSessionKey 0 [49] 5000)
      (exec (step littleEndian) ({} : RpcSessions ℕ) keyTwice).trace = [true, true] := by
    decide +kernel
  have hturns := htrace ▸ halternates.turns
  simp at hturns

end RpcSessions

end Elegance
