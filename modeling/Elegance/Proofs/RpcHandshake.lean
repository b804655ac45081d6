import Elegance.Proofs.RpcManager

/-!
# Authentication

A connection that has not presented its key has no session (`Guarded`), so no message enters one
for it, as long as `OnRecv` takes no message for a right key that does not carry it.
-/

namespace Elegance

open CInt RPCManager Machine

variable {ρ : Type} {H : HostLayout}

namespace RpcHandshake

variable {w w' : RpcHandshake ρ} {ev : RpcEvent} {n : NetworkID} {conn : RpcConn} {port : Port}
  {data beyond : List Byte} {reserveCh : Byte} {results : List HandleResult}

structure Guarded (w : RpcHandshake ρ) : Prop where
  noSession : w.manager.sessionMap.find [] = none
  key : ∀ n, ∀ conn ∈ w.live n, ∀ port ∈ conn.acceptedOn, ∀ key,
    w.manager.listenPort2KeyMap.find port.toNat = some key →
      (w.manager.networkId2KeyMap.find n).getD [] = key
  closed : ∀ n, w.live n = none ∨ ¬ w.Presented n →
    (w.manager.networkId2SessionIdMap.find n).getD [] = []

/-- The manager has no sessions yet. -/
def Fresh (m : RPCManager ρ) : Prop :=
  m.sessionMap.find [] = none ∧ m.networkId2SessionIdMap = .empty

theorem guarded_start (listens : List (Port × List Byte))
    (connects : List ((IPAddr × Port) × List Byte)) :
    Guarded (start (ρ := ρ) listens connects) := by
  have hfresh : Fresh (start (ρ := ρ) listens connects).manager := by
    refine List.foldlRecOn (motive := Fresh) connects _ ?_ fun m hm _ _ => hm
    exact List.foldlRecOn (motive := Fresh) listens _ ⟨rfl, rfl⟩ fun m hm _ _ => hm
  refine ⟨hfresh.1, (fun n conn hconn => by cases hconn), fun n _ => ?_⟩
  rw [hfresh.2]
  rfl

theorem not_presented_iff : ¬ w.Presented n ↔ ∃ conn port, w.live n = some conn ∧
    conn.acceptedOn = some port ∧
      ∀ key ∈ conn.presentedKeys, w.manager.listenPort2KeyMap.find port.toNat ≠ some key := by
  unfold Presented
  push Not
  simp only [Option.mem_def]
  tauto

/-- Only the id of the callback has to be looked at. -/
theorem Guarded.of_leaves (h : Guarded w) (hleaves : Leaves w.manager w'.manager n)
    (hlive : ∀ j, j ≠ n → w'.live j = w.live j)
    (hkey : ∀ conn ∈ w'.live n, ∀ port ∈ conn.acceptedOn, ∀ key,
      w.manager.listenPort2KeyMap.find port.toNat = some key →
        (w'.manager.networkId2KeyMap.find n).getD [] = key)
    (hclosed : w'.live n = none ∨ ¬ w'.Presented n →
      (w'.manager.networkId2SessionIdMap.find n).getD [] = []) : Guarded w' := by
  refine ⟨hleaves.noSession h.noSession, fun j conn hconn port hport key hfind => ?_,
    fun j hj => ?_⟩
  · rw [hleaves.listen] at hfind
    by_cases hjn : j = n
    · subst hjn
      exact hkey conn hconn port hport key hfind
    · rw [hleaves.key j hjn]
      rw [hlive j hjn] at hconn
      exact h.key j conn hconn port hport key hfind
  · by_cases hjn : j = n
    · subst hjn
      exact hclosed hj
    · rw [hleaves.session j hjn]
      refine h.closed j ?_
      rwa [Presented, hlive j hjn, hleaves.listen] at hj

theorem live_onRecv : (w.step H (.onRecv n data beyond reserveCh results)).live n =
    (w.live n).map fun conn =>
      { conn with presentedKeys := (carriedKey data).toList ++ conn.presentedKeys } :=
  Function.update_self _ _ _

/-- After a message the key has been presented if it was before or the message carries it. -/
theorem presented_onRecv (hlive : w.live n = some conn) (hport : conn.acceptedOn = some port) :
    (w.step H (.onRecv n data beyond reserveCh results)).Presented n ↔
      (∃ key ∈ carriedKey data, w.manager.listenPort2KeyMap.find port.toNat = some key) ∨
      ∃ key ∈ conn.presentedKeys, w.manager.listenPort2KeyMap.find port.toNat = some key := by
  have hlisten : (w.step H (.onRecv n data beyond reserveCh results)).manager.listenPort2KeyMap =
      w.manager.listenPort2KeyMap := (leaves_onRecv _ _ _ _ _ _).listen
  rw [Presented, live_onRecv, hlisten, hlive]
  simp [hport, or_and_right, exists_or]

theorem Presented.onRecv (h : w.Presented n) :
    (w.step H (.onRecv n data beyond reserveCh results)).Presented n := by
  by_contra hnot
  obtain ⟨conn', port, hlive', hport, -⟩ := not_presented_iff.1 hnot
  rw [live_onRecv, Option.map_eq_some_iff] at hlive'
  obtain ⟨conn, hlive, rfl⟩ := hlive'
  exact hnot ((presented_onRecv hlive hport).2 (.inr (h conn hlive port hport)))

/-- The message `OnRecv` takes for a right key is the one that presents it just where it ends its
string and the port has a key. -/
theorem presented_acceptsKey (h : Guarded w) (hnot : ¬ w.Presented n)
    (hkey : w.manager.acceptsKey n data beyond = true) :
    (w.step H (.onRecv n data beyond reserveCh results)).Presented n ↔
      KeyEnds data beyond ∧ w.Registered n := by
  obtain ⟨conn, port, hlive, hport, hpresented⟩ := not_presented_iff.1 hnot
  rw [acceptsKey, Bool.and_eq_true, decide_eq_true_eq, decide_eq_true_eq] at hkey
  have hregistered : w.Registered n ↔
      (w.manager.listenPort2KeyMap.find port.toNat).isSome := by
    simp [Registered, hlive, hport]
  rw [presented_onRecv hlive hport, hregistered, keyEnds_iff hkey.1]
  rcases hfind : w.manager.listenPort2KeyMap.find port.toNat with _ | key
  · simp
  · have hnoted := h.key n conn hlive port hport key hfind
    rw [← hkey.2] at hnoted
    rw [hnoted]
    have hno : key ∉ conn.presentedKeys := fun hmem => hpresented key hmem hfind
    simp [hno]

theorem not_presented_acceptsResponse (hnot : ¬ w.Presented n)
    (hresponse : acceptsResponse data beyond = true) :
    ¬ (w.step H (.onRecv n data beyond reserveCh results)).Presented n := by
  obtain ⟨conn, port, hlive, hport, hpresented⟩ := not_presented_iff.1 hnot
  rw [acceptsResponse, Bool.and_eq_true, decide_eq_true_eq] at hresponse
  have hcarried : carriedKey data = none := by
    rw [carriedKey, if_neg]
    rw [hresponse.1]
    exact fun hc => absurd hc.1 (by decide)
  rw [presented_onRecv hlive hport, hcarried]
  rintro (⟨key, hmem, -⟩ | ⟨key, hmem, hfind⟩)
  · cases hmem
  · exact hpresented key hmem hfind

theorem guarded_onRecv (h : Guarded w)
    (hcan : w.Can (.onRecv n data beyond reserveCh results))
    (hchecked : w.Checked (.onRecv n data beyond reserveCh results)) :
    Guarded (w.step H (.onRecv n data beyond reserveCh results)) := by
  obtain ⟨conn, hlive⟩ := Option.isSome_iff_exists.1 hcan.1
  refine h.of_leaves (n := n) (leaves_onRecv _ _ _ _ _ _)
    (fun j hj => Function.update_of_ne hj _ _) (fun conn' hconn' port hport key hfind => ?_)
    fun hclosed => ?_
  · rw [live_onRecv, hlive, Option.map_some, Option.mem_some_iff] at hconn'
    subst hconn'
    exact (key_onRecv _ _ _ _ _ _).trans (h.key n conn hlive port hport key hfind)
  · have hafter : ¬ (w.step H (.onRecv n data beyond reserveCh results)).Presented n := by
      rcases hclosed with hnone | hnot
      · rw [live_onRecv, hlive] at hnone
        cases hnone
      · exact hnot
    have hnot : ¬ w.Presented n := fun hp => hafter hp.onRecv
    obtain ⟨hresponse, hends⟩ := hchecked hnot
    have hkey : w.manager.acceptsKey n data beyond = false := by
      rw [← Bool.not_eq_true]
      exact fun hkey => hafter ((presented_acceptsKey h hnot hkey).2 (hends hkey))
    exact (onRecv_refuses hkey hresponse (h.closed n (.inr hnot)) h.noSession).2

theorem guarded_onAccept {remoteIpAddr : IPAddr} {remotePort localPort : Port} (h : Guarded w)
    (hfree : w.live n = none) :
    Guarded (w.step H (.onAccept remoteIpAddr remotePort localPort n)) := by
  set w' := w.step H (.onAccept remoteIpAddr remotePort localPort n)
  have hlive : w'.live n = some ⟨some localPort, []⟩ := Function.update_self _ _ _
  have hmanager : w'.manager = w.manager.onAccept remoteIpAddr remotePort localPort n := rfl
  refine h.of_leaves (n := n) ?_ (fun j hj => Function.update_of_ne hj _ _) ?_ fun _ => ?_
  · exact leaves_onAccept _ _ _ _ _
  · intro conn hconn port hport key hfind
    rw [hlive, Option.mem_some_iff] at hconn
    subst hconn
    rw [Option.mem_some_iff] at hport
    subst hport
    rw [hmanager, onAccept_key hfind]
    rfl
  · rw [hmanager, onAccept_session]
    exact h.closed n (.inl hfree)

theorem guarded_onConnect {ip : IPAddr} {port localPort : Port} {success : Bool} (h : Guarded w) :
    Guarded (w.step H (.onConnect ip port localPort success n)) := by
  set w' := w.step H (.onConnect ip port localPort success n) with hw'
  have hmanager : w'.manager = { w.manager with uncheckRpcInfoMap :=
      (w.manager.onConnect H ip port localPort success n).1.uncheckRpcInfoMap } :=
    onConnect_fields _ _ _ _ _ _
  have hleaves : Leaves w.manager w'.manager n := by
    rw [hmanager]
    exact ⟨rfl, id, fun _ _ => rfl, fun _ _ => rfl⟩
  cases success with
  | false =>
    refine h.of_leaves hleaves (fun j _ => rfl) ?_ ?_
    · rw [hmanager]
      exact h.key n
    · rw [Presented, hmanager]
      exact h.closed n
  | true =>
    have hlive : w'.live n = some ⟨none, []⟩ := Function.update_self _ _ _
    refine h.of_leaves hleaves (fun j hj => Function.update_of_ne hj _ _) ?_ ?_
    · rw [hlive]
      intro conn hconn port hport
      rw [Option.mem_some_iff] at hconn
      subst hconn
      cases hport
    · rw [Presented, hlive]
      simp

theorem guarded_onDisconnect (h : Guarded w) : Guarded (w.step H (.onDisconnect n)) := by
  set w' := w.step H (.onDisconnect n)
  have hlive : w'.live n = none := Function.update_self _ _ _
  have hmanager : w'.manager = (w.manager.onDisconnect n).1 := rfl
  refine h.of_leaves (n := n) (leaves_onDisconnect _ _)
    (fun j hj => Function.update_of_ne hj _ _) (fun conn hconn => ?_) fun _ => ?_
  · rw [hlive] at hconn
    cases hconn
  · rw [hmanager, onDisconnect_session]
    rfl

theorem guarded_registerHandler {sessionId : RPCSessionID} {handler : Addr} (h : Guarded w) :
    Guarded (w.step H (.registerHandler sessionId handler)) := by
  obtain ⟨sessionMap, hmanager, hnone⟩ := registerHandler_fields w.manager sessionId handler
  have hw' : (w.step H (.registerHandler sessionId handler)).manager =
    { w.manager with sessionMap } := hmanager
  refine ⟨?_, ?_, ?_⟩
  · rw [hw']
    exact hnone h.noSession
  · rw [hw']
    exact h.key
  · unfold Presented
    rw [hw']
    exact h.closed

theorem guarded_step (h : Guarded w) (hcan : w.Can ev) (hchecked : w.Checked ev) :
    Guarded (w.step H ev) := by
  cases ev with
  | onAccept => exact guarded_onAccept h (Option.isNone_iff_eq_none.1 hcan)
  | onConnect => exact guarded_onConnect h
  | onRecv => exact guarded_onRecv h hcan hchecked
  | onDisconnect => exact guarded_onDisconnect h
  | registerHandler => exact guarded_registerHandler h

theorem authenticated_iff_checked (h : Guarded w) : w.Authenticated H ev ↔ w.Checked ev := by
  have hquiet : (∀ call ∈ (w.manager.handle H ev).2, call.entersSession = false) →
      w.Authenticated H ev := fun hno call hcall henters => by
    rw [hno call hcall] at henters
    cases henters
  cases ev with
  | onRecv n data beyond reserveCh results =>
    by_cases hp : w.Presented n
    · exact iff_of_true (fun _ _ _ => ⟨n, rfl, hp.onRecv⟩) fun hnot => absurd hp hnot
    have hpresents : (∃ sessionId, .onSessionActive sessionId ∈
        (w.manager.onRecv H n data beyond reserveCh results).2) →
        (w.Authenticated H (.onRecv n data beyond reserveCh results) ↔
          (w.step H (.onRecv n data beyond reserveCh results)).Presented n) := by
      rintro ⟨sessionId, hmem⟩
      refine ⟨fun hauth => ?_, fun hpres _ _ _ => ⟨n, rfl, hpres⟩⟩
      obtain ⟨j, hj, hpres⟩ := hauth _ hmem rfl
      obtain rfl := Option.some.inj hj
      exact hpres
    rcases hresponse : acceptsResponse data beyond with _ | _
    · rcases hkey : w.manager.acceptsKey n data beyond with _ | _
      · refine iff_of_true (hquiet ?_) fun _ => ⟨hresponse, fun hk => by rw [hkey] at hk; cases hk⟩
        exact (onRecv_refuses hkey hresponse (h.closed n (.inr hp)) h.noSession).1
      · rw [hpresents (onRecv_enters (.inl hkey)), presented_acceptsKey h hp hkey]
        exact ⟨fun hends _ => ⟨hresponse, fun _ => hends⟩, fun hchecked => (hchecked hp).2 hkey⟩
    · rw [hpresents (onRecv_enters (.inr hresponse))]
      refine iff_of_false (not_presented_acceptsResponse hp hresponse) fun hchecked => ?_
      rw [(hchecked hp).1] at hresponse
      cases hresponse
  | onAccept => exact iff_of_true (hquiet fun _ hcall => by cases hcall) trivial
  | onConnect => exact iff_of_true (hquiet onConnect_enters) trivial
  | onDisconnect n => exact iff_of_true (hquiet (onDisconnect_enters _ n)) trivial
  | registerHandler => exact iff_of_true (hquiet fun _ hcall => by cases hcall) trivial

/-- In every run a session is entered only for connections that have presented their key, exactly
when no message passes that check without the key. -/
theorem authenticated_iff (H : HostLayout) (listens : List (Port × List Byte))
    (connects : List ((IPAddr × Port) × List Byte)) (evs : List RpcEvent)
    (hrun : Along (step H) Can (start (ρ := ρ) listens connects) evs) :
    Along (step H) (Authenticated H) (start (ρ := ρ) listens connects) evs ↔
      Along (step H) Checked (start (ρ := ρ) listens connects) evs := by
  have hcongr : Along (step H) (fun w ev => Can w ev ∧ Authenticated H w ev)
        (start (ρ := ρ) listens connects) evs ↔
      Along (step H) (fun w ev => Can w ev ∧ Checked w ev) (start listens connects) evs :=
    along_congr (I := Guarded) (fun w ev h hev => guarded_step h hev.1 hev.2)
      (fun w ev h => and_congr_right fun _ => authenticated_iff_checked h) (guarded_start _ _)
  rw [along_and, along_and] at hcongr
  exact ⟨fun hauth => (hcongr.1 ⟨hrun, hauth⟩).2, fun hchecked => (hcongr.2 ⟨hrun, hchecked⟩).2⟩

/-- A client presents the key and leaves; the next one under its id tries another. -/
theorem authenticated_two_clients :
    Along (step littleEndian) (Authenticated littleEndian) (start (ρ := ℕ) [(80, [107])] [])
        [.onAccept [49] 5000 80 1, .onRecv 1 [0, 0, 1, 0, 107, 0] [] 0 [], .onDisconnect 1,
          .onAccept [50] 6000 80 1, .onRecv 1 [0, 0, 1, 0, 108, 0] [] 0 [],
          .onRecv 1 [2, 0, 0, 0, 9] [] 0 []] ↔
      Along (step littleEndian) Checked (start (ρ := ℕ) [(80, [107])] [])
        [.onAccept [49] 5000 80 1, .onRecv 1 [0, 0, 1, 0, 107, 0] [] 0 [], .onDisconnect 1,
          .onAccept [50] 6000 80 1, .onRecv 1 [0, 0, 1, 0, 108, 0] [] 0 [],
          .onRecv 1 [2, 0, 0, 0, 9] [] 0 []] :=
  authenticated_iff littleEndian _ _ _ (by decide +kernel)

/-- A client that sends the response to a key check has a session at once. -/
theorem not_authenticated_response :
    Along (step littleEndian) Can (start (ρ := ℕ) [(80, [107])] [])
      [.onAccept [49] 5000 80 1, .onRecv 1 [1, 1] [] 0 []] ∧
    ¬ Along (step littleEndian) (Authenticated littleEndian) (start (ρ := ℕ) [(80, [107])] [])
      [.onAccept [49] 5000 80 1, .onRecv 1 [1, 1] [] 0 []] := by
  decide +kernel

end RpcHandshake

end Elegance
