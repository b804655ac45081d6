import Elegance.Network
import Elegance.Proofs.NetworkManager

/-!
# The manager's tables follow the live connections

As long as `operator <` tells a new endpoint from every live one, each live connection is found
under its endpoint and its id, and the ids made are split between the free ones and those of live
connections (`Tracked`).
-/

namespace Elegance

open CInt StrictWeakOrd NetworkManager

variable {H : HostLayout} {w : Network} {ev : NetworkEvent}

namespace Network

structure Tracked (w : Network) : Prop where
  apart : w.live.Pairwise fun c d => equiv c.endpoint d.endpoint = false
  pool : Pool 1 (w.mgr.maxNetId + 1) w.mgr.freeNetIdList (w.live.map Conn.netId)
  byId : ∀ c ∈ w.live, w.mgr.netIdToEndpointMap.find c.netId = some c.endpoint
  byEndpoint : ∀ c ∈ w.live, w.mgr.endpointToNetIdMap.find c.endpoint = some c.netId

theorem tracked_start (handlers : List Addr) (singleThread : Bool) :
    Tracked (start handlers singleThread) where
  apart := .nil
  pool := Pool.empty 1
  byId c hc := by simp [start] at hc
  byEndpoint c hc := by simp [start] at hc

section Tracked

variable {c d : Conn}

theorem Tracked.equiv_eq_false (h : Tracked w) (hc : c ∈ w.live) (hd : d ∈ w.live)
    (hne : c ≠ d) : equiv c.endpoint d.endpoint = false := by
  have : Std.Symm fun c d : Conn => equiv c.endpoint d.endpoint = false :=
    ⟨fun _ _ h' => by rwa [equiv_comm]⟩
  exact h.apart.forall hc hd hne

theorem Tracked.eq_of_endpoint (h : Tracked w) (hc : c ∈ w.live) (hd : d ∈ w.live)
    (he : c.endpoint = d.endpoint) : c = d := by
  by_contra hne
  have := h.equiv_eq_false hc hd hne
  rw [he, equiv_refl] at this
  cases this

theorem Tracked.eq_of_netId (h : Tracked w) (hc : c ∈ w.live) (hd : d ∈ w.live)
    (he : c.netId = d.netId) : c = d :=
  List.inj_on_of_nodup_map h.pool.nodup_used hc hd he

theorem Tracked.recvNetId (h : Tracked w) (hc : c ∈ w.live) :
    w.mgr.recvNetId c.endpoint.remoteIpAddr c.endpoint.remotePort c.endpoint.localPort
      = some c.netId :=
  h.byEndpoint c hc

/-- The one connection on an endpoint, apart from the others. -/
theorem Tracked.perm (h : Tracked w) (hc : c ∈ w.live) :
    w.live.Perm (c :: w.live.filter (·.endpoint ≠ c.endpoint)) := by
  have hone : w.live.filter (·.endpoint = c.endpoint) = w.live.filter (· = c) :=
    List.filter_congr fun d hd => by
      rw [decide_eq_decide]
      exact ⟨h.eq_of_endpoint hd hc, fun hdc => by rw [hdc]⟩
  have hnodup : w.live.Nodup := List.Nodup.of_map _ h.pool.nodup_used
  have hsingle : w.live.filter (· = c) = [c] := by
    rw [List.filter_eq, List.count_eq_one_of_mem hnodup hc]
    rfl
  have hsplit := List.filter_append_perm (·.endpoint = c.endpoint) w.live
  rw [hone, hsingle] at hsplit
  refine hsplit.symm.trans ?_
  simp

end Tracked

/-- What the manager holds of the connections does not depend on which objects are listed. -/
def Relists (w w' : Network) : Prop :=
  (∃ acceptList connectList, w'.mgr = { w.mgr with acceptList, connectList }) ∧
    w'.live = w.live ∧ w'.closed = w.closed ∧ w'.halt = w.halt

/-- The step opened a connection on `e`. -/
structure Opening (w w' : Network) (e : Endpoint) (r : Reporter) : Prop where
  mgr : Opens w.mgr w'.mgr e
  live : w'.live = w.live ++ [{ reporter := r, endpoint := e, netId := w.mgr.getFreeNetID.1 }]
  closed : w'.closed = w.closed
  halt : w'.halt = w.halt

/-- The step closed the connection `c`. -/
structure Closing (w w' : Network) (c : Conn) : Prop where
  mem : c ∈ w.live
  mgr : Closes w.mgr w'.mgr c.netId c.endpoint
  live : w'.live = w.live.filter (·.endpoint ≠ c.endpoint)
  closed : w'.closed = w.closed ++ [c]
  halt : w'.halt = w.halt
  accepts : w'.accepts = (w.release c.reporter).accepts
  connects : w'.connects = (w.release c.reporter).connects

theorem step_accept {a : Addr} {sock : ℤ} {ip : IPAddr} {port : Port}
    (h : w.Can (.accept a sock ip port)) : Opening w (w.step H (.accept a sock ip port))
      ⟨ip, port, (w.accepts a).localPort⟩ (.accept a sock) where
  mgr := onAccept_opens ⟨a, h.1, by
    rw [acceptsAfter, Function.update_self]
    exact SocketAccept.checkOnHandle_accepted _ _ _ _⟩
  live := rfl
  closed := rfl
  halt := rfl

theorem step_connect {a : Addr} {ip : IPAddr} {port localPort : Port}
    (h : w.Can (.connect a ip port localPort)) : Opening w
      (w.step H (.connect a ip port localPort)) ⟨ip, port, localPort⟩ (.connect a) where
  mgr := onConnect_opens ⟨a, h.1, by
    rw [connectsAfter, Function.update_self]
    exact SocketConnect.checkOnHandle_connected h.2.1 _ _ _⟩
  live := rfl
  closed := rfl
  halt := rfl

theorem step_recv (h : Tracked w) {c : Conn} (hc : c ∈ w.live) (data : Chunk) :
    w.step H (.recv c.endpoint data) =
      match (unPack H w.mgr.netIdToBufferMap c.netId data.bytes).final with
      | .ok netIdToBufferMap =>
        { w with
          mgr := { w.mgr with netIdToBufferMap }
          live := heard w.live c.endpoint data.bytes
            (unPack H w.mgr.netIdToBufferMap c.netId data.bytes).events }
      | .error halt => { w with halt } := by
  unfold step
  dsimp only
  rw [onRecv, h.recvNetId hc]
  dsimp only [packagerUnPack]
  rcases (unPack H w.mgr.netIdToBufferMap c.netId data.bytes).final with _ | _ <;> rfl

theorem step_disconnect (h : Tracked w) {e : Endpoint} (hcan : w.Can (.disconnect e)) :
    ∃ c, c.endpoint = e ∧ Closing w (w.step H (.disconnect e)) c := by
  obtain ⟨d, hd, hde⟩ := hcan
  obtain ⟨c, hc⟩ : ∃ c, w.live.find? (·.endpoint = e) = some c :=
    Option.isSome_iff_exists.1 (List.find?_isSome.2 ⟨d, hd, by simpa using hde⟩)
  have hmem := List.mem_of_find?_eq_some hc
  have he : c.endpoint = e := by simpa using List.find?_some hc
  refine ⟨c, he, ?_⟩
  subst he
  have hstep : w.step H (.disconnect c.endpoint) = { w.release c.reporter with
      mgr := (w.mgr.onDisconnect c.endpoint.remoteIpAddr c.endpoint.remotePort
        c.endpoint.localPort).1
      live := w.live.filter (·.endpoint ≠ c.endpoint)
      closed := w.closed ++ [c] } := by
    unfold step
    dsimp only
    rw [hc]
  have hhalt : (w.release c.reporter).halt = w.halt := by
    rcases c.reporter with _ | _ <;> rfl
  rw [hstep]
  exact ⟨hmem, onDisconnect_closes (h.byEndpoint c hmem), rfl, rfl, hhalt, rfl, rfl⟩

theorem step_cases (h : Tracked w) (hcan : w.Can ev) :
    (∃ e r, w.opens ev = some e ∧ Opening w (w.step H ev) e r) ∨
    (∃ c data, c ∈ w.live ∧ ev = .recv c.endpoint data) ∨
    (∃ c, ev = .disconnect c.endpoint ∧ Closing w (w.step H ev) c) ∨
    w.opens ev = none ∧ Relists w (w.step H ev) := by
  cases ev with
  | listen a port => exact .inr <| .inr <| .inr ⟨rfl, ⟨_, _, rfl⟩, rfl, rfl, rfl⟩
  | endListen a => exact .inr <| .inr <| .inr ⟨rfl, ⟨_, _, rfl⟩, rfl, rfl, rfl⟩
  | startConnect a => exact .inr <| .inr <| .inr ⟨rfl, ⟨_, _, rfl⟩, rfl, rfl, rfl⟩
  | endConnect a => exact .inr <| .inr <| .inr ⟨rfl, ⟨_, _, rfl⟩, rfl, rfl, rfl⟩
  | accept a sock ip port => exact .inl ⟨_, _, rfl, step_accept hcan⟩
  | connect a ip port localPort => exact .inl ⟨_, _, rfl, step_connect hcan⟩
  | recv e data =>
    obtain ⟨c, hc, rfl⟩ := hcan
    exact .inr <| .inl ⟨c, data, hc, rfl⟩
  | disconnect e =>
    obtain ⟨c, rfl, hclosing⟩ := step_disconnect (H := H) h hcan
    exact .inr <| .inr <| .inl ⟨c, rfl, hclosing⟩

theorem length_lt_of_opens {e : Endpoint} (hcan : w.Can ev) (he : w.opens ev = some e) :
    ((w.live.map Conn.netId).length : ℤ) < intMax := by
  rw [List.length_map]
  cases ev with
  | accept a sock ip port => exact hcan.2
  | connect a ip port localPort => exact hcan.2.2
  | _ => simp [opens] at he

theorem tracked_opening {w' : Network} {e : Endpoint} {r : Reporter} (h : Tracked w)
    (hlen : ((w.live.map Conn.netId).length : ℤ) < intMax)
    (hnew : ∀ c ∈ w.live, equiv c.endpoint e = false) (ho : Opening w w' e r) : Tracked w' := by
  obtain ⟨hpool, hfresh⟩ := pool_getFreeNetID hlen h.pool
  have hold : ∀ c ∈ w.live, c.netId ≠ w.mgr.getFreeNetID.1 := fun c hc hn =>
    hfresh (hn ▸ List.mem_map_of_mem hc)
  constructor
  · rw [ho.live, List.pairwise_append]
    refine ⟨h.apart, List.pairwise_singleton _ _, fun c hc d hd => ?_⟩
    rw [List.mem_singleton.1 hd]
    exact hnew c hc
  · rw [ho.live, ho.mgr.free, ho.mgr.max, List.map_append]
    exact hpool.perm (List.perm_append_singleton _ _).symm
  · intro c hc
    rw [ho.live, List.mem_append, List.mem_singleton] at hc
    rw [ho.mgr.byId]
    rcases hc with hc | rfl
    · rw [if_neg (hold c hc), h.byId c hc]
    · rw [if_pos rfl]
  · intro c hc
    rw [ho.live, List.mem_append, List.mem_singleton] at hc
    rw [ho.mgr.byEndpoint]
    rcases hc with hc | rfl
    · rw [equiv_comm, if_neg (by rw [hnew c hc]; simp), h.byEndpoint c hc]
    · rw [if_pos (equiv_refl _)]

theorem tracked_closing {w' : Network} {c : Conn} (h : Tracked w) (hcl : Closing w w' c) :
    Tracked w' := by
  have hsub : ∀ d ∈ w'.live, d ∈ w.live ∧ d ≠ c := fun d hd => by
    rw [hcl.live, List.mem_filter, decide_eq_true_eq] at hd
    exact ⟨hd.1, fun hdc => hd.2 (by rw [hdc])⟩
  constructor
  · rw [hcl.live]
    exact h.apart.filter _
  · rw [hcl.mgr.free, hcl.mgr.max, hcl.live]
    exact (h.pool.perm ((h.perm hcl.mem).map Conn.netId)).give
  · intro d hd
    obtain ⟨hdm, hdc⟩ := hsub d hd
    rw [hcl.mgr.byId, if_neg fun hn => hdc (h.eq_of_netId hdm hcl.mem hn), h.byId d hdm]
  · intro d hd
    obtain ⟨hdm, hdc⟩ := hsub d hd
    rw [hcl.mgr.byEndpoint, h.equiv_eq_false hcl.mem hdm (Ne.symm hdc), if_neg (by simp),
      h.byEndpoint d hdm]

/-- Receiving data leaves every connection where it is. -/
theorem heard_map {β : Type*} (f : Conn → β)
    (hf : ∀ (c : Conn) r d, f { c with received := r, handed := d } = f c) (live : List Conn)
    (e : Endpoint) (data : List Byte) (events : List PackerEvent) :
    (heard live e data events).map f = live.map f := by
  rw [heard, List.map_map]
  exact List.map_congr_left fun c _ => hf c _ _

theorem tracked_recv (h : Tracked w) {c : Conn} (hc : c ∈ w.live) (data : Chunk) :
    Tracked (w.step H (.recv c.endpoint data)) := by
  rw [step_recv h hc]
  split
  · rename_i m' hm'
    set events := (unPack H w.mgr.netIdToBufferMap c.netId data.bytes).events
    have hback : ∀ d ∈ heard w.live c.endpoint data.bytes events,
        ∃ d₀ ∈ w.live, d₀.netId = d.netId ∧ d₀.endpoint = d.endpoint := fun d hd => by
      obtain ⟨d₀, hd₀, rfl⟩ := List.mem_map.1 hd
      exact ⟨d₀, hd₀, rfl, rfl⟩
    constructor
    · exact List.pairwise_map.2 h.apart
    · dsimp only
      rw [heard_map _ fun _ _ _ => rfl]
      exact h.pool
    · intro d hd
      obtain ⟨d₀, hd₀, hid, hep⟩ := hback d hd
      rw [← hid, ← hep]
      exact h.byId d₀ hd₀
    · intro d hd
      obtain ⟨d₀, hd₀, hid, hep⟩ := hback d hd
      rw [← hid, ← hep]
      exact h.byEndpoint d₀ hd₀
  · exact ⟨h.apart, h.pool, h.byId, h.byEndpoint⟩

theorem tracked_step (h : Tracked w) (hcan : w.Can ev) (hnew : w.Inequivalent ev) :
    Tracked (w.step H ev) := by
  rcases step_cases (H := H) h hcan with
    ⟨e, r, he, ho⟩ | ⟨c, data, hc, rfl⟩ | ⟨c, -, hcl⟩ | ⟨-, ⟨la, lc, hmgr⟩, hlive, -, -⟩
  · exact tracked_opening h (length_lt_of_opens hcan he) (hnew e he) ho
  · exact tracked_recv h hc data
  · exact tracked_closing h hcl
  · refine ⟨?_, ?_, ?_, ?_⟩ <;> simp only [hmgr, hlive]
    · exact h.apart
    · exact h.pool
    · exact h.byId
    · exact h.byEndpoint

end Network

end Elegance
