import Elegance.Proofs.Network

/-!
# Inbound attribution

Data and the end of a connection are attributed to the id issued for its endpoint exactly as long
as no two live endpoints are one key to `operator <`.
-/

namespace Elegance

open CInt StrictWeakOrd NetworkManager Machine

variable {H : HostLayout} {w : Network} {ev : NetworkEvent}

namespace Network

variable (H) in
/-- `OnRecv` for a live connection feeds the packer under its id, and `OnDisconnect` would remove
its id and no other. -/
def Attributed (w : Network) : Prop :=
  ∀ c ∈ w.live,
    let ⟨ip, port, localPort⟩ := c.endpoint
    let m := (w.mgr.onDisconnect ip port localPort).1
    w.mgr.recvNetId ip port localPort = some c.netId ∧
    (∀ data, w.mgr.onRecv H ip port localPort data = w.mgr.packagerUnPack H c.netId data) ∧
    w.mgr.netIdToEndpointMap.find c.netId = some c.endpoint ∧
    (∀ id, m.netIdToEndpointMap.find id =
      if id = c.netId then none else w.mgr.netIdToEndpointMap.find id) ∧
    m.endpointToNetIdMap.find c.endpoint = none ∧
    ∀ d ∈ w.live, d ≠ c → m.endpointToNetIdMap.find d.endpoint = some d.netId

theorem Tracked.attributed (h : Tracked w) : Attributed H w := by
  intro c hc
  have hrecv := h.recvNetId hc
  have hcloses := onDisconnect_closes (h.byEndpoint c hc)
  refine ⟨hrecv, fun data => ?_, h.byId c hc, hcloses.byId, ?_, fun d hd hdc => ?_⟩
  · rw [onRecv, hrecv]
  · rw [hcloses.byEndpoint, if_pos (equiv_refl _)]
  · rw [hcloses.byEndpoint, h.equiv_eq_false hc hd (Ne.symm hdc), if_neg (by simp),
      h.byEndpoint d hd]

/-- An endpoint equivalent to a live one takes over its key. -/
theorem not_attributed (h : Tracked w) (hcan : w.Can ev) (hn : ¬ w.Inequivalent ev) :
    ¬ Attributed H (w.step H ev) := by
  simp only [Inequivalent, not_forall, Bool.not_eq_false] at hn
  obtain ⟨e, he, c, hc, heq⟩ := hn
  rcases step_cases (H := H) h hcan with
    ⟨e', r, he', ho⟩ | ⟨d, data, -, rfl⟩ | ⟨d, rfl, -⟩ | ⟨hnone, -⟩
  · obtain rfl : e' = e := Option.some.inj (he'.symm.trans he)
    intro ha
    have hkey := (ha c (by rw [ho.live]; exact List.mem_append_left _ hc)).1
    have htaken := ho.mgr.byEndpoint c.endpoint
    rw [equiv_comm, if_pos heq] at htaken
    have hid : c.netId = w.mgr.getFreeNetID.1 := Option.some.inj (hkey.symm.trans htaken)
    exact (pool_getFreeNetID (length_lt_of_opens hcan he') h.pool).2
      (hid ▸ List.mem_map_of_mem hc)
  · cases he
  · cases he
  · rw [hnone] at he
    cases he

/-- In a run whose live endpoints are all different, every call is attributed to the right id
exactly when each endpoint opened is one `operator <` tells from those live. -/
theorem attributed_iff (H : HostLayout) (handlers : List Addr) (singleThread : Bool)
    (evs : List NetworkEvent)
    (hrun : Along (step H) (fun w ev => w.Can ev ∧ w.Different ev) (start handlers singleThread)
      evs) :
    (∀ pre, pre <+: evs → Attributed H (exec (step H) (start handlers singleThread) pre)) ↔
      Along (step H) Inequivalent (start handlers singleThread) evs :=
  along_iff_forall_exec (fun _ h => h.attributed) (fun _ _ h hq hp => tracked_step h hq.1 hp)
    (fun _ _ h hq hn => not_attributed h hq.1 hn) (tracked_start handlers singleThread) hrun

/-- Two clients with addresses of different lengths on one listener. -/
theorem attributed_two_clients :
    let evs : List NetworkEvent :=
      [.listen 1 80, .accept 1 10 [49, 46, 49, 46, 49, 46, 49] 5000,
        .accept 1 11 [49, 48, 46, 49, 46, 49, 46, 49] 5000]
    ∀ pre, pre <+: evs → Attributed littleEndian (exec (step littleEndian) (start [] false) pre) :=
  (attributed_iff littleEndian [] false _ (by decide +kernel)).2 (by decide +kernel)

/-- The clients `1.1.1.1:5000` and `2.2.2.2:5000` are one key. -/
theorem not_attributed_same_length : ¬ ∀ (H : HostLayout) (handlers : List Addr)
    (singleThread : Bool) (evs : List NetworkEvent),
    Along (step H) (fun w ev => w.Can ev ∧ w.Different ev) (start handlers singleThread) evs →
      Attributed H (exec (step H) (start handlers singleThread) evs) := by
  intro h
  have hrun := h littleEndian [] false [.listen 1 80, .accept 1 10 [49, 46, 49, 46, 49, 46, 49] 5000,
    .accept 1 11 [50, 46, 50, 46, 50, 46, 50] 5000] (by decide +kernel)
  have hfirst := hrun ⟨.accept 1 10, ⟨[49, 46, 49, 46, 49, 46, 49], 5000, 80⟩, 1, [], []⟩
    (by decide +kernel)
  exact absurd hfirst.1 (by decide +kernel)

end Network

end Elegance
