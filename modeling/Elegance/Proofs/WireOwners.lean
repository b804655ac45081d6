import Elegance.Managers
import Elegance.Proofs.Routing
import Elegance.Proofs.Wires

/-!
# The wire a send leaves by

Where every connection is reported on a descriptor no live one has, the tables of a listener lead
from the endpoint of each connection it holds to its own descriptor (`Plugged`). So a `Send` under
the net id of a live connection offers the frame to that connection's wire and to no other
(`sends_live`), and under any other id to none (`sends_of_not_live`).
-/

namespace Elegance

open CInt StrictWeakOrd NetworkManager Machine

variable {H : HostLayout}

namespace Network

variable {w w' : Network} {ev : NetworkEvent} {c d : Conn}

/-- The tables of a listener lead from the endpoint of a connection to its descriptor and back. -/
def Leads (accepts : Addr → SocketAccept) (endpoint : Endpoint) : Reporter → Prop
  | .accept a sock => (accepts a).endpointSockMap.find endpoint = some sock ∧
      (accepts a).sockEndpointMap.find sock = some endpoint
  | .connect _ => True

structure Plugged (w : Network) : Prop where
  owned : Owned w
  wires : w.live.Pairwise fun c d => c.reporter.wire ≠ d.reporter.wire
  leads : ∀ c ∈ w.live, Leads w.accepts c.endpoint c.reporter

theorem plugged_start (handlers : List Addr) (singleThread : Bool) :
    Plugged (start handlers singleThread) where
  owned := owned_start handlers singleThread
  wires := .nil
  leads c hc := by simp [start] at hc

theorem Plugged.eq_of_wire (h : Plugged w) (hc : c ∈ w.live) (hd : d ∈ w.live)
    (he : c.reporter.wire = d.reporter.wire) : c = d := by
  by_contra hne
  have : Std.Symm fun c d : Conn => c.reporter.wire ≠ d.reporter.wire := ⟨fun _ _ => Ne.symm⟩
  exact h.wires.forall hc hd hne he

/-- No live connection has the wire on which another is opened. -/
def Unplugged (w : Network) (ev : NetworkEvent) : Prop :=
  ∀ wire ∈ ev.opensWire, ∀ c ∈ w.live, c.reporter.wire ≠ wire

section Step

theorem Leads.congr {accepts accepts' : Addr → SocketAccept}
    (h : Leads accepts c.endpoint c.reporter)
    (hsame : ∀ a sock, c.reporter = .accept a sock → accepts' a = accepts a) :
    Leads accepts' c.endpoint c.reporter := by
  rcases hr : c.reporter with ⟨a, sock⟩ | a
  · rw [hr] at h
    simp only [Leads] at h ⊢
    rwa [hsame a sock hr]
  · trivial

/-- A step that only changes listeners that hold no live connection. -/
theorem Plugged.relist (h : Plugged w) (howned : Owned w') (hlive : w'.live = w.live)
    (hsame : ∀ c ∈ w.live, ∀ a sock, c.reporter = .accept a sock → w'.accepts a = w.accepts a) :
    Plugged w' where
  owned := howned
  wires := by
    rw [hlive]
    exact h.wires
  leads c hc := by
    rw [hlive] at hc
    exact (h.leads c hc).congr (hsame c hc)

/-- A connection is opened on a wire no live one has. -/
theorem Plugged.opening {e : Endpoint} {r : Reporter} (h : Plugged w) (howned : Owned w')
    (ho : Opening w w' e r) (hfree : ∀ c ∈ w.live, c.reporter.wire ≠ r.wire)
    (hold : ∀ c ∈ w.live, Leads w'.accepts c.endpoint c.reporter) (hnew : Leads w'.accepts e r) :
    Plugged w' where
  owned := howned
  wires := by
    rw [ho.live, List.pairwise_append]
    refine ⟨h.wires, List.pairwise_singleton _ _, fun c hc d hd => ?_⟩
    rw [List.mem_singleton.1 hd]
    exact hfree c hc
  leads c hc := by
    rw [ho.live, List.mem_append, List.mem_singleton] at hc
    rcases hc with hc | rfl
    · exact hold c hc
    · exact hnew

theorem leads_accept {a : Addr} {sock : ℤ} {ip : IPAddr} {port : Port} (h : Plugged w)
    (hnew : w.Inequivalent (.accept a sock ip port)) (hfree : w.Unplugged (.accept a sock ip port))
    (hc : c ∈ w.live) : Leads (w.acceptsAfter a sock ip port) c.endpoint c.reporter := by
  have hold := h.leads c hc
  have hwire := hfree _ rfl c hc
  rcases hr : c.reporter with ⟨b, sock'⟩ | b
  · rw [hr] at hold hwire
    simp only [Leads] at hold ⊢
    by_cases hb : b = a
    · subst hb
      have hsock : sock' ≠ sock := fun hs => hwire (by rw [hs]; rfl)
      have hequiv : equiv ⟨ip, port, (w.accepts b).localPort⟩ c.endpoint = false := by
        rw [equiv_comm]
        exact hnew _ rfl c hc
      rw [acceptsAfter, Function.update_self, SocketAccept.accepted]
      dsimp only
      rw [StdMap.find_set, StdMap.find_set_eq, if_neg hsock, SocketAccept.curEndpoint, hequiv,
        if_neg (by simp)]
      exact hold
    · rw [acceptsAfter, Function.update_of_ne hb]
      exact hold
  · trivial

theorem leads_accepted (w : Network) (a : Addr) (sock : ℤ) (ip : IPAddr) (port : Port) :
    Leads (w.acceptsAfter a sock ip port) ⟨ip, port, (w.accepts a).localPort⟩ (.accept a sock) := by
  simp only [Leads]
  rw [acceptsAfter, Function.update_self, SocketAccept.accepted]
  dsimp only
  rw [StdMap.find_set, StdMap.find_set_eq, if_pos rfl, SocketAccept.curEndpoint, equiv_refl,
    if_pos rfl]
  exact ⟨rfl, rfl⟩

theorem leads_release (h : Plugged w) (hc : c ∈ w.live) (hd : d ∈ w.live) (hne : d ≠ c) :
    Leads (w.release c.reporter).accepts d.endpoint d.reporter := by
  have hold := h.leads d hd
  rcases hrd : d.reporter with ⟨b, sock'⟩ | b
  · rw [hrd] at hold
    rcases hrc : c.reporter with ⟨a, sock⟩ | a
    · by_cases hb : b = a
      · subst hb
        have hclosed := h.leads c hc
        rw [hrc] at hclosed
        have hsock : sock' ≠ sock := fun hs => hne (h.eq_of_wire hd hc (by rw [hrd, hrc, hs]))
        have hequiv := h.owned.tracked.equiv_eq_false hc hd (Ne.symm hne)
        simp only [Leads, release] at hold ⊢
        rw [Function.update_self, SocketAccept.closed, hclosed.2]
        dsimp only
        rw [StdMap.find_erase, StdMap.find_erase_eq, if_neg hsock, hequiv, if_neg (by simp)]
        exact hold
      · simp only [Leads, release] at hold ⊢
        rw [Function.update_of_ne hb]
        exact hold
    · exact hold
  · trivial

theorem Plugged.not_listener {a : Addr} (h : Plugged w) (ha : a ∉ w.mgr.acceptList)
    (hc : c ∈ w.live) {b : Addr} {sock : ℤ} (hr : c.reporter = .accept b sock) : b ≠ a := by
  have hown := h.owned.owns c hc
  rw [Owns, hr] at hown
  exact fun hb => ha (hb ▸ hown.2.2.1)

theorem plugged_step (h : Plugged w) (hcan : w.Can ev) (hnew : w.Inequivalent ev)
    (hlast : w.FoundLast ev) (hfree : w.Unplugged ev) : Plugged (w.step H ev) := by
  have howned := owned_step (H := H) h.owned hcan hnew hlast
  cases ev with
  | listen a port =>
    refine h.relist howned rfl fun c hc b sock hr => ?_
    exact Function.update_of_ne (h.not_listener hcan.1 hc hr) _ _
  | endListen a => exact h.relist howned rfl fun _ _ _ _ _ => rfl
  | startConnect a => exact h.relist howned rfl fun _ _ _ _ _ => rfl
  | endConnect a => exact h.relist howned rfl fun _ _ _ _ _ => rfl
  | accept a sock ip port =>
    exact h.opening howned (step_accept hcan) (hfree _ rfl)
      (fun c hc => leads_accept h hnew hfree hc) (leads_accepted w a sock ip port)
  | connect a ip port localPort =>
    exact h.opening howned (step_connect hcan) (hfree _ rfl) h.leads trivial
  | recv e data =>
    obtain ⟨c, hc, rfl⟩ := hcan
    have hstep := step_recv (H := H) h.owned.tracked hc data
    split at hstep <;> rw [hstep] at howned ⊢
    · refine ⟨howned, List.pairwise_map.2 h.wires, fun d hd => ?_⟩
      obtain ⟨d₀, hd₀, rfl⟩ := List.mem_map.1 hd
      exact h.leads d₀ hd₀
    · exact ⟨howned, h.wires, h.leads⟩
  | disconnect e =>
    obtain ⟨c, rfl, hcl⟩ := step_disconnect (H := H) h.owned.tracked hcan
    refine ⟨howned, ?_, fun d hd => ?_⟩
    · rw [hcl.live]
      exact h.wires.filter _
    · rw [hcl.live, List.mem_filter, decide_eq_true_eq] at hd
      rw [hcl.accepts]
      exact leads_release h hcl.mem hd.1 fun hdc => hd.2 (by rw [hdc])

end Step

end Network

namespace Wires

open Network

variable {w : Wires} {c : Conn} {data : List Byte}

theorem frame_ne_nil (data : List Byte) : frame H data ≠ [] := by
  intro h
  have hlen := congrArg List.length h
  rw [frame, List.length_append, H.length_writeInt, List.length_nil] at hlen
  omega

/-- A write to a live connection's endpoint by its reporter comes to a `send(2)` on its wire. -/
theorem sends_of_writesTo (h : Plugged w.net) (hc : c ∈ w.net.live) {x : SocketWrite}
    (hto : w.net.WritesTo c (frame H data) x) :
    x.sends w.net.accepts = some (c.reporter.wire, frame H data) := by
  have hleads := h.leads c hc
  unfold WritesTo at hto
  rcases hr : c.reporter with ⟨a, sock⟩ | a <;> rw [hr] at hto hleads <;>
    rcases x with ⟨b, ip, port, bytes⟩ | ⟨b, bytes⟩
  · obtain ⟨rfl, -, he, rfl⟩ := hto
    rw [SocketWrite.sends, SocketAccept.write, if_neg (frame_ne_nil data), he, hleads.1]
    rfl
  · exact hto.elim
  · exact hto.elim
  · obtain ⟨rfl, -, -, rfl⟩ := hto
    rfl

/-- A `Send` to a live connection offers the frame to its wire, and to no other. -/
theorem sends_live (h : Plugged w.net) (hc : c ∈ w.net.live)
    (hlen : (data.length : ℤ) ≤ intMax - 4) :
    w.sends H c.netId data = some [(c.reporter.wire, frame H data)] := by
  obtain ⟨x, hx, hto⟩ := sendRaw_of_owns h.owned.tracked hc (h.owned.owns c hc) (frame H data)
  rw [sends, send, h.owned.tracked.byId c hc, packAndSend_eq hlen]
  dsimp only [Option.map_some]
  rw [hx]
  simp [sends_of_writesTo h hc hto]

/-- A `Send` under an id no live connection has offers nothing. -/
theorem sends_of_not_live (h : Plugged w.net) {netId : NetworkID}
    (hid : netId ∉ w.net.live.map Conn.netId) (hlen : (data.length : ℤ) ≤ intMax - 4) :
    w.sends H netId data = some [] := by
  obtain ⟨ha, hn⟩ := h.owned.unowned netId hid
  have hraw : ∀ bytes, w.net.mgr.sendRaw netId bytes = [] := fun bytes => by
    rw [sendRaw, ha, hn]
    split <;> rfl
  rw [sends, send]
  split
  · rfl
  · rw [packAndSend_eq hlen]
    simp [hraw]

end Wires

end Elegance
