import Elegance.Proofs.Framing
import Elegance.Proofs.Network

/-!
# Outbound routing

The owner entered for an id is the last object in set order that passes `CheckOnHandle`, which
looks at part of the endpoint. So what is sent leaves by the object that reported the connection
exactly as long as that object is the last one to pass (`FoundLast`).
-/

namespace Elegance

open CInt StrictWeakOrd NetworkManager Machine

variable {H : HostLayout} {w w' : Network} {ev : NetworkEvent} {c : Conn}

namespace Network

/-- A write of `data` by the object that reported `c`, towards the endpoint of `c`. -/
def WritesTo (w : Network) (c : Conn) (data : List Byte) (x : SocketWrite) : Prop :=
  match c.reporter, x with
  | .accept a _, .accept b ip port bytes =>
    b = a ∧ a ∈ w.mgr.acceptList ∧ ⟨ip, port, (w.accepts a).localPort⟩ = c.endpoint ∧ bytes = data
  | .connect a, .connect b bytes =>
    b = a ∧ a ∈ w.mgr.connectList ∧ (w.connects a).endpoint = c.endpoint ∧ bytes = data
  | _, _ => False

variable (H) in
/-- `SendRaw` and `Send` to the id of a live connection make one write, on that connection. -/
def Routed (w : Network) : Prop :=
  ∀ c ∈ w.live, ∀ data ≠ [],
    (∃ x, w.mgr.sendRaw c.netId data = [x] ∧ w.WritesTo c data x) ∧
    ((data.length : ℤ) ≤ intMax - 4 → ∃ bytes x, packAndSend H data = some (bytes, bytes.length) ∧
      w.mgr.send H c.netId data = some [x] ∧ w.WritesTo c bytes x)

/-- The object that reports a new connection is the last in set order to pass `CheckOnHandle` for
it, and an object is deleted only after the last connection it reported. -/
def FoundLast (w : Network) : NetworkEvent → Prop
  | .accept a sock ip port => (w.mgr.acceptList.filter
      fun b => (w.acceptsAfter a sock ip port b).checkOnHandle ip port).getLast? = some a
  | .connect a ip port localPort => (w.mgr.connectList.filter
      fun b => (w.connectsAfter a ip port localPort b).checkOnHandle ip port).getLast? = some a
  | .endListen a => ∀ c ∈ w.live, c.reporter.listener ≠ some a
  | .endConnect a => ∀ c ∈ w.live, c.reporter ≠ .connect a
  | _ => True

/-- The object that reported `c` owns its id, alone. -/
def Owns (w : Network) (c : Conn) : Prop :=
  match c.reporter with
  | .accept a _ => w.mgr.netIdToAccept.find c.netId = some a ∧
      w.mgr.netIdToConnect.find c.netId = none ∧ a ∈ w.mgr.acceptList ∧
      (w.accepts a).localPort = c.endpoint.localPort
  | .connect a => w.mgr.netIdToAccept.find c.netId = none ∧
      w.mgr.netIdToConnect.find c.netId = some a ∧ a ∈ w.mgr.connectList ∧
      (w.connects a).endpoint = c.endpoint ∧ (w.connects a).running = true

structure Owned (w : Network) : Prop where
  tracked : Tracked w
  acceptNodup : w.mgr.acceptList.Nodup
  connectNodup : w.mgr.connectList.Nodup
  owns : ∀ c ∈ w.live, w.Owns c
  unowned : ∀ id ∉ w.live.map Conn.netId,
    w.mgr.netIdToAccept.find id = none ∧ w.mgr.netIdToConnect.find id = none

theorem owned_start (handlers : List Addr) (singleThread : Bool) :
    Owned (start handlers singleThread) where
  tracked := tracked_start handlers singleThread
  acceptNodup := .nil
  connectNodup := .nil
  owns c hc := by simp [start] at hc
  unowned _ _ := ⟨rfl, rfl⟩

section Sending

theorem sendRaw_of_owns (h : Tracked w) (hc : c ∈ w.live) (ho : w.Owns c) (data : List Byte) :
    ∃ x, w.mgr.sendRaw c.netId data = [x] ∧ w.WritesTo c data x := by
  have hid := h.byId c hc
  unfold Owns at ho
  rcases hr : c.reporter with ⟨a, sock⟩ | a <;> rw [hr] at ho
  · obtain ⟨ha, hn, hmem, hport⟩ := ho
    refine ⟨.accept a c.endpoint.remoteIpAddr c.endpoint.remotePort data, ?_, ?_⟩
    · simp [sendRaw, hid, ha, hn]
    · simp only [WritesTo, hr]
      exact ⟨trivial, hmem, by rw [hport], trivial⟩
  · obtain ⟨hn, ha, hmem, hep, -⟩ := ho
    refine ⟨.connect a data, ?_, ?_⟩
    · simp [sendRaw, hid, ha, hn]
    · simp only [WritesTo, hr]
      exact ⟨trivial, hmem, hep, trivial⟩

theorem Owned.routed (h : Owned w) : Routed H w := by
  intro c hc data _
  refine ⟨sendRaw_of_owns h.tracked hc (h.owns c hc) data, fun hlen => ?_⟩
  obtain ⟨x, hx, hto⟩ := sendRaw_of_owns h.tracked hc (h.owns c hc) (frame H data)
  refine ⟨frame H data, x, packAndSend_eq hlen, ?_, hto⟩
  rw [send, h.tracked.byId c hc, packAndSend_eq hlen, ← hx]
  rfl

/-- What a routed write needs of the tables. -/
def Enters (m : NetworkManager) (id : NetworkID) : Reporter → Prop
  | .accept a _ => m.netIdToAccept.find id = some a ∧ a ∈ m.acceptList
  | .connect a => m.netIdToConnect.find id = some a ∧ a ∈ m.connectList

theorem Routed.enters (h : Routed H w) (hc : c ∈ w.live) :
    Enters w.mgr c.netId c.reporter := by
  obtain ⟨⟨x, hx, hto⟩, -⟩ := h c hc [0] (by simp)
  have hwriter := writer_of_mem_sendRaw (hx ▸ List.mem_singleton_self x)
  unfold WritesTo at hto
  rcases hr : c.reporter with ⟨a, sock⟩ | a <;> rw [hr] at hto <;>
    rcases x with ⟨b, ip, port, bytes⟩ | ⟨b, bytes⟩
  · obtain ⟨rfl, hmem, -, -⟩ := hto
    exact ⟨hwriter, hmem⟩
  · exact hto.elim
  · exact hto.elim
  · obtain ⟨rfl, hmem, -, -⟩ := hto
    exact ⟨hwriter, hmem⟩

theorem Routed.opened (h : Routed H w') {e : Endpoint} {r : Reporter} (ho : Opening w w' e r) :
    Enters w'.mgr w.mgr.getFreeNetID.1 r := by
  have hmem : { reporter := r, endpoint := e, netId := w.mgr.getFreeNetID.1 } ∈ w'.live := by
    rw [ho.live]
    exact List.mem_append_right _ List.mem_cons_self
  exact h.enters hmem

end Sending

section Step

theorem Owns.mono (ho : w.Owns c)
    (hid : w'.mgr.netIdToAccept.find c.netId = w.mgr.netIdToAccept.find c.netId ∧
      w'.mgr.netIdToConnect.find c.netId = w.mgr.netIdToConnect.find c.netId)
    (hacc : ∀ a sock, c.reporter = .accept a sock → a ∈ w.mgr.acceptList →
      a ∈ w'.mgr.acceptList ∧ (w'.accepts a).localPort = (w.accepts a).localPort)
    (hcon : ∀ a, c.reporter = .connect a → a ∈ w.mgr.connectList →
      (w.connects a).endpoint = c.endpoint → (w.connects a).running = true →
        a ∈ w'.mgr.connectList ∧ w'.connects a = w.connects a) : w'.Owns c := by
  unfold Owns at ho ⊢
  rcases hr : c.reporter with ⟨a, sock⟩ | a <;> rw [hr] at ho
  · obtain ⟨ha, hn, hmem, hport⟩ := ho
    obtain ⟨hmem', hport'⟩ := hacc a sock hr hmem
    exact ⟨hid.1.trans ha, hid.2.trans hn, hmem', hport'.trans hport⟩
  · obtain ⟨hn, ha, hmem, hep, hrun⟩ := ho
    obtain ⟨hmem', hsame⟩ := hcon a hr hmem hep hrun
    exact ⟨hid.1.trans hn, hid.2.trans ha, hmem', by rw [hsame, hep], by rw [hsame, hrun]⟩

/-- Two live connections never share a connector. -/
theorem Owned.connect_ne (h : Owned w) {d : Conn} (hc : c ∈ w.live) (hd : d ∈ w.live)
    (hne : d ≠ c) {a : Addr} (hr : c.reporter = .connect a) : d.reporter ≠ .connect a := by
  intro hrd
  have hoc := h.owns c hc
  have hod := h.owns d hd
  unfold Owns at hoc hod
  rw [hr] at hoc
  rw [hrd] at hod
  exact hne (h.tracked.eq_of_endpoint hd hc (hod.2.2.2.1.symm.trans hoc.2.2.2.1))

theorem owned_listen {a : Addr} {port : Port} (h : Owned w) (hcan : w.Can (.listen a port))
    (ht : Tracked (w.step H (.listen a port))) : Owned (w.step H (.listen a port)) where
  tracked := ht
  acceptNodup := nodup_orderedInsert hcan.1 h.acceptNodup
  connectNodup := h.connectNodup
  owns c hc := by
    refine (h.owns c hc).mono ⟨rfl, rfl⟩ (fun b sock _ hb => ?_) fun b _ hb _ _ => ⟨hb, rfl⟩
    have hba : b ≠ a := fun hba => hcan.1 (hba ▸ hb)
    exact ⟨(List.mem_orderedInsert _).2 (.inr hb), by
      simp only [step, Function.update_of_ne hba]⟩
  unowned := h.unowned

theorem owned_endListen {a : Addr} (h : Owned w) (hlast : w.FoundLast (.endListen a))
    (ht : Tracked (w.step H (.endListen a))) : Owned (w.step H (.endListen a)) where
  tracked := ht
  acceptNodup := h.acceptNodup.erase a
  connectNodup := h.connectNodup
  owns c hc := by
    refine (h.owns c hc).mono ⟨rfl, rfl⟩ (fun b sock hr hb => ?_) fun b _ hb _ _ => ⟨hb, rfl⟩
    have hba : b ≠ a := fun hba => hlast c hc (by rw [hr, hba]; rfl)
    exact ⟨(List.mem_erase_of_ne hba).2 hb, rfl⟩
  unowned := h.unowned

theorem owned_startConnect {a : Addr} (h : Owned w) (hcan : w.Can (.startConnect a))
    (ht : Tracked (w.step H (.startConnect a))) : Owned (w.step H (.startConnect a)) where
  tracked := ht
  acceptNodup := h.acceptNodup
  connectNodup := nodup_orderedInsert hcan.2 h.connectNodup
  owns c hc := by
    refine (h.owns c hc).mono ⟨rfl, rfl⟩ (fun b sock _ hb => ⟨hb, rfl⟩) fun b _ hb _ _ => ?_
    have hba : b ≠ a := fun hba => hcan.2 (hba ▸ hb)
    exact ⟨(List.mem_orderedInsert _).2 (.inr hb), by
      simp only [step, Function.update_of_ne hba]⟩
  unowned := h.unowned

theorem owned_endConnect {a : Addr} (h : Owned w) (hlast : w.FoundLast (.endConnect a))
    (ht : Tracked (w.step H (.endConnect a))) : Owned (w.step H (.endConnect a)) where
  tracked := ht
  acceptNodup := h.acceptNodup
  connectNodup := h.connectNodup.erase a
  owns c hc := by
    refine (h.owns c hc).mono ⟨rfl, rfl⟩ (fun b sock _ hb => ⟨hb, rfl⟩) fun b hr hb _ _ => ?_
    have hba : b ≠ a := fun hba => hlast c hc (hba ▸ hr)
    exact ⟨(List.mem_erase_of_ne hba).2 hb, rfl⟩
  unowned := h.unowned

/-- The new id is one no live connection has. -/
theorem Owned.fresh (h : Owned w) {e : Endpoint} (hcan : w.Can ev) (he : w.opens ev = some e) :
    w.mgr.getFreeNetID.1 ∉ w.live.map Conn.netId :=
  (pool_getFreeNetID (length_lt_of_opens hcan he) h.tracked.pool).2

theorem owned_accept {a : Addr} {sock : ℤ} {ip : IPAddr} {port : Port} (h : Owned w)
    (hcan : w.Can (.accept a sock ip port)) (hlast : w.FoundLast (.accept a sock ip port))
    (ht : Tracked (w.step H (.accept a sock ip port))) :
    Owned (w.step H (.accept a sock ip port)) := by
  have ho := step_accept (H := H) hcan
  have hfresh := h.fresh hcan rfl
  have howner : ∀ k, (w.step H (.accept a sock ip port)).mgr.netIdToAccept.find k =
      if k = w.mgr.getFreeNetID.1 then some a else w.mgr.netIdToAccept.find k := fun k => by
    refine onAccept_owners k |>.1.trans ?_
    rw [hlast, Option.some_or]
  have hother : (w.step H (.accept a sock ip port)).mgr.netIdToConnect = w.mgr.netIdToConnect :=
    (onAccept_owners 0).2
  have hport : ∀ b, ((w.step H (.accept a sock ip port)).accepts b).localPort
      = (w.accepts b).localPort := fun b => by
    by_cases hba : b = a
    · subst hba
      simp [step, acceptsAfter]
    · simp [step, acceptsAfter, hba]
  refine ⟨ht, ?_, ?_, fun c hc => ?_, fun id hid => ?_⟩
  · rw [ho.mgr.acceptList]
    exact h.acceptNodup
  · rw [ho.mgr.connectList]
    exact h.connectNodup
  · rw [ho.live, List.mem_append, List.mem_singleton] at hc
    rcases hc with hc | rfl
    · have hne : c.netId ≠ w.mgr.getFreeNetID.1 := fun hn => hfresh (hn ▸ List.mem_map_of_mem hc)
      refine (h.owns c hc).mono ⟨by rw [howner, if_neg hne], by rw [hother]⟩
        (fun b _ _ hb => ⟨?_, hport b⟩) fun b _ hb _ _ => ⟨?_, rfl⟩
      · rwa [ho.mgr.acceptList]
      · rwa [ho.mgr.connectList]
    · refine ⟨by rw [howner, if_pos rfl], ?_, ?_, hport a⟩
      · rw [hother]
        exact (h.unowned _ hfresh).2
      · rw [ho.mgr.acceptList]
        exact hcan.1
  · rw [ho.live, List.map_append, List.mem_append, not_or] at hid
    rw [howner, if_neg fun hn => hid.2 (by simp [hn]), hother]
    exact h.unowned id hid.1

theorem owned_connect {a : Addr} {ip : IPAddr} {port localPort : Port} (h : Owned w)
    (hcan : w.Can (.connect a ip port localPort))
    (hlast : w.FoundLast (.connect a ip port localPort))
    (ht : Tracked (w.step H (.connect a ip port localPort))) :
    Owned (w.step H (.connect a ip port localPort)) := by
  have ho := step_connect (H := H) hcan
  have hfresh := h.fresh hcan rfl
  have howner : ∀ k, (w.step H (.connect a ip port localPort)).mgr.netIdToConnect.find k =
      if k = w.mgr.getFreeNetID.1 then some a else w.mgr.netIdToConnect.find k := fun k => by
    refine onConnect_owners k |>.1.trans ?_
    rw [hlast, Option.some_or]
  have hother : (w.step H (.connect a ip port localPort)).mgr.netIdToAccept
      = w.mgr.netIdToAccept :=
    (onConnect_owners 0).2
  have hself : (w.step H (.connect a ip port localPort)).connects a
      = (w.connects a).connected ip port localPort := by
    simp [step, connectsAfter]
  refine ⟨ht, ?_, ?_, fun c hc => ?_, fun id hid => ?_⟩
  · rw [ho.mgr.acceptList]
    exact h.acceptNodup
  · rw [ho.mgr.connectList]
    exact h.connectNodup
  · rw [ho.live, List.mem_append, List.mem_singleton] at hc
    rcases hc with hc | rfl
    · have hne : c.netId ≠ w.mgr.getFreeNetID.1 := fun hn => hfresh (hn ▸ List.mem_map_of_mem hc)
      refine (h.owns c hc).mono ⟨by rw [hother], by rw [howner, if_neg hne]⟩
        (fun b _ _ hb => ⟨?_, rfl⟩) fun b _ hb _ hrun => ⟨?_, ?_⟩
      · rwa [ho.mgr.acceptList]
      · rwa [ho.mgr.connectList]
      · have hba : b ≠ a := fun hba => by
          rw [hba, hcan.2.1] at hrun
          cases hrun
        simp [step, connectsAfter, hba]
    · refine ⟨?_, by rw [howner, if_pos rfl], ?_, ?_, ?_⟩
      · rw [hother]
        exact (h.unowned _ hfresh).1
      · rw [ho.mgr.connectList]
        exact hcan.1
      · rw [hself, SocketConnect.connected, hcan.2.1]
        rfl
      · rw [hself, SocketConnect.connected, hcan.2.1]
        rfl
  · rw [ho.live, List.map_append, List.mem_append, not_or] at hid
    rw [howner, if_neg fun hn => hid.2 (by simp [hn]), hother]
    exact h.unowned id hid.1

theorem owned_recv (h : Owned w) (hc : c ∈ w.live) (data : Chunk)
    (ht : Tracked (w.step H (.recv c.endpoint data))) :
    Owned (w.step H (.recv c.endpoint data)) := by
  have hstep := step_recv (H := H) h.tracked hc data
  split at hstep
  · rename_i m' hm'
    rw [hstep] at ht ⊢
    refine ⟨ht, h.acceptNodup, h.connectNodup, fun d hd => ?_, fun id hid => ?_⟩
    · obtain ⟨d₀, hd₀, rfl⟩ := List.mem_map.1 hd
      exact h.owns d₀ hd₀
    · dsimp only at hid
      rw [heard_map _ fun _ _ _ => rfl] at hid
      exact h.unowned id hid
  · rw [hstep] at ht ⊢
    exact ⟨ht, h.acceptNodup, h.connectNodup, h.owns, h.unowned⟩

theorem owned_closing (h : Owned w) (hcl : Closing w w' c) (ht : Tracked w') : Owned w' := by
  have hsub : ∀ d ∈ w'.live, d ∈ w.live ∧ d ≠ c := fun d hd => by
    rw [hcl.live, List.mem_filter, decide_eq_true_eq] at hd
    exact ⟨hd.1, fun hdc => hd.2 (by rw [hdc])⟩
  have hperm := (h.tracked.perm hcl.mem).map Conn.netId
  refine ⟨ht, ?_, ?_, fun d hd => ?_, fun id hid => ?_⟩
  · rw [hcl.mgr.acceptList]
    exact h.acceptNodup
  · rw [hcl.mgr.connectList]
    exact h.connectNodup
  · obtain ⟨hdm, hdc⟩ := hsub d hd
    have hne : d.netId ≠ c.netId := fun hn => hdc (h.tracked.eq_of_netId hdm hcl.mem hn)
    refine (h.owns d hdm).mono ⟨by rw [hcl.mgr.accept, if_neg hne],
      by rw [hcl.mgr.connect, if_neg hne]⟩ (fun b _ _ hb => ⟨?_, ?_⟩) fun b hr hb _ _ => ⟨?_, ?_⟩
    · rwa [hcl.mgr.acceptList]
    · rw [hcl.accepts]
      rcases c.reporter with ⟨a, sock⟩ | a
      · by_cases hba : b = a
        · subst hba
          simp [release]
        · simp [release, hba]
      · rfl
    · rwa [hcl.mgr.connectList]
    · rw [hcl.connects]
      rcases hrc : c.reporter with ⟨a, sock⟩ | a
      · rfl
      · have hba : b ≠ a := fun hba => h.connect_ne hcl.mem hdm hdc hrc (hba ▸ hr)
        simp [release, hba]
  · rw [hcl.mgr.accept, hcl.mgr.connect]
    by_cases hc : id = c.netId
    · rw [if_pos hc, if_pos hc]
      exact ⟨rfl, rfl⟩
    · rw [if_neg hc, if_neg hc]
      refine h.unowned id fun hmem => ?_
      rcases List.mem_cons.1 (hperm.mem_iff.1 hmem) with h' | h'
      · exact hc h'
      · rw [hcl.live] at hid
        exact hid h'

theorem owned_step (h : Owned w) (hcan : w.Can ev) (hnew : w.Inequivalent ev)
    (hlast : w.FoundLast ev) : Owned (w.step H ev) := by
  have ht := tracked_step (H := H) h.tracked hcan hnew
  cases ev with
  | listen a port => exact owned_listen h hcan ht
  | endListen a => exact owned_endListen h hlast ht
  | startConnect a => exact owned_startConnect h hcan ht
  | endConnect a => exact owned_endConnect h hlast ht
  | accept a sock ip port => exact owned_accept h hcan hlast ht
  | connect a ip port localPort => exact owned_connect h hcan hlast ht
  | recv e data =>
    obtain ⟨c, hc, rfl⟩ := hcan
    exact owned_recv h hc data ht
  | disconnect e =>
    obtain ⟨c, rfl, hcl⟩ := step_disconnect (H := H) h.tracked hcan
    exact owned_closing h hcl ht

end Step

section Break

variable {a : Addr}

theorem getLast?_filter_ne {l : List Addr} {p : Addr → Bool} (ha : a ∈ l) (hp : p a = true)
    (h : (l.filter p).getLast? ≠ some a) : ∃ b, b ≠ a ∧ (l.filter p).getLast? = some b := by
  have hmem : a ∈ l.filter p := List.mem_filter.2 ⟨ha, hp⟩
  rcases hl : (l.filter p).getLast? with _ | b
  · rw [List.getLast?_eq_none_iff.1 hl] at hmem
    cases hmem
  · exact ⟨b, fun hba => h (by rw [hl, hba]), rfl⟩

theorem not_routed_accept {sock : ℤ} {ip : IPAddr} {port : Port}
    (hcan : w.Can (.accept a sock ip port)) (hn : ¬ w.FoundLast (.accept a sock ip port)) :
    ¬ Routed H (w.step H (.accept a sock ip port)) := by
  intro hr
  have ho := step_accept (H := H) hcan
  obtain ⟨b, hba, hb⟩ := getLast?_filter_ne hcan.1 (by
    rw [acceptsAfter, Function.update_self]
    exact SocketAccept.checkOnHandle_accepted _ _ _ _) hn
  have hown := hr.opened ho
  have hlast : (w.step H (.accept a sock ip port)).mgr.netIdToAccept.find w.mgr.getFreeNetID.1
      = some b := by
    refine (onAccept_owners _).1.trans ?_
    rw [if_pos rfl, hb, Option.some_or]
  exact hba (Option.some.inj (hlast.symm.trans hown.1))

theorem not_routed_connect {ip : IPAddr} {port localPort : Port}
    (hcan : w.Can (.connect a ip port localPort))
    (hn : ¬ w.FoundLast (.connect a ip port localPort)) :
    ¬ Routed H (w.step H (.connect a ip port localPort)) := by
  intro hr
  have ho := step_connect (H := H) hcan
  obtain ⟨b, hba, hb⟩ := getLast?_filter_ne hcan.1 (by
    rw [connectsAfter, Function.update_self]
    exact SocketConnect.checkOnHandle_connected hcan.2.1 _ _ _) hn
  have hown := hr.opened ho
  have hlast : (w.step H (.connect a ip port localPort)).mgr.netIdToConnect.find
      w.mgr.getFreeNetID.1 = some b := by
    refine (onConnect_owners _).1.trans ?_
    rw [if_pos rfl, hb, Option.some_or]
  exact hba (Option.some.inj (hlast.symm.trans hown.1))

theorem not_routed (h : Owned w) (hcan : w.Can ev) (hn : ¬ w.FoundLast ev) :
    ¬ Routed H (w.step H ev) := by
  cases ev with
  | accept a sock ip port => exact not_routed_accept hcan hn
  | connect a ip port localPort => exact not_routed_connect hcan hn
  | endListen a =>
    simp only [FoundLast, not_forall, not_not] at hn
    obtain ⟨c, hc, hrep⟩ := hn
    intro hr
    have hown := hr.enters hc
    rcases hc' : c.reporter with ⟨b, sock⟩ | b <;> rw [hc'] at hown hrep
    · obtain rfl : b = a := Option.some.inj hrep
      exact h.acceptNodup.not_mem_erase hown.2
    · cases hrep
  | endConnect a =>
    simp only [FoundLast, not_forall, not_not] at hn
    obtain ⟨c, hc, hrep⟩ := hn
    intro hr
    have hown := hr.enters hc
    rw [hrep] at hown
    exact h.connectNodup.not_mem_erase hown.2
  | _ => exact absurd trivial hn

end Break

/-- In a run whose live endpoints `operator <` tells apart, every send leaves by the object that
reported its connection exactly when that object is found last at each opening, and outlives its
connections. -/
theorem routed_iff (H : HostLayout) (handlers : List Addr) (singleThread : Bool)
    (evs : List NetworkEvent)
    (hrun : Along (step H) (fun w ev => w.Can ev ∧ w.Inequivalent ev) (start handlers singleThread)
      evs) :
    (∀ pre, pre <+: evs → Routed H (exec (step H) (start handlers singleThread) pre)) ↔
      Along (step H) FoundLast (start handlers singleThread) evs :=
  along_iff_forall_exec (fun _ h => h.routed) (fun _ _ h hq hp => owned_step h hq.1 hq.2 hp)
    (fun _ _ h hq hn => not_routed h hq.1 hn) (owned_start handlers singleThread) hrun

instance (w : Network) : ∀ ev, Decidable (w.FoundLast ev)
  | .accept _ _ _ _ => inferInstanceAs (Decidable (_ = _))
  | .connect _ _ _ _ => inferInstanceAs (Decidable (_ = _))
  | .endListen _ => inferInstanceAs (Decidable (∀ c ∈ _, _))
  | .endConnect _ => inferInstanceAs (Decidable (∀ c ∈ _, _))
  | .listen _ _ => .isTrue trivial
  | .startConnect _ => .isTrue trivial
  | .recv _ _ => .isTrue trivial
  | .disconnect _ => .isTrue trivial

/-- A client of a listener and a connection to another server. -/
theorem routed_two_objects :
    let evs : List NetworkEvent :=
      [.listen 1 80, .startConnect 2, .accept 1 10 [49, 46, 49, 46, 49, 46, 49] 5000,
        .connect 2 [50, 46, 50, 46, 50, 46, 50] 90 6000]
    ∀ pre, pre <+: evs → Routed littleEndian (exec (step littleEndian) (start [] false) pre) :=
  (routed_iff littleEndian [] false _ (by decide +kernel)).2 (by decide +kernel)

/-- Two connectors to one server: what is sent on the connection of the first leaves by the
second. -/
theorem not_routed_two_connectors : ¬ ∀ (H : HostLayout) (handlers : List Addr)
    (singleThread : Bool) (evs : List NetworkEvent),
    Along (step H) (fun w ev => w.Can ev ∧ w.Inequivalent ev) (start handlers singleThread) evs →
      Routed H (exec (step H) (start handlers singleThread) evs) := by
  intro h
  have hrun := h littleEndian [] false
    [.startConnect 1, .startConnect 2, .connect 2 [50, 46, 50, 46, 50, 46, 50] 90 6000,
      .connect 1 [50, 46, 50, 46, 50, 46, 50] 90 6001] (by decide +kernel)
  obtain ⟨⟨x, hx, hto⟩, -⟩ := hrun
    ⟨.connect 1, ⟨[50, 46, 50, 46, 50, 46, 50], 90, 6001⟩, 2, [], []⟩ (by decide +kernel) [0]
    (by decide)
  have hwrite : x = .connect 2 [0] := by
    have hall : [x] = [SocketWrite.connect 2 [0]] := hx.symm.trans (by decide +kernel)
    exact List.singleton_inj.1 hall
  subst hwrite
  exact absurd hto.1 (by decide)

end Network

end Elegance
