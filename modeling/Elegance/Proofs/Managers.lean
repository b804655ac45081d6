import Elegance.Proofs.Isolation
import Elegance.Proofs.WireOwners

/-!
# From `Send` to `OnRecvPackage`

As long as each process keeps its own steps in order (`Careful`), what `OnRecvPackage` has been
handed at the end that reads a channel is a front part of the messages that were sent at the other,
in order, and all of them once everything is read (`packages_inOrder`).
-/

namespace Elegance

open CInt StrictWeakOrd Machine PartialWrite Network LengthPrefix

variable {H : HostLayout}

section Stream

/-- What comes before in a stream whose headers are in range has them in range. -/
theorem announced_prefix {s t : List Byte} (h : Announced H (s ++ t)) : Announced H s := by
  intro hl
  by_contra hnone
  rw [Option.not_isSome_iff_eq_none] at hnone
  set r := (handedOver H s).2 with hr
  have hnext : (fixHead H).next 5 (r ++ t) = none :=
    next_of_partial hl fun n hn => by
      rw [netPackerFixheadHeaderLength] at hnone
      rw [hnone] at hn
      cases hn
  have hover := handedOver_of_none hnext
  rw [Announced, handedOver_append, ← hr, hover] at h
  have hsome := h (by
    rw [List.length_append]
    exact hl.trans (Nat.le_add_right _ _))
  rw [List.take_append_of_le_length hl, hnone] at hsome
  cases hsome

end Stream

/-- What holds in each process. -/
structure Orderly (H : HostLayout) (w : Wires) : Prop where
  plugged : Plugged w.net
  framed : Framed H w.net
  logged : w.Logged H
  whole : w.Whole H

section Host

variable {w : Wires} {c : Conn}

theorem orderly_start (handlers : List Addr) (singleThread : Bool) :
    Orderly H (.start handlers singleThread) where
  plugged := plugged_start handlers singleThread
  framed := framed_start handlers singleThread
  logged _ := rfl
  whole := ⟨rfl, fun _ => rfl⟩

theorem Orderly.network (h : Orderly H w) {ev : NetworkEvent} (hcan : w.net.Can ev)
    (hnew : w.net.Inequivalent ev) (hlast : w.net.FoundLast ev) (hfree : w.net.Unplugged ev)
    (hann : w.net.Announces H ev) (hclean : w.net.Clean ev) :
    Orderly H (w.step H (.network ev)) where
  plugged := plugged_step h.plugged hcan hnew hlast hfree
  framed := framed_step h.framed hcan hnew hann hclean
  logged := Wires.logged_step h.logged
  whole := Wires.whole_network h.whole ev

theorem Orderly.send (h : Orderly H w) {netId : NetworkID} {data : List Byte}
    {kernel : Wire → Option ℕ} (hall : w.TakesAll H (.send netId data kernel)) :
    Orderly H (w.step H (.send netId data kernel)) where
  plugged := by rw [Wires.net_send]; exact h.plugged
  framed := by rw [Wires.net_send]; exact h.framed
  logged := Wires.logged_step h.logged
  whole := (Wires.whole_send h.logged h.whole).2 hall

/-- The messages a `Send` adds to the wire of a live connection. -/
theorem messages_send (h : Orderly H w) (hc : c ∈ w.net.live) (netId : NetworkID)
    {data : List Byte} (hlen : (data.length : ℤ) ≤ intMax - 4) (kernel : Wire → Option ℕ) :
    (w.step H (.send netId data kernel)).messages c.reporter.wire = w.messages c.reporter.wire ++
      if c.netId = netId ∧ (kernel c.reporter.wire).isSome then [data] else [] := by
  by_cases hlive : netId ∈ w.net.live.map Conn.netId
  · obtain ⟨d, hd, rfl⟩ := List.mem_map.1 hlive
    rw [Wires.step, Wires.sends_live h.plugged hd hlen]
    dsimp only
    congr 1
    by_cases hid : c.netId = d.netId
    · obtain rfl : c = d := h.plugged.owned.tracked.eq_of_netId hc hd hid
      simp [Wires.framesOn]
    · have hwire : d.reporter.wire ≠ c.reporter.wire := fun he =>
        hid (by rw [h.plugged.eq_of_wire hd hc he])
      simp [Wires.framesOn, hwire, hid]
  · have hid : c.netId ≠ netId := fun hid => hlive (hid ▸ List.mem_map_of_mem hc)
    rw [Wires.step, Wires.sends_of_not_live h.plugged hlive hlen]
    simp [Wires.framesOn, hid]

end Host

namespace Managers

variable {ι : Type} {w : Managers ι}

/-- The packer of the reader holds nothing of an earlier connection for one that gets its first
bytes. -/
def CleanFor (hosts : ι → Wires) (data : Chunk) : Reader ι → Prop
  | .reads target endpoint => (hosts target).net.Clean (.recv endpoint data)
  | .waiting | .gone => True

/-- What each process needs of its own steps: endpoints that `operator <` tells apart, objects found
last by the test for the connections they report and deleted after them, `send(2)` that takes all or
fails, and a clean packer. -/
def Careful (H : HostLayout) (w : Managers ι) : ManagersEvent ι → Prop
  | .network i ev => (w.hosts i).net.Inequivalent ev ∧ (w.hosts i).net.FoundLast ev
  | .send i netId data kernel => (w.hosts i).TakesAll H (.send netId data kernel)
  | .join _ _ _ => True
  | .recv k data => ∀ c ∈ w.channels[k]?, CleanFor w.hosts data c.reader

/-- The connection that writes an open channel, and what is on its wire. -/
def Writes (host : Wires) (ch : Channel ι) : Prop :=
  ∃ c ∈ host.net.live, c.endpoint = ch.endpoint ∧ c.netId = ch.netId ∧
    c.reporter.wire = ch.wire ∧ ch.bytes = (host.log ch.wire).taken ∧
    ch.sent = host.messages ch.wire

/-- A live connection on the endpoint has received these bytes. -/
def Heard (host : Wires) (endpoint : Endpoint) (bytes : List Byte) : Prop :=
  ∃ c ∈ host.net.live, c.endpoint = endpoint ∧ c.received = bytes

/-- A channel has the frames of its messages. -/
structure Frames (H : HostLayout) (ch : Channel ι) : Prop where
  bytes : ch.bytes = (ch.sent.map (frame H)).flatten
  length : ∀ msg ∈ ch.sent, (msg.length : ℤ) ≤ intMax - 4
  read : ch.read ≤ ch.bytes.length
  waiting : ch.reader = .waiting → ch.read = 0

structure Linked (H : HostLayout) (w : Managers ι) : Prop where
  orderly : ∀ i, Orderly H (w.hosts i)
  writes : ∀ ch ∈ w.channels, ch.isOpen → Writes (w.hosts ch.source) ch
  frames : ∀ ch ∈ w.channels, Frames H ch
  heard : ∀ ch ∈ w.channels, ∀ i e, ch.reader = .reads i e →
    Heard (w.hosts i) e (ch.bytes.take ch.read)
  apart : w.channels.Pairwise fun c d => ∀ i e, c.reader = .reads i e → d.reader ≠ .reads i e
  unread : ∀ i, ∀ c ∈ (w.hosts i).net.live,
    (∀ ch ∈ w.channels, ch.reader ≠ .reads i c.endpoint) → c.received = []

theorem linked_start (handlers : ι → List Addr) (singleThread : ι → Bool) :
    Linked H (start handlers singleThread) where
  orderly i := orderly_start (handlers i) (singleThread i)
  writes ch hch := by simp [start] at hch
  frames ch hch := by simp [start] at hch
  heard ch hch := by simp [start] at hch
  apart := .nil
  unread i c hc := by simp [start, Wires.start, Network.start] at hc

/-- The wires of connections that stay are left alone. -/
theorem Writes.network {host : Wires} {ch : Channel ι} {ev : NetworkEvent} (h : Writes host ch)
    (hlive : ∀ c ∈ host.net.live, c.endpoint = ch.endpoint →
      c ∈ (host.net.step H ev).live) (hfree : host.net.Unplugged ev) :
    Writes (host.step H (.network ev)) ch := by
  obtain ⟨c, hc, he, hid, hwire, hbytes, hsent⟩ := h
  have hne : ev.opensWire ≠ some ch.wire := fun ho => hfree _ ho c hc hwire
  refine ⟨c, hlive c hc he, he, hid, hwire, ?_, ?_⟩
  · rw [hbytes, Wires.step]
    dsimp only
    rw [if_neg hne]
  · rw [hsent, Wires.step]
    dsimp only
    rw [if_neg hne]

theorem writes_recv {host : Wires} {c : Conn} {ch : Channel ι} {data : Chunk}
    {events : List PackerEvent}
    (hlive : (host.step H (.network (.recv c.endpoint data))).net.live =
      Network.heard host.net.live c.endpoint data.bytes events) (h : Writes host ch) :
    Writes (host.step H (.network (.recv c.endpoint data))) ch := by
  obtain ⟨d, hd, he, hid, hwire, hbytes, hsent⟩ := h
  have hmem : _ ∈ Network.heard host.net.live c.endpoint data.bytes events :=
    List.mem_map_of_mem hd
  rw [← hlive] at hmem
  exact ⟨_, hmem, he, hid, hwire, hbytes, hsent⟩

/-- No process halts and no copy of a frame leaves its buffer; and where a connection reads a channel,
the packages of positive length it was handed are the first ones sent, and all of them once nothing
is left to read. -/
def InOrder (w : Managers ι) : Prop :=
  (∀ i, (w.hosts i).net.halt = none ∧ (w.hosts i).overrun = false) ∧
  ∀ ch ∈ w.channels, ∀ i e, ch.reader = .reads i e →
    ∃ c ∈ (w.hosts i).net.live, c.endpoint = e ∧ positive c.handed <+: nonEmpty ch.sent ∧
      (ch.unread = [] → positive c.handed = nonEmpty ch.sent)

theorem Linked.inOrder (h : Linked H w) : InOrder w := by
  refine ⟨fun i => ⟨(h.orderly i).framed.halt, (h.orderly i).whole.1⟩, fun ch hch i e hr => ?_⟩
  obtain ⟨c, hc, he, hreceived⟩ := h.heard ch hch i e hr
  obtain ⟨hbytes, hlength, hread, -⟩ := h.frames ch hch
  have hhanded : positive c.handed = nonEmpty (handedOver H c.received).1 := by
    rw [(h.orderly i).framed.handed c (List.mem_append_left _ hc), positive_packages]
  have hall := (nonEmpty_frames (H := H) hlength).1
  rw [← hbytes] at hall
  refine ⟨c, hc, he, ?_, fun hnil => ?_⟩
  · rw [hhanded, ← hall, ← List.take_append_drop ch.read ch.bytes, ← hreceived]
    exact nonEmpty_prefix ((fixHead H).decode_fst_mono _ _ _)
  · rw [Channel.unread, List.drop_eq_nil_iff] at hnil
    rw [hhanded, ← hall, hreceived, List.take_of_length_le hnil]

variable [DecidableEq ι]

theorem moved_self (w : Managers ι) (i : ι) (ev : WiresEvent) :
    w.moved H i ev i = (w.hosts i).step H ev := Function.update_self _ _ _

theorem moved_of_ne (w : Managers ι) {i j : ι} (hj : j ≠ i) (ev : WiresEvent) :
    w.moved H i ev j = w.hosts j := Function.update_of_ne hj _ _

/-- A property of every process is checked where one has moved. -/
theorem forall_moved {P : ι → Wires → Prop} {i : ι} (h : ∀ j ≠ i, P j (w.hosts j))
    {ev : WiresEvent} (hi : P i ((w.hosts i).step H ev)) (j : ι) : P j (w.moved H i ev j) := by
  by_cases hj : j = i
  · rw [hj, moved_self]
    exact hi
  · rw [moved_of_ne w hj]
    exact h j hj

section Network

variable {i : ι} {ev : NetworkEvent}

theorem Linked.writes_network (h : Linked H w) (hfree : (w.hosts i).net.Unplugged ev)
    {ch : Channel ι} (hch : ch ∈ w.channels) (hopen : ch.isOpen)
    (hlive : ch.source = i → ∀ c ∈ (w.hosts i).net.live, c.endpoint = ch.endpoint →
      c ∈ ((w.hosts i).net.step H ev).live) :
    Writes (w.moved H i (.network ev) ch.source) ch :=
  forall_moved (P := fun j host => ch.source = j → Writes host ch)
    (fun _ _ hj => hj ▸ h.writes ch hch hopen)
    (fun hi => by
      have hold := h.writes ch hch hopen
      rw [hi] at hold
      exact hold.network (hlive hi) hfree) _ rfl

theorem Linked.heard_network (h : Linked H w) {ch : Channel ι} (hch : ch ∈ w.channels) {j : ι}
    {e : Endpoint} (hr : ch.reader = .reads j e)
    (hlive : j = i → ∀ c ∈ (w.hosts i).net.live, c.endpoint = e →
      c ∈ ((w.hosts i).net.step H ev).live) :
    Heard (w.moved H i (.network ev) j) e (ch.bytes.take ch.read) :=
  forall_moved (P := fun k host => j = k → Heard host e (ch.bytes.take ch.read))
    (fun _ _ hk => hk ▸ h.heard ch hch j e hr)
    (fun hi => by
      obtain ⟨c, hc, he, hrest⟩ := h.heard ch hch j e hr
      exact ⟨c, hlive hi c (hi ▸ hc) he, he, hrest⟩) j rfl

/-- A step of a process that leaves its live connections and the channels. -/
theorem Linked.relist (h : Linked H w)
    (horderly : Orderly H ((w.hosts i).step H (.network ev))) (hfree : (w.hosts i).net.Unplugged ev)
    (hlive : ((w.hosts i).net.step H ev).live = (w.hosts i).net.live) :
    Linked H { w with hosts := w.moved H i (.network ev) } where
  orderly := forall_moved (P := fun _ => Orderly H) (fun j _ => h.orderly j) horderly
  writes _ hch hopen := h.writes_network hfree hch hopen fun _ _ hc _ => hlive ▸ hc
  frames := h.frames
  heard _ hch _ _ hr := h.heard_network hch hr fun _ _ hc _ => hlive ▸ hc
  apart := h.apart
  unread := forall_moved (P := fun j host => ∀ c ∈ host.net.live,
      (∀ ch ∈ w.channels, ch.reader ≠ .reads j c.endpoint) → c.received = [])
    (fun j _ => h.unread j) fun c hc => h.unread i c (hlive ▸ hc)

/-- A new connection writes a new channel, which nobody reads yet. -/
theorem Linked.opening {e : Endpoint} {r : Reporter} (h : Linked H w)
    (horderly : Orderly H ((w.hosts i).step H (.network ev))) (hfree : (w.hosts i).net.Unplugged ev)
    (ho : Opening (w.hosts i).net ((w.hosts i).net.step H ev) e r)
    (hwire : ev.opensWire = some r.wire) :
    Linked H
      { hosts := w.moved H i (.network ev)
        channels := w.channels ++
          [⟨i, e, (w.hosts i).net.mgr.getFreeNetID.1, r.wire, true, [], [], .waiting, 0⟩] } where
  orderly := forall_moved (P := fun _ => Orderly H) (fun j _ => h.orderly j) horderly
  writes ch hch hopen := by
    rcases List.mem_append.1 hch with hch | hch
    · refine h.writes_network hfree hch hopen fun _ c hc _ => ?_
      rw [ho.live]
      exact List.mem_append_left _ hc
    · rw [List.mem_singleton.1 hch]
      dsimp only
      rw [moved_self]
      refine ⟨_, by rw [Wires.step, ho.live]; exact List.mem_append_right _ List.mem_cons_self,
        rfl, rfl, rfl, ?_, ?_⟩ <;>
      · rw [Wires.step]
        dsimp only
        rw [if_pos hwire]
  frames ch hch := by
    rcases List.mem_append.1 hch with hch | hch
    · exact h.frames ch hch
    · rw [List.mem_singleton.1 hch]
      exact ⟨rfl, by simp, le_rfl, fun _ => rfl⟩
  heard ch hch j e' hr := by
    rcases List.mem_append.1 hch with hch | hch
    · refine h.heard_network hch hr fun _ c hc _ => ?_
      rw [ho.live]
      exact List.mem_append_left _ hc
    · rw [List.mem_singleton.1 hch] at hr
      cases hr
  apart := by
    rw [List.pairwise_append]
    refine ⟨h.apart, List.pairwise_singleton _ _, fun c _ d hd j e' _ hr => ?_⟩
    rw [List.mem_singleton.1 hd] at hr
    cases hr
  unread := forall_moved (P := fun j host => ∀ c ∈ host.net.live,
      (∀ ch ∈ w.channels ++ [_], ch.reader ≠ .reads j c.endpoint) → c.received = [])
    (fun j _ c hc hnone => h.unread j c hc fun ch hch => hnone ch (List.mem_append_left _ hch))
    fun c hc hnone => by
      rw [Wires.step, ho.live, List.mem_append, List.mem_singleton] at hc
      rcases hc with hc | rfl
      · exact h.unread i c hc fun ch hch => hnone ch (List.mem_append_left _ hch)
      · rfl

/-- A connection is closed, and what it wrote stays to be read. -/
theorem Linked.closing {c : Conn} (h : Linked H w) {e : Endpoint} (he : c.endpoint = e)
    (horderly : Orderly H ((w.hosts i).step H (.network (.disconnect e))))
    (hcl : Closing (w.hosts i).net ((w.hosts i).net.step H (.disconnect e)) c) :
    Linked H
      { hosts := w.moved H i (.network (.disconnect e))
        channels := w.channels.map (·.disconnect i e) } where
  orderly := forall_moved (P := fun _ => Orderly H) (fun j _ => h.orderly j) horderly
  writes ch' hch' hopen := by
    obtain ⟨ch, hch, rfl⟩ := List.mem_map.1 hch'
    simp only [Channel.disconnect, Bool.and_eq_true, Bool.not_eq_true', Bool.and_eq_false_iff,
      decide_eq_false_iff_not] at hopen
    have hfree : (w.hosts i).net.Unplugged (.disconnect e) := fun _ hwire => by cases hwire
    show Writes (w.moved H i (.network (.disconnect e)) ch.source) ch
    refine h.writes_network hfree hch hopen.1 fun hi d hd hde => ?_
    rw [hcl.live, List.mem_filter, decide_eq_true_eq]
    refine ⟨hd, fun hdc => ?_⟩
    rcases hopen.2 with hne | hne
    · exact hne hi
    · exact hne (by rw [← hde, hdc, he])
  frames ch' hch' := by
    obtain ⟨ch, hch, rfl⟩ := List.mem_map.1 hch'
    obtain ⟨hbytes, hlength, hread, hwaiting⟩ := h.frames ch hch
    refine ⟨hbytes, hlength, hread, fun hr => hwaiting ?_⟩
    simp only [Channel.disconnect] at hr
    split_ifs at hr
    exact hr
  heard ch' hch' j e' hr := by
    obtain ⟨ch, hch, rfl⟩ := List.mem_map.1 hch'
    simp only [Channel.disconnect] at hr
    split_ifs at hr with hgone
    show Heard _ e' (ch.bytes.take ch.read)
    refine h.heard_network hch hr fun hi d hd hde => ?_
    rw [hcl.live, List.mem_filter, decide_eq_true_eq]
    refine ⟨hd, fun hdc => hgone ?_⟩
    rw [hr, hi, ← hde, hdc, he]
  apart := by
    refine List.pairwise_map.2 (h.apart.imp fun {ch ch'} hap j e' hr hr' => ?_)
    simp only [Channel.disconnect] at hr hr'
    split_ifs at hr hr'
    exact hap j e' hr hr'
  unread := forall_moved (P := fun j host => ∀ d ∈ host.net.live,
      (∀ ch ∈ w.channels.map (·.disconnect i e), ch.reader ≠ .reads j d.endpoint) →
        d.received = [])
    (fun j hj d hd hnone => h.unread j d hd fun ch hch hr =>
      hnone _ (List.mem_map_of_mem hch) (by
        rw [Channel.disconnect, hr, if_neg]
        exact fun hgone => hj (Reader.reads.inj hgone).1))
    fun d hd hnone => by
      rw [Wires.step, hcl.live, List.mem_filter, decide_eq_true_eq] at hd
      refine h.unread i d hd.1 fun ch hch hr => hnone _ (List.mem_map_of_mem hch) ?_
      rw [Channel.disconnect, hr, if_neg]
      exact fun hgone => hd.2 ((Reader.reads.inj hgone).2.trans he.symm)

theorem linked_network (h : Linked H w) (hcan : w.Can H (.network i ev))
    (hcareful : w.Careful H (.network i ev)) : Linked H (w.step H (.network i ev)) := by
  obtain ⟨hreceives, hcan, hfree⟩ := hcan
  have horderly : Orderly H ((w.hosts i).step H (.network ev)) := by
    refine (h.orderly i).network hcan hcareful.1 hcareful.2 hfree ?_ ?_ <;>
    · cases ev with
      | recv e data => exact absurd trivial hreceives
      | _ => trivial
  cases ev with
  | accept a sock ip port => exact h.opening horderly hfree (step_accept hcan) rfl
  | connect a ip port localPort => exact h.opening horderly hfree (step_connect hcan) rfl
  | recv e data => exact absurd trivial hreceives
  | disconnect e =>
    obtain ⟨c, he, hcl⟩ := step_disconnect (H := H) (h.orderly i).plugged.owned.tracked hcan
    simpa [step, opened, NetworkEvent.opensWire] using h.closing he horderly hcl
  | listen a port => simpa [step, opened, NetworkEvent.opensWire] using h.relist horderly hfree rfl
  | endListen a => simpa [step, opened, NetworkEvent.opensWire] using h.relist horderly hfree rfl
  | startConnect a => simpa [step, opened, NetworkEvent.opensWire] using h.relist horderly hfree rfl
  | endConnect a => simpa [step, opened, NetworkEvent.opensWire] using h.relist horderly hfree rfl

end Network

section Send

variable {i : ι} {netId : NetworkID} {data : List Byte} {kernel : Wire → Option ℕ}

theorem taken_eq {host : Wires} (h : Orderly H host) {wire : Wire}
    (hlen : ∀ msg ∈ host.messages wire, (msg.length : ℤ) ≤ intMax - 4) :
    (host.log wire).taken = ((host.messages wire).map (frame H)).flatten := by
  have hframes : (host.messages wire).map (Wires.frameOf H) =
      (host.messages wire).map (frame H) := List.map_congr_left fun msg hmsg => by
    rw [Wires.frameOf, packAndSend_eq (hlen msg hmsg)]
    rfl
  rw [h.whole.2, List.flatMap_def, hframes]

/-- A `Send` adds the frames of what it sent to a channel. -/
theorem channel_send (h : Linked H w) (hlen : (data.length : ℤ) ≤ intMax - 4)
    (horderly : Orderly H ((w.hosts i).step H (.send netId data kernel)))
    {ch : Channel ι} (hch : ch ∈ w.channels) :
    ∃ msgs, (∀ msg ∈ msgs, (msg.length : ℤ) ≤ intMax - 4) ∧
      ch.send i ((w.hosts i).step H (.send netId data kernel)) netId data kernel = { ch with
        bytes := ch.bytes ++ (msgs.map (frame H)).flatten
        sent := ch.sent ++ msgs } ∧
      (ch.source = i → ch.isOpen → Writes ((w.hosts i).step H (.send netId data kernel))
        (ch.send i ((w.hosts i).step H (.send netId data kernel)) netId data kernel)) := by
  by_cases hopen : ch.source = i ∧ ch.isOpen
  · obtain ⟨hi, hopen⟩ := hopen
    have hwrites := h.writes ch hch hopen
    rw [hi] at hwrites
    obtain ⟨c, hc, he, hid, hwire, hbytes, hsent⟩ := hwrites
    have hmessages := messages_send (h.orderly i) hc netId hlen kernel
    rw [hwire, ← hsent, hid] at hmessages
    obtain ⟨msgs, hsplit⟩ : ∃ msgs : List (List Byte),
        msgs = if ch.netId = netId ∧ (kernel ch.wire).isSome then [data] else [] := ⟨_, rfl⟩
    rw [← hsplit] at hmessages
    have hmsgs : ∀ msg ∈ msgs, (msg.length : ℤ) ≤ intMax - 4 := fun msg hmsg => by
      have hmem : msg = data := by
        rw [hsplit] at hmsg
        split_ifs at hmsg
        · exact List.mem_singleton.1 hmsg
        · cases hmsg
      rwa [hmem]
    have hnew : (((w.hosts i).step H (.send netId data kernel)).log ch.wire).taken =
        ch.bytes ++ (msgs.map (frame H)).flatten := by
      have htaken := taken_eq horderly (by
        rw [hmessages]
        intro msg hmsg
        rcases List.mem_append.1 hmsg with hmsg | hmsg
        · exact (h.frames ch hch).length msg hmsg
        · exact hmsgs msg hmsg)
      rw [hmessages, List.map_append, List.flatten_append, ← (h.frames ch hch).bytes]
        at htaken
      exact htaken
    have hsend : ch.send i ((w.hosts i).step H (.send netId data kernel)) netId data kernel =
        { ch with
          bytes := ch.bytes ++ (msgs.map (frame H)).flatten
          sent := ch.sent ++ msgs } := by
      rw [Channel.send, if_pos ⟨hi, hopen⟩, hnew, ← hsplit]
    refine ⟨msgs, hmsgs, hsend, fun _ _ => ?_⟩
    rw [hsend]
    exact ⟨c, by rwa [Wires.net_send], he, hid, hwire, hnew.symm, hmessages.symm⟩
  · refine ⟨[], by simp, ?_, fun hi ho => absurd ⟨hi, ho⟩ hopen⟩
    rw [Channel.send, if_neg hopen]
    simp

theorem linked_send (h : Linked H w) (hcan : w.Can H (.send i netId data kernel))
    (hcareful : w.Careful H (.send i netId data kernel)) :
    Linked H (w.step H (.send i netId data kernel)) := by
  have hlen : (data.length : ℤ) ≤ intMax - 4 := hcan.2
  have horderly := (h.orderly i).send hcareful
  have hsend : ∀ ch ∈ w.channels, _ := fun ch hch => channel_send h hlen horderly hch
  simp only [step, moved_self]
  have hback : ∀ (ch : Channel ι) (hch : ch ∈ w.channels),
      (ch.send i ((w.hosts i).step H (.send netId data kernel)) netId data kernel).reader =
        ch.reader := fun ch hch => by
    obtain ⟨msgs, -, heq, -⟩ := hsend ch hch
    rw [heq]
  refine ⟨forall_moved (P := fun _ => Orderly H) (fun j _ => h.orderly j) horderly,
    fun ch' hch' hopen => ?_, fun ch' hch' => ?_, fun ch' hch' j e hr => ?_, ?_,
    fun j c hc hnone => ?_⟩
  · obtain ⟨ch, hch, rfl⟩ := List.mem_map.1 hch'
    obtain ⟨msgs, -, heq, hwrites⟩ := hsend ch hch
    by_cases hi : ch.source = i
    · have hsource : (ch.send i ((w.hosts i).step H (.send netId data kernel)) netId data
          kernel).source = i := by
        rw [heq, hi]
      rw [heq] at hopen
      rw [hsource]
      show Writes (w.moved H i (.send netId data kernel) i) _
      rw [moved_self]
      exact hwrites hi hopen
    · have hsame : ch.send i ((w.hosts i).step H (.send netId data kernel)) netId data kernel =
          ch := by
        rw [Channel.send, if_neg fun hs => hi hs.1]
      rw [hsame] at hopen ⊢
      have hold := h.writes ch hch hopen
      rw [← moved_of_ne w hi] at hold
      exact hold
  · obtain ⟨ch, hch, rfl⟩ := List.mem_map.1 hch'
    obtain ⟨msgs, hmsgs, heq, -⟩ := hsend ch hch
    obtain ⟨hbytes, hlength, hread, hwaiting⟩ := h.frames ch hch
    rw [heq]
    refine ⟨?_, fun msg hmsg => ?_, ?_, hwaiting⟩
    · dsimp only
      rw [List.map_append, List.flatten_append, ← hbytes]
    · rcases List.mem_append.1 hmsg with hmsg | hmsg
      · exact hlength msg hmsg
      · exact hmsgs msg hmsg
    · dsimp only
      rw [List.length_append]
      exact hread.trans (Nat.le_add_right _ _)
  · obtain ⟨ch, hch, rfl⟩ := List.mem_map.1 hch'
    obtain ⟨msgs, -, heq, -⟩ := hsend ch hch
    rw [hback ch hch] at hr
    rw [heq]
    dsimp only
    rw [List.take_append_of_le_length (h.frames ch hch).read]
    refine forall_moved (P := fun k host => j = k → Heard host e (ch.bytes.take ch.read))
      (fun _ _ hk => hk ▸ h.heard ch hch j e hr) (fun hi => ?_) j rfl
    unfold Heard
    rw [Wires.net_send, ← hi]
    exact h.heard ch hch j e hr
  · refine List.pairwise_map.2 (h.apart.imp_of_mem fun {ch ch'} hch hch' hap j e hr hr' => ?_)
    rw [hback ch hch] at hr
    rw [hback ch' hch'] at hr'
    exact hap j e hr hr'
  · refine forall_moved (P := fun j host => ∀ c ∈ host.net.live,
      (∀ ch ∈ w.channels, ch.reader ≠ .reads j c.endpoint) → c.received = [])
      (fun j _ => h.unread j) (by rw [Wires.net_send]; exact h.unread i) j c hc fun ch hch hr => ?_
    exact hnone _ (List.mem_map_of_mem hch) ((hback ch hch).trans hr)

end Send

theorem split_modify {α : Type*} {l : List α} {k : ℕ} {a : α} (h : l[k]? = some a) (f : α → α) :
    ∃ pre post, l = pre ++ a :: post ∧ l.modify k f = pre ++ f a :: post := by
  obtain ⟨hk, -⟩ := List.getElem?_eq_some_iff.1 h
  obtain ⟨pre, b, post, hl, hlen, hmodify⟩ := List.exists_of_modify f hk
  have hb : b = a := by
    rw [hl, ← hlen, List.getElem?_append_right le_rfl, Nat.sub_self, List.getElem?_cons_zero,
      Option.some.injEq] at h
    exact h
  rw [hb] at hl hmodify
  exact ⟨pre, post, hl, hmodify⟩

section Join

variable {k : ℕ} {target : ι} {endpoint : Endpoint}

theorem linked_join (h : Linked H w) (hcan : w.Can H (.join k target endpoint)) :
    Linked H (w.step H (.join k target endpoint)) := by
  obtain ⟨⟨ch, hk, hwaiting⟩, ⟨c, hc, he⟩, hfree⟩ := hcan
  obtain ⟨pre, post, hl, hmodify⟩ := split_modify hk
    fun ch => { ch with reader := .reads target endpoint }
  have hmem : ∀ x, x ∈ w.channels ↔ x ∈ pre ∨ x = ch ∨ x ∈ post := fun x => by
    rw [hl, List.mem_append, List.mem_cons]
  have hch : ch ∈ w.channels := (hmem ch).2 (.inr (.inl rfl))
  have hback : ∀ x ∈ w.channels.modify k fun ch => { ch with reader := .reads target endpoint },
      x ∈ w.channels ∨ x = { ch with reader := .reads target endpoint } := fun x hx => by
    rw [hmodify, List.mem_append, List.mem_cons] at hx
    rw [hmem]
    tauto
  refine ⟨h.orderly, fun x hx hopen => ?_, fun x hx => ?_, fun x hx i e hr => ?_, ?_,
    fun i d hd hnone => h.unread i d hd fun x hx => ?_⟩
  · rcases hback x hx with hx | rfl
    · exact h.writes x hx hopen
    · exact h.writes ch hch hopen
  · rcases hback x hx with hx | rfl
    · exact h.frames x hx
    · obtain ⟨hbytes, hlength, hread, -⟩ := h.frames ch hch
      exact ⟨hbytes, hlength, hread, fun hr => by cases hr⟩
  · rcases hback x hx with hx | rfl
    · exact h.heard x hx i e hr
    · obtain ⟨rfl, rfl⟩ := Reader.reads.inj hr
      refine ⟨c, hc, he, ?_⟩
      rw [(h.frames ch hch).waiting hwaiting, List.take_zero]
      exact h.unread target c hc (he ▸ hfree)
  · have hap := h.apart
    rw [hl, List.pairwise_append, List.pairwise_cons] at hap
    obtain ⟨hpre, ⟨-, hpost⟩, hacross⟩ := hap
    simp only [step]
    rw [hmodify, List.pairwise_append, List.pairwise_cons]
    refine ⟨hpre, ⟨fun x hx i e hr => ?_, hpost⟩, fun x hx y hy i e hr => ?_⟩
    · obtain ⟨rfl, rfl⟩ := Reader.reads.inj hr
      exact hfree x ((hmem x).2 (.inr (.inr hx)))
    · rcases List.mem_cons.1 hy with rfl | hy
      · intro hr'
        obtain ⟨rfl, rfl⟩ := Reader.reads.inj hr'
        exact hfree x ((hmem x).2 (.inl hx)) hr
      · exact hacross x hx y (List.mem_cons_of_mem _ hy) i e hr
  · rcases (hmem x).1 hx with hx | rfl | hx
    · exact hnone x (by rw [step, hmodify]; exact List.mem_append_left _ hx)
    · rw [hwaiting]
      exact fun hr => by cases hr
    · exact hnone x (by
        rw [step, hmodify]
        exact List.mem_append_right _ (List.mem_cons_of_mem _ hx))

end Join

section Recv

variable {k : ℕ} {data : Chunk}

/-- Data for a live connection reaches it, and no other. -/
theorem live_recv {host : Wires} {c : Conn} (h : Orderly H host) (hc : c ∈ host.net.live)
    (horderly : Orderly H (host.step H (.network (.recv c.endpoint data)))) :
    ∃ events, (host.step H (.network (.recv c.endpoint data))).net.live =
      Network.heard host.net.live c.endpoint data.bytes events := by
  have hstep := step_recv (H := H) h.plugged.owned.tracked hc data
  have hhalt : (host.net.step H (.recv c.endpoint data)).halt = none := horderly.framed.halt
  split at hstep
  · exact ⟨_, congrArg Network.live hstep⟩
  · rw [hstep] at hhalt
    cases hhalt

/-- A connection on another endpoint has not received anything. -/
theorem heard_recv {host : Wires} {c : Conn} {e : Endpoint} {bytes : List Byte}
    (hne : e ≠ c.endpoint) {events : List PackerEvent}
    (hlive : (host.step H (.network (.recv c.endpoint data))).net.live =
      Network.heard host.net.live c.endpoint data.bytes events) (h : Heard host e bytes) :
    Heard (host.step H (.network (.recv c.endpoint data))) e bytes := by
  obtain ⟨d, hd, rfl, hreceived⟩ := h
  have hmem : _ ∈ Network.heard host.net.live c.endpoint data.bytes events :=
    List.mem_map_of_mem hd
  rw [← hlive] at hmem
  refine ⟨_, hmem, rfl, ?_⟩
  dsimp only
  rw [if_neg hne, hreceived]

theorem linked_recv (h : Linked H w) (hcan : w.Can H (.recv k data))
    (hcareful : w.Careful H (.recv k data)) : Linked H (w.step H (.recv k data)) := by
  obtain ⟨ch, hk, hreading, hnext⟩ := hcan
  rw [Option.mem_def] at hk
  obtain ⟨i, e, hr⟩ : ∃ i e, ch.reader = .reads i e := by
    rcases hreader : ch.reader with _ | ⟨i, e⟩ | _
    · simp [hreader, Reader.isReading] at hreading
    · exact ⟨i, e, rfl⟩
    · simp [hreader, Reader.isReading] at hreading
  have hclean := hcareful ch hk
  rw [hr, CleanFor] at hclean
  obtain ⟨pre, post, hl, hmodify⟩ := split_modify hk
    fun ch => { ch with read := ch.read + data.bytes.length }
  have hmem : ∀ x, x ∈ w.channels ↔ x ∈ pre ∨ x = ch ∨ x ∈ post := fun x => by
    rw [hl, List.mem_append, List.mem_cons]
  have hch : ch ∈ w.channels := (hmem ch).2 (.inr (.inl rfl))
  obtain ⟨hbytes, hlength, hread, hwaiting⟩ := h.frames ch hch
  obtain ⟨c, hc, rfl, hreceived⟩ := h.heard ch hch i e hr
  -- what is received continues the front part of the channel that was read
  have hrest : ch.bytes.take (ch.read + data.bytes.length) = c.received ++ data.bytes := by
    rw [List.take_add, hreceived]
    congr 1
    obtain ⟨rest, hrest⟩ := hnext
    rw [← Channel.unread, ← hrest, List.take_left' rfl]
  have hann : (w.hosts i).net.Announces H (.recv c.endpoint data) := fun d hd hde => by
    rw [(h.orderly i).framed.tracked.eq_of_endpoint hd hc hde, ← hrest]
    refine announced_prefix (t := ch.bytes.drop (ch.read + data.bytes.length)) ?_
    rw [List.take_append_drop, hbytes]
    exact (nonEmpty_frames hlength).2
  have hcan : (w.hosts i).net.Can (.recv c.endpoint data) := ⟨c, hc, rfl⟩
  have horderly := (h.orderly i).network hcan (fun _ he => by cases he) trivial
    (fun _ he => by cases he) hann hclean
  obtain ⟨events, hlive⟩ := live_recv (h.orderly i) hc horderly
  have hstep : w.step H (.recv k data) =
      { hosts := w.moved H i (.network (.recv c.endpoint data))
        channels := w.channels.modify k fun ch =>
          { ch with read := ch.read + data.bytes.length } } := by
    simp only [step, hk, Option.map_some, hr]
  have hap := h.apart
  rw [hl, List.pairwise_append, List.pairwise_cons] at hap
  obtain ⟨hpre, ⟨hfirst, hpost⟩, hacross⟩ := hap
  have hother : ∀ x, x ∈ pre ∨ x ∈ post → x.reader ≠ .reads i c.endpoint := fun x hx hrx => by
    rcases hx with hx | hx
    · exact hacross x hx ch List.mem_cons_self i _ hrx hr
    · exact hfirst x hx i _ hr hrx
  have hback : ∀ x ∈ w.channels.modify k fun ch => { ch with read := ch.read + data.bytes.length },
      x ∈ w.channels ∧ x.reader ≠ .reads i c.endpoint ∨
        x = { ch with read := ch.read + data.bytes.length } := fun x hx => by
    rw [hmodify, List.mem_append, List.mem_cons] at hx
    rcases hx with hx | hx | hx
    · exact .inl ⟨(hmem x).2 (.inl hx), hother x (.inl hx)⟩
    · exact .inr hx
    · exact .inl ⟨(hmem x).2 (.inr (.inr hx)), hother x (.inr hx)⟩
  rw [hstep]
  refine ⟨forall_moved (P := fun _ => Orderly H) (fun j _ => h.orderly j) horderly,
    fun x hx hopen => ?_, fun x hx => ?_, fun x hx j e hrx => ?_, ?_, fun j d hd hnone => ?_⟩
  · refine forall_moved (P := fun j host => x.source = j → Writes host x) (fun j _ hj => ?_)
      (fun hj => writes_recv hlive ?_) x.source rfl <;>
    · rcases hback x hx with ⟨hx, -⟩ | rfl
      · exact hj ▸ h.writes x hx hopen
      · exact hj ▸ h.writes ch hch hopen
  · rcases hback x hx with ⟨hx, -⟩ | rfl
    · exact h.frames x hx
    · refine ⟨hbytes, hlength, ?_, fun hw => by rw [hr] at hw; cases hw⟩
      have hle := hnext.length_le
      rw [Channel.unread, List.length_drop] at hle
      dsimp only
      omega
  · rcases hback x hx with ⟨hx, hne⟩ | rfl
    · refine forall_moved (P := fun k host => j = k → Heard host e (x.bytes.take x.read))
        (fun _ _ hj => hj ▸ h.heard x hx j e hrx) (fun hj => ?_) j rfl
      refine heard_recv (fun he => hne ?_) hlive (hj ▸ h.heard x hx j e hrx)
      rw [hrx, hj, he]
    · obtain ⟨rfl, rfl⟩ := Reader.reads.inj (hrx.symm.trans hr)
      show Heard (w.moved H j _ j) _ _
      rw [moved_self]
      have hmem' : _ ∈ Network.heard (w.hosts j).net.live c.endpoint data.bytes events :=
        List.mem_map_of_mem hc
      rw [← hlive] at hmem'
      refine ⟨_, hmem', rfl, ?_⟩
      dsimp only
      rw [if_pos rfl, hrest]
  · dsimp only
    rw [hmodify, List.pairwise_append, List.pairwise_cons]
    refine ⟨hpre, ⟨hfirst, hpost⟩, fun x hx y hy => ?_⟩
    rcases List.mem_cons.1 hy with rfl | hy
    · exact hacross x hx ch List.mem_cons_self
    · exact hacross x hx y (List.mem_cons_of_mem _ hy)
  · have hkeep : ∀ x ∈ w.channels, ∃ x' ∈ w.channels.modify k fun ch =>
        { ch with read := ch.read + data.bytes.length }, x'.reader = x.reader := fun x hx => by
      rw [hmodify]
      rcases (hmem x).1 hx with hx | rfl | hx
      · exact ⟨x, List.mem_append_left _ hx, rfl⟩
      · exact ⟨_, List.mem_append_right _ List.mem_cons_self, rfl⟩
      · exact ⟨x, List.mem_append_right _ (List.mem_cons_of_mem _ hx), rfl⟩
    have hnone' : ∀ x ∈ w.channels, x.reader ≠ .reads j d.endpoint := fun x hx hrx => by
      obtain ⟨x', hx', hsame⟩ := hkeep x hx
      exact hnone x' hx' (hsame.trans hrx)
    refine forall_moved (P := fun j host => ∀ d ∈ host.net.live,
      (∀ ch ∈ w.channels, ch.reader ≠ .reads j d.endpoint) → d.received = [])
      (fun j _ => h.unread j) (fun d hd hnone => ?_) j d hd hnone'
    rw [hlive] at hd
    obtain ⟨d, hlived, rfl⟩ := List.mem_map.1 hd
    have hne : d.endpoint ≠ c.endpoint := fun he => hnone ch hch (by rw [hr, ← he])
    dsimp only
    rw [if_neg hne]
    exact h.unread i d hlived hnone

end Recv

theorem linked_step {ev : ManagersEvent ι} (h : Linked H w) (hcan : w.Can H ev)
    (hcareful : w.Careful H ev) : Linked H (w.step H ev) := by
  cases ev with
  | network i ev => exact linked_network h hcan hcareful
  | send i netId data kernel => exact linked_send h hcan hcareful
  | join k target endpoint => exact linked_join h hcan
  | recv k data => exact linked_recv h hcan hcareful

instance (hosts : ι → Wires) (data : Chunk) : ∀ reader, Decidable (CleanFor hosts data reader)
  | .reads target endpoint =>
    inferInstanceAs (Decidable ((hosts target).net.Clean (.recv endpoint data)))
  | .waiting | .gone => .isTrue trivial

instance (w : Managers ι) : ∀ ev, Decidable (w.Careful H ev)
  | .network _ _ => inferInstanceAs (Decidable (_ ∧ _))
  | .send i netId data kernel =>
    inferInstanceAs (Decidable ((w.hosts i).TakesAll H (.send netId data kernel)))
  | .join _ _ _ => .isTrue trivial
  | .recv _ _ => inferInstanceAs (Decidable (∀ c ∈ _, _))

end Managers

end Elegance
