import Elegance.Proofs.Framing
import Elegance.Proofs.Network

/-!
# Isolation of connections

The packer's entry for an id outlives the connection it was made for. As long as each connection
that receives data finds no part of an earlier one's package there, what is handed over under its
id is its own stream, decoded.
-/

namespace Elegance

open CInt StrictWeakOrd LengthPrefix NetworkManager Machine

variable {H : HostLayout} {w w' : Network} {ev : NetworkEvent} {c : Conn}

section Awaited

/-- Only a header at the very end of the stream is decoded and not handed over. -/
theorem next_eager {s : List Byte} (h : (fixHead H).next 5 s = none) :
    (fixHead H).next 4 s = none ∨ (fixHead H).next 4 s = some ([], []) := by
  rcases hn : (fixHead H).next 4 s with _ | ⟨b, r⟩
  · exact .inl rfl
  · obtain ⟨hlen, -, hs, hh⟩ := (fixHead H).next_some hn
    have h5 : ¬ 5 ≤ s.length := fun h5 => by
      rw [(fixHead H).next_wait h5 hlen, hn] at h
      cases h
    have hsum := congrArg List.length hs
    rw [List.length_append, List.length_append, hh, show (fixHead H).head = 4 from rfl] at hsum
    right
    rw [List.length_eq_zero_iff.1 (show b.length = 0 by omega),
      List.length_eq_zero_iff.1 (show r.length = 0 by omega)]

/-- The packages in a stream are those handed over and the one awaited. -/
theorem decodeStream_eq (s : List Byte) :
    (decodeStream H s).1 = (handedOver H s).1 ++ awaited H s := by
  induction s using (fixHead H).decode_induct 5 with
  | stop s h =>
    simp only [awaited, handedOver_of_none h, List.nil_append, decodeStream,
      netPackerFixheadHeaderLength]
    rcases next_eager h with hn | hn
    · rw [(fixHead H).decode_of_none hn, if_pos hn]
    · have hnil : (fixHead H).next 4 [] = none := by simp [Format.next]
      rw [(fixHead H).decode_of_some hn, (fixHead H).decode_of_none hnil, if_neg (by simp [hn])]
  | step s b r h ih =>
    have hlen := ((fixHead H).next_some h).1
    have h4 : (fixHead H).next 4 s = some (b, r) := by
      rw [(fixHead H).next_wait (by omega) hlen, h]
    have ih' : ((fixHead H).decode 4 r).1 = (handedOver H r).1 ++ awaited H r := ih
    have haw : awaited H s = awaited H r := by
      simp only [awaited, handedOver_of_some h]
    rw [haw, handedOver_of_some h, List.cons_append, ← ih']
    exact congrArg Prod.fst ((fixHead H).decode_of_some h4)

end Awaited

namespace Network

variable (H) in
/-- The lengths announced on the connection lie in `0..INT_MAX-4`. -/
def Announces (w : Network) : NetworkEvent → Prop
  | .recv endpoint data => ∀ c ∈ w.live, c.endpoint = endpoint →
      Announced H (c.received ++ data.bytes)
  | _ => True

/-- The packer holds no byte of an earlier connection for one that receives its first data. -/
def Clean (w : Network) : NetworkEvent → Prop
  | .recv endpoint _ => ∀ c ∈ w.live, c.endpoint = endpoint → c.received = [] →
      ∀ b ∈ w.mgr.netIdToBufferMap.find c.netId, b.curReadSize = 0
  | _ => True

instance (w : Network) : ∀ ev, Decidable (w.Announces H ev)
  | .recv _ _ => inferInstanceAs (Decidable (∀ c ∈ _, _ → _))
  | .listen _ _ | .endListen _ | .startConnect _ | .endConnect _ | .accept _ _ _ _
  | .connect _ _ _ _ | .disconnect _ => .isTrue trivial

instance (w : Network) : ∀ ev, Decidable (w.Clean ev)
  | .recv _ _ => inferInstanceAs (Decidable (∀ c ∈ _, _ → _ → ∀ b ∈ _, _))
  | .listen _ _ | .endListen _ | .startConnect _ | .endConnect _ | .accept _ _ _ _
  | .connect _ _ _ _ | .disconnect _ => .isTrue trivial

variable (H) in
/-- The packer holds what decoding leaves of each live connection that received data. -/
structure Framed (w : Network) : Prop where
  tracked : Tracked w
  halt : w.halt = none
  holds : ∀ id, ∃ p cap, Holds H w.mgr.netIdToBufferMap id p cap
  live : ∀ c ∈ w.live, c.received ≠ [] →
    ∃ cap, Holds H w.mgr.netIdToBufferMap c.netId (handedOver H c.received).2 cap
  handed : ∀ c ∈ w.live ++ w.closed, c.handed = packages H c.received

theorem packages_nil : packages H [] = [] := by
  rw [packages, handedOver_of_none (next_of_length_le (by simp))]
  rfl

theorem framed_start (handlers : List Addr) (singleThread : Bool) :
    Framed H (start handlers singleThread) where
  tracked := tracked_start handlers singleThread
  halt := rfl
  holds _ := ⟨[], 4, .inl ⟨rfl, rfl, rfl⟩⟩
  live c hc := by simp [start] at hc
  handed c hc := by simp [start] at hc

theorem framed_opening {e : Endpoint} {r : Reporter} (h : Framed H w) (ho : Opening w w' e r)
    (ht : Tracked w') : Framed H w' where
  tracked := ht
  halt := ho.halt.trans h.halt
  holds := by
    rw [ho.mgr.buffers]
    exact h.holds
  live c hc hne := by
    rw [ho.live, List.mem_append, List.mem_singleton] at hc
    rw [ho.mgr.buffers]
    rcases hc with hc | rfl
    · exact h.live c hc hne
    · exact absurd rfl hne
  handed c hc := by
    rw [ho.live, ho.closed, List.append_assoc, List.mem_append, List.cons_append,
      List.mem_cons] at hc
    rcases hc with hc | rfl | hc
    · exact h.handed c (List.mem_append_left _ hc)
    · exact packages_nil.symm
    · exact h.handed c (List.mem_append_right _ hc)

theorem framed_closing (h : Framed H w) (hcl : Closing w w' c) (ht : Tracked w') :
    Framed H w' where
  tracked := ht
  halt := hcl.halt.trans h.halt
  holds := by
    rw [hcl.mgr.buffers]
    exact h.holds
  live d hd hne := by
    rw [hcl.live, List.mem_filter] at hd
    rw [hcl.mgr.buffers]
    exact h.live d hd.1 hne
  handed d hd := by
    rw [hcl.live, hcl.closed, List.mem_append, List.mem_append, List.mem_singleton,
      List.mem_filter] at hd
    rcases hd with hd | hd | rfl
    · exact h.handed d (List.mem_append_left _ hd.1)
    · exact h.handed d (List.mem_append_right _ hd)
    · exact h.handed d (List.mem_append_left _ hcl.mem)

/-- What the packer holds for a connection about to receive data. -/
theorem Framed.held (h : Framed H w) (hc : c ∈ w.live) {data : Chunk}
    (hclean : w.Clean (.recv c.endpoint data)) :
    ∃ cap, Holds H w.mgr.netIdToBufferMap c.netId (handedOver H c.received).2 cap := by
  by_cases hne : c.received = []
  · obtain ⟨p, cap, hp⟩ := h.holds c.netId
    have hnil : p = [] := by
      rcases hp with ⟨-, rfl, -⟩ | ⟨b, hb, hrep⟩
      · rfl
      · have hread := hclean c hc rfl hne b hb
        rw [hrep.read] at hread
        exact List.length_eq_zero_iff.1 (by omega)
    rw [hne, handedOver_of_none (next_of_length_le (by simp))]
    exact ⟨cap, hnil ▸ hp⟩
  · exact h.live c hc hne

theorem framed_recv (h : Framed H w) (hc : c ∈ w.live) {data : Chunk}
    (hann : w.Announces H (.recv c.endpoint data)) (hclean : w.Clean (.recv c.endpoint data))
    (ht : Tracked (w.step H (.recv c.endpoint data))) :
    Framed H (w.step H (.recv c.endpoint data)) := by
  obtain ⟨cap, hheld⟩ := h.held hc hclean
  have hall := hann c hc rfl
  have htame : Tame H cap ((handedOver H c.received).2 ++ data.bytes) := by
    refine tame_of_announced H ?_
    rw [Announced, handedOver_append] at hall
    exact hall
  obtain ⟨m', hm'⟩ := unPack_of_tame hheld data.ne_nil htame
  have hstep := step_recv (H := H) h.tracked hc data
  rw [hm'.final] at hstep
  dsimp only at hstep
  rw [hstep] at ht ⊢
  have hback : ∀ d ∈ w.live, d ≠ c → d.endpoint ≠ c.endpoint ∧ d.netId ≠ c.netId :=
    fun d hd hdc => ⟨fun he => hdc (h.tracked.eq_of_endpoint hd hc he),
      fun hn => hdc (h.tracked.eq_of_netId hd hc hn)⟩
  refine ⟨ht, h.halt, fun id => ?_, fun d hd hne => ?_, fun d hd => ?_⟩
  · by_cases hid : id = c.netId
    · subst hid
      exact ⟨_, _, hm'.holds⟩
    · obtain ⟨p, cap', hp⟩ := h.holds id
      refine ⟨p, cap', ?_⟩
      rw [Holds] at hp ⊢
      rwa [hm'.others id hid]
  · obtain ⟨d₀, hd₀, rfl⟩ := List.mem_map.1 hd
    by_cases hdc : d₀ = c
    · subst hdc
      refine ⟨max cap (4 + longestPackage H ((handedOver H d₀.received).2 ++ data.bytes)), ?_⟩
      dsimp only
      rw [if_pos rfl, handedOver_append]
      exact hm'.holds
    · obtain ⟨he, hn⟩ := hback d₀ hd₀ hdc
      dsimp only at hne ⊢
      rw [if_neg he] at hne ⊢
      obtain ⟨cap', hp⟩ := h.live d₀ hd₀ hne
      refine ⟨cap', ?_⟩
      rw [Holds] at hp ⊢
      rwa [hm'.others _ hn]
  · rcases List.mem_append.1 hd with hd | hd
    · obtain ⟨d₀, hd₀, rfl⟩ := List.mem_map.1 hd
      have hold := h.handed d₀ (List.mem_append_left _ hd₀)
      dsimp only
      by_cases hdc : d₀ = c
      · subst hdc
        rw [if_pos rfl, hold, hm'.recvs, if_pos rfl, packages_append]
        rfl
      · obtain ⟨he, hn⟩ := hback d₀ hd₀ hdc
        rw [if_neg he, hold, hm'.recvs, if_neg hn, List.append_nil]
    · exact h.handed d (List.mem_append_right _ hd)

theorem framed_step (h : Framed H w) (hcan : w.Can ev) (hnew : w.Inequivalent ev)
    (hann : w.Announces H ev) (hclean : w.Clean ev) : Framed H (w.step H ev) := by
  have ht := tracked_step (H := H) h.tracked hcan hnew
  rcases step_cases (H := H) h.tracked hcan with
    ⟨e, r, -, ho⟩ | ⟨c, data, hc, rfl⟩ | ⟨c, -, hcl⟩ | ⟨-, ⟨la, lc, hmgr⟩, hlive, hclosed, hhalt⟩
  · exact framed_opening h ho ht
  · exact framed_recv h hc hann hclean ht
  · exact framed_closing h hcl ht
  · refine ⟨ht, hhalt.trans h.halt, ?_, ?_, ?_⟩ <;> simp only [hmgr, hlive, hclosed]
    · exact h.holds
    · exact h.live
    · exact h.handed

variable (H) in
/-- What the packages handed over for each connection are: those in its own stream, an empty one at
the very end still to come. -/
def Isolated (w : Network) : Prop :=
  w.halt = none ∧ ∀ c ∈ w.live ++ w.closed,
    c.handed ++ (awaited H c.received).map (fun b => (b, (b.length : ℤ)))
      = (decodeStream H c.received).1.map fun b => (b, (b.length : ℤ))

theorem Framed.isolated (h : Framed H w) : Isolated H w := by
  refine ⟨h.halt, fun c hc => ?_⟩
  rw [h.handed c hc, decodeStream_eq, List.map_append, packages]

/-- A run of connections whose endpoints `operator <` tells apart and whose lengths are in range. -/
def Opened (H : HostLayout) (w : Network) (ev : NetworkEvent) : Prop :=
  w.Can ev ∧ w.Inequivalent ev ∧ w.Announces H ev

instance (w : Network) (ev : NetworkEvent) : Decidable (Opened H w ev) :=
  inferInstanceAs (Decidable (_ ∧ _ ∧ _))

/-- A run in which no connection finds part of an earlier one's package hands over each stream as
it is. -/
theorem isolated_of_clean (H : HostLayout) (handlers : List Addr) (singleThread : Bool)
    (evs : List NetworkEvent) (hrun : Along (step H) (Opened H) (start handlers singleThread) evs)
    (hclean : Along (step H) Clean (start handlers singleThread) evs) :
    Isolated H (exec (step H) (start handlers singleThread) evs) := by
  have hinv : Framed H (exec (step H) (start handlers singleThread) evs) :=
    invariant (P := fun w ev => Opened H w ev ∧ w.Clean ev)
      (fun w ev h hev => framed_step h hev.1.1 hev.1.2.1 hev.1.2.2 hev.2)
      (framed_start handlers singleThread) ((along_and _ _).2 ⟨hrun, hclean⟩)
  exact hinv.isolated

/-- The id of a closed connection serves the next one. -/
theorem isolated_reused_id :
    let first : Endpoint := ⟨[49, 46, 49, 46, 49, 46, 49], 5000, 80⟩
    let second : Endpoint := ⟨[50, 46, 50, 46, 50, 46, 50], 6000, 80⟩
    Isolated littleEndian (exec (step littleEndian) (start [] false)
      [.listen 1 80, .accept 1 10 first.remoteIpAddr 5000,
        .recv first ⟨[1, 0, 0, 0, 65], by decide, by decide⟩, .disconnect first,
        .accept 1 10 second.remoteIpAddr 6000,
        .recv second ⟨[1, 0, 0, 0, 66, 2], by decide, by decide⟩]) :=
  isolated_of_clean littleEndian [] false _ (by decide +kernel) (by decide +kernel)

/-- A client leaves after one byte of a header; the next one under its id loses its package. -/
theorem not_isolated_partial_header : ¬ ∀ (H : HostLayout) (handlers : List Addr)
    (singleThread : Bool) (evs : List NetworkEvent),
    Along (step H) (Opened H) (start handlers singleThread) evs →
      Isolated H (exec (step H) (start handlers singleThread) evs) := by
  intro h
  have hrun := h littleEndian [] false
    [.listen 1 80, .accept 1 10 [49, 46, 49, 46, 49, 46, 49] 5000,
      .recv ⟨[49, 46, 49, 46, 49, 46, 49], 5000, 80⟩ ⟨[1], by decide, by decide⟩,
      .disconnect ⟨[49, 46, 49, 46, 49, 46, 49], 5000, 80⟩,
      .accept 1 10 [50, 46, 50, 46, 50, 46, 50] 6000,
      .recv ⟨[50, 46, 50, 46, 50, 46, 50], 6000, 80⟩ ⟨[1, 0, 0, 0, 65], by decide, by decide⟩]
    (by decide +kernel)
  have hsecond := hrun.2 ⟨.accept 1 10, ⟨[50, 46, 50, 46, 50, 46, 50], 6000, 80⟩, 1,
    [1, 0, 0, 0, 65], []⟩ (by decide +kernel)
  exact absurd hsecond (by decide +kernel)

end Network

end Elegance
