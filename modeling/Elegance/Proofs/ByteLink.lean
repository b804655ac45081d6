import Elegance.RpcStreams
import Elegance.Proofs.Framing
import Elegance.Lib.FramedStream

/-!
# A connection carries messages

Between what `PackAndSend` wrote and what `UnPack` has handed over there is a queue of messages:
their frames are the bytes held for the net id and the bytes not read yet (`Carrying`). A call of
`UnPack` on any of these bytes hands over the first messages of the queue.
-/

namespace Elegance

open CInt LengthPrefix

variable {H : HostLayout} {m : NetIdToBufferMap} {netId : NetworkID} {wire : List Byte}
  {msgs : List (List Byte)}

/-- A message the packer takes, and hands over with its last byte. -/
def Packable (msg : List Byte) : Prop :=
  msg ≠ [] ∧ (msg.length : ℤ) ≤ intMax - 4

theorem Packable.framed {msg : List Byte} (h : Packable msg) :
    Framed (fixHead H) 5 (frame H) msg :=
  fun rest => next_frame h.2 (List.append_ne_nil_of_left_ne_nil h.1 rest)

theorem packAll_eq : ∀ {ms : List (List Byte)}, (∀ msg ∈ ms, Packable msg) →
    packAll H ms = some (ms.map (frame H)).flatten
  | [], _ => rfl
  | msg :: ms, h => by
    have ih := @packAll_eq ms fun msg' hmsg' => h msg' (List.mem_cons_of_mem _ hmsg')
    simp only [packAll, Option.map_eq_some_iff] at ih
    obtain ⟨packed, hpacked, hflat⟩ := ih
    rw [packAll, List.mapM_cons, packAndSend_eq (h msg List.mem_cons_self).2, hpacked]
    simp [hflat]

variable (H) in
/-- What the packer holds for the net id and what has not been read are the frames of `msgs`. -/
def Carrying (m : NetIdToBufferMap) (netId : NetworkID) (wire : List Byte)
    (msgs : List (List Byte)) : Prop :=
  ∃ s, Cached H m netId s ∧ (∀ msg ∈ msgs, Packable msg) ∧
    InFlight (fixHead H) 5 (frame H) (handedOver H s).2 wire msgs

theorem carrying_start (h : m.find netId = none) : Carrying H m netId [] [] := by
  have hnone := next_of_length_le (H := H) (s := []) (by simp)
  refine ⟨[], cached_nil h, fun msg hmsg => by simp at hmsg, ?_⟩
  rw [handedOver_of_none hnone]
  exact inFlight_nil hnone

theorem Carrying.write (h : Carrying H m netId wire msgs) {ms : List (List Byte)}
    (hms : ∀ msg ∈ ms, Packable msg) :
    Carrying H m netId (wire ++ (ms.map (frame H)).flatten) (msgs ++ ms) := by
  obtain ⟨s, hs, hmsgs, hflight⟩ := h
  refine ⟨s, hs, fun msg hmsg => ?_, hflight.writeAll fun msg hmsg => (hms msg hmsg).framed⟩
  rcases List.mem_append.1 hmsg with hmsg | hmsg
  · exact hmsgs msg hmsg
  · exact hms msg hmsg

/-- A call of `UnPack` hands over the first messages, and leaves the others. -/
theorem Carrying.unPack (h : Carrying H m netId wire msgs) {size : ℕ} (hpos : 0 < size)
    (hle : size ≤ wire.length) :
    ∃ m' got rest, (unPack H m netId (wire.take size)).final = .ok m' ∧ msgs = got ++ rest ∧
      Carrying H m' netId (wire.drop size) rest ∧
      managerRecvs netId (Elegance.unPack H m netId (wire.take size)).events =
        got.map fun b => (b, (b.length : ℤ)) := by
  obtain ⟨s, hs, hmsgs, hflight⟩ := h
  obtain ⟨rest, hsplit, hflight'⟩ := hflight.read size
  have hd : wire.take size ≠ [] := by
    rw [← List.length_pos_iff, List.length_take]
    omega
  have hheld : handedOver H (s ++ wire.take size) = _ := handedOver_append s (wire.take size)
  have htame : Tame H 4 (s ++ wire.take size) := by
    refine tame_of_announced H fun hl => ?_
    rw [hheld] at hl ⊢
    exact hflight'.announced hl
  obtain ⟨m', hfinal, hcached, -, hrecvs, -⟩ := unPack_cached hs hd htame
  refine ⟨m', _, rest, hfinal, hsplit, ⟨_, hcached, fun msg hmsg => hmsgs msg ?_, ?_⟩, ?_⟩
  · rw [hsplit]
    exact List.mem_append_right _ hmsg
  · rw [hheld]
    exact hflight'
  · rw [hrecvs netId, if_pos rfl]
    rfl

theorem Carrying.eq_nil (h : Carrying H m netId [] msgs) : msgs = [] := by
  obtain ⟨s, -, -, hflight⟩ := h
  exact hflight.eq_nil

/-- All the messages handed over are passed on. -/
theorem passedOn_eq {events : List PackerEvent} {got : List (List Byte)} (hid : 0 < netId)
    (hgot : ∀ msg ∈ got, Packable msg)
    (h : managerRecvs netId events = got.map fun b => (b, (b.length : ℤ))) :
    passedOn netId events = got := by
  rw [passedOn, h, List.filter_eq_self.2 fun p hp => ?_, List.map_map]
  · conv_rhs => rw [← List.map_id got]
    refine List.map_congr_left fun b _ => ?_
    simp
  · obtain ⟨b, hb, rfl⟩ := List.mem_map.1 hp
    have hpos := List.length_pos_iff.2 (hgot b hb).1
    simp only [decide_eq_true_eq, not_or, not_le]
    exact ⟨hid, Int.natCast_pos.2 hpos⟩

theorem Carrying.passedOn (h : Carrying H m netId wire msgs) (hid : 0 < netId) {size : ℕ}
    (hpos : 0 < size) (hle : size ≤ wire.length) :
    ∃ m' rest, (Elegance.unPack H m netId (wire.take size)).final = .ok m' ∧
      msgs = Elegance.passedOn netId (Elegance.unPack H m netId (wire.take size)).events ++ rest ∧
      Carrying H m' netId (wire.drop size) rest := by
  obtain ⟨m', got, rest, hfinal, rfl, hrest, hrecvs⟩ := h.unPack hpos hle
  obtain ⟨s, -, hmsgs, -⟩ := h
  have hgot := passedOn_eq hid (fun msg hmsg => hmsgs msg (List.mem_append_left _ hmsg)) hrecvs
  exact ⟨m', rest, hfinal, by rw [hgot], hrest⟩

end Elegance
