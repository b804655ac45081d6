import Elegance.Wires
import Elegance.Proofs.Framing

/-!
# Whole frames on the wire

Every wire holds the complete frames of the sends that returned true, as long as `send(2)` takes all
it is given or fails, and no message is too long for a frame (`wires_whole_iff`).
-/

namespace Elegance

open CInt Machine PartialWrite Log

namespace Wires

variable {H : HostLayout} {w : Wires} {ev : WiresEvent}

theorem mem_framesOn {calls : List (Wire × List Byte)} {frame : List Byte} {wire : Wire} :
    frame ∈ framesOn calls wire ↔ (wire, frame) ∈ calls := by
  simp [framesOn]

/-- What is offered to `send(2)` is the frame of the message. -/
theorem frameOf_eq {netId : NetworkID} {data frame : List Byte} {wire : Wire}
    {calls : List (Wire × List Byte)} (hcalls : w.sends H netId data = some calls)
    (h : (wire, frame) ∈ calls) : frameOf H data = frame := by
  rw [sends, NetworkManager.send, Option.map_eq_some_iff] at hcalls
  obtain ⟨writes, hwrites, rfl⟩ := hcalls
  rw [List.mem_filterMap] at h
  obtain ⟨write, hwrite, hsends⟩ := h
  split at hwrites
  · rw [← Option.some.inj hwrites] at hwrite
    cases hwrite
  · rcases hpack : packAndSend H data with _ | ⟨bytes, length⟩
    · rw [hpack] at hwrites
      cases hwrites
    · rw [hpack, Option.map_some, Option.some.injEq] at hwrites
      rw [← hwrites, NetworkManager.sendRaw] at hwrite
      have hframe : frame = bytes := by
        split at hwrite
        · cases hwrite
        · rw [List.mem_append] at hwrite
          rcases hwrite with hwrite | hwrite <;> split at hwrite
          · rw [List.mem_singleton.1 hwrite, SocketWrite.sends, Option.map_eq_some_iff] at hsends
            obtain ⟨sock, -, heq⟩ := hsends
            exact (congrArg Prod.snd heq).symm
          · cases hwrite
          · rw [List.mem_singleton.1 hwrite, SocketWrite.sends] at hsends
            exact (congrArg Prod.snd (Option.some.inj hsends)).symm
          · cases hwrite
      rw [frameOf, hpack, hframe]
      rfl

/-- A `Send` stays in the packer's buffer exactly if its frame has a length that is an `int`. -/
theorem sends_isSome_iff {netId : NetworkID} {data : List Byte} :
    (w.sends H netId data).isSome ↔ ((w.net.mgr.netIdToEndpointMap.find netId).isSome →
      (data.length : ℤ) ≤ intMax - netPackerFixheadHeaderLength) := by
  rw [sends, Option.isSome_map, NetworkManager.send]
  rcases w.net.mgr.netIdToEndpointMap.find netId with _ | endpoint
  · simp
  · simp only [Option.isSome_map, Option.isSome_some, forall_const]
    constructor
    · intro h
      obtain ⟨p, hp⟩ := Option.isSome_iff_exists.1 h
      exact length_of_packAndSend hp
    · intro h
      rw [packAndSend_eq h]
      rfl

/-- A `Send` leaves the manager and the sockets as they are. -/
@[simp]
theorem net_send (w : Wires) (netId : NetworkID) (data : List Byte) (kernel : Wire → Option ℕ) :
    (w.step H (.send netId data kernel)).net = w.net := by
  rw [step]
  split <;> rfl

/-- The pieces written are the frames of the messages. -/
def Logged (H : HostLayout) (w : Wires) : Prop :=
  ∀ wire, (w.log wire).pieces = (w.messages wire).map (frameOf H)

theorem Logged.whole_iff (h : w.Logged H) :
    w.Whole H ↔ w.overrun = false ∧ ∀ wire, (w.log wire).Intact := by
  refine and_congr_right fun _ => forall_congr' fun wire => ?_
  rw [Intact, h wire, List.flatMap_def]

theorem logged_step (h : w.Logged H) : (w.step H ev).Logged H := by
  cases ev with
  | network ev =>
    intro wire
    rw [step]
    dsimp only
    split_ifs
    · rfl
    · exact h wire
  | send netId data kernel =>
    rcases hcalls : w.sends H netId data with _ | calls
    · rw [step, hcalls]
      exact h
    · intro wire
      rw [step, hcalls]
      dsimp only
      have hframes : (framesOn calls wire).map (fun _ => frameOf H data) =
          framesOn calls wire := by
        rw [List.map_congr_left (g := id), List.map_id]
        exact fun frame hmem => frameOf_eq hcalls (mem_framesOn.1 hmem)
      rw [pieces_writeAll, h wire, List.map_append]
      split_ifs
      · rw [List.map_map, Function.comp_def, hframes]
      · rfl

theorem whole_send (hlogged : w.Logged H) (h : w.Whole H) {netId : NetworkID} {data : List Byte}
    {kernel : Wire → Option ℕ} : (w.step H (.send netId data kernel)).Whole H ↔
      w.TakesAll H (.send netId data kernel) := by
  obtain ⟨hrunning, hintact⟩ := hlogged.whole_iff.1 h
  rw [(logged_step hlogged).whole_iff, TakesAll, ← sends_isSome_iff, step]
  rcases w.sends H netId data with _ | calls
  · simp
  · dsimp only
    have hwire : ∀ wire, ((w.log wire).writeAll (framesOn calls wire) (kernel wire)).Intact ↔
        ∀ frame ∈ framesOn calls wire, ∀ count ∈ kernel wire, frame.length ≤ count :=
      fun wire => intact_writeAll_iff (hintact wire)
    constructor
    · rintro ⟨-, hwhole⟩
      refine ⟨rfl, ?_⟩
      rintro _ ⟨⟩ ⟨wire, frame⟩ hmem
      exact (hwire wire).1 (hwhole wire) frame (mem_framesOn.2 hmem)
    · rintro ⟨-, hall⟩
      refine ⟨hrunning, fun wire => (hwire wire).2 fun frame hmem => ?_⟩
      exact hall calls rfl (wire, frame) (mem_framesOn.1 hmem)

theorem whole_network (h : w.Whole H) (ev : NetworkEvent) :
    (w.step H (.network ev)).Whole H := by
  refine ⟨h.1, fun wire => ?_⟩
  rw [step]
  dsimp only
  split_ifs
  · rfl
  · exact h.2 wire

/-- In every state of a run the bytes on each connection are the complete frames of the sends whose
`Write` returned true, exactly when no message to a live connection was too long for a frame and
every `send(2)` took all it was given or failed. -/
theorem wires_whole_iff (H : HostLayout) (handlers : List Addr) (singleThread : Bool)
    (es : List WiresEvent) :
    (∀ pre, pre <+: es → (exec (step H) (start handlers singleThread) pre).Whole H) ↔
      Along (step H) (TakesAll H) (start handlers singleThread) es := by
  refine along_iff_forall_exec (I := fun w : Wires => w.Logged H ∧ w.Whole H) (Q := fun _ _ => True)
    (fun w h => h.2) (fun w ev h _ hall => ⟨logged_step h.1, ?_⟩) (fun w ev h _ hnot => ?_)
    ⟨fun wire => rfl, rfl, fun wire => rfl⟩ (along_of_forall (fun _ _ => trivial) _ _)
  · cases ev with
    | network ev => exact whole_network h.2 ev
    | send netId data kernel => exact (whole_send h.1 h.2).2 hall
  · cases ev with
    | network ev => exact absurd trivial hnot
    | send netId data kernel => exact fun hwhole => hnot ((whole_send h.1 h.2).1 hwhole)

/-- A client is accepted, and `send(2)` takes three bytes of the frame of a message to it. -/
def shortSend : List WiresEvent :=
  [.network (.listen 16 80), .network (.accept 16 7 [49] 5000), .send 1 [65] fun _ => some 3]

theorem not_whole_shortSend :
    ¬ ∀ es, Along (step littleEndian) (Can littleEndian) (start [] false) es →
      (exec (step littleEndian) (start [] false) es).Whole littleEndian := by
  intro h
  have hwhole := (h shortSend (by decide +kernel)).2 (.sock 7)
  revert hwhole
  decide +kernel

end Wires

end Elegance
