import Elegance.Lib.LengthPrefix

/-!
# Messages in flight

A sender writes frames, a receiver reads symbols. Whatever was read, what the receiver holds of the
frame it is in, and what has not been read, are the frames of the messages not delivered yet
(`InFlight`): reading delivers the first of them (`InFlight.read`), writing adds one at the end
(`InFlight.write`), and with nothing left to read none is left (`InFlight.eq_nil`).
-/

namespace LengthPrefix

variable {α : Type*} (F : Format α) (wait : ℕ) (frame : List α → List α)

/-- The frame of a message is found as it is, whatever follows it. -/
def Framed (m : List α) : Prop :=
  ∀ rest, F.next wait (frame m ++ rest) = some (m, rest)

/-- The frames of `msgs` are what is held, which has no whole frame, and what is to be read. -/
structure InFlight (held wire : List α) (msgs : List (List α)) : Prop where
  framed : ∀ m ∈ msgs, Framed F wait frame m
  partly : F.next wait held = none
  bytes : held ++ wire = (msgs.map frame).flatten

variable {F wait frame}

/-- Of a stream of frames, decoding what was read finds the first ones and leaves the others. -/
theorem decode_frames : ∀ {msgs : List (List α)} {s t : List α},
    (∀ m ∈ msgs, Framed F wait frame m) → s ++ t = (msgs.map frame).flatten →
      ∃ rest, msgs = (F.decode wait s).1 ++ rest ∧ F.next wait (F.decode wait s).2 = none ∧
        (F.decode wait s).2 ++ t = (rest.map frame).flatten
  | msgs, s, t, hframed, hbytes => by
    rcases h : F.next wait s with _ | ⟨b, r⟩
    · rw [F.decode_of_none h]
      exact ⟨msgs, rfl, h, hbytes⟩
    · have hnext := F.next_append h t
      rw [hbytes] at hnext
      rcases msgs with _ | ⟨m, msgs⟩
      · obtain ⟨-, -, hs, hl⟩ := F.next_some h
        have hlen := congrArg List.length (hs.symm.trans (List.append_eq_nil_iff.1 hbytes).1)
        have := F.head_pos
        simp only [List.length_append, hl, List.length_nil] at hlen
        omega
      rw [List.map_cons, List.flatten_cons, hframed m List.mem_cons_self, Option.some.injEq,
        Prod.mk.injEq] at hnext
      obtain ⟨rfl, hrest⟩ := hnext
      obtain ⟨rest, hmsgs, hnone, hflat⟩ :=
        decode_frames (fun m' hm' => hframed m' (List.mem_cons_of_mem _ hm')) hrest.symm
      rw [F.decode_of_some h]
      exact ⟨rest, by rw [hmsgs, List.cons_append], hnone, hflat⟩

variable {held wire : List α} {msgs : List (List α)}

theorem inFlight_nil (h : F.next wait [] = none) : InFlight F wait frame [] [] [] where
  framed m hm := by simp at hm
  partly := h
  bytes := rfl

theorem InFlight.write (h : InFlight F wait frame held wire msgs) {m : List α}
    (hm : Framed F wait frame m) : InFlight F wait frame held (wire ++ frame m) (msgs ++ [m]) where
  framed m' hm' := by
    rcases List.mem_append.1 hm' with hm' | hm'
    · exact h.framed m' hm'
    · rwa [List.mem_singleton.1 hm']
  partly := h.partly
  bytes := by rw [← List.append_assoc, h.bytes, List.map_append, List.flatten_append,
    List.map_singleton, List.flatten_singleton]

theorem InFlight.writeAll {ms : List (List α)} : ∀ {wire : List α} {msgs : List (List α)},
    InFlight F wait frame held wire msgs → (∀ m ∈ ms, Framed F wait frame m) →
      InFlight F wait frame held (wire ++ (ms.map frame).flatten) (msgs ++ ms) := by
  induction ms with
  | nil =>
    intro wire msgs h _
    rwa [List.map_nil, List.flatten_nil, List.append_nil, List.append_nil]
  | cons m ms ih =>
    intro wire msgs h hms
    have hrest := ih (h.write (hms m List.mem_cons_self))
      fun m' hm' => hms m' (List.mem_cons_of_mem _ hm')
    rwa [List.append_assoc, List.append_assoc, List.singleton_append, ← List.flatten_cons,
      ← List.map_cons] at hrest

/-- Reading delivers the first messages, the ones decoding finds. -/
theorem InFlight.read (h : InFlight F wait frame held wire msgs) (size : ℕ) :
    ∃ rest, msgs = (F.decode wait (held ++ wire.take size)).1 ++ rest ∧
      InFlight F wait frame (F.decode wait (held ++ wire.take size)).2 (wire.drop size) rest := by
  have hbytes : held ++ wire.take size ++ wire.drop size = (msgs.map frame).flatten := by
    rw [List.append_assoc, List.take_append_drop, h.bytes]
  obtain ⟨rest, hmsgs, hnone, hflat⟩ := decode_frames h.framed hbytes
  refine ⟨rest, hmsgs, fun m hm => h.framed m ?_, hnone, hflat⟩
  rw [hmsgs]
  exact List.mem_append_right _ hm

/-- A header that is complete announces a length. -/
theorem InFlight.announced (h : InFlight F wait frame held wire msgs)
    (hl : F.head ≤ held.length) : (F.len (held.take F.head)).isSome := by
  have hbytes := h.bytes
  rcases msgs with _ | ⟨m, msgs⟩
  · have hnil := (List.append_eq_nil_iff.1 hbytes).1
    have := F.head_pos
    rw [hnil, List.length_nil] at hl
    omega
  · obtain ⟨-, hlen, -⟩ := F.next_some (h.framed m List.mem_cons_self (msgs.map frame).flatten)
    rw [← List.flatten_cons, ← List.map_cons, ← hbytes, List.take_append_of_le_length hl] at hlen
    rw [hlen]
    rfl

/-- With nothing left to read every message was delivered. -/
theorem InFlight.eq_nil (h : InFlight F wait frame held [] msgs) : msgs = [] := by
  rcases msgs with _ | ⟨m, msgs⟩
  · rfl
  · have hbytes := h.bytes
    rw [List.append_nil, List.map_cons, List.flatten_cons] at hbytes
    have hnext := h.framed m List.mem_cons_self (msgs.map frame).flatten
    rw [← hbytes, h.partly] at hnext
    cases hnext

end LengthPrefix
