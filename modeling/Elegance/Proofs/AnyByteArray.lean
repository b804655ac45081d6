import Elegance.AnyByteArray
import Elegance.Proofs.StaticByteArray

/-!
# Reads and writes behind the interface

A write that has room appends the encoding of its value (`write_spec`), and a read of that kind takes
it from the front (`read_spec`), in the byte order of the object. So the two classes agree on a
sequence of values if the byte order is the host's or no value shows it (`one_wire_format_iff`).
-/

namespace Elegance

open CInt Memory

namespace AnyByteArray

variable {behind : Behind} {b : AnyByteArray} {e : Endian} {v : Value} {rest : List Byte}

section SetEndian

@[simp]
theorem unread_setEndian : (b.setEndian e).unread = b.unread := by
  cases b <;> rfl

@[simp]
theorem valid_setEndian : (b.setEndian e).Valid ↔ b.Valid := by
  cases b <;> rfl

@[simp]
theorem fits_setEndian {n : ℕ} : (b.setEndian e).Fits n ↔ b.Fits n := by
  cases b <;> rfl

theorem wire_setEndian_cases : (b.setEndian e).wire = e ∨ (b.setEndian e).wire = .fwLittleEndian := by
  cases b
  · exact .inl rfl
  · exact .inr rfl

end SetEndian

/-- A write that has room appends the encoding. -/
theorem write_spec (behind : Behind) (h : b.Valid) (hs : ∀ s, v = .string s → s.length ≤ ushrtMax)
    (hfit : b.Fits (v.encode b.wire).length) :
    ∃ b', b.write behind v = some b' ∧ b'.Valid ∧ b'.wire = b.wire ∧
      b'.unread = b.unread ++ v.encode b.wire ∧
      ∀ n, b'.Fits n ↔ b.Fits ((v.encode b.wire).length + n) := by
  cases b with
  | queue q =>
    refine ⟨_, congrArg (some ∘ queue) (q.write_eq _ hs), trivial, rfl, rfl, fun n => Iff.rfl⟩
  | static curEndian a =>
    have hholds := StaticByteArray.writeItemToBuffer_holds (StaticByteArray.Bounded.holds h) hfit
    refine ⟨_, congrArg (Option.map (static curEndian)) (StaticByteArray.write_eq h hs hfit),
      hholds.bounded, rfl, hholds.unread_eq, fun n => ?_⟩
    simp only [Fits, StaticByteArray.writeItemToBuffer]
    push_cast
    rw [add_assoc]

/-- A read takes the encoding from the front and returns the value. -/
theorem read_spec (behind : Behind) (h : b.Valid)
    (hs : ∀ s, v = .string s → 0 ∉ s ∧ s.length ≤ ushrtMax)
    (ho : ∀ o, v = .object o → 1 ≤ o.length) (hu : b.unread = v.encode b.wire ++ rest) :
    ∃ b', b.read behind v.kind = (some v, b') ∧ b'.Valid ∧ b'.wire = b.wire ∧
      b'.unread = rest := by
  cases b with
  | queue q =>
    obtain ⟨endian, bytes⟩ := q
    have hu : bytes = v.encode endian ++ rest := hu
    subst hu
    refine ⟨queue ⟨endian, rest⟩, ?_, trivial, rfl, rfl⟩
    rw [read, QueueByteArray.read_encode endian rest _ (fun s hv => (hs s hv).2) ho]
    rfl
  | static curEndian a =>
    have hholds := StaticByteArray.Bounded.holds h
    have hu : a.unread = v.encode .fwLittleEndian ++ rest := hu
    rw [hu] at hholds
    obtain ⟨a', hread, hrest⟩ := StaticByteArray.read_holds hs ho hholds
    refine ⟨static curEndian a', ?_, hrest.bounded, rfl, hrest.unread_eq⟩
    rw [read, hread]
    rfl

theorem writeAll_spec (behind : Behind) : ∀ {b : AnyByteArray} {vs : List Value}, b.Valid →
    (∀ s, .string s ∈ vs → s.length ≤ ushrtMax) →
      b.Fits (vs.flatMap (Value.encode b.wire)).length →
        ∃ b', b.writeAll behind vs = some b' ∧
          b'.unread = b.unread ++ vs.flatMap (Value.encode b.wire)
  | b, [], _, _, _ => ⟨b, rfl, by simp⟩
  | b, v :: vs, h, hs, hfit => by
    rw [List.flatMap_cons, List.length_append] at hfit
    have hfit' : b.Fits (v.encode b.wire).length := by
      cases b
      · trivial
      · simp only [Fits] at hfit ⊢
        push_cast at hfit
        omega
    obtain ⟨b₁, hwrite, hvalid, hwire, hunread, hfits⟩ :=
      write_spec behind h (fun s hv => hs s (by simp [hv])) hfit'
    rw [← hfits, ← hwire] at hfit
    obtain ⟨b₂, hall, hunread₂⟩ := writeAll_spec behind hvalid
      (fun s hmem => hs s (List.mem_cons_of_mem v hmem)) hfit
    refine ⟨b₂, ?_, ?_⟩
    · rw [writeAll, hwrite]
      exact hall
    · rw [hunread₂, hunread, hwire, List.flatMap_cons, List.append_assoc]

theorem readAll_spec : ∀ {b : AnyByteArray} {vs : List Value}, b.Valid →
    (∀ s, .string s ∈ vs → 0 ∉ s ∧ s.length ≤ ushrtMax) → (∀ o, .object o ∈ vs → 1 ≤ o.length) →
      b.unread = vs.flatMap (Value.encode b.wire) ++ rest →
        ∃ b', b.readAll behind (vs.map Value.kind) = (vs.map some, b') ∧ b'.unread = rest
  | b, [], _, _, _, hu => ⟨b, rfl, hu⟩
  | b, v :: vs, h, hs, ho, hu => by
    rw [List.flatMap_cons, List.append_assoc] at hu
    obtain ⟨b₁, hread, hvalid, hwire, hunread⟩ := read_spec behind h
      (fun s hv => hs s (by simp [hv])) (fun o hv => ho o (by simp [hv])) hu
    rw [← hwire] at hunread
    obtain ⟨b₂, hall, hrest⟩ := readAll_spec hvalid
      (fun s hmem => hs s (List.mem_cons_of_mem v hmem))
      (fun o hmem => ho o (List.mem_cons_of_mem v hmem)) hunread
    refine ⟨b₂, ?_, hrest⟩
    rw [List.map_cons, readAll, hread]
    dsimp only
    rw [hall]
    rfl

section WireFormat

/-- Whatever class an object is of, the values are written to it as the same bytes, and read back
from these. -/
def OneWireFormat (e : Endian) (vs : List Value) : Prop :=
  ∃ bs : List Byte, ∀ (behind : Behind) (b : AnyByteArray), b.Valid →
    (b.Fits bs.length → ∃ b', (b.setEndian e).writeAll behind vs = some b' ∧
      b'.unread = b.unread ++ bs) ∧
    ∀ rest, b.unread = bs ++ rest →
      ∃ b', (b.setEndian e).readAll behind (vs.map Value.kind) = (vs.map some, b') ∧
        b'.unread = rest

/-- Values of the same lengths make the same bytes only one by one. -/
theorem flatMap_eq_iff {α β : Type*} {f g : α → List β} (hlen : ∀ a, (f a).length = (g a).length) :
    ∀ {as : List α}, as.flatMap f = as.flatMap g ↔ ∀ a ∈ as, f a = g a
  | [] => by simp
  | a :: as => by
    rw [List.flatMap_cons, List.flatMap_cons, List.forall_mem_cons, ← flatMap_eq_iff hlen]
    exact ⟨fun h => List.append_inj h (hlen a), fun h => by rw [h.1, h.2]⟩

theorem length_encode (e e' : Endian) (v : Value) : (v.encode e).length = (v.encode e').length := by
  cases v <;> simp [Value.encode, length_digits]

variable {vs : List Value}

/-- What is written to an object is the encodings in its byte order, whatever it held. -/
theorem bytes_of_written {bs : List Byte} (h : b.Valid)
    (hs : ∀ s, .string s ∈ vs → s.length ≤ ushrtMax)
    (hfit : b.Fits (vs.flatMap (Value.encode b.wire)).length)
    (hwrite : ∃ b', b.writeAll behind vs = some b' ∧ b'.unread = b.unread ++ bs) :
    bs = vs.flatMap (Value.encode b.wire) := by
  obtain ⟨b₁, hwrite₁, hunread₁⟩ := hwrite
  obtain ⟨b₂, hwrite₂, hunread₂⟩ := writeAll_spec behind h hs hfit
  rw [hwrite₁, Option.some_inj] at hwrite₂
  subst hwrite₂
  exact List.append_cancel_left (hunread₁.symm.trans hunread₂)

theorem OneWireFormat.agree (h : OneWireFormat e vs)
    (hs : ∀ s, .string s ∈ vs → s.length ≤ ushrtMax)
    (hfit : (vs.flatMap (Value.encode e)).length ≤ maxMsgLength) :
    vs.flatMap (Value.encode e) = vs.flatMap (Value.encode .fwLittleEndian) := by
  obtain ⟨bs, h⟩ := h
  have hempty : (static e {}).Valid := StaticByteArray.holds_empty.bounded
  have hlen : (vs.flatMap (Value.encode .fwLittleEndian)).length =
      (vs.flatMap (Value.encode e)).length := by
    simp only [List.length_flatMap, length_encode .fwLittleEndian e]
  have hroom : ∀ n ≤ maxMsgLength, (static e {}).Fits n := by
    intro n hn
    simp only [Fits]
    omega
  have hqueue : bs = vs.flatMap (Value.encode e) :=
    bytes_of_written (b := (queue {}).setEndian e) trivial hs trivial
      ((h (fun _ => []) (queue {}) trivial).1 trivial)
  have hstatic : bs = vs.flatMap (Value.encode .fwLittleEndian) :=
    bytes_of_written (b := (static e {}).setEndian e) hempty hs
      (hroom _ (hlen.trans_le hfit))
      ((h (fun _ => []) (static e {}) hempty).1 (hroom _ (by rw [hqueue]; exact hfit)))
  rw [← hqueue, hstatic]

/-- The two classes share a wire format exactly where the byte order is the host's, or every number
and every length of a string has the same bytes in either order. -/
theorem one_wire_format_iff (e : Endian) (vs : List Value)
    (hs : ∀ s, .string s ∈ vs → 0 ∉ s ∧ s.length ≤ ushrtMax)
    (ho : ∀ o, .object o ∈ vs → 1 ≤ o.length)
    (hfit : (vs.flatMap (Value.encode e)).length ≤ maxMsgLength) :
    OneWireFormat e vs ↔
      e = .fwLittleEndian ∨ ∀ v ∈ vs, v.encode .fwBigEndian = v.encode .fwLittleEndian := by
  have hs' : ∀ s, .string s ∈ vs → s.length ≤ ushrtMax := fun s hmem => (hs s hmem).2
  constructor
  · intro h
    have hagree := h.agree hs' hfit
    cases e
    · exact .inr ((flatMap_eq_iff (length_encode _ _)).1 hagree)
    · exact .inl rfl
  · intro h
    have hwire : ∀ b : AnyByteArray, vs.flatMap (Value.encode (b.setEndian e).wire) =
        vs.flatMap (Value.encode .fwLittleEndian) := by
      intro b
      rcases wire_setEndian_cases (b := b) (e := e) with hb | hb
      · rw [hb, flatMap_eq_iff (length_encode _ _)]
        rcases h with rfl | h
        · simp
        · cases e
          · exact h
          · simp
      · rw [hb]
    refine ⟨vs.flatMap (Value.encode .fwLittleEndian), fun behind b hb => ⟨fun hroom => ?_, ?_⟩⟩
    · obtain ⟨b', hwrite, hunread⟩ := writeAll_spec behind (valid_setEndian.2 hb) hs'
        (by rw [hwire]; exact fits_setEndian.2 hroom)
      rw [hwire, unread_setEndian] at hunread
      exact ⟨b', hwrite, hunread⟩
    · intro rest hrest
      exact readAll_spec (valid_setEndian.2 hb) hs ho
        (by rw [hwire, unread_setEndian]; exact hrest)

/-- The number 1 in two bytes, most significant first. -/
theorem not_one_wire_format_one : ¬ OneWireFormat .fwBigEndian [.uint16 1] := by
  intro h
  have hagree := h.agree (by simp) (by decide)
  revert hagree
  decide

theorem one_wire_format_two : OneWireFormat .fwBigEndian [.uint16 257, .string []] :=
  (one_wire_format_iff .fwBigEndian [.uint16 257, .string []] (by simp) (by simp) (by decide)).2
    (.inr (by decide))

end WireFormat

end AnyByteArray

end Elegance
