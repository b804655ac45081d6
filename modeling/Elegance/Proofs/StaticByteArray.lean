import Elegance.StaticByteArray
import Elegance.Proofs.QueueByteArray

/-!
# What `StaticByteArray` gives back

An accepted write puts the encoding of its value behind what the buffer holds, as long as strings
are not longer than their length field, and a read takes it from the front. `ReadString` goes
through a C string, so it returns none that holds a NUL: values come back exactly when no string
among them does and none is longer than 65535 bytes (`static_codec`).
-/

namespace Elegance

open CInt Memory StdString

namespace StaticByteArray

/-- The bytes written and not read yet. -/
structure Holds (a : StaticByteArray) (bs : List Byte) : Prop where
  read_nonneg : 0 ≤ a.hasReadLength
  length_eq : a.hasReadLength + bs.length = a.hasWriteLength
  write_le : a.hasWriteLength ≤ maxMsgLength
  load_eq : load a.bufferCache a.hasReadLength.toNat bs.length = bs

theorem holds_empty : Holds {} [] where
  read_nonneg := le_refl 0
  length_eq := rfl
  write_le := by simp
  load_eq := rfl

variable {host : Endian} {a a' : StaticByteArray} {bs rest : List Byte}

theorem Holds.bounded (h : Holds a bs) : a.Bounded := by
  obtain ⟨h₁, h₂, h₃, -⟩ := h
  exact ⟨h₁, by omega, h₃⟩

theorem Holds.unread_eq (h : Holds a bs) : a.unread = bs := by
  obtain ⟨-, h₂, -, h₄⟩ := h
  rw [unread, show (a.hasWriteLength - a.hasReadLength).toNat = bs.length by omega, h₄]

theorem Bounded.holds (h : a.Bounded) : Holds a a.unread := by
  obtain ⟨h₁, h₂, h₃⟩ := h
  have hlen : a.unread.length = (a.hasWriteLength - a.hasReadLength).toNat := length_load _ _ _
  exact ⟨h₁, by omega, h₃, by rw [hlen, unread]⟩

theorem bytesAvailable_eq (h : Holds a bs) : a.bytesAvailable = bs.length := by
  obtain ⟨h₁, h₂, h₃, -⟩ := h
  rw [maxMsgLength] at h₃
  unfold bytesAvailable
  omega

section Write

theorem writeItemToBuffer_holds (h : Holds a bs) {src : List Byte}
    (hsrc : a.hasWriteLength + src.length ≤ maxMsgLength) :
    Holds (a.writeItemToBuffer src) (bs ++ src) := by
  obtain ⟨h₁, h₂, h₃, h₄⟩ := h
  have hwrite : a.hasWriteLength.toNat = a.hasReadLength.toNat + bs.length := by omega
  unfold writeItemToBuffer
  constructor
  · exact h₁
  · dsimp only
    rw [List.length_append]
    push_cast
    omega
  · exact hsrc
  · dsimp only
    rw [List.length_append, load_add, hwrite, load_store, load_store_of_le _ _ (le_refl _), h₄]

theorem writeNum_holds (h : Holds a bs) {w n : ℕ}
    (hmove : a.hasWriteLength < (a.writeNum host w n).hasWriteLength) :
    Holds (a.writeNum host w n) (bs ++ host.digits w n) := by
  unfold writeNum at hmove ⊢
  split_ifs at hmove ⊢ with hfull
  · omega
  · apply writeItemToBuffer_holds h
    rw [length_digits]
    omega

theorem memcpy_holds (h : Holds a bs) {src : List Byte} {size : ℤ}
    (hcopy : a.memcpy src size = some a') (hsize : size = src.length) :
    Holds a' (bs ++ src) := by
  unfold memcpy at hcopy
  split_ifs at hcopy with hin
  rw [Option.some_inj] at hcopy
  obtain ⟨-, -, -, hle⟩ := hin
  dsimp only at hle
  subst hcopy hsize
  rw [Int.toNat_natCast, List.take_length]
  exact writeItemToBuffer_holds h hle

theorem writeItemToBuffer_append (h : a.Bounded) (src src' : List Byte) :
    (a.writeItemToBuffer src).writeItemToBuffer src' = a.writeItemToBuffer (src ++ src') := by
  have hwrite : (a.hasWriteLength + src.length).toNat = a.hasWriteLength.toNat + src.length := by
    have := h.read_nonneg.trans h.read_le
    omega
  simp [writeItemToBuffer, hwrite, store_append, add_assoc]

theorem writeNum_eq {w n : ℕ} (hfit : a.hasWriteLength + w ≤ maxMsgLength) :
    a.writeNum host w n = a.writeItemToBuffer (host.digits w n) := by
  unfold writeNum
  rw [if_neg (by omega)]

theorem memcpy_eq (h : a.Bounded) {src : List Byte}
    (hfit : a.hasWriteLength + src.length ≤ maxMsgLength) :
    a.memcpy src src.length = some (a.writeItemToBuffer src) := by
  have hwrite := h.read_nonneg.trans h.read_le
  unfold memcpy
  rw [if_pos ⟨by simp, le_refl _, hwrite, hfit⟩]
  simp

/-- A string that its length field can count is written where there is room for both. -/
theorem writeString_eq (h : a.Bounded) {s : List Byte} (hs : s.length ≤ ushrtMax) :
    a.writeString host s = some (if a.hasWriteLength + (2 + s.length : ℕ) ≤ maxMsgLength then
      a.writeItemToBuffer (host.digits 2 s.length ++ s) else a) := by
  have hread := h.read_nonneg.trans h.read_le
  have hwrite := h.write_le
  rw [ushrtMax] at hs
  rw [maxMsgLength] at hwrite
  have hlen : wrap32 s.length = s.length :=
    wrap32_of_range (by rw [intMin]; omega) (by rw [intMax]; omega)
  have hsum : wrap32 (wrap32 (a.hasWriteLength + s.length) + stringLengthByteSize) =
      a.hasWriteLength + s.length + stringLengthByteSize := by
    rw [stringLengthByteSize, wrap32_of_range (z := a.hasWriteLength + s.length)
      (by rw [intMin]; omega) (by rw [intMax]; omega)]
    exact wrap32_of_range (by rw [intMin]; omega) (by rw [intMax]; omega)
  unfold writeString
  simp only [hlen, hsum]
  rw [stringLengthByteSize]
  split_ifs with hfull hfit hfit
  · omega
  · rfl
  · have hu16 : (UInt16.ofInt s.length).toNat = s.length := by
      rw [UInt16.ofInt, Int.emod_eq_of_lt (by omega) (by omega), Int.toNat_natCast,
        UInt16.toNat_ofNat', Nat.mod_eq_of_lt (by omega)]
    have hroom : a.hasWriteLength + (host.digits 2 s.length).length ≤ maxMsgLength := by
      rw [length_digits]
      omega
    have hbounded := (writeItemToBuffer_holds h.holds hroom).bounded
    rw [writeUint16, hu16, writeNum_eq (by omega), memcpy_eq hbounded,
      writeItemToBuffer_append h]
    simp only [writeItemToBuffer, length_digits]
    omega
  · omega

theorem writeString_holds (h : Holds a bs) {s : List Byte} (hs : s.length ≤ ushrtMax)
    (hwrite : a.writeString host s = some a') (hmove : a.hasWriteLength < a'.hasWriteLength) :
    Holds a' (bs ++ (host.digits 2 s.length ++ s)) := by
  rw [writeString_eq h.bounded hs, Option.some_inj] at hwrite
  subst hwrite
  split_ifs at hmove ⊢ with hfit
  · apply writeItemToBuffer_holds h
    rw [List.length_append, length_digits]
    exact hfit
  · omega

theorem writeObject_holds (h : Holds a bs) {o : List Byte}
    (hwrite : a.writeObject o o.length = some a') (hmove : a.hasWriteLength < a'.hasWriteLength) :
    Holds a' (bs ++ o) := by
  unfold writeObject at hwrite
  split_ifs at hwrite with hfull
  · rw [Option.some_inj.1 hwrite] at hmove
    omega
  · exact memcpy_holds h hwrite rfl

theorem writeObject_eq (h : a.Bounded) {o : List Byte}
    (hfit : a.hasWriteLength + o.length ≤ maxMsgLength) :
    a.writeObject o o.length = some (a.writeItemToBuffer o) := by
  have hwrite := h.read_nonneg.trans h.read_le
  have hsum : wrap32 (a.hasWriteLength + o.length) = a.hasWriteLength + o.length := by
    rw [maxMsgLength] at hfit
    exact wrap32_of_range (by rw [intMin]; omega) (by rw [intMax]; omega)
  unfold writeObject
  rw [hsum, if_neg (by omega), memcpy_eq h hfit]

/-- A write that has room puts the encoding into the buffer. -/
theorem write_eq (h : a.Bounded) {v : Value} (hs : ∀ s, v = .string s → s.length ≤ ushrtMax)
    (hfit : a.hasWriteLength + (v.encode host).length ≤ maxMsgLength) :
    a.write host v = some (a.writeItemToBuffer (v.encode host)) := by
  cases v with
  | string s =>
    rw [Value.encode, List.length_append, length_digits] at hfit
    exact (writeString_eq h (hs s rfl)).trans (by rw [if_pos hfit, Value.encode])
  | object o => exact writeObject_eq h hfit
  | _ =>
    rw [Value.encode, length_digits] at hfit
    exact congrArg some (writeNum_eq hfit)

/-- An accepted write puts the encoding behind what the buffer holds. -/
theorem write_holds (h : Holds a bs) {v : Value} (hs : ∀ s, v = .string s → s.length ≤ ushrtMax)
    (hwrite : a.write host v = some a') (hmove : a.hasWriteLength < a'.hasWriteLength) :
    Holds a' (bs ++ v.encode host) := by
  cases v with
  | string s => exact writeString_holds h (hs s rfl) hwrite hmove
  | object o => exact writeObject_holds h hwrite hmove
  | _ =>
    rw [← Option.some_inj.1 hwrite] at hmove ⊢
    exact writeNum_holds h hmove

theorem writeAll_holds : ∀ {a a' : StaticByteArray} {bs : List Byte} {vs : List Value},
    Holds a bs → (∀ s, .string s ∈ vs → s.length ≤ ushrtMax) → writeAll host a vs = some a' →
      Holds a' (bs ++ vs.flatMap (Value.encode host))
  | a, a', bs, [], h, _, hwrite => by
    rw [← Option.some_inj.1 hwrite]
    simpa using h
  | a, a', bs, v :: vs, h, hs, hwrite => by
    rw [writeAll] at hwrite
    split at hwrite
    · cases hwrite
    · rename_i a₁ hv
      split_ifs at hwrite with hmove
      rw [List.flatMap_cons, ← List.append_assoc]
      have hs' : ∀ s, v = .string s → s.length ≤ ushrtMax := fun s hv => hs s (by simp [hv])
      exact writeAll_holds (write_holds h hs' hv hmove)
        (fun s hmem => hs s (List.mem_cons_of_mem _ hmem)) hwrite

end Write

section Read

theorem take_holds (h : Holds a (bs ++ rest)) :
    load a.bufferCache a.hasReadLength.toNat bs.length = bs ∧
      Holds { a with hasReadLength := a.hasReadLength + bs.length } rest := by
  obtain ⟨h₁, h₂, h₃, h₄⟩ := h
  obtain ⟨hfront, hrest⟩ := load_of_append a.bufferCache h₄
  rw [List.length_append] at h₂
  refine ⟨hfront, ⟨?_, ?_, h₃, ?_⟩⟩
  · dsimp only
    omega
  · dsimp only
    omega
  · dsimp only
    rwa [show (a.hasReadLength + (bs.length : ℤ)).toNat = a.hasReadLength.toNat + bs.length by omega]

theorem readNum_holds {w n : ℕ} (hn : n < 256 ^ w) (h : Holds a (host.digits w n ++ rest)) :
    a.readNum host w = (n, { a with hasReadLength := a.hasReadLength + w }) ∧
      Holds { a with hasReadLength := a.hasReadLength + w } rest := by
  have hlen := h.length_eq
  rw [List.length_append, length_digits] at hlen
  obtain ⟨hload, hrest⟩ := take_holds h
  rw [length_digits] at hload hrest
  refine ⟨?_, hrest⟩
  unfold readNum
  rw [if_neg (by omega), readItemFromBuffer, hload, number_digits, Nat.mod_eq_of_lt hn]

/-- However the number is made a value, the read of it is that of the number written. -/
theorem readNum_value {k n : ℕ} (hn : n < 256 ^ k) {f : ℕ → Value} {v : Value} (hv : f n = v)
    (h : Holds a (host.digits k n ++ rest)) :
    ∃ a', (a.readNum host k).map (some ∘ f) id = (some v, a') ∧ Holds a' rest := by
  obtain ⟨hread, hrest⟩ := readNum_holds hn h
  refine ⟨_, ?_, hrest⟩
  rw [hread, Prod.map_apply, Function.comp_apply, hv, id_eq]

theorem readUint16_holds {v : UInt16} (h : Holds a (host.digits 2 v.toNat ++ rest)) :
    a.readUint16 host = (v, { a with hasReadLength := a.hasReadLength + 2 }) ∧
      Holds { a with hasReadLength := a.hasReadLength + 2 } rest := by
  obtain ⟨hread, hrest⟩ := readNum_holds v.toNat_lt h
  refine ⟨?_, hrest⟩
  unfold readUint16
  rw [hread]
  simp

theorem readString_holds {s : List Byte} (hs : s.length ≤ ushrtMax) (h0 : 0 ∉ s)
    (h : Holds a (host.digits 2 s.length ++ s ++ rest)) :
    ∃ a', a.readString host = (s, a') ∧ Holds a' rest := by
  have hlen : (UInt16.ofNat s.length).toNat = s.length := toNat_ofNat_length hs
  have hlength := h.length_eq
  rw [List.append_assoc, List.length_append, length_digits, List.length_append] at hlength
  rw [← hlen, List.append_assoc] at h
  obtain ⟨hread, hs'⟩ := readUint16_holds h
  obtain ⟨hload, hrest⟩ := take_holds hs'
  dsimp only at hload hrest
  refine ⟨_, ?_, hrest⟩
  unfold readString
  simp only [hread, hlen, stringLengthByteSize]
  rw [if_neg (by omega), if_neg (by omega), hload, cString_append_of_not_mem _ h0]
  simp [cString]

theorem readObject_holds {o : List Byte} (ho : 1 ≤ o.length) (h : Holds a (o ++ rest)) :
    ∃ a', a.readObject o.length = (some o, a') ∧ Holds a' rest := by
  obtain ⟨hload, hrest⟩ := take_holds h
  refine ⟨_, ?_, hrest⟩
  unfold readObject
  rw [bytesAvailable_eq h, if_neg (by rw [List.length_append]; omega), hload]

/-- The read of a kind takes the encoding from the front and returns the value. -/
theorem read_holds {v : Value} (hs : ∀ s, v = .string s → 0 ∉ s ∧ s.length ≤ ushrtMax)
    (ho : ∀ o, v = .object o → 1 ≤ o.length) (h : Holds a (v.encode host ++ rest)) :
    ∃ a', a.read host v.kind = (some v, a') ∧ Holds a' rest := by
  cases v with
  | int8 v =>
    exact readNum_value v.toUInt8.toNat_lt (f := fun n => .int8 (UInt8.ofNat n).toInt8) (by simp) h
  | uint8 v => exact readNum_value v.toNat_lt (f := fun n => .uint8 (.ofNat n)) (by simp) h
  | int16 v =>
    exact readNum_value v.toUInt16.toNat_lt (f := fun n => .int16 (UInt16.ofNat n).toInt16)
      (by simp) h
  | uint16 v => exact readNum_value v.toNat_lt (f := fun n => .uint16 (.ofNat n)) (by simp) h
  | int32 v =>
    exact readNum_value v.toUInt32.toNat_lt (f := fun n => .int32 (UInt32.ofNat n).toInt32)
      (by simp) h
  | uint32 v => exact readNum_value v.toNat_lt (f := fun n => .uint32 (.ofNat n)) (by simp) h
  | float bits => exact readNum_value bits.toNat_lt (f := fun n => .float (.ofNat n)) (by simp) h
  | int64 v =>
    exact readNum_value v.toUInt64.toNat_lt (f := fun n => .int64 (UInt64.ofNat n).toInt64)
      (by simp) h
  | uint64 v => exact readNum_value v.toNat_lt (f := fun n => .uint64 (.ofNat n)) (by simp) h
  | double bits => exact readNum_value bits.toNat_lt (f := fun n => .double (.ofNat n)) (by simp) h
  | string s =>
    obtain ⟨hs, h0⟩ := hs s rfl
    obtain ⟨a', hread, hrest⟩ := readString_holds h0 hs h
    exact ⟨a', by simp [read, Value.kind, hread], hrest⟩
  | object o =>
    obtain ⟨a', hread, hrest⟩ := readObject_holds (ho o rfl) h
    exact ⟨a', by simp [read, Value.kind, hread], hrest⟩

theorem readAll_holds : ∀ {a : StaticByteArray} {vs : List Value},
    (∀ s, .string s ∈ vs → 0 ∉ s ∧ s.length ≤ ushrtMax) → (∀ o, .object o ∈ vs → 1 ≤ o.length) →
      Holds a (vs.flatMap (Value.encode host)) →
        (readAll host a (vs.map Value.kind)).1 = vs.map some ∧
          Holds (readAll host a (vs.map Value.kind)).2 []
  | a, [], _, _, h => ⟨rfl, h⟩
  | a, v :: vs, hs, ho, h => by
    rw [List.flatMap_cons] at h
    obtain ⟨a', hread, hrest⟩ :=
      read_holds (fun s hv => hs s (by simp [hv])) (fun o hv => ho o (by simp [hv])) h
    obtain ⟨hreads, hend⟩ := readAll_holds (fun s hmem => hs s (List.mem_cons_of_mem _ hmem))
      (fun o hmem => ho o (List.mem_cons_of_mem _ hmem)) hrest
    rw [List.map_cons, readAll, hread]
    exact ⟨congrArg (some v :: ·) hreads, hend⟩

/-- No string that is read is longer than the length field allows or holds a NUL. -/
theorem readString_fst (a : StaticByteArray) :
    0 ∉ (a.readString host).1 ∧ (a.readString host).1.length ≤ ushrtMax := by
  unfold readString
  dsimp only
  split_ifs
  · simp
  · simp
  · rw [(cString_append_eq_iff _ [0]).2 (Or.inr rfl)]
    refine ⟨not_mem_cString _, (length_cString_le _).trans ?_⟩
    rw [length_load, ushrtMax]
    have := (a.readUint16 host).1.toNat_lt
    omega

theorem eq_readString_of_read {a : StaticByteArray} {k : Kind} {s : List Byte}
    (h : (a.read host k).1 = some (.string s)) : s = (a.readString host).1 := by
  cases k with
  | string => simpa [read, eq_comm] using h
  | _ => simp [read] at h

theorem mem_readAll : ∀ {a : StaticByteArray} {ks : List Kind} {s : List Byte},
    some (.string s) ∈ (readAll host a ks).1 → 0 ∉ s ∧ s.length ≤ ushrtMax
  | a, [], s, h => by simp [readAll] at h
  | a, k :: ks, s, h => by
    rw [readAll] at h
    rcases List.mem_cons.1 h with h | h
    · rw [eq_readString_of_read h.symm]
      exact readString_fst a
    · exact mem_readAll h

end Read

/-- The values come back, and nothing else is left, exactly when no string holds a NUL or is longer
than its length field allows. -/
theorem static_codec (host : Endian) (vs : List Value)
    (ho : ∀ o, .object o ∈ vs → 1 ≤ o.length)
    (hwrite : writeAll host {} vs = some a) :
    ((readAll host a (vs.map Value.kind)).1 = vs.map some ∧
        (readAll host a (vs.map Value.kind)).2.bytesAvailable = 0) ↔
      ∀ s, .string s ∈ vs → 0 ∉ s ∧ s.length ≤ ushrtMax := by
  constructor
  · rintro ⟨hreads, -⟩ s hmem
    have hread : some (.string s) ∈ (readAll host a (vs.map Value.kind)).1 := by
      rw [hreads]
      exact List.mem_map_of_mem hmem
    exact mem_readAll hread
  · intro hs
    have hholds := writeAll_holds holds_empty (fun s hmem => (hs s hmem).2) hwrite
    obtain ⟨hreads, hend⟩ := readAll_holds hs ho hholds
    exact ⟨hreads, bytesAvailable_eq hend⟩

/-- A string of one NUL is read back empty. -/
theorem static_codec_nul :
    ∃ a, writeAll .fwLittleEndian {} [.string [0]] = some a ∧
      (readAll .fwLittleEndian a [.string]).1 = [some (.string [])] := by
  refine ⟨_, rfl, ?_⟩
  decide

/-- A number, two strings of which one is empty, and an object. -/
def fourValues : List Value := [.uint16 258, .string [97, 98], .string [], .object [0, 1]]

theorem static_codec_four :
    ∃ a, writeAll .fwBigEndian {} fourValues = some a ∧
      (readAll .fwBigEndian a (fourValues.map Value.kind)).1 = fourValues.map some ∧
        (readAll .fwBigEndian a (fourValues.map Value.kind)).2.bytesAvailable = 0 :=
  ⟨_, rfl, (static_codec .fwBigEndian fourValues (by simp [fourValues]) rfl).2
    (by simp [fourValues, ushrtMax])⟩

end StaticByteArray

end Elegance
