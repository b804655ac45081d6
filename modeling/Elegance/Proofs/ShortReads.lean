import Elegance.Proofs.AnyByteArray

/-!
# Reading past the end

Where the item is not there in full, `QueueByteArray` makes a wide number of the bytes there are and
takes them, and `StaticByteArray::ReadString` takes the length of a string that does not follow; every
other read is left as it was (`harmless_iff`).
-/

namespace Elegance

open CInt Memory

section Digits

variable {e : Endian} {w : ℕ} {bs : List Byte}

theorem leBytes_leNat : ∀ bs : List Byte, leBytes bs.length (leNat bs) = bs
  | [] => rfl
  | b :: bs => by
    have hb := b.toNat_lt
    have hlow : (b.toNat + 256 * leNat bs) % 256 = b.toNat := by omega
    have hhigh : (b.toNat + 256 * leNat bs) / 256 = leNat bs := by omega
    rw [leNat, List.length_cons, leBytes, hlow, hhigh, leBytes_leNat bs, UInt8.ofNat_toNat]

theorem leNat_lt : ∀ bs : List Byte, leNat bs < 256 ^ bs.length
  | [] => by simp [leNat]
  | b :: bs => by
    have hb := b.toNat_lt
    have ih := leNat_lt bs
    rw [leNat, List.length_cons, pow_succ]
    omega

/-- Enough bytes begin with a number. -/
theorem exists_digits (e : Endian) (h : w ≤ bs.length) :
    ∃ n < 256 ^ w, bs = e.digits w n ++ bs.drop w := by
  have hlen : (bs.take w).length = w := List.length_take_of_le h
  have hlt := leNat_lt (bs.take w)
  have hlt' := leNat_lt (bs.take w).reverse
  have hbytes := leBytes_leNat (bs.take w)
  have hbytes' := leBytes_leNat (bs.take w).reverse
  rw [List.length_reverse, hlen] at hlt' hbytes'
  rw [hlen] at hlt hbytes
  cases e
  · refine ⟨_, hlt', ?_⟩
    rw [Endian.digits, hbytes', List.reverse_reverse, List.take_append_drop]
  · refine ⟨_, hlt, ?_⟩
    rw [Endian.digits, hbytes, List.take_append_drop]

end Digits

namespace QueueByteArray

variable {e : Endian} {bs : List Byte}

theorem readUint8_rest (q : QueueByteArray) :
    q.readUint8.2 = { q with bytesQueue := q.bytesQueue.drop 1 } := by
  obtain ⟨e, bs⟩ := q
  cases bs <;> rfl

theorem readUint16_rest (q : QueueByteArray) :
    q.readUint16.2 = { q with bytesQueue := q.bytesQueue.drop 2 } := by
  simp [readUint16, readUint8_rest]

theorem readUint32_rest (q : QueueByteArray) :
    q.readUint32.2 = { q with bytesQueue := q.bytesQueue.drop 4 } := by
  simp [readUint32, readUint16_rest]

theorem readUint64_rest (q : QueueByteArray) :
    q.readUint64.2 = { q with bytesQueue := q.bytesQueue.drop 8 } := by
  simp [readUint64, readUint32_rest]

/-- No number is read from an empty queue. -/
theorem readUint16_nil (e : Endian) : readUint16 ⟨e, []⟩ = (0, ⟨e, []⟩) := by
  cases e <;> rfl

theorem readUint32_nil (e : Endian) : readUint32 ⟨e, []⟩ = (0, ⟨e, []⟩) := by
  cases e <;> simp [readUint32, readUint16_nil]

theorem readUint64_nil (e : Endian) : readUint64 ⟨e, []⟩ = (0, ⟨e, []⟩) := by
  cases e <;> simp [readUint64, readUint32_nil]

theorem readInt32_nil (e : Endian) (behind : List Byte) :
    readInt32 ⟨e, []⟩ behind = (0, ⟨e, []⟩) := by
  have hzero := ofNat_transformType 0 behind
  simp only [readInt32, readUint32_nil, hzero]
  rfl

theorem readFloat_nil (e : Endian) : readFloat ⟨e, []⟩ = (0, ⟨e, []⟩) := by
  simp only [readFloat, readUint32_nil]
  rfl

end QueueByteArray

namespace AnyByteArray

variable {k : Kind} {w : ℕ}

section Numbers

/-- Any bytes are those of a number. -/
theorem exists_value (hk : k.width = some w) {n : ℕ} (hn : n < 256 ^ w) :
    ∃ v : Value, v.kind = k ∧ (∀ s, v ≠ .string s) ∧ ∀ e, v.encode e = e.digits w n := by
  cases k <;> simp only [Kind.width, Option.some.injEq, reduceCtorEq] at hk
  all_goals
    subst hk
    norm_num at hn
  · exact ⟨.int8 (UInt8.ofNat n).toInt8, rfl, by simp, by simp [Value.encode, Nat.mod_eq_of_lt hn]⟩
  · exact ⟨.uint8 (.ofNat n), rfl, by simp, by simp [Value.encode, Nat.mod_eq_of_lt hn]⟩
  · exact ⟨.int16 (UInt16.ofNat n).toInt16, rfl, by simp, by simp [Value.encode, Nat.mod_eq_of_lt hn]⟩
  · exact ⟨.uint16 (.ofNat n), rfl, by simp, by simp [Value.encode, Nat.mod_eq_of_lt hn]⟩
  · exact ⟨.int32 (UInt32.ofNat n).toInt32, rfl, by simp, by simp [Value.encode, Nat.mod_eq_of_lt hn]⟩
  · exact ⟨.uint32 (.ofNat n), rfl, by simp, by simp [Value.encode, Nat.mod_eq_of_lt hn]⟩
  · exact ⟨.float (.ofNat n), rfl, by simp, by simp [Value.encode, Nat.mod_eq_of_lt hn]⟩
  · exact ⟨.int64 (UInt64.ofNat n).toInt64, rfl, by simp, by simp [Value.encode, Nat.mod_eq_of_lt hn]⟩
  · exact ⟨.uint64 (.ofNat n), rfl, by simp, by simp [Value.encode, Nat.mod_eq_of_lt hn]⟩
  · exact ⟨.double (.ofNat n), rfl, by simp, by simp [Value.encode, Nat.mod_eq_of_lt hn]⟩

theorem holdsItem_of_width {b : AnyByteArray} (hk : k.width = some w) (h : w ≤ b.unread.length) :
    b.HoldsItem k := by
  obtain ⟨n, hn, hbytes⟩ := exists_digits b.wire h
  obtain ⟨v, hkind, hs, hencode⟩ := exists_value hk hn
  exact ⟨v, _, hkind, fun s hv => absurd hv (hs s), by rw [hencode]; exact hbytes⟩

theorem length_encode_of_width {e : Endian} {v : Value} (hk : v.kind.width = some w) :
    (v.encode e).length = w := by
  cases v <;> simp only [Value.kind, Kind.width, Option.some.injEq, reduceCtorEq] at hk <;> subst hk
  all_goals rw [Value.encode, length_digits]

theorem not_holdsItem_of_width {b : AnyByteArray} (hk : k.width = some w)
    (h : b.unread.length < w) : ¬ b.HoldsItem k := by
  rintro ⟨v, rest, rfl, -, hbytes⟩
  rw [hbytes, List.length_append, length_encode_of_width hk] at h
  omega

theorem queue_read_rest (q : QueueByteArray) (behind : List Byte) (hk : k.width = some w) :
    (q.read behind k).2 = { q with bytesQueue := q.bytesQueue.drop w } := by
  cases k <;> simp only [Kind.width, Option.some.injEq, reduceCtorEq] at hk <;> subst hk
  all_goals simp [QueueByteArray.read, QueueByteArray.readInt8, QueueByteArray.readInt16,
    QueueByteArray.readInt32, QueueByteArray.readFloat, QueueByteArray.readInt64,
    QueueByteArray.readDouble, QueueByteArray.readUint8_rest, QueueByteArray.readUint16_rest,
    QueueByteArray.readUint32_rest, QueueByteArray.readUint64_rest]

theorem queue_read_nil (e : Endian) (behind : List Byte) (hk : k.width = some w) :
    (QueueByteArray.read ⟨e, []⟩ behind k).1 = nothing k := by
  cases k <;> simp only [Kind.width, reduceCtorEq] at hk
  all_goals simp [QueueByteArray.read, nothing, QueueByteArray.readUint8, QueueByteArray.readInt8,
    QueueByteArray.readInt16, QueueByteArray.readInt64, QueueByteArray.readDouble,
    QueueByteArray.readUint16_nil, QueueByteArray.readInt32_nil, QueueByteArray.readUint32_nil,
    QueueByteArray.readFloat_nil, QueueByteArray.readUint64_nil]

theorem static_read_short {a : StaticByteArray} (hk : k.width = some w)
    (h : a.hasWriteLength < a.hasReadLength + w) (host : Endian) :
    a.read host k = (nothing k, a) := by
  cases k <;> simp only [Kind.width, Option.some.injEq, reduceCtorEq] at hk <;> subst hk
  all_goals
    push_cast at h
    simp [StaticByteArray.read, StaticByteArray.readInt8, StaticByteArray.readUint8,
      StaticByteArray.readInt16, StaticByteArray.readUint16, StaticByteArray.readInt32,
      StaticByteArray.readUint32, StaticByteArray.readFloat, StaticByteArray.readInt64,
      StaticByteArray.readUint64, StaticByteArray.readDouble, StaticByteArray.readNum, nothing, h]

end Numbers

section Strings

variable {b : AnyByteArray}

/-- No string stands at the front: the length is missing, or what it announces. -/
theorem short_string (h : ¬ b.HoldsItem .string) : b.unread.length < 2 ∨
    ∃ n < 65536, ∃ rest, b.unread = b.wire.digits 2 n ++ rest ∧ rest.length < n := by
  by_cases hlen : b.unread.length < 2
  · exact .inl hlen
  obtain ⟨n, hn, hbytes⟩ := exists_digits b.wire (not_lt.1 hlen)
  refine .inr ⟨n, hn, _, hbytes, ?_⟩
  by_contra hle
  set rest := b.unread.drop 2
  have hs : (rest.take n).length = n := List.length_take_of_le (not_lt.1 hle)
  refine h ⟨.string (rest.take n), rest.drop n, rfl, fun s hv => ?_, ?_⟩
  · rw [← Value.string.inj hv, hs, ushrtMax]
    omega
  · rw [Value.encode, hs, List.append_assoc, List.take_append_drop]
    exact hbytes

theorem short_object {size : ℕ} (h : ¬ b.HoldsItem (.object size)) : b.unread.length < size := by
  by_contra hle
  have ho : (b.unread.take size).length = size := List.length_take_of_le (not_lt.1 hle)
  refine h ⟨.object (b.unread.take size), b.unread.drop size, ?_, by simp, ?_⟩
  · rw [Value.kind, ho]
  · rw [Value.encode, List.take_append_drop]

theorem queue_readString_short {e : Endian} {bs : List Byte} (h : bs.length < 2 ∨
    ∃ n < 65536, ∃ rest, bs = e.digits 2 n ++ rest ∧ rest.length < n) :
    QueueByteArray.readString ⟨e, bs⟩ = ([], ⟨e, bs⟩) := by
  rcases h with h | ⟨n, hn, rest, rfl, hrest⟩
  · rcases bs with _ | ⟨b, _ | ⟨b', bs⟩⟩
    · rfl
    · rfl
    · simp only [List.length_cons] at h
      omega
  · have hlen : n / 256 % 256 * 256 + n % 256 = n := by omega
    have hlow : (UInt8.ofNat (n % 256)).toNat = n % 256 := by simp
    have hhigh : (UInt8.ofNat (n / 256 % 256)).toNat = n / 256 % 256 := by simp
    unfold QueueByteArray.readString
    cases e <;> simp only [Endian.digits, leBytes, List.reverse_cons, List.reverse_nil,
      List.nil_append, List.cons_append, hlow, hhigh, hlen]
    all_goals rw [if_pos (by simp only [List.length_cons]; omega)]

theorem static_readString_short {host : Endian} {a : StaticByteArray} {n : ℕ} {rest : List Byte}
    (hn : n < 65536) (h : StaticByteArray.Holds a (host.digits 2 n ++ rest))
    (hrest : rest.length < n) :
    a.readString host = ([], { a with hasReadLength := a.hasReadLength + 2 }) := by
  have hmod : (UInt16.ofNat n).toNat = n := toNat_ofNat_length (Nat.le_of_lt_succ hn)
  have hlength := h.length_eq
  rw [List.length_append, length_digits] at hlength
  rw [← hmod] at h
  obtain ⟨hread, -⟩ := StaticByteArray.readUint16_holds h
  unfold StaticByteArray.readString
  simp only [hread, hmod, stringLengthByteSize]
  rw [if_neg (by omega), if_pos (by omega)]

end Strings

section Harmless

variable {behind : Behind} {b : AnyByteArray}

theorem harmless_number (hb : b.Valid) (hk : k.width = some w) (hlen : b.unread.length < w) :
    b.Harmless behind k ↔ b.TakesWhole k := by
  cases b with
  | queue q =>
    obtain ⟨e, bs⟩ := q
    have hlen : bs.length < w := hlen
    have hrest := queue_read_rest ⟨e, bs⟩ (behind (queue ⟨e, bs⟩)) hk
    have hunread : ((queue ⟨e, bs⟩).read behind k).2.unread = bs.drop w :=
      congrArg QueueByteArray.bytesQueue hrest
    have hkind : ¬ (k = .string ∨ ∃ size, k = .object size) := by
      rintro (rfl | ⟨size, rfl⟩) <;> simp [Kind.width] at hk
    simp only [Harmless, TakesWhole, hunread, List.drop_eq_nil_of_le hlen.le, hkind, or_false]
    constructor
    · exact fun h => h.2.symm
    · intro h
      obtain rfl : bs = [] := h
      exact ⟨queue_read_nil e _ hk, rfl⟩
  | static curEndian a =>
    have hlength := (StaticByteArray.Bounded.holds hb).length_eq
    have hlen : a.unread.length < w := hlen
    have hread := static_read_short hk (a := a) (by omega) .fwLittleEndian
    refine iff_of_true ?_ (.inr ?_)
    · simp [Harmless, read, hread, unread]
    · rintro rfl
      simp [Kind.width] at hk

theorem harmless_object {size : ℕ} (hb : b.Valid) (hlen : b.unread.length < size) :
    b.Harmless behind (.object size) ↔ b.TakesWhole (.object size) := by
  cases b with
  | queue q =>
    have hlen : q.bytesQueue.length < size := hlen
    refine iff_of_true ?_ (.inr (.inr ⟨size, rfl⟩))
    simp [Harmless, read, QueueByteArray.read, QueueByteArray.readObject, hlen, nothing, unread]
  | static curEndian a =>
    have hlen : a.unread.length < size := hlen
    refine iff_of_true ?_ (.inr fun h => by cases h)
    have hread : a.readObject size = (none, a) := by
      unfold StaticByteArray.readObject
      rw [StaticByteArray.bytesAvailable_eq (StaticByteArray.Bounded.holds hb),
        if_pos (Or.inr hlen)]
    simp [Harmless, read, StaticByteArray.read, hread, nothing, unread]

/-- The length of a string that does not follow is taken from a `StaticByteArray`. -/
theorem not_harmless_length {curEndian : Endian} {a : StaticByteArray} {n : ℕ} {rest : List Byte}
    (hn : n < 65536) (h : StaticByteArray.Holds a (Endian.fwLittleEndian.digits 2 n ++ rest))
    (hrest : rest.length < n) : ¬ (static curEndian a).Harmless behind .string := by
  rintro ⟨-, htaken⟩
  have hafter := (StaticByteArray.take_holds h).2.unread_eq
  rw [length_digits] at hafter
  simp only [read, StaticByteArray.read, static_readString_short hn h hrest, unread,
    Prod.map_snd] at htaken
  have hlen := congrArg List.length (hafter.symm.trans (htaken.trans h.unread_eq))
  rw [List.length_append, length_digits] at hlen
  omega

theorem harmless_string (hb : b.Valid) (hshort : ¬ b.HoldsItem .string) :
    b.Harmless behind .string ↔ b.TakesWhole .string := by
  have hcases := short_string hshort
  cases b with
  | queue q =>
    have hread : q.readString = ([], q) := queue_readString_short hcases
    refine iff_of_true ?_ (.inr (.inl rfl))
    simp [Harmless, read, QueueByteArray.read, hread, nothing, unread]
  | static curEndian a =>
    have hholds := StaticByteArray.Bounded.holds hb
    rcases hcases with hlen | ⟨n, hn, rest, hbytes, hrest⟩
    · refine iff_of_true ?_ (.inr fun _ => hlen)
      have hlength := hholds.length_eq
      have hlen : a.unread.length < 2 := hlen
      have hread : a.readString .fwLittleEndian = ([], a) := by
        unfold StaticByteArray.readString
        rw [stringLengthByteSize, if_pos (by omega)]
      simp [Harmless, read, StaticByteArray.read, hread, nothing, unread]
    · have hbytes : a.unread = Endian.fwLittleEndian.digits 2 n ++ rest := hbytes
      have hlen : a.unread.length = 2 + rest.length := by
        rw [hbytes, List.length_append, length_digits]
      rw [hbytes] at hholds
      refine iff_of_false (not_harmless_length hn hholds hrest) ?_
      rintro (hnil | htwo)
      · rw [show a.unread = [] from hnil, List.length_nil] at hlen
        omega
      · have := htwo rfl
        rw [stringLengthByteSize] at this
        omega

end Harmless

/-- A read of an item that is not there in full returns nothing and takes nothing, exactly where it
looks at all of the item first. -/
theorem harmless_iff (behind : Behind) (b : AnyByteArray) (k : Kind) (hb : b.Valid)
    (hshort : ¬ b.HoldsItem k) : b.Harmless behind k ↔ b.TakesWhole k := by
  rcases hk : k.width with _ | w
  · cases k with
    | string => exact harmless_string hb hshort
    | object size => exact harmless_object hb (short_object hshort)
    | _ => simp [Kind.width] at hk
  · refine harmless_number hb hk ?_
    by_contra hle
    exact hshort (holdsItem_of_width hk (not_lt.1 hle))

/-- One byte is left, and a number of two is asked for. -/
theorem not_harmless_oneByte : ¬ (queue ⟨.fwLittleEndian, [7]⟩).HoldsItem .uint16 ∧
    ¬ (queue ⟨.fwLittleEndian, [7]⟩).Harmless (fun _ => []) .uint16 := by
  refine ⟨not_holdsItem_of_width rfl (by decide), ?_⟩
  rintro ⟨hvalue, -⟩
  revert hvalue
  decide

/-- A string of five bytes is announced, and two of them are there. -/
def announced : AnyByteArray := queue ⟨.fwLittleEndian, [5, 0, 97, 98]⟩

theorem not_holdsItem_announced : ¬ announced.HoldsItem .string := by
  rintro ⟨v, rest, hkind, -, hbytes⟩
  cases v with
  | string s =>
    rw [Value.encode, List.append_assoc] at hbytes
    have hfirst := congrArg (List.take 2) hbytes
    rw [List.take_left' (length_digits _ _ _)] at hfirst
    have hlen := congrArg List.length hbytes
    rw [List.length_append, List.length_append, length_digits] at hlen
    have hle : s.length ≤ 2 := by
      have hfour : announced.unread.length = 4 := rfl
      omega
    revert hfirst
    interval_cases s.length <;> decide
  | _ => cases hkind

/-- The string is not there, and neither is a number of four bytes where three are left. -/
theorem harmless_announced : announced.Harmless (fun _ => [1, 2, 3]) .string ∧
    (static .fwLittleEndian ⟨fun _ => 7, 3, 6⟩).Harmless (fun _ => []) .uint32 :=
  ⟨(harmless_iff _ announced _ trivial not_holdsItem_announced).2 (.inr (.inl rfl)),
    (harmless_iff _ (static .fwLittleEndian ⟨fun _ => 7, 3, 6⟩) _ ⟨by decide, by decide, by decide⟩
      (not_holdsItem_of_width rfl (by decide))).2 (.inr nofun)⟩

end AnyByteArray

end Elegance
