import Elegance.QueueByteArray

/-!
# The bytes of the queue

A write appends the encoding of its value (`write_eq`), and the read of that kind takes the same
bytes from the front and returns the value (`read_encode`), whatever follows them. So at any point
of a run the queue holds the encodings of what was written and not read yet (`queue_codec`).
-/

namespace Elegance

open CInt Machine

section Digits

theorem leBytes_add : ∀ j k n, leBytes (j + k) n = leBytes j n ++ leBytes k (n / 256 ^ j)
  | 0, k, n => by simp [leBytes]
  | j + 1, k, n => by
    rw [Nat.add_right_comm, leBytes, leBytes, leBytes_add j k, List.cons_append, pow_succ',
      Nat.div_div_eq_div_mul]

theorem leBytes_mod : ∀ k n, leBytes k (n % 256 ^ k) = leBytes k n
  | 0, n => rfl
  | k + 1, n => by
    have h : n % 256 ^ (k + 1) / 256 = n / 256 % 256 ^ k := by
      rw [pow_succ', Nat.mod_mul_right_div_self]
    have h' : n % 256 ^ (k + 1) % 256 = n % 256 :=
      Nat.mod_mod_of_dvd n ⟨256 ^ k, pow_succ' 256 k⟩
    rw [leBytes, leBytes, h, h', leBytes_mod k]

theorem leNat_append : ∀ a b, leNat (a ++ b) = leNat a + 256 ^ a.length * leNat b
  | [], b => by simp [leNat]
  | x :: a, b => by
    rw [List.cons_append, leNat, leNat, leNat_append a b, List.length_cons, pow_succ']
    ring

theorem length_digits (e : Endian) (w n : ℕ) : (e.digits w n).length = w := by
  cases e <;> simp [Endian.digits, length_leBytes]

theorem number_digits (e : Endian) (w n : ℕ) : e.number (e.digits w n) = n % 256 ^ w := by
  cases e
  · rw [Endian.number, Endian.digits, List.reverse_reverse, leNat_leBytes]
  · rw [Endian.number, Endian.digits, leNat_leBytes]

/-- A number is its two halves, the high one first on a big-endian wire. -/
theorem digits_two (w n : ℕ) :
    Endian.fwBigEndian.digits (w + w) n =
        Endian.fwBigEndian.digits w (n / 256 ^ w) ++ Endian.fwBigEndian.digits w n ∧
      Endian.fwLittleEndian.digits (w + w) n =
        Endian.fwLittleEndian.digits w n ++ Endian.fwLittleEndian.digits w (n / 256 ^ w) := by
  simp only [Endian.digits]
  rw [leBytes_add, List.reverse_append]
  exact ⟨rfl, rfl⟩

/-- A length that fits its two bytes is the one they hold. -/
theorem toNat_ofNat_length {n : ℕ} (h : n ≤ ushrtMax) : (UInt16.ofNat n).toNat = n :=
  UInt16.toNat_ofNat_of_lt' (Nat.lt_succ_of_le h)

theorem digits_one (e : Endian) (v : UInt8) : e.digits 1 v.toNat = [v] := by
  cases e <;> simp [Endian.digits, leBytes]

theorem digits_mod (e : Endian) (w n : ℕ) : e.digits w (n % 256 ^ w) = e.digits w n := by
  cases e <;> simp only [Endian.digits, leBytes_mod]

end Digits

section Halves

theorem uint16_halves (v : UInt16) :
    (v >>> 8).toUInt8.toNat = v.toNat / 256 ∧ (v % 256).toUInt8.toNat = v.toNat % 256 := by
  have h := v.toNat_lt
  constructor
  · simp [Nat.shiftRight_eq_div_pow]
    omega
  · simp

theorem uint16_join (left right : UInt8) :
    ((left.toUInt16 <<< 8) + right.toUInt16).toNat = left.toNat * 256 + right.toNat := by
  have h := left.toNat_lt
  have h' := right.toNat_lt
  simp [Nat.shiftLeft_eq]
  omega

theorem uint32_halves (v : UInt32) :
    (v >>> 16).toUInt16.toNat = v.toNat / 65536 ∧
      ((v <<< 16) >>> 16).toUInt16.toNat = v.toNat % 65536 := by
  have h := v.toNat_lt
  constructor
  · simp [Nat.shiftRight_eq_div_pow]
    omega
  · simp [Nat.shiftRight_eq_div_pow, Nat.shiftLeft_eq]
    omega

theorem uint32_join (left right : UInt16) :
    ((left.toUInt32 <<< 16) + right.toUInt32).toNat = left.toNat * 65536 + right.toNat := by
  have h := left.toNat_lt
  have h' := right.toNat_lt
  simp [Nat.shiftLeft_eq]
  omega

theorem uint64_halves (v : UInt64) :
    (v >>> 32).toUInt32.toNat = v.toNat / 4294967296 ∧
      ((v <<< 32) >>> 32).toUInt32.toNat = v.toNat % 4294967296 := by
  have h := v.toNat_lt
  constructor
  · simp [Nat.shiftRight_eq_div_pow]
    omega
  · simp [Nat.shiftRight_eq_div_pow, Nat.shiftLeft_eq]
    omega

theorem uint64_join (left right : UInt32) :
    ((left.toUInt64 <<< 32) + right.toUInt64).toNat = left.toNat * 4294967296 + right.toNat := by
  have h := left.toNat_lt
  have h' := right.toNat_lt
  simp [Nat.shiftLeft_eq]
  omega

end Halves

namespace QueueByteArray

section Write

theorem writeUint8_eq (q : QueueByteArray) (v : UInt8) :
    q.writeUint8 v = { q with bytesQueue := q.bytesQueue ++ q.endian.digits 1 v.toNat } := by
  rw [digits_one]
  rfl

theorem writeUint16_eq (q : QueueByteArray) (v : UInt16) :
    q.writeUint16 v = { q with bytesQueue := q.bytesQueue ++ q.endian.digits 2 v.toNat } := by
  obtain ⟨e, bs⟩ := q
  obtain ⟨hhigh, hlow⟩ := uint16_halves v
  obtain ⟨hbe, hle⟩ := digits_two 1 v.toNat
  have hmod := fun e : Endian => digits_mod e 1 v.toNat
  rw [pow_one] at hbe hle hmod
  unfold writeUint16
  cases e <;> simp only [writeUint8_eq, hhigh, hlow, hmod, List.append_assoc]
  · rw [hbe]
  · rw [hle]

theorem writeUint32_eq (q : QueueByteArray) (v : UInt32) :
    q.writeUint32 v = { q with bytesQueue := q.bytesQueue ++ q.endian.digits 4 v.toNat } := by
  obtain ⟨e, bs⟩ := q
  obtain ⟨hhigh, hlow⟩ := uint32_halves v
  obtain ⟨hbe, hle⟩ := digits_two 2 v.toNat
  have hmod := fun e : Endian => digits_mod e 2 v.toNat
  unfold writeUint32
  cases e <;> simp only [writeUint16_eq, hhigh, hlow, List.append_assoc]
  · rw [hbe, ← hmod]
    rfl
  · rw [hle, ← hmod]
    rfl

theorem writeUint64_eq (q : QueueByteArray) (v : UInt64) :
    q.writeUint64 v = { q with bytesQueue := q.bytesQueue ++ q.endian.digits 8 v.toNat } := by
  obtain ⟨e, bs⟩ := q
  obtain ⟨hhigh, hlow⟩ := uint64_halves v
  obtain ⟨hbe, hle⟩ := digits_two 4 v.toNat
  have hmod := fun e : Endian => digits_mod e 4 v.toNat
  unfold writeUint64
  cases e <;> simp only [writeUint32_eq, hhigh, hlow, List.append_assoc]
  · rw [hbe, ← hmod]
    rfl
  · rw [hle, ← hmod]
    rfl

/-- What lies behind a number is cut off again. -/
theorem ofNat_transformType (bits : UInt32) (behind : List Byte) :
    UInt32.ofNat (transformType sizeofLong (leBytes 4 bits.toNat ++ behind)) = bits := by
  have hbits := bits.toNat_lt
  have hlen := length_leBytes 4 bits.toNat
  have htake : (leBytes 4 bits.toNat).take 8 = leBytes 4 bits.toNat :=
    List.take_of_length_le (by omega)
  rw [← UInt32.toNat_inj, UInt32.toNat_ofNat', transformType, sizeofLong, List.take_append, htake,
    leNat_append, hlen, leNat_leBytes]
  omega

theorem writeFloat_eq (q : QueueByteArray) (bits : UInt32) (behind : List Byte) :
    q.writeFloat bits behind =
      { q with bytesQueue := q.bytesQueue ++ q.endian.digits 4 bits.toNat } := by
  rw [writeFloat, ofNat_transformType, writeUint32_eq]

theorem writeString_eq (q : QueueByteArray) {s : List Byte} (hs : s.length ≤ ushrtMax) :
    q.writeString s =
      { q with bytesQueue := q.bytesQueue ++ (q.endian.digits 2 s.length ++ s) } := by
  unfold writeString
  rw [if_neg (by omega)]
  simp only [writeUint16_eq, toNat_ofNat_length hs, List.append_assoc]

theorem writeObject_eq (q : QueueByteArray) (obj : List Byte) (bytesLen : ℤ) :
    q.writeObject obj bytesLen =
      { q with bytesQueue := q.bytesQueue ++ obj.take bytesLen.toNat } := by
  unfold writeObject
  split_ifs with hlen
  · simp [Int.toNat_of_nonpos hlen]
  · rfl

/-- A write appends the encoding. -/
theorem write_eq (q : QueueByteArray) (behind : List Byte) {v : Value}
    (hv : ∀ s, v = .string s → s.length ≤ ushrtMax) :
    q.write behind v = { q with bytesQueue := q.bytesQueue ++ v.encode q.endian } := by
  cases v with
  | int8 v => exact writeUint8_eq q v.toUInt8
  | uint8 v => exact writeUint8_eq q v
  | int16 v => exact writeUint16_eq q v.toUInt16
  | uint16 v => exact writeUint16_eq q v
  | int32 v => exact writeUint32_eq q v.toUInt32
  | uint32 v => exact writeUint32_eq q v
  | float bits => exact writeFloat_eq q bits behind
  | int64 v => exact writeUint64_eq q v.toUInt64
  | uint64 v => exact writeUint64_eq q v
  | double bits => exact writeUint64_eq q bits
  | string s => exact writeString_eq q (hv s rfl)
  | object o =>
    rw [write, writeObject_eq, Int.toNat_natCast, List.take_length]
    rfl

end Write

section Read

variable (e : Endian) (rest behind : List Byte)

theorem readUint8_digits (v : UInt8) :
    readUint8 ⟨e, e.digits 1 v.toNat ++ rest⟩ = (v, ⟨e, rest⟩) := by
  rw [digits_one]
  rfl

theorem readUint16_digits (v : UInt16) :
    readUint16 ⟨e, e.digits 2 v.toNat ++ rest⟩ = (v, ⟨e, rest⟩) := by
  obtain ⟨hhigh, hlow⟩ := uint16_halves v
  obtain ⟨hbe, hle⟩ := digits_two 1 v.toNat
  have hmod := fun e : Endian => digits_mod e 1 v.toNat
  rw [pow_one] at hbe hle hmod
  unfold readUint16
  cases e
  · rw [hbe, ← hmod, ← hhigh, ← hlow, List.append_assoc]
    simp only [readUint8_digits, Prod.mk.injEq, and_true]
    rw [← UInt16.toNat_inj, uint16_join, hhigh, hlow]
    omega
  · rw [hle, ← hmod, ← hhigh, ← hlow, List.append_assoc]
    simp only [readUint8_digits, Prod.mk.injEq, and_true]
    rw [← UInt16.toNat_inj, UInt16.add_comm, uint16_join, hhigh, hlow]
    omega

theorem readUint32_digits (v : UInt32) :
    readUint32 ⟨e, e.digits 4 v.toNat ++ rest⟩ = (v, ⟨e, rest⟩) := by
  obtain ⟨hhigh, hlow⟩ := uint32_halves v
  obtain ⟨hbe, hle⟩ := digits_two 2 v.toNat
  have hmod := fun e : Endian => digits_mod e 2 v.toNat
  norm_num at hbe hle hmod
  unfold readUint32
  cases e
  · rw [hbe, ← hmod, ← hhigh, ← hlow, List.append_assoc]
    simp only [readUint16_digits, Prod.mk.injEq, and_true]
    rw [← UInt32.toNat_inj, uint32_join, hhigh, hlow]
    omega
  · rw [hle, ← hmod, ← hhigh, ← hlow, List.append_assoc]
    simp only [readUint16_digits, Prod.mk.injEq, and_true]
    rw [← UInt32.toNat_inj, UInt32.add_comm, uint32_join, hhigh, hlow]
    omega

theorem readUint64_digits (v : UInt64) :
    readUint64 ⟨e, e.digits 8 v.toNat ++ rest⟩ = (v, ⟨e, rest⟩) := by
  obtain ⟨hhigh, hlow⟩ := uint64_halves v
  obtain ⟨hbe, hle⟩ := digits_two 4 v.toNat
  have hmod := fun e : Endian => digits_mod e 4 v.toNat
  norm_num at hbe hle hmod
  unfold readUint64
  cases e
  · rw [hbe, ← hmod, ← hhigh, ← hlow, List.append_assoc]
    simp only [readUint32_digits, Prod.mk.injEq, and_true]
    rw [← UInt64.toNat_inj, uint64_join, hhigh, hlow]
    omega
  · rw [hle, ← hmod, ← hhigh, ← hlow, List.append_assoc]
    simp only [readUint32_digits, Prod.mk.injEq, and_true]
    rw [← UInt64.toNat_inj, UInt64.add_comm, uint64_join, hhigh, hlow]
    omega

theorem readFloat_digits (bits : UInt32) :
    readFloat ⟨e, e.digits 4 bits.toNat ++ rest⟩ = (bits, ⟨e, rest⟩) := by
  have hbits := bits.toNat_lt
  have hvalue : UInt32.ofNat (transformType 4 (leBytes sizeofLong bits.toNat)) = bits := by
    rw [transformType, sizeofLong, leBytes_add 4 4, List.take_left' (length_leBytes 4 _),
      leNat_leBytes, Nat.mod_eq_of_lt (by omega), UInt32.ofNat_toNat]
  unfold readFloat
  rw [readUint32_digits]
  simp only [hvalue]

theorem readInt32_digits (v : Int32) :
    readInt32 ⟨e, e.digits 4 v.toUInt32.toNat ++ rest⟩ behind = (v, ⟨e, rest⟩) := by
  unfold readInt32
  rw [readUint32_digits]
  simp only [ofNat_transformType]
  rfl

theorem readString_digits {s : List Byte} (hs : s.length ≤ ushrtMax) :
    readString ⟨e, e.digits 2 s.length ++ s ++ rest⟩ = (s, ⟨e, rest⟩) := by
  rw [ushrtMax] at hs
  have hlen : s.length / 256 % 256 * 256 + s.length % 256 = s.length := by omega
  have hlow : (UInt8.ofNat (s.length % 256)).toNat = s.length % 256 := by simp
  have hhigh : (UInt8.ofNat (s.length / 256 % 256)).toNat = s.length / 256 % 256 := by simp
  unfold readString
  cases e <;> simp only [Endian.digits, leBytes, List.reverse_cons, List.reverse_nil,
    List.nil_append, List.cons_append, hlow, hhigh, hlen]
  all_goals
    rw [if_neg (by simp only [List.length_cons, List.length_append]; omega), List.take_left,
      List.drop_left]

theorem readObject_append {o : List Byte} (ho : 1 ≤ o.length) :
    readObject ⟨e, o ++ rest⟩ o.length = (some o, ⟨e, rest⟩) := by
  unfold readObject
  rw [if_neg (by simp), if_neg (by omega)]
  simp only [List.take_left, List.drop_left]

/-- The read of a kind takes what its write appended, and returns the value. -/
theorem read_encode {v : Value} (hs : ∀ s, v = .string s → s.length ≤ ushrtMax)
    (ho : ∀ o, v = .object o → 1 ≤ o.length) :
    read ⟨e, v.encode e ++ rest⟩ behind v.kind = (some v, ⟨e, rest⟩) := by
  cases v with
  | int8 v => simp [read, Value.kind, Value.encode, readInt8, readUint8_digits]
  | uint8 v => simp [read, Value.kind, Value.encode, readUint8_digits]
  | int16 v => simp [read, Value.kind, Value.encode, readInt16, readUint16_digits]
  | uint16 v => simp [read, Value.kind, Value.encode, readUint16_digits]
  | int32 v => simp [read, Value.kind, Value.encode, readInt32_digits]
  | uint32 v => simp [read, Value.kind, Value.encode, readUint32_digits]
  | float bits => simp [read, Value.kind, Value.encode, readFloat_digits]
  | int64 v => simp [read, Value.kind, Value.encode, readInt64, readUint64_digits]
  | uint64 v => simp [read, Value.kind, Value.encode, readUint64_digits]
  | double bits => simp [read, Value.kind, Value.encode, readDouble, readUint64_digits]
  | string s =>
    simp only [read, Value.kind, Value.encode, readString_digits e rest (hs s rfl)]
    rfl
  | object o =>
    simp only [read, Value.kind, Value.encode, readObject_append e rest (ho o rfl)]
    rfl

end Read

end QueueByteArray

/-- The values a run writes. -/
def written : List QueueEvent → List Value
  | [] => []
  | .write v _ :: es => v :: written es
  | .read _ :: es => written es

namespace QueueCalls

/-- What a run keeps: the queue holds what is pending, which can be read back, and every read
returned its value. -/
structure Inv (e : Endian) (w : QueueCalls) : Prop where
  endian : w.queue.endian = e
  bytes : w.queue.bytesQueue = w.pending.flatMap (Value.encode e)
  object_length : ∀ o, .object o ∈ w.pending → 1 ≤ o.length
  string_length : ∀ s, .string s ∈ w.pending → s.length ≤ ushrtMax
  reads : ∀ r ∈ w.reads, r.2 = some r.1

theorem inv_start (e : Endian) : Inv e (start e) where
  endian := rfl
  bytes := rfl
  object_length := by simp [start]
  string_length := by simp [start]
  reads := by simp [start]

variable {e : Endian} {w : QueueCalls}

theorem inv_write (h : Inv e w) {v : Value} {behind : List Byte} (hv : Can w (.write v behind)) :
    Inv e (step w (.write v behind)) := by
  have hs : ∀ s, v = .string s → s.length ≤ ushrtMax := by
    rintro s rfl
    exact hv
  have ho : ∀ o, v = .object o → 1 ≤ o.length := by
    rintro o rfl
    exact hv.1
  have hwrite := QueueByteArray.write_eq w.queue behind hs
  rw [h.endian] at hwrite
  constructor
  · exact congrArg QueueByteArray.endian hwrite
  · simp only [step, hwrite, List.flatMap_append, List.flatMap_singleton]
    rw [h.bytes]
  · intro o hmem
    rcases List.mem_append.1 hmem with hmem | hmem
    · exact h.object_length o hmem
    · exact ho o (List.mem_singleton.1 hmem).symm
  · intro s hmem
    rcases List.mem_append.1 hmem with hmem | hmem
    · exact h.string_length s hmem
    · exact hs s (List.mem_singleton.1 hmem).symm
  · exact h.reads

theorem inv_read (h : Inv e w) (behind : List Byte) : Inv e (step w (.read behind)) := by
  obtain ⟨⟨e', bs⟩, pending, reads⟩ := w
  obtain ⟨rfl, hbytes, hobject, hstring, hreads⟩ := h
  rcases pending with _ | ⟨v, pending⟩
  · exact ⟨rfl, hbytes, hobject, hstring, hreads⟩
  dsimp only at hbytes hobject hstring hreads
  have hread := QueueByteArray.read_encode e' (pending.flatMap (Value.encode e')) behind
    (v := v) (fun s hs => hstring s (by simp [hs])) (fun o ho => hobject o (by simp [ho]))
  rw [List.flatMap_cons] at hbytes
  subst hbytes
  simp only [step, hread]
  constructor
  · rfl
  · rfl
  · exact fun o ho => hobject o (List.mem_cons_of_mem _ ho)
  · exact fun s hs => hstring s (List.mem_cons_of_mem _ hs)
  · intro r hr
    rcases List.mem_append.1 hr with hr | hr
    · exact hreads r hr
    · rw [List.mem_singleton.1 hr]

theorem inv_step (h : Inv e w) {ev : QueueEvent} (hev : Can w ev) : Inv e (step w ev) := by
  cases ev with
  | write v behind => exact inv_write h hev
  | read behind => exact inv_read h behind

theorem values_step (w : QueueCalls) (ev : QueueEvent) :
    (step w ev).reads.map Prod.fst ++ (step w ev).pending =
      w.reads.map Prod.fst ++ w.pending ++ written [ev] := by
  obtain ⟨q, pending, reads⟩ := w
  cases ev with
  | write v behind => simp [step, written]
  | read behind => cases pending <;> simp [step, written]

theorem values_exec : ∀ (w : QueueCalls) (es : List QueueEvent),
    (exec step w es).reads.map Prod.fst ++ (exec step w es).pending =
      w.reads.map Prod.fst ++ w.pending ++ written es
  | w, [] => by simp [written]
  | w, ev :: es => by
    have hcons : written (ev :: es) = written [ev] ++ written es := by cases ev <;> rfl
    rw [exec_cons, values_exec (step w ev) es, values_step, hcons, List.append_assoc]

/-- In either byte order, the values read and then those in the queue are the values written, every
read returned its value, and the bytes in the queue are the encodings of what was not read yet. -/
theorem queue_codec (e : Endian) (es : List QueueEvent) (h : Along step Can (start e) es) :
    (exec step (start e) es).reads.map Prod.fst ++ (exec step (start e) es).pending = written es ∧
      (∀ r ∈ (exec step (start e) es).reads, r.2 = some r.1) ∧
      (exec step (start e) es).queue.bytesQueue =
        (exec step (start e) es).pending.flatMap (Value.encode e) := by
  have hinv := invariant (I := Inv e) (fun _ _ hw hev => inv_step hw hev) (inv_start e) h
  exact ⟨values_exec (start e) es, hinv.reads, hinv.bytes⟩

def mixedCalls : List QueueEvent :=
  [.write (.int16 (-2)) [], .write (.string [7]) [], .read [], .write (.float 3) [9]]

theorem queue_codec_mixedCalls :
    (exec step (start .fwBigEndian) mixedCalls).reads = [(.int16 (-2), some (.int16 (-2)))] ∧
      (exec step (start .fwBigEndian) mixedCalls).queue.bytesQueue = [0, 1, 7, 0, 0, 0, 3] :=
  have h := queue_codec .fwBigEndian mixedCalls
    ⟨trivial, by simp [Can, ushrtMax], by simp [Can, step, start], trivial, trivial⟩
  ⟨by decide, h.2.2⟩

end QueueCalls

end Elegance
