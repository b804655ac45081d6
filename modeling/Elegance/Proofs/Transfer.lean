import Elegance.Proofs.AnyByteArray

/-!
# `ReadFromByteArray`

The other object is read before this one has taken the bytes (`readObject_spec`), so what this one
does not take is lost: a `StaticByteArray` that is full takes none, nor does a `QueueByteArray` that
is given more than an `int` counts. Otherwise the bytes move from the one to the other
(`conserves_iff`).
-/

namespace Elegance

open CInt Memory

namespace StaticByteArray

variable {a : StaticByteArray}

/-- What was written before a place stays there. -/
theorem Bounded.load_writeItemToBuffer (h : a.Bounded) (src : List Byte) :
    load (a.writeItemToBuffer src).bufferCache 0 a.hasReadLength.toNat =
      load a.bufferCache 0 a.hasReadLength.toNat := by
  have hread := h.read_nonneg
  have hle := h.read_le
  exact load_store_of_le _ _ (by omega)

end StaticByteArray

namespace AnyByteArray

variable {b other : AnyByteArray}

theorem Alike.refl (b : AnyByteArray) : b.Alike b := by
  cases b <;> rfl

theorem Gets.nothing (h : b.Valid) : Gets (other.unread.take 0) b b where
  added := by simp
  alike := .refl b
  kept := rfl
  valid := h

theorem Gives.nothing (h : b.Valid) : Gives 0 b b where
  taken := rfl
  alike := .refl b
  kept := by cases b <;> simp [readBefore]
  valid := h

/-- Fewer are counted than there are only from `2 ^ 32` on. -/
theorem bytesAvailable_le (h : other.Valid) : other.bytesAvailable ≤ other.unread.length := by
  cases other with
  | queue q => exact Nat.mod_le _ _
  | static _ a => exact (StaticByteArray.bytesAvailable_eq (StaticByteArray.Bounded.holds h)).le

theorem bytesAvailable_lt (b : AnyByteArray) : b.bytesAvailable < 4294967296 := by
  cases b with
  | queue q => exact Nat.mod_lt _ (by norm_num)
  | static _ a =>
    simp only [bytesAvailable, StaticByteArray.bytesAvailable]
    omega

theorem readObject_spec {size : ℕ} (h : other.Valid) (hle : size ≤ other.bytesAvailable)
    (hzero : size = 0 → other.bytesAvailable = 0) :
    ((other.readObject size).1.getD []) = other.unread.take size ∧
      Gives size other (other.readObject size).2 := by
  cases other with
  | queue q =>
    have hle : size ≤ q.bytesQueue.length % 4294967296 := hle
    have hlen : size ≤ q.bytesQueue.length := hle.trans (Nat.mod_le _ _)
    have hsize : (if size = 0 then q.bytesQueue.length % 4294967296 else size) = size := by
      split_ifs with hnone
      · rw [hnone]
        exact hzero hnone
      · rfl
    have hread : q.readObject size = (some (q.bytesQueue.take size),
        { q with bytesQueue := q.bytesQueue.drop size }) := by
      unfold QueueByteArray.readObject
      rw [if_neg (not_lt.2 hlen), hsize]
    simp only [readObject, hread]
    exact ⟨rfl, rfl, rfl, rfl, trivial⟩
  | static curEndian a =>
    have hholds := StaticByteArray.Bounded.holds h
    have hcount := StaticByteArray.bytesAvailable_eq hholds
    have hle : size ≤ a.bytesAvailable := hle
    rw [hcount] at hle
    rcases Nat.eq_zero_or_pos size with rfl | hpos
    · have hread : a.readObject 0 = (none, a) := by
        unfold StaticByteArray.readObject
        rw [if_pos (Or.inl rfl)]
      simp only [readObject, hread]
      exact ⟨rfl, rfl, rfl, by simp [readBefore], h⟩
    · have hread : a.readObject size = (some (load a.bufferCache a.hasReadLength.toNat size),
          { a with hasReadLength := a.hasReadLength + size }) := by
        unfold StaticByteArray.readObject
        rw [if_neg (by omega)]
      have hlen : (a.unread.take size).length = size := List.length_take_of_le hle
      have hbytes : a.unread = a.unread.take size ++ a.unread.drop size :=
        (List.take_append_drop _ _).symm
      rw [hbytes] at hholds
      obtain ⟨hload, hrest⟩ := StaticByteArray.take_holds hholds
      rw [hlen] at hload hrest
      have hread_nonneg := h.read_nonneg
      have hmoved : (a.hasReadLength + size).toNat = a.hasReadLength.toNat + size := by omega
      simp only [readObject, hread]
      refine ⟨hload, hrest.unread_eq, rfl, ?_, hrest.bounded⟩
      simp only [readBefore, Prod.map_snd, hmoved, load_add, Nat.zero_add, hload]
      rfl

/-- An object that gives some of its bytes has fewer, so none of them may stay behind. -/
theorem not_conserves_of_lost {bytesLen : ℤ} {other' : AnyByteArray} {size : ℕ} (hpos : 0 < size)
    (hle : size ≤ other.unread.length) (hgives : Gives size other other')
    (hread : b.readFromByteArray other bytesLen = some (b, other')) :
    ¬ b.Conserves other bytesLen := by
  rintro ⟨b₁, other₁, hread₁, n, hn, hgets, hgives₁⟩
  obtain ⟨rfl, rfl⟩ := Prod.mk.inj (Option.some.inj (hread.symm.trans hread₁))
  have hadded := congrArg List.length hgets.added
  have htaken := congrArg List.length (hgives.taken.symm.trans hgives₁.taken)
  rw [List.length_append, List.length_take_of_le hn] at hadded
  rw [List.length_drop, List.length_drop] at htaken
  omega

section Queue

variable {q : QueueByteArray} {bytesLen : ℤ}

/-- The size a `QueueByteArray` asks for, and hands on as an `int`. -/
theorem queue_asks (hnonneg : 0 ≤ bytesLen) (hmax : bytesLen ≤ intMax) :
    ∃ size : ℕ, size ≤ other.bytesAvailable ∧ (size = 0 → other.bytesAvailable = 0) ∧
      ((queue q).Accepts other bytesLen ↔ (size : ℤ) ≤ intMax) ∧
      (queue q).readFromByteArray other bytesLen =
        ((queue q).writeObject (other.readObject size).1 (wrap32 size)).map
          fun b => (b, (other.readObject size).2) := by
  have hlt := bytesAvailable_lt other
  have hmod : bytesLen % 4294967296 = bytesLen := by
    rw [intMax] at hmax
    omega
  simp only [Accepts, readFromByteArray, hmod]
  by_cases hall : bytesLen = 0 ∨ other.bytesAvailable < bytesLen.toNat
  · have hsize : (wrap32 other.bytesAvailable % 4294967296).toNat = other.bytesAvailable := by
      rw [wrap32_eq]
      omega
    refine ⟨other.bytesAvailable, le_refl _, id, ?_, ?_⟩
    · omega
    · simp only [if_pos hall, hsize]
  · refine ⟨bytesLen.toNat, by omega, by omega, by omega, ?_⟩
    have hwrap : wrap32 bytesLen.toNat = bytesLen := by
      rw [Int.toNat_of_nonneg hnonneg]
      exact wrap32_of_range (by rw [intMin]; omega) hmax
    simp only [if_neg hall, hmod, hwrap]

theorem queue_writeObject {obj : Option (List Byte)} {size : ℕ} (hlen : (obj.getD []).length = size)
    (hlt : size < 4294967296) :
    (queue q).writeObject obj (wrap32 size) =
      some (if (size : ℤ) ≤ intMax then queue { q with bytesQueue := q.bytesQueue ++ obj.getD [] }
        else queue q) := by
  have hle : wrap32 size ≤ size := by
    rw [wrap32_eq]
    omega
  simp only [writeObject, hlen, if_neg (not_lt.2 hle)]
  split_ifs with hmax
  · rw [wrap32_of_range (by rw [intMin]; omega) hmax, ← hlen, QueueByteArray.writeObject_eq,
      Int.toNat_natCast, List.take_length]
  · rw [intMax] at hmax
    unfold QueueByteArray.writeObject
    rw [if_pos (by rw [wrap32_eq]; omega)]

theorem queue_conserves_iff (ho : other.Valid) (hnonneg : 0 ≤ bytesLen) (hmax : bytesLen ≤ intMax) :
    (queue q).Conserves other bytesLen ↔ (queue q).Accepts other bytesLen := by
  obtain ⟨size, hle, hzero, haccepts, hread⟩ := queue_asks (q := q) hnonneg hmax
  obtain ⟨hobj, hgives⟩ := readObject_spec ho hle hzero
  have hsize : size ≤ other.unread.length := hle.trans (bytesAvailable_le ho)
  have hlen : ((other.readObject size).1.getD []).length = size := by
    rw [hobj, List.length_take_of_le hsize]
  rw [queue_writeObject hlen (hle.trans_lt (bytesAvailable_lt other)), Option.map_some] at hread
  rw [haccepts]
  constructor
  · intro h
    by_contra hmany
    rw [if_neg hmany] at hread
    rw [intMax] at hmany
    exact not_conserves_of_lost (by omega) hsize hgives hread h
  · intro hfew
    rw [if_pos hfew, hobj] at hread
    exact ⟨_, _, hread, size, hsize, ⟨rfl, rfl, rfl, trivial⟩, hgives⟩

end Queue

section Static

variable {curEndian : Endian} {a : StaticByteArray} {bytesLen : ℤ}

theorem static_writeObject (ha : a.Bounded) {obj : Option (List Byte)} {size : ℕ}
    (hlen : (obj.getD []).length = size) (hmax : (size : ℤ) ≤ intMax) :
    (static curEndian a).writeObject obj (wrap32 size) =
      if a.hasWriteLength + size ≤ maxMsgLength then
        some (static curEndian (a.writeItemToBuffer (obj.getD [])))
      else if a.hasWriteLength + size ≤ intMax then some (static curEndian a)
      else none := by
  have hread := ha.read_nonneg.trans ha.read_le
  have hwrite := ha.write_le
  rw [maxMsgLength] at hwrite
  have hsize : wrap32 size = size := wrap32_of_range (by rw [intMin]; omega) hmax
  simp only [writeObject, hsize]
  by_cases hfit : a.hasWriteLength + size ≤ maxMsgLength
  · rw [if_pos hfit, ← hlen, StaticByteArray.writeObject_eq ha (by rw [hlen]; exact hfit)]
    rfl
  · rw [if_neg hfit]
    unfold StaticByteArray.writeObject
    split_ifs with hfull hsum hsum
    · rfl
    · rw [intMax] at hmax hsum
      rw [maxMsgLength, wrap32_eq] at hfull
      omega
    · rw [wrap32_of_range (by rw [intMin]; omega) hsum] at hfull
      omega
    · unfold StaticByteArray.memcpy
      rw [if_neg fun hin => hfit hin.2.2.2]
      rfl

theorem static_conserves_iff (ha : a.Bounded) (ho : other.Valid) (hnonneg : 0 ≤ bytesLen)
    (hmax : bytesLen ≤ intMax) :
    (static curEndian a).Conserves other bytesLen ↔ (static curEndian a).Accepts other bytesLen := by
  have hmod : (bytesLen % 4294967296).toNat = bytesLen.toNat := by
    rw [intMax] at hmax
    omega
  by_cases hnone : bytesLen.toNat = 0 ∨ bytesLen.toNat > other.bytesAvailable
  · have hread : (static curEndian a).readFromByteArray other bytesLen =
        some (static curEndian a, other) := by
      simp only [readFromByteArray, hmod, if_pos hnone]
    refine iff_of_true ?_ ?_
    · exact ⟨_, _, hread, 0, Nat.zero_le _, .nothing ha, .nothing ho⟩
    · rcases hnone with hzero | hmany
      · exact .inl (by omega)
      · exact .inr (.inl (by omega))
  · set size := bytesLen.toNat
    have hle : size ≤ other.bytesAvailable := by omega
    obtain ⟨hobj, hgives⟩ := readObject_spec ho hle (by omega)
    have hsize : size ≤ other.unread.length := hle.trans (bytesAvailable_le ho)
    have hlen : ((other.readObject size).1.getD []).length = size := by
      rw [hobj, List.length_take_of_le hsize]
    have hread : (static curEndian a).readFromByteArray other bytesLen =
        ((static curEndian a).writeObject (other.readObject size).1 (wrap32 size)).map
          fun b => (b, (other.readObject size).2) := by
      simp only [readFromByteArray, hmod, if_neg hnone]
    have haccepts : (static curEndian a).Accepts other bytesLen ↔
        a.hasWriteLength + size ≤ maxMsgLength := by
      simp only [Accepts]
      omega
    rw [static_writeObject ha hlen (by omega), hobj] at hread
    rw [haccepts]
    constructor
    · intro h
      by_contra hfull
      rw [if_neg hfull] at hread
      split_ifs at hread
      · exact not_conserves_of_lost (by omega) hsize hgives hread h
      · obtain ⟨b', other', hsome, -⟩ := h
        cases hread.symm.trans hsome
    · intro hfit
      rw [if_pos hfit] at hread
      refine ⟨_, _, hread, size, hsize, ?_, hgives⟩
      have hroom : a.hasWriteLength + (other.unread.take size).length ≤ maxMsgLength := by
        rw [List.length_take_of_le hsize]
        exact hfit
      have hholds :=
        StaticByteArray.writeItemToBuffer_holds (StaticByteArray.Bounded.holds ha) hroom
      exact ⟨hholds.unread_eq, rfl, congrArg some (ha.load_writeItemToBuffer _), hholds.bounded⟩

end Static

/-- Bytes are conserved exactly where the receiver takes what the other has given. -/
theorem conserves_iff (b other : AnyByteArray) (bytesLen : ℤ) (hb : b.Valid) (ho : other.Valid)
    (hnonneg : 0 ≤ bytesLen) (hmax : bytesLen ≤ intMax) :
    b.Conserves other bytesLen ↔ b.Accepts other bytesLen := by
  cases b with
  | queue q => exact queue_conserves_iff ho hnonneg hmax
  | static curEndian a => exact static_conserves_iff hb ho hnonneg hmax

/-- A `StaticByteArray` whose bytes were all written, and read. -/
def full : AnyByteArray :=
  static .fwLittleEndian { hasReadLength := maxMsgLength, hasWriteLength := maxMsgLength }

/-- The receiver is full, and the byte it is sent is gone. -/
theorem not_conserves_full : full.Valid ∧ (queue ⟨.fwLittleEndian, [7]⟩).Valid ∧
    ¬ full.Conserves (queue ⟨.fwLittleEndian, [7]⟩) 1 := by
  have hread : full.readFromByteArray (queue ⟨.fwLittleEndian, [7]⟩) 1 =
      some (full, queue ⟨.fwLittleEndian, []⟩) := rfl
  refine ⟨⟨by decide, le_refl _, le_refl _⟩, trivial, ?_⟩
  have hgives : Gives 1 (queue ⟨.fwLittleEndian, [7]⟩) (queue ⟨.fwLittleEndian, []⟩) :=
    ⟨rfl, rfl, rfl, trivial⟩
  exact not_conserves_of_lost Nat.one_pos (le_refl _) hgives hread

/-- Four bytes go to the end of a `StaticByteArray` in use, and all five to that of a queue. -/
theorem conserves_inUse :
    (static .fwLittleEndian ⟨fun _ => 7, 3, 6⟩).Conserves
      (static .fwBigEndian ⟨fun _ => 8, 2, 7⟩) 4 ∧
    (queue ⟨.fwBigEndian, [1, 2, 3]⟩).Conserves (static .fwBigEndian ⟨fun _ => 8, 2, 7⟩) 0 :=
  have hvalid : (static .fwBigEndian ⟨fun _ => 8, 2, 7⟩).Valid := ⟨by decide, by decide, by decide⟩
  ⟨(conserves_iff (static .fwLittleEndian ⟨fun _ => 7, 3, 6⟩) _ 4
      ⟨by decide, by decide, by decide⟩ hvalid (by decide) (by decide)).2 (.inr (.inr (by decide))),
    (conserves_iff (queue ⟨.fwBigEndian, [1, 2, 3]⟩) _ 0 trivial hvalid (by decide) (by decide)).2
      (.inr (by decide))⟩

end AnyByteArray

end Elegance
