import Elegance.StaticBounds
import Elegance.Proofs.AnyByteArray

/-!
# Copies stay in the buffer

Reads stay in it whatever was asked for. A write adds up `int`s to see whether there is room, so it
stays in the buffer where the length is not negative and the sum is one (`stays_of_countable`), and
only there (`leaves_of_not_countable`).
-/

namespace Elegance

open CInt

namespace StaticByteArray

variable {host : Endian} {a a' : StaticByteArray}

/-- The result is an array with its lengths in order, and the copies lie in the buffer. -/
def Stays (r : Option StaticByteArray) (copies : List BufferCopy) : Prop :=
  (∃ a', r = some a' ∧ a'.Bounded) ∧ ∀ c ∈ copies, c.InBuffer

theorem Bounded.stays (h : a.Bounded) : Stays (some a) [] :=
  ⟨⟨a, rfl, h⟩, by simp⟩

theorem Stays.append {r r' : Option StaticByteArray} {copies copies' : List BufferCopy}
    (h : Stays r copies) (h' : Stays r' copies') : Stays r' (copies ++ copies') := by
  refine ⟨h'.1, fun c hc => ?_⟩
  rcases List.mem_append.1 hc with hc | hc
  · exact h.2 c hc
  · exact h'.2 c hc

section Read

/-- Reading on to a place that is still written. -/
theorem Bounded.readOn (h : a.Bounded) {n : ℕ} (hn : a.hasReadLength + n ≤ a.hasWriteLength) :
    Stays (some { a with hasReadLength := a.hasReadLength + n }) [⟨a.hasReadLength, n⟩] := by
  obtain ⟨h₁, h₂, h₃⟩ := h
  refine ⟨⟨_, rfl, by dsimp only; omega, hn, h₃⟩, ?_⟩
  simp only [List.mem_singleton, forall_eq]
  exact ⟨by simp, h₁, by dsimp only; omega⟩

theorem stays_readNum (host : Endian) (h : a.Bounded) (sizeofT : ℕ) :
    Stays (some (a.readNum host sizeofT).2) (a.readNumCopies sizeofT) := by
  unfold readNum readNumCopies
  split_ifs with hshort
  · exact h.stays
  · exact h.readOn (not_lt.1 hshort)

theorem stays_readObject (h : a.Bounded) (size : ℕ) :
    Stays (some (a.readObject size).2) (a.readObjectCopies size) := by
  unfold readObject readObjectCopies
  split_ifs with hshort
  · exact h.stays
  · have hcount := bytesAvailable_eq h.holds
    have hlength := h.holds.length_eq
    exact h.readOn (by omega)

theorem stays_readString (h : a.Bounded) :
    Stays (some (a.readString host).2) (a.readStringCopies host) := by
  unfold readString readStringCopies
  simp only
  split_ifs with hshort hlong
  · exact h.stays
  · rw [List.append_nil]
    exact stays_readNum host h 2
  · have hlength := stays_readNum host h 2
    obtain ⟨a', hsome, hbounded⟩ := hlength.1
    have ha' : (a.readUint16 host).2 = a' := Option.some.inj hsome
    have hmoved : a'.hasReadLength = a.hasReadLength + 2 ∧ a'.hasWriteLength = a.hasWriteLength := by
      rw [stringLengthByteSize] at hshort
      rw [← ha', readUint16, readNum, if_neg (by push_cast at hshort ⊢; omega)]
      exact ⟨rfl, rfl⟩
    rw [stringLengthByteSize] at hlong
    rw [ha']
    exact hlength.append (hbounded.readOn (by omega))

theorem stays_read (h : a.Bounded) (k : Kind) :
    Stays (some (a.read host k).2) (a.readCopies host k) := by
  cases k with
  | string => exact stays_readString h
  | object size => exact stays_readObject h size
  | _ => exact stays_readNum host h _

end Read

section Write

theorem stays_writeItem (h : a.Bounded) (src : List Byte)
    (hfit : a.hasWriteLength + src.length ≤ maxMsgLength) :
    Stays (some (a.writeItemToBuffer src)) [⟨a.hasWriteLength, src.length⟩] := by
  refine ⟨⟨_, rfl, (writeItemToBuffer_holds h.holds hfit).bounded⟩, ?_⟩
  simp only [List.mem_singleton, forall_eq]
  exact ⟨by simp, h.read_nonneg.trans h.read_le, hfit⟩

theorem stays_writeNum (host : Endian) (h : a.Bounded) (sizeofT n : ℕ) :
    Stays (some (a.writeNum host sizeofT n)) (a.writeNumCopies sizeofT) := by
  unfold writeNum writeNumCopies
  split_ifs with hfull
  · exact h.stays
  · have hlen := length_digits host sizeofT n
    have hstays := stays_writeItem h (host.digits sizeofT n) (by omega)
    rwa [hlen] at hstays

theorem stays_memcpy (h : a.Bounded) {src : List Byte} {size : ℤ} (hsrc : size ≤ src.length)
    (hnonneg : 0 ≤ size) (hfit : a.hasWriteLength + size ≤ maxMsgLength) :
    Stays (a.memcpy src size) [⟨a.hasWriteLength, size⟩] := by
  have hlen : ((src.take size.toNat).length : ℤ) = size := by
    rw [List.length_take_of_le (by omega)]
    omega
  have hstays := stays_writeItem h (src.take size.toNat) (by omega)
  rw [hlen] at hstays
  unfold memcpy
  rwa [if_pos ⟨hnonneg, hsrc, h.read_nonneg.trans h.read_le, hfit⟩]

theorem stays_writeObject (h : a.Bounded) {obj : List Byte} {bytesLen : ℤ}
    (hobj : bytesLen ≤ obj.length) (hnonneg : 0 ≤ bytesLen)
    (hsum : a.hasWriteLength + bytesLen ≤ intMax) :
    Stays (a.writeObject obj bytesLen) (a.writeObjectCopies bytesLen) := by
  have hwrite := h.read_nonneg.trans h.read_le
  unfold writeObject writeObjectCopies
  rw [wrap32_of_range (by rw [intMin]; omega) hsum]
  split_ifs with hfull
  · exact h.stays
  · exact stays_memcpy h hobj hnonneg (not_lt.1 hfull)

/-- A negative length, or one whose sum is not an `int`, makes a copy that leaves the buffer. -/
theorem leaves_writeObject (h : a.Bounded) {bytesLen : ℤ} (hmin : intMin ≤ bytesLen)
    (hmax : bytesLen ≤ intMax) (hnot : ¬ (0 ≤ bytesLen ∧ a.hasWriteLength + bytesLen ≤ intMax)) :
    ∃ c ∈ a.writeObjectCopies bytesLen, ¬ c.InBuffer := by
  have hwrite := h.read_nonneg.trans h.read_le
  have hle := h.write_le
  rw [maxMsgLength] at hle
  rw [intMin] at hmin
  rw [intMax] at hmax hnot
  unfold writeObjectCopies
  rw [if_neg (by rw [wrap32_eq, maxMsgLength]; omega)]
  refine ⟨_, List.mem_singleton_self _, ?_⟩
  rintro ⟨hsize, -, hin⟩
  rw [maxMsgLength] at hin
  dsimp only at hsize hin
  omega

theorem stays_writeString (h : a.Bounded) {str : List Byte} (hnonneg : 0 ≤ wrap32 str.length)
    (hsum : a.hasWriteLength + wrap32 str.length + stringLengthByteSize ≤ intMax) :
    Stays (a.writeString host str) (a.writeStringCopies host str) := by
  have hwrite := h.read_nonneg.trans h.read_le
  have hstr : wrap32 str.length ≤ str.length := by
    rw [wrap32_eq] at hnonneg ⊢
    omega
  unfold writeString writeStringCopies
  set strLen := wrap32 str.length
  rw [stringLengthByteSize] at hsum ⊢
  simp only [wrap32_of_range (z := a.hasWriteLength + strLen) (by rw [intMin]; omega) (by omega),
    wrap32_of_range (z := a.hasWriteLength + strLen + (2 : ℕ)) (by rw [intMin]; omega) hsum]
  split_ifs with hfull
  · exact h.stays
  · have hlength := stays_writeNum host h 2 (UInt16.ofInt strLen).toNat
    obtain ⟨a', hsome, hbounded⟩ := hlength.1
    have ha' : a.writeUint16 host (UInt16.ofInt strLen) = a' := Option.some.inj hsome
    have hmoved : a'.hasWriteLength = a.hasWriteLength + 2 := by
      rw [← ha', writeUint16, writeNum_eq (by omega), writeItemToBuffer, length_digits]
      rfl
    rw [ha']
    exact hlength.append (stays_memcpy hbounded hstr hnonneg (by omega))

theorem leaves_writeString (h : a.Bounded) {str : List Byte}
    (hnot : ¬ a.Countable (.write (.string str))) :
    ∃ c ∈ a.writeStringCopies host str, ¬ c.InBuffer := by
  have hwrite := h.read_nonneg.trans h.read_le
  have hle := h.write_le
  obtain ⟨hmin, hmax⟩ := wrap32_bounds str.length
  have hkept : a.hasWriteLength ≤
      (a.writeUint16 host (UInt16.ofInt (wrap32 str.length))).hasWriteLength := by
    unfold writeUint16 writeNum
    split_ifs
    · exact le_refl _
    · simp [writeItemToBuffer]
  unfold writeStringCopies
  unfold Countable at hnot
  set strLen := wrap32 str.length
  rw [maxMsgLength] at hle hnot
  rw [stringLengthByteSize] at hnot ⊢
  rw [intMin] at hmin
  rw [intMax] at hmax hnot
  rw [if_neg (by rw [wrap32_eq, wrap32_eq, maxMsgLength]; omega)]
  refine ⟨_, List.mem_append_right _ (List.mem_singleton_self _), ?_⟩
  rintro ⟨hsize, -, hin⟩
  rw [maxMsgLength] at hin
  dsimp only at hsize hin
  omega

end Write

section ReadFromByteArray

/-- As many bytes as were asked for. -/
theorem length_readObject (other : AnyByteArray) {size : ℕ} (hpos : size ≠ 0)
    (hle : size ≤ other.bytesAvailable) : ((other.readObject size).1.getD []).length = size := by
  cases other with
  | queue q =>
    have hlen : size ≤ q.bytesQueue.length := hle.trans (Nat.mod_le _ _)
    simp [AnyByteArray.readObject, QueueByteArray.readObject, hpos, not_lt.2 hlen, hlen]
  | static curEndian b =>
    have hlen : size ≤ b.bytesAvailable := hle
    simp [AnyByteArray.readObject, readObject, hpos, not_lt.2 hlen]

variable {other : AnyByteArray} {bytesLen : ℤ}

/-- It is what the object behind the interface does. -/
theorem readFromByteArray_eq (curEndian : Endian) :
    ((AnyByteArray.static curEndian a).readFromByteArray other bytesLen).map Prod.fst =
      (a.readFromByteArray other bytesLen).map (AnyByteArray.static curEndian) := by
  unfold AnyByteArray.readFromByteArray readFromByteArray
  dsimp only
  split_ifs
  · rfl
  · rw [Option.map_map, AnyByteArray.writeObject, Option.map_map]
    rfl

/-- An `int` made unsigned and back. -/
theorem wrap32_readSize (hmin : intMin ≤ bytesLen) (hmax : bytesLen ≤ intMax) :
    wrap32 ((bytesLen % 4294967296).toNat : ℕ) = bytesLen := by
  rw [intMin] at hmin
  rw [intMax] at hmax
  rw [wrap32_eq]
  omega

theorem stays_readFromByteArray (h : a.Bounded) (hmin : intMin ≤ bytesLen)
    (hmax : bytesLen ≤ intMax) (hcount : a.Countable (.readFromByteArray other bytesLen)) :
    Stays (a.readFromByteArray other bytesLen)
      (a.copies host (.readFromByteArray other bytesLen)) := by
  simp only [readFromByteArray, copies, wrap32_readSize hmin hmax]
  split_ifs with hnone
  · exact h.stays
  · obtain ⟨hpos, hle⟩ := not_or.1 hnone
    have hlen := length_readObject other hpos (not_lt.1 hle)
    rcases hcount with hzero | hmany | ⟨hnonneg, hsum⟩
    · omega
    · omega
    · refine stays_writeObject h ?_ hnonneg hsum
      rw [hlen]
      rw [intMax] at hmax
      omega

theorem leaves_readFromByteArray (h : a.Bounded) (hmin : intMin ≤ bytesLen)
    (hmax : bytesLen ≤ intMax) (hnot : ¬ a.Countable (.readFromByteArray other bytesLen)) :
    ∃ c ∈ a.copies host (.readFromByteArray other bytesLen), ¬ c.InBuffer := by
  unfold Countable at hnot
  obtain ⟨hpos, hle, hsum⟩ := not_or.1 hnot |>.imp_right not_or.1
  have hsome : ¬ ((bytesLen % 4294967296).toNat = 0 ∨
      (bytesLen % 4294967296).toNat > other.bytesAvailable) := by
    rw [intMin] at hmin
    rw [intMax] at hmax
    omega
  simp only [copies, wrap32_readSize hmin hmax, if_neg hsome]
  exact leaves_writeObject h hmin hmax hsum

/-- An array that reads from itself has not more unread than it holds. -/
theorem stays_readFromItself (h : a.Bounded) (hmin : intMin ≤ bytesLen) (hmax : bytesLen ≤ intMax) :
    Stays (a.readFromItself bytesLen) (a.copies host (.readFromItself bytesLen)) := by
  simp only [readFromItself, copies, wrap32_readSize hmin hmax]
  split_ifs with hnone
  · exact h.stays
  · obtain ⟨hpos, hle⟩ := not_or.1 hnone
    have hlen := length_readObject (.static .fwLittleEndian a) hpos (not_lt.1 hle)
    have hread := stays_readObject h (bytesLen % 4294967296).toNat
    obtain ⟨a', hsome, hbounded⟩ := hread.1
    have ha' : (a.readObject (bytesLen % 4294967296).toNat).2 = a' := Option.some.inj hsome
    have hmoved : a'.hasWriteLength = a.hasWriteLength := by
      rw [← ha', readObject, if_neg hnone]
    have hcount := bytesAvailable_eq h.holds
    have hlength := h.holds.length_eq
    have hnonneg := h.read_nonneg
    have hwrite := h.write_le
    rw [maxMsgLength] at hwrite
    rw [intMin] at hmin
    rw [intMax] at hmax
    have hobj : ((a.readObject (bytesLen % 4294967296).toNat).1.getD []).length =
        (bytesLen % 4294967296).toNat := hlen
    rw [ha']
    refine hread.append (stays_writeObject hbounded (by omega) (by omega) ?_)
    rw [hmoved, intMax]
    omega

end ReadFromByteArray

/-- What an operation does whose length can be counted. -/
theorem stays_of_countable (host : Endian) {op : StaticOp} (h : a.Bounded) (hgiven : op.Given)
    (hcount : a.Countable op) : Stays (a.apply host op) (a.copies host op) := by
  cases op with
  | read k => exact stays_read h k
  | write v =>
    cases v with
    | string s =>
      rcases hcount with ⟨hnonneg, hsum⟩ | ⟨hlen, hfull⟩
      · exact stays_writeString h hnonneg hsum
      · have hrejected : maxMsgLength <
            wrap32 (wrap32 (a.hasWriteLength + wrap32 s.length) + stringLengthByteSize) := by
          rw [hlen, hfull]
          decide
        simp only [apply, write, writeString, copies, writeCopies, writeStringCopies,
          if_pos hrejected]
        exact h.stays
    | object o => exact stays_writeObject h (le_refl _) (by simp) hcount
    | _ => exact stays_writeNum host h _ _
  | writeObject obj bytesLen => exact stays_writeObject h hgiven.2.2 hcount.1 hcount.2
  | readFromByteArray other bytesLen => exact stays_readFromByteArray h hgiven.1 hgiven.2 hcount
  | readFromItself bytesLen => exact stays_readFromItself h hgiven.1 hgiven.2
  | clear => exact ⟨⟨_, rfl, le_refl _, le_refl _, by simp [clear]⟩, by simp [copies]⟩

/-- Any other leaves the buffer. -/
theorem leaves_of_not_countable (host : Endian) {op : StaticOp} (h : a.Bounded)
    (hgiven : op.Given) (hnot : ¬ a.Countable op) : ∃ c ∈ a.copies host op, ¬ c.InBuffer := by
  cases op with
  | write v =>
    cases v with
    | string s => exact leaves_writeString h hnot
    | object o =>
      refine leaves_writeObject h ?_ hgiven fun hsum => hnot hsum.2
      rw [intMin]
      omega
    | _ => exact absurd trivial hnot
  | writeObject obj bytesLen => exact leaves_writeObject h hgiven.1 hgiven.2.1 hnot
  | readFromByteArray other bytesLen => exact leaves_readFromByteArray h hgiven.1 hgiven.2 hnot
  | read k => exact absurd trivial hnot
  | readFromItself bytesLen => exact absurd trivial hnot
  | clear => exact absurd trivial hnot

end StaticByteArray

namespace StaticRun

open Machine StaticByteArray

variable {host : Endian}

theorem step_of_countable {s : StaticRun} {op : StaticOp} (h : s.InBounds) (hgiven : op.Given)
    (hcount : s.Countable op) : (s.step host op).InBounds := by
  obtain ⟨array, copies⟩ := s
  obtain ⟨⟨a, rfl, hbounded⟩, hcopies⟩ := h
  obtain ⟨hsome, hstays⟩ := stays_of_countable host hbounded hgiven (hcount a rfl)
  refine ⟨hsome, fun c hc => ?_⟩
  rcases List.mem_append.1 hc with hc | hc
  · exact hcopies c hc
  · exact hstays c hc

theorem step_of_not_countable {s : StaticRun} {op : StaticOp} (h : s.InBounds) (hgiven : op.Given)
    (hnot : ¬ s.Countable op) : ¬ (s.step host op).InBounds := by
  obtain ⟨array, copies⟩ := s
  obtain ⟨⟨a, rfl, hbounded⟩, -⟩ := h
  have hnot : ¬ a.Countable op := by
    intro hcount
    refine hnot fun a' ha' => ?_
    rw [← Option.some.inj ha']
    exact hcount
  obtain ⟨c, hc, hleaves⟩ := leaves_of_not_countable host hbounded hgiven hnot
  exact fun hin => hleaves (hin.2 c (List.mem_append_right _ hc))

/-- Every copy of a run stays in the buffer, and the lengths in their order, exactly where every
operation is one whose length can be counted. -/
theorem in_bounds_iff (host : Endian) (a : StaticByteArray) (ops : List StaticOp) (ha : a.Bounded)
    (hgiven : ∀ op ∈ ops, op.Given) :
    (∀ pre, pre <+: ops → (exec (step host) ⟨some a, []⟩ pre).InBounds) ↔
      Along (step host) Countable ⟨some a, []⟩ ops :=
  along_iff_forall_exec (I := InBounds) (Q := fun _ op => op.Given) (fun _ => id)
    (fun _ _ h hgiven hcount => step_of_countable h hgiven hcount)
    (fun _ _ h hgiven hnot => step_of_not_countable h hgiven hnot)
    ⟨⟨a, rfl, ha⟩, by simp⟩ (along_of_forall_mem hgiven)

/-- A negative length passes the test for room. -/
theorem not_in_bounds_negative : (StaticOp.writeObject [7] (-1)).Given ∧
    ¬ (exec (step .fwLittleEndian) ⟨some {}, []⟩ [.writeObject [7] (-1)]).InBounds := by
  refine ⟨by simp [StaticOp.Given, intMin, intMax], fun h => ?_⟩
  have hcopy := h.2 ⟨0, -1⟩ (List.mem_singleton_self _)
  revert hcopy
  decide

/-- Values are written and read in turn, and bytes come from a queue and from the array itself. -/
def mixedOps : List StaticOp :=
  [.write (.string [97, 98]), .writeObject [1, 2, 3] 3, .read .string, .read .uint16,
    .readFromByteArray (.queue ⟨.fwLittleEndian, [4, 5, 6]⟩) 2, .readFromItself 3, .read .uint64,
    .clear, .write (.uint32 7)]

theorem in_bounds_mixed : (exec (step .fwBigEndian) ⟨some {}, []⟩ mixedOps).copies.length = 10 ∧
    (exec (step .fwBigEndian) ⟨some {}, []⟩ mixedOps).InBounds := by
  have hgiven : ∀ op ∈ mixedOps, op.Given := by
    simp [mixedOps, StaticOp.Given, intMin, intMax]
  exact ⟨by decide +kernel, (in_bounds_iff .fwBigEndian {} mixedOps holds_empty.bounded hgiven).2
    (by decide +kernel) _ List.prefix_rfl⟩

end StaticRun

end Elegance
