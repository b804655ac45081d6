import Elegance.Framing

/-!
# `UnPack` decodes its stream

An entry holds the bytes of the package being received at the front of a buffer of zeros
(`Rep`). An activation moves bytes from the chunk to the entry, and completes a package exactly
where `fixHead` has a whole frame, so a call hands over what decoding finds in the bytes held and
the chunk (`unPack_of_tame`). It stays in its blocks as long as the stream is `Tame`, and no longer
(`unPack_of_not_tame`).
-/

namespace Elegance

open CInt LengthPrefix

variable (H : HostLayout)

section Stream

theorem fixHead_len (hd : List Byte) : (fixHead H).len hd =
    if 0 ≤ H.readInt hd ∧ H.readInt hd ≤ intMax - 4 then some (H.readInt hd).toNat else none :=
  rfl

theorem fixHead_len_some {hd : List Byte} {n : ℕ} (h : (fixHead H).len hd = some n) :
    H.readInt hd = n ∧ (n : ℤ) ≤ intMax - 4 := by
  rw [fixHead_len] at h
  split_ifs at h
  simp only [Option.some.injEq] at h
  omega

theorem fixHead_len_none {hd : List Byte} (h : (fixHead H).len hd = none) :
    H.readInt hd < 0 ∨ intMax - 4 < H.readInt hd := by
  rw [fixHead_len] at h
  split_ifs at h
  omega

theorem fixHead_len_of_range {hd : List Byte} {n : ℕ} (h : H.readInt hd = n)
    (hn : (n : ℤ) ≤ intMax - 4) : (fixHead H).len hd = some n := by
  rw [fixHead_len, h, if_pos (by omega), Int.toNat_natCast]

/-- `NET_PACKER_FIXHEAD_HEADER_LENGTH + package_length` for a length in `0..INT_MAX-4`. -/
theorem allPackSize_of_some {hd : List Byte} {n : ℕ} (h : (fixHead H).len hd = some n) :
    wrap32 ((netPackerFixheadHeaderLength : ℤ) + H.readInt hd) = ((4 + n : ℕ) : ℤ) := by
  obtain ⟨hr, hle⟩ := fixHead_len_some H h
  rw [hr, netPackerFixheadHeaderLength, wrap32_of_range]
  · rfl
  · rw [intMin]
    omega
  · rw [intMax] at *
    push_cast
    omega

/-- For any other length the sum is below the smallest buffer. -/
theorem allPackSize_of_none {hd : List Byte} (h : (fixHead H).len hd = none) :
    wrap32 ((netPackerFixheadHeaderLength : ℤ) + H.readInt hd) < 4 := by
  have hbad := fixHead_len_none H h
  have hb := H.readInt_bounds hd
  rw [wrap32_eq, netPackerFixheadHeaderLength]
  rw [intMin, intMax] at hb
  rw [intMax] at hbad
  push_cast
  omega

theorem tame_iff {cap : ℕ} {s : List Byte} : Tame H cap s ↔
    (4 ≤ ((fixHead H).decode 5 s).2.length →
      (0 ≤ H.readInt (((fixHead H).decode 5 s).2.take 4) ∧
        H.readInt (((fixHead H).decode 5 s).2.take 4) ≤ intMax - 4) ∨
      (H.readInt (((fixHead H).decode 5 s).2.take 4) < 0 ∧
        ((fixHead H).decode 5 s).2.length = 4) ∨
      (intMax - 4 < H.readInt (((fixHead H).decode 5 s).2.take 4) ∧
        ((fixHead H).decode 5 s).2.length ≤ max cap (4 + (fixHead H).longest 5 s))) :=
  Iff.rfl

theorem tame_of_announced {cap : ℕ} {s : List Byte} (h : Announced H s) : Tame H cap s := by
  intro hl
  obtain ⟨n, hn⟩ := Option.isSome_iff_exists.1 (h hl)
  obtain ⟨hr, hle⟩ := fixHead_len_some H hn
  exact .inl ⟨hr ▸ Int.natCast_nonneg n, hr ▸ hle⟩

/-- A stream that ends with its first header reaches nothing hostile. -/
theorem tame_of_length_le {cap : ℕ} (hcap : 4 ≤ cap) {s : List Byte} (hs : s.length ≤ 4) :
    Tame H cap s := by
  have hn : (fixHead H).next 5 s = none := by
    simp only [Format.next]
    rw [if_pos (by omega)]
  rw [tame_iff, (fixHead H).decode_of_none hn]
  intro hl
  simp only at hl ⊢
  omega

theorem tame_of_next {cap : ℕ} {s b r : List Byte} (h : (fixHead H).next 5 s = some (b, r))
    (hb : 4 + b.length ≤ cap) : Tame H cap s ↔ Tame H cap r := by
  have hm : max cap (4 + (fixHead H).longest 5 s) = max cap (4 + (fixHead H).longest 5 r) := by
    rw [(fixHead H).longest_of_some h]
    omega
  rw [tame_iff, tame_iff, hm, (fixHead H).decode_of_some h]

end Stream

section Buffer

/-- Writing behind what is held eats into the zeros after it. -/
theorem write_zeros (p d : List Byte) (k : ℕ) :
    (Block.bytes (p ++ List.replicate k 0)).write p.length d =
      .bytes (p ++ d ++ List.replicate (k - d.length) 0) := by
  simp [Block.write, List.drop_append, List.drop_replicate]

/-- The entry holds `p` at the front of a buffer of `cap` bytes, zero beyond. -/
structure Rep (c : CacheBuffer) (p : List Byte) (cap : ℕ) : Prop where
  read : c.curReadSize = p.length
  block : c.buffer.buffer = .bytes (p ++ List.replicate (cap - p.length) 0)
  size : c.buffer.bufferSize = cap
  fits : p.length ≤ cap
  head_le : 4 ≤ cap
  cap_le : (cap : ℤ) ≤ intMax
  room : ∀ n, 4 ≤ p.length → (fixHead H).len (p.take 4) = some n → 4 + n ≤ cap
  unfinished : (fixHead H).next 5 p = none

variable {H}

theorem rep_firstRead : Rep H firstRead [] 4 where
  read := rfl
  block := by
    simp [firstRead, FlexibleBuffer.changeBufferSize, netPackerFixheadHeaderLength, Block.write,
      Block.content]
  size := rfl
  fits := by simp
  head_le := le_rfl
  cap_le := by decide
  room n h := by simp at h
  unfinished := by simp [Format.next]

/-- The buffer with `d` written behind what it holds. -/
theorem Rep.write {c : CacheBuffer} {p : List Byte} {cap : ℕ} (h : Rep H c p cap)
    (d : List Byte) :
    c.buffer.buffer.write c.curReadSize.toNat d =
      .bytes (p ++ d ++ List.replicate (cap - (p ++ d).length) 0) := by
  rw [h.block, h.read, Int.toNat_natCast, write_zeros, List.length_append, Nat.sub_sub]

theorem packageLength_bytes {b : FlexibleBuffer} {p z : List Byte} (hb : b.buffer = .bytes (p ++ z))
    (hp : 4 ≤ p.length) : packageLength H b = H.readInt (p.take 4) := by
  simp only [packageLength, hb, Block.content, netPackerFixheadHeaderLength]
  rw [List.take_append_of_le_length hp]

theorem changeBufferSize_grow {bs : List Byte} {cap cap' : ℕ} (hl : bs.length = cap)
    (hc : cap < cap') :
    FlexibleBuffer.changeBufferSize ⟨.bytes bs, cap⟩ cap' =
      ⟨.bytes (bs ++ List.replicate (cap' - cap) 0), cap'⟩ := by
  have ht : bs.take cap = bs := List.take_of_length_le hl.le
  simp only [FlexibleBuffer.changeBufferSize, Block.content, Block.write]
  rw [if_neg (by omega), if_pos (by omega), if_neg (by omega), Int.toNat_natCast,
    Int.toNat_natCast, ht, List.take_zero, List.nil_append, List.drop_replicate, hl, Nat.zero_add]

theorem zeroAllBytes_bytes {bs : List Byte} {cap : ℕ} (hc : 0 < cap) (hl : bs.length = cap) :
    FlexibleBuffer.zeroAllBytes ⟨.bytes bs, cap⟩ = ⟨.bytes (List.replicate cap 0), cap⟩ := by
  simp only [FlexibleBuffer.zeroAllBytes, Block.write]
  rw [if_neg (by simp; omega)]
  simp [hl]

end Buffer

section Activation

variable {H} {c : CacheBuffer} {p d : List Byte} {cap : ℕ}

theorem copyBytes_eq {left : ℤ} {k : ℕ} (hl : left = k) (d : List Byte) :
    (if (d.length : ℤ) ≥ left then left else d.length) = ((d.take k).length : ℤ) := by
  rw [List.length_take]
  split_ifs <;> omega

theorem take_length_take (d : List Byte) (k : ℕ) : d.take (d.take k).length = d.take k := by
  rw [List.length_take, ← List.take_eq_take_min]

theorem drop_length_take (d : List Byte) (k : ℕ) : d.drop (d.take k).length = d.drop k := by
  rw [List.length_take, ← List.drop_eq_drop_min]

theorem length_drop_cast (d : List Byte) (k : ℕ) :
    (d.length : ℤ) - (d.take k).length = (d.drop k).length := by
  rw [List.length_take, List.length_drop]
  omega

theorem next_of_length_le {s : List Byte} (hs : s.length ≤ 4) : (fixHead H).next 5 s = none := by
  simp only [Format.next]
  rw [if_pos (by omega)]

/-- The header branch copies up to the end of the header, and grows the buffer for the package a
complete header announces. -/
theorem readHeader_spec (h : Rep H c p cap) (hp : p.length < 4) :
    (readHeader H c d).copy.InBounds ∧ (readHeader H c d).recv = none ∧
      (readHeader H c d).rest = d.drop (4 - p.length) ∧
      (readHeader H c d).remainBytes = (d.drop (4 - p.length)).length ∧
      Rep H (readHeader H c d).cache (p ++ d.take (4 - p.length))
        (max cap (4 + (fixHead H).longest 5 (p ++ d.take (4 - p.length)))) := by
  set k := 4 - p.length with hk
  set q := p ++ d.take k with hq
  have hql : q.length ≤ 4 := by
    simp only [hq, List.length_append, List.length_take]
    omega
  have hcopy : (if (d.length : ℤ) ≥ (netPackerFixheadHeaderLength : ℤ) - c.curReadSize then
      (netPackerFixheadHeaderLength : ℤ) - c.curReadSize else d.length)
        = ((d.take k).length : ℤ) :=
    copyBytes_eq (by rw [h.read, netPackerFixheadHeaderLength]; omega) d
  have hread : c.curReadSize + ((d.take k).length : ℤ) = q.length := by
    rw [h.read, hq, List.length_append]
    push_cast
    ring
  have hqc : q.length ≤ cap := hql.trans h.head_le
  have hbuf : c.buffer.buffer.write c.curReadSize.toNat (d.take k) =
      .bytes (q ++ List.replicate (cap - q.length) 0) := h.write (d.take k)
  simp only [readHeader, hcopy, Int.toNat_natCast, take_length_take, drop_length_take, hread, hbuf,
    length_drop_cast, h.size, true_and]
  refine ⟨⟨by simp, ?_, ?_, ?_⟩, ?_⟩
  · simp only [List.length_take]
    omega
  · rw [h.read]
    exact Int.natCast_nonneg _
  · rw [hread]
    exact Int.ofNat_le.2 hqc
  have hlong := (fixHead H).longest_of_none (next_of_length_le (H := H) hql)
  rcases Nat.lt_or_ge q.length 4 with hlt | hge
  · rw [if_neg (show ¬ (fixHead H).head ≤ q.length from not_le.2 hlt)] at hlong
    rw [if_neg (by simp only [netPackerFixheadHeaderLength]; omega), hlong,
      max_eq_left (by simpa using h.head_le)]
    exact ⟨rfl, rfl, rfl, hqc, h.head_le, h.cap_le, fun n hn => by omega,
      next_of_length_le hql⟩
  · have h4 : q.length = 4 := le_antisymm hql hge
    have hpl : packageLength H ⟨.bytes (q ++ List.replicate (cap - q.length) 0), cap⟩
        = H.readInt (q.take 4) := packageLength_bytes rfl hge
    rw [hpl]
    rw [if_pos (show (fixHead H).head ≤ q.length from hge)] at hlong
    rcases hn : (fixHead H).len (q.take 4) with _ | n
    · rw [show (fixHead H).len (q.take (fixHead H).head) = none from hn, Option.getD_none] at hlong
      have hsmall := allPackSize_of_none H hn
      have hcap := h.head_le
      rw [if_neg (fun hlt => by have := hlt.2; omega), hlong, max_eq_left (by simpa using hcap)]
      refine ⟨rfl, rfl, rfl, hqc, h.head_le, h.cap_le, fun n _ hn' => ?_, next_of_length_le hql⟩
      rw [hn] at hn'
      cases hn'
    · rw [show (fixHead H).len (q.take (fixHead H).head) = some n from hn, Option.getD_some]
        at hlong
      have hroom : ∀ cap', 4 + n ≤ cap' → ∀ m, 4 ≤ q.length →
          (fixHead H).len (q.take 4) = some m → 4 + m ≤ cap' := by
        intro cap' hcap' m _ hm
        rw [hn] at hm
        cases hm
        exact hcap'
      rw [allPackSize_of_some H hn, hlong]
      split_ifs with hgrow
      · have hlt : cap < 4 + n := Int.ofNat_lt.1 hgrow.2
        have hmax : ((4 + n : ℕ) : ℤ) ≤ intMax := by
          have := (fixHead_len_some H hn).2
          push_cast
          omega
        rw [max_eq_right hlt.le, changeBufferSize_grow (by simp; omega) hlt, List.append_assoc,
          ← List.replicate_add, show cap - q.length + (4 + n - cap) = 4 + n - q.length by omega]
        exact ⟨rfl, rfl, rfl, by omega, by omega, hmax, hroom _ le_rfl, next_of_length_le hql⟩
      · have hge' : 4 + n ≤ cap := by
          by_contra hlt
          exact hgrow ⟨Int.ofNat_le.2 hge, Int.ofNat_lt.2 (not_le.1 hlt)⟩
        rw [max_eq_left hge']
        exact ⟨rfl, rfl, rfl, hqc, h.head_le, h.cap_le, hroom _ hge', next_of_length_le hql⟩

/-- A package with a complete header is short of its end, unless the header is all there is. -/
theorem Rep.length_lt_or (h : Rep H c p cap) {n : ℕ} (hp : 4 ≤ p.length)
    (hn : (fixHead H).len (p.take 4) = some n) : p.length < 4 + n ∨ n = 0 ∧ p.length = 4 := by
  rcases Nat.lt_or_ge p.length 5 with h5 | h5
  · omega
  have hu := h.unfinished
  unfold Format.next at hu
  rw [show (fixHead H).len (p.take (fixHead H).head) = some n from hn,
    show (fixHead H).head = 4 from rfl, if_neg (by omega)] at hu
  simp only at hu
  split_ifs at hu with hlt
  exact .inl hlt

theorem Rep.length_le (h : Rep H c p cap) {n : ℕ} (hp : 4 ≤ p.length)
    (hn : (fixHead H).len (p.take 4) = some n) : p.length ≤ 4 + n := by
  have := h.length_lt_or hp hn
  omega

/-- The bytes held and a chunk that completes the package are a whole frame. -/
theorem next_of_complete (hp : 4 ≤ p.length) (hd : d ≠ []) {n : ℕ}
    (hn : (fixHead H).len (p.take 4) = some n) (hpn : p.length ≤ 4 + n)
    (hl : 4 + n ≤ p.length + d.length) :
    (fixHead H).next 5 (p ++ d) =
      some (((p ++ d).drop 4).take n, d.drop (4 + n - p.length)) := by
  have hd' := List.length_pos_iff.2 hd
  have htake : (p ++ d).take 4 = p.take 4 := List.take_append_of_le_length hp
  unfold Format.next
  rw [show (fixHead H).head = 4 from rfl, htake, hn, List.length_append, if_neg (by omega)]
  simp only
  rw [if_neg (by omega), List.drop_append (i := 4 + n), List.drop_eq_nil_of_le hpn,
    List.nil_append]

theorem next_of_partial (hp : 4 ≤ p.length)
    (hn : ∀ n, (fixHead H).len (p.take 4) = some n → p.length + d.length < 4 + n) :
    (fixHead H).next 5 (p ++ d) = none := by
  have htake : (p ++ d).take 4 = p.take 4 := List.take_append_of_le_length hp
  unfold Format.next
  rw [show (fixHead H).head = 4 from rfl, htake]
  split_ifs
  · rfl
  · rcases hm : (fixHead H).len (p.take 4) with _ | n
    · rfl
    · simp only
      rw [if_pos (by rw [List.length_append]; exact hn n hm)]

/-- The body branch completes a package: it hands it over and leaves the entry empty. -/
theorem readBody_complete (h : Rep H c p cap) (hp : 4 ≤ p.length) {n : ℕ}
    (hn : (fixHead H).len (p.take 4) = some n) (hl : 4 + n ≤ p.length + d.length) :
    (readBody H c d).copy.InBounds ∧
      (readBody H c d).recv = some (((p ++ d).drop 4).take n, (n : ℤ)) ∧
      (readBody H c d).rest = d.drop (4 + n - p.length) ∧
      (readBody H c d).remainBytes = (d.drop (4 + n - p.length)).length ∧
      Rep H (readBody H c d).cache [] cap := by
  have hpn := h.length_le hp hn
  have hroom := h.room n hp hn
  set k := 4 + n - p.length with hk
  set q := p ++ d.take k with hq
  have hql : q.length = 4 + n := by
    simp only [hq, List.length_append, List.length_take]
    omega
  have hq4 : q.take 4 = p.take 4 := by
    rw [hq, List.take_append_of_le_length hp]
  have hpl : packageLength H c.buffer = n := by
    rw [packageLength_bytes h.block hp, (fixHead_len_some H hn).1]
  have hall := allPackSize_of_some H hn
  rw [(fixHead_len_some H hn).1] at hall
  have hleft : wrap32 (((4 + n : ℕ) : ℤ) - c.curReadSize) = k := by
    have hcap := h.cap_le
    rw [h.read, wrap32_of_range] <;> simp only [intMin, intMax] at * <;> omega
  have hread : c.curReadSize + ((d.take k).length : ℤ) = q.length := by
    rw [h.read, hq, List.length_append]
    push_cast
    ring
  have hbuf : c.buffer.buffer.write c.curReadSize.toNat (d.take k) =
      .bytes (q ++ List.replicate (cap - (4 + n)) 0) := by
    rw [h.write, ← hq, hql]
  have hpl' : packageLength H ⟨.bytes (q ++ List.replicate (cap - (4 + n)) 0), (cap : ℤ)⟩ = n := by
    rw [packageLength_bytes rfl (by omega), hq4, (fixHead_len_some H hn).1]
  simp only [readBody, hpl, hleft, copyBytes_eq (rfl : (k : ℤ) = k) d, Int.toNat_natCast, take_length_take,
    drop_length_take, hread, hbuf, length_drop_cast, h.size, hpl', hall, hql, decide_true, if_true,
    true_and, Block.content]
  refine ⟨⟨by simp, ?_, ?_, ?_⟩, ?_, ?_⟩
  · simp only [List.length_take]
    omega
  · rw [h.read]
    exact Int.natCast_nonneg _
  · rw [hread, hql]
    exact Int.ofNat_le.2 hroom
  · rw [netPackerFixheadHeaderLength, List.take_drop, List.take_left' hql, List.take_drop,
      List.take_append, List.take_of_length_le hpn]
  · have hcap : 0 < cap := lt_of_lt_of_le (by decide) h.head_le
    rw [zeroAllBytes_bytes hcap (by simp; omega)]
    exact ⟨rfl, by simp, rfl, Nat.zero_le _, h.head_le, h.cap_le, fun n hn => by simp at hn,
      next_of_length_le (by simp)⟩

/-- The body branch takes the whole chunk without completing a package. -/
theorem readBody_partial (h : Rep H c p cap) (hp : 4 ≤ p.length)
    (hL : (p.length : ℤ) + d.length < 4 + H.readInt (p.take 4))
    (hfit : p.length + d.length ≤ cap) :
    (readBody H c d).copy.InBounds ∧ (readBody H c d).recv = none ∧
      (readBody H c d).rest = [] ∧ (readBody H c d).remainBytes = 0 ∧
      Rep H (readBody H c d).cache (p ++ d) cap := by
  have hpl : packageLength H c.buffer = H.readInt (p.take 4) := packageLength_bytes h.block hp
  have hb := (H.readInt_bounds (p.take 4)).2
  have hleft : wrap32 (wrap32 ((netPackerFixheadHeaderLength : ℤ) + H.readInt (p.take 4))
      - c.curReadSize) = 4 + H.readInt (p.take 4) - p.length := by
    rw [wrap32_sub, h.read, netPackerFixheadHeaderLength, wrap32_of_range]
    · rfl
    · rw [intMin]
      push_cast
      omega
    · push_cast
      omega
  have hcopy : (if (d.length : ℤ) ≥ 4 + H.readInt (p.take 4) - p.length then
      4 + H.readInt (p.take 4) - p.length else (d.length : ℤ)) = d.length :=
    if_neg (by omega)
  have hread : c.curReadSize + (d.length : ℤ) = (p ++ d).length := by
    rw [h.read, List.length_append]
    push_cast
    rfl
  have hq4 : (p ++ d).take 4 = p.take 4 := List.take_append_of_le_length hp
  have hpl' : packageLength H
      ⟨.bytes (p ++ d ++ List.replicate (cap - (p ++ d).length) 0), (cap : ℤ)⟩
        = H.readInt (p.take 4) := by
    rw [packageLength_bytes rfl (by rw [List.length_append]; omega), hq4]
  have hne : ¬ (((p ++ d).length : ℤ)
      = wrap32 ((netPackerFixheadHeaderLength : ℤ) + H.readInt (p.take 4))) := by
    rw [List.length_append]
    rcases hn : (fixHead H).len (p.take 4) with _ | n
    · have := allPackSize_of_none H hn
      push_cast
      omega
    · have hr := (fixHead_len_some H hn).1
      have := allPackSize_of_some H hn
      push_cast at this ⊢
      omega
  simp only [readBody, hpl, hleft, hcopy, Int.toNat_natCast, List.take_length, List.drop_length,
    h.write, hread, h.size, hpl', hne, decide_false, sub_self, Bool.false_eq_true, if_false,
    true_and]
  refine ⟨⟨by simp, le_rfl, ?_, ?_⟩, rfl, rfl, rfl, ?_, h.head_le, h.cap_le, ?_, ?_⟩
  · rw [h.read]
    exact Int.natCast_nonneg _
  · rw [hread, List.length_append]
    exact Int.ofNat_le.2 hfit
  · rwa [List.length_append]
  · intro n _ hn
    rw [hq4] at hn
    exact h.room n hp hn
  · refine next_of_partial hp fun n hn => ?_
    have hr := (fixHead_len_some H hn).1
    omega

/-- Past a header outside `0..INT_MAX-4` the body branch copies out of bounds. -/
theorem readBody_bad (h : Rep H c p cap) (hp : 4 ≤ p.length) (hd : d ≠ [])
    (hbad : (H.readInt (p.take 4) < 0 ∧ p.length = 4) ∨
      (intMax - 4 < H.readInt (p.take 4) ∧ cap < p.length + d.length)) :
    ¬ (readBody H c d).copy.InBounds := by
  have hpl : packageLength H c.buffer = H.readInt (p.take 4) := packageLength_bytes h.block hp
  have hb := H.readInt_bounds (p.take 4)
  have hd' := List.length_pos_iff.2 hd
  have hfits := h.fits
  have hcap := h.cap_le
  have hleft : wrap32 (wrap32 ((netPackerFixheadHeaderLength : ℤ) + H.readInt (p.take 4))
      - (p.length : ℤ)) = 4 + H.readInt (p.take 4) - p.length := by
    rw [wrap32_sub, netPackerFixheadHeaderLength, wrap32_of_range]
    · rfl
    · rw [intMin, intMax] at *
      push_cast
      omega
    · push_cast
      omega
  simp only [readBody, hpl, hleft, MemCopy.InBounds, h.size, h.read]
  split_ifs <;> omega

end Activation

end Elegance
