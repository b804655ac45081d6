import Elegance.Proofs.Packer

/-!
# A call of `UnPack`

A call goes from the entry holding `p` to the one holding what decoding leaves of `p` and the
chunk, and hands over the packages decoded (`unPack_of_tame`); on a stream that is not `Tame` one of
its copies is out of bounds (`unPack_of_not_tame`).
-/

namespace Elegance

open CInt LengthPrefix

variable {H : HostLayout}

section Stream

theorem handedOver_of_some {s b r : List Byte} (h : (fixHead H).next 5 s = some (b, r)) :
    handedOver H s = (b :: (handedOver H r).1, (handedOver H r).2) :=
  (fixHead H).decode_of_some h

theorem handedOver_of_none {s : List Byte} (h : (fixHead H).next 5 s = none) :
    handedOver H s = ([], s) :=
  (fixHead H).decode_of_none h

theorem longestPackage_of_some {s b r : List Byte} (h : (fixHead H).next 5 s = some (b, r)) :
    longestPackage H s = max b.length (longestPackage H r) :=
  (fixHead H).longest_of_some h

theorem longestPackage_of_none {s : List Byte} (h : (fixHead H).next 5 s = none) :
    longestPackage H s = if 4 ≤ s.length then ((fixHead H).len (s.take 4)).getD 0 else 0 :=
  (fixHead H).longest_of_none h

/-- A buffer grown for a package announced in the stream changes nothing. -/
theorem tame_grow {cap n : ℕ} {s : List Byte} (hn : n ≤ longestPackage H s) :
    Tame H (max cap (4 + n)) s ↔ Tame H cap s := by
  have hm : max (max cap (4 + n)) (4 + longestPackage H s)
      = max cap (4 + longestPackage H s) := by
    omega
  simp only [Tame, netPackerFixheadHeaderLength, hm]

theorem handedOver_append (s t : List Byte) : handedOver H (s ++ t) =
    ((handedOver H s).1 ++ (handedOver H ((handedOver H s).2 ++ t)).1,
      (handedOver H ((handedOver H s).2 ++ t)).2) :=
  (fixHead H).decode_append _ s t

theorem longestPackage_append (s t : List Byte) : longestPackage H (s ++ t) =
    max (longestPackage H s) (longestPackage H ((handedOver H s).2 ++ t)) :=
  (fixHead H).longest_append _ s t

theorem longestPackage_append_le (s t : List Byte) :
    longestPackage H s ≤ longestPackage H (s ++ t) := by
  rw [longestPackage_append]
  exact le_max_left _ _

/-- A stream goes on as tame as what it left in its buffer. -/
theorem tame_continue (s t : List Byte) :
    Tame H (4 + longestPackage H s) ((handedOver H s).2 ++ t) ↔ Tame H 4 (s ++ t) := by
  have hm : max (4 + longestPackage H s) (4 + longestPackage H ((handedOver H s).2 ++ t))
      = max 4 (4 + longestPackage H (s ++ t)) := by
    rw [longestPackage_append s t]
    omega
  have hs : (handedOver H (s ++ t)).2 = (handedOver H ((handedOver H s).2 ++ t)).2 := by
    rw [handedOver_append]
  simp only [Tame, netPackerFixheadHeaderLength, hm, hs]

/-- A stream held up at a header outside `0..INT_MAX-4`. -/
theorem tame_iff_of_none {cap : ℕ} (hcap : 4 ≤ cap) {s : List Byte}
    (h : (fixHead H).next 5 s = none) (hs : 4 < s.length)
    (hn : (fixHead H).len (s.take 4) = none) :
    Tame H cap s ↔ intMax - 4 < H.readInt (s.take 4) ∧ s.length ≤ cap := by
  have hbad := fixHead_len_none H hn
  have hlong : (fixHead H).longest 5 s = 0 := by
    rw [show (fixHead H).longest 5 s = longestPackage H s from rfl, longestPackage_of_none h,
      if_pos hs.le, hn, Option.getD_none]
  rw [tame_iff, (fixHead H).decode_of_none h, hlong, max_eq_left hcap]
  rw [intMax] at *
  dsimp only
  constructor
  · intro ht
    have := ht hs.le
    omega
  · intro ht _
    omega

/-- What comes before in a tame stream is tame. -/
theorem tame_prefix {s t : List Byte} (h : Tame H 4 (s ++ t)) : Tame H 4 s := by
  intro hl
  set r := (handedOver H s).2 with hr
  rcases hn : (fixHead H).len (r.take 4) with _ | n
  · have htake : (r ++ t).take 4 = r.take 4 := List.take_append_of_le_length hl
    have hnext : (fixHead H).next 5 (r ++ t) = none :=
      next_of_partial hl fun n hn' => by rw [hn] at hn'; cases hn'
    have hbad := fixHead_len_none H hn
    rw [← tame_continue, ← hr] at h
    have hlong := longestPackage_of_none hnext
    rw [htake, hn, Option.getD_none, ite_self] at hlong
    have hover := handedOver_of_none hnext
    have h' := h (by rw [hover, List.length_append]; exact hl.trans (Nat.le_add_right _ _))
    simp only [hover, netPackerFixheadHeaderLength, htake, hlong, List.length_append] at h' hl ⊢
    omega
  · obtain ⟨hv, hle⟩ := fixHead_len_some H hn
    refine .inl ⟨?_, ?_⟩ <;> simp only [netPackerFixheadHeaderLength, hv]
    · exact Int.natCast_nonneg n
    · exact hle

end Stream

section Call

variable (H) in
/-- The entry of `netId` holds `p` in a buffer of `cap` bytes; before its first call it has none. -/
def Holds (m : NetIdToBufferMap) (netId : NetworkID) (p : List Byte) (cap : ℕ) : Prop :=
  (m.find netId = none ∧ p = [] ∧ cap = 4) ∨ ∃ c, m.find netId = some c ∧ Rep H c p cap

theorem Holds.entry {m : NetIdToBufferMap} {netId : NetworkID} {p : List Byte} {cap : ℕ}
    (h : Holds H m netId p cap) (d : List Byte) : ∃ c, Rep H c p cap ∧
      activation H (m.find netId) d
        = if 4 ≤ p.length then readBody H c d else readHeader H c d := by
  rcases h with ⟨hm, rfl, rfl⟩ | ⟨c, hm, hc⟩
  · exact ⟨firstRead, rep_firstRead, by rw [hm]; rfl⟩
  · refine ⟨c, hc, ?_⟩
    rw [hm]
    simp only [activation, hc.read, netPackerFixheadHeaderLength]
    split_ifs <;> first | rfl | omega

theorem holds_set (m : NetIdToBufferMap) (netId : NetworkID) {c : CacheBuffer} {p : List Byte}
    {cap : ℕ} (h : Rep H c p cap) : Holds H (m.set netId c) netId p cap :=
  .inr ⟨c, StdMap.find_set_self _ _ _, h⟩

variable (H) in
/-- The call took `m` to `m'`: it handed over the packages decoded from `s`, all its events are
safe, and the entry of `netId`, the only one it touched, holds the rest. -/
structure HandsOver (o : Outcome) (m m' : NetIdToBufferMap) (netId : NetworkID) (s : List Byte)
    (cap : ℕ) : Prop where
  final : o.final = .ok m'
  holds : Holds H m' netId (handedOver H s).2 (max cap (4 + longestPackage H s))
  others : ∀ j, j ≠ netId → m'.find j = m.find j
  recvs : ∀ j, managerRecvs j o.events =
    if j = netId then (handedOver H s).1.map fun b => (b, (b.length : ℤ)) else []
  safe : ∀ e ∈ o.events, e.Safe

theorem find_set_ne {m : NetIdToBufferMap} {netId j : NetworkID} {c : CacheBuffer}
    (hj : j ≠ netId) : (m.set netId c).find j = m.find j := by
  rw [StdMap.find_set]
  simp [hj.symm]

theorem managerRecvs_append (j : NetworkID) (l l' : List PackerEvent) :
    managerRecvs j (l ++ l') = managerRecvs j l ++ managerRecvs j l' :=
  List.filterMap_append

theorem managerRecvs_events (a : Activation) (netId j : NetworkID) :
    managerRecvs j (a.events netId) = if j = netId then a.recv.toList else [] := by
  rcases h : a.recv with _ | ⟨b, n⟩
  · simp [managerRecvs, Activation.events, h]
  · by_cases hj : netId = j
    · simp [managerRecvs, Activation.events, h, hj]
    · simp [managerRecvs, Activation.events, h, hj, Ne.symm hj]

theorem safe_events {a : Activation} (netId : NetworkID) (hc : a.copy.InBounds)
    (hr : ∀ p ∈ a.recv, 0 ≤ p.2) : ∀ e ∈ a.events netId, e.Safe := by
  intro e he
  rcases List.mem_cons.1 he with rfl | he
  · exact hc
  · rcases hr' : a.recv with _ | p
    · simp [hr'] at he
    · simp only [hr', Option.map_some, Option.toList_some, List.mem_singleton] at he
      subst he
      exact hr p (by rw [hr']; rfl)

variable {netId : NetworkID}

theorem unPackFuel_last {fuel : ℕ} {m : NetIdToBufferMap} {d : List Byte}
    (hc : (activation H (m.find netId) d).copy.InBounds)
    (hr : (activation H (m.find netId) d).remainBytes = 0) :
    unPackFuel H netId (fuel + 1) m d =
      ⟨(activation H (m.find netId) d).events netId,
        .ok (m.set netId (activation H (m.find netId) d).cache)⟩ := by
  simp only [unPackFuel, if_pos hc, hr, lt_irrefl, if_false]

theorem unPackFuel_more {fuel : ℕ} {m : NetIdToBufferMap} {d : List Byte}
    (hc : (activation H (m.find netId) d).copy.InBounds)
    (hr : 0 < (activation H (m.find netId) d).remainBytes) :
    unPackFuel H netId (fuel + 1) m d =
      ⟨(activation H (m.find netId) d).events netId ++
          (unPackFuel H netId fuel (m.set netId (activation H (m.find netId) d).cache)
            (activation H (m.find netId) d).rest).events,
        (unPackFuel H netId fuel (m.set netId (activation H (m.find netId) d).cache)
          (activation H (m.find netId) d).rest).final⟩ := by
  simp only [unPackFuel, if_pos hc, if_pos hr]

/-- How many nested calls a call on `d` may take from an entry holding `p`: one for each byte, and
one more where something is held, which may be a package that is complete already. -/
def calls (p d : List Byte) : ℕ := d.length + if p = [] then 0 else 1

theorem calls_le (p d : List Byte) : calls p d ≤ d.length + 1 := by
  unfold calls
  split_ifs <;> omega

/-- Reading on in the header leaves fewer calls. -/
theorem calls_header {p d : List Byte} {fuel : ℕ} (hp : p.length < 4)
    (hd : 0 < (d.drop (4 - p.length)).length) (h : calls p d ≤ fuel + 1) :
    calls (p ++ d.take (4 - p.length)) (d.drop (4 - p.length)) ≤ fuel := by
  have hle := calls_le (p ++ d.take (4 - p.length)) (d.drop (4 - p.length))
  simp only [calls, List.length_drop] at h hd hle ⊢
  rcases p with _ | ⟨b, p⟩
  · simp only [List.length_nil, if_true] at h hd hle ⊢
    omega
  · simp only [List.cons_append, reduceCtorEq, if_false, List.length_cons] at h hd hp hle ⊢
    omega

/-- So does completing a package. -/
theorem calls_body {p d : List Byte} {fuel k : ℕ} (hp : 4 ≤ p.length)
    (h : calls p d ≤ fuel + 1) : calls [] (d.drop k) ≤ fuel := by
  simp only [calls, if_true, List.length_drop, add_zero] at h ⊢
  rw [if_neg (by rintro rfl; simp at hp)] at h
  omega

theorem handsOver_last {fuel : ℕ} {m : NetIdToBufferMap} {d s p : List Byte} {cap cap' : ℕ}
    (hc : (activation H (m.find netId) d).copy.InBounds)
    (hr : (activation H (m.find netId) d).remainBytes = 0)
    (hrecv : (activation H (m.find netId) d).recv.toList =
      (handedOver H s).1.map fun b => (b, (b.length : ℤ)))
    (hrep : Rep H (activation H (m.find netId) d).cache p cap')
    (hp : (handedOver H s).2 = p) (hcap : cap' = max cap (4 + longestPackage H s)) :
    ∃ m', HandsOver H (unPackFuel H netId (fuel + 1) m d) m m' netId s cap := by
  rw [unPackFuel_last hc hr]
  refine ⟨_, rfl, by rw [hp, ← hcap]; exact holds_set m netId hrep, fun j hj => find_set_ne hj,
    fun j => by rw [managerRecvs_events, hrecv], safe_events netId hc fun q hq => ?_⟩
  have hq' : q ∈ (activation H (m.find netId) d).recv.toList := Option.mem_toList.2 hq
  rw [hrecv, List.mem_map] at hq'
  obtain ⟨b, -, rfl⟩ := hq'
  exact Int.natCast_nonneg _

theorem handsOver_more {fuel : ℕ} {m m' : NetIdToBufferMap} {d s s' : List Byte} {cap cap' : ℕ}
    (hc : (activation H (m.find netId) d).copy.InBounds)
    (hr : 0 < (activation H (m.find netId) d).remainBytes)
    (h : HandsOver H (unPackFuel H netId fuel (m.set netId (activation H (m.find netId) d).cache)
      (activation H (m.find netId) d).rest) (m.set netId (activation H (m.find netId) d).cache) m'
      netId s' cap')
    (hs : (handedOver H s).1.map (fun b => (b, (b.length : ℤ))) =
      (activation H (m.find netId) d).recv.toList ++
        (handedOver H s').1.map fun b => (b, (b.length : ℤ)))
    (hrest : (handedOver H s).2 = (handedOver H s').2)
    (hcap : max cap' (4 + longestPackage H s') = max cap (4 + longestPackage H s)) :
    HandsOver H (unPackFuel H netId (fuel + 1) m d) m m' netId s cap := by
  rw [unPackFuel_more hc hr]
  refine ⟨h.final, by rw [hrest, ← hcap]; exact h.holds,
    fun j hj => (h.others j hj).trans (find_set_ne hj), fun j => ?_, fun e he => ?_⟩
  · rw [managerRecvs_append, managerRecvs_events, h.recvs j, hs]
    split_ifs <;> simp
  · rcases List.mem_append.1 he with he | he
    · refine safe_events netId hc (fun q hq => ?_) e he
      have hq' : q ∈ (handedOver H s).1.map (fun b => (b, (b.length : ℤ))) := by
        rw [hs]
        exact List.mem_append_left _ (Option.mem_toList.2 hq)
      obtain ⟨b, -, rfl⟩ := List.mem_map.1 hq'
      exact Int.natCast_nonneg _
    · exact h.safe e he

variable (H netId) in
/-- Calls that need at most `fuel` nested ones decode a tame stream. -/
def Decodes (fuel : ℕ) : Prop :=
  ∀ {m : NetIdToBufferMap} {p d : List Byte} {cap : ℕ}, Holds H m netId p cap → d ≠ [] →
    Tame H cap (p ++ d) → calls p d ≤ fuel →
      ∃ m', HandsOver H (unPackFuel H netId fuel m d) m m' netId (p ++ d) cap

variable {fuel : ℕ} {m : NetIdToBufferMap} {c : CacheBuffer} {p d : List Byte} {cap : ℕ}

theorem decodes_header (ih : Decodes H netId fuel) (hrep : Rep H c p cap)
    (ha : activation H (m.find netId) d = readHeader H c d) (hd : d ≠ [])
    (ht : Tame H cap (p ++ d)) (hfuel : calls p d ≤ fuel + 1) (hp : p.length < 4) :
    ∃ m', HandsOver H (unPackFuel H netId (fuel + 1) m d) m m' netId (p ++ d) cap := by
  have hd' := List.length_pos_iff.2 hd
  obtain ⟨hc, hrecv, hrest, hremain, hcache⟩ := readHeader_spec (d := d) hrep hp
  rw [← ha] at hc hrecv hrest hremain hcache
  set q := p ++ d.take (4 - p.length) with hq
  have hql : q.length ≤ 4 := by
    simp only [hq, List.length_append, List.length_take]
    omega
  have hqd : q ++ d.drop (4 - p.length) = p ++ d := by
    rw [hq, List.append_assoc, List.take_append_drop]
  have hover := handedOver_of_none (next_of_length_le (H := H) hql)
  rcases Nat.eq_zero_or_pos (d.drop (4 - p.length)).length with hz | hz
  · rw [List.length_eq_zero_iff] at hz
    rw [hz, List.append_nil] at hqd
    rw [← hqd]
    refine handsOver_last hc (by rw [hremain, hz]; rfl) ?_ hcache (by rw [hover]) rfl
    rw [hrecv, hover]
    rfl
  · have hle : longestPackage H q ≤ longestPackage H (p ++ d) := by
      rw [← hqd]
      exact longestPackage_append_le _ _
    obtain ⟨m', hm'⟩ := ih (holds_set m netId hcache) (List.length_pos_iff.1 hz)
      (by rw [hqd]; exact (tame_grow hle).2 ht) (calls_header hp hz hfuel)
    rw [hqd, ← hrest] at hm'
    refine ⟨m', handsOver_more hc (by rw [hremain]; exact_mod_cast hz) hm' ?_ rfl ?_⟩
    · rw [hrecv]
      rfl
    · show max (max cap (4 + longestPackage H q)) _ = _
      omega

theorem decodes_complete (ih : Decodes H netId fuel) (hrep : Rep H c p cap)
    (ha : activation H (m.find netId) d = readBody H c d) (hd : d ≠ [])
    (ht : Tame H cap (p ++ d)) (hfuel : calls p d ≤ fuel + 1) (hp : 4 ≤ p.length) {n : ℕ}
    (hn : (fixHead H).len (p.take 4) = some n) (hl : 4 + n ≤ p.length + d.length) :
    ∃ m', HandsOver H (unPackFuel H netId (fuel + 1) m d) m m' netId (p ++ d) cap := by
  obtain ⟨hc, hrecv, hrest, hremain, hcache⟩ := readBody_complete hrep hp hn hl
  rw [← ha] at hc hrecv hrest hremain hcache
  have hnext := next_of_complete hp hd hn (hrep.length_le hp hn) hl
  have hroom := hrep.room n hp hn
  set b := ((p ++ d).drop 4).take n with hb
  set r := d.drop (4 + n - p.length) with hr
  have hbl : b.length = n := by
    simp only [hb, List.length_take, List.length_drop, List.length_append]
    omega
  have hlong : longestPackage H (p ++ d) = max n (longestPackage H r) := by
    rw [← hbl]
    exact longestPackage_of_some hnext
  rcases Nat.eq_zero_or_pos r.length with hz | hz
  · rw [List.length_eq_zero_iff] at hz
    have hnone := next_of_length_le (H := H) (s := []) (by simp)
    have hnil := handedOver_of_none hnone
    rw [hz] at hnext
    refine handsOver_last hc (by rw [hremain, hz]; rfl) ?_ hcache ?_ ?_
    · rw [hrecv, handedOver_of_some hnext, hnil]
      simp [hbl]
    · rw [handedOver_of_some hnext, hnil]
    · rw [hlong, hz, longestPackage_of_none hnone, if_neg (by simp)]
      omega
  · obtain ⟨m', hm'⟩ := ih (holds_set m netId hcache) (List.length_pos_iff.1 hz)
      ((tame_of_next H hnext (by rw [hbl]; exact hroom)).1 ht) (calls_body hp hfuel)
    rw [List.nil_append, ← hrest] at hm'
    refine ⟨m', handsOver_more hc (by rw [hremain]; exact_mod_cast hz) hm' ?_ ?_ ?_⟩
    · rw [hrecv, handedOver_of_some hnext, ← hrest]
      simp [hbl]
    · rw [handedOver_of_some hnext, ← hrest]
    · rw [hlong, ← hrest]
      omega

theorem decodes_partial (hrep : Rep H c p cap)
    (ha : activation H (m.find netId) d = readBody H c d) (hd : d ≠ [])
    (ht : Tame H cap (p ++ d)) (hp : 4 ≤ p.length)
    (hl : ∀ n, (fixHead H).len (p.take 4) = some n → p.length + d.length < 4 + n) :
    ∃ m', HandsOver H (unPackFuel H netId (fuel + 1) m d) m m' netId (p ++ d) cap := by
  have hd' := List.length_pos_iff.2 hd
  have hcap := hrep.head_le
  have hnext : (fixHead H).next 5 (p ++ d) = none := next_of_partial hp hl
  have htake : (p ++ d).take 4 = p.take 4 := List.take_append_of_le_length hp
  have hlong := longestPackage_of_none hnext
  rw [if_pos (by rw [List.length_append]; omega), htake] at hlong
  have hfit : (p.length : ℤ) + d.length < 4 + H.readInt (p.take 4) ∧
      p.length + d.length ≤ cap ∧ cap = max cap (4 + longestPackage H (p ++ d)) := by
    rcases hn : (fixHead H).len (p.take 4) with _ | n
    · rw [tame_iff_of_none hcap hnext (by rw [List.length_append]; omega)
        (by rw [htake]; exact hn), htake, List.length_append] at ht
      have hle := hrep.cap_le
      refine ⟨by omega, ht.2, ?_⟩
      rw [hlong, hn, Option.getD_none]
      omega
    · have hlt := hl n hn
      have hroom := hrep.room n hp hn
      refine ⟨by rw [(fixHead_len_some H hn).1]; omega, by omega, ?_⟩
      rw [hlong, hn, Option.getD_some]
      omega
  obtain ⟨hc, hrecv, hrest, hremain, hcache⟩ := readBody_partial hrep hp hfit.1 hfit.2.1
  rw [← ha] at hc hrecv hrest hremain hcache
  have hover := handedOver_of_none hnext
  refine handsOver_last hc hremain ?_ hcache (by rw [hover]) hfit.2.2
  rw [hrecv, hover]
  rfl

theorem decodes_all : ∀ fuel, Decodes H netId fuel
  | 0, m, p, d, cap, _, hd, _, hfuel => by
    have := List.length_pos_iff.2 hd
    simp only [calls] at hfuel
    omega
  | fuel + 1, m, p, d, cap, h, hd, ht, hfuel => by
    obtain ⟨c, hrep, ha⟩ := h.entry d
    rcases Nat.lt_or_ge p.length 4 with hp | hp
    · rw [if_neg (by omega)] at ha
      exact decodes_header (decodes_all fuel) hrep ha hd ht hfuel hp
    · rw [if_pos hp] at ha
      by_cases hcomp : ∃ n, (fixHead H).len (p.take 4) = some n ∧ 4 + n ≤ p.length + d.length
      · obtain ⟨n, hn, hl⟩ := hcomp
        exact decodes_complete (decodes_all fuel) hrep ha hd ht hfuel hp hn hl
      · push Not at hcomp
        exact decodes_partial hrep ha hd ht hp hcomp

/-- A call decodes a tame stream. -/
theorem unPack_of_tame (h : Holds H m netId p cap) (hd : d ≠ []) (ht : Tame H cap (p ++ d)) :
    ∃ m', HandsOver H (unPack H m netId d) m m' netId (p ++ d) cap :=
  decodes_all _ h hd ht (calls_le p d)

/-- The run ends at a copy out of bounds. -/
def Outcome.Stops (o : Outcome) : Prop :=
  o.final = .error .badCopy ∧ ∃ e ∈ o.events, ¬ e.Safe

theorem unPackFuel_badCopy (h : ¬ (activation H (m.find netId) d).copy.InBounds) :
    (unPackFuel H netId (fuel + 1) m d).Stops := by
  simp only [unPackFuel, if_neg h]
  exact ⟨rfl, _, List.mem_singleton_self _, h⟩

theorem stops_unPackFuel_more (hc : (activation H (m.find netId) d).copy.InBounds)
    (hr : 0 < (activation H (m.find netId) d).remainBytes)
    (h : (unPackFuel H netId fuel (m.set netId (activation H (m.find netId) d).cache)
      (activation H (m.find netId) d).rest).Stops) :
    (unPackFuel H netId (fuel + 1) m d).Stops := by
  obtain ⟨hfinal, e, he, hs⟩ := h
  rw [unPackFuel_more hc hr]
  exact ⟨hfinal, e, List.mem_append_right _ he, hs⟩

/-- What an entry holds past a header outside `0..INT_MAX-4`. -/
theorem Rep.tame_cases (hrep : Rep H c p cap) (hp : 4 ≤ p.length) (ht : Tame H cap p)
    (hn : (fixHead H).len (p.take 4) = none) :
    (H.readInt (p.take 4) < 0 ∧ p.length = 4) ∨ intMax - 4 < H.readInt (p.take 4) := by
  have hbad := fixHead_len_none H hn
  rw [tame_iff, (fixHead H).decode_of_none hrep.unfinished] at ht
  have := ht hp
  dsimp only at this
  omega

/-- On any other stream it ends there. -/
theorem unPackFuel_of_not_tame : ∀ (fuel : ℕ) {m : NetIdToBufferMap} {p d : List Byte} {cap : ℕ},
    Holds H m netId p cap → d ≠ [] → Tame H cap p → ¬ Tame H cap (p ++ d) → calls p d ≤ fuel →
      (unPackFuel H netId fuel m d).Stops
  | 0, m, p, d, cap, _, hd, _, _, hfuel => by
    have := List.length_pos_iff.2 hd
    simp only [calls] at hfuel
    omega
  | fuel + 1, m, p, d, cap, h, hd, hp0, ht, hfuel => by
    obtain ⟨c, hrep, ha⟩ := h.entry d
    have hd' := List.length_pos_iff.2 hd
    have hcap := hrep.head_le
    have hlong : 4 < p.length + d.length := by
      by_contra hle
      exact ht (tame_of_length_le H hcap (by rw [List.length_append]; omega))
    rcases Nat.lt_or_ge p.length 4 with hp | hp
    · rw [if_neg (by omega)] at ha
      obtain ⟨hc, -, hrest, hremain, hcache⟩ := readHeader_spec (d := d) hrep hp
      rw [← ha] at hc hrest hremain hcache
      set q := p ++ d.take (4 - p.length) with hq
      have hqd : q ++ d.drop (4 - p.length) = p ++ d := by
        rw [hq, List.append_assoc, List.take_append_drop]
      have hz : 0 < (d.drop (4 - p.length)).length := by
        rw [List.length_drop]
        omega
      have hle : longestPackage H q ≤ longestPackage H (p ++ d) := by
        rw [← hqd]
        exact longestPackage_append_le _ _
      refine stops_unPackFuel_more hc (by rw [hremain]; exact_mod_cast hz) ?_
      rw [hrest]
      have hq4 : q.length ≤ 4 := by
        simp only [hq, List.length_append, List.length_take]
        omega
      refine unPackFuel_of_not_tame fuel (holds_set m netId hcache) (List.length_pos_iff.1 hz)
        (tame_of_length_le H (hcap.trans (le_max_left _ _)) hq4)
        (by rw [hqd]; exact fun h => ht ((tame_grow hle).1 h)) (calls_header hp hz hfuel)
    · rw [if_pos hp] at ha
      have htake : (p ++ d).take 4 = p.take 4 := List.take_append_of_le_length hp
      by_cases hcomp : ∃ n, (fixHead H).len (p.take 4) = some n ∧ 4 + n ≤ p.length + d.length
      · obtain ⟨n, hn, hl⟩ := hcomp
        obtain ⟨hc, -, hrest, hremain, hcache⟩ := readBody_complete hrep hp hn hl
        rw [← ha] at hc hrest hremain hcache
        have hnext := next_of_complete hp hd hn (hrep.length_le hp hn) hl
        rw [tame_of_next H hnext (by
          have := hrep.room n hp hn
          rw [List.length_take]
          omega)] at ht
        have hz : 0 < (d.drop (4 + n - p.length)).length := by
          by_contra hz
          exact ht (tame_of_length_le H hcap (by omega))
        refine stops_unPackFuel_more hc (by rw [hremain]; exact_mod_cast hz) ?_
        rw [hrest]
        refine unPackFuel_of_not_tame fuel (holds_set m netId hcache) (List.length_pos_iff.1 hz)
          (tame_of_length_le H hcap (by simp)) ht (calls_body hp hfuel)
      · push Not at hcomp
        have hnext : (fixHead H).next 5 (p ++ d) = none := next_of_partial hp hcomp
        rcases hn : (fixHead H).len (p.take 4) with _ | n
        · rw [tame_iff_of_none hcap hnext (by rw [List.length_append]; omega)
            (by rw [htake]; exact hn), htake, List.length_append] at ht
          refine unPackFuel_badCopy ?_
          rw [ha]
          have hcases := hrep.tame_cases hp hp0 hn
          exact readBody_bad hrep hp hd (by omega)
        · refine absurd (tame_of_announced H fun _ => ?_) ht
          rw [handedOver_of_none hnext]
          simp only [netPackerFixheadHeaderLength, htake, hn, Option.isSome_some]

theorem unPack_of_not_tame (h : Holds H m netId p cap) (hd : d ≠ []) (hp : Tame H cap p)
    (ht : ¬ Tame H cap (p ++ d)) : (unPack H m netId d).Stops :=
  unPackFuel_of_not_tame _ h hd hp ht (calls_le p d)

end Call

end Elegance
