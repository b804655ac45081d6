import Elegance.ByteStore
import Elegance.Proofs.ShortReads
import Elegance.Proofs.Transfer

/-!
# Byte arrays agree with queues of values

A `ByteArray` that represents a queue holds the encodings of its values and has the room that is
left (`Represents`), and every call keeps that, also a transfer between arrays of the two classes.
So a client that keeps to what the queues answer gets the same answers from the arrays
(`clients_agree`).
-/

namespace Elegance

open CInt Memory

section Size

theorem Value.length_encode_eq (e : Endian) (v : Value) : (v.encode e).length = v.size :=
  AnyByteArray.length_encode e .fwLittleEndian v

theorem Value.string_of_kept {v : Value} (h : v.Kept) (s : List Byte) (hv : v = .string s) :
    0 ∉ s ∧ s.length ≤ ushrtMax := by
  subst hv
  exact h

theorem Value.object_of_kept {v : Value} (h : v.Kept) (o : List Byte) (hv : v = .object o) :
    1 ≤ o.length := by
  subst hv
  exact h

theorem Value.size_pos {v : Value} (h : v.Kept) : 0 < v.size := by
  cases v with
  | object o => exact h
  | _ => simp [Value.size, Value.encode, length_digits]

namespace ValueQueue

variable {vs moved rest : List Value} {n : ℕ}

theorem length_flatMap_encode (e : Endian) : ∀ vs : List Value,
    (vs.flatMap (Value.encode e)).length = bytes vs
  | [] => rfl
  | v :: vs => by
    rw [List.flatMap_cons, List.length_append, v.length_encode_eq, length_flatMap_encode e vs]
    rfl

theorem bytes_append (vs vs' : List Value) : bytes (vs ++ vs') = bytes vs + bytes vs' := by
  simp [bytes]

theorem takeBytes_zero : takeBytes vs 0 = some ([], vs) := by
  cases vs <;> rfl

/-- What is taken and what is left are all values, and what is taken has the size. -/
theorem takeBytes_spec : ∀ {vs : List Value} {n : ℕ} {moved rest : List Value},
    takeBytes vs n = some (moved, rest) → vs = moved ++ rest ∧ bytes moved = n
  | [], n, moved, rest, h => by
    rw [takeBytes] at h
    split_ifs at h with hn
    obtain ⟨rfl, rfl⟩ := Prod.mk.inj (Option.some.inj h)
    exact ⟨rfl, hn.symm⟩
  | v :: vs, n, moved, rest, h => by
    rw [takeBytes] at h
    split_ifs at h with hn hv
    · obtain ⟨rfl, rfl⟩ := Prod.mk.inj (Option.some.inj h)
      exact ⟨rfl, hn.symm⟩
    · obtain ⟨⟨moved', rest'⟩, htake, heq⟩ := Option.map_eq_some_iff.1 h
      obtain ⟨rfl, rfl⟩ := Prod.mk.inj heq
      obtain ⟨rfl, hbytes⟩ := takeBytes_spec htake
      refine ⟨rfl, ?_⟩
      show v.size + bytes moved' = n
      omega

end ValueQueue

end Size

namespace ByteStore

open AnyByteArray ValueQueue

variable {e : Endian} {b b' : AnyByteArray} {q : ValueQueue}

/-- The array holds the encodings of the values, and has the room that the queue has. -/
structure Represents (e : Endian) (b : AnyByteArray) (q : ValueQueue) : Prop where
  valid : b.Valid
  wire : b.wire = e
  unread : b.unread = q.values.flatMap (Value.encode e)
  kept : ∀ v ∈ q.values, v.Kept
  room : ∀ n, q.written + n ≤ maxMsgLength → b.Fits n
  count : bytes q.values ≤ q.written
  full : q.written ≤ maxMsgLength

theorem Represents.bytesAvailable (h : Represents e b q) : b.bytesAvailable = bytes q.values := by
  have hlen := length_flatMap_encode e q.values
  rw [← h.unread] at hlen
  have hmax := h.count.trans h.full
  rw [maxMsgLength] at hmax
  cases b with
  | queue q' =>
    show q'.bytesQueue.length % 4294967296 = _
    rw [show q'.bytesQueue.length = bytes q.values from hlen]
    omega
  | static _ a =>
    exact (StaticByteArray.bytesAvailable_eq (StaticByteArray.Bounded.holds h.valid)).trans hlen

section Calls

variable (behind : AnyByteArray.Behind)

/-- A read of a number moves on in what is there. -/
theorem hasWriteLength_read (host : Endian) (a : StaticByteArray) (k : Kind) :
    (a.read host k).2.hasWriteLength = a.hasWriteLength := by
  have hnum : ∀ w, (a.readNum host w).2.hasWriteLength = a.hasWriteLength := fun w => by
    unfold StaticByteArray.readNum
    split <;> rfl
  cases k with
  | string =>
    show (a.readString host).2.hasWriteLength = _
    unfold StaticByteArray.readString
    dsimp only
    split
    · rfl
    · split
      · exact hnum 2
      · exact hnum 2
  | object size =>
    show (a.readObject size).2.hasWriteLength = _
    unfold StaticByteArray.readObject
    split <;> rfl
  | _ => exact hnum _

theorem fits_read {n : ℕ} (b : AnyByteArray) (k : Kind) :
    (b.read behind k).2.Fits n ↔ b.Fits n := by
  cases b with
  | queue q => exact Iff.rfl
  | static curEndian a =>
    simp only [AnyByteArray.read, Prod.map_snd, AnyByteArray.Fits, hasWriteLength_read]

theorem Represents.read {v : Value} {values : List Value} {written : ℕ}
    (h : Represents e b ⟨v :: values, written⟩) : ∃ b', b.read behind v.kind = (some v, b') ∧
      Represents e b' ⟨values, written⟩ := by
  have hkept := h.kept v List.mem_cons_self
  have hunread := h.unread
  rw [List.flatMap_cons, ← h.wire] at hunread
  obtain ⟨b', hread, hvalid, hwire, hrest⟩ :=
    read_spec behind h.valid (Value.string_of_kept hkept) (Value.object_of_kept hkept) hunread
  have hcount := h.count
  refine ⟨b', hread, hvalid, hwire.trans h.wire, by rw [hrest, h.wire],
    fun v' hv' => h.kept v' (List.mem_cons_of_mem v hv'), fun n hn => ?_, ?_, h.full⟩
  · have hfits := fits_read (n := n) behind b v.kind
    rw [hread] at hfits
    exact hfits.2 (h.room n hn)
  · exact (Nat.le_add_left _ _).trans hcount

theorem read_empty {k : Kind} (hb : b.Valid) (hnone : b.unread = [])
    (hk : k ≠ .object 0) : b.read behind k = (nothing k, b) := by
  obtain ⟨w, hw, hpos⟩ | rfl | ⟨size, rfl⟩ :
      (∃ w, k.width = some w ∧ 0 < w) ∨ k = .string ∨ ∃ size, k = .object size := by
    cases k <;> simp [Kind.width]
  · cases b with
    | queue q =>
      obtain ⟨e, bs⟩ := q
      obtain rfl : bs = [] := hnone
      refine Prod.ext (queue_read_nil e _ hw) (congrArg queue ?_)
      exact (queue_read_rest ⟨e, []⟩ _ hw).trans (by rw [List.drop_nil])
    | static curEndian a =>
      have hlen := (StaticByteArray.Bounded.holds hb).length_eq
      rw [show a.unread = [] from hnone, List.length_nil] at hlen
      rw [AnyByteArray.read, static_read_short hw (by omega)]
      rfl
  · cases b with
    | queue q =>
      obtain ⟨e, bs⟩ := q
      obtain rfl : bs = [] := hnone
      rfl
    | static curEndian a =>
      have hlen := (StaticByteArray.Bounded.holds hb).length_eq
      rw [show a.unread = [] from hnone, List.length_nil] at hlen
      have hread : a.readString .fwLittleEndian = ([], a) := by
        unfold StaticByteArray.readString
        rw [stringLengthByteSize, if_pos (by omega)]
      simp only [AnyByteArray.read, StaticByteArray.read, hread]
      rfl
  · have hpos : 0 < size := Nat.pos_of_ne_zero fun hsize => hk (by rw [hsize])
    cases b with
    | queue q =>
      obtain ⟨e, bs⟩ := q
      obtain rfl : bs = [] := hnone
      have hread : (⟨e, []⟩ : QueueByteArray).readObject size = (none, ⟨e, []⟩) := by
        unfold QueueByteArray.readObject
        rw [if_pos (by simpa using hpos)]
      simp only [AnyByteArray.read, QueueByteArray.read, hread]
      rfl
    | static curEndian a =>
      have hread : a.readObject size = (none, a) := by
        unfold StaticByteArray.readObject
        rw [StaticByteArray.bytesAvailable_eq (StaticByteArray.Bounded.holds hb),
          show a.unread = [] from hnone, List.length_nil, if_pos (Or.inr hpos)]
      simp only [AnyByteArray.read, StaticByteArray.read, hread]
      rfl

theorem Represents.write {v : Value} (h : Represents e b q) (hv : v.Kept)
    (hroom : q.written + v.size ≤ maxMsgLength) : ∃ b', b.write behind v = some b' ∧
      Represents e b' ⟨q.values ++ [v], q.written + v.size⟩ := by
  have hsize : (v.encode b.wire).length = v.size := v.length_encode_eq _
  obtain ⟨b', hwrite, hvalid, hwire, hunread, hfits⟩ := write_spec behind h.valid
    (fun s hs => (Value.string_of_kept hv s hs).2) (by rw [hsize]; exact h.room _ hroom)
  have hcount := h.count
  refine ⟨b', hwrite, hvalid, hwire.trans h.wire, ?_, fun v' hv' => ?_, fun n hn => ?_, ?_, hroom⟩
  · rw [hunread, h.unread, h.wire, List.flatMap_append, List.flatMap_singleton]
  · rcases List.mem_append.1 hv' with hv' | hv'
    · exact h.kept v' hv'
    · rwa [List.mem_singleton.1 hv']
  · rw [hfits, hsize]
    exact h.room _ (by dsimp only at hn; omega)
  · rw [bytes_append]
    exact Nat.add_le_add_right hcount _

/-- An array as it is made, but for its byte order. -/
theorem represents_clear (h : b.wire = e) : Represents e b.clear {} where
  valid := by
    cases b with
    | queue q' => trivial
    | static _ a => exact StaticByteArray.holds_empty.bounded
  wire := by
    rw [← h]
    cases b <;> rfl
  unread := by cases b <;> rfl
  kept v hv := by cases hv
  room n hn := by
    cases b with
    | queue q' => trivial
    | static _ a =>
      show (0 : ℤ) + n ≤ maxMsgLength
      dsimp only at hn
      omega
  count := le_refl _
  full := Nat.zero_le _

section Transfer

variable {moved rest : List Value} {written size : ℕ}

theorem wire_readObject (b : AnyByteArray) (size : ℕ) : (b.readObject size).2.wire = b.wire := by
  cases b with
  | queue q =>
    show (q.readObject size).2.endian = q.endian
    unfold QueueByteArray.readObject
    split_ifs <;> rfl
  | static curEndian a => rfl

theorem fits_readObject {n : ℕ} (b : AnyByteArray) (size : ℕ) :
    (b.readObject size).2.Fits n ↔ b.Fits n := by
  cases b with
  | queue q => exact Iff.rfl
  | static curEndian a =>
    have hwrite : (a.readObject size).2.hasWriteLength = a.hasWriteLength := by
      unfold StaticByteArray.readObject
      split_ifs <;> rfl
    simp only [AnyByteArray.readObject, Prod.map_snd, AnyByteArray.Fits, hwrite]

/-- The values in front are given as one object. -/
theorem Represents.gives (h : Represents e b ⟨moved ++ rest, written⟩)
    (hzero : bytes moved = 0 → rest = []) :
    (b.readObject (bytes moved)).1.getD [] = moved.flatMap (Value.encode e) ∧
      Represents e (b.readObject (bytes moved)).2 ⟨rest, written⟩ := by
  have havailable := h.bytesAvailable
  have hcount := h.count
  have hunread := h.unread
  rw [bytes_append] at havailable hcount
  rw [List.flatMap_append] at hunread
  have hlen := length_flatMap_encode e moved
  have hle : bytes moved ≤ b.bytesAvailable := by omega
  obtain ⟨hobj, hgives⟩ := readObject_spec h.valid hle fun hnone => by
    rw [havailable, hnone, hzero hnone]
    rfl
  refine ⟨?_, hgives.valid, (wire_readObject b _).trans h.wire, ?_,
    fun v hv => h.kept v (List.mem_append_right _ hv), fun n hn => ?_, ?_, h.full⟩
  · rw [hobj, hunread, ← hlen, List.take_left]
  · rw [hgives.taken, hunread, ← hlen, List.drop_left]
  · exact (fits_readObject b _).2 (h.room n hn)
  · exact (Nat.le_add_left _ _).trans hcount

/-- An object that holds some values is taken, where the queue has the room. -/
theorem Represents.takes (h : Represents e b q) (hmoved : ∀ v ∈ moved, v.Kept)
    (hroom : q.written + bytes moved ≤ maxMsgLength) {obj : Option (List Byte)}
    (hobj : obj.getD [] = moved.flatMap (Value.encode e)) :
    ∃ b', b.writeObject obj (bytes moved) = some b' ∧
      Represents e b' ⟨q.values ++ moved, q.written + bytes moved⟩ := by
  have hlen := length_flatMap_encode e moved
  rw [← hobj] at hlen
  have hmax : (bytes moved : ℤ) ≤ intMax := by
    rw [maxMsgLength] at hroom
    rw [intMax]
    omega
  have hwrap : wrap32 (bytes moved) = bytes moved :=
    wrap32_of_range (by rw [intMin]; omega) hmax
  have hcount := h.count
  have hkept : ∀ v ∈ q.values ++ moved, v.Kept := fun v hv =>
    (List.mem_append.1 hv).elim (h.kept v) (hmoved v)
  have hcount' : bytes (q.values ++ moved) ≤ q.written + bytes moved := by
    rw [bytes_append]
    exact Nat.add_le_add_right hcount _
  have hunread : b.unread ++ obj.getD [] = (q.values ++ moved).flatMap (Value.encode e) := by
    rw [h.unread, hobj, List.flatMap_append]
  cases b with
  | queue q' =>
    have hwrite := queue_writeObject (q := q') hlen (by rw [intMax] at hmax; omega)
    rw [hwrap, if_pos hmax] at hwrite
    exact ⟨_, hwrite, trivial, h.wire, hunread, hkept, fun n _ => trivial, hcount', hroom⟩
  | static curEndian a =>
    have hfit : a.hasWriteLength + bytes moved ≤ maxMsgLength := h.room _ hroom
    have hwrite := @static_writeObject curEndian a h.valid obj _ hlen hmax
    rw [hwrap, if_pos hfit] at hwrite
    have hobjfit : a.hasWriteLength + (obj.getD []).length ≤ maxMsgLength := by rwa [hlen]
    have hholds := StaticByteArray.writeItemToBuffer_holds
      (StaticByteArray.Bounded.holds h.valid) hobjfit
    refine ⟨_, hwrite, hholds.bounded, h.wire, hholds.unread_eq.trans hunread, hkept,
      fun n hn => ?_, hcount', hroom⟩
    have hfit' : a.hasWriteLength + (bytes moved + n : ℕ) ≤ maxMsgLength :=
      h.room _ (by dsimp only at hn; omega)
    show a.hasWriteLength + (obj.getD []).length + n ≤ maxMsgLength
    rw [hlen]
    omega

end Transfer

end Calls

section Stores

variable {ι : Type} [DecidableEq ι] {s : ByteStore ι} {w w' : ι → ValueQueue} {i other : ι} {n : ℕ}

theorem represents_update (h : ∀ j, Represents e (s j) (w j)) (hi : Represents e b q) :
    ∀ j, Represents e (Function.update s i b j) (Function.update w i q j) := fun j => by
  rcases eq_or_ne j i with rfl | hj
  · simpa using hi
  · simpa [hj] using h j

/-- What is read from the other object is written to this one, also where they are the same. -/
theorem moved_through (h : ∀ j, Represents e (s j) (w j)) (hmove : move w i other n = some w')
    (hnone : n = 0 → (w other).values = []) :
    ∃ b, (Function.update s other ((s other).readObject n).2 i).writeObject
        ((s other).readObject n).1 n = some b ∧
      ∀ j, Represents e (Function.update (Function.update s other ((s other).readObject n).2) i b j)
        (w' j) := by
  obtain ⟨⟨moved, rest⟩, htake, hmove⟩ := Option.bind_eq_some_iff.1 hmove
  obtain ⟨hvalues, rfl⟩ := takeBytes_spec htake
  dsimp only at hmove
  split_ifs at hmove with hroom
  obtain rfl := Option.some.inj hmove
  have hother : Represents e (s other) ⟨moved ++ rest, (w other).written⟩ := by
    rw [← hvalues]
    exact h other
  obtain ⟨hobj, hgives⟩ := hother.gives fun hzero =>
    (List.append_eq_nil_iff.1 (hvalues ▸ hnone hzero)).2
  have hread : ∀ j, Represents e (Function.update s other ((s other).readObject _).2 j)
      (Function.update w other { w other with values := rest } j) := represents_update h hgives
  obtain ⟨b, hwrite, hb⟩ := (hread i).takes
    (fun v hv => hother.kept v (List.mem_append_left _ hv)) hroom hobj
  exact ⟨b, hwrite, represents_update hread hb⟩

theorem move_zero (h : ∀ j, Represents e (s j) (w j)) (hzero : n = 0)
    (hnone : (w other).values = []) : move w i other n = some w := by
  have hother : ({ w other with values := [] } : ValueQueue) = w other := by rw [← hnone]
  have hi : (⟨(w i).values ++ [], (w i).written + 0⟩ : ValueQueue) = w i := by
    rw [List.append_nil, Nat.add_zero]
  unfold move
  rw [hzero, takeBytes_zero, hnone, Option.bind_some]
  simp only [hother, Function.update_eq_self]
  rw [if_pos ((Nat.add_zero _).trans_le (h i).full), hi, Function.update_eq_self]

theorem readFromByteArray_spec (h : ∀ j, Represents e (s j) (w j))
    (hmove : move w i other n = some w') (hnone : n = 0 → (w other).values = []) :
    ∃ s', s.readFromByteArray i other n = some s' ∧ ∀ j, Represents e (s' j) (w' j) := by
  obtain ⟨b, hwrite, hb⟩ := moved_through h hmove hnone
  obtain ⟨⟨moved, rest⟩, htake, -⟩ := Option.bind_eq_some_iff.1 hmove
  obtain ⟨hvalues, hsize⟩ := takeBytes_spec htake
  have hrest : n = 0 → rest = [] := fun hzero =>
    (List.append_eq_nil_iff.1 (hvalues ▸ hnone hzero)).2
  have havailable := (h other).bytesAvailable
  rw [hvalues, bytes_append, hsize] at havailable
  have hmax := (h other).count.trans (h other).full
  rw [hvalues, bytes_append, hsize, maxMsgLength] at hmax
  have hmod : ((n : ℤ) % 4294967296).toNat = n := by omega
  have hwrap : wrap32 n = n := wrap32_of_range (by rw [intMin]; omega) (by rw [intMax]; omega)
  unfold readFromByteArray
  split
  · have hasked : (if (n : ℤ) = 0 ∨ (s other).bytesAvailable < n then
        wrap32 (s other).bytesAvailable else n) = n := by
      split_ifs with hall
      · have hzero : n = 0 := by omega
        rw [havailable, hrest hzero, hzero]
        rfl
      · rfl
    simp only [hmod, hasked, hwrite]
    exact ⟨_, rfl, hb⟩
  · simp only [hmod]
    split_ifs with hskip
    · have hzero : n = 0 := by omega
      rw [move_zero h hzero (hnone hzero)] at hmove
      obtain rfl := Option.some.inj hmove
      exact ⟨s, rfl, h⟩
    · simp only [hwrap, hwrite]
      exact ⟨_, rfl, hb⟩

theorem plus_spec (h : ∀ j, Represents e (s j) (w j))
    (hmove : move w i other (bytes (w other).values) = some w') :
    ∃ s', s.plus i other = some s' ∧ ∀ j, Represents e (s' j) (w' j) := by
  have hmax := (h other).count.trans (h other).full
  rw [maxMsgLength] at hmax
  unfold plus
  rw [(h other).bytesAvailable, wrap32_of_range (by rw [intMin]; omega) (by rw [intMax]; omega)]
  refine readFromByteArray_spec h hmove fun hzero => ?_
  by_contra hvalues
  obtain ⟨v, vs, hvs⟩ := List.exists_cons_of_ne_nil hvalues
  have hpos := Value.size_pos ((h other).kept v (by rw [hvs]; exact List.mem_cons_self))
  rw [hvs] at hzero
  have hsum : v.size + bytes vs = 0 := hzero
  omega

/-- Each call that the queues answer has the same answer from the arrays. -/
theorem agrees (e : Endian) (behind : AnyByteArray.Behind) :
    Client.Agrees (act behind) ValueQueue.act
      fun (s : ByteStore ι) w => ∀ j, Represents e (s j) (w j) := by
  rintro s w op a w' h hact
  cases op with
  | bytesAvailable i =>
    obtain ⟨rfl, rfl⟩ := Prod.mk.inj (Option.some.inj hact)
    exact ⟨s, congrArg (fun n => some (n, s)) (h i).bytesAvailable, h⟩
  | read i k =>
    simp only [ValueQueue.act] at hact
    split at hact
    · rename_i v values hvalues
      split_ifs at hact with hkind
      obtain ⟨rfl, rfl⟩ := Prod.mk.inj (Option.some.inj hact)
      have hi : Represents e (s i) ⟨v :: values, (w i).written⟩ := by
        rw [← hvalues]
        exact h i
      obtain ⟨b', hread, hb'⟩ := hi.read behind
      rw [hkind] at hread
      refine ⟨_, ?_, represents_update h hb'⟩
      simp only [act, hread]
    · rename_i hvalues
      split_ifs at hact with hk
      obtain ⟨rfl, rfl⟩ := Prod.mk.inj (Option.some.inj hact)
      have hunread := (h i).unread
      rw [hvalues] at hunread
      have hread := read_empty behind (h i).valid hunread hk
      refine ⟨s, ?_, h⟩
      simp only [act, hread, Function.update_eq_self]
  | write i v =>
    simp only [ValueQueue.act] at hact
    split_ifs at hact with hv
    obtain ⟨rfl, rfl⟩ := Prod.mk.inj (Option.some.inj hact)
    obtain ⟨b', hwrite, hb'⟩ := (h i).write behind hv.1 hv.2
    refine ⟨_, ?_, represents_update h hb'⟩
    simp only [act, hwrite, Option.map_some]
  | readFromByteArray i other bytesLen =>
    simp only [ValueQueue.act] at hact
    split_ifs at hact with hpos
    obtain ⟨w'', hmove, heq⟩ := Option.map_eq_some_iff.1 hact
    obtain ⟨rfl, rfl⟩ := Prod.mk.inj heq
    obtain ⟨s', hread, hs'⟩ := readFromByteArray_spec h hmove fun hzero => by omega
    rw [Int.toNat_of_nonneg hpos.le] at hread
    exact ⟨s', by simp only [act, hread, Option.map_some], hs'⟩
  | plus i other =>
    obtain ⟨w'', hmove, heq⟩ := Option.map_eq_some_iff.1 hact
    obtain ⟨rfl, rfl⟩ := Prod.mk.inj heq
    obtain ⟨s', hplus, hs'⟩ := plus_spec h hmove
    exact ⟨s', by simp only [act, hplus, Option.map_some], hs'⟩
  | assign i other =>
    simp only [ValueQueue.act] at hact
    simp only [act, assign]
    split_ifs at hact ⊢ with hsame
    · obtain ⟨rfl, rfl⟩ := Prod.mk.inj (Option.some.inj hact)
      exact ⟨s, rfl, h⟩
    · obtain ⟨w'', hmove, heq⟩ := Option.map_eq_some_iff.1 hact
      obtain ⟨rfl, rfl⟩ := Prod.mk.inj heq
      have hclear := represents_update (i := i) h (represents_clear (h i).wire)
      have hother : w other = Function.update w i {} other := by
        rw [Function.update_of_ne (Ne.symm hsame)]
      rw [hother] at hmove
      obtain ⟨s', hplus, hs'⟩ := plus_spec hclear hmove
      exact ⟨s', by rw [ByteStore.clear, hplus, Option.map_some], hs'⟩
  | clear i =>
    obtain ⟨rfl, rfl⟩ := Prod.mk.inj (Option.some.inj hact)
    exact ⟨s.clear i, rfl, represents_update h (represents_clear (h i).wire)⟩

/-- Whatever the arrays are, and whatever a client asks them next, it gets what it gets from the
queues, and what it leaves in them is what it leaves in the queues. -/
theorem clients_agree {ρ : Type} (e : Endian) (behind : AnyByteArray.Behind)
    (hfresh : ∀ i, (s i).wire = e ∧ (s i).clear = s i) (c : ByteClient ι ρ) {r : ρ}
    (hrun : c.run ValueQueue.act (fun _ => {}) = some (r, w)) :
    ∃ s', c.run (act behind) s = some (r, s') ∧
      ∀ i, (s' i).unread = (w i).values.flatMap (Value.encode e) := by
  have hstart : ∀ i, Represents e (s i) {} := fun i => by
    rw [← (hfresh i).2]
    exact represents_clear (hfresh i).1
  obtain ⟨s', hrun', h⟩ := Client.run_of_agrees (agrees e behind) c hstart hrun
  exact ⟨s', hrun', fun i => (h i).unread⟩

/-- Two values through a second array, which is asked for the next only if the first is 5. -/
def fetch (i j : Bool) : ByteClient Bool (Option Value) := do
  .write i (.uint16 5)
  .write i (.string [7])
  .readFromByteArray j i 5
  if (← .read j .uint16) = some (.uint16 5) then .read j .string else pure none

def oneOfEach : ByteStore Bool
  | false => .queue {}
  | true => .static .fwLittleEndian {}

theorem clients_agree_fetch : ∃ s', (fetch false true).run (act fun _ => []) oneOfEach =
    some (some (.string [7]), s') ∧ (s' true).unread = [] := by
  have hfresh : ∀ i, (oneOfEach i).wire = .fwLittleEndian ∧ (oneOfEach i).clear = oneOfEach i := by
    rintro (_ | _) <;> exact ⟨rfl, rfl⟩
  obtain ⟨s', hrun, hleft⟩ := clients_agree .fwLittleEndian (fun _ => []) hfresh (fetch false true)
    rfl
  exact ⟨s', hrun, hleft true⟩

end Stores

end ByteStore

end Elegance
