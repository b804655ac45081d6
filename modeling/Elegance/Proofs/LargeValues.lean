import Elegance.LargeValues
import Elegance.Proofs.Overwrites
import Elegance.Proofs.ShortReads

/-!
# Values with strings and arrays of any length

A string that is too long is not written, and the length of an array is cut to 16 bits, but all its
items are written. Reading follows what was written as long as as many items are announced as were
written; where it does not, the next read looks at the wrong bytes, unless there are none to look at
(`in_step_iff`).
-/

namespace Elegance

open CInt CppCreator

variable {declared : List GeneratedClass} {behind : Behind} {e : Endian}

section Write

/-- The bytes an item is written as. -/
def itemBytes (e : Endian) : Data → List Byte
  | .prim v => if Data.overLong (.prim v) then [] else v.encode e
  | _ => []

/-- The bytes an attribute is written as. -/
def attrBytes (e : Endian) : Data → List Byte
  | .array items => e.digits 2 (items.length % 65536) ++ items.flatMap (itemBytes e)
  | d => itemBytes e d

theorem not_overLong {v : Value} (h : ¬ Data.overLong (.prim v)) :
    ∀ s, v = .string s → s.length ≤ ushrtMax := by
  rintro s rfl
  simpa [Data.overLong] using h

theorem write_itemBytes (q : QueueByteArray) (behind : List Byte) (v : Value) :
    q.write behind v = { q with bytesQueue := q.bytesQueue ++ itemBytes q.endian (.prim v) } := by
  rw [itemBytes]
  by_cases hlong : Data.overLong (.prim v)
  · rw [if_pos hlong, List.append_nil]
    cases v with
    | string s =>
      have hs : ushrtMax < s.length := by simpa [Data.overLong] using hlong
      rw [QueueByteArray.write, QueueByteArray.writeString, if_pos hs]
    | _ => simp [Data.overLong] at hlong
  · rw [if_neg hlong, QueueByteArray.write_eq q behind (not_overLong hlong)]

theorem runWrite_any (behind : Behind) {m : Member} {d : Data} (hm : m.Basic)
    (hd : AnyLength m.type d) (bs : List Byte) :
    runWrite behind declared ⟨e, bs⟩ m.serialize d = ⟨e, bs ++ attrBytes e d⟩ := by
  cases hm with
  | scalar s =>
    cases hd with
    | scalar _ => exact write_itemBytes ⟨e, bs⟩ _ _
  | vector s =>
    cases hd with
    | @vector _ vs hvs =>
      have hitems : ∀ b ∈ vs.map Data.prim, ∀ bs, runWrite behind declared ⟨e, bs⟩ (.write s) b =
          ⟨e, bs ++ itemBytes e b⟩ := by
        simp only [List.forall_mem_map]
        exact fun v _ bs => write_itemBytes ⟨e, bs⟩ _ v
      rw [runWrite, QueueByteArray.writeUint16_eq, runWrites_append (itemBytes e) hitems, attrBytes,
        UInt16.toNat_ofNat', List.append_assoc]

/-- What is written is the bytes of the attributes, one after another. -/
theorem writeMembers_any (behind : Behind) : ∀ {members : List Member} {ds : List Data}
    (bs : List Byte), ds.length = members.length → (∀ m ∈ members, m.Basic) →
      (∀ m ∈ members.zip ds, AnyLength m.1.type m.2) →
        chunks behind declared ⟨e, bs⟩ (members.map Member.serialize) ds = ds.map (attrBytes e) ∧
          writeMembers behind declared ⟨e, bs⟩ (members.map Member.serialize) ds =
            ⟨e, bs ++ (ds.map (attrBytes e)).flatten⟩
  | [], [], bs, _, _, _ => by simp [chunks, writeMembers]
  | m :: members, d :: ds, bs, hlen, hbasic, hd => by
    obtain ⟨hchunks, hwrite⟩ := writeMembers_any behind (bs ++ attrBytes e d) (Nat.succ_inj.1 hlen)
      (fun b hb => hbasic b (List.mem_cons_of_mem m hb))
      (fun b hb => hd b (List.mem_cons_of_mem _ hb))
    have hfirst : runWrite behind declared ⟨e, bs⟩ m.serialize d = ⟨e, bs ++ attrBytes e d⟩ :=
      runWrite_any behind (hbasic m List.mem_cons_self) (hd (m, d) List.mem_cons_self) bs
    rw [List.map_cons, List.map_cons, chunks, writeMembers, hfirst, List.flatten_cons,
      ← List.append_assoc]
    refine ⟨?_, hwrite⟩
    dsimp only
    rw [hchunks, List.drop_left]

end Write

section Read

variable {s : Scalar} {rest : List Byte}

theorem readsOn_add (s : Scalar) : ∀ (n k : ℕ) (q : QueueByteArray),
    readsOn s (n + k) q = readsOn s k (readsOn s n q)
  | 0, k, q => by rw [Nat.zero_add, readsOn]
  | n + 1, k, q => by
    rw [Nat.add_right_comm, readsOn, readsOn, readsOn_add s n k]

theorem itemAccesses_add (s : Scalar) : ∀ (n k : ℕ) (q : QueueByteArray),
    itemAccesses s (n + k) q = itemAccesses s n q ++ itemAccesses s k (readsOn s n q)
  | 0, k, q => by rw [Nat.zero_add, itemAccesses, readsOn, List.nil_append]
  | n + 1, k, q => by
    rw [Nat.add_right_comm, itemAccesses, itemAccesses, readsOn, itemAccesses_add s n k,
      List.cons_append]

/-- A value that was written is read, and just its bytes are looked at. -/
theorem read_written (rest : List Byte) {v : Value} (hv : v.kind = s.kind)
    (hlong : ¬ Data.overLong (.prim v)) :
    (QueueByteArray.mk e (v.encode e ++ rest)).looks s =
        ⟨(v.encode e).length + rest.length, (v.encode e).length⟩ ∧
      ((QueueByteArray.mk e (v.encode e ++ rest)).read [] s.kind).2 = ⟨e, rest⟩ := by
  have hstr := not_overLong hlong
  have hobject : ∀ o, v = .object o → 1 ≤ o.length := by
    rintro o rfl
    cases s <;> cases hv
  have hread := QueueByteArray.read_encode e rest [] hstr hobject
  rw [hv] at hread
  refine ⟨?_, by rw [hread]⟩
  rw [← List.length_append]
  cases s with
  | string =>
    obtain ⟨str, rfl⟩ : ∃ str, v = .string str := by
      cases v <;> simp [Value.kind, Scalar.kind] at hv
      exact ⟨_, rfl⟩
    have hvalue := congrArg Prod.fst hread
    have hlen : ((Value.string str).encode e).length = 2 + str.length := by
      rw [Value.encode, List.length_append, length_digits]
    simp only [QueueByteArray.read, Scalar.kind, Prod.map_fst, Function.comp_apply,
      Option.some.injEq, Value.string.injEq] at hvalue
    rw [QueueByteArray.looks, hvalue, List.length_append, hlen, if_neg (by omega)]
  | _ =>
    have hwidth := AnyByteArray.length_encode_of_width (e := e) (v := v) (by rw [hv]; rfl)
    rw [QueueByteArray.looks]
    · simp only [Scalar.kind, Kind.width, Option.getD_some, List.length_append, hwidth]
      simp
    · simp

/-- As many items are read as are there, or fewer: only their bytes are looked at. -/
theorem reads_written (rest : List Byte) : ∀ {ws : List Value} {n : ℕ},
    (∀ v ∈ ws, v.kind = s.kind) → (∀ v ∈ ws, ¬ Data.overLong (.prim v)) → n ≤ ws.length →
      readsOn s n ⟨e, ws.flatMap (Value.encode e) ++ rest⟩ =
          ⟨e, (ws.drop n).flatMap (Value.encode e) ++ rest⟩ ∧
        ∀ a ∈ itemAccesses s n ⟨e, ws.flatMap (Value.encode e) ++ rest⟩,
          a.Within (ws.flatMap (Value.encode e)).length rest.length
  | ws, 0, _, _, _ => by simp [readsOn, itemAccesses]
  | v :: ws, n + 1, hkind, hlong, hn => by
    obtain ⟨hafter, hwithin⟩ := reads_written rest
      (fun w hw => hkind w (List.mem_cons_of_mem v hw))
      (fun w hw => hlong w (List.mem_cons_of_mem v hw)) (Nat.succ_le_succ_iff.1 hn)
    obtain ⟨hlooks, hread⟩ := read_written (e := e)
      (ws.flatMap (Value.encode e) ++ rest) (hkind v List.mem_cons_self)
      (hlong v List.mem_cons_self)
    simp only [List.flatMap_cons, List.append_assoc, readsOn, itemAccesses, hread, hlooks,
      List.drop_succ_cons, List.forall_mem_cons]
    refine ⟨hafter, .inr ?_, fun a ha => ?_⟩
    · simp only [List.length_append]
      omega
    · rcases hwithin a ha with hnone | ⟨hle, hlater⟩
      · exact .inl hnone
      · refine .inr ⟨?_, hlater⟩
        rw [List.length_append]
        omega

/-- No length of a string is there to be looked at. -/
theorem reads_short (hrest : rest.length < 2) : ∀ n : ℕ,
    readsOn .string n ⟨e, rest⟩ = ⟨e, rest⟩ ∧
      ∀ a ∈ itemAccesses .string n ⟨e, rest⟩, a.size = 0
  | 0 => by simp [readsOn, itemAccesses]
  | n + 1 => by
    obtain ⟨hafter, hnone⟩ := reads_short hrest n
    have hread : ((QueueByteArray.mk e rest).read [] Scalar.string.kind).2 = ⟨e, rest⟩ :=
      congrArg Prod.snd (AnyByteArray.queue_readString_short (e := e) (.inl hrest))
    simp only [readsOn, itemAccesses, hread, List.forall_mem_cons]
    refine ⟨hafter, ?_, hnone⟩
    rw [QueueByteArray.looks, if_pos hrest]

/-- Where two bytes are left, any read looks at some. -/
theorem looks_some (s : Scalar) {q : QueueByteArray} (hq : 2 ≤ q.bytesQueue.length) :
    (q.looks s).remaining = q.bytesQueue.length ∧ 0 < (q.looks s).size := by
  cases s with
  | string =>
    refine ⟨rfl, ?_⟩
    rw [QueueByteArray.looks, if_neg (not_lt.2 hq)]
    dsimp only
    omega
  | _ =>
    refine ⟨rfl, ?_⟩
    simp only [QueueByteArray.looks, Scalar.kind, Kind.width, Option.getD_some]
    omega

theorem first_access {m : Member} (hm : m.Basic) {q : QueueByteArray}
    (hq : 2 ≤ q.bytesQueue.length) :
    ∃ a ∈ m.unserialize.accesses q, a.remaining = q.bytesQueue.length ∧ 0 < a.size := by
  cases hm with
  | scalar s => exact ⟨_, List.mem_singleton_self _, looks_some s hq⟩
  | vector s => exact ⟨_, List.mem_cons_self, looks_some .uint16 hq⟩

theorem not_within (own later : ℕ) {a : Access} (hsize : 0 < a.size)
    (hremaining : own + later < a.remaining ∨ a.remaining ≤ later) : ¬ a.Within own later := by
  rintro (hnone | ⟨hle, hlater⟩) <;> omega

end Read

section Attribute

/-- The values that are written. -/
def accepted (vs : List Value) : List Value := vs.filter fun v => !Data.overLong (.prim v)

theorem accepted_kind {s : Scalar} {vs : List Value} (hvs : ∀ v ∈ vs, v.kind = s.kind) :
    ∀ v ∈ accepted vs, v.kind = s.kind :=
  fun v hv => hvs v (List.mem_of_mem_filter hv)

theorem accepted_short {vs : List Value} : ∀ v ∈ accepted vs, ¬ Data.overLong (.prim v) := by
  intro v hv
  simpa using List.of_mem_filter hv

theorem flatMap_itemBytes : ∀ vs : List Value,
    (vs.map Data.prim).flatMap (itemBytes e) = (accepted vs).flatMap (Value.encode e)
  | [] => rfl
  | v :: vs => by
    rw [List.map_cons, List.flatMap_cons, flatMap_itemBytes vs, itemBytes]
    by_cases hlong : Data.overLong (.prim v)
    · simp [hlong, accepted]
    · simp [hlong, accepted]

theorem written_array (vs : List Value) :
    (Data.array (vs.map .prim)).written = (accepted vs).length := by
  rw [Data.written, List.countP_map, List.countP_eq_length_filter]
  rfl

/-- Only strings are not written, and two bytes at least are where one is. -/
theorem accepted_number {s : Scalar} (hs : s ≠ .string) {vs : List Value}
    (hvs : ∀ v ∈ vs, v.kind = s.kind) : accepted vs = vs := by
  refine List.filter_eq_self.2 fun v hv => ?_
  have hkind := hvs v hv
  cases v with
  | string str =>
    cases s <;> simp_all [Value.kind, Scalar.kind]
  | _ => rfl

theorem length_encode_pos {s : Scalar} {v : Value} (hv : v.kind = s.kind) :
    1 ≤ (v.encode e).length := by
  cases v <;> simp only [Value.encode, length_digits, List.length_append] <;> try omega
  cases s <;> cases hv

theorem length_le_flatMap (e : Endian) {s : Scalar} : ∀ (vs : List Value),
    (∀ v ∈ vs, v.kind = s.kind) → vs.length ≤ (vs.flatMap (Value.encode e)).length
  | [], _ => le_refl 0
  | v :: vs, h => by
    have hfirst := length_encode_pos (e := e) (h v List.mem_cons_self)
    have hrest := length_le_flatMap e vs fun w hw => h w (List.mem_cons_of_mem v hw)
    rw [List.flatMap_cons, List.length_append, List.length_cons]
    omega

variable {s : Scalar} {rest : List Byte}

/-- The length of an array is read from its own bytes. -/
theorem read_length (n : ℕ) (rest : List Byte) :
    (QueueByteArray.mk e (e.digits 2 (n % 65536) ++ rest)).readUint16.1.toNat = n % 65536 ∧
      (QueueByteArray.mk e (e.digits 2 (n % 65536) ++ rest)).readUint16.2 = ⟨e, rest⟩ ∧
      (QueueByteArray.mk e (e.digits 2 (n % 65536) ++ rest)).looks .uint16 =
        ⟨2 + rest.length, 2⟩ := by
  have hsize : (UInt16.ofNat n).toNat = n % 65536 := UInt16.toNat_ofNat'
  have hread := QueueByteArray.readUint16_digits e rest (UInt16.ofNat n)
  rw [hsize] at hread
  refine ⟨by rw [hread, hsize], by rw [hread], ?_⟩
  simp [QueueByteArray.looks, Scalar.kind, Kind.width, length_digits]

/-- An array with no more items announced than there are. -/
theorem array_enough (rest : List Byte) {vs : List Value} (hvs : ∀ v ∈ vs, v.kind = s.kind)
    (h : vs.length % 65536 ≤ (accepted vs).length) :
    (∀ a ∈ (ReadCode.array (.scalar s) (.read s)).accesses
        ⟨e, attrBytes e (.array (vs.map .prim)) ++ rest⟩,
          a.Within (attrBytes e (.array (vs.map .prim))).length rest.length) ∧
      (ReadCode.array (.scalar s) (.read s)).after
          ⟨e, attrBytes e (.array (vs.map .prim)) ++ rest⟩ =
        ⟨e, ((accepted vs).drop (vs.length % 65536)).flatMap (Value.encode e) ++ rest⟩ := by
  obtain ⟨hsize, hqueue, hlooks⟩ := read_length (e := e) vs.length
    ((accepted vs).flatMap (Value.encode e) ++ rest)
  obtain ⟨hafter, hwithin⟩ := reads_written (e := e) rest (accepted_kind hvs)
    accepted_short h
  simp only [attrBytes, List.length_map, flatMap_itemBytes, List.append_assoc, ReadCode.accesses,
    ReadCode.after, hsize, hqueue, hlooks, List.forall_mem_cons, List.length_append, length_digits]
  refine ⟨⟨.inr ?_, fun a ha => ?_⟩, hafter⟩
  · dsimp only
    omega
  · rcases hwithin a ha with hnone | ⟨hle, hlater⟩
    · exact .inl hnone
    · exact .inr ⟨by omega, hlater⟩

/-- More items are announced than there are, only where some are strings that were not written. -/
theorem array_strings {vs : List Value} (hvs : ∀ v ∈ vs, v.kind = s.kind)
    (h : (accepted vs).length < vs.length % 65536) : s = .string := by
  by_contra hs
  rw [accepted_number hs hvs] at h
  have := Nat.mod_le vs.length 65536
  omega

/-- The items behind those that are there are read from what follows. -/
theorem array_beyond (rest : List Byte) {vs : List Value} (hvs : ∀ v ∈ vs, v.kind = .string)
    (h : (accepted vs).length < vs.length % 65536) :
    ∃ front n, (ReadCode.array (.scalar .string) (.read .string)).accesses
          ⟨e, attrBytes e (.array (vs.map .prim)) ++ rest⟩ =
        front ++ itemAccesses .string (n + 1) ⟨e, rest⟩ ∧
      (∀ a ∈ front, a.Within (attrBytes e (.array (vs.map .prim))).length rest.length) ∧
      (ReadCode.array (.scalar .string) (.read .string)).after
          ⟨e, attrBytes e (.array (vs.map .prim)) ++ rest⟩ =
        readsOn .string (n + 1) ⟨e, rest⟩ := by
  obtain ⟨hsize, hqueue, hlooks⟩ := read_length (e := e) vs.length
    ((accepted vs).flatMap (Value.encode e) ++ rest)
  obtain ⟨hafter, hwithin⟩ := reads_written (s := .string) (e := e) rest
    (accepted_kind hvs) accepted_short (le_refl (accepted vs).length)
  obtain ⟨n, hn⟩ := Nat.exists_eq_add_of_lt h
  rw [List.drop_length, List.flatMap_nil, List.nil_append] at hafter
  simp only [attrBytes, List.length_map, flatMap_itemBytes, List.append_assoc, ReadCode.accesses,
    ReadCode.after, hsize, hqueue, hlooks, List.length_append, length_digits]
  rw [hn, Nat.add_assoc, itemAccesses_add, readsOn_add, hafter]
  refine ⟨_ :: _, n, rfl, ?_, rfl⟩
  rw [List.forall_mem_cons]
  refine ⟨.inr ?_, fun a ha => ?_⟩
  · dsimp only
    omega
  · rcases hwithin a ha with hnone | ⟨hle, hlater⟩
    · exact .inl hnone
    · exact .inr ⟨by omega, hlater⟩

/-- Two bytes at least are left of an array of which some items are not read. -/
theorem array_left {vs : List Value} (hvs : ∀ v ∈ vs, v.kind = s.kind)
    (h : vs.length % 65536 < (accepted vs).length) :
    2 ≤ (((accepted vs).drop (vs.length % 65536)).flatMap (Value.encode e)).length := by
  by_cases hs : s = .string
  · subst hs
    have hkind := accepted_kind hvs
    rcases hdrop : (accepted vs).drop (vs.length % 65536) with _ | ⟨v, ws⟩
    · have := List.drop_eq_nil_iff.1 hdrop
      omega
    · have hmem : v ∈ accepted vs := List.mem_of_mem_drop (hdrop ▸ List.mem_cons_self)
      obtain ⟨str, rfl⟩ : ∃ str, v = .string str := by
        have hv := hkind v hmem
        cases v <;> simp [Value.kind, Scalar.kind] at hv
        exact ⟨_, rfl⟩
      rw [List.flatMap_cons, List.length_append, Value.encode, List.length_append, length_digits]
      omega
  · rw [accepted_number hs hvs] at h ⊢
    have hlen := length_le_flatMap e (vs.drop (vs.length % 65536))
      fun v hv => hvs v (List.mem_of_mem_drop hv)
    rw [List.length_drop] at hlen
    omega

end Attribute

section Attributes

variable {m : Member} {d : Data} {rest : List Byte}

theorem announced_array (vs : List Value) :
    (Data.array (vs.map .prim)).announced = vs.length % 65536 := by
  rw [Data.announced, List.length_map]

/-- A value that is not written, but read, is a string. -/
theorem scalar_skipped {s : Scalar} {v : Value} (hv : v.kind = s.kind)
    (h : (Data.prim v).written < (Data.prim v).announced) :
    attrBytes e (.prim v) = [] ∧ s = .string := by
  have hlong : Data.overLong (.prim v) := by
    by_contra hlong
    simp [Data.announced, Data.written, hlong] at h
  constructor
  · simp [attrBytes, itemBytes, hlong]
  · cases v with
    | string str => cases s <;> simp_all [Value.kind, Scalar.kind]
    | _ => simp [Data.overLong] at hlong

/-- As many items are read as were written. -/
theorem attr_equal (rest : List Byte) (hm : m.Basic) (hd : AnyLength m.type d)
    (h : d.announced = d.written) :
    (∀ a ∈ m.unserialize.accesses ⟨e, attrBytes e d ++ rest⟩,
        a.Within (attrBytes e d).length rest.length) ∧
      m.unserialize.after ⟨e, attrBytes e d ++ rest⟩ = ⟨e, rest⟩ := by
  cases hm with
  | scalar s =>
    cases hd with
    | @scalar _ v hv =>
      have hlong : ¬ Data.overLong (.prim v) := by
        intro hlong
        simp [Data.announced, Data.written, hlong] at h
      obtain ⟨hlooks, hread⟩ := read_written (e := e) rest hv hlong
      rw [attrBytes, itemBytes, if_neg hlong]
      · refine ⟨?_, hread⟩
        simp only [ReadCode.accesses, List.mem_singleton, forall_eq, hlooks]
        exact .inr ⟨le_refl _, by dsimp only; omega⟩
      · simp
  | vector s =>
    cases hd with
    | @vector _ vs hvs =>
      rw [announced_array, written_array] at h
      obtain ⟨hwithin, hafter⟩ := array_enough (e := e) rest hvs h.le
      refine ⟨hwithin, hafter.trans ?_⟩
      rw [h, List.drop_length]
      rfl

/-- Fewer are read, and at least two bytes of the others stay. -/
theorem attr_fewer (rest : List Byte) (hm : m.Basic) (hd : AnyLength m.type d)
    (h : d.announced < d.written) :
    (∀ a ∈ m.unserialize.accesses ⟨e, attrBytes e d ++ rest⟩,
        a.Within (attrBytes e d).length rest.length) ∧
      ∃ left, 2 ≤ left.length ∧
        m.unserialize.after ⟨e, attrBytes e d ++ rest⟩ = ⟨e, left ++ rest⟩ := by
  cases hm with
  | scalar s =>
    cases hd with
    | @scalar _ v hv =>
      simp only [Data.announced, Data.written] at h
      split_ifs at h
      · omega
      · omega
  | vector s =>
    cases hd with
    | @vector _ vs hvs =>
      rw [announced_array, written_array] at h
      obtain ⟨hwithin, hafter⟩ := array_enough (e := e) rest hvs h.le
      refine ⟨hwithin, _, ?_, hafter⟩
      exact array_left hvs h

/-- More are read, where not even the length of a string follows. -/
theorem attr_more_short (hm : m.Basic) (hd : AnyLength m.type d) (h : d.written < d.announced)
    (hrest : rest.length < 2) :
    (∀ a ∈ m.unserialize.accesses ⟨e, attrBytes e d ++ rest⟩,
        a.Within (attrBytes e d).length rest.length) ∧
      m.unserialize.after ⟨e, attrBytes e d ++ rest⟩ = ⟨e, rest⟩ := by
  cases hm with
  | scalar s =>
    cases hd with
    | @scalar _ v hv =>
      obtain ⟨hnothing, rfl⟩ := scalar_skipped (e := e) hv h
      obtain ⟨hafter, hnone⟩ := reads_short (e := e) hrest 1
      rw [hnothing]
      exact ⟨fun a ha => .inl (hnone a ha), hafter⟩
  | vector s =>
    cases hd with
    | @vector _ vs hvs =>
      rw [announced_array, written_array] at h
      obtain rfl := array_strings hvs h
      obtain ⟨front, n, haccesses, hfront, hafter⟩ := array_beyond (e := e) rest hvs h
      obtain ⟨hkept, hnone⟩ := reads_short (e := e) hrest (n + 1)
      refine ⟨fun a ha => ?_, hafter.trans hkept⟩
      rw [haccesses] at ha
      rcases List.mem_append.1 ha with ha | ha
      · exact hfront a ha
      · exact .inl (hnone a ha)

/-- Otherwise what follows is looked at. -/
theorem attr_more (hm : m.Basic) (hd : AnyLength m.type d) (h : d.written < d.announced)
    (hrest : 2 ≤ rest.length) :
    ∃ a ∈ m.unserialize.accesses ⟨e, attrBytes e d ++ rest⟩,
      ¬ a.Within (attrBytes e d).length rest.length := by
  have hlooks := looks_some .string (q := ⟨e, rest⟩) hrest
  have hnot := fun own => not_within own rest.length hlooks.2 (.inr hlooks.1.le)
  cases hm with
  | scalar s =>
    cases hd with
    | @scalar _ v hv =>
      obtain ⟨hnothing, rfl⟩ := scalar_skipped (e := e) hv h
      refine ⟨_, List.mem_singleton_self _, ?_⟩
      rw [hnothing]
      exact hnot _
  | vector s =>
    cases hd with
    | @vector _ vs hvs =>
      rw [announced_array, written_array] at h
      obtain rfl := array_strings hvs h
      obtain ⟨front, n, haccesses, -, -⟩ := array_beyond (e := e) rest hvs h
      rw [haccesses]
      exact ⟨_, List.mem_append_right _ List.mem_cons_self, hnot _⟩

end Attributes

section Sizes

/-- An attribute takes no byte, one, or more. -/
theorem length_attrBytes {T : RealType} {d : Data} (hd : AnyLength T d) :
    (d.overLong ∧ ¬ d.oneByte ∧ (attrBytes e d).length = 0) ∨
      (¬ d.overLong ∧ d.oneByte ∧ (attrBytes e d).length = 1) ∨
        (¬ d.overLong ∧ ¬ d.oneByte ∧ 2 ≤ (attrBytes e d).length) := by
  cases hd with
  | @scalar s v hv =>
    by_cases hlong : Data.overLong (.prim v)
    · refine .inl ⟨hlong, ?_, by simp [attrBytes, itemBytes, hlong]⟩
      cases v <;> simp_all [Data.overLong, Data.oneByte]
    · have hbytes : attrBytes e (.prim v) = v.encode e := by simp [attrBytes, itemBytes, hlong]
      rw [hbytes]
      right
      cases v with
      | object o => cases s <;> cases hv
      | string str =>
        refine .inr ⟨hlong, by simp [Data.oneByte], ?_⟩
        rw [Value.encode, List.length_append, length_digits]
        omega
      | _ => simp [Data.overLong, Data.oneByte, Value.encode, length_digits]
  | @vector s vs hvs =>
    refine .inr (.inr ⟨by simp [Data.overLong], by simp [Data.oneByte], ?_⟩)
    rw [attrBytes, List.length_append, length_digits]
    omega

theorem all_overLong_iff : ∀ {ds : List Data}, (∀ d ∈ ds, ∃ T, AnyLength T d) →
    ((∀ d ∈ ds, d.overLong) ↔ (ds.map (attrBytes e)).flatten.length = 0)
  | [], _ => by simp
  | d :: ds, h => by
    obtain ⟨T, hd⟩ := h d List.mem_cons_self
    have hrest := all_overLong_iff fun b hb => h b (List.mem_cons_of_mem d hb)
    have hlen := length_attrBytes (e := e) hd
    rw [List.forall_mem_cons, hrest, List.map_cons, List.flatten_cons, List.length_append,
      Nat.add_eq_zero_iff]
    refine and_congr_left fun _ => ?_
    rcases hlen with ⟨hlong, -, hlen⟩ | ⟨hlong, -, hlen⟩ | ⟨hlong, -, hlen⟩
    · exact iff_of_true hlong hlen
    · exact iff_of_false hlong (by omega)
    · exact iff_of_false hlong (by omega)

theorem shorterThanLength_iff : ∀ {ds : List Data}, (∀ d ∈ ds, ∃ T, AnyLength T d) →
    (ShorterThanLength ds ↔ (ds.map (attrBytes e)).flatten.length < 2)
  | [], _ => by simp [ShorterThanLength]
  | d :: ds, h => by
    obtain ⟨T, hd⟩ := h d List.mem_cons_self
    have hlater : ∀ b ∈ ds, ∃ T, AnyLength T b := fun b hb => h b (List.mem_cons_of_mem d hb)
    have hrest := shorterThanLength_iff hlater
    have hnone := all_overLong_iff (e := e) hlater
    have hlen := length_attrBytes (e := e) hd
    rw [ShorterThanLength, hrest, hnone, List.map_cons, List.flatten_cons, List.length_append]
    rcases hlen with ⟨hlong, hone, hlen⟩ | ⟨hlong, hone, hlen⟩ | ⟨hlong, hone, hlen⟩
    · simp [hlong, hone, hlen]
    · simp [hlong, hone, hlen]
    · simp [hlong, hone]
      omega

end Sizes

section Stream

theorem attrAccesses_cons {m : Member} (hm : m.Basic) (codes : List ReadCode) (prior : Data)
    (priors : List Data) (q : QueueByteArray) :
    attrAccesses behind declared (m.unserialize :: codes) (prior :: priors) q =
      m.unserialize.accesses q ::
        attrAccesses behind declared codes priors (m.unserialize.after q) := by
  obtain ⟨make, -, hread⟩ := runRead_basic declared hm q
  rw [attrAccesses, hread]

/-- Where bytes of the attribute before are left, any attribute is read from them. -/
theorem nil_iff_ownBytes {members : List Member} {ds priors : List Data} {left : List Byte}
    (hlen : ds.length = members.length) (hlen' : priors.length = members.length)
    (hbasic : ∀ m ∈ members, m.Basic) (hleft : 2 ≤ left.length) :
    ds = [] ↔ OwnBytes (ds.map (attrBytes e)) (attrAccesses behind declared
      (members.map Member.unserialize) priors ⟨e, left ++ (ds.map (attrBytes e)).flatten⟩) := by
  rcases members with _ | ⟨m, members⟩
  · rw [List.length_eq_zero_iff.1 hlen]
    simp [OwnBytes, attrAccesses]
  obtain ⟨d, ds, rfl⟩ := List.exists_cons_of_length_eq_add_one hlen
  obtain ⟨prior, priors, rfl⟩ := List.exists_cons_of_length_eq_add_one hlen'
  obtain ⟨a, ha, hremaining, hsize⟩ := first_access (hbasic m List.mem_cons_self)
    (q := ⟨e, left ++ ((d :: ds).map (attrBytes e)).flatten⟩)
    (by rw [List.length_append]; omega)
  refine iff_of_false (List.cons_ne_nil d ds) fun h => ?_
  rw [List.map_cons, List.map_cons, attrAccesses_cons (hbasic m List.mem_cons_self)] at h
  refine not_within _ _ hsize (.inl ?_) (h.1 a ha)
  rw [hremaining, List.map_cons, List.flatten_cons, List.length_append, List.length_append]
  omega

theorem ownBytes_iff : ∀ {members : List Member} {ds priors : List Data},
    ds.length = members.length → priors.length = members.length → (∀ m ∈ members, m.Basic) →
      (∀ m ∈ members.zip ds, AnyLength m.1.type m.2) →
        (OwnBytes (ds.map (attrBytes e)) (attrAccesses behind declared
          (members.map Member.unserialize) priors ⟨e, (ds.map (attrBytes e)).flatten⟩) ↔
            Counted ds)
  | [], [], [], _, _, _, _ => by simp [OwnBytes, attrAccesses, Counted]
  | m :: members, d :: ds, prior :: priors, hlen, hlen', hbasic, hd => by
    have hm := hbasic m List.mem_cons_self
    have hfirst := hd (m, d) List.mem_cons_self
    have hds : ∀ b ∈ ds, ∃ T, AnyLength T b := by
      intro b hb
      obtain ⟨i, hi, rfl⟩ := List.getElem_of_mem hb
      have hmem := List.getElem_mem (l := members.zip ds) (n := i)
        (by rw [List.length_zip]; simp only [List.length_cons] at hlen; omega)
      rw [List.getElem_zip] at hmem
      exact ⟨_, hd _ (List.mem_cons_of_mem _ hmem)⟩
    have hshort := shorterThanLength_iff (e := e) hds
    have hall := ownBytes_iff
      (Nat.succ_inj.1 hlen) (Nat.succ_inj.1 hlen')
      (fun b hb => hbasic b (List.mem_cons_of_mem m hb))
      (fun b hb => hd b (List.mem_cons_of_mem _ hb))
    simp only [List.map_cons, List.flatten_cons, attrAccesses_cons hm, OwnBytes, Counted]
    rcases lt_trichotomy d.announced d.written with hlt | heq | hgt
    · have hleft := attr_fewer (e := e) (ds.map (attrBytes e)).flatten hm hfirst hlt
      have hlast : ds = [] ↔ OwnBytes (ds.map (attrBytes e)) (attrAccesses behind declared
          (members.map Member.unserialize) priors (m.unserialize.after
            ⟨e, attrBytes e d ++ (ds.map (attrBytes e)).flatten⟩)) := by
        obtain ⟨-, left, htwo, hafter⟩ := hleft
        rw [hafter]
        exact nil_iff_ownBytes (Nat.succ_inj.1 hlen) (Nat.succ_inj.1 hlen')
          (fun b hb => hbasic b (List.mem_cons_of_mem m hb)) htwo
      rw [← hlast]
      constructor
      · rintro ⟨-, rfl⟩
        exact ⟨.inr (.inl ⟨hlt, rfl⟩), trivial⟩
      · rintro ⟨heq | ⟨-, hnil⟩ | ⟨hgt, -⟩, -⟩
        · omega
        · exact ⟨hleft.1, hnil⟩
        · omega
    · obtain ⟨hwithin, hafter⟩ := attr_equal (e := e) (ds.map (attrBytes e)).flatten hm hfirst heq
      rw [hafter, hall]
      simp only [heq, true_or, true_and]
      exact and_iff_right hwithin
    · by_cases hrest : (ds.map (attrBytes e)).flatten.length < 2
      · obtain ⟨hwithin, hafter⟩ := attr_more_short (e := e) hm hfirst hgt hrest
        rw [hafter, hall]
        simp only [hshort.2 hrest, hgt, true_and, or_true]
        exact and_iff_right hwithin
      · obtain ⟨a, ha, hout⟩ := attr_more (e := e) hm hfirst hgt (not_lt.1 hrest)
        refine iff_of_false (fun h => hout (h.1 a ha)) ?_
        rw [hshort]
        rintro ⟨hcount, -⟩
        omega

end Stream

/-- `Unserialize` starts with the bytes of all attributes, on as many members. -/
theorem inStep_iff_ownBytes (behind : Behind) (e : Endian) {g : GeneratedClass} {ds : List Data}
    (hfind : findClass declared g.name = some g) (hbasic : ∀ m ∈ g.members, m.Basic)
    (hlen : ds.length = g.members.length) (hds : ∀ m ∈ g.members.zip ds, AnyLength m.1.type m.2) :
    ∃ priors, priors.length = g.members.length ∧
      (InStep behind declared e g (.object g.name ds) ↔
        OwnBytes (ds.map (attrBytes e)) (attrAccesses behind declared
          (g.members.map Member.unserialize) priors ⟨e, (ds.map (attrBytes e)).flatten⟩)) := by
  obtain ⟨hchunks, hwrite⟩ := writeMembers_any behind [] hlen hbasic hds
  obtain ⟨object, hobject⟩ := construct_eq hfind
  have hserialize : serialize behind declared ⟨e, []⟩ (.object g.name ds) =
      ⟨e, (ds.map (attrBytes e)).flatten⟩ := by
    rw [serialize, runWrite, hfind]
    exact hwrite
  refine ⟨g.members.map fun m => initial object m.type, by simp, ?_⟩
  rw [InStep, hobject, hserialize, Data.attrs, Data.attrs, hchunks]

/-- Each attribute is read from what was written for it exactly where as many of its items are read as
were written, or fewer and it is the last, or more and what follows is too short to be looked at. -/
theorem in_step_iff (behind : Behind) (e : Endian) {g : GeneratedClass} {attrs : List Attr}
    {ds : List Data} (hbasic : ∀ a ∈ attrs, a.Basic) (hfind : findClass declared g.name = some g)
    (hmembers : createMembers attrs = some g.members) (hlen : ds.length = g.members.length)
    (hds : ∀ m ∈ g.members.zip ds, AnyLength m.1.type m.2) :
    InStep behind declared e g (.object g.name ds) ↔ Counted ds := by
  have hall : ∀ m ∈ g.members, m.Basic := by
    intro m hm
    obtain ⟨a, ha, hcreate⟩ := createMembers_mem hmembers m hm
    exact createMember_basic (hbasic a ha) hcreate
  obtain ⟨priors, hpriors, hiff⟩ := inStep_iff_ownBytes behind e hfind hall hlen hds
  rw [hiff]
  exact ownBytes_iff hlen hpriors hall hds

/-- A class with a string and a number behind it. -/
def noteClass : GeneratedClass :=
  ⟨[110], [⟨.scalar .string, .write .string, .read .string⟩,
    ⟨.scalar .uint16, .write .uint16, .read .uint16⟩]⟩

def note (s : List Byte) : List Data := [.prim (.string s), .prim (.uint16 7)]

theorem anyLength_note (s : List Byte) :
    ∀ m ∈ noteClass.members.zip (note s), AnyLength m.1.type m.2 := by
  simp only [noteClass, note, List.zip_cons_cons, List.zip_nil_right, List.forall_mem_cons]
  exact ⟨.scalar rfl, .scalar rfl, by simp⟩

theorem not_counted_note {s : List Byte} (hs : ushrtMax < s.length) : ¬ Counted (note s) := by
  simp [Counted, ShorterThanLength, note, Data.announced, Data.written, Data.overLong, Data.oneByte,
    hs]

/-- The string is too long, and is read from the number. -/
theorem not_in_step_long :
    createMembers [⟨.scalar .string, none⟩, ⟨.scalar .uint16, none⟩] = some noteClass.members ∧
    (∀ m ∈ noteClass.members.zip (note (List.replicate 65536 0)), AnyLength m.1.type m.2) ∧
      ¬ InStep (fun _ => []) [noteClass] .fwLittleEndian noteClass
        (.object noteClass.name (note (List.replicate 65536 0))) := by
  have hds := anyLength_note (List.replicate 65536 0)
  have hbasic : ∀ m ∈ noteClass.members, m.Basic := by
    simp [noteClass, Member.Basic.scalar]
  have hfind : findClass [noteClass] noteClass.name = some noteClass := rfl
  obtain ⟨priors, hpriors, hiff⟩ := inStep_iff_ownBytes (fun _ => []) .fwLittleEndian hfind hbasic
    rfl hds
  refine ⟨rfl, hds, fun h => ?_⟩
  refine not_counted_note ?_ ((ownBytes_iff rfl hpriors hbasic hds).1 (hiff.1 h))
  rw [List.length_replicate, ushrtMax]
  norm_num

theorem in_step_short :
    InStep (fun _ => []) [noteClass] .fwLittleEndian noteClass
      (.object noteClass.name (note [1, 2, 3])) := by
  have hbasic : ∀ a ∈ [Attr.mk (.scalar .string) none, ⟨.scalar .uint16, none⟩], a.Basic := by
    simp [Attr.Basic.scalar]
  refine (in_step_iff _ _ hbasic rfl rfl rfl (anyLength_note _)).2 ?_
  · simp [Counted, note, Data.announced, Data.written, Data.overLong, ushrtMax]

end Elegance
