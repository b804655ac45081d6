import Elegance.Proofs.Generated

/-!
# What `Serialize` transmits

Code is written for the types the tool knows. A member of another type, a class among them, is
declared, but `Serialize` writes nothing for it, so `Serialize` appends the encoding of what is known
(`runWrite_known`). That encoding can be told from any other (`encode_known_inj`), so two values are
written as different bytes exactly where they differ in what is known (`transmitted_iff`).
-/

namespace Elegance

open CInt CppCreator

section Create

/-- A member is written as its type says, unless it is of a type that the tool does not know. -/
def Member.Written (m : Member) : Prop :=
  ((∀ name, m.type ≠ .named name) ∧ m.serialize = writeCode m.type) ∨
    ((∃ name, m.type = .named name) ∧ m.serialize = .nothing)

theorem createMember_written {a : Attr} {m : Member} (h : createMember a = some m) :
    m.Written := by
  obtain ⟨type, subtype⟩ := a
  cases type with
  | scalar s =>
    obtain rfl : (⟨.scalar s, .write s, .read s⟩ : Member) = m := by
      cases subtype <;> exact Option.some.inj h
    exact .inl ⟨by simp, rfl⟩
  | other name =>
    obtain rfl : (⟨.named name, .nothing, .nothing⟩ : Member) = m := by
      cases subtype <;> exact Option.some.inj h
    exact .inr ⟨⟨name, rfl⟩, rfl⟩
  | array =>
    rcases subtype with _ | s | _ | name
    · cases h
    · rw [← Option.some.inj h]
      exact .inl ⟨by simp, rfl⟩
    · cases h
    · rw [← Option.some.inj h]
      exact .inl ⟨by simp, rfl⟩

theorem written_of_findClass {protocols : List ProtocolClass} {classes : List GeneratedClass}
    (hcreate : doCreate [] protocols = some classes) {name : ClassName} {g : GeneratedClass}
    (hfind : findClass classes name = some g) : ∀ m ∈ g.members, m.Written := by
  obtain ⟨p, -, -, hmembers⟩ := findClass_protocol hcreate hfind
  intro m hm
  obtain ⟨a, -, h⟩ := hmembers m hm
  exact createMember_written h

end Create

variable {declared : List GeneratedClass} {behind : Behind} {e : Endian}

theorem Fits.valueOf {T : RealType} {d : Data} (h : Fits declared T d) : ValueOf declared T d := by
  induction h with
  | scalar hkind hstr => exact .scalar hkind hstr
  | vector hlen _ ih => exact .vector hlen ih
  | object hfind hlen _ ih => exact .object hfind hlen fun m hm _ => ih m hm

section Known

variable (declared) in
theorem knownItems_eq_map : ∀ items, knownItems declared items = items.map (Data.known declared)
  | [] => rfl
  | d :: items => by rw [knownItems, knownItems_eq_map items, List.map_cons]

theorem knownMembers_cons {T : RealType} (h : ∀ name, T ≠ .named name) (types : List RealType)
    (d : Data) (ds : List Data) :
    knownMembers declared (T :: types) (d :: ds) =
      d.known declared :: knownMembers declared types ds := by
  cases T with
  | named name => exact absurd rfl (h name)
  | _ => rw [knownMembers]; simp

theorem runWrite_nothing (q : QueueByteArray) (d : Data) :
    runWrite behind declared q .nothing d = q := by
  cases d <;> rfl

end Known

section Serialize

theorem writeMembers_known : ∀ {members : List Member} {attrs : List Data},
    attrs.length = members.length → (∀ m ∈ members, m.Written) →
      (∀ m ∈ members.zip attrs, (∀ name, m.1.type ≠ .named name) → ∀ bs,
        runWrite behind declared ⟨e, bs⟩ (writeCode m.1.type) m.2 =
          ⟨e, bs ++ (m.2.known declared).encode e⟩) →
      ∀ bs, writeMembers behind declared ⟨e, bs⟩ (members.map Member.serialize) attrs =
        ⟨e, bs ++ Data.encodeAll e (knownMembers declared (members.map Member.type) attrs)⟩
  | [], [], _, _, _, bs => by simp [writeMembers, knownMembers, Data.encodeAll]
  | m :: members, d :: attrs, hlen, hwritten, h, bs => by
    have hrest := writeMembers_known (Nat.succ_inj.1 hlen)
      (fun b hb => hwritten b (List.mem_cons_of_mem m hb))
      (fun b hb => h b (List.mem_cons_of_mem _ hb))
    rw [List.map_cons, List.map_cons, writeMembers]
    rcases hwritten m List.mem_cons_self with ⟨hknown, hcode⟩ | ⟨⟨name, htype⟩, hcode⟩
    · rw [hcode, h (m, d) List.mem_cons_self hknown, hrest, knownMembers_cons hknown,
        Data.encodeAll, List.append_assoc]
    · rw [hcode, htype, runWrite_nothing, hrest, knownMembers, Data.encodeAll, Data.encode,
        List.nil_append]

/-- `Serialize` appends the encoding of what is known of the value. -/
theorem runWrite_known (behind : Behind) (e : Endian) {protocols : List ProtocolClass}
    (hcreate : doCreate [] protocols = some declared) {T : RealType} {d : Data}
    (h : ValueOf declared T d) :
    ∀ bs, runWrite behind declared ⟨e, bs⟩ (writeCode T) d =
      ⟨e, bs ++ (d.known declared).encode e⟩ := by
  induction h with
  | scalar hkind hstr =>
    intro bs
    rw [writeCode, runWrite, QueueByteArray.write_eq _ _ hstr]
    rfl
  | @vector T items hlen hitems ih =>
    intro bs
    rw [writeCode, runWrite, QueueByteArray.writeUint16_eq, toNat_ofNat_length hlen,
      runWrites_append (fun d => (d.known declared).encode e) ih, Data.known, Data.encode,
      encodeAll_eq_flatMap, knownItems_eq_map, List.flatMap_map, List.length_map,
      List.append_assoc]
  | @object name g attrs hfind hlen hattrs ih =>
    intro bs
    rw [writeCode, runWrite, hfind, Data.known, hfind]
    exact writeMembers_known hlen (written_of_findClass hcreate hfind) ih bs

end Serialize

section Injective

theorem digits_append_inj {w n n' : ℕ} {rest rest' : List Byte} (hn : n < 256 ^ w)
    (hn' : n' < 256 ^ w) (h : e.digits w n ++ rest = e.digits w n' ++ rest') :
    n = n' ∧ rest = rest' := by
  obtain ⟨hdigits, hrest⟩ := List.append_inj h (by rw [length_digits, length_digits])
  have hnumber := congrArg e.number hdigits
  rw [number_digits, number_digits, Nat.mod_eq_of_lt hn, Nat.mod_eq_of_lt hn'] at hnumber
  exact ⟨hnumber, hrest⟩

/-- A value of a scalar type is read back, so its encoding is that of no other. -/
theorem encode_append_inj {v v' : Value} {s : Scalar} {rest rest' : List Byte}
    (hkind : v.kind = s.kind) (hkind' : v'.kind = s.kind)
    (hstr : ∀ str, v = .string str → str.length ≤ ushrtMax)
    (hstr' : ∀ str, v' = .string str → str.length ≤ ushrtMax)
    (h : v.encode e ++ rest = v'.encode e ++ rest') : v = v' ∧ rest = rest' := by
  have hobject : ∀ v : Value, v.kind = s.kind → ∀ o, v = .object o → 1 ≤ o.length := by
    rintro v hv o rfl
    cases s <;> cases hv
  have hread := QueueByteArray.read_encode e rest [] hstr (hobject v hkind)
  have hread' := QueueByteArray.read_encode e rest' [] hstr' (hobject v' hkind')
  rw [hkind, h] at hread
  rw [hkind'] at hread'
  have heq := hread.symm.trans hread'
  simpa using heq

variable (declared e) in
/-- Whatever follows, what is known of the value can be told from its encoding, and where it ends. -/
def TellsApart (T : RealType) (d : Data) : Prop :=
  ∀ d' rest rest', ValueOf declared T d' →
    (d.known declared).encode e ++ rest = (d'.known declared).encode e ++ rest' →
      d.known declared = d'.known declared ∧ rest = rest'

theorem items_tell_apart {T : RealType} : ∀ {items items' : List Data} {rest rest' : List Byte},
    items.length = items'.length → (∀ d ∈ items, TellsApart declared e T d) →
      (∀ d ∈ items', ValueOf declared T d) →
        Data.encodeAll e (items.map (Data.known declared)) ++ rest =
            Data.encodeAll e (items'.map (Data.known declared)) ++ rest' →
          items.map (Data.known declared) = items'.map (Data.known declared) ∧ rest = rest'
  | [], [], rest, rest', _, _, _, h => ⟨rfl, h⟩
  | d :: items, d' :: items', rest, rest', hlen, hd, hd', h => by
    simp only [List.map_cons, Data.encodeAll, List.append_assoc] at h
    obtain ⟨hfirst, h⟩ := hd d List.mem_cons_self d' _ _ (hd' d' List.mem_cons_self) h
    obtain ⟨hrest, hend⟩ := items_tell_apart (Nat.succ_inj.1 hlen)
      (fun b hb => hd b (List.mem_cons_of_mem d hb))
      (fun b hb => hd' b (List.mem_cons_of_mem d' hb)) h
    exact ⟨by rw [List.map_cons, List.map_cons, hfirst, hrest], hend⟩

theorem members_tell_apart : ∀ {members : List Member} {attrs attrs' : List Data}
    (rest rest' : List Byte), attrs.length = members.length → attrs'.length = members.length →
      (∀ m ∈ members.zip attrs, (∀ name, m.1.type ≠ .named name) →
        TellsApart declared e m.1.type m.2) →
      (∀ m ∈ members.zip attrs', (∀ name, m.1.type ≠ .named name) →
        ValueOf declared m.1.type m.2) →
      Data.encodeAll e (knownMembers declared (members.map Member.type) attrs) ++ rest =
          Data.encodeAll e (knownMembers declared (members.map Member.type) attrs') ++ rest' →
        knownMembers declared (members.map Member.type) attrs =
            knownMembers declared (members.map Member.type) attrs' ∧ rest = rest'
  | [], [], [], rest, rest', _, _, _, _, h => ⟨rfl, h⟩
  | m :: members, d :: attrs, d' :: attrs', rest, rest', hlen, hlen', hd, hd', h => by
    rw [List.map_cons] at h ⊢
    have hall := fun rest rest' => members_tell_apart rest rest'
      (Nat.succ_inj.1 hlen) (Nat.succ_inj.1 hlen') (fun b hb => hd b (List.mem_cons_of_mem _ hb))
      (fun b hb => hd' b (List.mem_cons_of_mem _ hb))
    by_cases hknown : ∀ name, m.type ≠ .named name
    · simp only [knownMembers_cons hknown, Data.encodeAll, List.append_assoc] at h ⊢
      obtain ⟨hfirst, h⟩ := hd (m, d) List.mem_cons_self hknown d' _ _
        (hd' (m, d') List.mem_cons_self hknown) h
      obtain ⟨hrest, hend⟩ := hall _ _ h
      exact ⟨by rw [hfirst, hrest], hend⟩
    · obtain ⟨name, htype⟩ : ∃ name, m.type = .named name := by
        by_contra hother
        exact hknown fun name htype => hother ⟨name, htype⟩
      simp only [htype, knownMembers, Data.encodeAll, Data.encode, List.nil_append] at h ⊢
      obtain ⟨hrest, hend⟩ := hall _ _ h
      exact ⟨by rw [hrest], hend⟩

theorem encode_known_inj {T : RealType} {d : Data} (h : ValueOf declared T d) :
    TellsApart declared e T d := by
  induction h with
  | @scalar s v hkind hstr =>
    intro d' rest rest' hd' heq
    cases hd' with
    | scalar hkind' hstr' =>
      obtain ⟨rfl, hrest⟩ := encode_append_inj hkind hkind' hstr hstr' heq
      exact ⟨rfl, hrest⟩
  | @vector T items hlen hitems ih =>
    intro d' rest rest' hd' heq
    cases hd' with
    | @vector _ items' hlen' hitems' =>
      rw [ushrtMax] at hlen hlen'
      simp only [Data.known, Data.encode, knownItems_eq_map, List.length_map,
        List.append_assoc] at heq ⊢
      obtain ⟨hcount, heq⟩ := digits_append_inj (by omega) (by omega) heq
      obtain ⟨hall, hrest⟩ := items_tell_apart hcount ih hitems' heq
      exact ⟨by rw [hall], hrest⟩
  | @object name g attrs hfind hlen hattrs ih =>
    intro d' rest rest' hd' heq
    cases hd' with
    | @object _ g' attrs' hfind' hlen' hattrs' =>
      obtain rfl : g = g' := Option.some.inj (hfind.symm.trans hfind')
      simp only [Data.known, hfind, Data.encode] at heq ⊢
      obtain ⟨hall, hrest⟩ := members_tell_apart _ _ hlen hlen' ih hattrs' heq
      exact ⟨by rw [hall], hrest⟩

end Injective

/-- Two values are written as different bytes exactly where they differ in what the tool knows of
them. -/
theorem transmitted_iff {protocols : List ProtocolClass} {classes : List GeneratedClass}
    (hcreate : doCreate [] protocols = some classes) {name : ClassName} {d d' : Data}
    (hd : ValueOf classes (.named name) d) (hd' : ValueOf classes (.named name) d')
    (behind : Behind) (q : QueueByteArray) :
    (serialize behind classes q d).bytesQueue ≠ (serialize behind classes q d').bytesQueue ↔
      d.known classes ≠ d'.known classes := by
  obtain ⟨e, bs⟩ := q
  have hwrite := runWrite_known behind e hcreate hd bs
  have hwrite' := runWrite_known behind e hcreate hd' bs
  rw [writeCode] at hwrite hwrite'
  rw [serialize, serialize, hwrite, hwrite']
  refine not_congr ⟨fun h => ?_, fun h => by rw [h]⟩
  have hbytes := List.append_cancel_left h
  have happend : (d.known classes).encode e ++ [] = (d'.known classes).encode e ++ [] := by
    rw [hbytes]
  exact (encode_known_inj hd d' [] [] hd' happend).1

/-- A class with a number, and one with a member of the first. -/
def pockets : List ProtocolClass :=
  [⟨[98], [⟨.scalar .int8, none⟩]⟩, ⟨[99], [⟨.other [98], none⟩]⟩]

def pocketClasses : List GeneratedClass :=
  [⟨[99], [⟨.named [98], .nothing, .nothing⟩]⟩, ⟨[98], [⟨.scalar .int8, .write .int8, .read .int8⟩]⟩]

def coin (v : Int8) : Data := .object [98] [.prim (.int8 v)]

def pocket (v : Int8) : Data := .object [99] [coin v]

theorem fits_coin (v : Int8) : Fits pocketClasses (.named [98]) (coin v) := by
  refine .object rfl rfl ?_
  intro m hm
  rw [List.mem_singleton.1 hm]
  exact .scalar rfl (by simp)

theorem fits_pocket (v : Int8) : Fits pocketClasses (.named [99]) (pocket v) := by
  refine .object rfl rfl ?_
  intro m hm
  rw [List.mem_singleton.1 hm]
  exact fits_coin v

/-- What the pocket holds is not written. -/
theorem not_transmitted_pocket : doCreate [] pockets = some pocketClasses ∧
    Fits pocketClasses (.named [99]) (pocket 1) ∧ Fits pocketClasses (.named [99]) (pocket 2) ∧
    pocket 1 ≠ pocket 2 ∧
    (serialize (fun _ => []) pocketClasses ⟨.fwLittleEndian, []⟩ (pocket 1)).bytesQueue =
      (serialize (fun _ => []) pocketClasses ⟨.fwLittleEndian, []⟩ (pocket 2)).bytesQueue := by
  refine ⟨rfl, fits_pocket 1, fits_pocket 2, ?_, rfl⟩
  simp [pocket, coin]

theorem transmitted_coin :
    (serialize (fun _ => []) pocketClasses ⟨.fwBigEndian, [7]⟩ (coin 1)).bytesQueue ≠
      (serialize (fun _ => []) pocketClasses ⟨.fwBigEndian, [7]⟩ (coin 2)).bytesQueue := by
  have hcreate : doCreate [] pockets = some pocketClasses := rfl
  refine (transmitted_iff hcreate (fits_coin 1).valueOf (fits_coin 2).valueOf _ _).2 ?_
  simp [coin, Data.known, findClass, pocketClasses, knownMembers]

end Elegance
