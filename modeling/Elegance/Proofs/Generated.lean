import Elegance.Generated
import Elegance.Proofs.QueueByteArray

/-!
# Reading objects back

`Serialize` appends the encodings of the members (`runWrite_eq`). What `Unserialize` makes of them
depends on the object it writes over: an array is added to the one that is there, and the items of
an array are all read into one object. So it reads exactly the bytes of the value, and gives it back
if and only if that object is blank and the value settled (`reads_back`).
-/

namespace Elegance

open CInt

namespace Data

mutual

/-- The bytes of a value: an array stands behind its length. -/
def encode (e : Endian) : Data → List Byte
  | .prim v => v.encode e
  | .indeterminate => []
  | .array items => e.digits 2 items.length ++ encodeAll e items
  | .object _ attrs => encodeAll e attrs

def encodeAll (e : Endian) : List Data → List Byte
  | [] => []
  | d :: ds => d.encode e ++ encodeAll e ds

end

mutual

/-- How deep objects lie inside each other. -/
def depth : Data → ℕ
  | .prim _ => 0
  | .indeterminate => 0
  | .array items => depthAll items
  | .object _ attrs => depthAll attrs + 1

def depthAll : List Data → ℕ
  | [] => 0
  | d :: ds => max d.depth (depthAll ds)

end

theorem depth_le : ∀ {ds : List Data} {d : Data}, d ∈ ds → d.depth ≤ depthAll ds
  | _ :: ds, d, h => by
    rw [depthAll]
    rcases List.mem_cons.1 h with rfl | h
    · exact le_max_left _ _
    · exact (depth_le h).trans (le_max_right _ _)

end Data

/-- The lines about a variable of the type. -/
def writeCode : RealType → WriteCode
  | .scalar s => .write s
  | .vector T => .array (writeCode T)
  | .named _ => .callSerialize

def readCode : RealType → ReadCode
  | .scalar s => .read s
  | .vector T => .array T (readCode T)
  | .named _ => .callUnserialize

/-- A member that is no object itself. -/
def Member.Plain (m : Member) : Prop :=
  m = ⟨m.type, writeCode m.type, readCode m.type⟩ ∧ ∀ name, m.type ≠ .named name

/-- Every class has plain members only. -/
def Plain (declared : List GeneratedClass) : Prop :=
  ∀ g ∈ declared, ∀ m ∈ g.members, m.Plain

section Create

theorem createMember_plain {a : Attr} (h : a.Supported) :
    ∃ m, CppCreator.createMember a = some m ∧ m.Plain := by
  cases h with
  | scalar s subtype =>
    refine ⟨⟨.scalar s, .write s, .read s⟩, ?_, rfl, by simp⟩
    cases subtype <;> rfl
  | scalars s => exact ⟨_, rfl, rfl, by simp⟩
  | objects name => exact ⟨_, rfl, rfl, by simp⟩

theorem createMembers_plain : ∀ {attrs : List Attr}, (∀ a ∈ attrs, a.Supported) →
    ∃ members, CppCreator.createMembers attrs = some members ∧ ∀ m ∈ members, m.Plain
  | [], _ => ⟨[], rfl, by simp⟩
  | a :: attrs, h => by
    obtain ⟨m, hm, hplain⟩ := createMember_plain (h a List.mem_cons_self)
    obtain ⟨members, hms, hall⟩ :=
      createMembers_plain fun b hb => h b (List.mem_cons_of_mem a hb)
    refine ⟨m :: members, ?_, ?_⟩
    · rw [CppCreator.createMembers, hm, hms]
      rfl
    · intro b hb
      rcases List.mem_cons.1 hb with rfl | hb
      · exact hplain
      · exact hall b hb

/-- The tool accepts a file with supported attributes, and all its classes are plain. -/
theorem doCreate_plain : ∀ {declared : List GeneratedClass} {protocols : List ProtocolClass},
    Plain declared → (∀ p ∈ protocols, ∀ a ∈ p.attrs, a.Supported) →
      ∃ classes, CppCreator.doCreate declared protocols = some classes ∧ Plain classes
  | declared, [], hd, _ => ⟨declared, rfl, hd⟩
  | declared, p :: protocols, hd, h => by
    obtain ⟨members, hms, hall⟩ := createMembers_plain (h p List.mem_cons_self)
    have hd' : Plain (⟨p.name, members⟩ :: declared) := by
      intro g hg
      rcases List.mem_cons.1 hg with rfl | hg
      · exact hall
      · exact hd g hg
    obtain ⟨classes, hcs, hplain⟩ :=
      doCreate_plain hd' fun b hb => h b (List.mem_cons_of_mem p hb)
    refine ⟨classes, ?_, hplain⟩
    rw [CppCreator.doCreate, hms]
    exact hcs

end Create

variable {declared : List GeneratedClass} {behind : Behind}

variable (declared) in
/-- A value whose objects are of plain classes. -/
inductive PlainFits : RealType → Data → Prop
  | scalar {s : Scalar} {v : Value} : v.kind = s.kind →
      (∀ str, v = .string str → str.length ≤ ushrtMax) → PlainFits (.scalar s) (.prim v)
  | vector {T : RealType} {items : List Data} : items.length ≤ ushrtMax →
      (∀ d ∈ items, PlainFits T d) → PlainFits (.vector T) (.array items)
  | object {name : ClassName} {g : GeneratedClass} {attrs : List Data} :
      findClass declared name = some g → (∀ m ∈ g.members, m.Plain) →
      attrs.length = g.members.length → (∀ m ∈ g.members.zip attrs, PlainFits m.1.type m.2) →
      PlainFits (.named name) (.object name attrs)

theorem mem_of_findClass {name : ClassName} {g : GeneratedClass}
    (h : findClass declared name = some g) : g ∈ declared :=
  List.mem_of_find?_eq_some h

theorem Fits.plain (hplain : Plain declared) {T : RealType} {d : Data} (h : Fits declared T d) :
    PlainFits declared T d := by
  induction h with
  | scalar hkind hstr => exact .scalar hkind hstr
  | vector hlen _ ih => exact .vector hlen ih
  | object hfind hlen _ ih => exact .object hfind (hplain _ (mem_of_findClass hfind)) hlen ih

section Origin

theorem createMembers_mem : ∀ {attrs : List Attr} {members : List Member},
    CppCreator.createMembers attrs = some members →
      ∀ m ∈ members, ∃ a ∈ attrs, CppCreator.createMember a = some m
  | [], members, h, m, hm => by
    rw [← Option.some_inj.1 h] at hm
    cases hm
  | a :: attrs, members, h, m, hm => by
    rw [CppCreator.createMembers, Option.bind_eq_bind, Option.bind_eq_some_iff] at h
    obtain ⟨m₀, hm₀, h⟩ := h
    rw [Option.bind_eq_bind, Option.bind_eq_some_iff] at h
    obtain ⟨rest, hrest, h⟩ := h
    rw [← Option.some_inj.1 h] at hm
    rcases List.mem_cons.1 hm with rfl | hm
    · exact ⟨a, List.mem_cons_self, hm₀⟩
    · obtain ⟨b, hb, hmb⟩ := createMembers_mem hrest m hm
      exact ⟨b, List.mem_cons_of_mem a hb, hmb⟩

theorem doCreate_mem : ∀ {declared : List GeneratedClass} {protocols : List ProtocolClass}
    {classes : List GeneratedClass}, CppCreator.doCreate declared protocols = some classes →
      ∀ g ∈ classes, g ∈ declared ∨
        ∃ p ∈ protocols, p.name = g.name ∧ CppCreator.createMembers p.attrs = some g.members
  | declared, [], classes, h, g, hg => by
    rw [← Option.some_inj.1 h] at hg
    exact .inl hg
  | declared, p :: protocols, classes, h, g, hg => by
    rw [CppCreator.doCreate, Option.bind_eq_bind, Option.bind_eq_some_iff] at h
    obtain ⟨members, hmembers, h⟩ := h
    rcases doCreate_mem h g hg with hmem | ⟨p', hp', hclass⟩
    · rcases List.mem_cons.1 hmem with rfl | hmem
      · exact .inr ⟨p, List.mem_cons_self, rfl, hmembers⟩
      · exact .inl hmem
    · exact .inr ⟨p', List.mem_cons_of_mem p hp', hclass⟩

/-- A class comes from a protocol of its name. -/
theorem findClass_protocol {protocols : List ProtocolClass}
    (hcreate : CppCreator.doCreate [] protocols = some declared) {name : ClassName}
    {g : GeneratedClass} (hfind : findClass declared name = some g) :
    ∃ p ∈ protocols, p.name = name ∧
      ∀ m ∈ g.members, ∃ a ∈ p.attrs, CppCreator.createMember a = some m := by
  have hname : g.name = name := by simpa using List.find?_some hfind
  rcases doCreate_mem hcreate g (mem_of_findClass hfind) with hmem | ⟨p, hp, hpname, hmembers⟩
  · cases hmem
  · exact ⟨p, hp, hpname.trans hname, createMembers_mem hmembers⟩

theorem createMember_scalar {s : Scalar} {subtype : Option TypeName} {m : Member}
    (h : CppCreator.createMember ⟨.scalar s, subtype⟩ = some m) :
    m.Plain ∧ m.type = .scalar s := by
  have hm : m = ⟨.scalar s, .write s, .read s⟩ := by
    cases subtype <;> exact (Option.some_inj.1 h).symm
  subst hm
  exact ⟨⟨rfl, by simp⟩, rfl⟩

end Origin

section Serialize

theorem encodeAll_eq_flatMap (e : Endian) : ∀ items,
    Data.encodeAll e items = items.flatMap (Data.encode e)
  | [] => rfl
  | d :: items => by rw [Data.encodeAll, encodeAll_eq_flatMap e items, List.flatMap_cons]

/-- The loop appends what each item does. -/
theorem runWrites_append {e : Endian} {code : WriteCode} (bytes : Data → List Byte) :
    ∀ {items : List Data},
      (∀ d ∈ items, ∀ bs, runWrite behind declared ⟨e, bs⟩ code d = ⟨e, bs ++ bytes d⟩) →
        ∀ bs, runWrites behind declared ⟨e, bs⟩ code items = ⟨e, bs ++ items.flatMap bytes⟩
  | [], _, bs => by simp [runWrites]
  | d :: items, h, bs => by
    rw [runWrites, h d List.mem_cons_self,
      runWrites_append bytes (fun b hb => h b (List.mem_cons_of_mem d hb)), List.flatMap_cons,
      List.append_assoc]

theorem writeMembers_eq {e : Endian} : ∀ {members : List Member} {attrs : List Data},
    attrs.length = members.length → (∀ m ∈ members, m.Plain) →
      (∀ m ∈ members.zip attrs, ∀ bs,
        runWrite behind declared ⟨e, bs⟩ (writeCode m.1.type) m.2 = ⟨e, bs ++ m.2.encode e⟩) →
      ∀ bs, writeMembers behind declared ⟨e, bs⟩ (members.map Member.serialize) attrs =
        ⟨e, bs ++ Data.encodeAll e attrs⟩
  | [], [], _, _, _, bs => by simp [writeMembers, Data.encodeAll]
  | m :: members, d :: attrs, hlen, hplain, h, bs => by
    have hcode : m.serialize = writeCode m.type :=
      congrArg Member.serialize (hplain m List.mem_cons_self).1
    rw [List.map_cons, writeMembers, hcode, h (m, d) List.mem_cons_self,
      writeMembers_eq (Nat.succ_inj.1 hlen) (fun b hb => hplain b (List.mem_cons_of_mem m hb))
        (fun b hb => h b (List.mem_cons_of_mem _ hb)), Data.encodeAll, List.append_assoc]

/-- The lines for a type append the encoding of a value of it. -/
theorem runWrite_eq {e : Endian} {T : RealType} {d : Data} (h : PlainFits declared T d) :
    ∀ bs, runWrite behind declared ⟨e, bs⟩ (writeCode T) d = ⟨e, bs ++ d.encode e⟩ := by
  induction h with
  | scalar hkind hstr =>
    intro bs
    rw [writeCode, runWrite, QueueByteArray.write_eq _ _ hstr]
    rfl
  | @vector T items hlen hitems ih =>
    intro bs
    rw [writeCode, runWrite, QueueByteArray.writeUint16_eq, toNat_ofNat_length hlen,
      runWrites_append (Data.encode e) ih, Data.encode, encodeAll_eq_flatMap, List.append_assoc]
  | @object name g attrs hfind hplain hlen hattrs ih =>
    intro bs
    rw [writeCode, runWrite, hfind]
    exact writeMembers_eq hlen hplain ih bs

theorem serialize_eq {e : Endian} {name : ClassName} {d : Data}
    (h : PlainFits declared (.named name) d) (bs : List Byte) :
    serialize behind declared ⟨e, bs⟩ d = ⟨e, bs ++ d.encode e⟩ := by
  unfold serialize
  exact runWrite_eq h bs

end Serialize

section Unserialize

theorem blank_array {items : List Data} : Blank (.array items) ↔ items = [] := by
  constructor
  · intro h
    cases h
    rfl
  · rintro rfl
    exact .array

theorem blank_object {name : ClassName} {attrs : List Data} :
    Blank (.object name attrs) ↔ ∀ d ∈ attrs, Blank d := by
  constructor
  · intro h
    cases h
    assumption
  · exact .object

theorem settled_array {items : List Data} :
    Settled (.array items) ↔ (∀ d ∈ items, Settled d) ∧ ∀ d ∈ items.dropLast, Blank d := by
  constructor
  · intro h
    cases h
    exact ⟨‹_›, ‹_›⟩
  · rintro ⟨h, h'⟩
    exact .array h h'

theorem settled_object {name : ClassName} {attrs : List Data} :
    Settled (.object name attrs) ↔ ∀ d ∈ attrs, Settled d := by
  constructor
  · intro h
    cases h
    assumption
  · exact .object

variable (declared) in
/-- What a variable of the type may hold before it is read. -/
inductive Shape : RealType → Data → Prop
  | prim (s : Scalar) (v : Value) : Shape (.scalar s) (.prim v)
  | indeterminate (s : Scalar) : Shape (.scalar s) .indeterminate
  | vector (T : RealType) (items : List Data) : Shape (.vector T) (.array items)
  | object {name : ClassName} {g : GeneratedClass} {attrs : List Data} :
      findClass declared name = some g → attrs.length = g.members.length →
      (∀ m ∈ g.members.zip attrs, Shape m.1.type m.2) → Shape (.named name) (.object name attrs)

section Construct

theorem construct_eq {name : ClassName} {g : GeneratedClass} :
    ∀ {declared : List GeneratedClass}, findClass declared name = some g →
      ∃ object, construct declared name =
        .object name (g.members.map fun m => initial object m.type)
  | c :: declared, h => by
    rw [findClass, List.find?_cons] at h
    rw [construct]
    by_cases hc : c.name = name
    · rw [decide_eq_true hc] at h
      rw [if_pos hc, Option.some_inj.1 h]
      exact ⟨_, rfl⟩
    · rw [decide_eq_false hc] at h
      rw [if_neg hc]
      exact construct_eq h

theorem mem_zip_map {α β : Type*} {f : α → β} {m : α × β} : ∀ {ms : List α},
    m ∈ ms.zip (ms.map f) → m.1 ∈ ms ∧ m.2 = f m.1
  | a :: ms, h => by
    rw [List.map_cons, List.zip_cons_cons] at h
    rcases List.mem_cons.1 h with rfl | h
    · exact ⟨List.mem_cons_self, rfl⟩
    · exact ⟨List.mem_cons_of_mem a (mem_zip_map h).1, (mem_zip_map h).2⟩

theorem initial_plain (object : ClassName → Data) {T : RealType} (hT : ∀ name, T ≠ .named name) :
    Shape declared T (initial object T) ∧ Blank (initial object T) := by
  cases T with
  | scalar s =>
    cases s with
    | string => exact ⟨.prim _ _, .prim _⟩
    | _ => exact ⟨.indeterminate _, .indeterminate⟩
  | vector T => exact ⟨.vector T [], .array⟩
  | named name => exact absurd rfl (hT name)

/-- A new object has the shape of its class, and is blank. -/
theorem construct_blank {name : ClassName} {g : GeneratedClass}
    (h : findClass declared name = some g) (hplain : ∀ m ∈ g.members, m.Plain) :
    Shape declared (.named name) (construct declared name) ∧ Blank (construct declared name) := by
  obtain ⟨object, hobject⟩ := construct_eq h
  have hinitial : ∀ m ∈ g.members,
      Shape declared m.type (initial object m.type) ∧ Blank (initial object m.type) :=
    fun m hm => initial_plain object (hplain m hm).2
  rw [hobject]
  constructor
  · refine .object h (by simp) ?_
    intro m hm
    obtain ⟨hmem, hinit⟩ := mem_zip_map hm
    rw [hinit]
    exact (hinitial m.1 hmem).1
  · refine .object ?_
    intro d hd
    obtain ⟨m, hm, rfl⟩ := List.mem_map.1 hd
    exact (hinitial m hm).2

/-- So is every variable of the type of a value. -/
theorem initial_blank {T : RealType} {d : Data} (h : PlainFits declared T d) :
    Shape declared T (initial (construct declared) T) ∧ Blank (initial (construct declared) T) := by
  cases h with
  | scalar _ _ => exact initial_plain _ (by simp)
  | vector _ _ => exact initial_plain _ (by simp)
  | object hfind hplain _ _ => exact construct_blank hfind hplain

end Construct

variable (behind declared) in
/-- The read for the type takes the bytes of the value; what it makes of the prior value of the
variable has the right shape, and is the value if and only if that was blank and this is settled. -/
def ReadsBack (e : Endian) (T : RealType) (d : Data) : Prop :=
  ∀ prior rest, Shape declared T prior →
    ∃ r, (∀ fuel ≥ d.depth,
        runRead behind declared (unserialize behind declared fuel) (readCode T) prior
          ⟨e, d.encode e ++ rest⟩ = some (r, ⟨e, rest⟩)) ∧
      Shape declared T r ∧ (r = d ↔ Blank prior ∧ Settled d)

theorem forall_mem_dropLast_cons {α : Type*} {p : α → Prop} {a : α} {as : List α} :
    (∀ x ∈ (a :: as).dropLast, p x) ↔ (as ≠ [] → p a) ∧ ∀ x ∈ as.dropLast, p x := by
  rcases as with _ | ⟨b, as⟩
  · simp
  · rw [List.dropLast_cons_cons, List.forall_mem_cons]
    simp

theorem readItems_back {e : Endian} {T : RealType} :
    ∀ {items : List Data} (tmp : Data) (attr : List Data) (rest : List Byte),
      (∀ d ∈ items, ReadsBack declared behind e T d) → (items ≠ [] → Shape declared T tmp) →
      ∃ rs, (∀ fuel ≥ Data.depthAll items,
          readItems (runRead behind declared (unserialize behind declared fuel) (readCode T))
            items.length tmp attr ⟨e, Data.encodeAll e items ++ rest⟩ =
              some (attr ++ rs, ⟨e, rest⟩)) ∧
        rs.length = items.length ∧
        (rs = items ↔ (items ≠ [] → Blank tmp) ∧ (∀ d ∈ items, Settled d) ∧
          ∀ d ∈ items.dropLast, Blank d)
  | [], tmp, attr, rest, _, _ => by
    refine ⟨[], fun fuel _ => ?_, rfl, by simp⟩
    rw [List.append_nil]
    rfl
  | d :: items, tmp, attr, rest, h, hshape => by
    obtain ⟨r, hr, hrshape, hreq⟩ := h d List.mem_cons_self tmp (Data.encodeAll e items ++ rest)
      (hshape (List.cons_ne_nil d items))
    obtain ⟨rs, hrs, hlen, hrseq⟩ := readItems_back r (attr ++ [r]) rest
      (fun b hb => h b (List.mem_cons_of_mem d hb)) (fun _ => hrshape)
    refine ⟨r :: rs, fun fuel hfuel => ?_, congrArg (· + 1) hlen, ?_⟩
    · rw [ge_iff_le, Data.depthAll, max_le_iff] at hfuel
      rw [List.length_cons, readItems, Data.encodeAll, List.append_assoc, hr fuel hfuel.1]
      have hrest := hrs fuel hfuel.2
      rw [List.append_assoc, List.singleton_append] at hrest
      exact hrest
    · rw [List.cons.injEq, List.forall_mem_cons, forall_mem_dropLast_cons]
      constructor
      · rintro ⟨rfl, rfl⟩
        obtain ⟨htmp, hd⟩ := hreq.1 rfl
        obtain ⟨hblank, hset, hlast⟩ := hrseq.1 rfl
        exact ⟨fun _ => htmp, ⟨hd, hset⟩, hblank, hlast⟩
      · rintro ⟨htmp, ⟨hd, hset⟩, hblank, hlast⟩
        obtain rfl := hreq.2 ⟨htmp (List.cons_ne_nil d items), hd⟩
        exact ⟨rfl, hrseq.2 ⟨hblank, hset, hlast⟩⟩

theorem readMembers_back {e : Endian} :
    ∀ {members : List Member} {attrs priors : List Data} (rest : List Byte),
      attrs.length = members.length → priors.length = members.length → (∀ m ∈ members, m.Plain) →
      (∀ m ∈ members.zip attrs, ReadsBack declared behind e m.1.type m.2) →
      (∀ m ∈ members.zip priors, Shape declared m.1.type m.2) →
      ∃ rs, (∀ fuel ≥ Data.depthAll attrs,
          readMembers (runRead behind declared (unserialize behind declared fuel))
            (members.map Member.unserialize) priors ⟨e, Data.encodeAll e attrs ++ rest⟩ =
              some (rs, ⟨e, rest⟩)) ∧
        rs.length = members.length ∧ (∀ m ∈ members.zip rs, Shape declared m.1.type m.2) ∧
        (rs = attrs ↔ (∀ d ∈ priors, Blank d) ∧ ∀ d ∈ attrs, Settled d)
  | [], [], [], rest, _, _, _, _, _ => by
    refine ⟨[], fun fuel _ => rfl, rfl, by simp, by simp⟩
  | m :: members, d :: attrs, prior :: priors, rest, hattrs, hpriors, hplain, h, hshape => by
    obtain ⟨r, hr, hrshape, hreq⟩ := h (m, d) List.mem_cons_self prior
      (Data.encodeAll e attrs ++ rest) (hshape (m, prior) List.mem_cons_self)
    obtain ⟨rs, hrs, hlen, hrsshape, hrseq⟩ := readMembers_back rest (Nat.succ_inj.1 hattrs)
      (Nat.succ_inj.1 hpriors) (fun b hb => hplain b (List.mem_cons_of_mem m hb))
      (fun b hb => h b (List.mem_cons_of_mem _ hb))
      (fun b hb => hshape b (List.mem_cons_of_mem _ hb))
    have hcode : m.unserialize = readCode m.type :=
      congrArg Member.unserialize (hplain m List.mem_cons_self).1
    refine ⟨r :: rs, fun fuel hfuel => ?_, congrArg (· + 1) hlen, ?_, ?_⟩
    · rw [ge_iff_le, Data.depthAll, max_le_iff] at hfuel
      rw [List.map_cons, readMembers, Data.encodeAll, List.append_assoc, hcode, hr fuel hfuel.1]
      dsimp only [Option.bind_eq_bind, Option.bind_some]
      rw [hrs fuel hfuel.2]
      rfl
    · intro b hb
      rw [List.zip_cons_cons] at hb
      rcases List.mem_cons.1 hb with rfl | hb
      · exact hrshape
      · exact hrsshape b hb
    · rw [List.cons.injEq, hreq, hrseq, List.forall_mem_cons, List.forall_mem_cons]
      tauto

/-- A value of a type is read over any variable of the type. -/
theorem reads_back {e : Endian} {T : RealType} {d : Data} (h : PlainFits declared T d) :
    ReadsBack declared behind e T d := by
  induction h with
  | @scalar s v hkind hstr =>
    intro prior rest hshape
    have hobject : ∀ o, v = .object o → 1 ≤ o.length := by
      rintro o rfl
      cases s <;> cases hkind
    refine ⟨.prim v, fun fuel _ => ?_, .prim s v, ?_⟩
    · rw [readCode, runRead, Data.encode, ← hkind, QueueByteArray.read_encode e rest _ hstr hobject]
      rfl
    · have hblank : Blank prior := by
        cases hshape
        · exact .prim _
        · exact .indeterminate
      exact ⟨fun _ => ⟨hblank, .prim v⟩, fun _ => rfl⟩
  | @vector T items hlen hitems ih =>
    intro prior rest hshape
    cases hshape with
    | vector _ attr =>
      have hsize := toNat_ofNat_length hlen
      have hinit : items ≠ [] → Shape declared T (initial (construct declared) T) ∧
          Blank (initial (construct declared) T) := by
        intro hne
        obtain ⟨d, hd⟩ := List.exists_mem_of_ne_nil items hne
        exact initial_blank (hitems d hd)
      obtain ⟨rs, hrs, hrslen, hrseq⟩ := readItems_back (initial (construct declared) T) attr rest ih
        (fun hne => (hinit hne).1)
      refine ⟨.array (attr ++ rs), fun fuel hfuel => ?_, .vector T _, ?_⟩
      · have hread := QueueByteArray.readUint16_digits e (Data.encodeAll e items ++ rest)
          (UInt16.ofNat items.length)
        rw [hsize] at hread
        rw [readCode, runRead, Data.encode, List.append_assoc, hread]
        dsimp only [Data.items]
        rw [hsize, hrs fuel hfuel]
        rfl
      · rw [Data.array.injEq, blank_array, settled_array]
        constructor
        · intro heq
          have hattr : attr = [] := by
            have hlength := congrArg List.length heq
            rw [List.length_append] at hlength
            exact List.length_eq_zero_iff.1 (by omega)
          subst hattr
          exact ⟨rfl, (hrseq.1 heq).2⟩
        · rintro ⟨rfl, hset, hlast⟩
          exact hrseq.2 ⟨fun hne => (hinit hne).2, hset, hlast⟩
  | @object name g attrs hfind hplain hlen hattrs ih =>
    intro prior rest hshape
    cases hshape with
    | @object _ g' priors hfind' hpriors hshapes =>
      obtain rfl : g = g' := Option.some_inj.1 (hfind ▸ hfind')
      obtain ⟨rs, hrs, hrslen, hrsshape, hrseq⟩ := readMembers_back rest hlen hpriors hplain ih hshapes
      refine ⟨.object name rs, fun fuel hfuel => ?_, .object hfind hrslen hrsshape, ?_⟩
      · rw [ge_iff_le, Data.depth] at hfuel
        obtain ⟨fuel, rfl⟩ := Nat.exists_eq_add_of_le' (Nat.one_le_of_lt hfuel)
        rw [readCode, runRead, unserialize, hfind, Data.encode]
        dsimp only
        rw [hrs fuel (by omega)]
        rfl
      · rw [Data.object.injEq, hrseq, blank_object, settled_object]
        simp

end Unserialize

/-- On a new object, reading the bytes of a value returns a settled value only. -/
theorem unserialize_returns (behind : Behind) {name : ClassName} {d : Data}
    (h : PlainFits declared (.named name) d) (e : Endian) (rest : List Byte) :
    ∃ r, (∀ fuel ≥ d.depth, unserialize behind declared fuel (construct declared name)
        ⟨e, d.encode e ++ rest⟩ = some (r, ⟨e, rest⟩)) ∧ (r = d ↔ Settled d) := by
  obtain ⟨hshape, hblank⟩ : Shape declared (.named name) (construct declared name) ∧
      Blank (construct declared name) := initial_blank h
  obtain ⟨r, hr, -, hreq⟩ : ∃ r, _ ∧ _ ∧ _ := reads_back h _ rest hshape
  exact ⟨r, hr, by rw [hreq, and_iff_right hblank]⟩

/-- Every value of a class is read back from the bytes it was written to, and just these are taken,
but what was read is the value if and only if this is settled. -/
theorem generated_round_trip {protocols : List ProtocolClass}
    (h : ∀ p ∈ protocols, ∀ a ∈ p.attrs, a.Supported) :
    ∃ classes, CppCreator.doCreate [] protocols = some classes ∧
      ∀ name d, Fits classes (.named name) d → ∀ behind e rest,
        (∃ r, Returns (roundTrip behind classes name e d rest) (r, ⟨e, rest⟩)) ∧
          (Returns (roundTrip behind classes name e d rest) (d, ⟨e, rest⟩) ↔ Settled d) := by
  have hnone : Plain [] := by simp [Plain]
  obtain ⟨classes, hclasses, hplain⟩ := doCreate_plain hnone h
  refine ⟨classes, hclasses, fun name d hd behind e rest => ?_⟩
  have hd' := hd.plain hplain
  obtain ⟨r, hr, hreq⟩ := unserialize_returns behind hd' e rest
  have hrun : ∀ fuel, roundTrip behind classes name e d rest fuel =
      unserialize behind classes fuel (construct classes name) ⟨e, d.encode e ++ rest⟩ := by
    intro fuel
    rw [roundTrip, serialize_eq hd', List.nil_append]
  simp only [Returns, hrun]
  refine ⟨⟨r, d.depth, hr⟩, ?_⟩
  rw [← hreq]
  constructor
  · rintro ⟨n, hn⟩
    have heq := hr (max n d.depth) (le_max_right _ _)
    rw [hn _ (le_max_left _ _)] at heq
    exact (Prod.ext_iff.1 (Option.some_inj.1 heq)).1.symm
  · rintro rfl
    exact ⟨_, hr⟩

/-- A class with an array, and one with an array of its objects. -/
def boxes : List ProtocolClass :=
  [⟨[98], [⟨.array, some (.scalar .int8)⟩]⟩, ⟨[99], [⟨.array, some (.other [98])⟩]⟩]

def boxClasses : List GeneratedClass :=
  [⟨[99], [⟨.vector (.named [98]), .array .callSerialize, .array (.named [98]) .callUnserialize⟩]⟩,
    ⟨[98], [⟨.vector (.scalar .int8), .array (.write .int8), .array (.scalar .int8) (.read .int8)⟩]⟩]

def box (contents : List Int8) : Data :=
  .object [98] [.array (contents.map fun v => .prim (.int8 v))]

def shelf (contents : List (List Int8)) : Data := .object [99] [.array (contents.map box)]

theorem fits_box {contents : List Int8} (h : contents.length ≤ ushrtMax) :
    Fits boxClasses (.named [98]) (box contents) := by
  refine .object rfl rfl ?_
  intro m hm
  rw [List.mem_singleton.1 hm]
  refine .vector (by rwa [List.length_map]) ?_
  intro d hd
  obtain ⟨v, -, rfl⟩ := List.mem_map.1 hd
  exact .scalar rfl (by simp)

theorem fits_shelf {contents : List (List Int8)} (h : contents.length ≤ ushrtMax)
    (hbox : ∀ c ∈ contents, c.length ≤ ushrtMax) :
    Fits boxClasses (.named [99]) (shelf contents) := by
  refine .object rfl rfl ?_
  intro m hm
  rw [List.mem_singleton.1 hm]
  refine .vector (by rwa [List.length_map]) ?_
  intro d hd
  obtain ⟨c, hc, rfl⟩ := List.mem_map.1 hd
  exact fits_box (hbox c hc)

/-- An empty box behind another comes back with what is in that. -/
theorem generated_round_trip_shelf :
    CppCreator.doCreate [] boxes = some boxClasses ∧
      Fits boxClasses (.named [99]) (shelf [[1], []]) ∧
      ¬ Returns (roundTrip (fun _ => []) boxClasses [99] .fwLittleEndian (shelf [[1], []]) [])
        (shelf [[1], []], ⟨.fwLittleEndian, []⟩) := by
  refine ⟨rfl, fits_shelf (by decide) (by decide), ?_⟩
  rintro ⟨n, h⟩
  have hreads : roundTrip (fun _ => []) boxClasses [99] .fwLittleEndian (shelf [[1], []]) []
      (n + 2) = some (shelf [[1], [1]], ⟨.fwLittleEndian, []⟩) := rfl
  rw [h (n + 2) (by omega)] at hreads
  simp [shelf, box] at hreads

theorem generated_round_trip_boxes :
    ∃ classes, CppCreator.doCreate [] boxes = some classes ∧
      Returns (roundTrip (fun _ => []) classes [98] .fwBigEndian (box [1, -1]) [7])
        (box [1, -1], ⟨.fwBigEndian, [7]⟩) := by
  have hboxes : ∀ p ∈ boxes, ∀ a ∈ p.attrs, a.Supported := by
    simp [boxes, Attr.Supported.scalars, Attr.Supported.objects]
  obtain ⟨classes, hclasses, h⟩ := generated_round_trip hboxes
  obtain rfl : boxClasses = classes := Option.some_inj.1 hclasses
  have hsettled : Settled (box [1, -1]) := by
    simp [box, settled_object, settled_array, Settled.prim, Blank.prim]
  exact ⟨boxClasses, hclasses,
    (h [98] _ (fits_box (by decide)) (fun _ => []) .fwBigEndian [7]).2.2 hsettled⟩

end Elegance
