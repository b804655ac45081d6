import Elegance.Proofs.Generated

/-!
# What `Unserialize` leaves of the object before

A number or a string is assigned, the items of an array are pushed back behind those that are there.
So two objects read from the same bytes become equal exactly where their arrays were equal before
(`overwrites_iff`).
-/

namespace Elegance

open CppCreator

/-- What lies in memory behind a number does not show. -/
theorem QueueByteArray.read_behind (q : QueueByteArray) (behind behind' : List Byte) (k : Kind) :
    q.read behind k = q.read behind' k := by
  cases k with
  | int32 => simp only [QueueByteArray.read, QueueByteArray.readInt32, ofNat_transformType]
  | _ => rfl

/-- A member that is no object, nor holds any. -/
inductive Member.Basic : Member → Prop
  | scalar (s : Scalar) : Basic ⟨.scalar s, .write s, .read s⟩
  | vector (s : Scalar) :
      Basic ⟨.vector (.scalar s), .array (.write s), .array (.scalar s) (.read s)⟩

theorem createMember_basic {a : Attr} {m : Member} (ha : a.Basic) (h : createMember a = some m) :
    m.Basic := by
  cases ha with
  | scalar s subtype =>
    rw [(createMember_scalar h).1.1, (createMember_scalar h).2]
    exact .scalar s
  | scalars s =>
    rw [← Option.some.inj h]
    exact .vector s

variable {declared : List GeneratedClass}

/-- The queue after some items of an array. -/
def readsOn (s : Scalar) : ℕ → QueueByteArray → QueueByteArray
  | 0, q => q
  | n + 1, q => readsOn s n (q.read [] s.kind).2

/-- The queue after an attribute. -/
def ReadCode.after : ReadCode → QueueByteArray → QueueByteArray
  | .read s, q => (q.read [] s.kind).2
  | .array _ (.read s), q => readsOn s q.readUint16.1.toNat q.readUint16.2
  | _, q => q

/-- The items that are read do not depend on the variables. -/
theorem readItems_scalar (declared : List GeneratedClass) (s : Scalar) :
    ∀ (n : ℕ) (q : QueueByteArray), ∃ rs, ∀ behind call tmp attr,
      readItems (runRead behind declared call (.read s)) n tmp attr q =
        some (attr ++ rs, readsOn s n q)
  | 0, q => ⟨[], fun _ _ _ attr => by rw [readItems, List.append_nil, readsOn]⟩
  | n + 1, q => by
    obtain ⟨rs, h⟩ := readItems_scalar declared s n (q.read [] s.kind).2
    refine ⟨(q.read [] s.kind).1.elim .indeterminate .prim :: rs, ?_⟩
    intro behind call tmp attr
    rw [readItems, runRead, q.read_behind (behind q) []]
    have hrest := h behind call ((q.read [] s.kind).1.elim .indeterminate .prim)
      (attr ++ [(q.read [] s.kind).1.elim .indeterminate .prim])
    rw [List.append_assoc, List.singleton_append] at hrest
    exact hrest

/-- What one attribute is made of, whatever the object is: the items of an array stay in front. -/
theorem runRead_basic (declared : List GeneratedClass) {m : Member} (h : m.Basic)
    (q : QueueByteArray) :
    ∃ make : List Data → Data,
      (∀ items items', make items = make items' ↔ (∀ s, m.type ≠ .scalar s) → items = items') ∧
        ∀ behind call prior, runRead behind declared call m.unserialize prior q =
          some (make prior.items, m.unserialize.after q) := by
  cases h with
  | scalar s =>
    refine ⟨fun _ => (q.read [] s.kind).1.elim .indeterminate .prim, ?_, ?_⟩
    · simp
    · intro behind call prior
      rw [runRead, q.read_behind (behind q) [], ReadCode.after]
  | vector s =>
    obtain ⟨rs, hrs⟩ := readItems_scalar declared s q.readUint16.1.toNat
      q.readUint16.2
    refine ⟨fun items => .array (items ++ rs), ?_, ?_⟩
    · simp
    · intro behind call prior
      rw [runRead]
      dsimp only
      rw [hrs]
      rfl

theorem shape_scalar {s : Scalar} {d : Data} (h : Shape declared (.scalar s) d) : d.items = [] := by
  cases h <;> rfl

/-- Two objects of a class become equal where their arrays are. -/
theorem readMembers_basic : ∀ {members : List Member} {priors priors' : List Data}
    (q : QueueByteArray), (∀ m ∈ members, m.Basic) → priors.length = members.length →
      priors'.length = members.length → (∀ m ∈ members.zip priors, Shape declared m.1.type m.2) →
        (∀ m ∈ members.zip priors', Shape declared m.1.type m.2) →
          ∃ rs rs' q',
            (∀ behind call, readMembers (runRead behind declared call)
              (members.map Member.unserialize) priors q = some (rs, q')) ∧
            (∀ behind call, readMembers (runRead behind declared call)
              (members.map Member.unserialize) priors' q = some (rs', q')) ∧
            (rs = rs' ↔ priors.map Data.items = priors'.map Data.items)
  | [], [], [], q, _, _, _, _, _ => ⟨[], [], q, fun _ _ => rfl, fun _ _ => rfl, by simp⟩
  | m :: members, d :: priors, d' :: priors', q, hbasic, hlen, hlen', hshape, hshape' => by
    obtain ⟨make, hmake, hread⟩ :=
      runRead_basic declared (hbasic m List.mem_cons_self) q
    obtain ⟨rs, rs', q', hrs, hrs', heq⟩ := readMembers_basic (m.unserialize.after q)
      (fun b hb => hbasic b (List.mem_cons_of_mem m hb)) (Nat.succ_inj.1 hlen)
      (Nat.succ_inj.1 hlen') (fun b hb => hshape b (List.mem_cons_of_mem _ hb))
      (fun b hb => hshape' b (List.mem_cons_of_mem _ hb))
    have hitems : make d.items = make d'.items ↔ d.items = d'.items := by
      rw [hmake]
      refine ⟨fun h => ?_, fun h _ => h⟩
      by_cases hs : ∃ s, m.type = .scalar s
      · obtain ⟨s, hs⟩ := hs
        have hd := hshape (m, d) List.mem_cons_self
        have hd' := hshape' (m, d') List.mem_cons_self
        rw [hs] at hd hd'
        rw [shape_scalar hd, shape_scalar hd']
      · exact h fun s hm => hs ⟨s, hm⟩
    refine ⟨make d.items :: rs, make d'.items :: rs', q', ?_, ?_, ?_⟩
    · intro behind call
      rw [List.map_cons, readMembers, hread]
      dsimp only [Option.bind_eq_bind, Option.bind_some]
      rw [hrs]
      rfl
    · intro behind call
      rw [List.map_cons, readMembers, hread]
      dsimp only [Option.bind_eq_bind, Option.bind_some]
      rw [hrs']
      rfl
    · rw [List.cons.injEq, List.map_cons, List.map_cons, List.cons.injEq, hitems, heq]

/-- `Unserialize` leaves both objects with the same attributes, and the same bytes unread. -/
def Overwrites (declared : List GeneratedClass) (d d' : Data) (q : QueueByteArray) : Prop :=
  ∀ behind behind', ∃ r, Returns (fun fuel => unserialize behind declared fuel d q) r ∧
    Returns (fun fuel => unserialize behind' declared fuel d' q) r

theorem Returns.unique {α : Type*} {run : ℕ → Option α} {a b : α} (ha : Returns run a)
    (hb : Returns run b) : a = b := by
  obtain ⟨n, hn⟩ := ha
  obtain ⟨m, hm⟩ := hb
  have h := (hn _ (le_max_left n m)).symm.trans (hm _ (le_max_right n m))
  exact Option.some.inj h

theorem unserialize_eq {behind : Behind} {name : ClassName} {g : GeneratedClass}
    {attrs rs : List Data} {q q' : QueueByteArray} (hfind : findClass declared name = some g)
    (hread : ∀ call, readMembers (runRead behind declared call)
      (g.members.map Member.unserialize) attrs q = some (rs, q')) :
    Returns (fun fuel => unserialize behind declared fuel (.object name attrs) q)
      (.object name rs, q') := by
  refine ⟨1, fun fuel hfuel => ?_⟩
  obtain ⟨fuel, rfl⟩ := Nat.exists_eq_add_of_le' hfuel
  dsimp only
  rw [unserialize, hfind]
  dsimp only
  rw [hread]
  rfl

/-- Two objects of a class are read to the same attributes exactly where each of their arrays held
the same items before. -/
theorem overwrites_iff {name : ClassName} {g : GeneratedClass} {attrs : List Attr} {d d' : Data}
    (q : QueueByteArray) (hbasic : ∀ a ∈ attrs, a.Basic) (hfind : findClass declared name = some g)
    (hmembers : createMembers attrs = some g.members) (hd : Shape declared (.named name) d)
    (hd' : Shape declared (.named name) d') :
    Overwrites declared d d' q ↔ d.attrs.map Data.items = d'.attrs.map Data.items := by
  have hall : ∀ m ∈ g.members, m.Basic := by
    intro m hm
    obtain ⟨a, ha, hcreate⟩ := createMembers_mem hmembers m hm
    exact createMember_basic (hbasic a ha) hcreate
  cases hd with
  | @object _ g₁ priors hfind₁ hlen hshape =>
  cases hd' with
  | @object _ g₂ priors' hfind₂ hlen' hshape' =>
    obtain rfl : g = g₁ := Option.some.inj (hfind.symm.trans hfind₁)
    obtain rfl : g = g₂ := Option.some.inj (hfind.symm.trans hfind₂)
    obtain ⟨rs, rs', q', hread, hread', heq⟩ := readMembers_basic q hall hlen hlen' hshape hshape'
    have hreturns := fun behind => unserialize_eq hfind (hread behind)
    have hreturns' := fun behind => unserialize_eq hfind (hread' behind)
    rw [Data.attrs, Data.attrs, ← heq]
    constructor
    · intro h
      obtain ⟨r, hr, hr'⟩ := h (fun _ => []) fun _ => []
      have hobject := ((hreturns _).unique hr).trans (hr'.unique (hreturns' _))
      exact (Data.object.inj (Prod.mk.inj hobject).1).2
    · rintro rfl behind behind'
      exact ⟨_, hreturns behind, hreturns' behind'⟩

theorem shape_box (contents : List Int8) : Shape boxClasses (.named [98]) (box contents) := by
  refine .object rfl rfl ?_
  intro m hm
  rw [List.mem_singleton.1 hm]
  exact .vector _ _

/-- A box that held something holds it still. -/
theorem not_overwrites_box : Shape boxClasses (.named [98]) (box []) ∧
    Shape boxClasses (.named [98]) (box [1]) ∧
    ¬ Overwrites boxClasses (box []) (box [1]) ⟨.fwLittleEndian, [0, 0]⟩ := by
  refine ⟨shape_box _, shape_box _, fun h => ?_⟩
  obtain ⟨r, ⟨n, hn⟩, m, hm⟩ := h (fun _ => []) fun _ => []
  have hfirst := hn (n + m + 1) (by omega)
  have hsecond := hm (n + m + 1) (by omega)
  have hread : unserialize (fun _ => []) boxClasses (n + m + 1) (box []) ⟨.fwLittleEndian, [0, 0]⟩ =
      some (box [], ⟨.fwLittleEndian, []⟩) := rfl
  have hread' : unserialize (fun _ => []) boxClasses (n + m + 1) (box [1]) ⟨.fwLittleEndian, [0, 0]⟩ =
      some (box [1], ⟨.fwLittleEndian, []⟩) := rfl
  have heq := (hread.symm.trans hfirst).trans (hsecond.symm.trans hread')
  simp [box] at heq

/-- A number, a string and an array. -/
def entryAttrs : List Attr := [⟨.scalar .uint32, none⟩, ⟨.scalar .string, none⟩,
  ⟨.array, some (.scalar .int8)⟩]

def entryClass : GeneratedClass :=
  ⟨[101], [⟨.scalar .uint32, .write .uint32, .read .uint32⟩,
    ⟨.scalar .string, .write .string, .read .string⟩,
    ⟨.vector (.scalar .int8), .array (.write .int8), .array (.scalar .int8) (.read .int8)⟩]⟩

def entry (number : UInt32) (str : List Byte) (contents : List Int8) : Data :=
  .object [101] [.prim (.uint32 number), .prim (.string str),
    .array (contents.map fun v => .prim (.int8 v))]

theorem shape_entry (number : UInt32) (str : List Byte) (contents : List Int8) :
    Shape [entryClass] (.named [101]) (entry number str contents) := by
  refine .object rfl rfl ?_
  intro m hm
  simp only [entryClass, List.zip_cons_cons, List.zip_nil_right, List.mem_cons, List.not_mem_nil,
    or_false] at hm
  rcases hm with rfl | rfl | rfl
  · exact .prim _ _
  · exact .prim _ _
  · exact .vector _ _

/-- The number and the string were different, and the array was the same. -/
theorem overwrites_entry :
    Overwrites [entryClass] (entry 1 [97] [5]) (entry 2 [] [5])
      ⟨.fwLittleEndian, [9, 0, 0, 0, 1, 0, 98, 1, 0, 7]⟩ := by
  have hbasic : ∀ a ∈ entryAttrs, a.Basic := by
    simp [entryAttrs, Attr.Basic.scalar, Attr.Basic.scalars]
  exact (overwrites_iff _ hbasic rfl rfl (shape_entry _ _ _) (shape_entry _ _ _)).2 rfl

end Elegance
