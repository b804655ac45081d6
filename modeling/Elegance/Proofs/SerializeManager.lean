import Elegance.SerializeManager
import Elegance.Proofs.Framing
import Elegance.Proofs.Generated
import Elegance.Proofs.HandleNetTask

/-!
# Objects over the network

`SendSerialize` sends the name of the class and the encoding of the object (`packSerialize_eq`), and
what follows the base class in `OnRecvPackage` makes the object of them again (`createFrom_pack`).
The packages of a stream come out of `UnPack` as they were sent, so every handler gets every object.
-/

namespace Elegance

open CInt StdString

variable {declared : List GeneratedClass} {behind : Behind}

section Flat

theorem forall_of_zip {α β : Type*} {P : β → Prop} {as : List α} {bs : List β}
    (hlen : bs.length = as.length) (h : ∀ m ∈ as.zip bs, P m.2) : ∀ b ∈ bs, P b := by
  intro b hb
  rw [← List.map_snd_zip hlen.le] at hb
  obtain ⟨m, hm, rfl⟩ := List.mem_map.1 hb
  exact h m hm

variable (declared) in
/-- A type of a flat class, its members being plain. -/
inductive FlatType : RealType → Prop
  | scalar (s : Scalar) : FlatType (.scalar s)
  | scalars (s : Scalar) : FlatType (.vector (.scalar s))
  | objects (name : ClassName) : (∀ g, findClass declared name = some g →
      ∀ m ∈ g.members, m.Plain ∧ ∃ s, m.type = .scalar s) → FlatType (.vector (.named name))

theorem fits_scalar {s : Scalar} {d : Data} (h : Fits declared (.scalar s) d) :
    PlainFits declared (.scalar s) d ∧ Settled d ∧ Blank d := by
  cases h with
  | scalar hkind hstr => exact ⟨.scalar hkind hstr, .prim _, .prim _⟩

theorem fits_flat_object {name : ClassName} {d : Data} (h : Fits declared (.named name) d)
    (hflat : ∀ g, findClass declared name = some g →
      ∀ m ∈ g.members, m.Plain ∧ ∃ s, m.type = .scalar s) :
    PlainFits declared (.named name) d ∧ Settled d ∧ Blank d := by
  cases h with
  | @object _ g attrs hfind hlen hattrs =>
    have hmem : ∀ m ∈ g.members.zip attrs,
        PlainFits declared m.1.type m.2 ∧ Settled m.2 ∧ Blank m.2 := by
      intro m hm
      obtain ⟨-, s, hs⟩ := hflat g hfind m.1 (List.of_mem_zip hm).1
      have hfits := hattrs m hm
      rw [hs] at hfits ⊢
      exact fits_scalar hfits
    have hall : ∀ d ∈ attrs, Settled d ∧ Blank d := forall_of_zip hlen fun m hm => (hmem m hm).2
    exact ⟨.object hfind (fun m hm => (hflat g hfind m hm).1) hlen fun m hm => (hmem m hm).1,
      .object fun d hd => (hall d hd).1, .object fun d hd => (hall d hd).2⟩

/-- A value of a flat type is settled. -/
theorem fits_flat {T : RealType} {d : Data} (hT : FlatType declared T) (h : Fits declared T d) :
    PlainFits declared T d ∧ Settled d := by
  cases hT with
  | scalar s => exact ⟨(fits_scalar h).1, (fits_scalar h).2.1⟩
  | scalars s =>
    cases h with
    | vector hlen hitems =>
      exact ⟨.vector hlen fun d hd => (fits_scalar (hitems d hd)).1,
        .array (fun d hd => (fits_scalar (hitems d hd)).2.1)
          fun d hd => (fits_scalar (hitems d (List.mem_of_mem_dropLast hd))).2.2⟩
  | objects name hflat =>
    cases h with
    | vector hlen hitems =>
      exact ⟨.vector hlen fun d hd => (fits_flat_object (hitems d hd) hflat).1,
        .array (fun d hd => (fits_flat_object (hitems d hd) hflat).2.1)
          fun d hd => (fits_flat_object (hitems d (List.mem_of_mem_dropLast hd)) hflat).2.2⟩

theorem createMember_flat {protocols : List ProtocolClass}
    (hcreate : CppCreator.doCreate [] protocols = some declared) {a : Attr}
    (ha : a.Flat protocols) {m : Member} (h : CppCreator.createMember a = some m) :
    m.Plain ∧ FlatType declared m.type := by
  cases ha with
  | scalar s subtype =>
    obtain ⟨hplain, htype⟩ := createMember_scalar h
    rw [htype]
    exact ⟨hplain, .scalar s⟩
  | scalars s =>
    rw [← Option.some_inj.1 h]
    exact ⟨⟨rfl, by simp⟩, .scalars s⟩
  | objects name hitems =>
    rw [← Option.some_inj.1 h]
    refine ⟨⟨rfl, by simp⟩, .objects name fun g hfind m' hm' => ?_⟩
    obtain ⟨p, hp, hpname, hmembers⟩ := findClass_protocol hcreate hfind
    obtain ⟨a, ha, hm⟩ := hmembers m' hm'
    obtain ⟨s, subtype, rfl⟩ := hitems p hp hpname a ha
    obtain ⟨hplain, htype⟩ := createMember_scalar hm
    exact ⟨hplain, s, htype⟩

/-- A value of a class with flat attributes is plain and settled. -/
theorem fits_flat_class {protocols : List ProtocolClass}
    (hcreate : CppCreator.doCreate [] protocols = some declared) {name : ClassName} {d : Data}
    (hflat : ∀ p ∈ protocols, p.name = name → ∀ a ∈ p.attrs, a.Flat protocols)
    (h : Fits declared (.named name) d) : PlainFits declared (.named name) d ∧ Settled d := by
  cases h with
  | @object _ g attrs hfind hlen hattrs =>
    obtain ⟨p, hp, hpname, hmembers⟩ := findClass_protocol hcreate hfind
    have hmember : ∀ m ∈ g.members, m.Plain ∧ FlatType declared m.type := by
      intro m hm
      obtain ⟨a, ha, hcreated⟩ := hmembers m hm
      exact createMember_flat hcreate (hflat p hp hpname a ha) hcreated
    have hfits : ∀ m ∈ g.members.zip attrs, PlainFits declared m.1.type m.2 ∧ Settled m.2 :=
      fun m hm => fits_flat (hmember m.1 (List.of_mem_zip hm).1).2 (hattrs m hm)
    exact ⟨.object hfind (fun m hm => (hmember m hm).1) hlen fun m hm => (hfits m hm).1,
      .object (forall_of_zip hlen fun m hm => (hfits m hm).2)⟩

end Flat

namespace SerializeNetworkManager

section Package

/-- The package an object of the class is sent as. -/
def package (name : ClassName) (d : Data) : List Byte :=
  Endian.fwLittleEndian.digits 2 name.length ++ (name ++ d.encode .fwLittleEndian)

theorem length_package (name : ClassName) (d : Data) :
    (package name d).length = 2 + (name.length + (d.encode .fwLittleEndian).length) := by
  rw [package, List.length_append, length_digits, List.length_append]

theorem packSerialize_eq {name : ClassName} {d : Data} (h : PlainFits declared (.named name) d)
    (hname : name.length ≤ 255) :
    packSerialize behind declared d = ⟨.fwLittleEndian, package name d⟩ := by
  have htype : d.typeName = name := by
    cases h
    rfl
  have hwrite := QueueByteArray.writeString_eq {} (s := name) (by rw [ushrtMax]; omega)
  rw [packSerialize, htype, hwrite, serialize_eq h, package, List.nil_append, List.append_assoc]

/-- The length of the name, as the host reads it. -/
theorem readShort_package {name : ClassName} (d : Data) (hname : name.length ≤ 255) :
    littleEndian.readShort ((package name d).take sizeofShort) = name.length := by
  have htake : (package name d).take 2 = leBytes 2 name.length :=
    List.take_left' (length_leBytes 2 _)
  rw [sizeofShort, htake, littleEndian]
  dsimp only
  rw [leNat_leBytes, Nat.mod_eq_of_lt (by omega)]
  exact wrap16_of_range (by rw [shrtMin]; omega) (by rw [shrtMax]; omega)

/-- The package of a settled object is made into that object. -/
theorem createFrom_package {name : ClassName} {d : Data} (h : PlainFits declared (.named name) d)
    (hset : Settled d) (h0 : 0 ∉ name) (hpos : 1 ≤ name.length) (hname : name.length ≤ 255)
    (hsize : ((package name d).length : ℤ) ≤ intMax - 4) {fuel : ℕ} (hfuel : d.depth ≤ fuel) :
    createFrom behind declared fuel (package name d) (package name d).length = some (some d) := by
  have hlen := length_package name d
  rw [hlen] at hsize
  push_cast at hsize
  obtain ⟨g, hfind⟩ : ∃ g, findClass declared name = some g := by
    cases h
    exact ⟨_, ‹_›⟩
  have hdrop : (package name d).drop 2 = name ++ d.encode .fwLittleEndian :=
    List.drop_left' (length_digits _ 2 _)
  have hcstring : cString (name ++ [0]) = name := by
    rw [cString_append_of_not_mem _ h0]
    simp [cString]
  have hserializeLen : wrap32 (((package name d).length : ℤ) - sizeofShort - name.length) =
      (d.encode .fwLittleEndian).length := by
    rw [hlen, sizeofShort]
    push_cast
    rw [show (2 : ℤ) + (name.length + (d.encode .fwLittleEndian).length) - 2 - name.length =
      (d.encode .fwLittleEndian).length by ring]
    exact wrap32_of_range (by rw [intMin]; omega) (by omega)
  have hbytes : ((package name d).drop (((package name d).length : ℤ) -
      (d.encode .fwLittleEndian).length).toNat) = d.encode .fwLittleEndian := by
    rw [hlen, show (((2 + (name.length + (d.encode .fwLittleEndian).length) : ℕ) : ℤ) -
      (d.encode .fwLittleEndian).length).toNat = 2 + name.length by omega, ← List.drop_drop, hdrop,
      List.drop_left]
  have hin : MemCopy.InBounds ⟨name.length, (package name d).length - sizeofShort, 0,
      serializeClassNameMaxLen⟩ := by
    unfold MemCopy.InBounds
    rw [hlen, sizeofShort, serializeClassNameMaxLen]
    dsimp only
    omega
  obtain ⟨r, hr, hreq⟩ := unserialize_returns behind h .fwLittleEndian []
  rw [List.append_nil] at hr
  unfold createFrom
  rw [if_neg (by rw [hlen, sizeofShort]; omega)]
  simp only [readShort_package d hname]
  rw [if_neg (by rw [serializeClassNameMaxLen]; omega), if_neg (not_not.2 hin), sizeofShort, hdrop,
    Int.toNat_natCast, List.take_left, hcstring, hfind]
  dsimp only
  rw [show ((2 : ℕ) : ℤ) = (sizeofShort : ℤ) from rfl, hserializeLen, if_neg (by omega), hbytes,
    QueueByteArray.writeObject_eq, Int.toNat_natCast, List.take_length, List.nil_append,
    hr fuel hfuel, hreq.2 hset]

end Package

section Send

variable {sender : NetworkManager} {netId : NetworkID}

theorem send_connected (h : Connected sender netId) {msg : List Byte}
    (hsize : (msg.length : ℤ) ≤ intMax - 4) :
    ∃ write : SocketWrite, write.data = frame littleEndian msg ∧
      sender.send littleEndian netId msg = some [write] := by
  obtain ⟨hendpoint, howner⟩ := h
  obtain ⟨endpoint, hfind⟩ := Option.isSome_iff_exists.1 hendpoint
  unfold NetworkManager.send
  rw [hfind]
  dsimp only
  rw [packAndSend_eq hsize]
  dsimp only [Option.map_some]
  unfold NetworkManager.sendRaw
  rw [hfind]
  dsimp only
  rcases ha : sender.netIdToAccept.find netId with _ | a <;>
    rcases hc : sender.netIdToConnect.find netId with _ | c
  · simp [ha, hc] at howner
  · exact ⟨_, rfl, rfl⟩
  · exact ⟨_, rfl, rfl⟩
  · simp [ha, hc] at howner

theorem sendSerialize_eq (h : Connected sender netId) {d : Data}
    (hd : PlainFits declared (.named d.typeName) d) (hname : d.typeName.length ≤ 255)
    (hsize : ((package d.typeName d).length : ℤ) ≤ intMax - 4) :
    ∃ write : SocketWrite, write.data = frame littleEndian (package d.typeName d) ∧
      sendSerialize behind declared sender netId d = some [write] := by
  have hlen := length_package d.typeName d
  have hmod : (package d.typeName d).length % 4294967296 = (package d.typeName d).length := by
    rw [intMax] at hsize
    exact Nat.mod_eq_of_lt (by omega)
  have hread := QueueByteArray.readObject_append .fwLittleEndian [] (o := package d.typeName d)
    (by omega)
  rw [List.append_nil] at hread
  unfold sendSerialize
  simp only [packSerialize_eq hd hname, hmod, hread]
  exact send_connected h hsize

theorem sendSerializes_eq (h : Connected sender netId) : ∀ {values : List Data},
    (∀ d ∈ values, PlainFits declared (.named d.typeName) d ∧ d.typeName.length ≤ 255 ∧
      ((package d.typeName d).length : ℤ) ≤ intMax - 4) →
      ∃ writes, sendSerializes behind declared sender netId values = some writes ∧
        writes.map SocketWrite.data =
          values.map fun d => frame littleEndian (package d.typeName d)
  | [], _ => ⟨[], rfl, rfl⟩
  | d :: values, hvalues => by
    obtain ⟨hd, hname, hsize⟩ := hvalues d List.mem_cons_self
    obtain ⟨write, hdata, hsend⟩ :=
      @sendSerialize_eq _ behind _ _ h d hd hname hsize
    obtain ⟨writes, hwrites, hall⟩ :=
      sendSerializes_eq h fun b hb => hvalues b (List.mem_cons_of_mem d hb)
    refine ⟨write :: writes, ?_, by rw [List.map_cons, List.map_cons, hdata, hall]⟩
    rw [sendSerializes, hsend]
    dsimp only [Option.bind_eq_bind, Option.bind_some]
    rw [hwrites]
    rfl

end Send

section Recv

variable {m : SerializeNetworkManager} {netId : NetworkID}

theorem receivedObjects_append (l l' : List SerializeCall) :
    receivedObjects (l ++ l') = receivedObjects l ++ receivedObjects l' :=
  List.filterMap_append

/-- In direct mode the base class calls the handlers and stays as it is. -/
theorem onRecvPackage_direct (hmode : m.singleThreadHandleMode = false) (data : List Byte)
    (length : ℤ) :
    ∃ calls, m.toNetworkManager.onRecvPackage netId data length =
      some (m.toNetworkManager, calls) := by
  unfold NetworkManager.onRecvPackage
  by_cases h : netId ≤ 0 ∨ length ≤ 0
  · exact ⟨[], if_pos h⟩
  · rw [if_neg h, if_neg (by simp [hmode]), NetworkManager.tell, if_neg (by simp [hmode])]
    exact ⟨_, rfl⟩

theorem onRecvPackages_eq (hmode : m.singleThreadHandleMode = false) {fuel : ℕ} :
    ∀ {values : List Data} {packages : List (List Byte × ℤ)},
      List.Forall₂ (fun d p => createFrom behind declared fuel p.1 p.2 = some (some d))
        values packages →
      ∃ calls, m.onRecvPackages behind declared fuel netId packages = some (m, calls) ∧
        receivedObjects calls =
          values.flatMap fun d => m.serializeHandlerList.map fun h => (h, netId, d)
  | [], [], _ => ⟨[], rfl, rfl⟩
  | d :: values, (data, length) :: packages, .cons hd hvalues => by
    obtain ⟨calls, hcalls⟩ := @onRecvPackage_direct m netId hmode data length
    obtain ⟨rest, hrest, hobjects⟩ := onRecvPackages_eq hmode hvalues
    have honRecv : m.onRecvPackage behind declared fuel netId data length =
        some (m, calls.map (fun c => .handler c.1 c.2) ++
          m.serializeHandlerList.map fun h => .onRecv h netId d) := by
      rw [onRecvPackage, hcalls]
      dsimp only [Option.bind_eq_bind, Option.bind_some]
      rw [hd]
      rfl
    refine ⟨calls.map (fun c => .handler c.1 c.2) ++
      m.serializeHandlerList.map (fun h => .onRecv h netId d) ++ rest, ?_, ?_⟩
    · rw [onRecvPackages, honRecv]
      dsimp only [Option.bind_eq_bind, Option.bind_some]
      rw [hrest]
      rfl
    · rw [receivedObjects_append, hobjects, receivedObjects_append, List.flatMap_cons]
      congr 1
      simp [receivedObjects, List.filterMap_map]

/-- Chunks of a stream of packages make the objects the packages are of. -/
theorem unPackChunks_eq (hmode : m.singleThreadHandleMode = false)
    (hnew : m.netIdToBufferMap.find netId = none) {fuel : ℕ} {values : List Data}
    {msgs : List (List Byte)} (hmsgs : ∀ msg ∈ msgs, msg ≠ [] ∧ (msg.length : ℤ) ≤ intMax - 4)
    (hcreate : List.Forall₂ (fun d (msg : List Byte) =>
      createFrom behind declared fuel msg msg.length = some (some d)) values msgs)
    {chunks : List Chunk}
    (hchunks : chunks.flatMap Chunk.bytes = (msgs.map (frame littleEndian)).flatten) :
    (m.unPackChunks behind declared netId chunks fuel).map receivedObjects =
      some (values.flatMap fun d => m.serializeHandlerList.map fun h => (h, netId, d)) := by
  have hfed : fed netId (chunks.map fun c => (netId, c)) = (msgs.map (frame littleEndian)).flatten := by
    rw [← hchunks, fed, List.flatMap_map]
    simp
  have hframes := nonEmpty_frames (H := littleEndian) fun msg hmsg => (hmsgs msg hmsg).2
  have hcached : ∀ j ∈ ({netId} : Set NetworkID), Cached littleEndian m.netIdToBufferMap j [] := by
    rintro j rfl
    exact cached_nil hnew
  obtain ⟨m', hfinal, -, hpackages, -⟩ := unPackAll_of_tame (chunks.map fun c => (netId, c))
    (s := fun _ => []) hcached (by simp) (by
      rintro j rfl
      rw [List.nil_append, hfed]
      exact tame_of_announced littleEndian hframes.2)
  have hrecvs := hpackages netId rfl
  have hnil : packages littleEndian [] = [] := by
    rw [packages, handedOver_of_none (next_of_length_le (by simp))]
    rfl
  rw [List.nil_append, hfed, hnil, List.nil_append, packages, handedOver_frames hmsgs] at hrecvs
  have hall : List.Forall₂ (fun d (p : List Byte × ℤ) =>
      createFrom behind declared fuel p.1 p.2 = some (some d)) values
        (msgs.map fun msg => (msg, (msg.length : ℤ))) :=
    List.forall₂_map_right_iff.2 hcreate
  obtain ⟨calls, hcalls, hobjects⟩ := @onRecvPackages_eq _ _ _ netId hmode _ _ _ hall
  unfold unPackChunks
  simp only [hfinal, ← hrecvs, hcalls, Option.map_some, hobjects]

end Recv

/-- The objects sent for one id, cut and joined in any way, are handed one by one to every handler
for objects, as they were sent. -/
theorem sendSerializes_received (behind : Behind) {protocols : List ProtocolClass}
    {classes : List GeneratedClass} (hcreate : CppCreator.doCreate [] protocols = some classes)
    {values : List Data} (hvalues : ∀ d ∈ values, Sendable behind protocols classes d)
    {sender : NetworkManager} {netId : NetworkID} (hsender : Connected sender netId)
    {receiver : SerializeNetworkManager} (hmode : receiver.singleThreadHandleMode = false)
    {recvId : NetworkID} (hnew : receiver.netIdToBufferMap.find recvId = none) :
    ∃ writes, sendSerializes behind classes sender netId values = some writes ∧
      ∀ chunks : List Chunk,
        chunks.flatMap Chunk.bytes = (writes.map SocketWrite.data).flatten →
          Returns (fun fuel => (receiver.unPackChunks behind classes recvId chunks fuel).map
            receivedObjects)
            (values.flatMap fun d => receiver.serializeHandlerList.map fun h => (h, recvId, d)) := by
  have hplain : ∀ d ∈ values, PlainFits classes (.named d.typeName) d ∧ Settled d :=
    fun d hd => fits_flat_class hcreate (hvalues d hd).flat (hvalues d hd).fits
  have hsize : ∀ d ∈ values, ((package d.typeName d).length : ℤ) ≤ intMax - 4 := by
    intro d hd
    have hsize := (hvalues d hd).size_le
    rwa [packSerialize_eq (hplain d hd).1 (hvalues d hd).name_le] at hsize
  obtain ⟨writes, hwrites, hdata⟩ := @sendSerializes_eq _ behind _ _ hsender values
    fun d hd => ⟨(hplain d hd).1, (hvalues d hd).name_le, hsize d hd⟩
  refine ⟨writes, hwrites, fun chunks hchunks => ⟨Data.depthAll values, fun fuel hfuel => ?_⟩⟩
  have hmsgs : ∀ msg ∈ values.map fun d => package d.typeName d,
      msg ≠ [] ∧ (msg.length : ℤ) ≤ intMax - 4 := by
    intro msg hmsg
    obtain ⟨d, hd, rfl⟩ := List.mem_map.1 hmsg
    refine ⟨List.ne_nil_of_length_pos ?_, hsize d hd⟩
    rw [length_package]
    omega
  refine unPackChunks_eq hmode hnew hmsgs ?_ ?_
  · refine List.forall₂_map_right_iff.2 (List.forall₂_same.2 fun d hd => ?_)
    have hv := hvalues d hd
    exact createFrom_package (hplain d hd).1 (hplain d hd).2 hv.no_nul hv.name_pos hv.name_le
      (hsize d hd) ((Data.depth_le hd).trans hfuel)
  · rw [hchunks, hdata, List.map_map]
    rfl

theorem sendable_box : Sendable (fun _ => []) boxes boxClasses (box [1, -1]) where
  fits := fits_box (by decide)
  flat := by simp [boxes, box, Data.typeName, Attr.Flat.scalars]
  no_nul := by decide
  name_pos := by decide
  name_le := by decide
  size_le := by decide +kernel

/-- One box, sent from a listener's connection and received by two handlers. -/
theorem sendSerializes_received_box :
    ∃ writes, sendSerializes (fun _ => []) boxClasses
        { netIdToEndpointMap := StdMap.empty.set 5 {}, netIdToAccept := StdMap.empty.set 5 9 } 5
        [box [1, -1]] = some writes ∧
      ∀ chunks : List Chunk,
        chunks.flatMap Chunk.bytes = (writes.map SocketWrite.data).flatten →
          Returns (fun fuel => (unPackChunks (fun _ => []) boxClasses
            { serializeHandlerList := [3, 4] } 7 chunks fuel).map receivedObjects)
            [(3, 7, box [1, -1]), (4, 7, box [1, -1])] := by
  have hvalues : ∀ d ∈ [box [1, -1]], Sendable (fun _ => []) boxes boxClasses d := by
    simpa using sendable_box
  have hconnected : Connected
      { netIdToEndpointMap := StdMap.empty.set 5 {}, netIdToAccept := StdMap.empty.set 5 9 } 5 := by
    simp [Connected]
  exact sendSerializes_received (fun _ => []) rfl hvalues hconnected rfl rfl

end SerializeNetworkManager

end Elegance
