import Elegance.ByteArray

/-!
# `CppCreator`

The class a protocol is turned into: its members, and the lines of `Serialize` and `Unserialize`
that each attribute gives. A file the tool exits on has no classes.
-/

namespace Elegance

abbrev ClassName := List Byte

/-- The types with a `Read` and a `Write` of their own. -/
inductive Scalar where
  | int8 | uint8 | int16 | uint16 | int32 | uint32 | int64 | uint64 | string
  deriving DecidableEq, Repr

/-- The read and write its code calls. -/
def Scalar.kind : Scalar → Kind
  | .int8 => .int8
  | .uint8 => .uint8
  | .int16 => .int16
  | .uint16 => .uint16
  | .int32 => .int32
  | .uint32 => .uint32
  | .int64 => .int64
  | .uint64 => .uint64
  | .string => .string

/-- A `type` or `subtype` of the file; what is no other type is taken for a class. -/
inductive TypeName where
  | scalar (s : Scalar)
  | array
  | other (name : ClassName)
  deriving DecidableEq, Repr

/-- An `attr`; its subtype may be empty. -/
structure Attr where
  type : TypeName
  subtype : Option TypeName := none

structure ProtocolClass where
  name : ClassName
  attrs : List Attr

/-- The C++ type of a member. -/
inductive RealType where
  | scalar (s : Scalar)
  | vector (item : RealType)
  | named (name : ClassName)
  deriving DecidableEq, Repr

/-- Lines of `Serialize` about one variable. -/
inductive WriteCode where
  | nothing
  | write (s : Scalar)
  | array (item : WriteCode)
  | callSerialize
  deriving DecidableEq, Repr

/-- Lines of `Unserialize` about one variable; those of an array declare a `tmp_attr_value`. -/
inductive ReadCode where
  | nothing
  | read (s : Scalar)
  | array (tmpAttrValue : RealType) (item : ReadCode)
  | callUnserialize
  deriving DecidableEq, Repr

namespace CppCreator

/-- `GetCppRealType(type_str, "")`. -/
def getCppItemType : TypeName → Option RealType
  | .scalar s => some (.scalar s)
  | .array => none
  | .other name => some (.named name)

def getCppRealType : TypeName → Option TypeName → Option RealType
  | .array, some subtype => (getCppItemType subtype).map .vector
  | type, _ => getCppItemType type

/-- `GetSerializeCode(type_str, "", attr_name)`. -/
def getItemSerializeCode : TypeName → Option WriteCode
  | .scalar s => some (.write s)
  | .array => none
  | .other _ => some .nothing

def getSerializeCode : TypeName → Option TypeName → Option WriteCode
  | .array, some subtype =>
    (getItemSerializeCode subtype).map fun sub =>
      .array (if sub = .nothing then .callSerialize else sub)
  | type, _ => getItemSerializeCode type

/-- `GetUnserializeCode(type_str, "", attr_name)`. -/
def getItemUnserializeCode : TypeName → Option ReadCode
  | .scalar s => some (.read s)
  | .array => none
  | .other _ => some .nothing

def getUnserializeCode : TypeName → Option TypeName → Option ReadCode
  | .array, some subtype => do
    let tmpAttrValue ← getCppItemType subtype
    let sub ← getItemUnserializeCode subtype
    some (.array tmpAttrValue (if sub = .nothing then .callUnserialize else sub))
  | type, _ => getItemUnserializeCode type

end CppCreator

/-- What an attribute adds to its class. -/
structure Member where
  type : RealType
  serialize : WriteCode
  unserialize : ReadCode

/-- A class of the generated files; `GetTypeName` returns its name. -/
structure GeneratedClass where
  name : ClassName
  members : List Member

namespace CppCreator

def createMember (a : Attr) : Option Member := do
  let type ← getCppRealType a.type a.subtype
  let serialize ← getSerializeCode a.type a.subtype
  let unserialize ← getUnserializeCode a.type a.subtype
  some ⟨type, serialize, unserialize⟩

def createMembers : List Attr → Option (List Member)
  | [] => some []
  | a :: attrs => do
    let m ← createMember a
    let members ← createMembers attrs
    some (m :: members)

/-- The classes of the protocols, declared one after another; the last one stands first. -/
def doCreate : List GeneratedClass → List ProtocolClass → Option (List GeneratedClass)
  | declared, [] => some declared
  | declared, p :: protocols => do
    let members ← createMembers p.attrs
    doCreate (⟨p.name, members⟩ :: declared) protocols

end CppCreator

end Elegance
