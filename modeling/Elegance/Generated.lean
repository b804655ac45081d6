import Elegance.CppCreator
import Elegance.QueueByteArray

/-!
# Running the generated code

An object holds its members in the order of its attributes; `declared` are the classes it may be an
instance of. `Unserialize` writes over the object it is called on, and calls itself on the items of
arrays, so it runs with a bound on these nested calls.
-/

namespace Elegance

/-- The value of a member or of an item; a number that was never written is indeterminate. -/
inductive Data where
  | prim (v : Value)
  | indeterminate
  | array (items : List Data)
  | object (name : ClassName) (attrs : List Data)

/-- The items of a vector. -/
def Data.items : Data → List Data
  | .array items => items
  | _ => []

/-- The members of an object. -/
def Data.attrs : Data → List Data
  | .object _ attrs => attrs
  | _ => []

def findClass (declared : List GeneratedClass) (name : ClassName) : Option GeneratedClass :=
  declared.find? fun g => g.name = name

section Construct

/-- A variable of the type when it is declared; `object` constructs a class. -/
def initial (object : ClassName → Data) : RealType → Data
  | .scalar .string => .prim (.string [])
  | .scalar _ => .indeterminate
  | .vector _ => .array []
  | .named name => object name

/-- A new object; a member can only be of a class declared earlier. -/
def construct : List GeneratedClass → ClassName → Data
  | [], name => .object name []
  | g :: declared, name =>
    if g.name = name then
      .object name (g.members.map fun m => initial (construct declared) m.type)
    else construct declared name

end Construct

/-- What lies in memory behind a number, when the queue converts it. -/
abbrev Behind := QueueByteArray → List Byte

variable (behind : Behind) (declared : List GeneratedClass)

section Serialize

mutual

def runWrite (q : QueueByteArray) : WriteCode → Data → QueueByteArray
  | .write _, .prim v => q.write (behind q) v
  | .array item, .array items => runWrites (q.writeUint16 (UInt16.ofNat items.length)) item items
  | .callSerialize, .object name attrs =>
    match findClass declared name with
    | some g => writeMembers q (g.members.map Member.serialize) attrs
    | none => q
  | _, _ => q

/-- The loop over the items of an array. -/
def runWrites (q : QueueByteArray) (item : WriteCode) : List Data → QueueByteArray
  | [] => q
  | d :: ds => runWrites (runWrite q item d) item ds

/-- The body of `Serialize`. -/
def writeMembers (q : QueueByteArray) : List WriteCode → List Data → QueueByteArray
  | code :: codes, d :: ds => writeMembers (runWrite q code d) codes ds
  | _, _ => q

end

def serialize (q : QueueByteArray) (d : Data) : QueueByteArray :=
  runWrite behind declared q .callSerialize d

end Serialize

section Unserialize

/-- The loop that reads an array: `tmp_attr_value` is declared before it, and pushed back each time
to what the attribute holds. -/
def readItems (item : Data → QueueByteArray → Option (Data × QueueByteArray)) :
    ℕ → Data → List Data → QueueByteArray → Option (List Data × QueueByteArray)
  | 0, _, attr, q => some (attr, q)
  | n + 1, tmpAttrValue, attr, q => do
    let (tmpAttrValue, q) ← item tmpAttrValue q
    readItems item n tmpAttrValue (attr ++ [tmpAttrValue]) q

def runRead (call : Data → QueueByteArray → Option (Data × QueueByteArray)) :
    ReadCode → Data → QueueByteArray → Option (Data × QueueByteArray)
  | .nothing, attr, q => some (attr, q)
  | .read s, _, q =>
    let (v, q) := q.read (behind q) s.kind
    some (v.elim .indeterminate .prim, q)
  | .array tmpAttrValue item, attr, q => do
    let (arraySize, q) := q.readUint16
    let (items, q) ← readItems (runRead call item) arraySize.toNat
      (initial (construct declared) tmpAttrValue) attr.items q
    some (.array items, q)
  | .callUnserialize, attr, q => call attr q

/-- The body of `Unserialize`. -/
def readMembers (read : ReadCode → Data → QueueByteArray → Option (Data × QueueByteArray)) :
    List ReadCode → List Data → QueueByteArray → Option (List Data × QueueByteArray)
  | code :: codes, d :: ds, q => do
    let (d, q) ← read code d q
    let (ds, q) ← readMembers read codes ds q
    some (d :: ds, q)
  | _, ds, q => some (ds, q)

/-- `Unserialize` with at most `fuel` calls inside each other. -/
def unserialize : ℕ → Data → QueueByteArray → Option (Data × QueueByteArray)
  | fuel + 1, .object name attrs, q =>
    match findClass declared name with
    | some g => do
      let (attrs, q) ← readMembers (runRead behind declared (unserialize fuel))
        (g.members.map Member.unserialize) attrs q
      some (.object name attrs, q)
    | none => none
  | _, _, _ => none

end Unserialize

/-- `Unserialize` on a new object, over the bytes of `Serialize` and further ones. -/
def roundTrip (name : ClassName) (e : Endian) (d : Data) (rest : List Byte) (fuel : ℕ) :
    Option (Data × QueueByteArray) :=
  unserialize behind declared fuel (construct declared name)
    ⟨e, (serialize behind declared ⟨e, []⟩ d).bytesQueue ++ rest⟩

/-- Given fuel enough, the run returns. -/
def Returns {α : Type*} (run : ℕ → Option α) (a : α) : Prop := ∃ n, ∀ fuel ≥ n, run fuel = some a

section Values

/-- A number, a string, an array of these, or an array of a class. -/
inductive Attr.Supported : Attr → Prop
  | scalar (s : Scalar) (subtype : Option TypeName) : Supported ⟨.scalar s, subtype⟩
  | scalars (s : Scalar) : Supported ⟨.array, some (.scalar s)⟩
  | objects (name : ClassName) : Supported ⟨.array, some (.other name)⟩

/-- A number, a string, or an array of these. -/
inductive Attr.Basic : Attr → Prop
  | scalar (s : Scalar) (subtype : Option TypeName) : Basic ⟨.scalar s, subtype⟩
  | scalars (s : Scalar) : Basic ⟨.array, some (.scalar s)⟩

/-- The values of a type, with strings and arrays whose length an `unsigned short` counts. -/
inductive Fits : RealType → Data → Prop
  | scalar {s : Scalar} {v : Value} : v.kind = s.kind →
      (∀ str, v = .string str → str.length ≤ ushrtMax) → Fits (.scalar s) (.prim v)
  | vector {T : RealType} {items : List Data} : items.length ≤ ushrtMax →
      (∀ d ∈ items, Fits T d) → Fits (.vector T) (.array items)
  | object {name : ClassName} {g : GeneratedClass} {attrs : List Data} :
      findClass declared name = some g → attrs.length = g.members.length →
      (∀ m ∈ g.members.zip attrs, Fits m.1.type m.2) → Fits (.named name) (.object name attrs)

/-- The values of a type, where a member of a type that the tool does not know may hold anything. -/
inductive ValueOf : RealType → Data → Prop
  | scalar {s : Scalar} {v : Value} : v.kind = s.kind →
      (∀ str, v = .string str → str.length ≤ ushrtMax) → ValueOf (.scalar s) (.prim v)
  | vector {T : RealType} {items : List Data} : items.length ≤ ushrtMax →
      (∀ d ∈ items, ValueOf T d) → ValueOf (.vector T) (.array items)
  | object {name : ClassName} {g : GeneratedClass} {attrs : List Data} :
      findClass declared name = some g → attrs.length = g.members.length →
      (∀ m ∈ g.members.zip attrs, (∀ other, m.1.type ≠ .named other) → ValueOf m.1.type m.2) →
      ValueOf (.named name) (.object name attrs)

mutual

/-- The value without its members of a type that the tool does not know, be it a class or not; an
array of these is no such member. -/
def Data.known : Data → Data
  | .prim v => .prim v
  | .indeterminate => .indeterminate
  | .array items => .array (knownItems items)
  | .object name attrs =>
    match findClass declared name with
    | some g => .object name (knownMembers (g.members.map Member.type) attrs)
    | none => .object name []

def knownItems : List Data → List Data
  | [] => []
  | d :: ds => d.known :: knownItems ds

def knownMembers : List RealType → List Data → List Data
  | .named _ :: types, _ :: ds => .indeterminate :: knownMembers types ds
  | _ :: types, d :: ds => d.known :: knownMembers types ds
  | _, _ => []

end

/-- No array among the members holds anything. -/
inductive Blank : Data → Prop
  | prim (v : Value) : Blank (.prim v)
  | indeterminate : Blank .indeterminate
  | array : Blank (.array [])
  | object {name : ClassName} {attrs : List Data} : (∀ d ∈ attrs, Blank d) →
      Blank (.object name attrs)

/-- In every array, all items but the last are blank. -/
inductive Settled : Data → Prop
  | prim (v : Value) : Settled (.prim v)
  | indeterminate : Settled .indeterminate
  | array {items : List Data} : (∀ d ∈ items, Settled d) → (∀ d ∈ items.dropLast, Blank d) →
      Settled (.array items)
  | object {name : ClassName} {attrs : List Data} : (∀ d ∈ attrs, Settled d) →
      Settled (.object name attrs)

end Values

end Elegance
