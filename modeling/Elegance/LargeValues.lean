import Elegance.Generated

/-!
# Where each attribute is read from

The bytes `Serialize` writes for each attribute, and the bytes `Unserialize` looks at to read each
one, as many as are left from there on.
-/

namespace Elegance

/-- Some bytes that are looked at, when that many are left. -/
structure Access where
  remaining : ℕ
  size : ℕ

/-- The bytes a read looks at: those of a number there are, or the length of a string, and the string
if all of it is there. -/
def QueueByteArray.looks (q : QueueByteArray) : Scalar → Access
  | .string =>
    ⟨q.bytesQueue.length, if q.bytesQueue.length < 2 then 0 else 2 + q.readString.1.length⟩
  | s => ⟨q.bytesQueue.length, min (s.kind.width.getD 0) q.bytesQueue.length⟩

def itemAccesses (s : Scalar) : ℕ → QueueByteArray → List Access
  | 0, _ => []
  | n + 1, q => q.looks s :: itemAccesses s n (q.read [] s.kind).2

/-- What the lines about an attribute look at; there are no objects in it. -/
def ReadCode.accesses : ReadCode → QueueByteArray → List Access
  | .read s, q => [q.looks s]
  | .array _ (.read s), q =>
    q.looks .uint16 :: itemAccesses s q.readUint16.1.toNat q.readUint16.2
  | _, _ => []

variable (behind : Behind) (declared : List GeneratedClass)

/-- The bytes written for each attribute. -/
def chunks : QueueByteArray → List WriteCode → List Data → List (List Byte)
  | q, code :: codes, d :: ds =>
    let q' := runWrite behind declared q code d
    q'.bytesQueue.drop q.bytesQueue.length :: chunks q' codes ds
  | _, _, _ => []

/-- The bytes looked at for each attribute. -/
def attrAccesses : List ReadCode → List Data → QueueByteArray → List (List Access)
  | code :: codes, prior :: priors, q =>
    code.accesses q ::
      match runRead behind declared (unserialize behind declared 0) code prior q with
      | some (_, q') => attrAccesses codes priors q'
      | none => []
  | _, _, _ => []

/-- Nothing is looked at, or only `own` bytes, which are followed by `later` ones. -/
def Access.Within (own later : ℕ) (a : Access) : Prop :=
  a.size = 0 ∨ (a.remaining ≤ own + later ∧ later + a.size ≤ a.remaining)

/-- For each attribute, only bytes of its own are looked at. -/
def OwnBytes : List (List Byte) → List (List Access) → Prop
  | bs :: chunks, accesses :: rest =>
    (∀ a ∈ accesses, a.Within bs.length chunks.flatten.length) ∧ OwnBytes chunks rest
  | [], [] => True
  | _, _ => False

/-- `Unserialize` on a new object reads each attribute of the value from what `Serialize` wrote for
it. -/
def InStep (e : Endian) (g : GeneratedClass) (d : Data) : Prop :=
  OwnBytes (chunks behind declared ⟨e, []⟩ (g.members.map Member.serialize) d.attrs)
    (attrAccesses behind declared (g.members.map Member.unserialize)
      (construct declared g.name).attrs ⟨e, (serialize behind declared ⟨e, []⟩ d).bytesQueue⟩)

section Values

/-- The values of a basic type, whatever the lengths of strings and arrays. -/
inductive AnyLength : RealType → Data → Prop
  | scalar {s : Scalar} {v : Value} : v.kind = s.kind → AnyLength (.scalar s) (.prim v)
  | vector {s : Scalar} {vs : List Value} : (∀ v ∈ vs, v.kind = s.kind) →
      AnyLength (.vector (.scalar s)) (.array (vs.map .prim))

/-- A string that is not written. -/
def Data.overLong : Data → Bool
  | .prim (.string s) => decide (ushrtMax < s.length)
  | _ => false

def Data.oneByte : Data → Bool
  | .prim (.int8 _) | .prim (.uint8 _) => true
  | _ => false

/-- How many items are read. -/
def Data.announced : Data → ℕ
  | .array items => items.length % 65536
  | _ => 1

/-- How many are there. -/
def Data.written : Data → ℕ
  | .array items => items.countP fun d => !d.overLong
  | d => if d.overLong then 0 else 1

/-- Strings that are too long, and a number of 8 bits among them at most. -/
def ShorterThanLength : List Data → Prop
  | [] => True
  | d :: ds => (d.overLong ∧ ShorterThanLength ds) ∨ (d.oneByte ∧ ∀ d' ∈ ds, d'.overLong)

/-- As many items are read as were written; or fewer, and nothing follows them; or more, and what
follows is too short for the length of a string. -/
def Counted : List Data → Prop
  | [] => True
  | d :: ds =>
    (d.announced = d.written ∨ (d.announced < d.written ∧ ds = []) ∨
      (d.written < d.announced ∧ ShorterThanLength ds)) ∧ Counted ds

end Values

end Elegance
