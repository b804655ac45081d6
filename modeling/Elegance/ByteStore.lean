import Elegance.AnyByteArray
import Elegance.Lib.Client

/-!
# Byte arrays as queues of values

The calls on several `ByteArray`s, of either class and possibly the same one in two places, and what
they are for: each array is a queue of typed values (`ValueQueue`), whose calls have an answer where
what is asked for is in front, or nothing is left, and there is room. `operator+` and `operator=`,
which the source has for two objects of one class, empty the object they are given.
-/

namespace Elegance

open CInt

inductive ByteCall (ι : Type) where
  | bytesAvailable (i : ι)
  | read (i : ι) (k : Kind)
  | write (i : ι) (v : Value)
  | readFromByteArray (i other : ι) (bytesLen : ℤ)
  /-- `operator+`. -/
  | plus (i other : ι)
  /-- `operator=`. -/
  | assign (i other : ι)
  | clear (i : ι)

/-- What a call returns. -/
def ByteCall.Answer {ι : Type} : ByteCall ι → Type
  | .bytesAvailable _ => ℕ
  | .read _ _ => Option Value
  | _ => Unit

abbrev ByteClient (ι ρ : Type) := Client (ByteCall ι) ByteCall.Answer ρ

namespace ByteClient

variable {ι : Type}

def read (i : ι) (k : Kind) : ByteClient ι (Option Value) := Client.ask (ByteCall.read i k)

def write (i : ι) (v : Value) : ByteClient ι Unit := Client.ask (ByteCall.write i v)

def readFromByteArray (i other : ι) (bytesLen : ℤ) : ByteClient ι Unit :=
  Client.ask (ByteCall.readFromByteArray i other bytesLen)

end ByteClient

def AnyByteArray.clear : AnyByteArray → AnyByteArray
  | .queue q => .queue { q with bytesQueue := [] }
  | .static curEndian _ => .static curEndian {}

abbrev ByteStore (ι : Type) := ι → AnyByteArray

namespace ByteStore

variable {ι : Type} [DecidableEq ι]

/-- The other object is read before this one is written to, also where they are the same. -/
def readFromByteArray (s : ByteStore ι) (i other : ι) (bytesLen : ℤ) : Option (ByteStore ι) :=
  match s i with
  | .queue _ =>
    let bytesLen :=
      if bytesLen = 0 ∨ (s other).bytesAvailable < (bytesLen % 4294967296).toNat then
        wrap32 (s other).bytesAvailable
      else bytesLen
    let (obj, o) := (s other).readObject (bytesLen % 4294967296).toNat
    let s : ByteStore ι := Function.update s other o
    ((s i).writeObject obj bytesLen).map (Function.update s i)
  | .static _ _ =>
    let readSize := (bytesLen % 4294967296).toNat
    if readSize = 0 ∨ readSize > (s other).bytesAvailable then some s
    else
      let (obj, o) := (s other).readObject readSize
      let s : ByteStore ι := Function.update s other o
      ((s i).writeObject obj (wrap32 readSize)).map (Function.update s i)

def clear (s : ByteStore ι) (i : ι) : ByteStore ι := Function.update s i (s i).clear

def plus (s : ByteStore ι) (i other : ι) : Option (ByteStore ι) :=
  s.readFromByteArray i other (wrap32 (s other).bytesAvailable)

def assign (s : ByteStore ι) (i other : ι) : Option (ByteStore ι) :=
  if i = other then some s else (s.clear i).plus i other

/-- `none` where bytes behind an object are read, or a `memcpy` leaves the buffer. -/
def act (behind : AnyByteArray.Behind) (s : ByteStore ι) :
    (op : ByteCall ι) → Option (op.Answer × ByteStore ι)
  | .bytesAvailable i => some ((s i).bytesAvailable, s)
  | .read i k =>
    let (v, b) := (s i).read behind k
    some (v, Function.update s i b)
  | .write i v => ((s i).write behind v).map fun b => ((), Function.update s i b)
  | .readFromByteArray i other bytesLen =>
    (s.readFromByteArray i other bytesLen).map fun s => ((), s)
  | .plus i other => (s.plus i other).map fun s => ((), s)
  | .assign i other => (s.assign i other).map fun s => ((), s)
  | .clear i => some ((), s.clear i)

end ByteStore

/-- The bytes a value takes. -/
def Value.size (v : Value) : ℕ := (v.encode .fwLittleEndian).length

/-- A string that a C string and an `unsigned short` hold, an object that is not empty. -/
def Value.Kept : Value → Prop
  | .string s => 0 ∉ s ∧ s.length ≤ ushrtMax
  | .object o => 1 ≤ o.length
  | _ => True

instance : ∀ v : Value, Decidable v.Kept
  | .string _ => inferInstanceAs (Decidable (_ ∧ _))
  | .object _ => inferInstanceAs (Decidable (_ ≤ _))
  | .int8 _ | .uint8 _ | .int16 _ | .uint16 _ | .int32 _ | .uint32 _ | .float _ | .int64 _
  | .uint64 _ | .double _ => .isTrue trivial

/-- The values to be read, and the bytes written since the last `Clear`. -/
structure ValueQueue where
  values : List Value := []
  written : ℕ := 0

namespace ValueQueue

/-- The bytes of all values. -/
def bytes (vs : List Value) : ℕ := (vs.map Value.size).sum

/-- The values that take the first `n` bytes, and the others. -/
def takeBytes : List Value → ℕ → Option (List Value × List Value)
  | [], n => if n = 0 then some ([], []) else none
  | v :: vs, n =>
    if n = 0 then some ([], v :: vs)
    else if v.size ≤ n then (takeBytes vs (n - v.size)).map fun p => (v :: p.1, p.2)
    else none

variable {ι : Type} [DecidableEq ι]

/-- Values that take `bytesLen` bytes go from the front of one queue to the end of one. -/
def move (w : ι → ValueQueue) (i other : ι) (bytesLen : ℕ) : Option (ι → ValueQueue) :=
  (takeBytes (w other).values bytesLen).bind fun p =>
    let w := Function.update w other { w other with values := p.2 }
    if (w i).written + bytesLen ≤ maxMsgLength then
      some (Function.update w i ⟨(w i).values ++ p.1, (w i).written + bytesLen⟩)
    else none

/-- `none` where the value in front is of another kind, a value cannot be kept, or there is no
room for it. `ReadObject(0)` asks one class for nothing and the other for all there is. -/
def act (w : ι → ValueQueue) : (op : ByteCall ι) → Option (op.Answer × (ι → ValueQueue))
  | .bytesAvailable i => some (bytes (w i).values, w)
  | .read i k =>
    match (w i).values with
    | v :: values =>
      if v.kind = k then some (some v, Function.update w i { w i with values }) else none
    | [] => if k = .object 0 then none else some (AnyByteArray.nothing k, w)
  | .write i v =>
    if v.Kept ∧ (w i).written + v.size ≤ maxMsgLength then
      some ((), Function.update w i ⟨(w i).values ++ [v], (w i).written + v.size⟩)
    else none
  | .readFromByteArray i other bytesLen =>
    if 0 < bytesLen then (move w i other bytesLen.toNat).map fun w => ((), w) else none
  | .plus i other => (move w i other (bytes (w other).values)).map fun w => ((), w)
  | .assign i other =>
    if i = other then some ((), w)
    else (move (Function.update w i {}) i other (bytes (w other).values)).map fun w => ((), w)
  | .clear i => some ((), Function.update w i {})

end ValueQueue

end Elegance
