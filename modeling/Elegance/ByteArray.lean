import Elegance.FlexibleBuffer

/-!
# `ByteArray`

The typed values the two byte arrays read and write, floating point numbers as their bits, and the
bytes a value takes in either byte order.
-/

namespace Elegance

open CInt

inductive Endian where
  | fwBigEndian
  | fwLittleEndian
  deriving DecidableEq, Repr

/-- The `w` digits of a number to the base 256. -/
def Endian.digits : Endian → ℕ → ℕ → List Byte
  | .fwBigEndian, w, n => (leBytes w n).reverse
  | .fwLittleEndian, w, n => leBytes w n

/-- The number with these digits. -/
def Endian.number : Endian → List Byte → ℕ
  | .fwBigEndian, bs => leNat bs.reverse
  | .fwLittleEndian, bs => leNat bs

/-- What is read and written in one call; an object has a size. -/
inductive Kind where
  | int8 | uint8 | int16 | uint16 | int32 | uint32 | float | int64 | uint64 | double | string
  | object (size : ℕ)
  deriving DecidableEq, Repr

/-- The bytes a number takes. -/
def Kind.width : Kind → Option ℕ
  | .int8 | .uint8 => some 1
  | .int16 | .uint16 => some 2
  | .int32 | .uint32 | .float => some 4
  | .int64 | .uint64 | .double => some 8
  | .string | .object _ => none

inductive Value where
  | int8 (v : Int8)
  | uint8 (v : UInt8)
  | int16 (v : Int16)
  | uint16 (v : UInt16)
  | int32 (v : Int32)
  | uint32 (v : UInt32)
  | float (bits : UInt32)
  | int64 (v : Int64)
  | uint64 (v : UInt64)
  | double (bits : UInt64)
  | string (s : List Byte)
  | object (o : List Byte)
  deriving DecidableEq

namespace Value

def kind : Value → Kind
  | .int8 _ => .int8
  | .uint8 _ => .uint8
  | .int16 _ => .int16
  | .uint16 _ => .uint16
  | .int32 _ => .int32
  | .uint32 _ => .uint32
  | .float _ => .float
  | .int64 _ => .int64
  | .uint64 _ => .uint64
  | .double _ => .double
  | .string _ => .string
  | .object o => .object o.length

/-- The digits of a number, a string behind its length, an object as it is. -/
def encode (e : Endian) : Value → List Byte
  | .int8 v => e.digits 1 v.toUInt8.toNat
  | .uint8 v => e.digits 1 v.toNat
  | .int16 v => e.digits 2 v.toUInt16.toNat
  | .uint16 v => e.digits 2 v.toNat
  | .int32 v => e.digits 4 v.toUInt32.toNat
  | .uint32 v => e.digits 4 v.toNat
  | .float bits => e.digits 4 bits.toNat
  | .int64 v => e.digits 8 v.toUInt64.toNat
  | .uint64 v => e.digits 8 v.toNat
  | .double bits => e.digits 8 bits.toNat
  | .string s => e.digits 2 s.length ++ s
  | .object o => o

end Value

end Elegance
