import Elegance.MemoryPoolSizes
import Elegance.Lib.Decimal

/-!
# `MysqlConnector::FetchQueryResult`

A stored result has its rows one after the other, each field NULL or in memory with a NUL behind it.
The lengths are fetched once, when the first row is current. There is no result where memory that is
not there is read or written to, or `Alloc` throws. What is printed is left out.
-/

namespace Elegance

open CInt CDecimal

inductive MysqlType where
  | invalid
  | int8
  | int16
  | int32
  | int64
  | string
  | binaryData
  deriving DecidableEq, Repr

structure MysqlNodeDescribe where
  type : MysqlType := .invalid
  dataLength : ℤ := 0
  deriving DecidableEq, Repr

structure MysqlTableDescribe where
  nodeList : List MysqlNodeDescribe
  deriving DecidableEq, Repr

/-- A field that is not NULL, and what its memory goes on with behind the NUL. -/
structure MysqlField where
  text : List Byte
  behind : List Byte := []
  deriving DecidableEq, Repr

def MysqlField.memory (f : MysqlField) : List Byte := f.text ++ 0 :: f.behind

/-- A `MYSQL_ROW`, with `none` for a null pointer. -/
abbrev MysqlRow := List (Option MysqlField)

/-- What `mysql_store_result` returns. -/
structure MysqlRes where
  numFields : ℕ
  rows : List MysqlRow
  numFields_le : (numFields : ℤ) ≤ intMax
  length_row : ∀ row ∈ rows, row.length = numFields

/-- `mysql_fetch_lengths` while `row` is the current row. -/
def mysqlFetchLengths (row : MysqlRow) : List ℕ := row.map fun data => data.elim 0 (·.text.length)

/-- The union of a `MysqlNodeData`, by the member it was written to last; `data` with the bytes
written behind the pointer. -/
inductive MysqlUnion where
  | int8 (value : ℤ)
  | int16 (value : ℤ)
  | int32 (value : ℤ)
  | int64 (value : ℤ)
  | data (ptr : Addr) (bytes : List Byte)
  deriving DecidableEq, Repr

namespace MysqlUnion

/-- The integer member of a type; all of them are 0 after `int64 = 0`. -/
def readInt (u : MysqlUnion) (type : MysqlType) : Option ℤ :=
  if u = .int64 0 then some 0
  else
    match u, type with
    | .int8 value, .int8 => some value
    | .int16 value, .int16 => some value
    | .int32 value, .int32 => some value
    | .int64 value, .int64 => some value
    | _, _ => none

def bytes : MysqlUnion → List Byte
  | .data _ bytes => bytes
  | _ => []

end MysqlUnion

/-- As `Reset` leaves it, if nothing is said. -/
structure MysqlNodeData where
  value : MysqlUnion := .int64 0
  dataLength : ℕ := 0
  deriving DecidableEq, Repr

/-- The pool, and what `new` returns in each `Alloc` to come, if it is called there. -/
structure PoolUse where
  manager : MemoryPoolManager
  news : ℕ → Option Addr

namespace PoolUse

def alloc (size : ℤ) : StateT PoolUse Option Addr := fun p =>
  match p.manager.tryAlloc size (p.news 0) with
  | (none, _) => none
  | (some mem, manager) => some (mem, ⟨manager, fun k => p.news (k + 1)⟩)

def free (memory : Addr) (p : PoolUse) : PoolUse :=
  { p with manager := (p.manager.free memory).2 }

/-- The bytes from `mem` on lie in a chunk of the pool of the size. -/
def HasRoom (p : PoolUse) (size : ℤ) (mem : Addr) : Prop :=
  ∃ pool ∈ p.manager.memorySizeToPoolMap.find (MemoryPoolManager.fixSize size),
    ∃ c ∈ pool.realBufferPtrs, Span.Within ⟨mem, size.toNat⟩ ⟨c, pool.newLength.toNat⟩

instance (p : PoolUse) (size : ℤ) (mem : Addr) : Decidable (p.HasRoom size mem) :=
  inferInstanceAs (Decidable (∃ pool ∈ _, ∃ c ∈ MemoryPool.realBufferPtrs _, _ ≤ _ ∧ _ ≤ _))

end PoolUse

namespace MysqlNodeData

def changeDataLength (node : MysqlNodeData) (length : ℤ) : StateT PoolUse Option MysqlNodeData := do
  match node.value with
  | .data ptr _ => if 0 < node.dataLength ∧ ptr ≠ 0 then modify (PoolUse.free ptr)
  | _ => pure ()
  let dataLength := (length % 4294967296).toNat
  if dataLength = 0 then return ⟨.data 0 [], dataLength⟩
  else return ⟨.data (← PoolUse.alloc length) [], dataLength⟩

/-- `memcpy(node_data.data, data, copy_len)`. -/
def memcpy (node : MysqlNodeData) (data : Option MysqlField) (copyLen : ℤ) :
    StateT PoolUse Option MysqlNodeData := fun p =>
  match node.value, data with
  | .data ptr _, some field =>
    if p.HasRoom copyLen ptr ∧ copyLen ≤ field.memory.length then
      some ({ node with value := .data ptr (field.memory.take copyLen.toNat) }, p)
    else none
  | _, _ => none

end MysqlNodeData

namespace MysqlConnector

/-- `*data`, a `char`. -/
def charOf (memory : List Byte) : ℤ := Int.bmod (memory.headD 0).toNat 256

/-- One of the integers is written, if the length is positive. -/
def setInt (node : MysqlNodeData) (data : Option MysqlField) (dataLength : ℤ)
    (member : List Byte → MysqlUnion) : StateT PoolUse Option MysqlNodeData :=
  if 0 < dataLength then do
    let field ← StateT.lift data
    return { node with value := member field.memory }
  else return node

def mallocAndSetNodeData (node : MysqlNodeData) (describe : MysqlNodeDescribe)
    (data : Option MysqlField) (dataLength : ℤ) : StateT PoolUse Option MysqlNodeData :=
  match describe.type with
  | .int8 => setInt node data dataLength fun memory => .int8 (charOf memory)
  | .int16 => setInt node data dataLength fun memory => .int16 (wrap16 (atoi memory))
  | .int32 => setInt node data dataLength fun memory => .int32 (atoi memory)
  | .int64 => setInt node data dataLength fun memory => .int64 (atoll memory)
  | .string | .binaryData => do
    let copyLen := if dataLength ≥ describe.dataLength then describe.dataLength else dataLength
    if 0 < copyLen then
      let node ← node.changeDataLength copyLen
      node.memcpy data copyLen
    else return node
  | .invalid => return node

/-- The arrays the inner loop goes through, side by side. -/
def fields (describe : MysqlTableDescribe) (lengthList : List ℕ) (sqlRow : MysqlRow) :
    List ((MysqlNodeDescribe × Option MysqlField) × ℕ) :=
  (describe.nodeList.zip sqlRow).zip lengthList

/-- The nodes of one row; `unsigned long` lengths are passed as `int`s. -/
def fetchRow (describe : MysqlTableDescribe) (lengthList : List ℕ) (sqlRow : MysqlRow) :
    StateT PoolUse Option (List MysqlNodeData) :=
  (fields describe lengthList sqlRow).mapM fun ((node, data), length) =>
    mallocAndSetNodeData {} node data (wrap32 length)

/-- What is returned, with `query_result.row_list`. -/
def fetchQueryResult (rowList : List (List MysqlNodeData)) (describe : MysqlTableDescribe)
    (mysqlResult : Option MysqlRes) : StateT PoolUse Option (Bool × List (List MysqlNodeData)) :=
  match mysqlResult with
  | none => return (false, rowList)
  | some res =>
    if wrap32 describe.nodeList.length < res.numFields then return (false, rowList)
    else do
      let lengthList := mysqlFetchLengths (res.rows.headD [])
      let rows ← res.rows.mapM (fetchRow describe lengthList)
      return (true, rowList ++ rows)

/-- The values an integer type has; the other types have none. -/
def InRange (type : MysqlType) (v : ℤ) : Prop :=
  match type with
  | .int8 => -128 ≤ v ∧ v ≤ 127
  | .int16 => shrtMin ≤ v ∧ v ≤ shrtMax
  | .int32 => intMin ≤ v ∧ v ≤ intMax
  | .int64 => llongMin ≤ v ∧ v ≤ llongMax
  | _ => False

/-- The node holds the field: the value its text denotes, or its first bytes. -/
def Holds (describe : MysqlNodeDescribe) (field : MysqlField) (node : MysqlNodeData) : Prop :=
  match describe.type with
  | .int8 | .int16 | .int32 | .int64 =>
    ∀ v, textValue field.text = some v → InRange describe.type v →
      node.value.readInt describe.type = some v
  | .string | .binaryData =>
    let n := (min (field.text.length : ℤ) describe.dataLength).toNat
    node.dataLength = n ∧ node.value.bytes = field.text.take n
  | .invalid => True

/-- There is a node for each field of the row, which holds the field unless that is NULL. -/
def RowHolds (describe : MysqlTableDescribe) (sqlRow : MysqlRow) (nodes : List MysqlNodeData) :
    Prop :=
  List.Forall₂ (fun (d, data) node => ∀ field ∈ data, Holds d field node)
    (describe.nodeList.zip sqlRow) nodes

/-- A row is added for each row of the result, in order. -/
def Right (rowList : List (List MysqlNodeData)) (describe : MysqlTableDescribe) (res : MysqlRes)
    (pool : PoolUse) : Prop :=
  ∃ rows pool', fetchQueryResult rowList describe (some res) pool =
      some ((true, rowList ++ rows), pool') ∧
    List.Forall₂ (RowHolds describe) res.rows rows

/-- What the node needs of a field, where `length` is the one of the first row's field: that the
length decides nothing, and of an `INT8` that its first character has the code it denotes. -/
def Suits (describe : MysqlNodeDescribe) (data : Option MysqlField) (length : ℤ) : Prop :=
  match describe.type, data with
  | .invalid, _ => True
  | .string, none | .binaryData, none => min length describe.dataLength ≤ 0
  | .string, some field | .binaryData, some field =>
    (min length describe.dataLength).toNat =
      (min (field.text.length : ℤ) describe.dataLength).toNat
  | _, none => length ≤ 0
  | .int8, some field =>
    ∀ v, textValue field.text = some v → InRange .int8 v →
      if 0 < length then field.text = [53, 51] ∨ field.text.head? = some 48 ∧ v = 48 else v = 0
  | type, some field =>
    0 < length ∨ ∀ v, textValue field.text = some v → InRange type v → v = 0

/-- `Alloc` returns memory for as many bytes. -/
def takeRoom (pool : PoolUse) (size : ℤ) : Option PoolUse := do
  let (mem, pool') ← PoolUse.alloc size pool
  if pool'.HasRoom size mem then some pool' else none

/-- The memory one field takes of the pool. -/
def fieldRoom (pool : PoolUse) (describe : MysqlNodeDescribe) (length : ℤ) : Option PoolUse :=
  match describe.type with
  | .string | .binaryData =>
    if 0 < min length describe.dataLength then takeRoom pool (min length describe.dataLength)
    else some pool
  | _ => some pool

/-- The memory all rows take of the pool. -/
def resultRoom (describe : MysqlTableDescribe) (res : MysqlRes) (pool : PoolUse) : Option PoolUse :=
  res.rows.foldlM (fun pool row =>
    (fields describe (mysqlFetchLengths (res.rows.headD [])) row).foldlM
      (fun pool ((node, _), length) => fieldRoom pool node (wrap32 length)) pool) pool

/-- The describe has enough nodes as an `int`, the fields suit the lengths of the first row, and the
pool has room for what is copied. -/
structure SuitsResult (describe : MysqlTableDescribe) (res : MysqlRes) (pool : PoolUse) : Prop where
  nodes : (res.numFields : ℤ) ≤ wrap32 describe.nodeList.length
  fields : ∀ row ∈ res.rows, ∀ c ∈ fields describe (mysqlFetchLengths (res.rows.headD [])) row,
    Suits c.1.1 c.1.2 (wrap32 c.2)
  room : (resultRoom describe res pool).isSome

end MysqlConnector

end Elegance
