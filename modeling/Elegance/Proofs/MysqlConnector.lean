import Elegance.MysqlConnector
import Elegance.Lib.Loop
import Elegance.Proofs.MemoryPoolSizes

/-!
# What `FetchQueryResult` decodes

One field is decoded with the length of the first row's field (`holds_iff`), so that two loops of
such steps are right exactly on what suits those lengths (`right_iff_suitsResult`). An `INT8` gets
the first character of its text, which two kinds of text denote (`charOf_eq_iff`).
-/

namespace Elegance

open CInt CDecimal Loop

namespace MysqlConnector

section Digits

theorem charOf_cons {b : Byte} (h : b.toNat < 128) (memory : List Byte) :
    charOf (b :: memory) = b.toNat := by
  show Int.bmod (b.toNat : ℤ) 256 = b.toNat
  exact Int.bmod_eq_of_le (by omega) (by omega)

/-- The only texts whose first character has the code they denote are `53`, and `48` with zeroes
before it. -/
theorem charOf_eq_iff {text : List Byte} {v : ℤ} (h : textValue text = some v)
    (behind : List Byte) : charOf (text ++ 0 :: behind) = v ↔
      text = [53, 51] ∨ text.head? = some 48 ∧ v = 48 := by
  rcases textValue_cases h with ⟨ds, rfl, -, rfl⟩ | ⟨hdigits, rfl⟩
  · have hchar : charOf (minus :: ds ++ 0 :: behind) = 45 := charOf_cons (by decide) _
    have hhead : ¬ (minus :: ds).head? = some 48 := by
      rw [List.head?_cons]
      decide
    have hne : minus :: ds ≠ [53, 51] := fun heq => absurd (List.cons.inj heq).1 (by decide)
    rw [hchar]
    refine ⟨fun heq => by omega, fun hor => ?_⟩
    exact absurd (hor.resolve_left hne).1 hhead
  · obtain ⟨b, ds, rfl⟩ := List.exists_cons_of_ne_nil hdigits.1
    obtain ⟨hlo, hhi⟩ := isDigit_bounds (hdigits.2 b List.mem_cons_self)
    have hchar : charOf (b :: ds ++ 0 :: behind) = b.toNat := charOf_cons (by omega) _
    rw [hchar]
    constructor
    · intro heq
      by_cases hzero : b = 48
      · subst hzero
        exact .inr ⟨rfl, heq.symm⟩
      have hb : 49 ≤ b.toNat := by
        by_contra hlt
        exact hzero (UInt8.toNat_inj.1 (by change b.toNat = 48; omega))
      left
      rw [digitsValue_cons] at heq
      rcases ds with _ | ⟨c, _ | ⟨c', ds⟩⟩
      · simp [digitsValue] at heq
        omega
      · obtain ⟨hlo', hhi'⟩ := isDigit_bounds (hdigits.2 c (by simp))
        simp [digitsValue] at heq
        obtain ⟨hb53, hc51⟩ : b.toNat = 53 ∧ c.toNat = 51 := by omega
        obtain rfl : b = 53 := UInt8.toNat_inj.1 hb53
        obtain rfl : c = 51 := UInt8.toNat_inj.1 hc51
        rfl
      · have hpow : 100 ≤ 10 ^ (c :: c' :: ds).length := by
          rw [List.length_cons, List.length_cons, pow_succ, pow_succ]
          have := Nat.one_le_pow ds.length 10 (by decide)
          omega
        have hmul := Nat.mul_le_mul_left (b.toNat - 48) hpow
        omega
    · rintro (heq | ⟨hhead, hv⟩)
      · obtain ⟨rfl, rfl⟩ := List.cons.inj heq
        decide
      · obtain rfl : b = 48 := Option.some.inj hhead
        exact hv.symm

end Digits

section Fields

variable {describe : MysqlNodeDescribe} {data : Option MysqlField} {field : MysqlField}
  {node : MysqlNodeData} {pool pool' : PoolUse} {length : ℤ} {v : ℤ}

theorem takeRoom_eq_some {size : ℤ} : takeRoom pool size = some pool' ↔
    ∃ mem, PoolUse.alloc size pool = some (mem, pool') ∧ pool'.HasRoom size mem := by
  unfold takeRoom
  rcases PoolUse.alloc size pool with _ | ⟨mem, q⟩
  · simp
  · show (if q.HasRoom size mem then some q else none) = some pool' ↔ _
    rw [Option.ite_none_right_eq_some, Option.some_inj]
    constructor
    · rintro ⟨hroom, rfl⟩
      exact ⟨mem, rfl, hroom⟩
    · rintro ⟨mem', halloc, hroom⟩
      obtain ⟨rfl, rfl⟩ := Prod.mk.inj (Option.some.inj halloc)
      exact ⟨hroom, rfl⟩

section Ints

theorem readInt_zero (type : MysqlType) : MysqlUnion.readInt (.int64 0) type = some 0 := if_pos rfl

variable {member : List Byte → MysqlUnion}

theorem setInt_eq : setInt {} data length member pool =
    if 0 < length then data.map fun field => ({ value := member field.memory }, pool)
    else some ({}, pool) := by
  unfold setInt
  split_ifs
  · cases data <;> rfl
  · rfl

theorem setInt_pool (member : List Byte → MysqlUnion)
    (h : setInt {} data length member pool = some (node, pool')) :
    some pool = some pool' := by
  rw [setInt_eq] at h
  split_ifs at h
  · obtain ⟨field, -, heq⟩ := Option.map_eq_some_iff.1 h
    rw [(Prod.mk.inj heq).2]
  · rw [(Prod.mk.inj (Option.some.inj h)).2]

theorem readInt_int16 (h : textValue field.text = some v) (hrange : InRange .int16 v) :
    (MysqlUnion.int16 (wrap16 (atoi field.memory))).readInt .int16 = some v := by
  have hint : intMin ≤ v ∧ v ≤ intMax :=
    ⟨le_trans (by decide) hrange.1, hrange.2.trans (by decide)⟩
  rw [MysqlField.memory, atoi_of_textValue h hint.1 hint.2, wrap16_of_range hrange.1 hrange.2]
  rfl

theorem readInt_int32 (h : textValue field.text = some v) (hrange : InRange .int32 v) :
    (MysqlUnion.int32 (atoi field.memory)).readInt .int32 = some v := by
  rw [MysqlField.memory, atoi_of_textValue h hrange.1 hrange.2]
  rfl

theorem readInt_int64 (h : textValue field.text = some v) (hrange : InRange .int64 v) :
    (MysqlUnion.int64 (atoll field.memory)).readInt .int64 = some v := by
  rw [MysqlField.memory, atoll_of_textValue h hrange.1 hrange.2]
  by_cases hzero : v = 0
  · rw [hzero, readInt_zero]
  · exact if_neg fun heq => hzero (MysqlUnion.int64.inj heq)

/-- An integer is decoded from a field that is there, or keeps its 0. -/
theorem setInt_holds_iff (P : MysqlField → MysqlNodeData → Prop) :
    (∃ node pool', setInt {} data length member pool = some (node, pool') ∧
        ∀ field ∈ data, P field node) ↔
      match data with
      | none => length ≤ 0
      | some field => P field (if 0 < length then { value := member field.memory } else {}) := by
  simp only [setInt_eq]
  rcases data with _ | field
  · split_ifs with hpos
    · simpa using hpos
    · simpa using hpos
  · split_ifs with hpos
    · simp
    · simp

/-- The wider integers are right where they are decoded, and where the 0 they keep is the value. -/
theorem setInt_wide_iff (member : List Byte → MysqlUnion) {type : MysqlType}
    (hread : ∀ (field : MysqlField) (v : ℤ), textValue field.text = some v → InRange type v →
        (member field.memory).readInt type = some v) :
    (∃ node pool', setInt {} data length member pool = some (node, pool') ∧ ∀ field ∈ data,
        ∀ v, textValue field.text = some v → InRange type v → node.value.readInt type = some v) ↔
      match data with
      | none => length ≤ 0
      | some field => 0 < length ∨ ∀ v, textValue field.text = some v → InRange type v → v = 0 := by
  rw [setInt_holds_iff fun field node => ∀ v, textValue field.text = some v → InRange type v →
    node.value.readInt type = some v]
  rcases data with _ | field
  · rfl
  dsimp only
  split_ifs with hpos
  · exact ⟨fun _ => .inl hpos, fun _ => hread field⟩
  · simp only [readInt_zero, Option.some_inj, eq_comm, hpos, false_or]

/-- An `INT8` is right where its first character has the code it denotes. -/
theorem setInt_int8_iff :
    (∃ node pool', setInt {} data length (fun memory => .int8 (charOf memory)) pool =
        some (node, pool') ∧ ∀ field ∈ data, ∀ v, textValue field.text = some v →
          InRange .int8 v → node.value.readInt .int8 = some v) ↔
      match data with
      | none => length ≤ 0
      | some field => ∀ v, textValue field.text = some v → InRange .int8 v →
        if 0 < length then field.text = [53, 51] ∨ field.text.head? = some 48 ∧ v = 48
        else v = 0 := by
  rw [setInt_holds_iff fun field node => ∀ v, textValue field.text = some v → InRange .int8 v →
    node.value.readInt .int8 = some v]
  rcases data with _ | field
  · rfl
  dsimp only
  refine forall_congr' fun v => forall_congr' fun hv => forall_congr' fun _ => ?_
  split_ifs with hpos
  · exact Option.some_inj.trans (charOf_eq_iff hv field.behind)
  · rw [readInt_zero, Option.some_inj, eq_comm]

end Ints

section Bytes

theorem changeDataLength_eq {copyLen : ℤ} (hpos : 0 < copyLen) (hle : copyLen ≤ intMax) :
    MysqlNodeData.changeDataLength {} copyLen pool =
      (PoolUse.alloc copyLen pool).map fun (mem, p) => (⟨.data mem [], copyLen.toNat⟩, p) := by
  have hlen : (copyLen % 4294967296).toNat = copyLen.toNat := by
    rw [intMax] at hle
    rw [Int.emod_eq_of_lt hpos.le (by omega)]
  have hne : copyLen.toNat ≠ 0 := by omega
  unfold MysqlNodeData.changeDataLength
  rw [hlen, if_neg hne]
  show (PoolUse.alloc copyLen pool >>= fun (mem, p) => some (_, p)) = _
  cases PoolUse.alloc copyLen pool <;> rfl

/-- The bytes are copied from a field that has them, to memory that has room for them. -/
theorem copy_eq_some {copyLen : ℤ} (hpos : 0 < copyLen) (hle : copyLen ≤ intMax) :
    (MysqlNodeData.changeDataLength {} copyLen >>= fun node => node.memcpy data copyLen) pool =
        some (node, pool') ↔
      ∃ field mem, data = some field ∧ copyLen ≤ field.memory.length ∧
        PoolUse.alloc copyLen pool = some (mem, pool') ∧ pool'.HasRoom copyLen mem ∧
        node = ⟨.data mem (field.memory.take copyLen.toNat), copyLen.toNat⟩ := by
  show (MysqlNodeData.changeDataLength {} copyLen pool >>= fun (node, p) =>
    node.memcpy data copyLen p) = _ ↔ _
  rw [changeDataLength_eq hpos hle]
  rcases PoolUse.alloc copyLen pool with _ | ⟨mem, q⟩
  · simp
  rcases data with _ | field
  · simp [MysqlNodeData.memcpy]
  show (if q.HasRoom copyLen mem ∧ copyLen ≤ field.memory.length then
    some (_, q) else none) = _ ↔ _
  rw [Option.ite_none_right_eq_some, Option.some_inj, Prod.mk.injEq]
  constructor
  · rintro ⟨⟨hroom, hlen⟩, rfl, rfl⟩
    exact ⟨field, mem, rfl, hlen, rfl, hroom, rfl⟩
  · rintro ⟨field', mem', hdata, hlen, halloc, hroom, rfl⟩
    obtain rfl := Option.some.inj hdata
    obtain ⟨rfl, rfl⟩ := Prod.mk.inj (Option.some.inj halloc)
    exact ⟨⟨hroom, hlen⟩, rfl, rfl⟩

end Bytes

/-- As many bytes of a `STRING` or `BINARY_DATA` are copied as both lengths allow. -/
theorem mallocAndSetNodeData_bytes
    (h : describe.type = .string ∨ describe.type = .binaryData) :
    mallocAndSetNodeData {} describe data length =
      if 0 < min length describe.dataLength then
        MysqlNodeData.changeDataLength {} (min length describe.dataLength) >>=
          fun node => node.memcpy data (min length describe.dataLength)
      else pure {} := by
  have hmin : (if length ≥ describe.dataLength then describe.dataLength else length) =
      min length describe.dataLength := by
    rw [min_comm, min_def]
  unfold mallocAndSetNodeData
  rcases h with h | h <;> rw [h, ← hmin]

theorem take_memory {n : ℕ} (h : n ≤ field.text.length) :
    field.memory.take n = field.text.take n :=
  List.take_append_of_le_length h

/-- The bytes are right where as many are copied as there are of the field itself. -/
theorem copy_holds_iff {copyLen dataLength : ℤ} (hcopy : min length dataLength = copyLen)
    (hle : length ≤ intMax) :
    (∃ node pool', (if 0 < copyLen then MysqlNodeData.changeDataLength {} copyLen >>=
        fun node => node.memcpy data copyLen else pure {} : StateT PoolUse Option MysqlNodeData)
          pool = some (node, pool') ∧
        ∀ field ∈ data, node.dataLength = (min (field.text.length : ℤ) dataLength).toNat ∧
          node.value.bytes = field.text.take (min (field.text.length : ℤ) dataLength).toNat) ↔
      (match data with
        | none => copyLen ≤ 0
        | some field => copyLen.toNat = (min (field.text.length : ℤ) dataLength).toNat) ∧
      (if 0 < copyLen then takeRoom pool copyLen else some pool).isSome := by
  have hmax : copyLen ≤ intMax := hcopy ▸ (min_le_left _ _).trans hle
  split_ifs with hpos
  · simp only [copy_eq_some hpos hmax, Option.isSome_iff_exists, takeRoom_eq_some]
    constructor
    · rintro ⟨node, pool', ⟨field, mem, rfl, hlen, halloc, hroom, rfl⟩, hholds⟩
      exact ⟨(hholds field rfl).1, pool', mem, halloc, hroom⟩
    · rintro ⟨hsuits, pool', mem, halloc, hroom⟩
      rcases data with _ | field
      · exact absurd hpos (not_lt.2 hsuits)
      dsimp only at hsuits
      have hn : copyLen.toNat ≤ field.text.length := by omega
      have hlen : copyLen ≤ field.memory.length := by
        rw [MysqlField.memory, List.length_append, List.length_cons]
        omega
      refine ⟨_, pool', ⟨field, mem, rfl, hlen, halloc, hroom, rfl⟩, ?_⟩
      rintro _ ⟨⟩
      exact ⟨hsuits, by rw [← hsuits, ← take_memory hn]; rfl⟩
  · have hzero : copyLen.toNat = 0 := by omega
    constructor
    · rintro ⟨node, pool', hrun, hholds⟩
      obtain ⟨rfl, -⟩ := Prod.mk.inj (Option.some.inj hrun)
      rcases data with _ | field
      · exact ⟨not_lt.1 hpos, rfl⟩
      · exact ⟨hzero.trans (hholds field rfl).1, rfl⟩
    · rintro ⟨hsuits, -⟩
      refine ⟨{}, pool, rfl, ?_⟩
      rintro field ⟨⟩
      rw [← hsuits, hzero]
      exact ⟨rfl, rfl⟩

/-- A field is decoded right exactly where it suits the length it is decoded with, and the pool has
room for it. -/
theorem holds_iff (describe : MysqlNodeDescribe) (data : Option MysqlField) (pool : PoolUse)
    (hle : length ≤ intMax) :
    (∃ node pool', mallocAndSetNodeData {} describe data length pool = some (node, pool') ∧
        ∀ field ∈ data, Holds describe field node) ↔
      Suits describe data length ∧ (fieldRoom pool describe length).isSome := by
  obtain ⟨type, dataLength⟩ := describe
  cases type with
  | invalid =>
    exact ⟨fun _ => ⟨by cases data <;> trivial, rfl⟩, fun _ => ⟨{}, pool, rfl, fun _ _ => trivial⟩⟩
  | int8 => cases data <;> exact setInt_int8_iff.trans (and_iff_left rfl).symm
  | int16 =>
    cases data <;> exact (setInt_wide_iff (fun memory => .int16 (wrap16 (atoi memory)))
      fun _ _ => readInt_int16).trans (and_iff_left rfl).symm
  | int32 =>
    cases data <;> exact (setInt_wide_iff (fun memory => .int32 (atoi memory))
      fun _ _ => readInt_int32).trans (and_iff_left rfl).symm
  | int64 =>
    cases data <;> exact (setInt_wide_iff (fun memory => .int64 (atoll memory))
      fun _ _ => readInt_int64).trans (and_iff_left rfl).symm
  | string =>
    rw [mallocAndSetNodeData_bytes (.inl rfl)]
    cases data <;> exact copy_holds_iff rfl hle
  | binaryData =>
    rw [mallocAndSetNodeData_bytes (.inr rfl)]
    cases data <;> exact copy_holds_iff rfl hle

/-- What the pool gives for a field does not depend on the field. -/
theorem fieldRoom_eq (hle : length ≤ intMax)
    (h : mallocAndSetNodeData {} describe data length pool = some (node, pool')) :
    fieldRoom pool describe length = some pool' := by
  obtain ⟨type, dataLength⟩ := describe
  have hbytes : type = .string ∨ type = .binaryData →
      (if 0 < min length dataLength then takeRoom pool (min length dataLength) else some pool) =
        some pool' := by
    intro htype
    rw [mallocAndSetNodeData_bytes htype] at h
    dsimp only at h
    split_ifs at h ⊢ with hpos
    · obtain ⟨-, mem, -, -, halloc, hroom, -⟩ :=
        (copy_eq_some hpos ((min_le_left _ _).trans hle)).1 h
      exact takeRoom_eq_some.2 ⟨mem, halloc, hroom⟩
    · rw [(Prod.mk.inj (Option.some.inj h)).2]
  cases type with
  | invalid => exact congrArg some (Prod.mk.inj (Option.some.inj h)).2
  | int8 => exact setInt_pool (fun memory => .int8 (charOf memory)) h
  | int16 => exact setInt_pool (fun memory => .int16 (wrap16 (atoi memory))) h
  | int32 => exact setInt_pool (fun memory => .int32 (atoi memory)) h
  | int64 => exact setInt_pool (fun memory => .int64 (atoll memory)) h
  | string => exact hbytes (.inl rfl)
  | binaryData => exact hbytes (.inr rfl)

end Fields

section Rows

variable {describe : MysqlTableDescribe} {res : MysqlRes}

/-- One step of the inner loop. -/
theorem exactly_field : Exactly
    (fun c : (MysqlNodeDescribe × Option MysqlField) × ℕ =>
      mallocAndSetNodeData {} c.1.1 c.1.2 (wrap32 c.2))
    (fun pool c => fieldRoom pool c.1.1 (wrap32 c.2))
    (fun c => Suits c.1.1 c.1.2 (wrap32 c.2))
    (fun c node => ∀ field ∈ c.1.2, Holds c.1.1 field node) where
  next_eq h := fieldRoom_eq (wrap32_bounds _).2 h
  right_iff pool c := holds_iff c.1.1 c.1.2 pool (wrap32_bounds _).2

/-- One step of the outer loop, where every row has the length of the first. -/
theorem exactly_row (describe : MysqlTableDescribe) (lengthList : List ℕ) : Exactly
    (fetchRow describe lengthList)
    (fun pool row => (fields describe lengthList row).foldlM
      (fun pool c => fieldRoom pool c.1.1 (wrap32 c.2)) pool)
    (fun row => ∀ c ∈ fields describe lengthList row, Suits c.1.1 c.1.2 (wrap32 c.2))
    (fun row nodes => List.Forall₂ (fun c node => ∀ field ∈ c.1.2, Holds c.1.1 field node)
      (fields describe lengthList row) nodes) :=
  exactly_field.mapM.comap (fields describe lengthList)

/-- The lengths do not matter to what a row should be. -/
theorem rowHolds_iff {lengthList : List ℕ} {row : MysqlRow} {nodes : List MysqlNodeData}
    (h : row.length = lengthList.length) :
    List.Forall₂ (fun c node => ∀ field ∈ c.1.2, Holds c.1.1 field node)
      (fields describe lengthList row) nodes ↔ RowHolds describe row nodes := by
  have hfst : (fields describe lengthList row).map Prod.fst = describe.nodeList.zip row := by
    refine List.map_fst_zip ?_
    rw [List.length_zip]
    exact (min_le_right _ _).trans h.le
  rw [RowHolds, ← hfst, List.forall₂_map_left_iff]

theorem length_mysqlFetchLengths {row : MysqlRow} (h : row ∈ res.rows) :
    row.length = (mysqlFetchLengths (res.rows.headD [])).length := by
  obtain ⟨first, rest, hrows⟩ := List.exists_cons_of_ne_nil (List.ne_nil_of_mem h)
  have hfirst : first ∈ res.rows := hrows ▸ List.mem_cons_self
  rw [mysqlFetchLengths, List.length_map, res.length_row row h, hrows, List.headD_cons,
    res.length_row first hfirst]

/-- Where the describe has enough nodes, the rows are the ones of the outer loop. -/
theorem fetchQueryResult_eq (rowList : List (List MysqlNodeData)) (pool : PoolUse)
    (h : (res.numFields : ℤ) ≤ wrap32 describe.nodeList.length) :
    fetchQueryResult rowList describe (some res) pool =
      (res.rows.mapM (fetchRow describe (mysqlFetchLengths (res.rows.headD []))) pool).map
        fun (rows, pool') => ((true, rowList ++ rows), pool') := by
  unfold fetchQueryResult
  dsimp only
  rw [if_neg (not_lt.2 h)]
  show (res.rows.mapM (fetchRow describe (mysqlFetchLengths (res.rows.headD []))) pool >>=
    fun (rows, pool') => some ((true, rowList ++ rows), pool')) = _
  cases res.rows.mapM (fetchRow describe (mysqlFetchLengths (res.rows.headD []))) pool <;> rfl

theorem forall₂_rowHolds_iff {rows : List (List MysqlNodeData)} :
    List.Forall₂ (fun row nodes => List.Forall₂
        (fun c node => ∀ field ∈ c.1.2, Holds c.1.1 field node)
        (fields describe (mysqlFetchLengths (res.rows.headD [])) row) nodes) res.rows rows ↔
      List.Forall₂ (RowHolds describe) res.rows rows := by
  have hlen : ∀ row ∈ res.rows, row.length =
      (mysqlFetchLengths (res.rows.headD [])).length := fun _ => length_mysqlFetchLengths
  constructor
  · intro h
    exact ((List.forall₂_and_left _ _).2 ⟨hlen, h⟩).imp fun _ _ h => (rowHolds_iff h.1).1 h.2
  · intro h
    exact ((List.forall₂_and_left _ _).2 ⟨hlen, h⟩).imp fun _ _ h => (rowHolds_iff h.1).2 h.2

/-- The rows are decoded right exactly where they suit the lengths of the first one. -/
theorem right_iff_suitsResult (rowList : List (List MysqlNodeData))
    (describe : MysqlTableDescribe) (res : MysqlRes) (pool : PoolUse) :
    Right rowList describe res pool ↔ SuitsResult describe res pool := by
  by_cases hnodes : (res.numFields : ℤ) ≤ wrap32 describe.nodeList.length
  · have hloop := (exactly_row describe (mysqlFetchLengths (res.rows.headD []))).mapM_right_iff
      pool res.rows
    have hsuits : SuitsResult describe res pool ↔
        (∀ row ∈ res.rows, ∀ c ∈ fields describe (mysqlFetchLengths (res.rows.headD [])) row,
          Suits c.1.1 c.1.2 (wrap32 c.2)) ∧ (resultRoom describe res pool).isSome :=
      ⟨fun h => ⟨h.fields, h.room⟩, fun h => ⟨hnodes, h.1, h.2⟩⟩
    rw [hsuits]
    refine Iff.trans ?_ hloop
    unfold Right
    rw [fetchQueryResult_eq rowList pool hnodes]
    constructor
    · rintro ⟨rows, pool', hrun, hholds⟩
      obtain ⟨⟨rows', q⟩, hmap, heq⟩ := Option.map_eq_some_iff.1 hrun
      obtain ⟨hrows, rfl⟩ := Prod.mk.inj heq
      obtain rfl : rows' = rows := List.append_cancel_left (Prod.mk.inj hrows).2
      exact ⟨rows', q, hmap, forall₂_rowHolds_iff.2 hholds⟩
    · rintro ⟨rows, pool', hmap, hholds⟩
      refine ⟨rows, pool', ?_, forall₂_rowHolds_iff.1 hholds⟩
      rw [hmap]
      rfl
  · refine ⟨fun ⟨rows, pool', hrun, _⟩ => ?_, fun h => absurd h.nodes hnodes⟩
    unfold fetchQueryResult at hrun
    dsimp only at hrun
    rw [if_pos (not_le.1 hnodes)] at hrun
    cases hrun

/-- What is added is what a right result holds. -/
theorem Right.rowHolds {rowList : List (List MysqlNodeData)} {pool : PoolUse}
    (h : Right rowList describe res pool) (rows : List (List MysqlNodeData))
    (hfetch : (fetchQueryResult rowList describe (some res) pool).map Prod.fst =
      some (true, rowList ++ rows)) : List.Forall₂ (RowHolds describe) res.rows rows := by
  obtain ⟨rows', pool', hrun, hholds⟩ := h
  rw [hrun] at hfetch
  obtain ⟨-, hrows⟩ := Prod.mk.inj (Option.some.inj hfetch)
  obtain rfl : rows' = rows := List.append_cancel_left hrows
  exact hholds

/-- An `INT8` that is 5 is decoded to 53, and of a second row's `c` two bytes are copied, because
the first row has `ab`. -/
theorem not_right_digit :
    ¬ Right [] ⟨[⟨.int8, 1⟩]⟩ ⟨1, [[some { text := [53] }]], by decide, by decide⟩
        ⟨{}, fun _ => some 4096⟩ ∧
      ¬ Right [] ⟨[⟨.string, 255⟩]⟩
        ⟨1, [[some { text := [97, 98] }], [some { text := [99] }]], by decide, by decide⟩
        ⟨{}, fun _ => some 4096⟩ := by
  constructor
  · intro h
    have hrows := h.rowHolds [[⟨.int8 53, 0⟩]] (by decide)
    have hnode := (List.forall₂_cons.1 (List.forall₂_cons.1 hrows).1).1 _ rfl
    have hvalue : textValue [53] = some 5 := by
      simp [textValue, IsDigits, isDigit, digitsValue, minus]
    exact absurd (hnode 5 hvalue ⟨by simp, by simp⟩) (by decide)
  · intro h
    have hrows := h.rowHolds [[⟨.data 4168 [97, 98], 2⟩], [⟨.data 4160 [99, 0], 2⟩]] (by decide)
    have hnode := (List.forall₂_cons.1 (List.forall₂_cons.1
      (List.forall₂_cons.1 hrows).2).1).1 _ rfl
    exact absurd hnode.1 (by decide)

end Rows

section Room

open MemoryPoolManager Machine

variable {pool : PoolUse} {length : ℤ}

/-- The buffers of every size that can be cut have room, and `new` never fails. -/
structure Stocked (pool : PoolUse) : Prop where
  kept : ∀ fix, GoodSize fix → Kept fix pool.manager
  news : ∀ k, (pool.news k).isSome

/-- Whatever was allocated and freed before. -/
theorem stocked_exec (calls : List Call) {news : ℕ → Option Addr} (hnews : ∀ k, (news k).isSome) :
    Stocked ⟨exec step {} calls, news⟩ where
  kept fix hfix :=
    invariant (I := Kept fix) (P := fun _ _ => True) (fun _ c h _ => kept_step hfix h c)
      (kept_start fix) (along_of_forall (fun _ _ => trivial) _ calls)
  news := hnews

theorem Stocked.exists_takeRoom {size : ℤ} (h : Stocked pool) (hpos : 0 < size)
    (hle : size ≤ intMax)
    (hten : memoryPoolDefaultIncreaseAllocNum * roundSize size ≤ intMax) :
    ∃ pool', takeRoom pool size = some pool' ∧ Stocked pool' := by
  obtain ⟨hfix, hgood⟩ := SizeFits.good (.inl hten) hpos hle
  obtain ⟨base, hbase⟩ := Option.isSome_iff_exists.1 (h.news 0)
  have hkept := h.kept _ hgood
  obtain ⟨mem, hmem⟩ := Option.isSome_iff_exists.1 (hkept.tryAlloc_isSome hpos hle hten base)
  obtain ⟨p, hfind, hroom⟩ := hkept.placed hgood hfix (some base) mem hmem
  obtain ⟨manager, hpair⟩ : ∃ manager, pool.manager.tryAlloc size (some base) =
      (some mem, manager) := ⟨_, Prod.ext hmem rfl⟩
  rw [hpair] at hfind
  refine ⟨⟨manager, fun k => pool.news (k + 1)⟩, takeRoom_eq_some.2 ⟨mem, ?_, p, hfind, hroom⟩,
    ?_, fun k => h.news (k + 1)⟩
  · unfold PoolUse.alloc
    rw [hbase, hpair]
  · intro fix hfix
    have hstep := kept_step hfix (h.kept fix hfix) (.alloc size (some base))
    rwa [step, hpair] at hstep

theorem roundSize_le_roundSize {a b : ℤ} (h : a ≤ b) : roundSize a ≤ roundSize b := by
  rw [roundSize, roundSize, sizeofLong]
  omega

theorem Stocked.exists_fieldRoom {node : MysqlNodeDescribe}
    (h : Stocked pool) (hle : length ≤ intMax)
    (hten : memoryPoolDefaultIncreaseAllocNum * roundSize node.dataLength ≤
      intMax) : ∃ pool', fieldRoom pool node length = some pool' ∧ Stocked pool' := by
  obtain ⟨type, dataLength⟩ := node
  have hbytes : ∃ pool', (if 0 < min length dataLength then
      takeRoom pool (min length dataLength) else some pool) = some pool' ∧ Stocked pool' := by
    split_ifs with hpos
    · refine h.exists_takeRoom hpos ((min_le_left _ _).trans hle) (le_trans ?_ hten)
      exact mul_le_mul_of_nonneg_left (roundSize_le_roundSize (min_le_right _ _)) (by decide)
    · exact ⟨pool, rfl, h⟩
  cases type with
  | string | binaryData => exact hbytes
  | invalid | int8 | int16 | int32 | int64 => exact ⟨pool, rfl, h⟩

/-- Lengths of which ten have room in an `int` ask nothing of a pool whose `new` never fails. -/
theorem Stocked.isSome_resultRoom {describe : MysqlTableDescribe} (h : Stocked pool)
    (hten : ∀ node ∈ describe.nodeList, memoryPoolDefaultIncreaseAllocNum *
      roundSize node.dataLength ≤ intMax) (res : MysqlRes) :
    (resultRoom describe res pool).isSome := by
  have hrow : ∀ row ∈ res.rows, ∀ pool, Stocked pool → ∃ pool',
      (fields describe (mysqlFetchLengths (res.rows.headD [])) row).foldlM
        (fun pool c => fieldRoom pool c.1.1 (wrap32 c.2)) pool = some pool' ∧ Stocked pool' := by
    intro row _ pool hpool
    refine exists_foldlM (fun c hc pool hpool => ?_) hpool
    have hnode := (List.of_mem_zip (List.of_mem_zip hc).1).1
    exact hpool.exists_fieldRoom (wrap32_bounds _).2 (hten _ hnode)
  obtain ⟨pool', hfold, -⟩ := exists_foldlM hrow h
  exact Option.isSome_iff_exists.2 ⟨pool', hfold⟩

end Room

end MysqlConnector

end Elegance
