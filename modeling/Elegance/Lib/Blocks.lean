import Mathlib.Tactic

/-!
# A heap of blocks

A pointer is null or the number of a block, and a block keeps how often it was deleted. No number
is used again, so a block is live exactly as long as it was never deleted. Reading through a pointer
to no live block gives nothing.
-/

namespace Blocks

structure Block where
  bytes : List UInt8
  deletes : ℕ := 0
  deriving DecidableEq, Repr

structure Heap where
  blocks : List Block := []
  deriving DecidableEq, Repr

namespace Heap

/-- The block the next `new` makes. -/
def next (h : Heap) : ℕ := h.blocks.length

def new (h : Heap) (bytes : List UInt8) : Heap := ⟨h.blocks ++ [⟨bytes, 0⟩]⟩

def read (h : Heap) (p : Option ℕ) (n : ℕ) : List UInt8 :=
  match p.bind (h.blocks[·]?) with
  | some ⟨bytes, 0⟩ => bytes.take n
  | _ => []

/-- The change of one block. -/
def modify (h : Heap) (p : Option ℕ) (f : Block → Block) : Heap :=
  match p with
  | none => h
  | some p => ⟨h.blocks.modify p f⟩

def write (h : Heap) (p : Option ℕ) (bs : List UInt8) : Heap :=
  h.modify p fun block => { block with bytes := bs ++ block.bytes.drop bs.length }

def delete (h : Heap) (p : Option ℕ) : Heap :=
  h.modify p fun block => { block with deletes := block.deletes + 1 }

/-- The block is live and has these bytes. -/
def Holds (h : Heap) (p : ℕ) (bytes : List UInt8) : Prop := h.blocks[p]? = some ⟨bytes, 0⟩

/-- Every other block was deleted once. -/
def DeletedBut (h : Heap) (live : Set ℕ) : Prop :=
  ∀ q block, h.blocks[q]? = some block → q ∉ live → block.deletes = 1

instance (h : Heap) (p : ℕ) (bytes : List UInt8) : Decidable (h.Holds p bytes) :=
  inferInstanceAs (Decidable (_ = _))

variable {h : Heap} {p q : ℕ} {bytes bs : List UInt8}

@[simp]
theorem write_null (h : Heap) (bs : List UInt8) : h.write none bs = h := rfl

@[simp]
theorem delete_null (h : Heap) : h.delete none = h := rfl

@[simp]
theorem read_null (h : Heap) (n : ℕ) : h.read none n = [] := rfl

@[simp]
theorem read_zero (h : Heap) (p : Option ℕ) : h.read p 0 = [] := by
  unfold read
  split <;> simp

@[simp]
theorem write_nil (h : Heap) (p : Option ℕ) : h.write p [] = h := by
  rcases p with _ | p
  · rfl
  · exact congrArg Heap.mk (List.modify_id p h.blocks)

theorem getElem?_modify (h : Heap) (p q : ℕ) (f : Block → Block) :
    (h.modify (some p) f).blocks[q]? = (fun block => if p = q then f block else block) <$>
      h.blocks[q]? := by
  rw [modify, List.getElem?_modify]

theorem holds_new (h : Heap) (bytes : List UInt8) : (h.new bytes).Holds h.next bytes := by
  simp [Holds, new, next]

theorem Holds.lt (hp : h.Holds p bytes) : p < h.next :=
  (List.getElem?_eq_some_iff.1 hp).1

theorem Holds.new (hp : h.Holds p bytes) (bs : List UInt8) : (h.new bs).Holds p bytes := by
  have hlt := hp.lt
  rw [Holds, Heap.new, List.getElem?_append_left hlt]
  exact hp

theorem Holds.read (hp : h.Holds p bytes) (n : ℕ) : h.read (some p) n = bytes.take n := by
  rw [Holds] at hp
  simp [Heap.read, hp]

/-- A new block is none of those that were there. -/
theorem read_new_of_lt (hp : p < h.next) (bs : List UInt8) (n : ℕ) :
    (h.new bs).read (some p) n = h.read (some p) n := by
  have hlt : p < h.blocks.length := hp
  simp [Heap.read, Heap.new, List.getElem?_append_left hlt]

theorem Holds.write (hp : h.Holds p bytes) (bs : List UInt8) :
    (h.write (some p) bs).Holds p (bs ++ bytes.drop bs.length) := by
  rw [Holds] at hp
  rw [Holds, Heap.write, getElem?_modify, hp]
  simp

theorem Holds.write_of_ne (hp : h.Holds p bytes) (hne : q ≠ p) (bs : List UInt8) :
    (h.write (some q) bs).Holds p bytes := by
  rw [Holds] at hp
  rw [Holds, Heap.write, getElem?_modify, hp]
  simp [hne]

theorem Holds.delete_of_ne (hp : h.Holds p bytes) (hne : q ≠ p) :
    (h.delete (some q)).Holds p bytes := by
  rw [Holds] at hp
  rw [Holds, Heap.delete, getElem?_modify, hp]
  simp [hne]

theorem not_holds_delete (h : Heap) (p : ℕ) (bytes : List UInt8) :
    ¬ (h.delete (some p)).Holds p bytes := by
  intro hp
  rw [Holds, delete, getElem?_modify] at hp
  cases hb : h.blocks[p]? <;> simp [hb] at hp

section DeletedBut

variable {live : Set ℕ}

theorem DeletedBut.mono {live' : Set ℕ} (hh : h.DeletedBut live) (hsub : live ⊆ live') :
    h.DeletedBut live' :=
  fun q block hq hlive => hh q block hq fun hmem => hlive (hsub hmem)

theorem DeletedBut.new (hh : h.DeletedBut live) (bs : List UInt8) :
    (h.new bs).DeletedBut (insert h.next live) := by
  intro q block hq hlive
  rw [Set.mem_insert_iff, not_or] at hlive
  rw [Heap.new, List.getElem?_append] at hq
  split_ifs at hq with hlt
  · exact hh q block hq hlive.2
  · have hpast : q - h.blocks.length ≠ 0 := fun hzero => hlive.1 (by unfold next; omega)
    obtain ⟨n, hn⟩ := Nat.exists_eq_succ_of_ne_zero hpast
    simp [hn] at hq

theorem DeletedBut.write (hh : h.DeletedBut live) (p : Option ℕ) (bs : List UInt8) :
    (h.write p bs).DeletedBut live := by
  rcases p with _ | p
  · exact hh
  intro q block hq hlive
  rw [Heap.write, getElem?_modify] at hq
  rcases hb : h.blocks[q]? with _ | old <;> simp [hb] at hq
  have hold := hh q old hb hlive
  split_ifs at hq <;> simpa [← hq] using hold

/-- A live block is deleted for the first time. -/
theorem DeletedBut.delete (hh : h.DeletedBut live) (hp : h.Holds p bytes) :
    (h.delete (some p)).DeletedBut (live \ {p}) := by
  intro q block hq hlive
  rw [Heap.delete, getElem?_modify] at hq
  by_cases hpq : p = q
  · subst hpq
    rw [Holds] at hp
    simp [hp] at hq
    simp [← hq]
  · have hlive' : q ∉ live := fun hmem => hlive ⟨hmem, Ne.symm hpq⟩
    rcases hb : h.blocks[q]? with _ | old <;> simp [hb, hpq] at hq
    exact hq ▸ hh q old hb hlive'

end DeletedBut

end Heap

end Blocks
