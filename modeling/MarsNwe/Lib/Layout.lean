import MarsNwe.Lib.ByteBuf

/-! # Values as they are kept in memory

A layout turns the values of a type into blocks of bytes of one size and back. A
file that holds the blocks of some values, one behind the other, is read block by
block.
-/

/-- The blocks of bytes that stand for the values of a type. -/
structure Layout (α : Type) where
  size : Nat
  size_pos : 0 < size
  bytes : α → List UInt8
  length_bytes (a : α) : (bytes a).length = size
  value : List UInt8 → α
  value_bytes (a : α) : value (bytes a) = a

namespace Layout

variable {α β : Type}

/-- Two values, one behind the other. -/
def pair (A : Layout α) (B : Layout β) : Layout (α × β) where
  size := A.size + B.size
  size_pos := Nat.add_pos_left A.size_pos _
  bytes p := A.bytes p.1 ++ B.bytes p.2
  length_bytes p := by rw [List.length_append, A.length_bytes, B.length_bytes]
  value l := (A.value (l.take A.size), B.value (l.drop A.size))
  value_bytes p := by
    have hlength := A.length_bytes p.1
    rw [List.take_left' hlength, List.drop_left' hlength, A.value_bytes, B.value_bytes]

/-- Values that are kept as those of another type. -/
def ofInverse (A : Layout α) (f : β → α) (g : α → β) (hinv : ∀ b, g (f b) = b) : Layout β where
  size := A.size
  size_pos := A.size_pos
  bytes b := A.bytes (f b)
  length_bytes b := A.length_bytes (f b)
  value l := g (A.value l)
  value_bytes b := by rw [A.value_bytes, hinv]

def uint32 : Layout UInt32 where
  size := 4
  size_pos := Nat.zero_lt_succ 3
  bytes := be32Bytes
  length_bytes := length_be32Bytes
  value l := be32 (l.getD 0 0) (l.getD 1 0) (l.getD 2 0) (l.getD 3 0)
  value_bytes := be32_be32Bytes

def int32 : Layout Int32 := uint32.ofInverse Int32.toUInt32 UInt32.toInt32 fun _ => rfl

def int64 : Layout Int64 :=
  (uint32.pair uint32).ofInverse
    (fun i => (UInt32.ofNat (i.toUInt64.toNat / 4294967296), UInt32.ofNat i.toUInt64.toNat))
    (fun p => (UInt64.ofNat (p.1.toNat * 4294967296 + p.2.toNat)).toInt64)
    fun i => by
      have hlt := i.toUInt64.toNat_lt
      have hword : i.toUInt64.toNat / 4294967296 % 4294967296 * 4294967296 +
          i.toUInt64.toNat % 4294967296 = i.toUInt64.toNat := by omega
      have hback : UInt64.ofNat i.toUInt64.toNat = i.toUInt64 := UInt64.ofNat_toNat
      simp only [UInt32.toNat_ofNat']
      rw [hword, hback]
      rfl

def byteBuf (n : Nat) (hn : 0 < n) : Layout (ByteBuf n) where
  size := n
  size_pos := hn
  bytes := ByteBuf.bytes
  length_bytes := ByteBuf.length_eq
  value := ByteBuf.ofList n
  value_bytes := ByteBuf.ofList_bytes

/-! ## Files of blocks -/

variable (A : Layout α)

/-- The values of the blocks that a file holds; a shorter rest is not read. -/
def records (l : List UInt8) : List α :=
  if A.size ≤ l.length then A.value (l.take A.size) :: records (l.drop A.size) else []
termination_by l.length
decreasing_by
  have hpos := A.size_pos
  rw [List.length_drop]
  omega

/-- The file that holds the blocks of some values. -/
def blocks (as : List α) : List UInt8 := as.flatMap A.bytes

theorem records_blocks (as : List α) : A.records (A.blocks as) = as := by
  induction as with
  | nil =>
      have hpos := A.size_pos
      rw [blocks, records, List.flatMap_nil, List.length_nil, if_neg (by omega)]
  | cons a as ih =>
      have hlength := A.length_bytes a
      have hle : A.size ≤ (A.blocks (a :: as)).length := by
        rw [blocks, List.flatMap_cons, List.length_append, hlength]
        exact Nat.le_add_right _ _
      rw [records, if_pos hle, blocks, List.flatMap_cons, List.take_left' hlength,
        List.drop_left' hlength, A.value_bytes]
      exact congrArg (a :: ·) ih

end Layout
