import Mathlib.Data.List.Basic
import Mathlib.Tactic.Ring

/-! # Byte buffers of a fixed size

Buffers carry their size, and a buffer of `4 * n` bytes is also read as an
array of `n` big-endian words, its cells. Cutting and joining the bytes at
multiples of four cuts and joins the cells.
-/

/-- A buffer of exactly `n` bytes. -/
structure ByteBuf (n : Nat) where
  bytes : List UInt8
  length_eq : bytes.length = n
deriving DecidableEq

namespace ByteBuf

attribute [simp] length_eq

@[ext] theorem ext {n : Nat} {a b : ByteBuf n} (h : a.bytes = b.bytes) : a = b := by
  cases a
  cases b
  cases h
  rfl

/-- The first `n` bytes of a list, filled up with zeros. -/
def ofList (n : Nat) (bytes : List UInt8) : ByteBuf n where
  bytes := bytes.take n ++ List.replicate (n - bytes.length) 0
  length_eq := by
    rw [List.length_append, List.length_take, List.length_replicate]
    omega

def zero (n : Nat) : ByteBuf n := ⟨List.replicate n 0, List.length_replicate⟩

/-- `memset` with 0xff. -/
def ones (n : Nat) : ByteBuf n := ⟨List.replicate n 0xff, List.length_replicate⟩

theorem bytes_ofList {n : Nat} {bytes : List UInt8} (h : bytes.length = n) :
    (ofList n bytes).bytes = bytes := by
  simp [ofList, ← h]

@[simp] theorem ofList_bytes {n : Nat} (b : ByteBuf n) : ofList n b.bytes = b :=
  ext (bytes_ofList b.length_eq)

end ByteBuf

/-! ## Big-endian words -/

/-- The word whose bytes, most significant first, are `a`, `b`, `c`, `d`. -/
def be32 (a b c d : UInt8) : UInt32 :=
  UInt32.ofNat (a.toNat * 16777216 + b.toNat * 65536 + c.toNat * 256 + d.toNat)

/-- The bytes of a word, most significant first. -/
def be32Bytes (w : UInt32) : List UInt8 :=
  [UInt8.ofNat (w.toNat / 16777216), UInt8.ofNat (w.toNat / 65536),
    UInt8.ofNat (w.toNat / 256), UInt8.ofNat w.toNat]

@[simp] theorem length_be32Bytes (w : UInt32) : (be32Bytes w).length = 4 := rfl

theorem be32_be32Bytes (w : UInt32) :
    be32 (UInt8.ofNat (w.toNat / 16777216)) (UInt8.ofNat (w.toNat / 65536))
      (UInt8.ofNat (w.toNat / 256)) (UInt8.ofNat w.toNat) = w := by
  have hw := w.toNat_lt
  apply UInt32.toNat_inj.mp
  simp only [be32, UInt8.toNat_ofNat', UInt32.toNat_ofNat']
  omega

/-- A word has its bytes. -/
theorem be32_inj {a b c d a' b' c' d' : UInt8} (h : be32 a b c d = be32 a' b' c' d') :
    a = a' ∧ b = b' ∧ c = c' ∧ d = d' := by
  have ha := a.toNat_lt
  have hb := b.toNat_lt
  have hc := c.toNat_lt
  have hd := d.toNat_lt
  have ha' := a'.toNat_lt
  have hb' := b'.toNat_lt
  have hc' := c'.toNat_lt
  have hd' := d'.toNat_lt
  have hval := congrArg UInt32.toNat h
  simp only [be32, UInt32.toNat_ofNat'] at hval
  refine ⟨?_, ?_, ?_, ?_⟩ <;> apply UInt8.toNat_inj.mp <;> omega

/-- Read bytes as consecutive big-endian words; up to three odd bytes at the
end are not part of a word. -/
def cells : List UInt8 → List UInt32
  | a :: b :: c :: d :: rest => be32 a b c d :: cells rest
  | _ => []

@[simp] theorem cells_nil : cells [] = [] := rfl

@[simp] theorem cells_be32Bytes_append (w : UInt32) (rest : List UInt8) :
    cells (be32Bytes w ++ rest) = w :: cells rest := by
  change be32 _ _ _ _ :: cells rest = w :: cells rest
  rw [be32_be32Bytes]

theorem length_cells {n : Nat} {l : List UInt8} (h : l.length = 4 * n) :
    (cells l).length = n := by
  induction n generalizing l with
  | zero =>
      rw [List.length_eq_zero_iff.mp h]
      rfl
  | succ n ih =>
      match l, h with
      | a :: b :: c :: d :: rest, h =>
          simp only [cells, List.length_cons]
          rw [ih (by simp only [List.length_cons] at h; omega)]

theorem cells_take (n : Nat) (l : List UInt8) : cells (l.take (4 * n)) = (cells l).take n := by
  induction n generalizing l with
  | zero => simp
  | succ n ih =>
      rw [show 4 * (n + 1) = 4 * n + 4 by ring]
      match l with
      | [] => simp
      | [a] => simp [cells]
      | [a, b] => simp [cells]
      | [a, b, c] => simp [cells]
      | a :: b :: c :: d :: rest => simp only [List.take_succ_cons, cells, ih]

theorem cells_drop (n : Nat) (l : List UInt8) : cells (l.drop (4 * n)) = (cells l).drop n := by
  induction n generalizing l with
  | zero => simp
  | succ n ih =>
      rw [show 4 * (n + 1) = 4 * n + 4 by ring]
      match l with
      | [] => simp
      | [a] => simp [cells]
      | [a, b] => simp [cells]
      | [a, b, c] => simp [cells]
      | a :: b :: c :: d :: rest => simp only [List.drop_succ_cons, cells, ih]

theorem cells_append {n : Nat} {l : List UInt8} (h : l.length = 4 * n) (m : List UInt8) :
    cells (l ++ m) = cells l ++ cells m := by
  induction n generalizing l with
  | zero =>
      rw [List.length_eq_zero_iff.mp h]
      rfl
  | succ n ih =>
      match l, h with
      | a :: b :: c :: d :: rest, h =>
          have hrest := ih (l := rest) (by simp only [List.length_cons] at h; omega)
          simp only [List.cons_append, cells, hrest]

theorem cells_replicate_zero (n : Nat) :
    cells (List.replicate (4 * n) 0) = List.replicate n 0 := by
  induction n with
  | zero => rfl
  | succ n ih =>
      rw [show 4 * (n + 1) = 4 * n + 4 by ring, List.replicate_succ (n := n)]
      simp only [List.replicate_succ, cells, ih]
      rfl

/-- The bytes of a list of words. -/
def cellBytes (ws : List UInt32) : List UInt8 := ws.flatMap be32Bytes

theorem length_cellBytes (ws : List UInt32) : (cellBytes ws).length = 4 * ws.length := by
  induction ws with
  | nil => rfl
  | cons w ws ih =>
      simp only [cellBytes, List.flatMap_cons, List.length_append, length_be32Bytes,
        List.length_cons] at ih ⊢
      omega

@[simp] theorem cells_cellBytes (ws : List UInt32) : cells (cellBytes ws) = ws := by
  induction ws with
  | nil => rfl
  | cons w ws ih => rw [cellBytes, List.flatMap_cons, cells_be32Bytes_append, ← cellBytes, ih]
