import Mathlib.Data.List.GetD
import MarsNwe.Lib.ByteBuf

/-! # Buffers as nibbles

A buffer of `n` bytes is also read as `2 * n` nibbles, the low one of each byte
first. Two buffers with the same nibbles are the same.
-/

def lowNibble (x : UInt8) : UInt8 := x &&& 0xf

def highNibble (x : UInt8) : UInt8 := x >>> 4

def joinNibbles (lo hi : UInt8) : UInt8 := lo ||| hi <<< 4

theorem toNat_lowNibble (x : UInt8) : (lowNibble x).toNat = x.toNat % 16 := by
  rw [lowNibble, UInt8.toNat_and]
  exact Nat.and_two_pow_sub_one_eq_mod x.toNat 4

theorem toNat_highNibble (x : UInt8) : (highNibble x).toNat = x.toNat / 16 := by
  rw [highNibble, UInt8.toNat_shiftRight]
  exact Nat.shiftRight_eq_div_pow x.toNat 4

theorem toNat_joinNibbles {lo : UInt8} (hlo : lo.toNat < 16) (hi : UInt8) :
    (joinNibbles lo hi).toNat = hi.toNat % 16 * 16 + lo.toNat := by
  have hshift : (hi <<< 4).toNat = (hi.toNat % 16) <<< 4 := by
    rw [UInt8.toNat_shiftLeft, Nat.shiftLeft_eq, Nat.shiftLeft_eq]
    change hi.toNat * 2 ^ 4 % 2 ^ 8 = _
    omega
  rw [joinNibbles, UInt8.toNat_or, Nat.or_comm, hshift,
    ← Nat.shiftLeft_add_eq_or_of_lt (i := 4) (by simpa using hlo), Nat.shiftLeft_eq]

theorem lowNibble_lt (x : UInt8) : (lowNibble x).toNat < 16 := by
  rw [toNat_lowNibble]
  omega

theorem highNibble_lt (x : UInt8) : (highNibble x).toNat < 16 := by
  have hx := x.toNat_lt
  rw [toNat_highNibble]
  omega

theorem lowNibble_joinNibbles {lo : UInt8} (hlo : lo.toNat < 16) (hi : UInt8) :
    lowNibble (joinNibbles lo hi) = lo := by
  apply UInt8.toNat_inj.mp
  rw [toNat_lowNibble, toNat_joinNibbles hlo]
  omega

theorem highNibble_joinNibbles {lo : UInt8} (hlo : lo.toNat < 16) (hi : UInt8) :
    highNibble (joinNibbles lo hi) = lowNibble hi := by
  apply UInt8.toNat_inj.mp
  rw [toNat_highNibble, toNat_joinNibbles hlo, toNat_lowNibble]
  omega

theorem lowNibble_of_lt {x : UInt8} (hx : x.toNat < 16) : lowNibble x = x := by
  apply UInt8.toNat_inj.mp
  rw [toNat_lowNibble]
  omega

theorem highNibble_of_lt {x : UInt8} (hx : x.toNat < 16) : highNibble x = 0 := by
  apply UInt8.toNat_inj.mp
  rw [toNat_highNibble, Nat.div_eq_of_lt hx]
  rfl

/-- A byte is its two nibbles. -/
theorem eq_of_nibbles {x y : UInt8} (hlo : lowNibble x = lowNibble y)
    (hhi : highNibble x = highNibble y) : x = y := by
  have hlo := congrArg UInt8.toNat hlo
  have hhi := congrArg UInt8.toNat hhi
  rw [toNat_lowNibble, toNat_lowNibble] at hlo
  rw [toNat_highNibble, toNat_highNibble] at hhi
  apply UInt8.toNat_inj.mp
  omega

theorem lowNibble_xor (x y : UInt8) : lowNibble (x ^^^ y) = lowNibble x ^^^ lowNibble y := by
  apply UInt8.toNat_inj.mp
  simp only [lowNibble, UInt8.toNat_and, UInt8.toNat_xor]
  exact Nat.and_xor_distrib_right

theorem highNibble_xor (x y : UInt8) : highNibble (x ^^^ y) = highNibble x ^^^ highNibble y :=
  UInt8.shiftRight_xor

theorem lowNibble_or (x y : UInt8) : lowNibble (x ||| y) = lowNibble x ||| lowNibble y := by
  apply UInt8.toBitVec_inj.mp
  exact BitVec.and_or_distrib_right ..

theorem highNibble_or (x y : UInt8) : highNibble (x ||| y) = highNibble x ||| highNibble y :=
  UInt8.shiftRight_or

theorem lowNibble_shiftLeft (x : UInt8) : lowNibble (x <<< 4) = 0 := by
  have hjoin : x <<< 4 = joinNibbles 0 x := (UInt8.zero_or ..).symm
  rw [hjoin, lowNibble_joinNibbles (by decide)]

theorem highNibble_shiftLeft (x : UInt8) : highNibble (x <<< 4) = lowNibble x := by
  have hjoin : x <<< 4 = joinNibbles 0 x := (UInt8.zero_or ..).symm
  rw [hjoin, highNibble_joinNibbles (by decide)]

namespace ByteBuf

variable {n : Nat}

/-- The nibble with a number. -/
def nibble (b : ByteBuf n) (k : Nat) : UInt8 :=
  if k % 2 = 1 then highNibble (b.bytes.getD (k / 2) 0) else lowNibble (b.bytes.getD (k / 2) 0)

theorem nibble_lt (b : ByteBuf n) (k : Nat) : (b.nibble k).toNat < 16 := by
  unfold nibble
  split
  · exact highNibble_lt _
  · exact lowNibble_lt _

theorem ext_nibble {a b : ByteBuf n} (h : ∀ k < 2 * n, a.nibble k = b.nibble k) : a = b := by
  apply ByteBuf.ext
  apply List.ext_getElem (by rw [a.length_eq, b.length_eq])
  intro i ha hb
  have hi : i < n := a.length_eq ▸ ha
  have hlo := h (2 * i) (by omega)
  have hhi := h (2 * i + 1) (by omega)
  unfold nibble at hlo hhi
  rw [if_neg (by omega), if_neg (by omega), show 2 * i / 2 = i by omega] at hlo
  rw [if_pos (by omega), if_pos (by omega), show (2 * i + 1) / 2 = i by omega] at hhi
  have hbyte := eq_of_nibbles hlo hhi
  rwa [List.getD_eq_getElem _ _ ha, List.getD_eq_getElem _ _ hb] at hbyte

theorem nibble_zero (k : Nat) : (zero n).nibble k = 0 := by
  have hzero : (zero n).bytes.getD (k / 2) 0 = 0 := by
    rw [List.getD_eq_getElem?_getD, zero, List.getElem?_replicate]
    split <;> rfl
  rw [nibble, hzero]
  split <;> rfl

/-- The nibbles of a buffer given byte by byte. -/
theorem nibble_ofList_map (g : Nat → UInt8) {k : Nat} (hk : k < 2 * n) :
    (ofList n ((List.range n).map g)).nibble k =
      if k % 2 = 1 then highNibble (g (k / 2)) else lowNibble (g (k / 2)) := by
  have hlt : k / 2 < n := by omega
  have hget : (ofList n ((List.range n).map g)).bytes.getD (k / 2) 0 = g (k / 2) := by
    rw [bytes_ofList (by rw [List.length_map, List.length_range]), List.getD_eq_getElem?_getD,
      List.getElem?_map, List.getElem?_range hlt]
    rfl
  rw [nibble, hget]

/-- OR a nibble into the buffer. -/
def orNibble (b : ByteBuf n) (k : Nat) (ch : UInt8) : ByteBuf n where
  bytes := b.bytes.set (k / 2)
    (b.bytes.getD (k / 2) 0 ||| if k % 2 = 1 then ch <<< 4 else ch)
  length_eq := by rw [List.length_set, b.length_eq]

theorem nibble_orNibble (b : ByteBuf n) {k : Nat} (hk : k < 2 * n) {ch : UInt8}
    (hch : ch.toNat < 16) (i : Nat) :
    (b.orNibble k ch).nibble i = if i = k then b.nibble i ||| ch else b.nibble i := by
  have hlt : k / 2 < b.bytes.length := by
    rw [b.length_eq]
    omega
  unfold nibble orNibble
  by_cases hbyte : i / 2 = k / 2
  · rw [hbyte, List.getD_eq_getElem?_getD, List.getElem?_set_self hlt, Option.getD_some]
    by_cases hodd : k % 2 = 1
    · simp only [hodd, if_true, highNibble_or, lowNibble_or, highNibble_shiftLeft,
        lowNibble_shiftLeft, lowNibble_of_lt hch]
      split
      next => rw [if_pos (by omega)]
      next => rw [if_neg (by omega), UInt8.or_zero]
    · simp only [hodd, if_false, highNibble_or, lowNibble_or, lowNibble_of_lt hch,
        highNibble_of_lt hch]
      split
      next => rw [if_neg (by omega), UInt8.or_zero]
      next => rw [if_pos (by omega)]
  · have hne : i ≠ k := fun heq => hbyte (by rw [heq])
    rw [List.getD_eq_getElem?_getD, List.getElem?_set_ne (Ne.symm hbyte),
      ← List.getD_eq_getElem?_getD, if_neg hne]

/-- Nibbles that go to different places of a cleared buffer are found there. -/
theorem nibble_foldl_orNibble {p : Nat → Nat} {f : Nat → UInt8} {m : Nat}
    (hp : ∀ j < m, p j < 2 * n) (hinj : ∀ i < m, ∀ j < m, p i = p j → i = j)
    (hf : ∀ j, (f j).toNat < 16) :
    (∀ j < m, ((List.range m).foldl (fun b j => b.orNibble (p j) (f j)) (zero n)).nibble (p j) =
      f j) ∧
    ∀ k, (∀ j < m, p j ≠ k) →
      ((List.range m).foldl (fun b j => b.orNibble (p j) (f j)) (zero n)).nibble k = 0 := by
  induction m with
  | zero => exact ⟨fun j hj => by omega, fun k _ => nibble_zero k⟩
  | succ m ih =>
      obtain ⟨hset, hclear⟩ := ih (fun j hj => hp j (by omega))
        fun i hi j hj => hinj i (by omega) j (by omega)
      simp only [List.range_succ, List.foldl_append, List.foldl_cons, List.foldl_nil]
      refine ⟨fun j hj => ?_, fun k hk => ?_⟩
      · rw [nibble_orNibble _ (hp m (by omega)) (hf m)]
        by_cases hjm : j = m
        · -- nothing has been written there yet
          have hfree : ∀ i < m, p i ≠ p m := fun i hi heq =>
            absurd (hinj i (by omega) m (by omega) heq) (by omega)
          rw [hjm, if_pos rfl, hclear _ hfree, UInt8.zero_or]
        · rw [if_neg fun heq => hjm (hinj j hj m (by omega) heq), hset j (by omega)]
      · rw [nibble_orNibble _ (hp m (by omega)) (hf m), if_neg fun heq => hk m (by omega) heq.symm,
          hclear k fun j hj => hk j (by omega)]

end ByteBuf
