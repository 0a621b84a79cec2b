import Mathlib.Data.List.TakeWhile

/-! # Terminated strings in arrays

A terminated string is what a reader sees of a byte array up to the first zero
byte. The bytes behind the terminator are not part of it.
-/

/-- A terminated string that fits, with its terminator, into `n` bytes. -/
structure CText (n : Nat) where
  bytes : List UInt8
  length_lt : bytes.length < n
  noNul : (0 : UInt8) ∉ bytes
deriving DecidableEq

namespace CText

variable {n : Nat}

@[ext] theorem ext {a b : CText n} (h : a.bytes = b.bytes) : a = b := by
  cases a
  cases b
  cases h
  rfl

/-- What a reader sees of a byte array: everything before the first zero. -/
def visible (l : List UInt8) : List UInt8 := l.takeWhile (· ≠ 0)

theorem noNul_visible (l : List UInt8) : (0 : UInt8) ∉ visible l := by
  intro hmem
  simpa using List.mem_takeWhile_imp hmem

theorem visible_of_noNul {l : List UInt8} (h : (0 : UInt8) ∉ l) : visible l = l := by
  apply List.takeWhile_eq_self_iff.mpr
  intro x hx
  simpa using ne_of_mem_of_not_mem hx h

/-- A terminated string is what stands before its end. -/
theorem visible_append_zero {s t : List UInt8} (hs : (0 : UInt8) ∉ s) :
    visible (s ++ 0 :: t) = s := by
  unfold visible
  rw [List.takeWhile_append_of_pos]
  · simp
  · intro c hc
    simpa using ne_of_mem_of_not_mem hc hs

/-- Copy at most `n` visible bytes of a source and terminate them. -/
def copy (n : Nat) (src : List UInt8) : CText (n + 1) where
  bytes := (visible src).take n
  length_lt := Nat.lt_succ_of_le (List.length_take_le _ _)
  noNul hmem := noNul_visible src (List.mem_of_mem_take hmem)

theorem bytes_copy {src : List UInt8} (hlen : src.length ≤ n) (hnul : (0 : UInt8) ∉ src) :
    (copy n src).bytes = src := by
  simp only [copy, visible_of_noNul hnul, List.take_of_length_le hlen]

/-- A byte-wise change that never makes a zero out of another byte. -/
def map (f : UInt8 → UInt8) (hf : ∀ c, f c = 0 → c = 0) (t : CText n) : CText n where
  bytes := t.bytes.map f
  length_lt := by
    rw [List.length_map]
    exact t.length_lt
  noNul hmem := by
    obtain ⟨c, hc, hzero⟩ := List.mem_map.mp hmem
    exact t.noNul (hf c hzero ▸ hc)

end CText

/-- The bytes of a text given by its characters. -/
def asciiBytes (cs : List Char) : List UInt8 := cs.map fun c => UInt8.ofNat c.toNat
