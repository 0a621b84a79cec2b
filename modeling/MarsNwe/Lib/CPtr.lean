import MarsNwe.Lib.CText

/-! # Terminated strings behind a pointer

A pointer is known by the bytes that may be read from it on. The last of them is the
terminator; a pointer that has been moved behind the terminator has none, and every
read through it fails.
-/

/-- The bytes from a pointer on up to the terminator. -/
abbrev CPtr := List UInt8

namespace CPtr

/-- A pointer to the first byte of a string. -/
def ofText (s : List UInt8) : CPtr := s ++ [0]

/-- `*p` -/
def read (p : CPtr) : Option UInt8 := p.head?

@[simp]
theorem read_ofText (s : List UInt8) : (ofText s).read = some (s.headD 0) := by
  cases s <;> rfl

@[simp]
theorem read_nil : read [] = none := rfl

@[simp]
theorem read_cons (c : UInt8) (p : CPtr) : read (c :: p) = some c := rfl

@[simp]
theorem ofText_nil : ofText [] = [0] := rfl

@[simp]
theorem ofText_cons (c : UInt8) (s : List UInt8) : ofText (c :: s) = c :: ofText s := rfl

theorem ofText_injective : Function.Injective ofText := fun _ _ h => List.append_cancel_right h

/-- Behind a byte that is not the terminator the string goes on. -/
theorem tail_ofText {s : List UInt8} (h : s ≠ []) : (ofText s).tail = ofText s.tail := by
  cases s with
  | nil => contradiction
  | cons c s => rfl

/-- The loop `while (*s && !stop(*s))` that tries `rest` at every place and returns from
the function when it succeeds, or when `giveUp` says so; otherwise the loop is left with a
pointer to where it stopped. -/
def tryAll (rest : CPtr → Option Bool) (stop : UInt8 → Bool) (giveUp : UInt8 → Option Bool) :
    CPtr → Option (Except Bool CPtr)
  | [] => none
  | c :: s =>
      if c = 0 ∨ stop c = true then some (.ok (c :: s))
      else do
        if ← rest (c :: s) then return .error true
        if ← giveUp c then return .error false
        tryAll rest stop giveUp s

/-- `while (*s && !stop(*s)) s++` -/
def skip (stop : UInt8 → Bool) : CPtr → Option CPtr
  | [] => none
  | c :: s => if c = 0 ∨ stop c = true then some (c :: s) else skip stop s

theorem skip_ofText (stop : UInt8 → Bool) {s : List UInt8} (hs : 0 ∉ s) :
    skip stop (ofText s) = some (ofText (s.dropWhile fun c => !stop c)) := by
  induction s with
  | nil => simp [skip]
  | cons c s ih =>
      rw [List.mem_cons, not_or] at hs
      obtain ⟨hc, hs⟩ := hs
      cases hstop : stop c with
      | true => simp [skip, hstop]
      | false => simpa [skip, hstop, Ne.symm hc] using ih hs

end CPtr
