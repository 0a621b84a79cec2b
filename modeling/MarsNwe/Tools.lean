import Mathlib.Data.List.Infix
import Mathlib.Data.Fintype.Defs
import MarsNwe.Lib.CText

/-! # String helpers of tools.c

The routines work on terminated strings, so they are stated on the bytes before
the terminator and the end of the list stands for the terminator.
-/

namespace MarsNwe

/-- The byte of a character. -/
def chr (c : Char) : UInt8 := UInt8.ofNat c.toNat

/-- `up_char`: ASCII letters and the three umlauts of code page 437. -/
def upChar (ch : UInt8) : UInt8 :=
  if 96 < ch ∧ ch < 123 then ch - 32
  else if ch = 132 then 142
  else if ch = 148 then 153
  else if ch = 129 then 154
  else ch

/-- `down_char`, the inverse table of `up_char`. -/
def downChar (ch : UInt8) : UInt8 :=
  if 64 < ch ∧ ch < 91 then ch + 32
  else if ch = 142 then 132
  else if ch = 153 then 148
  else if ch = 154 then 129
  else ch

theorem upChar_eq_zero (ch : UInt8) : upChar ch = 0 → ch = 0 := by
  have hall : ∀ n : Fin 256, upChar (UInt8.ofFin n) = 0 → UInt8.ofFin n = 0 := by
    decide +kernel
  exact hall ch.toFin

theorem downChar_eq_zero (ch : UInt8) : downChar ch = 0 → ch = 0 := by
  have hall : ∀ n : Fin 256, downChar (UInt8.ofFin n) = 0 → UInt8.ofFin n = 0 := by
    decide +kernel
  exact hall ch.toFin

/-- `upstr` on a string in an array. -/
def upstr {n : Nat} (s : CText n) : CText n := s.map upChar upChar_eq_zero

/-- `downstr`. -/
def downstr {n : Nat} (s : CText n) : CText n := s.map downChar downChar_eq_zero

/-- `name_match`: `?` stands for one byte and `*` for any bytes. A star that is
not the last byte of the pattern tries the rest of the pattern only on
non-empty remainders of the name, as the loop `while (*s)` does. -/
def nameMatch : (p s : List UInt8) → Bool
  | [] => fun s => s.isEmpty
  | pc :: p => fun s =>
      if pc = chr '?' then
        match s with
        | [] => false
        | _ :: s => nameMatch p s
      else if pc = chr '*' then
        p.isEmpty || s.tails.any fun t => !t.isEmpty && nameMatch p t
      else
        match s with
        | [] => false
        | c :: s => pc == c && nameMatch p s

/-- A pattern without `?` and `*`. -/
def WildcardFree (p : List UInt8) : Prop := chr '?' ∉ p ∧ chr '*' ∉ p

instance (p : List UInt8) : Decidable (WildcardFree p) :=
  inferInstanceAs (Decidable (_ ∧ _))

/-- A pattern without wildcards matches itself only. -/
theorem nameMatch_of_wildcardFree {p : List UInt8} (hp : WildcardFree p) (s : List UInt8) :
    nameMatch p s = true ↔ s = p := by
  induction p generalizing s with
  | nil => simp [nameMatch]
  | cons pc p ih =>
      obtain ⟨hquest, hstar⟩ := hp
      have hne : pc ≠ chr '?' ∧ pc ≠ chr '*' :=
        ⟨fun h => hquest (h ▸ List.mem_cons_self), fun h => hstar (h ▸ List.mem_cons_self)⟩
      have htail : WildcardFree p :=
        ⟨fun h => hquest (List.mem_cons_of_mem _ h), fun h => hstar (List.mem_cons_of_mem _ h)⟩
      simp only [nameMatch, if_neg hne.1, if_neg hne.2]
      cases s with
      | nil => simp
      | cons c s =>
          simp only [Bool.and_eq_true, beq_iff_eq, ih htail, List.cons.injEq]
          constructor
          · rintro ⟨rfl, rfl⟩
            exact ⟨rfl, rfl⟩
          · rintro ⟨rfl, rfl⟩
            exact ⟨rfl, rfl⟩

/-- The pattern `*` matches every name. -/
theorem nameMatch_star (s : List UInt8) : nameMatch [chr '*'] s = true := by
  have hne : chr '*' ≠ chr '?' := by decide
  simp only [nameMatch, if_neg hne, if_true, List.isEmpty_nil, Bool.true_or]

end MarsNwe
