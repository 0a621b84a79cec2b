import MarsNwe.Lib.Formatted

/-! # Decimal numbers in texts

Numbers are printed with as many digits as they have, and `atoi` reads them again,
whatever follows that is not a digit.
-/

namespace Formatted

def isDigit (c : UInt8) : Bool := 48 ≤ c ∧ c ≤ 57

/-- The number that decimal digits stand for. -/
def decimalValue (ds : List UInt8) : Nat := ds.foldl (fun n c => 10 * n + (c.toNat - 48)) 0

/-- The last `w` decimal digits of a number. -/
def decimal : Nat → Nat → List UInt8
  | 0, _ => []
  | w + 1, n => decimal w (n / 10) ++ [UInt8.ofNat (48 + n % 10)]

/-- `%d` of a number that is not negative. -/
def decimalText (n : Nat) : List UInt8 := decimal (Nat.log 10 n + 1) n

/-- `atoi`, as long as the number fits. -/
def atoi (l : List UInt8) : Int :=
  let (minus, l) := scanSign (skipSpace l)
  let n : Int := decimalValue (l.takeWhile isDigit)
  if minus then -n else n

theorem decimalValue_append (ds : List UInt8) (c : UInt8) :
    decimalValue (ds ++ [c]) = 10 * decimalValue ds + (c.toNat - 48) :=
  List.foldl_concat ..

theorem toNat_digit {d : Nat} (hd : d < 10) : (UInt8.ofNat (48 + d)).toNat = 48 + d := by
  rw [UInt8.toNat_ofNat', Nat.mod_eq_of_lt (by omega)]

theorem decimalValue_decimal {w n : Nat} (hn : n < 10 ^ w) : decimalValue (decimal w n) = n := by
  induction w generalizing n with
  | zero =>
      rw [pow_zero, Nat.lt_one_iff] at hn
      rw [hn]
      rfl
  | succ w ih =>
      have hlt : n / 10 < 10 ^ w := Nat.div_lt_of_lt_mul (by rwa [pow_succ'] at hn)
      rw [decimal, decimalValue_append, ih hlt, toNat_digit (Nat.mod_lt n (by decide))]
      omega

@[simp] theorem length_decimal (w n : Nat) : (decimal w n).length = w := by
  induction w generalizing n with
  | zero => rfl
  | succ w ih => rw [decimal, List.length_append, ih, List.length_singleton]

theorem isDigit_of_mem_decimal {w n : Nat} {c : UInt8} (hc : c ∈ decimal w n) :
    isDigit c = true := by
  induction w generalizing n with
  | zero => exact absurd hc List.not_mem_nil
  | succ w ih =>
      rcases List.mem_append.mp hc with hmem | hlast
      · exact ih hmem
      · have hall : ∀ d : Fin 10, isDigit (UInt8.ofNat (48 + d.val)) = true := by decide
        rw [List.mem_singleton.mp hlast]
        exact hall ⟨n % 10, Nat.mod_lt n (by decide)⟩

theorem isDigit_spec {c : UInt8} (hc : isDigit c = true) :
    isSpace c = false ∧ c ≠ 43 ∧ c ≠ 45 ∧ c ≠ 0 ∧ c ≠ 35 := by
  have hall : ∀ n : Fin 256, isDigit (UInt8.ofFin n) = true → isSpace (UInt8.ofFin n) = false ∧
      UInt8.ofFin n ≠ 43 ∧ UInt8.ofFin n ≠ 45 ∧ UInt8.ofFin n ≠ 0 ∧ UInt8.ofFin n ≠ 35 := by
    decide +kernel
  exact hall c.toFin hc

theorem decimalValue_decimalText (n : Nat) : decimalValue (decimalText n) = n :=
  decimalValue_decimal (Nat.lt_pow_succ_log_self (by decide) n)

theorem isDigit_of_mem_decimalText {n : Nat} {c : UInt8} (hc : c ∈ decimalText n) :
    isDigit c = true :=
  isDigit_of_mem_decimal hc

theorem decimalText_ne_nil (n : Nat) : decimalText n ≠ [] := by
  refine List.ne_nil_of_length_pos ?_
  rw [decimalText, length_decimal]
  exact Nat.succ_pos _

/-- A number below `10 ^ w` takes no more than `w` digits. -/
theorem length_decimalText_le {w n : Nat} (hw : 0 < w) (hn : n < 10 ^ w) :
    (decimalText n).length ≤ w := by
  rw [decimalText, length_decimal]
  exact Nat.log_lt_of_lt_pow' (Nat.ne_of_gt hw) hn

/-- The digits of a number are read again when no further digit follows. -/
theorem atoi_decimalText (n : Nat) : atoi (decimalText n) = n := by
  have hdigits := fun c (hc : c ∈ decimalText n) => isDigit_of_mem_decimalText hc
  obtain ⟨c, rest, hcons⟩ := List.exists_cons_of_ne_nil (decimalText_ne_nil n)
  obtain ⟨hspace, hplus, hminus, -⟩ := isDigit_spec (hdigits c (hcons ▸ List.mem_cons_self))
  have hsign : scanSign (skipSpace (decimalText n)) = (false, decimalText n) := by
    rw [hcons, skipSpace_cons hspace, scanSign, if_neg hminus, if_neg hplus]
  unfold atoi
  rw [hsign]
  simp only [Bool.false_eq_true, if_false]
  rw [List.takeWhile_eq_self_iff.mpr hdigits, decimalValue_decimalText]

end Formatted
