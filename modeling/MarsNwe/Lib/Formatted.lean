import Mathlib.Data.List.Infix
import Mathlib.Data.List.TakeWhile
import Mathlib.Data.Nat.Log
import Mathlib.Tactic.Ring

/-! # Formatted text

Printing with padded fields, scanning with fields that blanks separate, and
reading a text line by line. What the scanner has to be given to find a field
again is stated for each kind of field; what the language leaves undefined, a
number that does not fit, is a parameter.
-/

namespace Formatted

/-- `isspace`. -/
def isSpace (c : UInt8) : Bool := c = 32 ∨ 9 ≤ c ∧ c ≤ 13

/-- The value of a hexadecimal digit. -/
def hexValue (c : UInt8) : Option Nat :=
  if 48 ≤ c ∧ c ≤ 57 then some (c.toNat - 48)
  else if 65 ≤ c ∧ c ≤ 70 then some (c.toNat - 55)
  else if 97 ≤ c ∧ c ≤ 102 then some (c.toNat - 87)
  else none

def isHexDigit (c : UInt8) : Bool := (hexValue c).isSome

/-! ## Printing -/

/-- The lower-case digit for a number below 16. -/
def hexDigit (d : Nat) : UInt8 := if d < 10 then UInt8.ofNat (48 + d) else UInt8.ofNat (87 + d)

/-- `%0wx` of a number that has no more than `w` digits. -/
def hex : Nat → Nat → List UInt8
  | 0, _ => []
  | w + 1, n => hex w (n / 16) ++ [hexDigit (n % 16)]

/-- `0x%0wx`. -/
def prefixedHex (w n : Nat) : List UInt8 := 48 :: 120 :: hex w n

/-- `%-ws`. -/
def leftJustified (w : Nat) (s : List UInt8) : List UInt8 := s ++ List.replicate (w - s.length) 32

@[simp] theorem length_hex (w n : Nat) : (hex w n).length = w := by
  induction w generalizing n with
  | zero => rfl
  | succ w ih => rw [hex, List.length_append, ih, List.length_singleton]

theorem hexDigit_spec {d : Nat} (hd : d < 16) :
    hexValue (hexDigit d) = some d ∧ isSpace (hexDigit d) = false ∧ hexDigit d ≠ 0 ∧
      hexDigit d ≠ 120 ∧ hexDigit d ≠ 88 ∧ hexDigit d ≠ 43 ∧ hexDigit d ≠ 45 := by
  have hall : ∀ d : Fin 16, hexValue (hexDigit d) = some d.val ∧ isSpace (hexDigit d) = false ∧
      hexDigit d ≠ 0 ∧ hexDigit d ≠ 120 ∧ hexDigit d ≠ 88 ∧ hexDigit d ≠ 43 ∧
      hexDigit d ≠ 45 := by
    decide +kernel
  exact hall ⟨d, hd⟩

theorem mem_hex {w n : Nat} {c : UInt8} (hc : c ∈ hex w n) : ∃ d < 16, c = hexDigit d := by
  induction w generalizing n with
  | zero => simp [hex] at hc
  | succ w ih =>
      rw [hex, List.mem_append, List.mem_singleton] at hc
      rcases hc with hc | hc
      · exact ih hc
      · exact ⟨n % 16, Nat.mod_lt n (by decide), hc⟩

theorem isHexDigit_of_mem_hex {w n : Nat} {c : UInt8} (hc : c ∈ hex w n) : isHexDigit c = true := by
  obtain ⟨d, hd, rfl⟩ := mem_hex hc
  rw [isHexDigit, (hexDigit_spec hd).1]
  rfl

theorem isSpace_of_mem_hex {w n : Nat} {c : UInt8} (hc : c ∈ hex w n) : isSpace c = false := by
  obtain ⟨d, hd, rfl⟩ := mem_hex hc
  exact (hexDigit_spec hd).2.1

/-! ## Scanning -/

def skipSpace (l : List UInt8) : List UInt8 := l.dropWhile isSpace

/-- `%s`: the bytes up to the next blank, behind the blanks in front. -/
def scanWord (l : List UInt8) : Option (List UInt8 × List UInt8) :=
  let l := skipSpace l
  let word := l.takeWhile fun c => !isSpace c
  if word.isEmpty then none else some (word, l.dropWhile fun c => !isSpace c)

/-- An optional sign; whether it is a minus. -/
def scanSign : List UInt8 → Bool × List UInt8
  | c :: l => if c = 45 then (true, l) else if c = 43 then (false, l) else (false, c :: l)
  | [] => (false, [])

/-- An optional `0x` or `0X`. -/
def skipPrefix : List UInt8 → List UInt8
  | a :: b :: l => if a = 48 ∧ (b = 120 ∨ b = 88) then l else a :: b :: l
  | l => l

/-- The number that hexadecimal digits stand for. -/
def digitsValue (ds : List UInt8) : Nat := ds.foldl (fun n c => 16 * n + (hexValue c).getD 0) 0

/-- `%x` into 32 bits; `overflow` is what a number that does not fit leaves there. -/
def scanHex (overflow : Bool → Nat → UInt32) (l : List UInt8) : Option (UInt32 × List UInt8) :=
  let (minus, l) := scanSign (skipSpace l)
  let l := skipPrefix l
  let ds := l.takeWhile isHexDigit
  let n := digitsValue ds
  if ds.isEmpty then none
  else some (if 2 ^ 32 ≤ n then overflow minus n else if minus then -UInt32.ofNat n
    else UInt32.ofNat n, l.dropWhile isHexDigit)

theorem digitsValue_append (ds : List UInt8) (c : UInt8) :
    digitsValue (ds ++ [c]) = 16 * digitsValue ds + (hexValue c).getD 0 :=
  List.foldl_concat ..

theorem digitsValue_hex {w n : Nat} (hn : n < 16 ^ w) : digitsValue (hex w n) = n := by
  induction w generalizing n with
  | zero =>
      rw [pow_zero, Nat.lt_one_iff] at hn
      rw [hn]
      rfl
  | succ w ih =>
      have hhigh : n / 16 < 16 ^ w := by
        rw [Nat.div_lt_iff_lt_mul (by decide)]
        exact hn
      rw [hex, digitsValue_append, ih hhigh, (hexDigit_spec (Nat.mod_lt n (by decide))).1]
      exact Nat.div_add_mod n 16

/-- The digits of a number are found again when no further digit follows. -/
theorem scanHex_of_digits {overflow : Bool → Nat → UInt32} {l rest : List UInt8} {w n : Nat}
    (hsign : (scanSign (skipSpace l)).1 = false)
    (hdigits : skipPrefix (scanSign (skipSpace l)).2 = hex (w + 1) n ++ rest)
    (hn : n < 16 ^ (w + 1)) (hsize : n < 2 ^ 32)
    (hrest : ∀ c ∈ rest.head?, isHexDigit c = false) :
    scanHex overflow l = some (UInt32.ofNat n, rest) := by
  have hall : ∀ c ∈ hex (w + 1) n, isHexDigit c = true := fun c hc => isHexDigit_of_mem_hex hc
  have hnone : rest.takeWhile isHexDigit = [] := by
    cases rest with
    | nil => rfl
    | cons c rest => exact List.takeWhile_cons_of_neg (by simp [hrest c (by simp)])
  have hkeep : rest.dropWhile isHexDigit = rest := by
    cases rest with
    | nil => rfl
    | cons c rest => exact List.dropWhile_cons_of_neg (by simp [hrest c (by simp)])
  have htake : (hex (w + 1) n ++ rest).takeWhile isHexDigit = hex (w + 1) n := by
    rw [List.takeWhile_append_of_pos hall, hnone, List.append_nil]
  have hdrop : (hex (w + 1) n ++ rest).dropWhile isHexDigit = rest := by
    rw [List.dropWhile_append_of_pos hall, hkeep]
  have hsome : (hex (w + 1) n).isEmpty = false := by simp [hex]
  unfold scanHex
  dsimp only
  rw [hdigits, hsign, htake, hdrop, hsome, digitsValue_hex hn, if_neg Bool.false_ne_true,
    if_neg (Nat.not_le.mpr hsize), if_neg Bool.false_ne_true]

theorem skipSpace_blanks (m : Nat) (l : List UInt8) :
    skipSpace (List.replicate m 32 ++ l) = skipSpace l := by
  apply List.dropWhile_append_of_pos
  intro c hc
  rw [List.eq_of_mem_replicate hc]
  rfl

theorem skipSpace_cons {c : UInt8} (hc : isSpace c = false) (l : List UInt8) :
    skipSpace (c :: l) = c :: l :=
  List.dropWhile_cons_of_neg (by simp [hc])

/-- A number printed with `0x`, behind any blanks. -/
theorem scanHex_prefixedHex (overflow : Bool → Nat → UInt32) (m : Nat) {w n : Nat}
    (hn : n < 16 ^ (w + 1)) (hsize : n < 2 ^ 32) {rest : List UInt8}
    (hrest : ∀ c ∈ rest.head?, isHexDigit c = false) :
    scanHex overflow (List.replicate m 32 ++ (prefixedHex (w + 1) n ++ rest)) =
      some (UInt32.ofNat n, rest) := by
  have hskip : skipSpace (List.replicate m 32 ++ (prefixedHex (w + 1) n ++ rest)) =
      48 :: 120 :: (hex (w + 1) n ++ rest) := by
    rw [skipSpace_blanks]
    exact skipSpace_cons (by decide) _
  apply scanHex_of_digits (w := w) (n := n) _ _ hn hsize hrest
  · rw [hskip]
    rfl
  · rw [hskip]
    rfl

/-- The digits of a number, without anything else. -/
theorem scanHex_hex (overflow : Bool → Nat → UInt32) {w n : Nat} (hn : n < 16 ^ (w + 1))
    (hsize : n < 2 ^ 32) : scanHex overflow (hex (w + 1) n) = some (UInt32.ofNat n, []) := by
  have hdigit : ∀ c ∈ hex (w + 1) n, isSpace c = false ∧ c ≠ 120 ∧ c ≠ 88 ∧ c ≠ 43 ∧ c ≠ 45 := by
    intro c hc
    obtain ⟨d, hd, rfl⟩ := mem_hex hc
    obtain ⟨-, hspace, -, hx, hX, hplus, hminus⟩ := hexDigit_spec hd
    exact ⟨hspace, hx, hX, hplus, hminus⟩
  have hskipped : scanSign (skipSpace (hex (w + 1) n)) = (false, hex (w + 1) n) ∧
      skipPrefix (hex (w + 1) n) = hex (w + 1) n := by
    generalize hex (w + 1) n = digits at hdigit
    cases digits with
    | nil => exact ⟨rfl, rfl⟩
    | cons c digits =>
        obtain ⟨hspace, -, -, hplus, hminus⟩ := hdigit c List.mem_cons_self
        refine ⟨by rw [skipSpace_cons hspace, scanSign, if_neg hminus, if_neg hplus], ?_⟩
        cases digits with
        | nil => rfl
        | cons c' digits =>
            obtain ⟨-, hx, hX, -, -⟩ := hdigit c' (List.mem_cons_of_mem _ List.mem_cons_self)
            rw [skipPrefix, if_neg fun h => h.2.elim hx hX]
  apply scanHex_of_digits (w := w) (n := n) _ _ hn hsize (by simp)
  · rw [hskipped.1]
  · rw [hskipped.1, List.append_nil]
    exact hskipped.2

/-- The two digits of a byte, without anything else. -/
theorem scanHex_byte (overflow : Bool → Nat → UInt32) (b : UInt8) :
    scanHex overflow (hex 2 b.toNat) = some (UInt32.ofNat b.toNat, []) := by
  have hb := b.toNat_lt
  exact scanHex_hex overflow (w := 1) (by omega) (by omega)

/-- `%x`. -/
def hexText (n : Nat) : List UInt8 := hex (Nat.log 16 n + 1) n

theorem digitsValue_hexText (n : Nat) : digitsValue (hexText n) = n :=
  digitsValue_hex (Nat.lt_pow_succ_log_self (by decide) n)

theorem hexText_injective : Function.Injective hexText := fun n m h => by
  rw [← digitsValue_hexText n, h, digitsValue_hexText]

theorem scanHex_hexText (overflow : Bool → Nat → UInt32) {n : Nat} (hsize : n < 2 ^ 32) :
    scanHex overflow (hexText n) = some (UInt32.ofNat n, []) :=
  scanHex_hex overflow (Nat.lt_pow_succ_log_self (by decide) n) hsize

/-- A number below `16 ^ w` takes no more than `w` digits. -/
theorem length_hexText_le {w n : Nat} (hw : 0 < w) (hn : n < 16 ^ w) :
    (hexText n).length ≤ w := by
  rw [hexText, length_hex]
  exact Nat.log_lt_of_lt_pow' (Nat.ne_of_gt hw) hn

/-- A word is found again when it is not empty and has no blanks. -/
theorem scanWord_blanks (m : Nat) {word rest : List UInt8} (hne : word ≠ [])
    (hword : ∀ c ∈ word, isSpace c = false) (hrest : ∀ c ∈ rest.head?, isSpace c = true) :
    scanWord (List.replicate m 32 ++ (word ++ rest)) = some (word, rest) := by
  have hall : ∀ c ∈ word, (!isSpace c) = true := fun c hc => by simp [hword c hc]
  have hnone : (rest.takeWhile fun c => !isSpace c) = [] := by
    cases rest with
    | nil => rfl
    | cons c rest => exact List.takeWhile_cons_of_neg (by simp [hrest c (by simp)])
  have hkeep : (rest.dropWhile fun c => !isSpace c) = rest := by
    cases rest with
    | nil => rfl
    | cons c rest => exact List.dropWhile_cons_of_neg (by simp [hrest c (by simp)])
  have hskip : skipSpace (List.replicate m 32 ++ (word ++ rest)) = word ++ rest := by
    rw [skipSpace_blanks]
    cases word with
    | nil => exact absurd rfl hne
    | cons c word => exact skipSpace_cons (hword c List.mem_cons_self) _
  unfold scanWord
  dsimp only
  rw [hskip, List.takeWhile_append_of_pos hall, List.dropWhile_append_of_pos hall, hnone, hkeep,
    List.append_nil, if_neg]
  rwa [List.isEmpty_iff]

/-- A word is never empty and never has blanks. -/
theorem of_scanWord {l word rest : List UInt8} (h : scanWord l = some (word, rest)) :
    word ≠ [] ∧ (∀ c ∈ word, isSpace c = false) ∧ word <:+: l := by
  unfold scanWord at h
  dsimp only at h
  split at h
  next => contradiction
  next hne =>
    obtain ⟨rfl, -⟩ := Prod.mk.inj (Option.some.inj h)
    refine ⟨fun hnil => hne (by rw [hnil]; rfl), fun c hc => ?_, ?_⟩
    · simpa using List.mem_takeWhile_imp hc
    · exact (List.takeWhile_prefix _).isInfix.trans (List.dropWhile_suffix _).isInfix

/-- What follows a number is an end of the text. -/
theorem scanHex_suffix {overflow : Bool → Nat → UInt32} {l rest : List UInt8} {v : UInt32}
    (h : scanHex overflow l = some (v, rest)) : rest <:+ l := by
  have hsign : ∀ l : List UInt8, (scanSign l).2 <:+ l := by
    intro l
    unfold scanSign
    split
    next c l =>
      split
      next => exact List.suffix_cons c l
      next =>
        split
        next => exact List.suffix_cons c l
        next => exact List.suffix_rfl
    next => exact List.suffix_rfl
  have hmarker : ∀ l : List UInt8, skipPrefix l <:+ l := by
    intro l
    unfold skipPrefix
    split
    next a b l =>
      split
      next => exact (List.suffix_cons b l).trans (List.suffix_cons a (b :: l))
      next => exact List.suffix_rfl
    next => exact List.suffix_rfl
  unfold scanHex at h
  dsimp only at h
  split at h
  next => contradiction
  next =>
    obtain ⟨-, rfl⟩ := Prod.mk.inj (Option.some.inj h)
    apply (List.dropWhile_suffix _).trans
    exact (hmarker _).trans ((hsign _).trans (List.dropWhile_suffix _))

/-! ## Lines -/

/-- `fgets` until the end of the text, at most `n` bytes at a time; `line` is
what has been read of the line already. -/
def getsLines (n : Nat) (line : List UInt8) : List UInt8 → List (List UInt8)
  | [] => if line.isEmpty then [] else [line]
  | c :: text =>
      if c = 10 ∨ line.length + 1 = n then (line ++ [c]) :: getsLines n [] text
      else getsLines n (line ++ [c]) text

theorem getsLines_line {n : Nat} {line rest : List UInt8} (hline : (10 : UInt8) ∉ rest)
    (hlen : line.length + rest.length < n) (text : List UInt8) :
    getsLines n line (rest ++ 10 :: text) = (line ++ rest ++ [10]) :: getsLines n [] text := by
  induction rest generalizing line with
  | nil => simp [getsLines]
  | cons c rest ih =>
      rw [List.mem_cons, not_or] at hline
      obtain ⟨hc, hrest⟩ := hline
      rw [List.length_cons] at hlen
      rw [List.cons_append, getsLines, if_neg (not_or.mpr ⟨Ne.symm hc, by omega⟩), ih hrest]
      · simp
      · rw [List.length_append, List.length_singleton]
        omega

/-- Records printed line by line are scanned line by line. -/
theorem filterMap_getsLines {α : Type} {n : Nat} {print : α → List UInt8}
    {scan : List UInt8 → Option α} {as : List α}
    (hprint : ∀ a ∈ as, (10 : UInt8) ∉ print a ∧ (print a).length < n)
    (hscan : ∀ a ∈ as, scan (print a ++ [10]) = some a) :
    (getsLines n [] (as.flatMap fun a => print a ++ [10])).filterMap scan = as := by
  induction as with
  | nil => rfl
  | cons a as ih =>
      obtain ⟨hline, hlen⟩ := hprint a List.mem_cons_self
      have htail := ih (fun a' ha' => hprint a' (List.mem_cons_of_mem _ ha'))
        fun a' ha' => hscan a' (List.mem_cons_of_mem _ ha')
      rw [List.flatMap_cons, List.append_assoc, List.singleton_append,
        getsLines_line hline (by simpa using hlen), List.nil_append,
        List.filterMap_cons_some (hscan a List.mem_cons_self), htail]

end Formatted
