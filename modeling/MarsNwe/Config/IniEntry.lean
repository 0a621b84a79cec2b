import Mathlib.Data.List.DropRight
import MarsNwe.Lib.CText
import MarsNwe.Lib.Decimal
import MarsNwe.Lib.Machine

/-! # Entries of the ini file

`get_ini_entry` reads on in an open file until a line has an entry that is asked
for. Where a line has its number and its value is found by one loop with a counter
and two pointers; they are the number before the first blank and the text after it,
without blanks around it and without a comment.
-/

namespace MarsNwe

open Formatted (atoi getsLines)

/-! ## The code -/

/-- The blanks of the ini file. -/
def blankByte (c : UInt8) : Bool := c = 9 ∨ c = 32

/-- The characters that end the text of a line: `#`, CR and LF. -/
def endsText (c : UInt8) : Bool := c = 0x23 ∨ c = 13 ∨ c = 10

/-- The variables of the loop; the pointers are offsets. -/
structure IniScan where
  se : Nat
  ppi : Option Nat
  ppe : Option Nat
deriving DecidableEq

/-- The loop of `get_ini_entry` from the character `j` on, with the length it leaves. -/
def iniScan : (text : List UInt8) → (j : Nat) → IniScan → Nat × IniScan
  | [], j, s => (j, s)
  | c :: text, j, s =>
      if endsText c then (j, s)
      else if blankByte c then iniScan text (j + 1) (if s.se = 0 then { s with se := j } else s)
      else
        iniScan text (j + 1)
          { s with ppi := if s.ppi.isNone ∧ s.se ≠ 0 then some j else s.ppi, ppe := some j }

/-- What `get_ini_entry` makes of a line: the number and the value, or nothing when the
line has no entry or not the one that is asked for. -/
def iniLine (buff : List UInt8) (entry : Int) (strsize : Nat) : Option (Int × List UInt8) :=
  let text := (CText.visible buff).dropWhile blankByte
  let (len, s) := iniScan text 0 ⟨0, none, none⟩
  match s.ppi with
  | none => none
  | some ppi =>
      if s.se + 1 < len ∧ 0 < s.se ∧ s.se < 4 then
        let fentry := atoi (text.take s.se)
        if 0 < fentry ∧ (entry = 0 ∨ entry = fentry) then
          some (fentry, ((text.take (s.ppe.getD 0 + 1)).drop ppi).take (strsize - 1))
        else none
      else none

/-- An open file: what `fgets` returns from now on. -/
abbrev IniFile := List (List UInt8)

/-- The file at its beginning, read in pieces of 511 bytes at most. -/
def IniFile.rewind (text : List UInt8) : IniFile := getsLines 511 [] text

/-- `get_ini_entry` on an open file; nothing is 0. -/
def getIniEntry : IniFile → (entry : Int) → (strsize : Nat) → Option (Int × List UInt8) × IniFile
  | [], _, _ => (none, [])
  | buff :: f, entry, strsize =>
      match iniLine buff entry strsize with
      | some found => (some found, f)
      | none => getIniEntry f entry strsize

/-- A call of `get_ini_entry`, with a buffer that has room for the end of a text. -/
structure IniCall where
  entry : Int
  strsize : Nat
  room : 1 ≤ strsize

/-- A program that reads entries of an open file. -/
def iniMachine : Machine IniFile IniCall (Option (Int × List UInt8)) where
  step f c := getIniEntry f c.entry c.strsize

/-! ## What a line says -/

/-- A number and its value. -/
structure IniEntry where
  number : Int
  value : List UInt8
deriving DecidableEq

/-- The text of a line, without the blanks before it and what ends it. -/
def lineText (buff : List UInt8) : List UInt8 :=
  ((CText.visible buff).dropWhile blankByte).takeWhile fun c => !endsText c

/-- A text is a number of three characters at most, blanks, and the value up to its
last character that is not blank. -/
def textEntry (text : List UInt8) : Option IniEntry :=
  let key := text.takeWhile fun c => !blankByte c
  let value := ((text.dropWhile fun c => !blankByte c).dropWhile blankByte).rdropWhile blankByte
  if key.length < 4 ∧ value ≠ [] ∧ 0 < atoi key then some ⟨atoi key, value⟩ else none

/-- What a line says. -/
def lineEntry (buff : List UInt8) : Option IniEntry := textEntry (lineText buff)

/-- The entry asks for all numbers or for this one. -/
def IniCall.Wants (c : IniCall) (e : IniEntry) : Prop := c.entry = 0 ∨ c.entry = e.number

instance (c : IniCall) (e : IniEntry) : Decidable (c.Wants e) :=
  inferInstanceAs (Decidable (_ ∨ _))

/-- The answer that hands out an entry: the value, cut to its buffer. -/
def IniCall.answer (c : IniCall) (e : IniEntry) : Int × List UInt8 :=
  (e.number, e.value.take (c.strsize - 1))

/-- A list of entries that is read from its front: a call takes the first entry it
wants, and what stands before it is passed over. -/
def entryMachine : Machine (List IniEntry) IniCall (Option (Int × List UInt8)) where
  step es c :=
    match es.dropWhile fun e => ¬c.Wants e with
    | [] => (none, [])
    | e :: es => (some (c.answer e), es)

/-! ## The loop -/

section Loop

variable {text more : List UInt8} {j : Nat}

theorem blankByte_not_ends {c : UInt8} (h : blankByte c = true) : endsText c = false := by
  rcases of_decide_eq_true h with rfl | rfl <;> rfl

theorem iniScan_stop (hmore : ∀ c ∈ more.head?, endsText c = true) (s : IniScan) :
    iniScan more j s = (j, s) := by
  cases more with
  | nil => rfl
  | cons c more => rw [iniScan, if_pos (hmore c rfl)]

/-- Behind the first blank, further blanks change nothing. -/
theorem iniScan_blanks {gap : List UInt8} (hgap : ∀ c ∈ gap, blankByte c = true) {s : IniScan}
    (hse : s.se ≠ 0) : iniScan (gap ++ more) j s = iniScan more (j + gap.length) s := by
  induction gap generalizing j with
  | nil => rfl
  | cons c gap ih =>
      have hc := hgap c List.mem_cons_self
      rw [List.cons_append, iniScan, blankByte_not_ends hc, if_neg Bool.false_ne_true, if_pos hc,
        if_neg hse, ih fun c hc => hgap c (List.mem_cons_of_mem _ hc), List.length_cons]
      congr 1
      omega

/-- The number, as long as no blank has been seen. -/
theorem iniScan_key {key : List UInt8}
    (hkey : ∀ c ∈ key, endsText c = false ∧ blankByte c = false) (ppe : Option Nat) :
    ∃ ppe', iniScan (key ++ more) j ⟨0, none, ppe⟩ =
      iniScan more (j + key.length) ⟨0, none, ppe'⟩ := by
  induction key generalizing j ppe with
  | nil => exact ⟨ppe, rfl⟩
  | cons c key ih =>
      obtain ⟨hends, hblank⟩ := hkey c List.mem_cons_self
      obtain ⟨ppe', hrest⟩ :=
        @ih (j + 1) (fun c hc => hkey c (List.mem_cons_of_mem _ hc)) (some j)
      refine ⟨ppe', ?_⟩
      rw [List.cons_append, iniScan, hends, if_neg Bool.false_ne_true, hblank,
        if_neg Bool.false_ne_true]
      simp only [ne_eq, not_true_eq_false, and_false, if_false]
      rw [hrest, List.length_cons]
      congr 1
      omega

/-- The first blanks put the end of the number. -/
theorem iniScan_gap {gap : List UInt8} (hgap : ∀ c ∈ gap, blankByte c = true) (hne : gap ≠ [])
    (hj : j ≠ 0) (ppe : Option Nat) :
    iniScan (gap ++ more) j ⟨0, none, ppe⟩ = iniScan more (j + gap.length) ⟨j, none, ppe⟩ := by
  obtain ⟨c, gap, rfl⟩ := List.exists_cons_of_ne_nil hne
  have hc := hgap c List.mem_cons_self
  rw [List.cons_append, iniScan, blankByte_not_ends hc, if_neg Bool.false_ne_true, if_pos hc,
    if_pos rfl, iniScan_blanks (fun c hc => hgap c (List.mem_cons_of_mem _ hc)) hj,
    List.length_cons]
  congr 1
  omega

theorem rdropWhile_cons (p : UInt8 → Bool) (c : UInt8) (l : List UInt8) :
    (c :: l).rdropWhile p =
      if l.rdropWhile p = [] then [c].rdropWhile p else c :: l.rdropWhile p := by
  unfold List.rdropWhile
  rw [List.reverse_cons, List.dropWhile_append]
  by_cases hnil : l.reverse.dropWhile p = []
  · rw [if_pos (by rw [hnil]; rfl), if_pos (by rw [hnil]; rfl), List.reverse_singleton]
  · rw [if_neg (by rwa [List.isEmpty_iff]), if_neg (by rwa [List.reverse_eq_nil_iff]),
      List.reverse_append, List.reverse_singleton, List.singleton_append]

/-- The value: its last character that is not blank is remembered. -/
theorem iniScan_value {value : List UInt8} (hvalue : ∀ c ∈ value, endsText c = false)
    (hmore : ∀ c ∈ more.head?, endsText c = true) {s : IniScan} (hse : s.se ≠ 0) {i : Nat}
    (hppi : s.ppi = some i) :
    iniScan (value ++ more) j s = (j + value.length,
      { s with ppe := if value.rdropWhile blankByte = [] then s.ppe
        else some (j + (value.rdropWhile blankByte).length - 1) }) := by
  induction value generalizing j s with
  | nil =>
      rw [List.nil_append, iniScan_stop hmore]
      simp
  | cons c value ih =>
      have hends := hvalue c List.mem_cons_self
      have hrest : ∀ c ∈ value, endsText c = false :=
        fun c hc => hvalue c (List.mem_cons_of_mem _ hc)
      rw [List.cons_append, iniScan, hends, if_neg Bool.false_ne_true, rdropWhile_cons]
      have hlen : j + 1 + value.length = j + (c :: value).length := by
        rw [List.length_cons]
        omega
      by_cases hblank : blankByte c = true
      · have hone : [c].rdropWhile blankByte = [] := by simp [List.rdropWhile, hblank]
        rw [if_pos hblank, if_neg hse, ih hrest hse hppi, hlen, hone]
        by_cases hnil : value.rdropWhile blankByte = []
        · rw [if_pos hnil, if_pos hnil, if_pos rfl]
        · rw [if_neg hnil, if_neg hnil, if_neg (List.cons_ne_nil _ _)]
          congr 4
          rw [List.length_cons]
          omega
      · have hone : [c].rdropWhile blankByte = [c] := by simp [List.rdropWhile, hblank]
        have hkeep : (if s.ppi.isNone = true ∧ s.se ≠ 0 then some j else s.ppi) = some i := by
          rw [hppi]
          rfl
        rw [if_neg hblank, hkeep, ih (s := { s with ppi := some i, ppe := some j }) hrest hse rfl,
          hlen, hone, hppi]
        by_cases hnil : value.rdropWhile blankByte = []
        · rw [if_pos hnil, if_pos hnil, if_neg (List.cons_ne_nil _ _)]
          rfl
        · rw [if_neg hnil, if_neg hnil, if_neg (List.cons_ne_nil _ _)]
          congr 4
          rw [List.length_cons]
          omega

/-- The parts of a text that begins without a blank: its number, the blanks behind it,
the value with the blanks that follow, and what ends the text. -/
structure IsLine (key gap value more : List UInt8) : Prop where
  number : ∀ c ∈ key, endsText c = false ∧ blankByte c = false
  blanks : ∀ c ∈ gap, blankByte c = true
  text : ∀ c ∈ value, endsText c = false
  head : ∀ c ∈ value.head?, blankByte c = false
  ended : ∀ c ∈ more.head?, endsText c = true
  gap_ne : value ≠ [] → gap ≠ []
  key_ne : gap ≠ [] → key ≠ []

variable {key gap value : List UInt8}

/-- A line without a value: there is no pointer to one. -/
theorem IsLine.scan_nil (h : IsLine key gap [] more) :
    (iniScan (key ++ (gap ++ more)) 0 ⟨0, none, none⟩).2.ppi = none := by
  obtain ⟨ppe, hscan⟩ := @iniScan_key (gap ++ more) 0 key h.number none
  rw [hscan, Nat.zero_add]
  by_cases hne : gap = []
  · rw [hne, List.nil_append, iniScan_stop h.ended]
  · have hpos := List.length_pos_iff.mpr (h.key_ne hne)
    rw [iniScan_gap h.blanks hne (by omega), iniScan_stop h.ended]

/-- A line with a value: where the number ends and the value begins and ends. -/
theorem IsLine.scan (h : IsLine key gap value more) (hvalue : value ≠ []) :
    iniScan (key ++ (gap ++ (value ++ more))) 0 ⟨0, none, none⟩ =
      (key.length + gap.length + value.length, ⟨key.length, some (key.length + gap.length),
        some (key.length + gap.length + (value.rdropWhile blankByte).length - 1)⟩) := by
  have hpos := List.length_pos_iff.mpr (h.key_ne (h.gap_ne hvalue))
  have hse : key.length ≠ 0 := by omega
  obtain ⟨c, value, rfl⟩ := List.exists_cons_of_ne_nil hvalue
  have hc := h.head c rfl
  obtain ⟨ppe, hscan⟩ := @iniScan_key (gap ++ (c :: value ++ more)) 0 key h.number none
  have hone : [c].rdropWhile blankByte = [c] := by simp [List.rdropWhile, hc]
  rw [hscan, Nat.zero_add, iniScan_gap h.blanks (h.gap_ne hvalue) hse, List.cons_append, iniScan,
    h.text c List.mem_cons_self, if_neg Bool.false_ne_true, hc, if_neg Bool.false_ne_true]
  simp only [Option.isNone_none, ne_eq, hse, not_false_eq_true, and_self, if_true]
  rw [iniScan_value (fun d hd => h.text d (List.mem_cons_of_mem _ hd)) h.ended hse rfl,
    rdropWhile_cons, hone, List.length_cons]
  by_cases hnil : value.rdropWhile blankByte = []
  · rw [if_pos hnil, if_pos hnil]
    congr 1
    omega
  · rw [if_neg hnil, if_neg hnil, List.length_cons]
    congr 1
    · omega
    · congr 2
      omega

end Loop

/-! ## Lines and their parts -/

section Parts

variable {key gap value more : List UInt8}

theorem head?_dropWhile_false (p : UInt8 → Bool) (l : List UInt8) :
    ∀ c ∈ (l.dropWhile p).head?, p c = false := by
  intro c hc
  have hnot := List.head?_dropWhile_not p l
  rw [Option.mem_def.mp hc] at hnot
  exact hnot

theorem takeWhile_dropWhile_append {p : UInt8 → Bool} {s t : List UInt8}
    (hs : ∀ c ∈ s, p c = true) (ht : ∀ c ∈ t.head?, p c = false) :
    (s ++ t).takeWhile p = s ∧ (s ++ t).dropWhile p = t := by
  rw [List.takeWhile_append_of_pos hs, List.dropWhile_append_of_pos hs]
  cases t with
  | nil => simp
  | cons c t =>
      have hc := ht c rfl
      rw [List.takeWhile_cons_of_neg (by simp [hc]), List.dropWhile_cons_of_neg (by simp [hc]),
        List.append_nil]
      exact ⟨rfl, rfl⟩

theorem exists_isLine {text : List UInt8} (hhead : ∀ c ∈ text.head?, blankByte c = false) :
    ∃ key gap value more, text = key ++ (gap ++ (value ++ more)) ∧
      IsLine key gap value more := by
  have hsplit := List.takeWhile_append_dropWhile (p := fun c => !endsText c) (l := text)
  have hline : ∀ c ∈ text.takeWhile fun c => !endsText c, endsText c = false := fun c hc => by
    simpa using List.mem_takeWhile_imp hc
  have hmore : ∀ c ∈ (text.dropWhile fun c => !endsText c).head?, endsText c = true :=
    fun c hc => by simpa using head?_dropWhile_false _ _ c hc
  generalize (text.takeWhile fun c => !endsText c) = line at hsplit hline
  generalize (text.dropWhile fun c => !endsText c) = more at hsplit hmore
  have hkeySplit := List.takeWhile_append_dropWhile (p := fun c => !blankByte c) (l := line)
  have hkey : ∀ c ∈ line.takeWhile fun c => !blankByte c, blankByte c = false := fun c hc => by
    simpa using List.mem_takeWhile_imp hc
  have hafter : ∀ c ∈ (line.dropWhile fun c => !blankByte c).head?, blankByte c = true :=
    fun c hc => by simpa using head?_dropWhile_false _ _ c hc
  generalize (line.takeWhile fun c => !blankByte c) = key at hkeySplit hkey
  generalize (line.dropWhile fun c => !blankByte c) = after at hkeySplit hafter
  have hgapSplit := List.takeWhile_append_dropWhile (p := blankByte) (l := after)
  have hgap : ∀ c ∈ after.takeWhile blankByte, blankByte c = true := fun c hc =>
    List.mem_takeWhile_imp hc
  have hvalue := head?_dropWhile_false blankByte after
  generalize after.takeWhile blankByte = gap at hgapSplit hgap
  generalize after.dropWhile blankByte = value at hgapSplit hvalue
  subst hgapSplit hkeySplit hsplit
  refine ⟨key, gap, value, more, by simp only [List.append_assoc], ⟨fun c hc =>
    ⟨hline c (List.mem_append_left _ hc), hkey c hc⟩, hgap, fun c hc =>
      hline c (List.mem_append_right _ (List.mem_append_right _ hc)), hvalue, hmore, ?_, ?_⟩⟩
  · rintro hne rfl
    obtain ⟨c, value, rfl⟩ := List.exists_cons_of_ne_nil hne
    have hnot := hvalue c rfl
    rw [hafter c rfl] at hnot
    cases hnot
  · rintro hne rfl
    obtain ⟨c, gap, rfl⟩ := List.exists_cons_of_ne_nil hne
    have hnot := hhead c rfl
    rw [hgap c List.mem_cons_self] at hnot
    cases hnot

/-- The text of a line is what stands before its end. -/
theorem IsLine.line_eq (h : IsLine key gap value more) :
    (key ++ (gap ++ (value ++ more))).takeWhile (fun c => !endsText c) =
      key ++ (gap ++ value) := by
  have hall : ∀ c ∈ key ++ (gap ++ value), (!endsText c) = true := by
    intro c hc
    rcases List.mem_append.mp hc with hkey | hrest
    · rw [(h.number c hkey).1, Bool.not_false]
    · rcases List.mem_append.mp hrest with hgap | hvalue
      · rw [blankByte_not_ends (h.blanks c hgap), Bool.not_false]
      · rw [h.text c hvalue, Bool.not_false]
  rw [← List.append_assoc gap, ← List.append_assoc key]
  exact (takeWhile_dropWhile_append hall fun c hc => by rw [h.ended c hc, Bool.not_true]).1

/-- Its entry is made of its parts. -/
theorem IsLine.entry (h : IsLine key gap value more) :
    textEntry (key ++ (gap ++ value)) =
      if key.length < 4 ∧ value.rdropWhile blankByte ≠ [] ∧ 0 < atoi key then
        some ⟨atoi key, value.rdropWhile blankByte⟩
      else none := by
  have hafter : ∀ c ∈ (gap ++ value).head?, (!blankByte c) = false := by
    intro c hc
    cases gap with
    | nil =>
        have hnil : value = [] := not_not.mp fun hne => h.gap_ne hne rfl
        rw [hnil] at hc
        cases hc
    | cons d gap =>
        obtain rfl := Option.some.inj hc
        rw [h.blanks d List.mem_cons_self, Bool.not_true]
  obtain ⟨hkey, hrest⟩ := takeWhile_dropWhile_append (t := gap ++ value)
    (fun c hc => by rw [(h.number c hc).2, Bool.not_false]) hafter
  unfold textEntry
  rw [hkey, hrest, (takeWhile_dropWhile_append h.blanks h.head).2]

end Parts

/-- The code reads from a line what the line says. -/
theorem iniLine_eq (buff : List UInt8) (c : IniCall) :
    iniLine buff c.entry c.strsize =
      ((lineEntry buff).filter fun e => c.Wants e).map c.answer := by
  unfold iniLine lineEntry lineText
  dsimp only
  have hhead := head?_dropWhile_false blankByte (CText.visible buff)
  generalize (CText.visible buff).dropWhile blankByte = text at hhead ⊢
  obtain ⟨key, gap, value, more, rfl, hline⟩ := exists_isLine hhead
  rw [hline.line_eq, hline.entry]
  by_cases hvalue : value = []
  · subst hvalue
    have hscan := hline.scan_nil
    rw [List.nil_append]
    generalize iniScan (key ++ (gap ++ more)) 0 ⟨0, none, none⟩ = r at hscan ⊢
    obtain ⟨len, s⟩ := r
    dsimp only at hscan ⊢
    rw [hscan]
    simp [List.rdropWhile]
  · have hfoundNe : value.rdropWhile blankByte ≠ [] := by
      obtain ⟨d, rest, rfl⟩ := List.exists_cons_of_ne_nil hvalue
      rw [rdropWhile_cons]
      split
      · simp [List.rdropWhile, hline.head d rfl]
      · simp
    obtain ⟨rest, hrest⟩ := List.rdropWhile_prefix blankByte value
    rw [hline.scan hvalue]
    generalize value.rdropWhile blankByte = found at hfoundNe hrest ⊢
    have hkeyPos := List.length_pos_iff.mpr (hline.key_ne (hline.gap_ne hvalue))
    have hgapPos := List.length_pos_iff.mpr (hline.gap_ne hvalue)
    have hvaluePos := List.length_pos_iff.mpr hvalue
    have hfoundPos := List.length_pos_iff.mpr hfoundNe
    have hlen : key.length + 1 < key.length + gap.length + value.length := by omega
    have hnumber : (key ++ (gap ++ (value ++ more))).take key.length = key :=
      List.take_left' rfl
    have hfound : ((key ++ (gap ++ (value ++ more))).take
        (key.length + gap.length + found.length - 1 + 1)).drop (key.length + gap.length) =
        found := by
      have hend : key.length + gap.length + found.length - 1 + 1 =
          (key ++ gap).length + found.length := by
        rw [List.length_append]
        omega
      have hfirst : (value ++ more).take found.length = found := by
        rw [← hrest, List.append_assoc, List.take_left' rfl]
      rw [← List.append_assoc key, hend, List.take_length_add_append, hfirst,
        ← List.length_append, List.drop_left]
    dsimp only [Option.getD_some]
    rw [hnumber, hfound]
    by_cases hshort : key.length < 4
    · rw [if_pos ⟨hlen, hkeyPos, hshort⟩]
      by_cases hpos : 0 < atoi key
      · by_cases hwants : c.Wants ⟨atoi key, found⟩
        · rw [if_pos ⟨hpos, hwants⟩, if_pos ⟨hshort, hfoundNe, hpos⟩, Option.filter_some,
            if_pos (decide_eq_true hwants)]
          rfl
        · rw [if_neg fun h => hwants h.2, if_pos ⟨hshort, hfoundNe, hpos⟩, Option.filter_some,
            if_neg (by simpa using hwants)]
          rfl
      · rw [if_neg fun h => hpos h.1, if_neg fun h => hpos h.2.2]
        rfl
    · rw [if_neg fun h => hshort h.2.2, if_neg fun h => hshort h.1]
      rfl

end MarsNwe
