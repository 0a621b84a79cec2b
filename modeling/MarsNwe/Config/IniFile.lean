import MarsNwe.Config.IniEntry

/-! # Reading an ini file

A program that reads an ini file gets the entries of its lines, in their order, and
from a file that was written line by line the entries that were written.
-/

namespace MarsNwe

open Formatted (atoi getsLines decimalText)

/-! ## Any file -/

/-- The entries of the lines that are still to be read. -/
def IniFile.entries (f : IniFile) : List IniEntry := f.filterMap lineEntry

/-- A call reads up to the first entry it wants. -/
theorem getIniEntry_entries (f : IniFile) (c : IniCall) :
    (iniMachine.step f c).1 = (entryMachine.step f.entries c).1 ∧
      IniFile.entries (iniMachine.step f c).2 = (entryMachine.step f.entries c).2 := by
  induction f with
  | nil => exact ⟨rfl, rfl⟩
  | cons buff f ih =>
      have hline := iniLine_eq buff c
      unfold iniMachine at ih ⊢
      dsimp only at ih ⊢
      rw [getIniEntry, hline]
      cases htext : lineEntry buff with
      | none =>
          rw [IniFile.entries, List.filterMap_cons_none htext]
          exact ih
      | some e =>
          rw [IniFile.entries, List.filterMap_cons_some htext, Option.filter_some]
          unfold entryMachine
          dsimp only
          by_cases hwants : c.Wants e
          · rw [if_pos (decide_eq_true hwants), List.dropWhile_cons_of_neg (by simpa using hwants)]
            exact ⟨rfl, rfl⟩
          · rw [if_neg (by simpa using hwants), List.dropWhile_cons_of_pos (by simpa using hwants)]
            exact ih

theorem iniMachine_answers (f : IniFile) (calls : List IniCall) :
    iniMachine.answers f calls = entryMachine.answers f.entries calls := by
  induction calls generalizing f with
  | nil => rfl
  | cons c calls ih =>
      obtain ⟨hanswer, hnext⟩ := getIniEntry_entries f c
      rw [Machine.answers, Machine.answers, hanswer, ih, hnext]

/-- What a line says is part of the line. -/
theorem noNul_lineEntry {buff : List UInt8} {e : IniEntry} (h : lineEntry buff = some e) :
    (0 : UInt8) ∉ e.value := by
  unfold lineEntry textEntry at h
  dsimp only at h
  split at h
  · obtain rfl := Option.some.inj h
    intro hmem
    have hvalue := (List.rdropWhile_prefix _ _).subset hmem
    have hafter := (List.dropWhile_sublist _).subset ((List.dropWhile_sublist _).subset hvalue)
    have htext := (List.takeWhile_prefix _).subset hafter
    exact CText.noNul_visible buff ((List.dropWhile_sublist _).subset htext)
  · cases h

/-- Asked for any entry, the file gives its next one. -/
theorem getIniEntry_any (f : IniFile) {c : IniCall} (hany : c.entry = 0) :
    (∃ f', getIniEntry f c.entry c.strsize = (none, f') ∧ f.entries = []) ∨
      ∃ e f', getIniEntry f c.entry c.strsize = (some (c.answer e), f') ∧
        f.entries = e :: IniFile.entries f' := by
  obtain ⟨hanswer, hnext⟩ := getIniEntry_entries f c
  have hwants : ∀ e : IniEntry, c.Wants e := fun _ => .inl hany
  unfold iniMachine entryMachine at hanswer hnext
  dsimp only at hanswer hnext
  generalize hread : getIniEntry f c.entry c.strsize = r at hanswer hnext ⊢
  obtain ⟨found, f'⟩ := r
  cases hentries : f.entries with
  | nil =>
      rw [hentries] at hanswer
      exact .inl ⟨f', Prod.ext hanswer rfl, rfl⟩
  | cons e es =>
      rw [hentries, List.dropWhile_cons_of_neg (by simp [hwants e])] at hanswer hnext
      exact .inr ⟨e, f', Prod.ext hanswer rfl, by rw [hnext]⟩

/-! ## Written files -/

/-- A line with an entry, as somebody writes it: blanks anywhere around the number and
the value, and a comment behind them. -/
structure WrittenEntry where
  lead : List UInt8
  number : Nat
  gap : List UInt8
  value : List UInt8
  trail : List UInt8
  comment : List UInt8
  blanks : ∀ c ∈ lead ++ gap ++ trail, blankByte c = true
  number_pos : 0 < number
  number_lt : number < 1000
  gap_ne : gap ≠ []
  value_ne : value ≠ []
  value_text : ∀ c ∈ value, endsText c = false ∧ c ≠ 0
  value_head : ∀ c ∈ value.head?, blankByte c = false
  value_last : ∀ c ∈ value.getLast?, blankByte c = false
  comment_head : ∀ c ∈ comment.head?, c = 0x23
  comment_line : (10 : UInt8) ∉ comment

/-- A line without an entry: blanks and a comment, or nothing at all. -/
structure Remark where
  lead : List UInt8
  comment : List UInt8
  blanks : ∀ c ∈ lead, blankByte c = true
  comment_head : ∀ c ∈ comment.head?, c = 0x23
  comment_line : (10 : UInt8) ∉ comment

def WrittenEntry.text (e : WrittenEntry) : List UInt8 :=
  e.lead ++ (decimalText e.number ++ (e.gap ++ (e.value ++ e.trail ++ e.comment)))

def Remark.text (r : Remark) : List UInt8 := r.lead ++ r.comment

/-- A line of an ini file. With its end it fits the buffer it is read into. -/
inductive IniText
  | entry (e : WrittenEntry) (length : e.text.length < 511)
  | remark (r : Remark) (length : r.text.length < 511)

namespace IniText

def text : IniText → List UInt8
  | .entry e _ => e.text
  | .remark r _ => r.text

/-- The entry that was written. -/
def entry? : IniText → Option IniEntry
  | .entry e _ => some ⟨e.number, e.value⟩
  | .remark _ _ => none

/-- The file that the lines make. -/
def print (lines : List IniText) : List UInt8 := lines.flatMap fun l => l.text ++ [10]

end IniText

theorem noEnd_of_blank {c : UInt8} (h : blankByte c = true) : c ≠ 10 ∧ c ≠ 0 := by
  rcases of_decide_eq_true h with rfl | rfl <;> decide

theorem visible_append {s t : List UInt8} (hs : (0 : UInt8) ∉ s) :
    CText.visible (s ++ t) = s ++ CText.visible t := by
  refine List.takeWhile_append_of_pos fun c hc => ?_
  simpa using ne_of_mem_of_not_mem hc hs

/-- What follows a text is its end: a comment, or the end of the line. -/
theorem visible_comment {comment : List UInt8} (hhead : ∀ c ∈ comment.head?, c = 0x23) :
    ∀ c ∈ (CText.visible (comment ++ [10])).head?, endsText c = true := by
  cases comment with
  | nil =>
      intro c hc
      obtain rfl : (10 : UInt8) = c := by simpa [CText.visible] using hc
      rfl
  | cons d comment =>
      obtain rfl := hhead d rfl
      intro c hc
      obtain rfl : (0x23 : UInt8) = c := by simpa [CText.visible] using hc
      rfl

theorem Remark.entry (r : Remark) : lineEntry (r.text ++ [10]) = none := by
  have hnul : (0 : UInt8) ∉ r.lead := fun h => (noEnd_of_blank (r.blanks 0 h)).2 rfl
  have hends := visible_comment r.comment_head
  have hblank : ∀ c ∈ (CText.visible (r.comment ++ [10])).head?, blankByte c = false := by
    intro c hc
    by_contra hc'
    have hnot := blankByte_not_ends (by simpa using hc')
    rw [hends c hc] at hnot
    cases hnot
  unfold lineEntry lineText Remark.text
  rw [List.append_assoc, visible_append hnul,
    (takeWhile_dropWhile_append r.blanks hblank).2]
  cases hvisible : CText.visible (r.comment ++ [10]) with
  | nil => rfl
  | cons c rest =>
      rw [hvisible] at hends
      rw [List.takeWhile_cons_of_neg (by simp [hends c rfl])]
      rfl

namespace WrittenEntry

variable (e : WrittenEntry)

theorem blank_lead {c : UInt8} (hc : c ∈ e.lead) : blankByte c = true :=
  e.blanks c (by simp [hc])

theorem blank_gap {c : UInt8} (hc : c ∈ e.gap) : blankByte c = true :=
  e.blanks c (by simp [hc])

theorem blank_trail {c : UInt8} (hc : c ∈ e.trail) : blankByte c = true :=
  e.blanks c (by simp [hc])

theorem digit_text {c : UInt8} (hc : c ∈ decimalText e.number) :
    endsText c = false ∧ blankByte c = false ∧ c ≠ 0 ∧ c ≠ 10 := by
  have hall : ∀ n : Fin 256, Formatted.isDigit (UInt8.ofFin n) = true →
      endsText (UInt8.ofFin n) = false ∧ blankByte (UInt8.ofFin n) = false ∧
        UInt8.ofFin n ≠ 0 ∧ UInt8.ofFin n ≠ 10 := by
    decide +kernel
  exact hall c.toFin (Formatted.isDigit_of_mem_decimalText hc)

/-- The parts of the line are found again. -/
theorem isLine : IsLine (decimalText e.number) e.gap (e.value ++ e.trail)
    (CText.visible (e.comment ++ [10])) where
  number c hc := ⟨(e.digit_text hc).1, (e.digit_text hc).2.1⟩
  blanks c hc := e.blank_gap hc
  text c hc := by
    rcases List.mem_append.mp hc with hvalue | htrail
    · exact (e.value_text c hvalue).1
    · exact blankByte_not_ends (e.blank_trail htrail)
  head c hc := by
    rw [List.head?_append_of_ne_nil _ e.value_ne] at hc
    exact e.value_head c hc
  ended := visible_comment e.comment_head
  gap_ne _ := e.gap_ne
  key_ne _ := Formatted.decimalText_ne_nil e.number

theorem rdropWhile_value : (e.value ++ e.trail).rdropWhile blankByte = e.value := by
  have hlast : ∀ c ∈ e.value.reverse.head?, blankByte c = false := by
    rw [List.head?_reverse]
    exact e.value_last
  unfold List.rdropWhile
  rw [List.reverse_append, (takeWhile_dropWhile_append
    (fun c hc => e.blank_trail (List.mem_reverse.mp hc)) hlast).2, List.reverse_reverse]

theorem entry : lineEntry (e.text ++ [10]) = some ⟨e.number, e.value⟩ := by
  have hline := e.isLine
  have hdigits := Formatted.decimalText_ne_nil e.number
  have hlead : (0 : UInt8) ∉ e.lead := fun h => (noEnd_of_blank (e.blank_lead h)).2 rfl
  have hbefore : (0 : UInt8) ∉ decimalText e.number ++ (e.gap ++ (e.value ++ e.trail)) := by
    intro hmem
    rcases List.mem_append.mp hmem with hkey | hrest
    · exact (e.digit_text hkey).2.2.1 rfl
    rcases List.mem_append.mp hrest with hgap | hrest
    · exact (noEnd_of_blank (e.blank_gap hgap)).2 rfl
    rcases List.mem_append.mp hrest with hvalue | htrail
    · exact (e.value_text 0 hvalue).2 rfl
    · exact (noEnd_of_blank (e.blank_trail htrail)).2 rfl
  have hvisible : CText.visible (e.text ++ [10]) = e.lead ++ (decimalText e.number ++
      (e.gap ++ ((e.value ++ e.trail) ++ CText.visible (e.comment ++ [10])))) := by
    unfold text
    rw [List.append_assoc, visible_append hlead]
    have hassoc : decimalText e.number ++ (e.gap ++ (e.value ++ e.trail ++ e.comment)) ++ [10] =
        (decimalText e.number ++ (e.gap ++ (e.value ++ e.trail))) ++ (e.comment ++ [10]) := by
      simp only [List.append_assoc]
    rw [hassoc, visible_append hbefore]
    simp only [List.append_assoc]
  have hhead : ∀ c ∈ (decimalText e.number ++ (e.gap ++ ((e.value ++ e.trail) ++
      CText.visible (e.comment ++ [10])))).head?, blankByte c = false := by
    intro c hc
    rw [List.head?_append_of_ne_nil _ hdigits] at hc
    exact (e.digit_text (List.mem_of_mem_head? hc)).2.1
  unfold lineEntry lineText
  rw [hvisible, (takeWhile_dropWhile_append (fun c hc => e.blank_lead hc) hhead).2,
    hline.line_eq, hline.entry, e.rdropWhile_value, Formatted.atoi_decimalText]
  refine if_pos ⟨?_, e.value_ne, by exact_mod_cast e.number_pos⟩
  exact Nat.lt_succ_of_le (Formatted.length_decimalText_le (by decide) e.number_lt)

theorem noEnd : (10 : UInt8) ∉ e.text := by
  unfold text
  simp only [List.mem_append, not_or]
  refine ⟨fun h => (noEnd_of_blank (e.blank_lead h)).1 rfl,
    fun h => (e.digit_text h).2.2.2 rfl, fun h => (noEnd_of_blank (e.blank_gap h)).1 rfl,
    ⟨fun h => ?_, fun h => (noEnd_of_blank (e.blank_trail h)).1 rfl⟩, e.comment_line⟩
  exact absurd (e.value_text 10 h).1 (by decide)

end WrittenEntry

theorem IniText.entry_line (l : IniText) : lineEntry (l.text ++ [10]) = l.entry? := by
  cases l with
  | entry e _ => exact e.entry
  | remark r _ => exact r.entry

theorem IniText.line_fits (l : IniText) : (10 : UInt8) ∉ l.text ∧ l.text.length < 511 := by
  cases l with
  | entry e hlen => exact ⟨e.noEnd, hlen⟩
  | remark r hlen =>
      refine ⟨fun hmem => ?_, hlen⟩
      rcases List.mem_append.mp hmem with hlead | hcomment
      · exact (noEnd_of_blank (r.blanks 10 hlead)).1 rfl
      · exact r.comment_line hcomment

theorem entries_rewind_print (lines : List IniText) :
    (IniFile.rewind (IniText.print lines)).entries = lines.filterMap IniText.entry? := by
  induction lines with
  | nil => rfl
  | cons l lines ih =>
      obtain ⟨hline, hlen⟩ := l.line_fits
      unfold IniFile.rewind IniText.print at ih ⊢
      rw [List.flatMap_cons, List.append_assoc, List.singleton_append,
        Formatted.getsLines_line hline (by simpa using hlen), List.nil_append]
      unfold IniFile.entries at ih ⊢
      rw [List.filterMap_cons, List.filterMap_cons, l.entry_line, ih]

/-- Whatever is asked for, in whatever order: what is read from a file is what was
written into its lines. -/
theorem ini_reads_what_was_written (lines : List IniText) (calls : List IniCall) :
    iniMachine.answers (IniFile.rewind (IniText.print lines)) calls =
      entryMachine.answers (lines.filterMap IniText.entry?) calls := by
  rw [iniMachine_answers, entries_rewind_print]

end MarsNwe
