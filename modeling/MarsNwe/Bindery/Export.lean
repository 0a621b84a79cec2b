import MarsNwe.Lib.Formatted
import MarsNwe.Bindery.Requests

/-! # Exporting and importing the bindery

Each file of the bindery is written as a text with one line for each record and
read back line by line. A name is written as it is and read back as a word, so
it comes back when it is a word.
-/

namespace MarsNwe

open KeyedFile Formatted

variable {F : Type → Type → Type} [KeyedFile F]

/-! ## The code -/

/-- A line of `export_obj` without its newline. -/
def objLine (r : UInt32 × ObjData) : List UInt8 :=
  prefixedHex 8 r.1.toNat ++ 32 :: (leftJustified 47 r.2.name.bytes ++
    32 :: (prefixedHex 4 r.2.type.toNat ++ 32 :: (prefixedHex 2 r.2.flags.toNat ++
      32 :: prefixedHex 2 r.2.security.toNat)))

/-- A line of `export_prop` without its newline. -/
def propLine (r : PropKey × PropData) : List UInt8 :=
  prefixedHex 8 r.1.1.toNat ++ 32 :: (prefixedHex 2 r.1.2.toNat ++
    32 :: (leftJustified 15 r.2.name.bytes ++ 32 :: (prefixedHex 2 r.2.flags.toNat ++
      32 :: prefixedHex 2 r.2.security.toNat)))

/-- A line of `export_val` without its newline. -/
def valLine (r : ValKey × Value) : List UInt8 :=
  prefixedHex 8 r.1.1.toNat ++ 32 :: (prefixedHex 2 r.1.2.1.toNat ++
    32 :: (prefixedHex 2 r.1.2.2.toNat ++ 32 :: r.2.bytes.flatMap fun b => hex 2 b.toNat))

/-- The text of a file: the lines of its records in the order of the walk. -/
def exportFile {κ ν : Type} [DecidableEq κ] (line : κ × ν → List UInt8) (f : F κ ν) :
    List UInt8 :=
  (walk f).flatMap fun r => line r ++ [10]

/-- The files that `do_export_dbm` writes. -/
structure ExportFiles where
  obj : List UInt8
  prop : List UInt8
  val : List UInt8

/-- `do_export_dbm`. -/
def doExportDbm (b : Bindery F) : ExportFiles where
  obj := exportFile objLine b.nwobj
  prop := exportFile propLine b.nwprop
  val := exportFile valLine b.nwval

/-- What C leaves open and the import would store: numbers that do not fit, and
a value line whose digits are not 128 pairs. -/
structure Unspecified where
  overflow : Bool → Nat → UInt32
  unread : List UInt8 → Value

variable (u : Unspecified)

/-- The `sscanf` of `import_obj`. -/
def scanObj (buff : List UInt8) : Option (UInt32 × ObjData) := do
  let (objId, l) ← scanHex u.overflow buff
  let (name, l) ← scanWord l
  let (type, l) ← scanHex u.overflow l
  let (flags, l) ← scanHex u.overflow l
  let (security, _) ← scanHex u.overflow l
  return (objId, ⟨.copy 47 name, type.toUInt16, flags.toUInt8, security.toUInt8⟩)

/-- The `sscanf` of `import_prop`. -/
def scanProp (buff : List UInt8) : Option (PropKey × PropData) := do
  let (objId, l) ← scanHex u.overflow buff
  let (id, l) ← scanHex u.overflow l
  let (name, l) ← scanWord l
  let (flags, l) ← scanHex u.overflow l
  let (security, _) ← scanHex u.overflow l
  return ((objId, id.toUInt8), ⟨.copy 15 name, flags.toUInt8, security.toUInt8⟩)

/-- The loop over the pairs of digits in `value`. -/
def scanPairs : Nat → List UInt8 → Option (List UInt8)
  | 0, _ => some []
  | n + 1, a :: b :: rest => do
      let (i, _) ← scanHex u.overflow [a, b]
      let bytes ← scanPairs n rest
      return i.toUInt8 :: bytes
  | _ + 1, _ => none

/-- The `sscanf` of `import_val`. -/
def scanVal (buff : List UInt8) : Option (ValKey × Value) := do
  let (objId, l) ← scanHex u.overflow buff
  let (propId, l) ← scanHex u.overflow l
  let (segment, l) ← scanHex u.overflow l
  let (value, _) ← scanWord l
  let bytes := match scanPairs u 128 value with
    | some bytes => .ofList 128 bytes
    | none => u.unread value
  return ((objId, propId.toUInt8, segment.toUInt8), bytes)

/-- The records of an exported file in an empty file; wrong lines are skipped. -/
def importFile {κ ν : Type} [DecidableEq κ] (scan : List UInt8 → Option (κ × ν))
    (text : List UInt8) : F κ ν :=
  storeAll empty ((getsLines 299 [] text).filterMap fun buff => scan (CText.visible buff))

/-- `do_import_dbm`. -/
def doImportDbm (b : Bindery F) (files : ExportFiles) : Bindery F :=
  { b with
    nwobj := importFile (scanObj u) files.obj
    nwprop := importFile (scanProp u) files.prop
    nwval := importFile (scanVal u) files.val }

/-! ## Names that are words -/

/-- A name that the import reads back: it is not empty and has no blanks. -/
def IsWord {n : Nat} (name : CText n) : Prop :=
  name.bytes ≠ [] ∧ ∀ c ∈ name.bytes, isSpace c = false

/-- A line can be read back: it has no newline and no terminator and fits into
`buff`. -/
def Printable (line : List UInt8) : Prop :=
  (∀ c ∈ line, c ≠ 0 ∧ c ≠ 10) ∧ line.length < 299

/-- A file whose lines scan to their records is copied. -/
theorem importFile_exportFile {κ ν : Type} [DecidableEq κ] {line : κ × ν → List UInt8}
    {scan : List UInt8 → Option (κ × ν)} {f : F κ ν}
    (hline : ∀ k v, fetch f k = some v → Printable (line (k, v)))
    (hscan : ∀ k v, fetch f k = some v → scan (line (k, v) ++ [10]) = some (k, v)) :
    SameRecords (importFile scan (exportFile line f) : F κ ν) f := by
  have hlines : ((getsLines 299 [] (exportFile line f)).filterMap fun buff =>
      scan (CText.visible buff)) = walk f := by
    apply filterMap_getsLines
    · intro r hr
      obtain ⟨hbytes, hlen⟩ := hline r.1 r.2 (mem_walk.mp hr)
      exact ⟨fun hmem => (hbytes 10 hmem).2 rfl, hlen⟩
    · intro r hr
      have hfetch := mem_walk.mp hr
      have hnul : (0 : UInt8) ∉ line r ++ [10] := by
        rw [List.mem_append, List.mem_singleton, not_or]
        exact ⟨fun hmem => ((hline r.1 r.2 hfetch).1 0 hmem).1 rfl, by decide⟩
      rw [CText.visible_of_noNul hnul]
      exact hscan r.1 r.2 hfetch
  intro k
  rw [importFile, hlines]
  exact fetch_storeAll_walk f k

/-- Every record imported has been scanned from a text without terminators. -/
theorem of_fetch_importFile {κ ν : Type} [DecidableEq κ] {scan : List UInt8 → Option (κ × ν)}
    {text : List UInt8} {k : κ} {v : ν}
    (h : fetch (importFile scan text : F κ ν) k = some v) :
    ∃ buff, (0 : UInt8) ∉ buff ∧ scan buff = some (k, v) := by
  rcases fetch_storeAll_cases (empty : F κ ν) _ k with ⟨hfetch, -⟩ | ⟨v', hmem, hfetch⟩
  · rw [importFile, hfetch, fetch_empty] at h
    contradiction
  · rw [importFile, hfetch, Option.some.injEq] at h
    obtain ⟨buff, -, hscan⟩ := List.mem_filterMap.mp hmem
    rw [h] at hscan
    exact ⟨CText.visible buff, CText.noNul_visible buff, hscan⟩

/-! ## The fields of a line -/

section

variable (overflow : Bool → Nat → UInt32) (m : Nat) {rest : List UInt8}
  (hrest : ∀ c ∈ rest.head?, isHexDigit c = false)

include hrest

theorem scanHex_uint8 (b : UInt8) :
    scanHex overflow (List.replicate m 32 ++ (prefixedHex 2 b.toNat ++ rest)) =
      some (UInt32.ofNat b.toNat, rest) := by
  have hb := b.toNat_lt
  exact scanHex_prefixedHex overflow m (by omega) (by omega) hrest

theorem scanHex_uint16 (t : UInt16) :
    scanHex overflow (List.replicate m 32 ++ (prefixedHex 4 t.toNat ++ rest)) =
      some (UInt32.ofNat t.toNat, rest) := by
  have ht := t.toNat_lt
  exact scanHex_prefixedHex overflow m (by omega) (by omega) hrest

theorem scanHex_uint32 (k : UInt32) :
    scanHex overflow (List.replicate m 32 ++ (prefixedHex 8 k.toNat ++ rest)) =
      some (k, rest) := by
  have hk := k.toNat_lt
  rw [scanHex_prefixedHex overflow m (by omega) (by omega) hrest, UInt32.ofNat_toNat]

end

theorem toUInt8_ofNat_toNat (b : UInt8) : (UInt32.ofNat b.toNat).toUInt8 = b := by
  apply UInt8.toNat_inj.mp
  have hb := b.toNat_lt
  rw [UInt32.toNat_toUInt8, UInt32.toNat_ofNat']
  omega

theorem toUInt16_ofNat_toNat (t : UInt16) : (UInt32.ofNat t.toNat).toUInt16 = t := by
  apply UInt16.toNat_inj.mp
  have ht := t.toNat_lt
  rw [UInt32.toNat_toUInt16, UInt32.toNat_ofNat']
  omega

/-- A word comes back from its padded field. -/
theorem scanWord_name {n w : Nat} {name : CText n} (hname : IsWord name) (rest : List UInt8) :
    scanWord (32 :: (leftJustified w name.bytes ++ 32 :: rest)) =
      some (name.bytes, List.replicate (w - name.bytes.length + 1) 32 ++ rest) := by
  have hpad : leftJustified w name.bytes ++ 32 :: rest =
      name.bytes ++ (List.replicate (w - name.bytes.length + 1) 32 ++ rest) := by
    rw [leftJustified, List.append_assoc, List.replicate_succ', List.append_assoc]
    rfl
  rw [hpad]
  apply scanWord_blanks 1 hname.1 hname.2
  intro c hc
  rw [List.replicate_succ, List.cons_append, List.head?_cons, Option.mem_some_iff] at hc
  rw [← hc]
  rfl

theorem copy_bytes {n : Nat} (name : CText (n + 1)) : CText.copy n name.bytes = name :=
  CText.ext (CText.bytes_copy (Nat.le_of_lt_succ name.length_lt) name.noNul)

theorem notHexDigit_blank (l : List UInt8) : ∀ c ∈ (32 :: l).head?, isHexDigit c = false := by
  intro c hc
  rw [← Option.mem_some_iff.mp hc]
  rfl

theorem notHexDigit_newline : ∀ c ∈ [(10 : UInt8)].head?, isHexDigit c = false := by
  intro c hc
  rw [← Option.mem_some_iff.mp hc]
  rfl

theorem scanObj_objLine {r : UInt32 × ObjData} (hname : IsWord r.2.name) :
    scanObj u (objLine r ++ [10]) = some r := by
  have hid := fun l => scanHex_uint32 u.overflow 0 (notHexDigit_blank l) r.1
  have htype := fun m l => scanHex_uint16 u.overflow m (notHexDigit_blank l) r.2.type
  have hflags := fun l => scanHex_uint8 u.overflow 1 (notHexDigit_blank l) r.2.flags
  have hsecurity := scanHex_uint8 u.overflow 1 notHexDigit_newline r.2.security
  simp only [List.replicate_zero, List.nil_append, List.replicate_one, List.singleton_append]
    at hid hflags hsecurity
  simp only [objLine, scanObj, List.append_assoc, List.cons_append, hid, scanWord_name hname, htype,
    hflags, hsecurity, Option.bind_eq_bind, Option.bind_some, copy_bytes, toUInt8_ofNat_toNat,
    toUInt16_ofNat_toNat]
  rfl

theorem scanProp_propLine {r : PropKey × PropData} (hname : IsWord r.2.name) :
    scanProp u (propLine r ++ [10]) = some r := by
  have hobj := fun l => scanHex_uint32 u.overflow 0 (notHexDigit_blank l) r.1.1
  have hid := fun l => scanHex_uint8 u.overflow 1 (notHexDigit_blank l) r.1.2
  have hflags := fun m l => scanHex_uint8 u.overflow m (notHexDigit_blank l) r.2.flags
  have hsecurity := scanHex_uint8 u.overflow 1 notHexDigit_newline r.2.security
  simp only [List.replicate_zero, List.nil_append, List.replicate_one, List.singleton_append]
    at hobj hid hsecurity
  simp only [propLine, scanProp, List.append_assoc, List.cons_append, hobj, hid,
    scanWord_name hname, hflags, hsecurity, Option.bind_eq_bind, Option.bind_some, copy_bytes,
    toUInt8_ofNat_toNat]
  rfl

theorem scanPairs_hex (bytes : List UInt8) :
    scanPairs u bytes.length (bytes.flatMap fun b => hex 2 b.toNat) = some bytes := by
  induction bytes with
  | nil => rfl
  | cons b bytes ih =>
      have hstep : scanPairs u (b :: bytes).length ((b :: bytes).flatMap fun b => hex 2 b.toNat) =
          (scanHex u.overflow (hex 2 b.toNat)).bind fun i =>
            (scanPairs u bytes.length (bytes.flatMap fun b => hex 2 b.toNat)).bind fun bytes =>
              some (i.1.toUInt8 :: bytes) := rfl
      rw [hstep, scanHex_byte, ih]
      simp only [Option.bind_some, toUInt8_ofNat_toNat]

theorem scanVal_valLine (r : ValKey × Value) : scanVal u (valLine r ++ [10]) = some r := by
  have hobj := fun l => scanHex_uint32 u.overflow 0 (notHexDigit_blank l) r.1.1
  have hprop := fun l => scanHex_uint8 u.overflow 1 (notHexDigit_blank l) r.1.2.1
  have hsegment := fun l => scanHex_uint8 u.overflow 1 (notHexDigit_blank l) r.1.2.2
  have hvalue : scanWord (32 :: ((r.2.bytes.flatMap fun b => hex 2 b.toNat) ++ [10])) =
      some (r.2.bytes.flatMap fun b => hex 2 b.toNat, [10]) := by
    apply scanWord_blanks 1
    · intro hnil
      have hlen := r.2.length_eq
      rw [List.flatMap_eq_nil_iff] at hnil
      cases hbytes : r.2.bytes with
      | nil => simp [hbytes] at hlen
      | cons b bytes =>
          have hdigits := hnil b (by simp [hbytes])
          simp [hex] at hdigits
    · intro c hc
      obtain ⟨b, -, hdigit⟩ := List.mem_flatMap.mp hc
      exact isSpace_of_mem_hex hdigit
    · simp
      decide
  have hpairs := scanPairs_hex u r.2.bytes
  rw [r.2.length_eq] at hpairs
  simp only [List.replicate_zero, List.nil_append, List.replicate_one, List.singleton_append]
    at hobj hprop hsegment
  simp only [valLine, scanVal, List.append_assoc, List.cons_append, hobj, hprop, hsegment, hvalue,
    hpairs, Option.bind_eq_bind, Option.bind_some, toUInt8_ofNat_toNat, ByteBuf.ofList_bytes]
  rfl

/-! ## Lines that can be read back -/

/-- A byte that neither ends a line nor a string. -/
def InLine (c : UInt8) : Prop := c ≠ 0 ∧ c ≠ 10

theorem inLine_blank : InLine 32 := by
  unfold InLine
  decide

theorem inLine_hex {w n : Nat} {c : UInt8} (hc : c ∈ hex w n) : InLine c := by
  obtain ⟨d, hd, rfl⟩ := mem_hex hc
  obtain ⟨-, hspace, hnul, -⟩ := hexDigit_spec hd
  refine ⟨hnul, fun hnewline => ?_⟩
  rw [hnewline] at hspace
  exact absurd hspace (by decide)

theorem inLine_prefixedHex {w n : Nat} {c : UInt8} (hc : c ∈ prefixedHex w n) : InLine c := by
  rw [prefixedHex, List.mem_cons, List.mem_cons] at hc
  rcases hc with rfl | rfl | hc
  · exact ⟨by decide, by decide⟩
  · exact ⟨by decide, by decide⟩
  · exact inLine_hex hc

theorem inLine_leftJustified {n w : Nat} {name : CText n} (hname : IsWord name) {c : UInt8}
    (hc : c ∈ leftJustified w name.bytes) : InLine c := by
  rw [leftJustified, List.mem_append] at hc
  rcases hc with hc | hc
  · refine ⟨ne_of_mem_of_not_mem hc name.noNul, fun hnewline => ?_⟩
    have hspace := hname.2 c hc
    rw [hnewline] at hspace
    exact absurd hspace (by decide)
  · rw [List.eq_of_mem_replicate hc]
    exact inLine_blank

theorem length_leftJustified {w : Nat} (name : CText (w + 1)) :
    (leftJustified w name.bytes).length = w := by
  have hlen := name.length_lt
  rw [leftJustified, List.length_append, List.length_replicate]
  omega

theorem length_prefixedHex (w n : Nat) : (prefixedHex w n).length = w + 2 := by
  rw [prefixedHex, List.length_cons, List.length_cons, length_hex]

theorem printable_objLine {r : UInt32 × ObjData} (hname : IsWord r.2.name) :
    Printable (objLine r) := by
  constructor
  · intro c hc
    simp only [objLine, List.mem_append, List.mem_cons] at hc
    rcases hc with hc | rfl | hc | rfl | hc | rfl | hc | rfl | hc
    all_goals first
      | exact inLine_blank
      | exact inLine_prefixedHex hc
      | exact inLine_leftJustified hname hc
  · simp only [objLine, List.length_append, List.length_cons, length_prefixedHex,
      length_leftJustified]
    decide

theorem printable_propLine {r : PropKey × PropData} (hname : IsWord r.2.name) :
    Printable (propLine r) := by
  constructor
  · intro c hc
    simp only [propLine, List.mem_append, List.mem_cons] at hc
    rcases hc with hc | rfl | hc | rfl | hc | rfl | hc | rfl | hc
    all_goals first
      | exact inLine_blank
      | exact inLine_prefixedHex hc
      | exact inLine_leftJustified hname hc
  · simp only [propLine, List.length_append, List.length_cons, length_prefixedHex,
      length_leftJustified]
    decide

theorem length_flatMap_hex (bytes : List UInt8) :
    (bytes.flatMap fun b => hex 2 b.toNat).length = 2 * bytes.length := by
  induction bytes with
  | nil => rfl
  | cons b bytes ih =>
      rw [List.flatMap_cons, List.length_append, length_hex, ih, List.length_cons]
      omega

theorem printable_valLine (r : ValKey × Value) : Printable (valLine r) := by
  constructor
  · intro c hc
    simp only [valLine, List.mem_append, List.mem_cons, List.mem_flatMap] at hc
    rcases hc with hc | rfl | hc | rfl | hc | rfl | ⟨b, -, hc⟩
    all_goals first
      | exact inLine_blank
      | exact inLine_prefixedHex hc
      | exact inLine_hex hc
  · simp only [valLine, List.length_append, List.length_cons, length_prefixedHex,
      length_flatMap_hex, r.2.length_eq]
    decide

/-! ## The round trip -/

/-- What the import takes for a name is a word. -/
theorem isWord_copy {n : Nat} {l word rest : List UInt8} (hnul : (0 : UInt8) ∉ l)
    (hscan : scanWord l = some (word, rest)) : IsWord (CText.copy (n + 1) word) := by
  obtain ⟨hne, hword, hinside⟩ := of_scanWord hscan
  have hbytes : (CText.copy (n + 1) word).bytes = word.take (n + 1) := by
    change (CText.visible word).take (n + 1) = _
    rw [CText.visible_of_noNul fun hmem => hnul (hinside.subset hmem)]
  rw [IsWord, hbytes]
  refine ⟨?_, fun c hc => hword c (List.mem_of_mem_take hc)⟩
  cases word with
  | nil => exact absurd rfl hne
  | cons c word => exact List.cons_ne_nil _ _

theorem isWord_of_scanObj {buff : List UInt8} {r : UInt32 × ObjData} (hnul : (0 : UInt8) ∉ buff)
    (h : scanObj u buff = some r) : IsWord r.2.name := by
  simp only [scanObj, Option.bind_eq_bind, Option.bind_eq_some_iff] at h
  obtain ⟨⟨objId, l⟩, hid, ⟨name, l'⟩, hname, ⟨type, _⟩, -, ⟨flags, _⟩, -, ⟨security, _⟩, -,
    heq⟩ := h
  rw [← Option.some.inj heq]
  exact isWord_copy (fun hmem => hnul ((scanHex_suffix hid).subset hmem)) hname

theorem isWord_of_scanProp {buff : List UInt8} {r : PropKey × PropData} (hnul : (0 : UInt8) ∉ buff)
    (h : scanProp u buff = some r) : IsWord r.2.name := by
  simp only [scanProp, Option.bind_eq_bind, Option.bind_eq_some_iff] at h
  obtain ⟨⟨objId, l⟩, hobj, ⟨id, l'⟩, hid, ⟨name, l''⟩, hname, ⟨flags, _⟩, -, ⟨security, _⟩, -,
    heq⟩ := h
  rw [← Option.some.inj heq]
  have hsuffix := (scanHex_suffix hid).trans (scanHex_suffix hobj)
  exact isWord_copy (fun hmem => hnul (hsuffix.subset hmem)) hname

/-- Export and import give back the same records exactly when all names are words. -/
theorem doImportDbm_doExportDbm_iff (b b' : Bindery F) :
    (SameRecords (doImportDbm u b' (doExportDbm b)).nwobj b.nwobj ∧
      SameRecords (doImportDbm u b' (doExportDbm b)).nwprop b.nwprop ∧
      SameRecords (doImportDbm u b' (doExportDbm b)).nwval b.nwval) ↔
    (∀ k d, fetch b.nwobj k = some d → IsWord d.name) ∧
      ∀ k d, fetch b.nwprop k = some d → IsWord d.name := by
  constructor
  · rintro ⟨hobj, hprop, -⟩
    constructor
    · intro k d hfetch
      rw [← hobj k] at hfetch
      obtain ⟨buff, hnul, hscan⟩ := of_fetch_importFile hfetch
      exact isWord_of_scanObj u hnul hscan
    · intro k d hfetch
      rw [← hprop k] at hfetch
      obtain ⟨buff, hnul, hscan⟩ := of_fetch_importFile hfetch
      exact isWord_of_scanProp u hnul hscan
  · rintro ⟨hobj, hprop⟩
    refine ⟨?_, ?_, ?_⟩
    · apply importFile_exportFile
      · exact fun k d hfetch => printable_objLine (hobj k d hfetch)
      · exact fun k d hfetch => scanObj_objLine u (hobj k d hfetch)
    · apply importFile_exportFile
      · exact fun k d hfetch => printable_propLine (hprop k d hfetch)
      · exact fun k d hfetch => scanProp_propLine u (hprop k d hfetch)
    · apply importFile_exportFile
      · exact fun k v _ => printable_valLine (k, v)
      · exact fun k v _ => scanVal_valLine u (k, v)

/-- The object `A B` comes back as `A`. -/
theorem import_cuts_name_at_blank : ¬ ∀ (u : Unspecified) (rs : List (Caller × BindRequest))
    (b : Bindery ListFile), b = binderyMachine.exec Bindery.empty rs →
    SameRecords (doImportDbm u b (doExportDbm b)).nwobj b.nwobj ∧
      SameRecords (doImportDbm u b (doExportDbm b)).nwprop b.nwprop ∧
      SameRecords (doImportDbm u b (doExportDbm b)).nwval b.nwval := by
  intro hall
  obtain ⟨hobj, -, -⟩ := hall ⟨fun _ _ => 0, fun _ => .zero 128⟩
    [(.supervisor, .createObj 0 0x33 1 (objName ['A', ' ', 'B']))] _ rfl
  exact absurd (hobj 0x10002) (by decide +kernel)

end MarsNwe
