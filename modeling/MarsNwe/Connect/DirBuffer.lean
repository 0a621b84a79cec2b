import MarsNwe.Connect.DirFold

/-! # The buffer that `build_dir_name` writes

`NW_PATH` has 256 bytes for the path and behind them 256 bytes for the name. The
loop of `build_dir_name` works in this memory with the pointer `p1`, and what it
leaves there is the path that the components of the request lead to.
-/

namespace MarsNwe

/-! ## The code on its memory -/

/-- Bytes written at an offset from `nwpath->path`. -/
structure PathWrite where
  offset : Nat
  bytes : List UInt8

namespace PathWrite

/-- The offset behind the bytes. -/
def stop (x : PathWrite) : Nat := x.offset + x.bytes.length

def apply (x : PathWrite) (mem : List UInt8) : List UInt8 :=
  mem.take x.offset ++ x.bytes ++ mem.drop x.stop

end PathWrite

/-- The variables of the loop: `comp` is the text from `a` to `p`, `p1` an offset, and
the memory is known by what has been written to it. -/
structure DirMem where
  state : ScanState
  comp : List UInt8
  p1 : Nat
  start : List UInt8
  writes : List PathWrite

namespace DirMem

def mem (s : DirMem) : List UInt8 := s.writes.foldl (fun mem x => x.apply mem) s.start

def write (s : DirMem) (offset : Nat) (bytes : List UInt8) : DirMem :=
  { s with writes := s.writes ++ [⟨offset, bytes⟩] }

/-- `while (p1 > panf && *(--p1) != '/')` -/
def slashBefore (mem : List UInt8) : Nat → Nat
  | 0 => 0
  | k + 1 => if mem[k]? = some 0x2f then k else slashBefore mem k

/-- One directory up, from a `p1` that is not at the beginning. -/
def dropLast (s : DirMem) : DirMem :=
  let p1 := slashBefore s.mem (s.p1 - 1)
  if p1 = 0 then { s.write 0 [0] with p1 := 0 } else { s.write (p1 + 1) [0] with p1 := p1 + 1 }

/-- One directory up for each further point. -/
def goBack : Nat → DirMem → Int × DirMem
  | 0, s => (0, s)
  | n + 1, s => if s.p1 = 0 then (-0x9c, s) else goBack n s.dropLast

/-- The action at the end of a component. An error of the last character comes
before it, and nothing goes back any more then. -/
def close (completition : Int) (s : DirMem) (comp : List UInt8) : Int × DirMem :=
  let s := { s with state := .start, comp := [] }
  if comp = [] then (completition, s)
  else if comp.head? = some 0x2e then
    if completition < 0 then (completition, s)
    else goBack (comp.tail.takeWhile fun c => c = 0x2e).length s
  else
    (completition, { s.write s.p1 (comp ++ [0x2f, 0]) with p1 := s.p1 + comp.length + 1 })

/-- One character of the loop; `last` says that the search path ends behind it. -/
def char (w : UInt8) (last : Bool) (s : DirMem) : Int × DirMem :=
  match s.state.next w with
  | some state =>
      if state = .slash then close 0 s s.comp
      else if last then close 0 s (s.comp ++ [w])
      else (0, { s with state := state, comp := s.comp ++ [w] })
  | none =>
      -- a second point returns at once
      if w ≠ 0x2e ∧ last then close (-0x9c) s (s.comp ++ [w]) else (-0x9c, s)

/-- The loop over the search path. -/
def scan : List UInt8 → DirMem → Int × DirMem
  | [], s => (0, s)
  | w :: rest, s =>
      match char w rest.isEmpty s with
      | (0, s) => scan rest s
      | r => r

end DirMem

/-- The path of a directory handle: the slash of the root, or directories with a slash
behind each. -/
structure HandlePath where
  dirs : List (List UInt8)
  ok : ∀ c ∈ dirs, DirNameOk c
  text_le : (dirText dirs).length ≤ 255

def HandlePath.text (h : HandlePath) : List UInt8 := if h.dirs = [] then [0x2f] else dirText h.dirs

/-- `path` and `fn` of a `NW_PATH`. -/
structure PathFn where
  bytes : List UInt8
  length_eq : bytes.length = 512

/-- The path from where the search goes on, and the search path: a path with a volume
(no handle) is absolute, and one with a slash in front too. -/
def searchFrom (handle : Option HandlePath) (request : List UInt8) : List UInt8 × List UInt8 :=
  match handle with
  | none => ([], request)
  | some h => if request.head? = some 0x2f then ([], request.tail) else (h.text, request)

/-- `build_dir_name` before the test of the directory: the completion code and the
memory. -/
def dirName (handle : Option HandlePath) (request : CText 256) (nwpath : PathFn) : Int × DirMem :=
  let path := (searchFrom handle request.bytes).1
  let search := (searchFrom handle request.bytes).2
  DirMem.scan search
    (DirMem.write ⟨.start, [], path.length, nwpath.bytes, []⟩ 0 (path ++ [0]))

/-! ## Going up -/

namespace DirMem

@[simp] theorem mem_write (s : DirMem) (offset : Nat) (bytes : List UInt8) :
    (s.write offset bytes).mem = PathWrite.apply ⟨offset, bytes⟩ s.mem := by
  unfold write mem
  rw [List.foldl_append]
  rfl

theorem rdropWhile_eq_take {l : List UInt8} (p : UInt8 → Bool) :
    l.rdropWhile p = l.take (l.rdropWhile p).length :=
  List.prefix_iff_eq_take.mp (List.rdropWhile_prefix p l)

theorem slashBefore_eq (mem : List UInt8) (k : Nat) (hk : k ≤ mem.length) :
    slashBefore mem k = ((mem.take k).rdropWhile fun c => c ≠ 0x2f).length - 1 := by
  induction k with
  | zero => rfl
  | succ k ih =>
      have hlt : k < mem.length := hk
      rw [slashBefore, List.take_succ_eq_append_getElem hlt, List.getElem?_eq_getElem hlt]
      by_cases hslash : mem[k] = 0x2f
      · rw [if_pos (congrArg some hslash), List.rdropWhile_concat_neg _ _ _ (by simpa using hslash),
          List.length_append, List.length_take, List.length_singleton]
        omega
      · rw [if_neg (fun h => hslash (Option.some.inj h)),
          List.rdropWhile_concat_pos _ _ _ (by simpa using hslash)]
        exact ih hlt.le

/-- The memory holds the text of a directory before `p1`, and its end there. -/
structure Spells (s : DirMem) (t : Spelled) : Prop where
  text : s.mem.take s.p1 = t.text
  p1_eq : s.p1 = t.text.length
  nul : s.mem[s.p1]? = some 0

theorem Spells.p1_lt {s : DirMem} {t : Spelled} (h : s.Spells t) : s.p1 < s.mem.length :=
  (List.getElem?_eq_some_iff.mp h.nul).1

theorem Spells.visible {s : DirMem} {t : Spelled} (h : s.Spells t) (ht : t.Ok) :
    CText.visible s.mem = t.text := by
  obtain ⟨hlt, hnul⟩ := List.getElem?_eq_some_iff.mp h.nul
  rw [← List.take_append_drop s.p1 s.mem, h.text, List.drop_eq_getElem_cons hlt, hnul]
  exact CText.visible_append_zero ht.text_noNul

/-- A write at the end of the text, or before it. -/
theorem spells_write {s : DirMem} {offset : Nat} (bytes : List UInt8) {t : Spelled}
    (hle : offset ≤ s.mem.length) (htext : s.mem.take offset ++ bytes = t.text) :
    Spells { s.write offset (bytes ++ [0]) with p1 := offset + bytes.length } t := by
  have hmem : (s.write offset (bytes ++ [0])).mem =
      t.text ++ 0 :: s.mem.drop (offset + (bytes.length + 1)) := by
    rw [mem_write, PathWrite.apply, PathWrite.stop, ← htext, List.length_append]
    simp
  have hlen : offset + bytes.length = t.text.length := by
    rw [← htext, List.length_append, List.length_take, Nat.min_eq_left hle]
  constructor
  · change (s.write offset (bytes ++ [0])).mem.take _ = _
    rw [hmem, hlen]
    exact List.take_left
  · exact hlen
  · change (s.write offset (bytes ++ [0])).mem[_]? = _
    rw [hmem]
    dsimp only
    rw [hlen, List.getElem?_append_right (Nat.le_refl _), Nat.sub_self]
    rfl

/-- Some more writes, none of them behind a limit. -/
def AddsBelow (limit : Nat) (s s' : DirMem) : Prop :=
  ∃ new, s'.writes = s.writes ++ new ∧ ∀ x ∈ new, x.stop ≤ limit

theorem AddsBelow.refl (limit : Nat) (s : DirMem) : AddsBelow limit s s :=
  ⟨[], (List.append_nil _).symm, fun _ hx => absurd hx List.not_mem_nil⟩

theorem AddsBelow.trans {limit limit' : Nat} {s s' s'' : DirMem} (hle : limit' ≤ limit)
    (h : AddsBelow limit s s') (h' : AddsBelow limit' s' s'') : AddsBelow limit s s'' := by
  obtain ⟨new, hnew, hlimit⟩ := h
  obtain ⟨new', hnew', hlimit'⟩ := h'
  refine ⟨new ++ new', by rw [hnew', hnew, List.append_assoc], fun x hx => ?_⟩
  rcases List.mem_append.mp hx with hx | hx
  · exact hlimit x hx
  · exact (hlimit' x hx).trans hle

theorem dropLast_spec {s : DirMem} {t t' : Spelled} (h : s.Spells t) (ht : t.Ok)
    (hup : t.up = some t') :
    s.p1 ≠ 0 ∧ s.dropLast.Spells t' ∧ s.dropLast.state = s.state ∧ s.dropLast.comp = s.comp ∧
      t'.text.length ≤ t.text.length ∧ AddsBelow t.text.length s s.dropLast := by
  have hlt := h.p1_lt
  have hpos : s.p1 ≠ 0 := by
    intro hzero
    have hnone : t.up = none :=
      Spelled.up_eq_none.mpr (List.length_eq_zero_iff.mp (h.p1_eq.symm.trans hzero))
    rw [hnone] at hup
    cases hup
  have hkept : t.text.dropLast = s.mem.take (s.p1 - 1) := by
    rw [← h.text, List.dropLast_eq_take, List.take_take, List.length_take]
    congr 1
    omega
  have htext := ht.up_text hup
  unfold dropLastDir at htext
  rw [hkept] at htext
  have hslash := slashBefore_eq s.mem (s.p1 - 1) (by omega)
  have hprefix := rdropWhile_eq_take (l := s.mem.take (s.p1 - 1)) fun c => c ≠ 0x2f
  rw [List.take_take] at hprefix
  have hlen : ((s.mem.take (s.p1 - 1)).rdropWhile fun c => c ≠ 0x2f).length ≤ s.p1 - 1 :=
    (List.rdropWhile_prefix _ _).length_le.trans (List.length_take_le _ _)
  generalize (s.mem.take (s.p1 - 1)).rdropWhile (fun c => c ≠ 0x2f) = kept
    at htext hslash hprefix hlen
  rw [Nat.min_eq_left hlen] at hprefix
  refine ⟨hpos, ?_⟩
  unfold dropLast
  by_cases hroot : kept.length ≤ 1
  · rw [if_pos hroot] at htext
    rw [if_pos (by omega)]
    refine ⟨?_, rfl, rfl, by rw [htext]; exact Nat.zero_le _, [⟨0, [0]⟩], rfl, ?_⟩
    · exact spells_write [] (Nat.zero_le _) htext.symm
    · intro x hx
      rw [List.mem_singleton.mp hx, ← h.p1_eq]
      exact Nat.one_le_iff_ne_zero.mpr hpos
  · rw [if_neg hroot] at htext
    rw [if_neg (by omega)]
    have hp1 : slashBefore s.mem (s.p1 - 1) + 1 = kept.length := by omega
    dsimp only
    rw [hp1]
    refine ⟨?_, rfl, rfl, by rw [htext, ← h.p1_eq]; omega, [⟨kept.length, [0]⟩], rfl, ?_⟩
    · refine spells_write [] (by omega) ?_
      rw [List.append_nil, htext]
      exact hprefix.symm
    · intro x hx
      rw [List.mem_singleton.mp hx, ← h.p1_eq]
      change kept.length + 1 ≤ s.p1
      omega

/-- Going up in the memory is going up in the directory. -/
theorem goBack_spec (n : Nat) {s : DirMem} {t : Spelled} (h : s.Spells t) (ht : t.Ok) :
    AddsBelow t.text.length s (goBack n s).2 ∧
    match t.ups n with
    | some t' => (goBack n s).1 = 0 ∧ (goBack n s).2.Spells t' ∧
        (goBack n s).2.state = s.state ∧ (goBack n s).2.comp = s.comp ∧
        t'.text.length ≤ t.text.length
    | none => (goBack n s).1 = -0x9c := by
  induction n generalizing s t with
  | zero => exact ⟨AddsBelow.refl _ s, rfl, h, rfl, rfl, Nat.le_refl _⟩
  | succ n ih =>
      rw [Spelled.ups, goBack]
      cases hup : t.up with
      | none =>
          have hnil := Spelled.up_eq_none.mp hup
          rw [if_pos (by rw [h.p1_eq, hnil]; rfl)]
          exact ⟨AddsBelow.refl _ s, rfl⟩
      | some u =>
          obtain ⟨hpos, hspells, hstate, hcomp, hle, hadds⟩ := dropLast_spec h ht hup
          obtain ⟨hadds', hres⟩ := ih hspells (ht.up hup)
          rw [if_neg hpos, Option.bind_some]
          refine ⟨hadds.trans hle hadds', ?_⟩
          split at hres
          next t' _ =>
            obtain ⟨hcode, hspells', hstate', hcomp', hle'⟩ := hres
            exact ⟨hcode, hspells', hstate'.trans hstate, hcomp'.trans hcomp, hle'.trans hle⟩
          next => exact hres

/-! ## A component -/

/-- What the end of a component leaves: the text that it leads to, and only writes
that stay in the path if the texts before and behind it do. -/
structure Closed (s : DirMem) (t : Spelled) (r : Int × DirMem) (t' : Spelled) : Prop where
  code : r.1 = 0
  spells : r.2.Spells t'
  state : r.2.state = .start
  comp : r.2.comp = []
  inside : ∃ new, r.2.writes = s.writes ++ new ∧
    (t.text.length ≤ 255 → ((∀ x ∈ new, x.stop ≤ 256) ↔ t'.text.length ≤ 255))

theorem isPoints_takeWhile {c : List UInt8} (hc : IsPoints c) :
    (c.tail.takeWhile fun x => x = 0x2e).length = c.length - 1 := by
  rw [List.takeWhile_eq_self_iff.mpr fun x hx => decide_eq_true (hc x (List.mem_of_mem_tail hx)),
    List.length_tail]

theorem head?_of_isPoints {c : List UInt8} (hne : c ≠ []) (hc : IsPoints c) :
    c.head? = some 0x2e := by
  obtain ⟨x, c, rfl⟩ := List.exists_cons_of_ne_nil hne
  rw [List.head?_cons, hc x List.mem_cons_self]

theorem head?_of_isName83 {c : List UInt8} (hc : IsName83 c) : c.head? ≠ some 0x2e := by
  intro hhead
  obtain ⟨x, c, rfl⟩ := List.exists_cons_of_ne_nil (l := c) (by rintro rfl; cases hhead)
  cases hhead
  exact hc.1 rfl

/-- A name is written behind the text. -/
theorem close_name (completition : Int) {s : DirMem} {t : Spelled} (h : s.Spells t)
    {c : List UInt8} (hne : c ≠ []) (hhead : c.head? ≠ some 0x2e) :
    (close completition s c).1 = completition ∧
      (close completition s c).2.Spells ⟨t.root, t.dirs ++ [c]⟩ ∧
      (close completition s c).2.state = .start ∧ (close completition s c).2.comp = [] ∧
      (close completition s c).2.writes =
        s.writes ++ [⟨t.text.length, c ++ [0x2f, 0]⟩] := by
  have hlt := h.p1_lt
  unfold close
  rw [if_neg hne, if_neg hhead]
  refine ⟨rfl, ?_, rfl, rfl, ?_⟩
  · have hspells : Spells { ({ s with state := .start, comp := [] } : DirMem).write s.p1
        ((c ++ [0x2f]) ++ [0]) with p1 := s.p1 + (c ++ [0x2f]).length }
          ⟨t.root, t.dirs ++ [c]⟩ := by
      refine spells_write (s := { s with state := .start, comp := [] }) (c ++ [0x2f]) hlt.le ?_
      change s.mem.take s.p1 ++ _ = _
      rw [h.text, Spelled.text_concat, List.append_assoc]
    rw [List.append_assoc, List.length_append] at hspells
    exact hspells
  · change s.writes ++ [⟨s.p1, _⟩] = _
    rw [h.p1_eq]

theorem close_spec {s : DirMem} {t : Spelled} (h : s.Spells t) (ht : t.Ok) {c : List UInt8}
    (hne : c ≠ []) (hform : IsPoints c ∨ IsName83 c) :
    match t.close c with
    | some t' => Closed s t (close 0 s c) t'
    | none => (close 0 s c).1 = -0x9c ∧ AddsBelow t.text.length s (close 0 s c).2 := by
  by_cases hpoints : IsPoints c
  · rw [Spelled.close, if_pos hpoints]
    have hgo : close 0 s c = goBack (c.length - 1) { s with state := .start, comp := [] } := by
      unfold close
      rw [if_neg hne, if_pos (head?_of_isPoints hne hpoints), if_neg (by decide),
        isPoints_takeWhile hpoints]
    have hspells : Spells { s with state := .start, comp := [] } t := ⟨h.text, h.p1_eq, h.nul⟩
    rw [hgo]
    obtain ⟨hadds, hres⟩ := goBack_spec (c.length - 1) hspells ht
    split at hres
    next t' _ =>
      obtain ⟨hcode, hspells', hstate, hcomp, hle⟩ := hres
      obtain ⟨new, hnew, hlimit⟩ := hadds
      refine ⟨hcode, hspells', hstate, hcomp, new, hnew, fun hfits => ?_⟩
      exact iff_of_true (fun x hx => (hlimit x hx).trans (hfits.trans (by decide)))
        (hle.trans hfits)
    next => exact ⟨hres, hadds⟩
  · have hname := hform.resolve_left hpoints
    rw [Spelled.close, if_neg hpoints, if_pos hname]
    obtain ⟨hcode, hspells, hstate, hcomp, hwrites⟩ :=
      close_name 0 h hne (head?_of_isName83 hname)
    refine ⟨hcode, hspells, hstate, hcomp, _, hwrites, fun _ => ?_⟩
    rw [List.forall_mem_singleton, Spelled.length_text_concat]
    simp only [PathWrite.stop, List.length_append, List.length_cons, List.length_nil]
    omega

/-! ## The loop -/

theorem scan_cons_ok {w : UInt8} {rest : List UInt8} {s s' : DirMem}
    (h : char w rest.isEmpty s = (0, s')) : scan (w :: rest) s = scan rest s' := by
  rw [scan, h]
  rfl

theorem scan_cons_error {w : UInt8} {rest : List UInt8} {s : DirMem}
    (h : (char w rest.isEmpty s).1 ≠ 0) : scan (w :: rest) s = char w rest.isEmpty s := by
  rw [scan]
  split
  next heq =>
    rw [heq] at h
    exact absurd rfl h
  next => rfl

/-- The characters of a component in front of its end. -/
theorem scan_chars {c rest : List UInt8} (hc : (0x2f : UInt8) ∉ c) (hrest : rest ≠ [])
    {s : DirMem} (hs : s.state ≠ .slash) {state : ScanState} (hrun : s.state.run c = some state) :
    scan (c ++ rest) s = scan rest { s with state := state, comp := s.comp ++ c } ∧
      state ≠ .slash := by
  induction c generalizing s with
  | nil =>
      cases hrun
      rw [List.append_nil, List.nil_append]
      exact ⟨rfl, hs⟩
  | cons w c ih =>
      rw [List.mem_cons, not_or] at hc
      rw [ScanState.run_cons] at hrun
      obtain ⟨state', hnext, hrun⟩ := Option.bind_eq_some_iff.mp hrun
      have hstate' := ScanState.next_ne_slash (Ne.symm hc.1) hs hnext
      have hchar : char w (c ++ rest).isEmpty s =
          (0, { s with state := state', comp := s.comp ++ [w] }) := by
        unfold char
        rw [hnext]
        dsimp only
        rw [if_neg hstate', if_neg (by simp [hrest])]
      obtain ⟨hscan, hstate⟩ := ih hc.2
        (s := { s with state := state', comp := s.comp ++ [w] }) hstate' hrun
      refine ⟨?_, hstate⟩
      rw [List.cons_append, scan_cons_ok hchar, hscan, List.append_assoc]
      rfl

/-- A character that is not taken ends the loop. -/
theorem scan_chars_error {c rest : List UInt8} (hc : (0x2f : UInt8) ∉ c) (hrest : rest ≠ [])
    {s : DirMem} (hs : s.state ≠ .slash) (hrun : s.state.run c = none) :
    (scan (c ++ rest) s).1 = -0x9c ∧ (scan (c ++ rest) s).2.writes = s.writes := by
  induction c generalizing s with
  | nil => cases hrun
  | cons w c ih =>
      rw [List.mem_cons, not_or] at hc
      have hmore : (c ++ rest).isEmpty = false := by simp [hrest]
      rw [ScanState.run_cons] at hrun
      cases hnext : s.state.next w with
      | none =>
          have hchar : char w (c ++ rest).isEmpty s = (-0x9c, s) := by
            unfold char
            rw [hnext, hmore]
            exact if_neg fun h => Bool.false_ne_true h.2
          have hcode : (char w (c ++ rest).isEmpty s).1 ≠ 0 := by
            rw [hchar]
            exact (by decide : (-0x9c : Int) ≠ 0)
          rw [List.cons_append, scan_cons_error hcode, hchar]
          exact ⟨rfl, rfl⟩
      | some state' =>
          have hstate' := ScanState.next_ne_slash (Ne.symm hc.1) hs hnext
          have hchar : char w (c ++ rest).isEmpty s =
              (0, { s with state := state', comp := s.comp ++ [w] }) := by
            unfold char
            rw [hnext, hmore]
            dsimp only
            rw [if_neg hstate', if_neg Bool.false_ne_true]
          rw [hnext, Option.bind_some] at hrun
          rw [List.cons_append, scan_cons_ok hchar]
          exact ih hc.2 hstate' hrun

/-- A slash ends a component. -/
theorem scan_slash {rest : List UInt8} {s : DirMem} :
    scan (0x2f :: rest) s =
      if (close 0 s s.comp).1 = 0 then scan rest (close 0 s s.comp).2 else close 0 s s.comp := by
  have hchar : char 0x2f rest.isEmpty s = close 0 s s.comp := by
    have hnext : s.state.next 0x2f = some .slash := by
      cases s.state <;> rfl
    unfold char
    rw [hnext]
    exact if_pos rfl
  split
  next h => exact scan_cons_ok (hchar.trans (Prod.ext h rfl))
  next h =>
    rw [← hchar] at h ⊢
    exact scan_cons_error h

/-- So does the end of the search path, also where its last character is wrong. -/
theorem scan_last {w : UInt8} (hw : w ≠ 0x2f) {s : DirMem} (hs : s.state ≠ .slash) :
    scan [w] s =
      match s.state.next w with
      | some _ => close 0 s (s.comp ++ [w])
      | none => if w ≠ 0x2e then close (-0x9c) s (s.comp ++ [w]) else (-0x9c, s) := by
  have hscan : scan [w] s = char w true s := by
    by_cases hcode : (char w true s).1 = 0
    · have hchar : char w true s = (0, (char w true s).2) := Prod.ext hcode rfl
      change char w ([] : List UInt8).isEmpty s = _ at hchar
      rw [scan_cons_ok hchar, scan, ← hchar]
      rfl
    · exact scan_cons_error hcode
  rw [hscan]
  unfold char
  cases hnext : s.state.next w with
  | none => simp only [and_true]
  | some state =>
      dsimp only
      rw [if_neg (ScanState.next_ne_slash hw hs hnext), if_pos rfl]

end DirMem

/-! ## Runs of the loop -/

/-- A component that is refused for its last character alone, after a name of 8.3
form and not for a point. -/
def OneTooLong (c : List UInt8) : Prop :=
  IsName83 c.dropLast ∧ c.getLast? ≠ some 0x2e ∧ ¬IsName83 c

/-- The text of a path has at most 255 bytes, and so has each text that it leads to. A
last component counts too when it is one character too long and no slash follows
(`opened`). -/
def TextsFit (opened : Bool) : Spelled → List (List UInt8) → Prop
  | t, [] => t.text.length ≤ 255
  | t, c :: comps =>
      t.text.length ≤ 255 ∧
        (opened = true → comps = [] → OneTooLong c → t.text.length + c.length + 1 ≤ 255) ∧
        ∀ t', t.close c = some t' → TextsFit opened t' comps

/-- No slash stands at the end. -/
def isOpened (search : List UInt8) : Bool := search.getLast? ≠ some 0x2f

theorem TextsFit.length_le {opened : Bool} {t : Spelled} {comps : List (List UInt8)}
    (h : TextsFit opened t comps) : t.text.length ≤ 255 := by
  cases comps with
  | nil => exact h
  | cons c comps => exact h.1

theorem textsFit_congr {o o' : Bool} {comps : List (List UInt8)} (h : comps = [] ∨ o = o')
    (t : Spelled) : TextsFit o t comps ↔ TextsFit o' t comps := by
  rcases h with rfl | rfl
  · rfl
  · rfl

/-- Nothing but slashes has no components. -/
theorem isOpened_of_components {c rest : List UInt8} (hrest : components rest = []) :
    isOpened (c ++ 0x2f :: rest) = false := by
  have hall : ∀ x ∈ 0x2f :: rest, x = 0x2f :=
    List.forall_mem_cons.mpr ⟨rfl, eq_slash_of_components_eq_nil hrest⟩
  have hslash : (0x2f :: rest).getLast? = some 0x2f := by
    rw [List.getLast?_eq_some_getLast (List.cons_ne_nil _ _)]
    exact congrArg some (hall _ (List.getLast_mem _))
  unfold isOpened
  rw [List.getLast?_append_cons, hslash]
  decide

namespace DirMem

/-- The run of the loop: the memory holds what the components lead to, and writes leave
the path if and only if a text is too long. -/
structure Scanned (s : DirMem) (t : Spelled) (search : List UInt8) (r : Int × DirMem) : Prop where
  taken : ∀ t', t.closes (components search) = some t' → r.1 = 0 ∧ r.2.Spells t' ∧ t'.Ok
  refused : t.closes (components search) = none → r.1 = -0x9c
  inside : ∃ new, r.2.writes = s.writes ++ new ∧ (t.text.length ≤ 255 →
    ((∀ x ∈ new, x.stop ≤ 256) ↔ TextsFit (isOpened search) t (components search)))

/-- Of the memory in front of the run, only the writes are spoken of. -/
theorem Scanned.of_writes {s s' : DirMem} {t : Spelled} {search : List UInt8} {r : Int × DirMem}
    (h : Scanned s' t search r) (hwrites : s'.writes = s.writes) : Scanned s t search r :=
  ⟨h.taken, h.refused, hwrites ▸ h.inside⟩

theorem oneTooLong_concat {d : List UInt8} {w : UInt8} :
    OneTooLong (d ++ [w]) ↔ IsName83 d ∧ w ≠ 0x2e ∧ ¬IsName83 (d ++ [w]) := by
  unfold OneTooLong
  rw [List.dropLast_concat, List.getLast?_concat, ne_eq, Option.some.injEq]

theorem not_oneTooLong {c : List UInt8} (hform : IsPoints c ∨ IsName83 c) : ¬OneTooLong c := by
  rintro ⟨hname, hlast, hnot⟩
  rcases hform with hpoints | hform
  · -- a name has a character that is no point
    obtain ⟨x, d, hd⟩ := List.exists_cons_of_ne_nil (l := c.dropLast)
      (fun h => hname.1 (by rw [h]; rfl))
    refine head?_of_isName83 hname ?_
    rw [hd, List.head?_cons, hpoints x (List.dropLast_subset c (hd ▸ List.mem_cons_self))]
  · exact hnot hform

theorem close_eq_none {t : Spelled} {c : List UInt8} (hne : c ≠ []) (hc : (0x2f : UInt8) ∉ c)
    (hrun : ScanState.start.run c = none) : ¬(IsPoints c ∨ IsName83 c) ∧ t.close c = none := by
  have hform : ¬(IsPoints c ∨ IsName83 c) := by
    rw [← ScanState.run_start c hne hc, hrun]
    exact Bool.false_ne_true
  refine ⟨hform, ?_⟩
  unfold Spelled.close
  rw [if_neg fun h => hform (.inl h), if_neg fun h => hform (.inr h)]

/-- A component that is refused, without a write or with one for its last character. -/
theorem scanned_refused {s : DirMem} {t : Spelled} {c : List UInt8} {search : List UInt8}
    {comps : List (List UInt8)} {r : Int × DirMem} (hcomps : components search = c :: comps)
    (hclose : t.close c = none) (hcode : r.1 = -0x9c)
    (hinside : ∃ new, r.2.writes = s.writes ++ new ∧ (t.text.length ≤ 255 →
      ((∀ x ∈ new, x.stop ≤ 256) ↔
        (isOpened search = true → comps = [] → OneTooLong c →
          t.text.length + c.length + 1 ≤ 255)))) :
    Scanned s t search r := by
  have hcloses : t.closes (components search) = none := by
    rw [hcomps, Spelled.closes_cons, hclose]
    rfl
  obtain ⟨new, hnew, hiff⟩ := hinside
  refine ⟨fun t' ht' => ?_, fun _ => hcode, new, hnew, fun hfits => ?_⟩
  · rw [hcloses] at ht'
    cases ht'
  · rw [hiff hfits, hcomps, TextsFit, hclose]
    simp [hfits]

theorem components_last {c : List UInt8} (hc : DirNameOk c) : components c = [c] := by
  rw [components_noSlash hc.noSlash, if_neg hc.ne_nil]

/-- The last component, when all its characters are taken. -/
theorem scanned_taken {c : List UInt8} (hc : DirNameOk c) {s : DirMem} {t : Spelled}
    (h : s.Spells t) (ht : t.Ok) (hform : IsPoints c ∨ IsName83 c) :
    Scanned s t c (close 0 s c) := by
  have hspec := close_spec h ht hc.ne_nil hform
  cases hclose : t.close c with
  | some t' =>
      rw [hclose] at hspec
      have hcloses : t.closes (components c) = some t' := by
        rw [components_last hc, Spelled.closes_cons, hclose]
        rfl
      obtain ⟨new, hnew, hiff⟩ := hspec.inside
      refine ⟨fun u hu => ?_, fun hnone => ?_, new, hnew, fun hfits => ?_⟩
      · rw [hcloses] at hu
        cases hu
        exact ⟨hspec.code, hspec.spells, ht.close hc hclose⟩
      · rw [hcloses] at hnone
        cases hnone
      · rw [hiff hfits, components_last hc, TextsFit, hclose]
        simp [hfits, not_oneTooLong hform, TextsFit]
  | none =>
      rw [hclose] at hspec
      obtain ⟨hcode, new, hnew, hlimit⟩ := hspec
      refine scanned_refused (components_last hc) hclose hcode ⟨new, hnew, fun hfits => ?_⟩
      exact iff_of_true (fun x hx => (hlimit x hx).trans (hfits.trans (by decide)))
        fun _ _ hlong => absurd hlong (not_oneTooLong hform)

/-- A component that is refused with no write, and is not one character too long. -/
theorem scanned_unwritten {c : List UInt8} (hc : DirNameOk c) {s s' : DirMem} {t : Spelled}
    (hclose : t.close c = none) (hwrites : s'.writes = s.writes) (hlong : ¬OneTooLong c) :
    Scanned s t c (-0x9c, s') := by
  refine scanned_refused (components_last hc) hclose rfl
    ⟨[], by rw [hwrites, List.append_nil], fun _ => ?_⟩
  exact iff_of_true (fun _ hx => absurd hx List.not_mem_nil) fun _ _ h => absurd h hlong

/-- The last component, when its last character is not taken. -/
theorem scanned_stopped {x : UInt8} {e : List UInt8} {w : UInt8} (hc : DirNameOk (x :: e ++ [w]))
    {s : DirMem} {t : Spelled} (h : s.Spells t) {state : ScanState}
    (hrun : ScanState.start.run (x :: e) = some state) (hnext : state.next w = none) :
    Scanned s t (x :: e ++ [w])
      (if w ≠ 0x2e then close (-0x9c) s (x :: e ++ [w]) else (-0x9c, s)) := by
  have hrun' : ScanState.start.run (x :: e ++ [w]) = none := by
    rw [ScanState.run_concat, hrun]
    exact hnext
  obtain ⟨hform, hclose⟩ := close_eq_none (t := t) hc.ne_nil hc.noSlash hrun'
  have hd : (0x2f : UInt8) ∉ x :: e := fun hmem => hc.noSlash (List.mem_append_left _ hmem)
  by_cases hpoint : w = 0x2e
  · -- a second point
    rw [if_neg (not_not_intro hpoint)]
    exact scanned_unwritten hc hclose rfl fun hlong => (oneTooLong_concat.mp hlong).2.1 hpoint
  · rw [if_pos hpoint]
    by_cases hx : x = 0x2e
    · -- not only points
      have hstay : close (-0x9c) s (x :: e ++ [w]) =
          (-0x9c, { s with state := .start, comp := [] }) := by
        unfold close
        rw [if_neg hc.ne_nil, if_pos (by simp [hx]), if_pos (by decide)]
      rw [hstay]
      refine scanned_unwritten hc hclose rfl fun hlong => ?_
      exact absurd (by simp [hx]) (head?_of_isName83 (oneTooLong_concat.mp hlong).1)
    · -- one character too long
      obtain ⟨hcode, -, -, -, hwrites⟩ := close_name (-0x9c) h hc.ne_nil (by simpa using hx)
      refine scanned_refused (components_last hc) hclose hcode ⟨_, hwrites, fun _ => ?_⟩
      have hname : IsName83 (x :: e) :=
        ((ScanState.run_start (x :: e) (List.cons_ne_nil x e) hd).mp
          (by rw [hrun]; rfl)).resolve_left fun hpoints => hx (hpoints x List.mem_cons_self)
      have hlong : OneTooLong (x :: e ++ [w]) :=
        oneTooLong_concat.mpr ⟨hname, hpoint, fun h => hform (.inr h)⟩
      have hopened : isOpened (x :: e ++ [w]) = true :=
        decide_eq_true fun hlast => hc.noSlash (List.mem_of_getLast? hlast)
      rw [List.forall_mem_singleton]
      simp only [hopened, hlong, true_implies, PathWrite.stop, List.length_append,
        List.length_cons, List.length_nil]
      omega

/-- The last component. -/
theorem scanned_end {c : List UInt8} (hc : DirNameOk c) {s : DirMem} {t : Spelled}
    (hstate : s.state = .start) (hcomp : s.comp = []) (h : s.Spells t) (ht : t.Ok) :
    Scanned s t c (scan c s) := by
  obtain ⟨d, w, rfl⟩ : ∃ d w, c = d ++ [w] :=
    ⟨c.dropLast, c.getLast hc.ne_nil, (List.dropLast_append_getLast hc.ne_nil).symm⟩
  have hslash := hc.noSlash
  rw [List.mem_append, not_or, List.mem_singleton] at hslash
  obtain ⟨hd, hw⟩ := hslash
  have hnotSlash : s.state ≠ .slash := by rw [hstate]; decide
  cases hrun : ScanState.start.run d with
  | none =>
      -- the loop ends in front of the last character
      have hall : ScanState.start.run (d ++ [w]) = none := by
        rw [ScanState.run_concat, hrun]
        rfl
      obtain ⟨hform, hclose⟩ := close_eq_none (t := t) hc.ne_nil hc.noSlash hall
      obtain ⟨hcode, hwrites⟩ :=
        scan_chars_error hd (List.cons_ne_nil w []) hnotSlash (by rw [hstate]; exact hrun)
      have hlong : ¬OneTooLong (d ++ [w]) := by
        intro hlong
        have hname : IsName83 d := (oneTooLong_concat.mp hlong).1
        have hsome :=
          (ScanState.run_start d (fun h => hname.1 (by rw [h]; rfl)) hd).mpr (.inr hname)
        rw [hrun] at hsome
        cases hsome
      have hscan : scan (d ++ [w]) s = (-0x9c, (scan (d ++ [w]) s).2) := Prod.ext hcode rfl
      rw [hscan]
      exact scanned_unwritten hc hclose hwrites hlong
  | some state =>
      obtain ⟨hscan, hslash⟩ :=
        scan_chars (s := s) hd (List.cons_ne_nil w []) hnotSlash (by rw [hstate]; exact hrun)
      rw [hscan, scan_last (Ne.symm hw) hslash, hcomp, List.nil_append]
      have hspells : Spells { s with state := state, comp := d } t := ⟨h.text, h.p1_eq, h.nul⟩
      dsimp only
      cases hnext : state.next w with
      | some state' =>
          have hrun' : ScanState.start.run (d ++ [w]) = some state' := by
            rw [ScanState.run_concat, hrun]
            exact hnext
          have hform := (ScanState.run_start (d ++ [w]) hc.ne_nil hc.noSlash).mp (by rw [hrun']; rfl)
          exact (scanned_taken hc hspells ht hform).of_writes rfl
      | none =>
          have hdne : d ≠ [] := by
            rintro rfl
            cases hrun
            cases hnext
          obtain ⟨x, e, rfl⟩ := List.exists_cons_of_ne_nil hdne
          exact (scanned_stopped hc hspells hrun hnext).of_writes rfl

/-- What is said of the rest of the search path, with its last component. -/
theorem textsFit_slash (c rest : List UInt8) (t : Spelled) :
    TextsFit (isOpened (c ++ 0x2f :: rest)) t (components rest) ↔
      TextsFit (isOpened rest) t (components rest) := by
  refine textsFit_congr ?_ t
  cases rest with
  | nil => exact .inl components_nil
  | cons x rest =>
      refine .inr ?_
      unfold isOpened
      rw [List.getLast?_append_cons, List.getLast?_cons_cons]

/-- A component with a slash behind it. -/
theorem scanned_slash {c rest : List UInt8} (hc : DirNameOk c) {s : DirMem} {t : Spelled}
    (hstate : s.state = .start) (hcomp : s.comp = []) (h : s.Spells t) (ht : t.Ok)
    (ih : ∀ {s' : DirMem} {t' : Spelled}, s'.state = .start → s'.comp = [] → s'.Spells t' → t'.Ok →
      Scanned s' t' rest (scan rest s')) :
    Scanned s t (c ++ 0x2f :: rest) (scan (c ++ 0x2f :: rest) s) := by
  have hcomps : components (c ++ 0x2f :: rest) = c :: components rest := by
    rw [components_slash, components_noSlash hc.noSlash, if_neg hc.ne_nil, List.singleton_append]
  have hnotSlash : s.state ≠ .slash := by rw [hstate]; decide
  -- a slash follows: the last character is not forgiven
  have hlong : isOpened (c ++ 0x2f :: rest) = true → components rest = [] → OneTooLong c →
      t.text.length + c.length + 1 ≤ 255 := by
    intro hopened hnil
    rw [isOpened_of_components hnil] at hopened
    cases hopened
  cases hrun : ScanState.start.run c with
  | none =>
      obtain ⟨-, hclose⟩ := close_eq_none (t := t) hc.ne_nil hc.noSlash hrun
      obtain ⟨hcode, hwrites⟩ := scan_chars_error hc.noSlash (List.cons_ne_nil 0x2f rest) hnotSlash
        (by rw [hstate]; exact hrun)
      refine scanned_refused hcomps hclose hcode
        ⟨[], by rw [hwrites, List.append_nil], fun _ => ?_⟩
      exact iff_of_true (fun _ hx => absurd hx List.not_mem_nil) hlong
  | some state =>
      have hform := (ScanState.run_start c hc.ne_nil hc.noSlash).mp (by rw [hrun]; rfl)
      obtain ⟨hscan, hslash⟩ := scan_chars hc.noSlash (List.cons_ne_nil 0x2f rest) hnotSlash
        (by rw [hstate]; exact hrun)
      have hspells : Spells { s with state := state, comp := c } t := ⟨h.text, h.p1_eq, h.nul⟩
      have hspec := close_spec hspells ht hc.ne_nil hform
      rw [hscan, scan_slash, hcomp, List.nil_append]
      cases hclose : t.close c with
      | none =>
          rw [hclose] at hspec
          obtain ⟨hcode, new, hnew, hlimit⟩ := hspec
          rw [if_neg (by rw [hcode]; decide)]
          refine scanned_refused hcomps hclose hcode ⟨new, hnew, fun hfits => ?_⟩
          exact iff_of_true (fun x hx => (hlimit x hx).trans (hfits.trans (by decide))) hlong
      | some t' =>
          rw [hclose] at hspec
          rw [if_pos hspec.code]
          obtain ⟨new, hnew, hiff⟩ := hspec.inside
          obtain ⟨htaken, hrefused, new', hnew', hiff'⟩ :=
            ih hspec.state hspec.comp hspec.spells (ht.close hc hclose)
          have hcloses : t.closes (components (c ++ 0x2f :: rest)) =
              t'.closes (components rest) := by
            rw [hcomps, Spelled.closes_cons, hclose]
            rfl
          refine ⟨fun u hu => htaken u (hcloses ▸ hu), fun hnone => hrefused (hcloses ▸ hnone),
            new ++ new', by rw [hnew', hnew, List.append_assoc], fun hfits => ?_⟩
          have hrest : TextsFit (isOpened (c ++ 0x2f :: rest)) t (c :: components rest) ↔
              TextsFit (isOpened rest) t' (components rest) := by
            rw [TextsFit, hclose, and_iff_right hfits, and_iff_right hlong,
              ← textsFit_slash c rest t']
            exact ⟨fun h => h t' rfl, fun h u hu => Option.some.inj hu ▸ h⟩
          rw [hcomps, hrest, List.forall_mem_append, hiff hfits]
          constructor
          · exact fun h => (hiff' h.1).mp h.2
          · exact fun h => ⟨h.length_le, (hiff' h.length_le).mpr h⟩

/-- The loop leads from the text of a directory to that of another. -/
theorem scan_spec (search : List UInt8) (hnul : (0 : UInt8) ∉ search) {s : DirMem} {t : Spelled}
    (hstate : s.state = .start) (hcomp : s.comp = []) (h : s.Spells t) (ht : t.Ok) :
    Scanned s t search (scan search s) := by
  induction hlen : search.length using Nat.strong_induction_on generalizing search s t with
  | _ n ih =>
      obtain ⟨c, hc⟩ : ∃ c, c = search.takeWhile fun x => x ≠ 0x2f := ⟨_, rfl⟩
      have hslash : (0x2f : UInt8) ∉ c := by
        intro hmem
        rw [hc] at hmem
        exact absurd (List.mem_takeWhile_imp hmem) (by decide)
      have hsplit := List.takeWhile_append_dropWhile (p := fun x => x ≠ 0x2f) (l := search)
      rw [← hc] at hsplit
      have hok : c ≠ [] → DirNameOk c := fun hne =>
        ⟨hne, hslash, fun hmem => hnul (hsplit ▸ List.mem_append_left _ hmem)⟩
      cases hrest : search.dropWhile fun x => x ≠ 0x2f with
      | nil =>
          rw [hrest, List.append_nil] at hsplit
          subst hsplit
          by_cases hne : c = []
          · subst hne
            refine ⟨fun u hu => ?_, fun hnone => ?_, [], (List.append_nil _).symm, fun hfits => ?_⟩
            · rw [components_nil] at hu
              cases hu
              exact ⟨rfl, h, ht⟩
            · rw [components_nil] at hnone
              cases hnone
            · rw [components_nil]
              exact iff_of_true (fun _ hx => absurd hx List.not_mem_nil) hfits
          · exact scanned_end (hok hne) hstate hcomp h ht
      | cons x rest =>
          have hx : x = 0x2f := by
            have hhead := List.head?_dropWhile_not (fun x => decide (x ≠ 0x2f)) search
            rw [hrest] at hhead
            simpa using hhead
          subst hx
          rw [hrest] at hsplit
          subst hsplit
          have hrestnul : (0 : UInt8) ∉ rest := fun hmem =>
            hnul (List.mem_append_right _ (List.mem_cons_of_mem _ hmem))
          have hlt : rest.length < n := by
            rw [← hlen, List.length_append, List.length_cons]
            omega
          by_cases hne : c = []
          · subst hne
            have hclose : close 0 s s.comp = (0, { s with state := .start, comp := [] }) := by
              unfold close
              rw [if_pos hcomp]
            have hspells : Spells { s with state := .start, comp := [] } t :=
              ⟨h.text, h.p1_eq, h.nul⟩
            obtain ⟨htaken, hrefused, new, hnew, hiff⟩ :=
              ih rest.length hlt rest hrestnul rfl rfl hspells ht rfl
            rw [List.nil_append, scan_slash, hclose, if_pos rfl]
            have hcomps : components (0x2f :: rest) = components rest := by
              change components ([] ++ 0x2f :: rest) = _
              rw [components_slash, components_nil, List.nil_append]
            have hfit := textsFit_slash [] rest t
            rw [List.nil_append] at hfit
            rw [← hcomps] at htaken hrefused hiff hfit
            exact ⟨htaken, hrefused, new, hnew, fun hfits => (hiff hfits).trans hfit.symm⟩
          · apply scanned_slash (hok hne) hstate hcomp h ht
            intro s' t' hstate' hcomp' h' ht'
            exact ih rest.length hlt rest hrestnul hstate' hcomp' h' ht' rfl

/-! ## What is written behind the path -/

theorem apply_drop {x : PathWrite} {mem : List UInt8} {n : Nat} (hx : x.stop ≤ n)
    (hn : n ≤ mem.length) :
    (x.apply mem).length = mem.length ∧ (x.apply mem).drop n = mem.drop n := by
  have hstop : x.stop = x.offset + x.bytes.length := rfl
  have hlen : (mem.take x.offset ++ x.bytes).length = x.stop := by
    rw [List.length_append, List.length_take, hstop]
    omega
  constructor
  · rw [PathWrite.apply, List.length_append, hlen, List.length_drop]
    omega
  · rw [PathWrite.apply, List.drop_append, hlen, List.drop_of_length_le (by omega),
      List.nil_append, List.drop_drop, Nat.add_sub_cancel' hx]

theorem foldl_apply_drop {writes : List PathWrite} {n : Nat} (hwrites : ∀ x ∈ writes, x.stop ≤ n)
    {mem : List UInt8} (hn : n ≤ mem.length) :
    (writes.foldl (fun mem x => x.apply mem) mem).drop n = mem.drop n := by
  induction writes generalizing mem with
  | nil => rfl
  | cons x writes ih =>
      obtain ⟨hx, hrest⟩ := List.forall_mem_cons.mp hwrites
      obtain ⟨hlen, hdrop⟩ := apply_drop hx hn
      rw [List.foldl_cons, ih hrest (by rw [hlen]; exact hn), hdrop]

theorem goBack_start (n : Nat) (s : DirMem) : (goBack n s).2.start = s.start := by
  induction n generalizing s with
  | zero => rfl
  | succ n ih =>
      have hdrop : s.dropLast.start = s.start := by
        unfold dropLast
        dsimp only
        split <;> rfl
      rw [goBack]
      split
      · rfl
      · rw [ih, hdrop]

theorem close_start (completition : Int) (s : DirMem) (comp : List UInt8) :
    (close completition s comp).2.start = s.start := by
  unfold close
  dsimp only
  split_ifs
  · rfl
  · rfl
  · exact goBack_start _ _
  · rfl

theorem char_start (w : UInt8) (last : Bool) (s : DirMem) : (char w last s).2.start = s.start := by
  unfold char
  split <;> split_ifs <;> first | exact close_start _ _ _ | rfl

theorem scan_start (search : List UInt8) (s : DirMem) : (scan search s).2.start = s.start := by
  induction search generalizing s with
  | nil => rfl
  | cons w rest ih =>
      have hchar := char_start w rest.isEmpty s
      rw [scan]
      split
      next s' heq =>
        rw [heq] at hchar
        rw [ih]
        exact hchar
      next => exact hchar

end DirMem

/-! ## The loop on lists

As long as no text is too long, `scanPath` has the path that the memory holds. -/

theorem goBack_text (n : Nat) {t : Spelled} (ht : t.Ok) :
    goBack n t.text =
      match t.ups n with
      | some t' => .ok t'.text
      | none => .error (.code (-0x9c)) := by
  induction n generalizing t with
  | zero => rfl
  | succ n ih =>
      rw [goBack, Spelled.ups]
      cases hup : t.up with
      | none =>
          rw [if_pos (Spelled.up_eq_none.mp hup)]
          rfl
      | some u =>
          have htext : t.text ≠ [] := fun hnil => by
            rw [Spelled.up_eq_none.mpr hnil] at hup
            cases hup
          rw [if_neg htext, ← ht.up_text hup, ih (ht.up hup)]
          rfl

/-- A state of the loop on lists, and one of the loop on the memory. -/
structure Follows (s : DirScan) (m : DirMem) (t : Spelled) : Prop where
  state : m.state = s.state
  comp : m.comp = s.comp
  run : ScanState.start.run s.comp = some s.state
  noSlash : (0x2f : UInt8) ∉ s.comp
  noNul : (0 : UInt8) ∉ s.comp
  spells : m.Spells t
  ok : t.Ok
  text : s.path = t.text

theorem closeComp_follows {s s' : DirScan} {m : DirMem} {t : Spelled} {c : List UInt8}
    (hspells : m.Spells t) (ht : t.Ok) (htext : s.path = t.text)
    (hrun : (ScanState.start.run c).isSome) (hslash : (0x2f : UInt8) ∉ c)
    (hnul : (0 : UInt8) ∉ c) (h : closeComp s c = .ok s') :
    (m.close 0 c).1 = 0 ∧ ∃ t', Follows s' (m.close 0 c).2 t' := by
  have hstart : ∀ {s' : DirScan} {m' : DirMem} {t' : Spelled}, s'.state = .start → s'.comp = [] →
      m'.state = .start → m'.comp = [] → m'.Spells t' → t'.Ok → s'.path = t'.text →
      Follows s' m' t' := by
    intro s' m' t' hs hcomp hm hmcomp hspells' hok htext'
    exact ⟨hm.trans hs.symm, hmcomp.trans hcomp.symm, by rw [hs, hcomp]; rfl,
      by rw [hcomp]; exact List.not_mem_nil, by rw [hcomp]; exact List.not_mem_nil, hspells', hok,
      htext'⟩
  by_cases hne : c = []
  · subst hne
    unfold closeComp at h
    rw [if_pos rfl] at h
    cases h
    exact ⟨rfl, t, hstart rfl rfl rfl rfl ⟨hspells.text, hspells.p1_eq, hspells.nul⟩ ht htext⟩
  · have hform := (ScanState.run_start c hne hslash).mp hrun
    have hspec := m.close_spec hspells ht hne hform
    -- the text that the component leads to
    obtain ⟨t', hclose, hstate, hcomp, htext'⟩ : ∃ t', t.close c = some t' ∧ s'.state = .start ∧
        s'.comp = [] ∧ s'.path = t'.text := by
      unfold closeComp at h
      rw [if_neg hne] at h
      by_cases hpoints : IsPoints c
      · rw [if_pos (DirMem.head?_of_isPoints hne hpoints), DirMem.isPoints_takeWhile hpoints, htext,
          goBack_text _ ht] at h
        rw [Spelled.close, if_pos hpoints]
        cases hups : t.ups (c.length - 1) with
        | none =>
            rw [hups] at h
            cases h
        | some t' =>
            rw [hups] at h
            cases h
            exact ⟨t', rfl, rfl, rfl, rfl⟩
      · have hname := hform.resolve_left hpoints
        rw [if_neg (DirMem.head?_of_isName83 hname)] at h
        rw [Spelled.close, if_neg hpoints, if_pos hname]
        split at h
        · cases h
        · cases h
          refine ⟨_, rfl, rfl, rfl, ?_⟩
          rw [htext, Spelled.text_concat]
    rw [hclose] at hspec
    exact ⟨hspec.code, t', hstart hstate hcomp hspec.state hspec.comp hspec.spells
      (ht.close ⟨hne, hslash, hnul⟩ hclose) htext'⟩

theorem scanChar_follows {w : UInt8} (hw : w ≠ 0) {last : Bool} {s s' : DirScan} {m : DirMem}
    {t : Spelled} (hrel : Follows s m t) (h : scanChar w last s = .ok s') :
    (m.char w last).1 = 0 ∧ ∃ t', Follows s' (m.char w last).2 t' := by
  unfold scanChar at h
  unfold DirMem.char
  rw [hrel.state]
  cases hnext : s.state.next w with
  | none =>
      rw [hnext] at h
      cases h
  | some state =>
      rw [hnext] at h
      dsimp only at h ⊢
      have htext : ∀ ppp, ({ s with ppp := ppp } : DirScan).path = t.text := fun _ => hrel.text
      replace htext := htext (if s.state = .points then 0 else s.ppp)
      by_cases hslash : state = .slash
      · rw [if_pos hslash] at h ⊢
        rw [hrel.comp]
        exact closeComp_follows hrel.spells hrel.ok htext
          (by rw [hrel.run]; rfl) hrel.noSlash hrel.noNul h
      · have hnot : w ≠ 0x2f := by
          rintro rfl
          apply hslash
          cases hstate : s.state <;> rw [hstate] at hnext <;> cases hnext <;> rfl
        have hrun : ScanState.start.run (s.comp ++ [w]) = some state := by
          rw [ScanState.run_concat, hrel.run]
          exact hnext
        have hcompSlash : (0x2f : UInt8) ∉ s.comp ++ [w] := by
          simpa using ⟨hrel.noSlash, Ne.symm hnot⟩
        have hcompNul : (0 : UInt8) ∉ s.comp ++ [w] := by
          simpa using ⟨hrel.noNul, Ne.symm hw⟩
        rw [if_neg hslash] at h ⊢
        rw [hrel.comp]
        by_cases hlast : last = true
        · rw [if_pos hlast] at h ⊢
          exact closeComp_follows hrel.spells hrel.ok htext
            (by rw [hrun]; rfl) hcompSlash hcompNul h
        · rw [if_neg hlast] at h ⊢
          cases h
          exact ⟨rfl, t, rfl, rfl, hrun, hcompSlash, hcompNul,
            ⟨hrel.spells.text, hrel.spells.p1_eq, hrel.spells.nul⟩, hrel.ok, hrel.text⟩

theorem scanPath_follows {search : List UInt8} (hnul : (0 : UInt8) ∉ search) {s s' : DirScan}
    {m : DirMem} {t : Spelled} (hrel : Follows s m t) (h : scanPath search s = .ok s') :
    (DirMem.scan search m).1 = 0 ∧ ∃ t', Follows s' (DirMem.scan search m).2 t' := by
  induction search generalizing s m t with
  | nil =>
      cases h
      exact ⟨rfl, t, hrel⟩
  | cons w rest ih =>
      rw [List.mem_cons, not_or] at hnul
      unfold scanPath at h
      split at h
      next s₁ hchar =>
        obtain ⟨hcode, t₁, hrel₁⟩ := scanChar_follows (Ne.symm hnul.1) hrel hchar
        rw [DirMem.scan_cons_ok (Prod.ext hcode rfl)]
        exact ih hnul.2 hrel₁ h
      next => cases h

/-! ## The path that is assembled -/

/-- The directory from where a request leads. -/
def requestDir (handle : Option HandlePath) (request : List UInt8) : Spelled :=
  match handle with
  | none => ⟨false, []⟩
  | some h => if request.head? = some 0x2f then ⟨false, []⟩ else ⟨h.dirs = [], h.dirs⟩

theorem requestDir_ok (handle : Option HandlePath) (request : List UInt8) :
    (requestDir handle request).Ok := by
  unfold requestDir
  split
  · exact fun c hc => absurd hc List.not_mem_nil
  next h =>
    split
    · exact fun c hc => absurd hc List.not_mem_nil
    · exact h.ok

theorem searchFrom_spec (handle : Option HandlePath) (request : List UInt8) :
    (searchFrom handle request).1 = (requestDir handle request).text ∧
      components (searchFrom handle request).2 = components request ∧
      (searchFrom handle request).2 ⊆ request ∧ (requestDir handle request).text.length ≤ 255 := by
  unfold searchFrom requestDir
  cases handle with
  | none => exact ⟨rfl, rfl, List.Subset.refl _, Nat.zero_le _⟩
  | some h =>
      dsimp only
      by_cases hslash : request.head? = some 0x2f
      · rw [if_pos hslash, if_pos hslash]
        refine ⟨rfl, ?_, List.tail_subset request, Nat.zero_le _⟩
        obtain ⟨x, rest, rfl⟩ := List.exists_cons_of_ne_nil (l := request)
          (by rintro rfl; cases hslash)
        cases hslash
        change _ = components ([] ++ 0x2f :: rest)
        rw [components_slash, components_nil, List.nil_append, List.tail_cons]
      · rw [if_neg hslash, if_neg hslash]
        have htext : h.text = (Spelled.mk (h.dirs = []) h.dirs).text := by
          unfold HandlePath.text Spelled.text
          by_cases hroot : h.dirs = []
          · simp [hroot, dirText]
          · simp [hroot]
        refine ⟨htext, rfl, List.Subset.refl _, ?_⟩
        rw [← htext, HandlePath.text]
        split
        · decide
        · exact h.text_le

/-- The text from where the loop goes on is written first. -/
theorem spells_start (t : Spelled) (nwpath : PathFn) :
    DirMem.Spells (DirMem.write ⟨.start, [], t.text.length, nwpath.bytes, []⟩ 0 (t.text ++ [0]))
      t := by
  have h := DirMem.spells_write (s := ⟨.start, [], 0, nwpath.bytes, []⟩) t.text (t := t)
    (Nat.zero_le _) rfl
  rw [Nat.zero_add] at h
  exact h

/-- The path of `scanPath` is the one in the memory. -/
theorem dirName_of_scanPath (handle : Option HandlePath) (request : CText 256) (nwpath : PathFn)
    {ppp : Nat} {s' : DirScan}
    (h : scanPath (searchFrom handle request.bytes).2
      ⟨.start, [], (searchFrom handle request.bytes).1, ppp⟩ = .ok s') :
    (dirName handle request nwpath).1 = 0 ∧
      CText.visible (dirName handle request nwpath).2.mem = s'.path := by
  obtain ⟨hpath, -, hsub, -⟩ := searchFrom_spec handle request.bytes
  have hspells := spells_start (requestDir handle request.bytes) nwpath
  obtain ⟨hcode, t', hrel⟩ := scanPath_follows (fun hmem => request.noNul (hsub hmem))
    ⟨rfl, rfl, rfl, List.not_mem_nil, List.not_mem_nil, hspells,
      requestDir_ok handle request.bytes, hpath⟩ h
  unfold dirName
  rw [hpath]
  exact ⟨hcode, (hrel.spells.visible hrel.ok).trans hrel.text.symm⟩

/-- What `build_dir_name` makes of a request. -/
theorem dirName_spec (handle : Option HandlePath) (request : CText 256) (nwpath : PathFn) :
    let t := requestDir handle request.bytes
    let r := dirName handle request nwpath
    (∀ t', t.closes (components request.bytes) = some t' →
        r.1 = 0 ∧ CText.visible r.2.mem = t'.text ∧ t'.Ok) ∧
      (t.closes (components request.bytes) = none → r.1 = -0x9c) ∧
      ((∀ x ∈ r.2.writes, x.stop ≤ 256) ↔
        TextsFit (isOpened (searchFrom handle request.bytes).2) t (components request.bytes)) := by
  obtain ⟨hpath, hcomps, hsub, hfits⟩ := searchFrom_spec handle request.bytes
  have ht := requestDir_ok handle request.bytes
  have hspells := spells_start (requestDir handle request.bytes) nwpath
  obtain ⟨htaken, hrefused, new, hnew, hiff⟩ := DirMem.scan_spec
    (searchFrom handle request.bytes).2 (fun hmem => request.noNul (hsub hmem)) rfl rfl hspells ht
  rw [hcomps] at htaken hrefused hiff
  unfold dirName
  rw [hpath]
  dsimp only
  refine ⟨fun t' ht' => ?_, hrefused, ?_⟩
  · obtain ⟨hcode, hspells', hok⟩ := htaken t' ht'
    exact ⟨hcode, hspells'.visible hok, hok⟩
  · rw [hnew, List.forall_mem_append, ← hiff hfits]
    refine and_iff_right fun x hx => ?_
    rw [List.mem_singleton.mp hx]
    change 0 + ((requestDir handle request.bytes).text ++ [0]).length ≤ 256
    rw [List.length_append, List.length_singleton]
    omega

/-- The components of a request, folded from the directories of the handle, or from none
for an absolute path. -/
def foldRequest (handle : Option HandlePath) (request : List UInt8) : Option (List (List UInt8)) :=
  foldComps (requestDir handle request).dirs (components request)

/-- The path of a request is that of the directories it folds to, behind the slash of a
root handle perhaps; a request that folds to none is a wrong path. -/
structure Normalises (handle : Option HandlePath) (request : CText 256) (nwpath : PathFn) :
    Prop where
  taken : ∀ dirs, foldRequest handle request.bytes = some dirs →
    (dirName handle request nwpath).1 = 0 ∧
      let path := CText.visible (dirName handle request nwpath).2.mem
      components path = dirs ∧
        (path = dirText dirs ∨ (requestDir handle request.bytes).root = true ∧
          path = 0x2f :: dirText dirs)
  refused : foldRequest handle request.bytes = none →
    (dirName handle request nwpath).1 = -0x9c

/-- The request starts at a root handle and backs out of it. -/
def BacksOutOfRoot (handle : Option HandlePath) (request : List UInt8) : Prop :=
  (requestDir handle request).root = true ∧ BacksOut (components request)

/-- The slash of a root handle does not come from anywhere else. -/
theorem Spelled.ups_root {n : Nat} {s t : Spelled} (h : s.ups n = some t) (ht : t.root = true) :
    s.root = true := by
  induction n generalizing s with
  | zero =>
      cases h
      exact ht
  | succ n ih =>
      obtain ⟨u, hup, hups⟩ := Option.bind_eq_some_iff.mp h
      have hu := ih hups
      unfold Spelled.up at hup
      split_ifs at hup
      · cases hup
        cases hu
      · cases hup
        exact (Bool.and_eq_true_iff.mp hu).1

theorem Spelled.closes_root {comps : List (List UInt8)} {s t : Spelled}
    (h : s.closes comps = some t) (ht : t.root = true) : s.root = true := by
  induction comps generalizing s with
  | nil =>
      cases h
      exact ht
  | cons c comps ih =>
      rw [closes_cons] at h
      obtain ⟨u, hclose, hcloses⟩ := Option.bind_eq_some_iff.mp h
      have hu := ih hcloses
      unfold close at hclose
      split_ifs at hclose
      · exact ups_root hclose hu
      · cases hclose
        exact hu

theorem foldComps_of_backsOut {comps : List (List UInt8)} (h : BacksOut comps) :
    foldComps [] comps = none := by
  obtain ⟨n, behind, rfl, -⟩ := h
  induction n with
  | zero => rfl
  | succ n ih => exact ih

/-- Every component has a character. -/
theorem components_ne_nil (text : List UInt8) : ∀ c ∈ components text, c ≠ [] := by
  intro c hc
  simpa using (List.mem_filter.mp hc).2

/-- A request is led along its components if and only if it does not back out of a
root handle. -/
theorem normalises_iff (handle : Option HandlePath) (request : CText 256) (nwpath : PathFn) :
    Normalises handle request nwpath ↔ ¬BacksOutOfRoot handle request.bytes := by
  obtain ⟨htaken, hrefused, -⟩ := dirName_spec handle request nwpath
  have hstart : (requestDir handle request.bytes).root = true →
      requestDir handle request.bytes = ⟨true, []⟩ := by
    unfold requestDir
    split
    · exact fun h => by cases h
    · split
      · exact fun h => by cases h
      · intro h
        have hnil := of_decide_eq_true h
        simp [hnil]
  have hiff :
      ((requestDir handle request.bytes).closes (components request.bytes)).map Spelled.dirs =
        foldRequest handle request.bytes ↔ ¬BacksOutOfRoot handle request.bytes := by
    unfold foldRequest BacksOutOfRoot
    by_cases hroot : (requestDir handle request.bytes).root = true
    · rw [hstart hroot, Spelled.closes_root_iff _ (components_ne_nil _)]
      simp
    · rw [Spelled.closes_dirs _ (.inl (Bool.eq_false_iff.mpr hroot))]
      exact iff_of_true rfl fun h => hroot h.1
  rw [← hiff]
  constructor
  · intro h
    by_contra hne
    -- the request backs out: it is taken although it folds to nothing
    have hout : BacksOutOfRoot handle request.bytes := by
      by_contra hnot
      exact hne (hiff.mpr hnot)
    have hfold : foldRequest handle request.bytes = none := by
      unfold foldRequest
      rw [hstart hout.1]
      exact foldComps_of_backsOut hout.2
    rw [hfold, Option.map_eq_none_iff] at hne
    obtain ⟨t, ht⟩ := Option.ne_none_iff_exists'.mp hne
    have hcode := h.refused hfold
    rw [(htaken t ht).1] at hcode
    revert hcode
    decide
  · intro heq
    constructor
    · intro dirs hdirs
      rw [hdirs, Option.map_eq_some_iff] at heq
      obtain ⟨t, ht, rfl⟩ := heq
      obtain ⟨hcode, hvisible, hok⟩ := htaken t ht
      refine ⟨hcode, ?_⟩
      dsimp only
      rw [hvisible]
      refine ⟨hok.components_text, ?_⟩
      obtain ⟨root, dirs⟩ := t
      cases root with
      | false => exact .inl rfl
      | true => exact .inr ⟨Spelled.closes_root ht rfl, rfl⟩
    · intro hnone
      rw [hnone, Option.map_eq_none_iff] at heq
      exact hrefused heq

/-- The handle of a root. -/
def rootHandle : HandlePath := ⟨[], fun _ hc => absurd hc List.not_mem_nil, by decide⟩

def zeroPathFn : PathFn := ⟨List.replicate 512 0, List.length_replicate⟩

/-- `..` -/
def upRequest : CText 256 := ⟨[0x2e, 0x2e], by decide, by decide⟩

/-- From a root handle `..` leads to the root, although there is no directory above. -/
theorem up_from_root_is_taken : ¬Normalises (some rootHandle) upRequest zeroPathFn := by
  intro h
  have hcode := h.refused rfl
  revert hcode
  decide

/-- What is written lies in the path, and the name is as it was. -/
structure StaysInPath (handle : Option HandlePath) (request : CText 256) (nwpath : PathFn) :
    Prop where
  inside : ∀ x ∈ (dirName handle request nwpath).2.writes, x.stop ≤ 256
  fn : (dirName handle request nwpath).2.mem.drop 256 = nwpath.bytes.drop 256

/-- The buffer is not left if and only if the texts fit. -/
theorem staysInPath_iff (handle : Option HandlePath) (request : CText 256) (nwpath : PathFn) :
    StaysInPath handle request nwpath ↔
      TextsFit (isOpened (searchFrom handle request.bytes).2) (requestDir handle request.bytes)
        (components request.bytes) := by
  obtain ⟨-, -, hiff⟩ := dirName_spec handle request nwpath
  rw [← hiff]
  refine ⟨StaysInPath.inside, fun hinside => ⟨hinside, ?_⟩⟩
  have hstart : (dirName handle request nwpath).2.start = nwpath.bytes := DirMem.scan_start _ _
  rw [DirMem.mem, hstart]
  exact DirMem.foldl_apply_drop hinside (by rw [nwpath.length_eq]; decide)

/-- `ABCDEFGH/` 28 times and `ABC`, of 255 bytes. -/
def longRequest : CText 256 where
  bytes := (List.replicate 28 [0x41, 0x42, 0x43, 0x44, 0x45, 0x46, 0x47, 0x48, 0x2f]).flatten ++
    [0x41, 0x42, 0x43]
  length_lt := by decide +kernel
  noNul := by decide +kernel

/-- From a root handle the slash of the last directory and its end are written to the
name. -/
theorem long_request_leaves_path : ¬StaysInPath (some rootHandle) longRequest zeroPathFn := by
  intro h
  have hinside := h.inside
  revert hinside
  decide +kernel

end MarsNwe
