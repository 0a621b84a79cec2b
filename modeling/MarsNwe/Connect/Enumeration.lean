import MarsNwe.Connect.DirSearch
import MarsNwe.Lib.Machine

/-! # Enumerating a directory

A client starts with the sequence 0xffff and asks again with the sequence of each
answer, which has 16 bits. Both ways to search give it the same answers. They end
only if no entry that matches stands so far back that its sequence wraps or reads
as a new start.
-/

namespace MarsNwe

/-- What the client learns of an entry. -/
def DirFound.shown (found : DirFound) : Dirent × List UInt8 := (found.dirent, found.fn)

/-- The answer as the client gets it. -/
def wireAnswer : Option DirFound × Nat → Option ((Dirent × List UInt8) × UInt16)
  | (some found, sequence) => some (found.shown, UInt16.ofNat sequence)
  | (none, _) => none

/-- `get_dir_entry` as a client uses it. -/
def dirEntryMachine (v : DirView) (entry : List UInt8) (attrib : UInt32) :
    Machine Unit UInt16 (Option ((Dirent × List UInt8) × UInt16)) where
  step _ sequence :=
    match getDirEntry v entry sequence.toNat attrib with
    | (.ok found, sequence) => (wireAnswer (some found, sequence), ())
    | (.error _, _) => (none, ())

/-- `get_dh_entry` as a client uses it. -/
def dhEntryMachine (v : DirView) (entry : List UInt8) (attrib : UInt32) :
    Machine DirHandle UInt16 (Option ((Dirent × List UInt8) × UInt16)) where
  step dh sequence :=
    let (answer, dh) := getDhEntry v dh entry sequence.toNat attrib
    (wireAnswer answer, dh)

/-- What may happen to a handle. -/
inductive DhEvent where
  | search (entry : List UInt8) (sequence : Nat) (attrib : UInt32)
  /-- `new_dir_handle` for the same directory. -/
  | renew
  /-- Other handles are made, or the directory is to be removed. -/
  | close

/-- The calls on a handle, of any clients in any order. -/
def dhMachine (v : DirView) : Machine DirHandle DhEvent (Option DirFound × Nat) where
  step dh
    | .search entry sequence attrib => getDhEntry v dh entry sequence attrib
    | .renew => ((none, 0), .new v.soptions)
    | .close => ((none, 0), { dh with f := none })

/-- The entries that a search is for, in their order. -/
def matching (v : DirView) (entry : List UInt8) (attrib : UInt32) : List (Dirent × List UInt8) :=
  v.entries.filterMap fun d => (testDirent v entry attrib d).map DirFound.shown

/-! ## One call -/

section

variable (v : DirView) (entry : List UInt8) (attrib : UInt32)

/-- The loop finds nothing, or the first entry that passes the tests. -/
theorem readUntil_cases (ds : List Dirent) (sequence : Nat) :
    ((∀ d ∈ ds, testDirent v entry attrib d = none) ∧
      readUntil v entry attrib ds sequence = (none, sequence + ds.length)) ∨
    ∃ before d after found, ds = before ++ d :: after ∧
      (∀ d ∈ before, testDirent v entry attrib d = none) ∧
      testDirent v entry attrib d = some found ∧
      readUntil v entry attrib ds sequence = (some found, sequence + before.length + 1) := by
  induction ds generalizing sequence with
  | nil => exact .inl ⟨fun d hd => by contradiction, rfl⟩
  | cons d ds ih =>
      unfold readUntil
      cases htest : testDirent v entry attrib d with
      | some found =>
          exact .inr ⟨[], d, ds, found, rfl, fun d hd => by contradiction, htest, rfl⟩
      | none =>
          rcases ih (sequence + 1) with ⟨hnone, hread⟩ | ⟨before, e, after, found, hds, hbefore,
            hfound, hread⟩
          · refine .inl ⟨List.forall_mem_cons.mpr ⟨htest, hnone⟩, ?_⟩
            rw [hread, List.length_cons]
            dsimp only
            rw [Nat.add_assoc, Nat.add_comm 1]
          · refine .inr ⟨d :: before, e, after, found, by rw [hds, List.cons_append],
              List.forall_mem_cons.mpr ⟨htest, hbefore⟩, hfound, ?_⟩
            rw [hread, List.length_cons]
            dsimp only
            congr 1
            omega

/-- Where a search starts for a sequence. -/
def searchStart (sequence : Nat) : Nat := if sequence = 0xffff then 0 else sequence

/-- The answer to a sequence, whatever was asked before. -/
def answerFrom (k : Nat) : Option DirFound × Nat :=
  if v.entries.length < k then (none, k) else readUntil v entry attrib (v.entries.drop k) k

theorem step_dirEntryMachine (sequence : UInt16) :
    ((dirEntryMachine v entry attrib).step () sequence).1 =
      wireAnswer (answerFrom v entry attrib (searchStart sequence.toNat)) := by
  unfold dirEntryMachine getDirEntry answerFrom searchStart
  dsimp only
  generalize (if sequence.toNat = 0xffff then 0 else sequence.toNat) = k
  by_cases hbeyond : v.entries.length < k
  · simp only [hbeyond, if_true]
    rfl
  · simp only [hbeyond, if_false]
    generalize readUntil v entry attrib _ _ = read
    obtain ⟨found, after⟩ := read
    cases found with
    | none => rfl
    | some found => rfl

/-- The position of a handle is that of its sequence. -/
def DirHandle.Sound (v : DirView) (dh : DirHandle) : Prop :=
  dh.dirpos = dh.sequence ∧ dh.sequence ≤ v.entries.length

theorem releaseDhF_sound {options : VolOptions} {dh : DirHandle} (h : dh.Sound v) :
    (releaseDhF options dh).Sound v := by
  unfold releaseDhF
  split
  · exact h
  · exact h

/-- A search in a handle answers by the sequence alone. -/
theorem getDhEntry_spec {dh : DirHandle} (h : dh.Sound v) (sequence : Nat) :
    wireAnswer (getDhEntry v dh entry sequence attrib).1 =
        wireAnswer (answerFrom v entry attrib
          (if sequence % 0x10000 = 0xffff then 0 else sequence)) ∧
      (getDhEntry v dh entry sequence attrib).2.Sound v := by
  unfold getDhEntry
  generalize (if sequence % 0x10000 = 0xffff then 0 else sequence) = k
  dsimp only
  -- going back starts over, so the handle is never ahead of the sequence
  generalize hstart : (if k < dh.sequence then
    ({ dh with f := some (dh.f.getD 0), dirpos := 0, sequence := 0 } : DirHandle)
    else { dh with f := some (dh.f.getD 0) }) = start
  have hsound : start.Sound v ∧ start.sequence ≤ k := by
    rw [← hstart]
    split
    next => exact ⟨⟨rfl, Nat.zero_le _⟩, Nat.zero_le _⟩
    next hahead => exact ⟨h, Nat.not_lt.mp hahead⟩
  obtain ⟨⟨hpos, hle⟩, hbehind⟩ := hsound
  have hskip : start.dirpos + (k - start.sequence) = k := by omega
  have hskip' : start.sequence + (k - start.sequence) = k := by omega
  rw [hskip, hskip']
  unfold answerFrom
  by_cases hbeyond : v.entries.length < k
  · rw [if_pos hbeyond, if_pos hbeyond]
    refine ⟨rfl, releaseDhF_sound v ⟨?_, ?_⟩⟩
    · dsimp only
      omega
    · dsimp only
      omega
  · rw [if_neg hbeyond, if_neg hbeyond]
    dsimp only
    refine ⟨rfl, releaseDhF_sound v ?_⟩
    rcases readUntil_cases v entry attrib (v.entries.drop k) k with
      ⟨-, hread⟩ | ⟨before, d, after, found, hsplit, -, -, hread⟩
    · rw [hread]
      refine ⟨?_, ?_⟩
      · dsimp only
        omega
      · dsimp only
        rw [List.length_drop]
        omega
    · have hlength := congrArg List.length hsplit
      rw [List.length_drop, List.length_append, List.length_cons] at hlength
      rw [hread]
      refine ⟨?_, ?_⟩
      · dsimp only
        omega
      · dsimp only
        omega

theorem dhMachine_sound (events : List DhEvent) :
    ((dhMachine v).exec (.new v.soptions) events).Sound v := by
  have hstep : ∀ dh e, dh.Sound v → ((dhMachine v).step dh e).2.Sound v := by
    intro dh e h
    cases e with
    | search entry sequence attrib => exact (getDhEntry_spec v entry attrib h sequence).2
    | renew => exact ⟨rfl, Nat.zero_le _⟩
    | close => exact h
  exact (dhMachine v).exec_preserves hstep events ⟨rfl, Nat.zero_le _⟩

/-- Both searches answer alike, whatever was asked before. -/
theorem step_dhEntryMachine {dh : DirHandle} (h : dh.Sound v) (sequence : UInt16) :
    ((dhEntryMachine v entry attrib).step dh sequence).1 =
        ((dirEntryMachine v entry attrib).step () sequence).1 ∧
      ((dhEntryMachine v entry attrib).step dh sequence).2.Sound v := by
  obtain ⟨hanswer, hsound⟩ := getDhEntry_spec v entry attrib h sequence.toNat
  refine ⟨?_, hsound⟩
  rw [step_dirEntryMachine]
  have hmod : sequence.toNat % 0x10000 = sequence.toNat := Nat.mod_eq_of_lt sequence.toNat_lt
  rw [hmod] at hanswer
  exact hanswer

/-! ## Whole searches -/

/-- The condition: the sequence after each entry that matches is no new start. -/
def SequencesFit : Prop :=
  ∀ i d, v.entries[i]? = some d → (testDirent v entry attrib d).isSome → i + 1 < 0xffff

/-- An answer gives the first entry from the start of the search on that matches,
with the position after it. -/
theorem answerFrom_cases (k : Nat) :
    ((∀ d ∈ v.entries.drop k, testDirent v entry attrib d = none) ∧
      wireAnswer (answerFrom v entry attrib k) = none) ∨
    ∃ before d after found, v.entries.drop k = before ++ d :: after ∧
      (∀ d ∈ before, testDirent v entry attrib d = none) ∧
      testDirent v entry attrib d = some found ∧
      wireAnswer (answerFrom v entry attrib k) =
        some (found.shown, UInt16.ofNat (k + before.length + 1)) := by
  unfold answerFrom
  split
  next hbeyond =>
      left
      rw [List.drop_eq_nil_of_le (Nat.le_of_lt hbeyond)]
      exact ⟨fun d hd => by contradiction, rfl⟩
  next =>
      rcases readUntil_cases v entry attrib (v.entries.drop k) k with
        ⟨hnone, hread⟩ | ⟨before, d, after, found, hsplit, hbefore, hfound, hread⟩
      · left
        rw [hread]
        exact ⟨hnone, rfl⟩
      · right
        rw [hread]
        exact ⟨before, d, after, found, hsplit, hbefore, hfound, rfl⟩

theorem getElem?_of_drop {α : Type} {as before after : List α} {a : α} {k : Nat}
    (h : as.drop k = before ++ a :: after) :
    as[k + before.length]? = some a ∧ as.drop (k + before.length + 1) = after := by
  constructor
  · rw [← List.getElem?_drop, h, List.getElem?_append_right (Nat.le_refl _), Nat.sub_self]
    rfl
  · rw [Nat.add_assoc, ← List.drop_drop, h, List.drop_length_add_append]
    rfl

/-- Entries that do not pass the tests are not shown. -/
theorem filterMap_testDirent_nil {ds : List Dirent}
    (h : ∀ d ∈ ds, testDirent v entry attrib d = none) :
    (ds.filterMap fun d => (testDirent v entry attrib d).map DirFound.shown) = [] := by
  apply List.filterMap_eq_nil_iff.mpr
  intro d hd
  rw [h d hd]
  rfl

theorem enumerates_of_sequencesFit (hfit : SequencesFit v entry attrib) (sequence : UInt16) :
    (dirEntryMachine v entry attrib).Enumerates () sequence
      ((v.entries.drop (searchStart sequence.toNat)).filterMap
        fun d => (testDirent v entry attrib d).map DirFound.shown) := by
  -- what is left of the directory gets shorter with every answer
  induction hleft : v.entries.length - searchStart sequence.toNat using Nat.strong_induction_on
    generalizing sequence with
  | _ left ih =>
      have hstep := step_dirEntryMachine v entry attrib sequence
      rcases answerFrom_cases v entry attrib (searchStart sequence.toNat) with
        ⟨hnone, hanswer⟩ | ⟨before, d, after, found, hsplit, hbefore, hfound, hanswer⟩
      · rw [filterMap_testDirent_nil v entry attrib hnone]
        exact hstep.trans hanswer
      · obtain ⟨hd, hafter⟩ := getElem?_of_drop hsplit
        have hfits := hfit _ d hd (by rw [hfound]; rfl)
        have hnext : searchStart (UInt16.ofNat
            (searchStart sequence.toNat + before.length + 1)).toNat =
            searchStart sequence.toNat + before.length + 1 := by
          rw [UInt16.toNat_ofNat_of_lt' (by simp [UInt16.size]; omega)]
          exact if_neg (Nat.ne_of_lt hfits)
        rw [hsplit, List.filterMap_append, filterMap_testDirent_nil v entry attrib hbefore,
          List.filterMap_cons, hfound]
        refine ⟨_, hstep.trans hanswer, ?_⟩
        have hrest := ih _ ?_ (UInt16.ofNat (searchStart sequence.toNat + before.length + 1)) rfl
        · rw [hnext, hafter] at hrest
          exact hrest
        · rw [hnext]
          have hlength := List.getElem?_eq_some_iff.mp hd
          obtain ⟨hlt, -⟩ := hlength
          omega

/-- An entry that matches so far back is never passed. -/
theorem not_enumerates_of_far {i : Nat} {d : Dirent} (hd : v.entries[i]? = some d)
    (hmatch : (testDirent v entry attrib d).isSome) (hfar : 0xffff ≤ i + 1)
    (as : List (Dirent × List UInt8)) :
    ¬(dirEntryMachine v entry attrib).Enumerates () 0xffff as := by
  have hstep : ∀ (s : Unit) (sequence : UInt16), searchStart sequence.toNat ≤ i →
      ∃ a k', ((dirEntryMachine v entry attrib).step s sequence).1 = some (a, k') ∧
        searchStart k'.toNat ≤ i := by
    intro s sequence hstart
    rw [step_dirEntryMachine]
    have hmem : (v.entries.drop (searchStart sequence.toNat))[i - searchStart sequence.toNat]? =
        some d := by
      rw [List.getElem?_drop, Nat.add_sub_cancel' hstart]
      exact hd
    rcases answerFrom_cases v entry attrib (searchStart sequence.toNat) with
      ⟨hnone, -⟩ | ⟨before, e, after, found, hsplit, hbefore, hfound, hanswer⟩
    · rw [hnone d (List.mem_of_getElem? hmem)] at hmatch
      contradiction
    · refine ⟨_, _, hanswer, ?_⟩
      -- the entry that is found stands at `i` or before it
      have hle : searchStart sequence.toNat + before.length ≤ i := by
        by_contra hgt
        rw [hsplit, List.getElem?_append_left (by omega)] at hmem
        rw [hbefore d (List.mem_of_getElem? hmem)] at hmatch
        contradiction
      rw [UInt16.toNat_ofNat']
      generalize searchStart sequence.toNat + before.length = j at hle
      unfold searchStart
      split
      next => exact Nat.zero_le _
      next hwrap => omega
  have hstart : searchStart (0xffff : UInt16).toNat ≤ i := Nat.zero_le i
  exact Machine.not_enumerates hstep hstart as

/-- Both searches give a client every entry that matches once and then nothing,
and the same answer to every sequence whatever happened to the handle, if and only
if the sequences fit. -/
theorem search_enumerates_iff :
    ((dirEntryMachine v entry attrib).Enumerates () 0xffff (matching v entry attrib) ∧
      ∀ events, let dh := (dhMachine v).exec (.new v.soptions) events
        (dhEntryMachine v entry attrib).Enumerates dh 0xffff (matching v entry attrib) ∧
        ∀ sequence, ((dhEntryMachine v entry attrib).step dh sequence).1 =
          ((dirEntryMachine v entry attrib).step () sequence).1) ↔
    SequencesFit v entry attrib := by
  constructor
  · intro ⟨henumerates, _⟩ i d hd hmatch
    by_contra hfar
    exact not_enumerates_of_far v entry attrib hd hmatch (Nat.not_lt.mp hfar) _ henumerates
  · intro hfit
    have henumerates := enumerates_of_sequencesFit v entry attrib hfit 0xffff
    refine ⟨henumerates, fun events => ?_⟩
    have hsound := dhMachine_sound v events
    have hstep : ∀ (dh : DirHandle) (s : Unit) (sequence : UInt16), dh.Sound v →
        ((dhEntryMachine v entry attrib).step dh sequence).1 =
            ((dirEntryMachine v entry attrib).step s sequence).1 ∧
          ((dhEntryMachine v entry attrib).step dh sequence).2.Sound v :=
      fun dh s sequence h => step_dhEntryMachine v entry attrib h sequence
    exact ⟨(Machine.enumerates_iff hstep hsound _ _).mpr henumerates,
      fun sequence => (hstep _ () sequence hsound).1⟩

end

/-- A directory of so many files, each with a name of four letters of its own. -/
def directoryOf (count : Nat) : DirView where
  tables := ⟨id, fun a b => a == b⟩
  soptions := ⟨false, false, false, false⟩
  sStat _ := some ⟨false, 0, 0⟩
  noSearchTrustee := false
  browse _ := true
  entries := (List.range count).map fun n =>
    ⟨1, [12, 8, 4, 0].map fun place => UInt8.ofNat (0x41 + (n >>> place) % 16)⟩

/-- In a directory of 65535 files the search for all of them never ends. -/
theorem search_endless :
    ∃ v entry attrib,
      ¬(dirEntryMachine v entry attrib).Enumerates () 0xffff (matching v entry attrib) := by
  have hlast : (directoryOf 65535).entries[65534]? = some ⟨1, [0x50, 0x50, 0x50, 0x4f]⟩ := by
    have hrange : (List.range 65535)[65534]? = some 65534 := List.getElem?_range (by omega)
    unfold directoryOf
    rw [List.getElem?_map, hrange]
    rfl
  have hmatch : (testDirent (directoryOf 65535) [0x2a] 0 ⟨1, [0x50, 0x50, 0x50, 0x4f]⟩).isSome := by
    decide
  exact ⟨directoryOf 65535, [0x2a], 0,
    not_enumerates_of_far _ _ _ hlast hmatch (Nat.le_refl 65535) _⟩

end MarsNwe
