import Mathlib.Data.List.DropRight
import MarsNwe.Connect.PathNames
import MarsNwe.Lib.Machine

/-! # Open directories

A search has a slot with its directory, and the directory stays open while it is the one
that was used last. The slots are few: the oldest gives way. Streams are numbered as they
are opened, so that each of them can be followed until it is closed.
-/

namespace MarsNwe.DirStreams

/-! ## The code -/

/-- `DIR_HANDLE`, without the position in the directory. -/
structure Slot where
  f : Option Nat
  id : FileNumbers
  volume : Nat
  timestamp : Int
  remount : Bool
deriving DecidableEq

/-- `dir_handles` up to `anz_dirhandles`, how many streams were opened, and which were
closed. -/
structure Slots where
  slots : List Slot
  opened : Nat
  closed : List Nat
deriving DecidableEq

/-- `MAX_DIRHANDLES` -/
def maxDirhandles : Nat := 80

/-- `EXPIRE_COST` -/
def expireCost : Int := 86400

def Slots.init : Slots := ⟨[], 0, []⟩

/-- What `new_dir_handle` works on: the directory, `akttime`, and whether the directory can
be opened. -/
structure DirRequest where
  id : FileNumbers
  volume : Nat
  remount : Bool
  now : Int
  opens : Bool

def streams (slots : List Slot) : List Nat := slots.filterMap Slot.f

/-- The loop of `new_dir_handle` from the slot `i` on: `nhandle`, `thandle`, and how many
slots it has passed. -/
def findSlot (q : DirRequest) : List Slot → (i nhandle thandle : Nat) → (last : Int) →
    Nat × Nat × Nat
  | [], i, nhandle, thandle, _ => (nhandle, thandle, i)
  | d :: ds, i, nhandle, thandle, last =>
      if d.id.ino = 0 then
        findSlot q ds (i + 1) (if nhandle = 0 then i + 1 else nhandle) thandle last
      else if d.id = q.id ∧ d.volume = q.volume then (i + 1, thandle, i + 1)
      else if d.timestamp < last then findSlot q ds (i + 1) nhandle (i + 1) d.timestamp
      else findSlot q ds (i + 1) nhandle thandle last

/-- Streams of the slots that the loop has passed are closed. -/
def Slots.closeFirst (t : Slots) (n : Nat) : Slots where
  slots := (t.slots.take n).map (fun d => { d with f := none }) ++ t.slots.drop n
  opened := t.opened
  closed := t.closed ++ streams (t.slots.take n)

/-- A slot gets a directory, and its old stream is closed. -/
def Slots.fill (t : Slots) (k : Nat) (q : DirRequest) : Int × Slots :=
  match t.slots[k]? with
  | none => (-0xff, t)
  | some d =>
      let closed := t.closed ++ d.f.toList
      if q.opens then
        -- with `VOL_OPTION_REMOUNT` the stream is closed at once
        let f := if q.remount then none else some t.opened
        ((k + 1 : Nat), ⟨t.slots.set k ⟨f, q.id.devAsInt, q.volume, q.now, q.remount⟩, t.opened + 1,
          if q.remount then closed ++ [t.opened] else closed⟩)
      else
        (-0xff, ⟨t.slots.set k { d with f := none, id := ⟨d.id.dev, 0⟩, remount := false },
          t.opened, closed⟩)

def emptySlot : Slot := ⟨none, ⟨0, 0⟩, 0, 0, false⟩

/-- `new_dir_handle` -/
def newDirHandle (t : Slots) (q : DirRequest) : Int × Slots :=
  let found := findSlot q t.slots 0 0 1 q.now
  let t := t.closeFirst found.2.2
  if found.1 ≠ 0 then t.fill (found.1 - 1) q
  else if t.slots.length < maxDirhandles then
    Slots.fill { t with slots := t.slots ++ [emptySlot] } t.slots.length q
  else t.fill (found.2.1 - 1) q

/-- `free_dir_handle` -/
def freeDirHandle (t : Slots) (dhandle : Nat) : Int × Slots :=
  if dhandle = 0 then (-0x88, t)
  else
    match t.slots[dhandle - 1]? with
    | none => (-0x88, t)
    | some d =>
        let slots := t.slots.set (dhandle - 1) { d with f := none, id := ⟨d.id.dev, 0⟩ }
        (0, ⟨slots.rdropWhile fun d => d.id.ino = 0, t.opened, t.closed ++ d.f.toList⟩)

/-- `get_dh_entry`, as far as the stream goes: `give_dh_f`, and `release_dh_f` when there
is one. `expire` tells that the directory came to its end. -/
def getDhEntry (t : Slots) (dhandle : Nat) (now : Int) (opens expire : Bool) : Slots :=
  if dhandle = 0 then t
  else
    match t.slots[dhandle - 1]? with
    | none => t
    | some d =>
        let news := if d.f = none ∧ opens then [t.opened] else []
        match (d.f.toList ++ news).head? with
        | none => { t with slots := t.slots.set (dhandle - 1) { d with timestamp := now } }
        | some f =>
            let timestamp := if expire then now - expireCost else now
            ⟨t.slots.set (dhandle - 1)
                { d with f := if d.remount then none else some f, timestamp := timestamp },
              t.opened + news.length, if d.remount then t.closed ++ [f] else t.closed⟩

inductive DirEvent
  | new (q : DirRequest)
  | free (dhandle : Nat)
  | read (dhandle : Nat) (now : Int) (opens expire : Bool)

def machine : Machine Slots DirEvent Int where
  step t
    | .new q => newDirHandle t q
    | .free dhandle => freeDirHandle t dhandle
    | .read dhandle now opens expire => (0, getDhEntry t dhandle now opens expire)

/-! ## The streams -/

/-- Every stream that was opened is closed once, or in one slot; a slot that is free has
none. -/
structure Ok (t : Slots) : Prop where
  accounts : ∀ x, t.closed.count x + (streams t.slots).count x = if x < t.opened then 1 else 0
  free : ∀ d ∈ t.slots, d.id.ino = 0 → d.f = none
  count : t.slots.length ≤ maxDirhandles

/-- Directories have inodes, and what is read is in use: the code takes any number, also
that of a slot that was freed. -/
def LiveStep (t : Slots) : DirEvent → Prop
  | .new q => q.id.ino ≠ 0
  | .free _ => True
  | .read dhandle _ opens _ =>
      ∀ d, t.slots[dhandle - 1]? = some d → d.id.ino = 0 → opens = false

theorem streams_cons (d : Slot) (ds : List Slot) :
    streams (d :: ds) = d.f.toList ++ streams ds := by
  unfold streams
  cases hf : d.f with
  | none => rw [List.filterMap_cons_none hf, Option.toList_none, List.nil_append]
  | some f => rw [List.filterMap_cons_some hf, Option.toList_some, List.singleton_append]

theorem streams_append (ds ds' : List Slot) : streams (ds ++ ds') = streams ds ++ streams ds' :=
  List.filterMap_append

/-- What becomes of the streams when a slot is changed. -/
theorem count_streams_set {slots : List Slot} {k : Nat} {d : Slot} (hd : slots[k]? = some d)
    (d' : Slot) (x : Nat) :
    d.f.toList.count x + (streams (slots.set k d')).count x =
      d'.f.toList.count x + (streams slots).count x := by
  induction slots generalizing k with
  | nil => cases hd
  | cons c cs ih =>
      cases k with
      | zero =>
          obtain rfl : c = d := Option.some.inj hd
          rw [List.set_cons_zero, streams_cons, streams_cons, List.count_append,
            List.count_append]
          omega
      | succ k =>
          have hrest := ih (by simpa using hd)
          rw [List.set_cons_succ, streams_cons, streams_cons, List.count_append,
            List.count_append]
          omega

theorem streams_map_shut (ds : List Slot) :
    streams (ds.map fun d => { d with f := none }) = [] := by
  rw [streams, List.filterMap_map]
  exact List.filterMap_eq_nil_iff.mpr fun _ _ => rfl

theorem streams_trim {slots : List Slot} (h : ∀ d ∈ slots, d.id.ino = 0 → d.f = none) :
    streams (slots.rdropWhile fun d => d.id.ino = 0) = streams slots := by
  induction slots using List.reverseRecOn with
  | nil => rfl
  | append_singleton ds d ih =>
      by_cases hd : d.id.ino = 0
      · have hf : d.f = none := h d (by simp) hd
        rw [List.rdropWhile_concat_pos _ _ _ (by simpa using hd),
          ih fun d' hd' => h d' (List.mem_append_left _ hd'), streams_append, streams_cons, hf]
        simp [streams]
      · rw [List.rdropWhile_concat_neg _ _ _ (by simpa using hd)]

namespace Ok

variable {t : Slots}

theorem free_set (h : Ok t) {k : Nat} {d' : Slot} (hd' : d'.id.ino = 0 → d'.f = none) :
    ∀ d ∈ t.slots.set k d', d.id.ino = 0 → d.f = none := by
  intro d hd hino
  rcases List.mem_or_eq_of_mem_set hd with hold | rfl
  · exact h.free d hold hino
  · exact hd' hino

theorem count_set (h : Ok t) (k : Nat) (d' : Slot) : (t.slots.set k d').length ≤ maxDirhandles :=
  List.length_set.trans_le h.count

theorem closeFirst (h : Ok t) (n : Nat) : Ok (t.closeFirst n) where
  accounts x := by
    have hsplit : streams t.slots = streams (t.slots.take n) ++ streams (t.slots.drop n) := by
      rw [← streams_append, List.take_append_drop]
    have hx := h.accounts x
    rw [hsplit, List.count_append] at hx
    have hsame : (t.closeFirst n).closed.count x + (streams (t.closeFirst n).slots).count x =
        if x < t.opened then 1 else 0 := by
      simp only [Slots.closeFirst, streams_append, streams_map_shut, List.count_append,
        List.count_nil]
      omega
    exact hsame
  free d hd hino := by
    rcases List.mem_append.mp hd with hshut | hdrop
    · obtain ⟨_, -, rfl⟩ := List.mem_map.mp hshut
      rfl
    · exact h.free d (List.mem_of_mem_drop hdrop) hino
  count := by
    have hlen := h.count
    simp only [Slots.closeFirst, List.length_append, List.length_map, List.length_take,
      List.length_drop]
    omega

theorem fill (h : Ok t) {q : DirRequest} (hq : q.id.ino ≠ 0) (k : Nat) : Ok (t.fill k q).2 := by
  unfold Slots.fill
  split
  · exact h
  next d hd =>
    split
    · refine ⟨fun x => ?_, h.free_set fun hino => absurd hino hq, h.count_set k _⟩
      · have hx := h.accounts x
        have hset := count_streams_set hd
          ⟨if q.remount then none else some t.opened, q.id.devAsInt, q.volume, q.now, q.remount⟩ x
        cases hremount : q.remount <;>
          simp only [hremount, if_true, if_false, Bool.false_eq_true, List.count_append,
            Option.toList_none, Option.toList_some, List.count_nil, List.count_singleton,
            beq_iff_eq] at hset ⊢ <;>
          split_ifs at hx hset ⊢ <;> omega
    · refine ⟨fun x => ?_, h.free_set fun _ => rfl, h.count_set k _⟩
      · have hx := h.accounts x
        have hset := count_streams_set hd
          { d with f := none, id := ⟨d.id.dev, 0⟩, remount := false } x
        simp only [List.count_append, Option.toList_none, List.count_nil] at hset ⊢
        omega

theorem newDirHandle (h : Ok t) {q : DirRequest} (hq : q.id.ino ≠ 0) :
    Ok (newDirHandle t q).2 := by
  have hclosed := h.closeFirst (findSlot q t.slots 0 0 1 q.now).2.2
  unfold DirStreams.newDirHandle
  dsimp only
  split
  · exact hclosed.fill hq _
  split
  next hroom =>
    refine Ok.fill ⟨fun x => ?_, fun d hd hino => ?_, ?_⟩ hq _
    · simpa [streams_append, streams, emptySlot] using hclosed.accounts x
    · rcases List.mem_append.mp hd with hold | hnew
      · exact hclosed.free d hold hino
      · obtain rfl := List.mem_singleton.mp hnew
        rfl
    · rw [List.length_append]
      exact hroom
  · exact hclosed.fill hq _

theorem freeDirHandle (h : Ok t) (dhandle : Nat) : Ok (freeDirHandle t dhandle).2 := by
  unfold DirStreams.freeDirHandle
  split
  · exact h
  split
  · exact h
  next d hd =>
    have hfree : ∀ d' ∈ t.slots.set (dhandle - 1) { d with f := none, id := ⟨d.id.dev, 0⟩ },
        d'.id.ino = 0 → d'.f = none := h.free_set fun _ => rfl
    refine ⟨fun x => ?_, fun d' hd' => ?_, ?_⟩
    · have hx := h.accounts x
      have hset := count_streams_set hd { d with f := none, id := ⟨d.id.dev, 0⟩ } x
      dsimp only
      rw [streams_trim hfree, List.count_append]
      simp only [Option.toList_none, List.count_nil] at hset
      omega
    · exact hfree d' ((List.rdropWhile_prefix _ _).subset hd')
    · exact (List.rdropWhile_prefix _ _).length_le.trans (h.count_set _ _)

theorem getDhEntry (h : Ok t) {dhandle : Nat} {opens : Bool}
    (hlive : ∀ d, t.slots[dhandle - 1]? = some d → d.id.ino = 0 → opens = false)
    (now : Int) (expire : Bool) : Ok (getDhEntry t dhandle now opens expire) := by
  unfold DirStreams.getDhEntry
  split
  · exact h
  split
  · exact h
  next d hd =>
    dsimp only
    split
    next hnone =>
      -- there is no stream
      have hf : d.f = none := by
        cases hf : d.f with
        | none => rfl
        | some f => simp [hf] at hnone
      refine ⟨fun x => ?_, h.free_set fun _ => hf, h.count_set _ _⟩
      have hx := h.accounts x
      have hset := count_streams_set hd { d with timestamp := now } x
      dsimp only at hset ⊢
      omega
    next f hf =>
      refine ⟨fun x => ?_, h.free_set fun hino => ?_, h.count_set _ _⟩
      · have hx := h.accounts x
        have hset := count_streams_set hd
          { d with
            f := if d.remount then none else some f
            timestamp := if expire then now - expireCost else now } x
        cases hdf : d.f with
        | none =>
            -- the stream is a new one
            obtain ⟨hopens, rfl⟩ : opens = true ∧ t.opened = f := by
              cases opens <;> simp [hdf] at hf ⊢
              exact hf
            cases hremount : d.remount <;>
              simp only [hdf, hopens, hremount, and_self, if_true, if_false, Bool.false_eq_true,
                List.count_append, Option.toList_none, Option.toList_some, List.count_nil,
                List.count_singleton, beq_iff_eq, List.length_singleton] at hset ⊢ <;>
              split_ifs at hx hset ⊢ <;> omega
        | some f' =>
            obtain rfl : f' = f := by simpa [hdf] using hf
            cases hremount : d.remount <;>
              simp only [hdf, hremount, reduceCtorEq, false_and, if_true, if_false,
                Bool.false_eq_true, List.count_append, Option.toList_none, Option.toList_some,
                List.count_nil, List.length_nil, Nat.add_zero] at hset ⊢ <;>
              omega
      · have hnone := h.free d (List.mem_of_getElem? hd) hino
        have hopens := hlive d hd hino
        simp [hnone, hopens] at hf

theorem step (h : Ok t) {e : DirEvent} (he : LiveStep t e) : Ok (machine.step t e).2 := by
  cases e with
  | new q => exact h.newDirHandle he
  | free dhandle => exact h.freeDirHandle dhandle
  | read dhandle now opens expire => exact h.getDhEntry he now expire

end Ok

/-! ## The slot of a directory -/

theorem findSlot_le (q : DirRequest) (ds : List Slot) {i nhandle thandle : Nat} (last : Int)
    (hn : nhandle ≤ i) (hpos : 1 ≤ thandle) (hth : thandle ≤ max 1 i) :
    (findSlot q ds i nhandle thandle last).1 ≤ i + ds.length ∧
      1 ≤ (findSlot q ds i nhandle thandle last).2.1 ∧
      (findSlot q ds i nhandle thandle last).2.1 ≤ max 1 (i + ds.length) := by
  induction ds generalizing i nhandle thandle last with
  | nil => exact ⟨hn, hpos, hth⟩
  | cons d ds ih =>
      have hnext : i + (d :: ds).length = (i + 1) + ds.length := by
        rw [List.length_cons]
        omega
      rw [hnext]
      unfold findSlot
      split
      · refine ih _ ?_ hpos (by omega)
        split <;> omega
      split
      · exact ⟨by dsimp only; omega, hpos, by dsimp only; omega⟩
      split
      · exact ih _ (by omega) (by omega) (by omega)
      · exact ih _ (by omega) hpos (by omega)

theorem fill_slot {t : Slots} {k : Nat} (hk : k < t.slots.length) {q : DirRequest}
    (hq : q.opens = true) :
    (t.fill k q).1 = (k + 1 : Nat) ∧ ((t.fill k q).2.slots[k]?).map Slot.id = some q.id.devAsInt := by
  unfold Slots.fill
  rw [List.getElem?_eq_getElem hk]
  dsimp only
  rw [if_pos hq]
  exact ⟨rfl, by simp [List.getElem?_set_self hk]⟩

theorem length_closeFirst (t : Slots) (n : Nat) :
    (t.closeFirst n).slots.length = t.slots.length := by
  simp only [Slots.closeFirst, List.length_append, List.length_map, List.length_take,
    List.length_drop]
  omega

/-- What a request for a directory that can be opened gets stands for the directory. -/
theorem newDirHandle_slot {t : Slots} (h : t.slots.length ≤ maxDirhandles) {q : DirRequest}
    (hq : q.opens = true) :
    ∃ k < maxDirhandles, (newDirHandle t q).1 = (k + 1 : Nat) ∧
      ((newDirHandle t q).2.slots[k]?).map Slot.id = some q.id.devAsInt := by
  have hbounds : (findSlot q t.slots 0 0 1 q.now).1 ≤ 0 + t.slots.length ∧
      1 ≤ (findSlot q t.slots 0 0 1 q.now).2.1 ∧
      (findSlot q t.slots 0 0 1 q.now).2.1 ≤ max 1 (0 + t.slots.length) :=
    findSlot_le q t.slots q.now (Nat.zero_le 0) le_rfl (Nat.le_max_left 1 0)
  have hlen := length_closeFirst t (findSlot q t.slots 0 0 1 q.now).2.2
  have hmax : maxDirhandles = 80 := rfl
  unfold newDirHandle
  dsimp only
  split
  next hfound => exact ⟨_, by omega, fill_slot (by omega) hq⟩
  split
  next hroom => exact ⟨_, hroom, fill_slot (by simp) hq⟩
  next hfull => exact ⟨_, by omega, fill_slot (by omega) hq⟩

/-- In runs that read what is in use no stream is lost, none is closed twice and none is in
two slots; and who opens a directory gets a slot that stands for it. -/
theorem streams_accounted {events : List DirEvent}
    (hlive : machine.Along LiveStep Slots.init events) :
    Ok (machine.exec Slots.init events) ∧
      machine.Along (fun t e => ∀ q, e = .new q → q.opens = true →
        ∃ k < maxDirhandles, (machine.step t e).1 = (k + 1 : Nat) ∧
          ((machine.step t e).2.slots[k]?).map Slot.id = some q.id.devAsInt) Slots.init events := by
  have hinit : Ok Slots.init :=
    ⟨fun _ => rfl, fun _ hd => absurd hd List.not_mem_nil, Nat.zero_le _⟩
  have hstep : ∀ t e, Ok t → LiveStep t e → Ok (machine.step t e).2 :=
    fun _ _ ht he => ht.step he
  refine ⟨machine.exec_invariant hstep hinit hlive,
    machine.along_of_invariant (fun t e ht he => ⟨?_, hstep t e ht he⟩) hinit hlive⟩
  rintro q rfl hq
  exact newDirHandle_slot ht.count hq

/-- The first stream is closed for the second directory, whose slot outlives the other. -/
theorem streams_accounted_two :
    let events := [.new ⟨⟨1, 5⟩, 0, false, 10, true⟩, .read 1 10 true false,
      .new ⟨⟨1, 6⟩, 0, false, 11, true⟩, .free 1, .read 2 12 true true]
    Ok (machine.exec Slots.init events) ∧ (machine.exec Slots.init events).closed = [0] ∧
      (machine.exec Slots.init events).opened = 2 := by
  intro events
  have hlive : machine.Along LiveStep Slots.init events := by
    refine ⟨show (5 : UInt64) ≠ 0 by decide, fun d hd hino => ?_,
      show (6 : UInt64) ≠ 0 by decide, trivial, fun d hd hino => ?_, trivial⟩
    · obtain rfl := Option.some.inj hd
      cases hino
    · obtain rfl := Option.some.inj hd
      cases hino
  exact ⟨(streams_accounted hlive).1, by decide +kernel, by decide +kernel⟩

end MarsNwe.DirStreams
