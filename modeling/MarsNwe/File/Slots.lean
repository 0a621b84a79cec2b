import MarsNwe.File.Offsets

/-! # The slots of the handle table

A slot is handed out when it is closed and may be used again. What a slot can hold
between two requests is kept by every request, so that a table is only full when all of
its slots are in use.
-/

namespace MarsNwe

open Prog Function

/-! ## Setting the date -/

/-- `nw_set_fdate_time`; `time` is what `nw_2_un_time` makes of the date. -/
def nwSetFdateTime (t : FileTable) (fhandle : UInt32) (time : Int) : Int × FileTable :=
  match t.find fhandle.toNat with
  | none => (-0x88, t)
  | some (i, fh) =>
      if fh.fd = -3 ∨ fh.is fhIsPipe = true then (0, t)
      else if fh.is fhIsReadonly then (-0x8c, t)
      else (if fh.fd = -1 then -0x88 else 0, t.put i { fh with tmodi := time })

/-- A request on the files of a connection. -/
inductive HandleRequest where
  | file (e : FileRequest)
  | setFdateTime (fhandle : UInt32) (time : Int)

/-- The handle table of a connection. -/
def handleSession (cfg : FileConfig) :
    Session FileCall FileCall.Answer FileTable HandleRequest FileAnswer where
  handle t
    | .file e => (fileSession cfg).handle t e
    | .setFdateTime fhandle time =>
        let (result, t) := nwSetFdateTime t fhandle time
        pure (⟨result, [], none⟩, t)

/-! ## Slots -/

/-- A slot of `file_handles`. -/
def FileTable.slot (t : FileTable) (i : Nat) : FileHandle := (t.handles ++ t.above).getD i .zero

/-- A slot that is in use: open, reserved for a command, or not to be used again. -/
def FileHandle.Held (fh : FileHandle) : Prop :=
  -1 < fh.fd ∨ fh.fd = -3 ∨ fh.is fhDoNotReuse = true

/-- What a slot holds between two requests: a descriptor, a command to be started, or nothing. -/
def FileHandle.Settled (fh : FileHandle) : Prop := -1 < fh.fd ∨ fh.fd = -3 ∨ fh.fd = -1

section Slots

variable {cfg : FileConfig} {t t' : FileTable} {i : Nat} {fh : FileHandle}

theorem FileHandle.Settled.held_or_free (h : fh.Settled) : fh.Held ∨ fh.free = true := by
  rcases h with hopen | hcommand | hclosed
  · exact .inl (.inl hopen)
  · exact .inl (.inr (.inl hcommand))
  · cases hmark : fh.is fhDoNotReuse with
    | true => exact .inl (.inr (.inr hmark))
    | false => exact .inr (by simp [FileHandle.free, hclosed, hmark])

theorem FileHandle.free_iff : fh.free = true ↔ fh.fd = -1 ∧ fh.is fhDoNotReuse = false := by
  simp [FileHandle.free]

theorem FileHandle.Settled.of_fd {fh' : FileHandle} (h : fh.Settled) (hfd : fh'.fd = fh.fd) :
    fh'.Settled := by
  unfold Settled
  rwa [hfd]

/-- What is put into a slot is put into no other. -/
theorem FileTable.slot_put (fh : FileHandle) {j : Nat} (hj : j ≠ i) :
    (t.put i fh).slot j = t.slot j := by
  simp only [slot, put, List.getD_eq_getElem?_getD, List.getElem?_append, List.length_set,
    List.getElem?_set_ne hj.symm]

theorem FileTable.put_put (fh fh' : FileHandle) : (t.put i fh).put i fh' = t.put i fh' := by
  simp only [put, List.set_set]

theorem FileTable.find_put {fhandle : Int} (hfind : t.find fhandle = some (i, fh))
    (fh' : FileHandle) : (t.put i fh').find fhandle = some (i, fh') := by
  obtain ⟨rfl, hget⟩ := find_eq_some hfind
  have hlt := (List.getElem?_eq_some_iff.mp hget).1
  rw [find_succ, put, List.getElem?_set_self hlt, Option.map_some]

/-- A scan of all slots misses no free one. -/
theorem FileTable.freeFrom_eq_none (h : t.freeFrom 0 = none) (hmem : fh ∈ t.handles) :
    fh.free = false := by
  rw [freeFrom, List.drop_zero, Option.map_eq_none_iff, List.find?_eq_none] at h
  obtain ⟨j, hget⟩ := List.getElem?_of_mem hmem
  simpa using h (fh, j) (List.mk_mem_zipIdx_iff_getElem?.mpr hget)

variable {volume task : Int} {unixname : List UInt8}

/-- There is no handle when the table is full and no slot in it is free. -/
theorem newFileHandle_eq_none (h : newFileHandle cfg t volume unixname task = none) :
    cfg.maxHandles ≤ t.handles.length ∧ ∀ fh ∈ t.handles, fh.free = false := by
  unfold newFileHandle at h
  dsimp only at h
  split at h
  next => contradiction
  next =>
    split at h
    next => contradiction
    next hfull =>
      exact ⟨Nat.le_of_not_lt hfull, fun fh hmem =>
        FileTable.freeFrom_eq_none (Option.map_eq_none_iff.mp h) hmem⟩

/-- Where a new handle is put, nothing else changes. -/
theorem newFileHandle_frame (h : newFileHandle cfg t volume unixname task = some (i, fh, t')) :
    t'.handles[i]? = some fh ∧ ∀ j, j ≠ i → t'.slot j = t.slot j := by
  unfold newFileHandle at h
  dsimp only at h
  split at h
  next slot hslot =>
    obtain ⟨rfl, rfl, rfl⟩ := h
    have hlt := (List.getElem?_eq_some_iff.mp (FileTable.freeFrom_eq_some hslot).1).1
    exact ⟨List.getElem?_set_self hlt, fun j hj => FileTable.slot_put _ hj⟩
  next =>
    split at h
    next =>
      obtain ⟨rfl, rfl, rfl⟩ := h
      refine ⟨List.getElem?_concat_length, fun j hj => ?_⟩
      simp only [FileTable.slot, List.getD_eq_getElem?_getD]
      cases t.above with
      | nil =>
          simp only [List.tail_nil, List.append_nil, List.getElem?_append]
          grind
      | cons old rest =>
          simp only [List.tail_cons, List.append_assoc, List.singleton_append,
            List.getElem?_append, List.getElem?_cons]
          grind
    next =>
      obtain ⟨slot, hslot, heq⟩ := Option.map_eq_some_iff.mp h
      obtain ⟨rfl, rfl, rfl⟩ := heq
      have hlt := (List.getElem?_eq_some_iff.mp (FileTable.freeFrom_eq_some hslot).1).1
      exact ⟨List.getElem?_set_self hlt, fun j hj => FileTable.slot_put _ hj⟩

/-- A new handle takes no slot above the table but the first. -/
theorem newFileHandle_above (h : newFileHandle cfg t volume unixname task = some (i, fh, t')) :
    ∀ fh ∈ t'.above, fh ∈ t.above := by
  unfold newFileHandle at h
  dsimp only at h
  split at h
  next =>
    obtain ⟨rfl, rfl, rfl⟩ := h
    exact fun fh hfh => hfh
  next =>
    split at h
    next =>
      obtain ⟨rfl, rfl, rfl⟩ := h
      exact fun fh hfh => List.mem_of_mem_tail hfh
    next =>
      obtain ⟨slot, -, heq⟩ := Option.map_eq_some_iff.mp h
      obtain ⟨rfl, rfl, rfl⟩ := heq
      exact fun fh hfh => hfh

end Slots

/-! ## What stays of a handle -/

section Kept

variable {cfg : FileConfig} {t : FileTable} {fh : FileHandle} {size : Int32} {offset : UInt32}

theorem returns_startPipe (dowrite : Bool) :
    Returns (fun fh' => fh.Settled → fh'.Settled) (startPipe fh dowrite) := by
  unfold startPipe
  split
  next =>
    rw [openPipeCommand, returns_bind]
    refine (Returns.trivial _).mono fun f _ => ?_
    cases f with
    | none => exact fun _ => .inr (.inl rfl)
    | some f =>
        refine fun _ => .inl ?_
        dsimp only
        split <;> omega
  next => exact id

theorem returns_seekOffset : Returns (·.fd = fh.fd) (seekOffset fh offset) := by
  unfold seekOffset
  split
  next => exact fun _ => rfl
  next => rfl

theorem returns_copyMapped (sigbus : Nat) :
    Returns (·.2.2.fd = fh.fd) (copyMapped offset sigbus fh size) := by
  induction sigbus generalizing fh size with
  | zero =>
      unfold copyMapped
      split
      next => exact fun _ => rfl
      next => rfl
  | succ sigbus ih =>
      unfold copyMapped
      split
      next =>
        refine returns_ask_bind.mpr fun _ => returns_ask_bind.mpr fun r => ?_
        exact @ih { fh with sizeMmap := Int32.ofInt (resultOf r) } _
      next => rfl

theorem returns_readPlain : Returns (·.2.2.fd = fh.fd) (readPlain cfg fh size offset) := by
  unfold readPlain
  rw [returns_bind]
  refine returns_seekOffset.mono fun fh' hfd => ?_
  split
  next =>
    rw [returns_bind]
    refine (Returns.trivial _).mono fun ok _ => ?_
    split
    next =>
      rintro (_ | data)
      · exact hfd
      · exact hfd
    next => exact hfd
  next => exact hfd

theorem returns_readPipe : Returns (·.2.2.fd = fh.fd) (readPipe fh size) := by
  refine returns_ask_bind.mpr fun ready => ?_
  rw [returns_bind]
  refine (Returns.trivial _).mono fun r _ => ?_
  change (pipeEnd fh r.1 r.2).2.2.fd = fh.fd
  unfold pipeEnd
  split
  next =>
    split
    next => split <;> rfl
    next => rfl
  next => rfl

theorem returns_readOpen (sigbus : Nat) :
    Returns (·.2.2.fd = fh.fd) (readOpen cfg fh size offset sigbus) := by
  unfold readOpen
  split
  next => exact returns_readPipe
  next =>
    split
    next =>
      rw [readMapped, returns_bind]
      refine (Returns.trivial _).mono fun ok _ => ?_
      split
      next => exact returns_copyMapped sigbus
      next => rfl
    next => exact returns_readPlain

theorem returns_writePlain (data : List UInt8) :
    Returns (·.2.fd = fh.fd) (writePlain cfg fh data size offset) := by
  unfold writePlain
  rw [returns_bind]
  refine returns_seekOffset.mono fun fh' hfd => ?_
  split
  next =>
    split
    next =>
      rw [returns_bind]
      refine (Returns.trivial _).mono fun ok _ => ?_
      split
      next => exact fun _ => hfd
      next => exact hfd
    next => exact hfd
  next => exact fun _ => hfd

theorem returns_mapFile (dowrite : Bool) : Returns (·.fd = fh.fd) (mapFile cfg fh dowrite) := by
  unfold mapFile
  refine .ite (fun _ => returns_ask_bind.mpr fun r => ?_) fun _ => rfl
  refine .ite (fun _ => returns_ask_bind.mpr fun ok => ?_) fun _ => rfl
  exact .ite (fun _ => rfl) fun _ => rfl

/-- How a step of an open ends: with an error, or with a handle that has the property. -/
def Ends (P : FileHandle → Prop) (completition : Int) (fh : FileHandle) : Prop :=
  completition < 0 ∨ completition = 0 ∧ P fh

/-- A file is registered with the descriptor it has, or there is none any more. -/
theorem returns_registerFile (stb : NodeStat) (access : UInt32) (dowrite : Bool) :
    Returns (fun out => Ends (·.fd = fh.fd) out.1 out.2)
      (registerFile cfg fh stb access dowrite) := by
  unfold registerFile
  split
  next => exact .inr ⟨rfl, rfl⟩
  next =>
    refine returns_ask_bind.mpr fun result => ?_
    refine .ite (fun _ => returns_ask_bind.mpr fun _ => ?_) fun _ => ?_
    · exact .inl (show (-0x80 : Int) < 0 by decide)
    · rw [returns_bind]
      exact (@returns_mapFile cfg { fh with id := stb.id } dowrite).mono fun _ hfd =>
        .inr ⟨rfl, hfd⟩

theorem returns_openExisting (stb : NodeStat) (creatmode : UInt32) (dowrite : Bool) :
    Returns (fun out => Ends FileHandle.Settled out.1 out.2.1)
      (openExisting cfg fh stb creatmode dowrite) := by
  have herror : (-0x9c : Int) < 0 := by decide
  unfold openExisting
  refine .ite (fun _ => ?_) fun _ => .ite (fun _ => ?_) fun _ => ?_
  · rw [returns_bind]
    refine (Returns.trivial _).mono fun fd _ => ?_
    cases fd with
    | none => exact .inl herror
    | some fd => exact .inr ⟨rfl, .inl (show (-1 : Int) < fd by omega)⟩
  · exact returns_ask_bind.mpr fun _ => .inr ⟨rfl, .inr (.inl rfl)⟩
  · rw [returns_bind]
    refine (Returns.trivial _).mono fun fd _ => ?_
    cases fd with
    | none => exact .inl herror
    | some fd =>
        dsimp only
        rw [returns_bind]
        exact (Returns.trivial _).mono fun _ _ =>
          .inr ⟨rfl, .inl (show (-1 : Int) < fd by omega)⟩

theorem returns_openNew (stb : NodeStat) :
    Returns (fun out => Ends FileHandle.Settled out.1 out.2.1) (openNew cfg fh stb) := by
  have herror : (-0x9c : Int) < 0 := by decide
  unfold openNew
  rw [returns_bind]
  refine (Returns.trivial _).mono fun result _ => ?_
  refine .ite (fun _ => .inl herror) fun _ => ?_
  rw [returns_bind]
  refine (Returns.trivial _).mono fun fd _ => ?_
  cases fd with
  | none => exact .inl herror
  | some fd =>
      dsimp only
      rw [returns_bind]
      exact (Returns.trivial _).mono fun _ _ =>
        .inr ⟨rfl, .inl (show (-1 : Int) < fd by omega)⟩

end Kept

/-! ## What a request does to the table -/

section Requests

variable {cfg : FileConfig} {t t' : FileTable} {fhandle task : Int} {i : Nat}

/-- A request on a handle changes no other slot, and its own is settled after it. -/
def PutsAt (t : FileTable) (fhandle : Int) (t' : FileTable) : Prop :=
  t' = t ∨ ∃ i fh fh', t.find fhandle = some (i, fh) ∧ (fh.Settled → fh'.Settled) ∧
    t' = t.put i fh'

theorem PutsAt.slot (h : PutsAt t fhandle t') {j : Nat} (hj : (j : Int) + 1 ≠ fhandle) :
    t'.slot j = t.slot j := by
  rcases h with rfl | ⟨i, fh, fh', hfind, -, rfl⟩
  · rfl
  · have hi := (FileTable.find_eq_some hfind).1
    exact FileTable.slot_put fh' fun heq => hj (by omega)

theorem returns_freeFileHandle {fh : FileHandle} (hfind : t.find fhandle = some (i, fh)) :
    Returns (fun out => ∃ fh', fh'.fd = -1 ∧ out.2 = t.put i fh')
      (freeFileHandle cfg t fhandle) := by
  rw [freeFileHandle, hfind]
  dsimp only
  rw [returns_bind]
  exact (Returns.trivial _).mono fun fh' _ => ⟨_, rfl, rfl⟩

theorem returns_nwCloseFile (resetReuse : Bool) :
    Returns (fun out => PutsAt t fhandle out.2) (nwCloseFile cfg t fhandle resetReuse task) := by
  unfold nwCloseFile
  split
  next => exact .inl rfl
  next i fh hfind =>
    -- what is freed at the end has been put into the slot before
    have hfree (fh₁ : FileHandle) : Returns (fun out => PutsAt t fhandle out.2)
        (freeFileHandle cfg (t.put i fh₁) fhandle) := by
      refine (returns_freeFileHandle (FileTable.find_put hfind fh₁)).mono fun out hout => ?_
      obtain ⟨fh', hfd, heq⟩ := hout
      rw [FileTable.put_put] at heq
      exact .inr ⟨i, fh, fh', hfind, fun _ => .inr (.inr hfd), heq⟩
    refine .ite (fun _ => .inl rfl) fun _ => ?_
    refine .ite (fun _ => .inr ⟨i, fh, fh.unuse resetReuse, hfind, id, rfl⟩) fun _ => ?_
    refine .ite (fun _ => ?_) fun _ => hfree _
    rw [returns_bind]
    refine (Returns.trivial _).mono fun released _ => ?_
    rw [returns_bind]
    refine (Returns.trivial _).mono fun fh₁ _ => ?_
    rw [returns_bind]
    exact hfree fh₁

theorem putsAt_nwSetFdateTime (fhandle : UInt32) (time : Int) :
    PutsAt t fhandle.toNat (nwSetFdateTime t fhandle time).2 := by
  unfold nwSetFdateTime
  split
  next => exact .inl rfl
  next i fh hfind =>
    split
    next => exact .inl rfl
    next =>
      split
      next => exact .inl rfl
      next => exact .inr ⟨i, fh, { fh with tmodi := time }, hfind, id, rfl⟩

theorem returns_nwReadFile (size : Int32) (offset : UInt32) (sigbus : Nat) :
    Returns (fun out => PutsAt t fhandle out.2)
      (nwReadFile cfg t fhandle size offset sigbus) := by
  unfold nwReadFile
  split
  next => exact .inl rfl
  next i fh hfind =>
    rw [returns_bind]
    refine (returns_startPipe false).mono fun fh' h' => ?_
    refine .ite (fun _ => ?_) fun _ => .inr ⟨i, fh, fh', hfind, h', rfl⟩
    rw [returns_bind]
    refine (returns_readOpen sigbus).mono fun out hfd => ?_
    exact .inr ⟨i, fh, out.2.2, hfind, fun h => (h' h).of_fd hfd, rfl⟩

theorem returns_nwSeekFile (modus : Int) (rand : UInt16) :
    Returns (fun out => PutsAt t fhandle out.2) (nwSeekFile t fhandle modus rand) := by
  unfold nwSeekFile
  split
  next => exact .inl rfl
  next i fh hfind =>
    refine .ite (fun _ => ?_) fun _ => .inl rfl
    refine .ite (fun _ => .inl rfl) fun _ => ?_
    refine .ite (fun _ => returns_ask_bind.mpr fun r => ?_) fun _ => .inl rfl
    exact .inr ⟨i, fh, { fh with offd := resultOf r }, hfind, id, rfl⟩

theorem returns_nwWriteFile (data : List UInt8) (size : Int32) (offset : UInt32) :
    Returns (fun out => PutsAt t fhandle out.2)
      (nwWriteFile cfg t fhandle data size offset) := by
  unfold nwWriteFile
  split
  next => exact .inl rfl
  next i fh hfind =>
    rw [returns_bind]
    refine (returns_startPipe true).mono fun fh' h' => ?_
    refine .ite (fun _ => ?_) fun _ => .inr ⟨i, fh, fh', hfind, h', rfl⟩
    refine .ite (fun _ => .inr ⟨i, fh, fh', hfind, h', rfl⟩) fun _ => ?_
    refine .ite (fun _ => ?_) fun _ => ?_
    · rw [returns_bind]
      exact (Returns.trivial _).mono fun _ _ => .inr ⟨i, fh, fh', hfind, h', rfl⟩
    · rw [returns_bind]
      refine (returns_writePlain data).mono fun out hfd => ?_
      exact .inr ⟨i, fh, out.2, hfind, fun h => (h' h).of_fd hfd, rfl⟩

end Requests

/-! ## Opening -/

section Opening

variable {cfg : FileConfig} {t t' : FileTable} {e : OpenRequest}

/-- An open changes the slot that it gets, which is settled after it, and returns its
handle or an error. -/
def OpensAt (cfg : FileConfig) (t : FileTable) (e : OpenRequest) (result : Int)
    (t' : FileTable) : Prop :=
  result < 0 ∧ t' = t ∨
    match newFileHandle cfg t e.volume e.unixname e.task with
    | none => result < 0 ∧ t' = { t with last := 1 }
    | some (i, _, t₁) => ∃ fh, fh.Settled ∧ t' = t₁.put i fh ∧
        (result < 0 ∧ fh.fd = -1 ∨ result = i + 1)

theorem returns_openTested (exist : Bool) (stb : NodeStat) (dowrite : Bool) :
    Returns (fun out => OpensAt cfg t e out.1.1 out.2)
      (openTested cfg t e exist stb dowrite) := by
  unfold openTested OpensAt
  cases hnew : newFileHandle cfg t e.volume e.unixname e.task with
  | none => exact .inr ⟨(by decide : (-0x81 : Int) < 0), rfl⟩
  | some new =>
      obtain ⟨i, fh, t₁⟩ := new
      have hget := (newFileHandle_frame hnew).1
      dsimp only
      have hopened : Returns (fun out => Ends FileHandle.Settled out.1 out.2.1)
          (if exist then openExisting cfg fh stb e.creatmode dowrite else openNew cfg fh stb) :=
        .ite (fun _ => returns_openExisting stb e.creatmode dowrite) fun _ => returns_openNew stb
      rw [returns_bind]
      refine hopened.mono fun out hout => ?_
      obtain ⟨completition, fh₁, stb₁⟩ := out
      have hregistered : Returns (fun out => Ends FileHandle.Settled out.1 out.2)
          (if completition = 0 then registerFile cfg fh₁ stb₁ e.access' dowrite
            else pure (completition, fh₁)) := by
        refine .ite (fun hzero => ?_) fun _ => hout
        rcases hout with herror | ⟨-, hsettled⟩
        · exact absurd hzero (Int.ne_of_lt herror)
        · exact (returns_registerFile stb₁ e.access' dowrite).mono fun _ hends =>
            hends.imp_right fun hboth => ⟨hboth.1, hsettled.of_fd hboth.2⟩
      dsimp only
      rw [returns_bind]
      refine hregistered.mono fun out hout => ?_
      obtain ⟨completition', fh₂⟩ := out
      refine .ite (fun hzero => ?_) fun hnonzero => ?_
      · rcases hout with herror | ⟨-, hsettled⟩
        · exact absurd hzero (Int.ne_of_lt herror)
        · refine .inr ⟨_, ?_, rfl, .inr rfl⟩
          exact hsettled.of_fd rfl
      · have herror : completition' < 0 := hout.resolve_right fun hboth => hnonzero hboth.1
        have hfind : (t₁.put i fh₂).find (i + 1) = some (i, fh₂) := by
          rw [FileTable.find_succ, FileTable.put,
            List.getElem?_set_self (List.getElem?_eq_some_iff.mp hget).1, Option.map_some]
        rw [returns_bind]
        refine (returns_freeFileHandle hfind).mono fun out hfreed => ?_
        obtain ⟨fh', hfd, hput⟩ := hfreed
        rw [FileTable.put_put] at hput
        exact .inr ⟨fh', .inr (.inr hfd), hput, .inl ⟨herror, hfd⟩⟩

theorem existingTests_nonpos (isPipe : Bool) (stb : NodeStat) (creatmode : UInt32) (dowrite : Bool)
    (effRights : Rights) (dwattrib : UInt32) :
    (existingTests cfg isPipe stb creatmode dowrite effRights dwattrib).1 ≤ 0 := by
  unfold existingTests
  dsimp only
  repeat' split
  all_goals simp

theorem returns_testExisting (volume : Int) (unixname : List UInt8) (stb : NodeStat)
    (access creatmode : UInt32) (dowrite : Bool) :
    Returns (fun out => out.1 ≤ 0)
      (testExisting cfg volume unixname stb access creatmode dowrite) := by
  unfold testExisting
  refine .ite (fun _ => (by decide : (-0xff : Int) ≤ 0)) fun _ => ?_
  refine returns_ask_bind.mpr fun effRights => returns_ask_bind.mpr fun dwattrib => ?_
  have htests := @existingTests_nonpos cfg
    (wants (cfg.volumeOptions volume) volOptionIsPipe) stb creatmode dowrite effRights dwattrib
  refine .ite (fun _ => returns_ask_bind.mpr fun result => ?_) fun _ => htests
  change (if result = -1 then -0x80 else 0 : Int) ≤ 0
  split
  next => decide
  next => exact le_rfl

theorem returns_testNew (volume : Int) (unixname : List UInt8) (creatmode : UInt32) :
    Returns (fun out => out.1 ≤ 0 ∧ (out.2 = none → out.1 < 0))
      (testNew cfg volume unixname creatmode) := by
  have hpath : (-0x9c : Int) ≤ 0 ∧ ((none : Option NodeStat) = none → (-0x9c : Int) < 0) := by
    decide
  have hno : (-0xff : Int) ≤ 0 ∧ ((none : Option NodeStat) = none → (-0xff : Int) < 0) := by
    decide
  unfold testNew
  refine .ite (fun _ => hno) fun _ => .ite (fun _ => ?_) fun _ => hno
  split
  next => exact hpath
  next dir _ =>
    refine .ite (fun _ => returns_ask_bind.mpr fun stb => ?_) fun _ => hpath
    cases stb with
    | none => exact hpath
    | some stb =>
        refine returns_ask_bind.mpr fun effRights => returns_ask_bind.mpr fun _ => ?_
        refine ⟨?_, fun hnone => absurd hnone (Option.some_ne_none stb)⟩
        change (if _ then 0 else -0x84 : Int) ≤ 0
        split
        next => exact le_rfl
        next => decide

theorem returns_fileCreatOpen :
    Returns (fun out => OpensAt cfg t e out.1.1 out.2) (fileCreatOpen cfg t e) := by
  unfold fileCreatOpen
  rw [returns_bind]
  refine (Returns.trivial _).mono fun stb _ => ?_
  cases stb with
  | some stb =>
      dsimp only
      rw [returns_bind]
      refine (returns_testExisting ..).mono fun out hout => ?_
      refine .ite (fun _ => returns_openTested true stb out.2) fun hnonzero => ?_
      exact .inl ⟨lt_of_le_of_ne hout hnonzero, rfl⟩
  | none =>
      dsimp only
      rw [returns_bind]
      refine (returns_testNew ..).mono fun out hout => ?_
      obtain ⟨completition, stb⟩ := out
      cases stb with
      | none => exact .inl ⟨hout.2 rfl, rfl⟩
      | some stb =>
          refine .ite (fun _ => returns_openTested false stb e.dowrite) fun hnonzero => ?_
          exact .inl ⟨lt_of_le_of_ne hout.1 hnonzero, rfl⟩

end Opening

/-! ## Runs -/

section Runs

variable {cfg : FileConfig} {t t' : FileTable}

/-- The table holds no more handles than there are slots, every slot is settled, and the
slots above the table have been closed. -/
structure SlotsOk (cfg : FileConfig) (t : FileTable) : Prop where
  length_le : t.handles.length ≤ cfg.maxHandles
  settled : ∀ (j : Nat) fh, t.handles[j]? = some fh → fh.Settled
  above : ∀ fh ∈ t.above, fh.fd = -1

namespace SlotsOk

theorem empty {above : List FileHandle} (habove : ∀ fh ∈ above, fh.fd = -1) (last : Nat) :
    SlotsOk cfg ⟨[], last, above⟩ where
  length_le := Nat.zero_le _
  settled j fh hget := by simp at hget
  above := habove

theorem put (h : SlotsOk cfg t) {i : Nat} {fh : FileHandle} (hfh : fh.Settled) :
    SlotsOk cfg (t.put i fh) := by
  refine ⟨?_, fun j fhj hget => ?_, h.above⟩
  · rw [FileTable.put, List.length_set]
    exact h.length_le
  · rw [FileTable.put, List.getElem?_set] at hget
    split at hget
    next =>
      split at hget
      next => exact Option.some.inj hget ▸ hfh
      next => contradiction
    next => exact h.settled j fhj hget

theorem putsAt (h : SlotsOk cfg t) {fhandle : Int} (hputs : PutsAt t fhandle t') :
    SlotsOk cfg t' := by
  rcases hputs with rfl | ⟨i, fh, fh', hfind, hsettled, rfl⟩
  · exact h
  · exact h.put (hsettled (h.settled i fh (FileTable.find_eq_some hfind).2))

/-- The slot that is handed out holds no descriptor until the open puts one into it. -/
theorem newFileHandle (h : SlotsOk cfg t) {volume task : Int} {unixname : List UInt8} {i : Nat}
    {fh fh' : FileHandle} (hnew : MarsNwe.newFileHandle cfg t volume unixname task = some (i, fh, t'))
    (hfh : fh'.Settled) : SlotsOk cfg (t'.put i fh') := by
  have habove : ∀ fh ∈ (t'.put i fh').above, fh.fd = -1 :=
    fun fh hmem => h.above fh (newFileHandle_above hnew fh hmem)
  obtain ⟨old, -, ⟨hget, -, hhandles⟩ | ⟨-, rfl, hroom, hhandles⟩⟩ := newFileHandle_eq_some hnew
  · have heq : (t'.put i fh').handles = (t.put i fh').handles := by
      simp only [FileTable.put, hhandles, List.set_set]
    exact ⟨heq ▸ (h.put hfh).length_le, heq ▸ (h.put hfh).settled, habove⟩
  · have heq : (t'.put t.handles.length fh').handles = t.handles ++ [fh'] := by
      rw [FileTable.put, hhandles, List.set_append_right _ _ le_rfl, Nat.sub_self]
      rfl
    refine ⟨?_, fun j fhj hgetj => ?_, habove⟩
    · rw [heq, List.length_append]
      exact hroom
    · rw [heq, List.getElem?_append] at hgetj
      split at hgetj
      next => exact h.settled j fhj hgetj
      next => exact List.mem_singleton.mp (List.mem_of_getElem? hgetj) ▸ hfh

theorem opensAt (h : SlotsOk cfg t) {e : OpenRequest} {result : Int}
    (hopens : OpensAt cfg t e result t') : SlotsOk cfg t' := by
  rcases hopens with ⟨-, rfl⟩ | hopens
  · exact h
  · split at hopens
    next =>
      obtain ⟨-, rfl⟩ := hopens
      exact ⟨h.length_le, h.settled, h.above⟩
    next hnew =>
      obtain ⟨fh, hsettled, rfl, -⟩ := hopens
      exact h.newFileHandle hnew hsettled

theorem modify (h : SlotsOk cfg t) (i : Nat) {f : FileHandle → FileHandle}
    (hf : ∀ fh, (f fh).fd = fh.fd) : SlotsOk cfg { t with handles := t.handles.modify i f } := by
  refine ⟨?_, fun j fh hget => ?_, h.above⟩
  · rw [List.length_modify]
    exact h.length_le
  · rw [List.getElem?_modify] at hget
    obtain ⟨fh₀, hget₀, heq⟩ := Option.map_eq_some_iff.mp hget
    have hsettled := h.settled j fh₀ hget₀
    split at heq
    next => exact heq ▸ hsettled.of_fd (hf fh₀)
    next => exact heq ▸ hsettled

/-- The slots that the loop has come to are closed, if it is about all tasks. -/
theorem freeTaskFiles (h : SlotsOk cfg t) (task : Int) (n : Nat) :
    Returns (fun t' => SlotsOk cfg t' ∧ t'.handles.length = t.handles.length ∧
      (task < 0 → ∀ j < n, ∀ fh, t'.handles[j]? = some fh → fh.fd = -1))
      (MarsNwe.freeTaskFiles cfg task n t) := by
  induction n with
  | zero => exact ⟨h, rfl, fun _ j hj => absurd hj (Nat.not_lt_zero j)⟩
  | succ n ih =>
      rw [MarsNwe.freeTaskFiles, returns_bind]
      refine ih.mono fun t' h' => ?_
      obtain ⟨hok, hlength, hclosed⟩ := h'
      cases hat : t'.at? n with
      | none =>
          refine ⟨hok, hlength, fun htask j hj fh hget => ?_⟩
          rcases Nat.lt_succ_iff_lt_or_eq.mp hj with hlt | rfl
          · exact hclosed htask j hlt fh hget
          · exact absurd (hget.symm.trans hat) (Option.some_ne_none fh)
      | some fh =>
          refine .ite (fun _ => ?_) fun hkept => ?_
          · have hfind : t'.find ((n : Int) + 1) = some (n, fh) := by
              rw [FileTable.find_succ]
              exact congrArg _ hat
            rw [returns_bind]
            refine (returns_freeFileHandle hfind).mono fun out hout => ?_
            obtain ⟨fh', hfd, hput⟩ := hout
            dsimp only
            rw [hput]
            refine ⟨hok.put (.inr (.inr hfd)), ?_, fun htask j hj fhj hget => ?_⟩
            · rw [FileTable.put, List.length_set]
              exact hlength
            · rw [FileTable.put, List.getElem?_set] at hget
              split at hget
              next =>
                split at hget
                next => exact Option.some.inj hget ▸ hfd
                next => contradiction
              next hne => exact hclosed htask j (by omega) fhj hget
          · exact ⟨hok, hlength, fun htask => absurd (.inl htask) hkept⟩

theorem initFileModule (h : SlotsOk cfg t) (task : Int) :
    Returns (SlotsOk cfg) (MarsNwe.initFileModule cfg t task) := by
  rw [MarsNwe.initFileModule, returns_bind]
  refine (h.freeTaskFiles task _).mono fun t' h' => ?_
  obtain ⟨hok, hlength, hclosed⟩ := h'
  change SlotsOk cfg (if task < 0 then _ else _)
  split
  next htask =>
    refine .empty (fun fh hmem => ?_) _
    rcases List.mem_append.mp hmem with hhandle | habove
    · obtain ⟨j, hget⟩ := List.getElem?_of_mem hhandle
      have hlt := (List.getElem?_eq_some_iff.mp hget).1
      exact hclosed htask j (hlength ▸ hlt) fh hget
    · exact hok.above fh habove
  next => exact hok

theorem nwServerCopy (h : SlotsOk cfg t) (qfhandle zfhandle : Int) (qoffset zoffset size : UInt32) :
    Returns (fun out => SlotsOk cfg out.2)
      (MarsNwe.nwServerCopy t qfhandle qoffset zfhandle zoffset size) := by
  unfold MarsNwe.nwServerCopy
  split
  next =>
    refine .ite (fun _ => .ite (fun _ => h) fun _ => ?_) fun _ => h
    rw [returns_bind]
    refine (Returns.trivial _).mono fun sought _ => ?_
    rw [returns_bind]
    refine (Returns.trivial _).mono fun retsize _ => ?_
    refine ((h.modify _ ?_).modify _ ?_).modify _ ?_
    all_goals exact fun _ => rfl
  next => exact h

end SlotsOk

theorem SlotsOk.handle (h : SlotsOk cfg t) (e : HandleRequest) :
    Returns (fun out => SlotsOk cfg out.2) ((handleSession cfg).handle t e) := by
  have hafter {α : Type} {m : FileProg α} {table : α → FileTable} {answer : α → FileAnswer}
      (hm : Returns (fun out => SlotsOk cfg (table out)) m) :
      Returns (fun out => SlotsOk cfg out.2) (m >>= fun out => pure (answer out, table out)) := by
    rw [returns_bind]
    exact hm
  cases e with
  | setFdateTime fhandle time => exact h.putsAt (putsAt_nwSetFdateTime fhandle time)
  | file e =>
      cases e with
      | creatOpen e => exact hafter (returns_fileCreatOpen.mono fun _ hout => h.opensAt hout)
      | close fhandle resetReuse task =>
          exact hafter ((returns_nwCloseFile resetReuse).mono fun _ hout => h.putsAt hout)
      | freeTask task => exact @hafter _ _ id _ (h.initFileModule task)
      | read fhandle size offset sigbus =>
          exact hafter ((returns_nwReadFile size offset sigbus).mono fun _ hout => h.putsAt hout)
      | write fhandle data size offset =>
          exact hafter ((returns_nwWriteFile data size offset).mono fun _ hout => h.putsAt hout)
      | seek fhandle modus rand =>
          exact hafter ((returns_nwSeekFile modus rand).mono fun _ hout => h.putsAt hout)
      | serverCopy qfhandle qoffset zfhandle zoffset size =>
          exact hafter (h.nwServerCopy qfhandle zfhandle qoffset zoffset size)

theorem SlotsOk.run {κ : Type} {K : HandleRequest → Kernel FileCall FileCall.Answer κ} {k k' : κ}
    {es : List (HandleRequest × FileAnswer)}
    (hrun : (handleSession cfg).Run K .init k es t k') : SlotsOk cfg t :=
  hrun.invariant (I := fun t _ => SlotsOk cfg t)
    (fun _ _ e h => Prog.ensures_iff.mpr fun _ _ hyields => (h.handle e).of_yields hyields)
    (.empty (fun _ hmem => absurd hmem List.not_mem_nil) _)

/-- A new handle is in no slot that is open, reserved for a command or, in the table, not to
be used again: a slot that has been used before is closed. -/
def NewUnused (cfg : FileConfig) (t : FileTable) : Prop :=
  ∀ {volume task : Int} {unixname : List UInt8} {i : Nat} {fh : FileHandle} {t' : FileTable},
    newFileHandle cfg t volume unixname task = some (i, fh, t') →
      i < cfg.maxHandles ∧ (∀ old, (t.handles ++ t.above)[i]? = some old → old.fd = -1) ∧
        ∀ old, t.handles[i]? = some old → old.is fhDoNotReuse = false

/-- There is no new handle only when all slots are in use. -/
def FullUsed (cfg : FileConfig) (t : FileTable) : Prop :=
  ∀ {volume task : Int} {unixname : List UInt8},
    newFileHandle cfg t volume unixname task = none →
      t.handles.length = cfg.maxHandles ∧ ∀ fh ∈ t.handles, fh.Held

/-- An open, also one that fails, changes no slot but the one that it gets, and returns its
handle if it succeeds. -/
def OpensOwn (cfg : FileConfig) (t : FileTable) : Prop :=
  ∀ e : OpenRequest, Returns (fun out =>
    (0 < out.1.1 → ∃ new, newFileHandle cfg t e.volume e.unixname e.task = some new ∧
      out.1.1 = (new.1 : Int) + 1) ∧
    ∀ j, (∀ new, newFileHandle cfg t e.volume e.unixname e.task = some new → j ≠ new.1) →
      out.2.slot j = t.slot j) (fileCreatOpen cfg t e)

/-- A close changes no slot but its own. -/
def ClosesOwn (cfg : FileConfig) (t : FileTable) : Prop :=
  ∀ (fhandle : Int) (resetReuse : Bool) (task : Int), Returns (fun out =>
    ∀ j : Nat, (j : Int) + 1 ≠ fhandle → out.2.slot j = t.slot j)
      (nwCloseFile cfg t fhandle resetReuse task)

/-- Setting the date changes no slot but its own. -/
def DatesOwn (t : FileTable) : Prop :=
  ∀ (fhandle : UInt32) (time : Int) (j : Nat), j + 1 ≠ fhandle.toNat →
    (nwSetFdateTime t fhandle time).2.slot j = t.slot j

/-- What holds of the handle table between two requests. -/
def HandlesSound (cfg : FileConfig) (t : FileTable) : Prop :=
  NewUnused cfg t ∧ FullUsed cfg t ∧ OpensOwn cfg t ∧ ClosesOwn cfg t ∧ DatesOwn t

/-- An open changes no slot but the one that it gets. -/
theorem OpensAt.slot {e : OpenRequest} {result : Int} (h : OpensAt cfg t e result t') {j : Nat}
    (hj : ∀ new, newFileHandle cfg t e.volume e.unixname e.task = some new → j ≠ new.1) :
    t'.slot j = t.slot j := by
  rcases h with ⟨-, rfl⟩ | h
  · rfl
  · split at h
    next =>
      obtain ⟨-, rfl⟩ := h
      rfl
    next i fh t₁ hnew =>
      obtain ⟨fh', -, rfl, -⟩ := h
      rw [FileTable.slot_put _ (hj _ hnew)]
      exact (newFileHandle_frame hnew).2 j (hj _ hnew)

theorem OpensAt.result {e : OpenRequest} {result : Int} (h : OpensAt cfg t e result t')
    (hpos : 0 < result) :
    ∃ new, newFileHandle cfg t e.volume e.unixname e.task = some new ∧ result = new.1 + 1 := by
  rcases h with ⟨hneg, -⟩ | h
  · omega
  · split at h
    next => omega
    next i fh t₁ hnew =>
      obtain ⟨-, -, -, ⟨hneg, -⟩ | hresult⟩ := h
      · omega
      · exact ⟨_, hnew, hresult⟩

/-- In every run a handle is only given for a slot that is closed and, in the table, may be
used again, none is given when all slots are in use, and an operation on one handle leaves
the other slots alone. -/
theorem handles_sound {κ : Type} {K : HandleRequest → Kernel FileCall FileCall.Answer κ}
    {k k' : κ} {es : List (HandleRequest × FileAnswer)}
    (hrun : (handleSession cfg).Run K .init k es t k') : HandlesSound cfg t := by
  have hok := SlotsOk.run hrun
  refine ⟨fun hnew => ?_, fun hnone => ?_, fun e => ?_, fun fhandle resetReuse task => ?_,
    fun fhandle time j hj => ?_⟩
  · obtain ⟨old, -, ⟨hget, hfree, -⟩ | ⟨-, rfl, hroom, -⟩⟩ := newFileHandle_eq_some hnew
    · have hlt := (List.getElem?_eq_some_iff.mp hget).1
      obtain ⟨hfd, hmark⟩ := FileHandle.free_iff.mp hfree
      refine ⟨hlt.trans_le hok.length_le, fun old' hold => ?_, fun old' hold => ?_⟩
      · rw [List.getElem?_append_left hlt] at hold
        exact Option.some.inj (hget.symm.trans hold) ▸ hfd
      · exact Option.some.inj (hget.symm.trans hold) ▸ hmark
    · refine ⟨hroom, fun old' hold => ?_, fun old' hold => ?_⟩
      · rw [List.getElem?_append_right le_rfl] at hold
        exact hok.above old' (List.mem_of_getElem? hold)
      · exact absurd (List.getElem?_eq_some_iff.mp hold).1 (lt_irrefl _)
  · obtain ⟨hfull, hused⟩ := newFileHandle_eq_none hnone
    refine ⟨le_antisymm hok.length_le hfull, fun fh hmem => ?_⟩
    obtain ⟨j, hget⟩ := List.getElem?_of_mem hmem
    refine (hok.settled j fh hget).held_or_free.resolve_right fun hfree => ?_
    rw [hused fh hmem] at hfree
    contradiction
  · exact returns_fileCreatOpen.mono fun out hopens => ⟨hopens.result, fun j hj => hopens.slot hj⟩
  · exact (returns_nwCloseFile resetReuse).mono fun out hputs j hj => hputs.slot hj
  · exact (putsAt_nwSetFdateTime fhandle time).slot (by omega)

end Runs

/-- Opening `/v/f` with a handle that is not to be used again. -/
def openSaved : FileRequest := .creatOpen ⟨0, [0x2f, 0x76, 0x2f, 0x66], 3, 4, 0⟩

/-- Two requests over a kernel that transfers nothing. -/
theorem idleHandleRun (e e' : HandleRequest) :
    let first := exec idleKernel (fun _ => none) ((handleSession plainConfig).handle .init e)
    let second := exec idleKernel first.2 ((handleSession plainConfig).handle first.1.2 e')
    (handleSession plainConfig).Run (fun _ => posKernel) .init (fun _ => none)
      [(e, first.1.1), (e', second.1.1)] second.1.2 second.2 :=
  .cons (yields_exec idleKernel_posKernel _ _) (.cons (yields_exec idleKernel_posKernel _ _)
    (.nil _ _))

theorem handles_sound_saved :
    let first := exec idleKernel (fun _ => none)
      ((handleSession plainConfig).handle .init (.file openSaved))
    let second := exec idleKernel first.2
      ((handleSession plainConfig).handle first.1.2 (.file (.freeTask (-1))))
    HandlesSound plainConfig second.1.2 :=
  handles_sound (idleHandleRun (.file openSaved) (.file (.freeTask (-1))))

/-- After a logout the first slot is handed out although it is still marked. -/
theorem not_handles_unmarked :
    ¬∀ (cfg : FileConfig) (κ : Type) (K : HandleRequest → Kernel FileCall FileCall.Answer κ)
      (k k' : κ) (es : List (HandleRequest × FileAnswer)) (t : FileTable) (volume task : Int)
      (unixname : List UInt8) (new : Nat × FileHandle × FileTable),
      (handleSession cfg).Run K .init k es t k' →
      newFileHandle cfg t volume unixname task = some new →
      (t.slot new.1).is fhDoNotReuse = false := by
  intro hall
  let first := exec idleKernel (fun _ => none)
    ((handleSession plainConfig).handle .init (.file openSaved))
  let second := exec idleKernel first.2
    ((handleSession plainConfig).handle first.1.2 (.file (.freeTask (-1))))
  have hfirst : (newFileHandle plainConfig second.1.2 0 [] 0).map (·.1) = some 0 := by
    decide +kernel
  obtain ⟨new, hnew, hindex⟩ := Option.map_eq_some_iff.mp hfirst
  have hunmarked := hall plainConfig Descs (fun _ => posKernel) (fun _ => none) second.2 _
    second.1.2 0 0 [] new (idleHandleRun (.file openSaved) (.file (.freeTask (-1)))) hnew
  have hmarked : (second.1.2.slot 0).is fhDoNotReuse = true := by decide +kernel
  rw [hindex] at hunmarked
  exact Bool.false_ne_true (hunmarked.symm.trans hmarked)

end MarsNwe
