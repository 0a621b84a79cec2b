import Mathlib.Data.Nat.SuccPred
import MarsNwe.Nwconn.Packets
import MarsNwe.Nwconn.RequestLayouts

/-! # Requests inside their packets

How long a packet has to be for the request in it: as long as the fields of its
function, and as the names, the data and the lists whose lengths and counts stand in
them. Nothing in nwconn compares this with what was received. A shorter packet is read
on into what earlier packets left behind.
-/

namespace MarsNwe.RequestInput

variable {π : Type} (s : Server π) (mem : Memory) (n : Nat)

/-! ## Where the fields end -/

/-- Behind what is only taken under a condition. -/
def endWhen (c : Bool) (stop : Nat) : Nat := if c then stop else 0

/-- Behind `len` bytes at `o`. -/
def bytesEnd (o len : Nat) : Nat := endWhen (len != 0) (o + len)

/-- Behind a name of at most `len` characters at `o`. -/
def textEnd : (o len : Nat) → Nat
  | _, 0 => 0
  | o, len + 1 => if mem o = 0 then o + 1 else max (o + 1) (textEnd (o + 1) len)

/-- Behind a name whose length stands at `o`. -/
def nameEnd (o : Nat) : Nat := max (o + 1) (textEnd mem (o + 1) (mem o).toNat)

/-- All bytes that are taken stand before `n`. -/
abbrev Within {α : Type} (m : Taking α) : Prop := Prog.AsksOnly mem (· < n) m

variable {mem n}

@[simp] theorem endWhen_le {c : Bool} {stop : Nat} :
    endWhen c stop ≤ n ↔ (c = true → stop ≤ n) := by
  cases c with
  | false => simp [endWhen]
  | true => simp [endWhen]

theorem lt_nameEnd (mem : Memory) (o : Nat) : o < nameEnd mem o := Nat.le_max_left _ _

@[simp] theorem within_takeByte (o : Nat) : Within mem n (takeByte o) ↔ o < n :=
  Prog.asksOnly_ask (f := mem) o

@[simp] theorem value_takeByte (o : Nat) : Prog.value mem (takeByte o) = mem o := rfl

@[simp] theorem within_takeBe16 (o : Nat) : Within mem n (takeBe16 o) ↔ o + 1 < n := by
  simp [takeBe16]
  omega

@[simp] theorem within_takeLe16 (o : Nat) : Within mem n (takeLe16 o) ↔ o + 1 < n := by
  simp [takeLe16]
  omega

@[simp] theorem within_takeBe32 (o : Nat) : Within mem n (takeBe32 o) ↔ o + 3 < n := by
  simp [takeBe32]
  omega

@[simp] theorem within_takeLe32 (o : Nat) : Within mem n (takeLe32 o) ↔ o + 3 < n := by
  simp [takeLe32]
  omega

@[simp] theorem within_takeBytes (o len : Nat) :
    Within mem n (takeBytes o len) ↔ bytesEnd o len ≤ n := by
  induction len generalizing o with
  | zero => simp [takeBytes, bytesEnd]
  | succ len ih =>
      simp [takeBytes, ih, bytesEnd]
      omega

@[simp] theorem within_takeText (o len : Nat) :
    Within mem n (takeText o len) ↔ textEnd mem o len ≤ n := by
  induction len generalizing o with
  | zero => simp [takeText, textEnd]
  | succ len ih =>
      by_cases hc : mem o = 0
      · simp [takeText, textEnd, hc]
      · simp [takeText, textEnd, hc, ih]

@[simp] theorem within_takeWhen {α : Type} (c : Bool) (m : Taking α) :
    Within mem n (takeWhen c m) ↔ (c = true → Within mem n m) := by
  cases c with
  | false => simp [takeWhen]
  | true => simp [takeWhen]

@[simp] theorem within_takeName (o : Nat) : Within mem n (takeName o) ↔ nameEnd mem o ≤ n := by
  simp [takeName, nameEnd]

@[simp] theorem within_takeDirName (d o : Nat) (call : UInt8 → List UInt8 → ServCall π) :
    Within mem n (takeDirName d o call) ↔ d < n ∧ nameEnd mem o ≤ n := by
  simp [takeDirName]

/-! ## Function 0x16 -/

variable (mem)

/-- Behind a second name, which is read when the first is found. -/
def secondNameEnd (dirHandle : UInt8) (first firstLen second : Nat) (len : UInt8) : Nat :=
  endWhen (s.findsPath dirHandle (Prog.value mem (takeText first firstLen)))
    (textEnd mem second len.toNat)

/-- Behind the fields that `nw_set_a_directory_entry` uses. -/
def setDirInfoEnd : Nat :=
  let changeMask := Prog.value mem (takeLe32 16)
  max (nameEnd mem 31) <|
    match s.dirEntry (mem 10) (Prog.value mem (takeText 32 (mem 31).toNat)) (mem 11) with
    | none => 0
    | some isDir => endWhen (changeMask &&& 0x1000 != 0) (if isDir then 122 else 118)

def renameDirEnd : Nat :=
  let len := (mem 11).toNat
  max (13 + len) <|
    max (textEnd mem 12 len) (secondNameEnd s mem (mem 10) 12 len (13 + len) (mem (12 + len)))

def size0x16 : Nat :=
  match mem 9 with
  | 0x01 | 0x06 | 0x14 | 0x15 | 0x1f | 0x20 | 0x2c | 0x2d | 0x2f => 11
  | 0x02 => max 14 (bytesEnd 14 (mem 13).toNat)
  | 0x05 => nameEnd mem 10
  | 0x03 | 0x2a => nameEnd mem 11
  | 0x00 | 0x0a | 0x0b | 0x12 | 0x13 | 0x16 | 0x26 => nameEnd mem 12
  | 0x0d | 0x0e | 0x1e | 0x28 | 0x2b => nameEnd mem 16
  | 0x27 => nameEnd mem 17
  | 0x19 => nameEnd mem 20
  | 0x0f => renameDirEnd s mem
  | 0x25 => setDirInfoEnd s mem
  | 0x29 => 15
  | 0x30 => 16
  | _ => 10

variable {mem}

theorem within_nwSetADirectoryEntry :
    Within mem n (nwSetADirectoryEntry s (mem 10) (mem 11)) ↔ setDirInfoEnd s mem ≤ n := by
  simp only [nwSetADirectoryEntry, setDirInfoEnd, Prog.asksOnly_bind, value_takeByte]
  cases s.dirEntry (mem 10) (Prog.value mem (takeText 32 (mem 31).toNat)) (mem 11) with
  | none =>
      simp [nameEnd]
      omega
  | some isDir =>
      cases isDir <;> simp [nameEnd] <;> grind

theorem within_renameDir : Within mem n (renameDir s) ↔ renameDirEnd s mem ≤ n := by
  simp [renameDir, renameDirEnd, secondNameEnd, takeSecondName]
  grind

theorem lt_setDirInfoEnd (mem : Memory) : 31 < setDirInfoEnd s mem :=
  Nat.lt_of_lt_of_le (lt_nameEnd mem 31) (Nat.le_max_left _ _)

theorem within_handleFunc0x16 (task : UInt8) :
    Within mem n (handleFunc0x16 s task) ↔ max 10 (size0x16 s mem) ≤ n := by
  have h10 := lt_nameEnd mem 10
  have h11 := lt_nameEnd mem 11
  have h12 := lt_nameEnd mem 12
  have h16 := lt_nameEnd mem 16
  have h17 := lt_nameEnd mem 17
  have h20 := lt_nameEnd mem 20
  have hlast := lt_setDirInfoEnd s mem
  unfold handleFunc0x16 size0x16
  simp only [Prog.asksOnly_bind, within_takeByte, value_takeByte]
  generalize mem 9 = ufunc
  split <;> simp [within_renameDir, within_nwSetADirectoryEntry]
  all_goals grind

/-! ## Function 0x17 -/

variable (mem)

def createQueueEnd : Nat :=
  let qNameLen := (mem 12).toNat
  max (14 + qNameLen) (nameEnd mem (14 + qNameLen))

def size0x17 : Nat :=
  match mem 9 with
  | 0x0f => nameEnd mem 14
  | 0x10 => nameEnd mem 90
  | 0x47 => 17
  | 0x64 => createQueueEnd mem
  | 0x6c | 0x7a | 0x69 | 0x7f | 0x72 | 0x73 | 0x83 | 0x84 => 16
  | _ => 10

variable {mem}

theorem within_createQueue :
    Within mem n (createQueue : Taking (ServCall π)) ↔ createQueueEnd mem ≤ n := by
  have hname := lt_nameEnd mem (14 + (mem 12).toNat)
  simp [createQueue, createQueueEnd]
  omega

@[simp] theorem within_takeJob (call : UInt32 → UInt16 → ServCall π) :
    Within mem n (takeJob call) ↔ 15 < n := by
  simp [takeJob]
  omega

theorem within_handleFunc0x17 :
    Within mem n (handleFunc0x17 : Taking (ServCall π)) ↔ max 10 (size0x17 mem) ≤ n := by
  have h14 := lt_nameEnd mem 14
  have h90 := lt_nameEnd mem 90
  unfold handleFunc0x17 size0x17
  simp only [Prog.asksOnly_bind, within_takeByte, value_takeByte]
  generalize mem 9 = ufunc
  split <;> simp [within_createQueue, bytesEnd]
  all_goals grind

/-! ## Function 0x57 -/

variable (mem)

/-- Behind the characters of a component that are read. -/
def charsEnd : (len : Nat) → π → (o : Nat) → Nat
  | 0, _, _ => 0
  | len + 1, path, o =>
      max (o + 1) <|
        match s.addChar path (mem o) with
        | none => 0
        | some path => charsEnd len path (o + 1)

def componentEnd (path : π) (o len : Nat) : Nat :=
  if s.namesVolume path then textEnd mem o len else charsEnd s mem len (s.addSlash path) o

/-- Behind the components that `add_hpath_to_nwpath` comes to. -/
def componentsEnd : (components : Nat) → π → (o : Nat) → Nat
  | 0, _, _ => 0
  | k + 1, path, o =>
      let len := (mem o).toNat
      max (o + 1) <| max (componentEnd s mem path (o + 1) len) <|
        match Prog.value mem (takeComponent s path (o + 1) len) with
        | none => 0
        | some path => componentsEnd k path (o + 1 + len)

/-- Behind what `build_base` reads of an `NW_HPATH` at `o` and its components. -/
def baseEnd (o pathes : Nat) : Nat :=
  max (o + 6) <|
    match Prog.value mem (takeHandle s o) with
    | none => 0
    | some path => max (o + 7) (componentsEnd s mem (mem (o + 6)).toNat path pathes)

/-- Behind the last length that `get_comp_pathes_size` adds. -/
def lengthsEnd : (components o : Nat) → Nat
  | 0, _ => 0
  | k + 1, o => max (o + 1) (lengthsEnd k (o + 1 + (mem o).toNat))

def renameFileDirEnd : Nat :=
  let components := (mem 18).toNat
  let size := Prog.value mem (getCompPathesSize components 26)
  let source := Prog.value mem (buildBase s (mem 8) 12 26 false)
  max 26 <| max (lengthsEnd mem components 26) <|
    max (baseEnd s mem 12 26) (endWhen source.isSome (baseEnd s mem 19 (26 + size)))

/-- Behind a list of ids, each with its rights unless these are given. -/
def oicEnd (trusteeRights : Option UInt16) (count o : Nat) : Nat :=
  endWhen (count != 0) (o + 6 * count - if trusteeRights.isSome then 2 else 0)

def addTrusteeSetEnd : Nat :=
  let trusteeRights := Prog.value mem (takeLe16 12)
  let trusteeRights := if trusteeRights = 0xffff then none else some trusteeRights
  let count := (Prog.value mem (takeLe16 14)).toNat
  let path := Prog.value mem (buildBase s (mem 8) 16 23 true)
  max (baseEnd s mem 16 23)
    (endWhen (path.any s.isWritable) (oicEnd trusteeRights count 323))

def delTrusteeSetEnd : Nat :=
  let count := (Prog.value mem (takeLe16 10)).toNat
  let path := Prog.value mem (buildBase s (mem 8) 12 19 true)
  max (baseEnd s mem 12 19) (endWhen (path.any s.isWritable) (bytesEnd 319 (4 * count)))

/-- Behind the pattern at `o` of a search, whose numbers start at `volume`. -/
def searchEnd (volume o : Nat) : Nat :=
  let basehandle := Prog.value mem (takeLe32 (volume + 1))
  let sequence := Prog.value mem (takeLe32 (volume + 5))
  max o (endWhen (s.opensSearch (mem volume) basehandle sequence)
    (bytesEnd o (mem (volume + 9)).toNat))

def size0x57 : Nat :=
  match mem 7 with
  | 0x01 => max 30 (baseEnd s mem 22 29)
  | 0x02 => max 18 (baseEnd s mem 10 17)
  | 0x03 => searchEnd s mem 16 26
  | 0x14 => searchEnd s mem 18 28
  | 0x04 => renameFileDirEnd s mem
  | 0x05 | 0x06 | 0x1d => baseEnd s mem 16 23
  | 0x07 => max 61 (baseEnd s mem 54 61)
  | 0x08 | 0x09 | 0x0c | 0x16 => baseEnd s mem 12 19
  | 0x0a => addTrusteeSetEnd s mem
  | 0x0b => delTrusteeSetEnd s mem
  | 0x15 => 10
  | 0x18 => 11
  | 0x1c => baseEnd s mem 20 27
  | _ => 9

variable {mem}

@[simp] theorem within_takeChars (len : Nat) (path : π) (o : Nat) :
    Within mem n (takeChars s len path o) ↔ charsEnd s mem len path o ≤ n := by
  induction len generalizing path o with
  | zero => simp [takeChars, charsEnd]
  | succ len ih =>
      simp only [takeChars, charsEnd, Prog.asksOnly_bind, value_takeByte]
      cases s.addChar path (mem o) with
      | none => simp
      | some path => simp [ih]

@[simp] theorem within_takeComponent (path : π) (o len : Nat) :
    Within mem n (takeComponent s path o len) ↔ componentEnd s mem path o len ≤ n := by
  unfold takeComponent componentEnd
  by_cases hlen : len = 0
  · simp [hlen, textEnd, charsEnd]
  · by_cases hvolume : s.namesVolume path
    · simp [hlen, hvolume]
    · simp [hlen, hvolume]

@[simp] theorem within_takeComponents (k : Nat) (path : π) (o : Nat) :
    Within mem n (takeComponents s k path o) ↔ componentsEnd s mem k path o ≤ n := by
  induction k generalizing path o with
  | zero => simp [takeComponents, componentsEnd]
  | succ k ih =>
      simp only [takeComponents, componentsEnd, Prog.asksOnly_bind, value_takeByte]
      cases Prog.value mem (takeComponent s path (o + 1) (mem o).toNat) with
      | none => simp
      | some path => simp [ih]

@[simp] theorem within_takeHandle (o : Nat) :
    Within mem n (takeHandle s o) ↔ o + 5 < n := by
  simp only [takeHandle, Prog.asksOnly_bind, value_takeByte, within_takeByte]
  by_cases h0 : mem (o + 5) = 0
  · simp [h0]
    omega
  · by_cases h1 : mem (o + 5) = 1
    · simp [h1]
      omega
    · by_cases hff : mem (o + 5) = 0xff
      · simp [hff]
      · simp [h0, h1, hff]

@[simp] theorem within_buildBase (namespaceId : UInt8) (o pathes : Nat) (mode : Bool) :
    Within mem n (buildBase s namespaceId o pathes mode) ↔ baseEnd s mem o pathes ≤ n := by
  simp only [buildBase, baseEnd, Prog.asksOnly_bind]
  cases Prog.value mem (takeHandle s o) with
  | none => simp [Nat.add_one_le_iff]
  | some path =>
      simp
      omega

@[simp] theorem within_getCompPathesSize (k o : Nat) :
    Within mem n (getCompPathesSize k o) ↔ lengthsEnd mem k o ≤ n := by
  induction k generalizing o with
  | zero => simp [getCompPathesSize, lengthsEnd]
  | succ k ih => simp [getCompPathesSize, lengthsEnd, ih]

@[simp] theorem within_takeOic (trusteeRights : Option UInt16) (count o : Nat) :
    Within mem n (takeOic trusteeRights count o) ↔ oicEnd trusteeRights count o ≤ n := by
  induction count generalizing o with
  | zero => simp [takeOic, oicEnd]
  | succ k ih =>
      cases trusteeRights with
      | none =>
          simp [takeOic, takeTrustee, oicEnd, ih]
          omega
      | some trustee =>
          simp [takeOic, takeTrustee, oicEnd, ih]
          omega

@[simp] theorem within_takeIds (count o : Nat) :
    Within mem n (takeIds count o) ↔ bytesEnd o (4 * count) ≤ n := by
  induction count generalizing o with
  | zero => simp [takeIds, bytesEnd]
  | succ k ih =>
      simp [takeIds, bytesEnd, ih]
      omega

theorem lt_baseEnd (mem : Memory) (o pathes : Nat) : o + 5 < baseEnd s mem o pathes := Nat.le_max_left _ _

theorem within_nwRenameFileDir (renameflag : UInt8) (searchattrib : UInt16) :
    Within mem n (nwRenameFileDir s (mem 8) renameflag searchattrib) ↔
      renameFileDirEnd s mem ≤ n := by
  simp [nwRenameFileDir, renameFileDirEnd, bytesEnd]
  grind

theorem within_nwAddTrusteeSet (searchattrib : UInt16) :
    Within mem n (nwAddTrusteeSet s (mem 8) searchattrib (Prog.value mem (takeLe16 12))
      (Prog.value mem (takeLe16 14))) ↔ addTrusteeSetEnd s mem ≤ n := by
  simp [nwAddTrusteeSet, addTrusteeSetEnd]

theorem within_nwDelTrusteeSet :
    Within mem n (nwDelTrusteeSet s (mem 8) (Prog.value mem (takeLe16 10))) ↔
      delTrusteeSetEnd s mem ≤ n := by
  simp [nwDelTrusteeSet, delTrusteeSetEnd]

theorem within_handleFunc0x57 (task : UInt8) :
    Within mem n (handleFunc0x57 s task) ↔ max 9 (size0x57 s mem) ≤ n := by
  have h10 := lt_baseEnd s mem 10 17
  have h12 := lt_baseEnd s mem 12 19
  have h16 := lt_baseEnd s mem 16 23
  have h20 := lt_baseEnd s mem 20 27
  have h22 := lt_baseEnd s mem 22 29
  have h54 := lt_baseEnd s mem 54 61
  have hadd : baseEnd s mem 16 23 ≤ addTrusteeSetEnd s mem := Nat.le_max_left _ _
  have hdel : baseEnd s mem 12 19 ≤ delTrusteeSetEnd s mem := Nat.le_max_left _ _
  have hrename : 26 ≤ renameFileDirEnd s mem := Nat.le_max_left _ _
  unfold handleFunc0x57 size0x57
  simp only [Prog.asksOnly_bind, within_takeByte, value_takeByte]
  generalize mem 7 = ufunc
  split <;> simp [within_nwRenameFileDir, within_nwAddTrusteeSet, within_nwDelTrusteeSet,
    nwSearchFileDir, searchEnd, bytesEnd]
  all_goals grind

/-! ## All functions -/

variable (mem)

def renameFileEnd : Nat :=
  let len := (mem 9).toNat
  max (12 + len) <|
    max (textEnd mem 10 len) (secondNameEnd s mem (mem 7) 10 len (12 + len) (mem (11 + len)))

def writeEnd : Nat :=
  let fhandle := Prog.value mem (takeLe32 10)
  let offset := Prog.value mem (takeBe32 14)
  let size := Prog.value mem (takeBe16 18)
  max 20 (endWhen (s.writes fhandle size offset) (bytesEnd 20 size.toNat))

def functionSize : Nat :=
  match mem 6 with
  | 0x03 | 0x40 => nameEnd mem 11
  | 0x05 | 0x07 | 0x3e => nameEnd mem 8
  | 0x41 | 0x43 | 0x4d | 0x44 => nameEnd mem 9
  | 0x46 | 0x4c => nameEnd mem 10
  | 0x3f => nameEnd mem 13
  | 0x45 => renameFileEnd s mem
  | 0x09 => max 11 (bytesEnd 11 (mem 10).toNat)
  | 0x0b => max 8 (bytesEnd 8 (mem 7).toNat)
  | 0x49 => writeEnd s mem
  | 0x4b => max 14 (endWhen (s.setsTime (Prog.value mem (takeLe32 10))) 18)
  | 0x16 => max 10 (size0x16 s mem)
  | 0x17 => max 10 (size0x17 mem)
  | 0x57 => max 9 (size0x57 s mem)
  | 0x12 | 0x22 | 0x56 => 8
  | 0x21 => 9
  | 0x0a => 10
  | 0x3b | 0x3d | 0x42 | 0x47 => 14
  | 0x48 => 20
  | 0x1a | 0x1e => 24
  | 0x4a => 32
  | _ => 7

/-- The size of the request: of its header, and of the rest when it is a new one. -/
def requestSize : Nat :=
  max 7 (endWhen (Prog.value mem (takeBe16 0) == 0x2222 && s.lastSequence != (mem 2).toNat)
    (functionSize s mem))

variable {mem}

@[simp] theorem within_takePhysicalRecord
    (call : UInt32 → UInt32 → UInt32 → UInt16 → ServCall π) :
    Within mem n (takePhysicalRecord call) ↔ 23 < n := by
  simp [takePhysicalRecord]
  omega

@[simp] theorem within_takeFhandle (call : UInt32 → ServCall π) :
    Within mem n (takeFhandle call) ↔ 13 < n := by
  simp [takeFhandle]

theorem within_renameFile : Within mem n (renameFile s) ↔ renameFileEnd s mem ≤ n := by
  simp [renameFile, renameFileEnd, secondNameEnd, takeSecondName]
  grind

theorem within_handleFunction (task : UInt8) (hheader : 6 < n) :
    Within mem n (handleFunction s task (mem 6)) ↔ functionSize s mem ≤ n := by
  have h8 := lt_nameEnd mem 8
  have h9 := lt_nameEnd mem 9
  have h10 := lt_nameEnd mem 10
  have h11 := lt_nameEnd mem 11
  have h13 := lt_nameEnd mem 13
  unfold handleFunction functionSize
  generalize mem 6 = function
  split <;> simp [within_handleFunc0x16, within_handleFunc0x17, within_handleFunc0x57,
    within_renameFile, nwWriteFile, writeEnd, nwSetFdateTime]
  all_goals grind

theorem within_handleNcpServ :
    Within mem n (handleNcpServ s) ↔ requestSize s mem ≤ n := by
  by_cases hheader : 6 < n
  · by_cases htype : Prog.value mem (takeBe16 0) = 0x2222
    · by_cases hagain : s.lastSequence = (mem 2).toNat
      · simp [handleNcpServ, requestSize, htype, hagain]
        omega
      · simp [handleNcpServ, requestSize, htype, hagain, within_handleFunction s _ hheader]
        omega
    · have hother : Within mem n
          (if s.lastSequence = (mem 2).toNat ∧ Prog.value mem (takeBe16 0) ≠ 0x1111 then
            pure ServCall.sendAgain
          else if Prog.value mem (takeBe16 0) = 0x1111 then pure .nwInitConnect
          else pure (.completition 0xfb) : Taking (ServCall π)) := by
        split
        · simp
        · split <;> simp
      simp [handleNcpServ, requestSize, htype] at hother ⊢
      exact ⟨fun h => h.2.2.2.1, fun h => ⟨by omega, by omega, by omega, h, hother⟩⟩
  · simp [handleNcpServ, requestSize]
    omega

/-! ## Packets -/

/-- `readbuff` when a packet has been read over what stood there. -/
def received (packet : List UInt8) (old : Memory) : Memory := fun o => packet.getD o (old o)

/-- Whatever stood in the memory before, every byte that is taken is one of the packet,
and the request comes to the same. -/
def StaysInPacket (packet : List UInt8) : Prop :=
  ∀ old old', (∀ o ∈ Prog.asked (received packet old) (handleNcpServ s), o < packet.length) ∧
    Prog.value (received packet old') (handleNcpServ s) =
      Prog.value (received packet old) (handleNcpServ s)

theorem received_of_lt {packet : List UInt8} {o : Nat} (ho : o < packet.length)
    (old old' : Memory) : received packet old' o = received packet old o := by
  simp [received, ho]

/-- A request stays in its packet when the packet is as long as the request, read with
nothing but zeros behind the packet. -/
theorem staysInPacket_iff (packet : List UInt8) :
    StaysInPacket s packet ↔
      requestSize s (received packet fun _ => 0) ≤ packet.length := by
  constructor
  · intro h
    exact (within_handleNcpServ s).mp (h _ fun _ => 0).1
  · intro hsize
    have hwithin : Within (received packet fun _ => 0) packet.length (handleNcpServ s) :=
      (within_handleNcpServ s).mpr hsize
    have hsame (old : Memory) := Prog.same_of_agree (handleNcpServ s)
      (hwithin.mono fun o ho => received_of_lt ho (fun _ => 0) old)
    intro old old'
    obtain ⟨hasked, hvalue⟩ := hsame old
    refine ⟨?_, (hsame old').2.trans hvalue.symm⟩
    rw [hasked]
    exact hwithin

/-- Nothing is found but files that are open for writing. -/
def writeServer : Server Unit where
  lastSequence := -9999
  findsPath _ _ := false
  dirEntry _ _ _ := none
  writes _ _ _ := true
  setsTime _ := false
  ofDirHandle _ := none
  ofBase _ _ := none
  noVolume := ()
  namesVolume _ := false
  ofVolume _ := none
  parent _ := none
  addSlash path := path
  addChar _ _ := none
  hasBase _ _ _ := false
  isWritable _ := false
  opensSearch _ _ _ := false

/-- A request to write 512 bytes, with two of them. -/
def shortWrite : List UInt8 :=
  [0x22, 0x22, 1, 1, 1, 0, 0x49, 0, 0, 0, 1, 0, 0, 0, 0, 0, 0, 0, 2, 0, 0x41, 0x42]

example : requestSize writeServer (received shortWrite fun _ => 0) = 20 + 512 := by decide

/-- The other 510 bytes of the file come from what stood behind the packet. -/
theorem short_write_leaves_packet :
    shortWrite.length ≤ ipxMaxData ∧ ¬StaysInPacket writeServer shortWrite := by
  refine ⟨by decide, fun h => ?_⟩
  have hsize := (staysInPacket_iff _ _).mp h
  revert hsize
  decide

end MarsNwe.RequestInput
