import MarsNwe.Trustee.StoreNames

/-! # All paths of a user are listed

The nodes of a process are those of the store as long as the serial number that it
remembers is that of the store. A list that is built then, or after a test that drops the
nodes, is complete. Where the first lookup of the walk is the one that finds the number
changed, the list is left with what this lookup finds.
-/

namespace MarsNwe

open Formatted Links

/-! ## The nodes -/

/-- The trustees of files whose names are in the store are those that are read there. -/
def LinkedRead (volume : Nat) (s : TrusteeStore) (volume' : Nat) (id : FileId)
    (trustees : List IdsTrustee) : Prop :=
  volume' = volume → (∃ path, (namePath id, path) ∈ s.links) →
    trustees = (readTrustees (s.trusteeDir id).entries 0).2

/-- As long as a process remembers the serial number of the store, its nodes are those of
the store. -/
def Coherent (volume : Nat) (s : TrusteeStore) (p : TrusteeProcess) : Prop :=
  p.vol.trusteeSernum = s.sernum → NodesHold (LinkedRead volume s) p.cache

section Nodes

variable {volume : Nat} {s : TrusteeStore} {p : TrusteeProcess} {world : TrusteeWorld}
  {actTime : Int}

theorem linkedRead_withStore (volume' : Nat) (id : FileId) :
    LinkedRead volume s volume' id
      (readTrustees ((world.withStore volume s).disk volume' id).entries 0).2 := by
  rintro rfl -
  unfold TrusteeWorld.withStore
  dsimp only
  rw [if_pos rfl]

/-- With the nodes of a volume gone, nothing is wrong with those that are left. -/
theorem linkedRead_free (s : TrusteeStore) (cache : TrusteeCache) :
    NodesHold (LinkedRead volume s) (truFreeCache (some volume) cache) := by
  intro tr htr hvolume
  have hfreed : decide (tr.volume = volume) = false :=
    AgedSlots.not_of_mem_free (p := fun tr : FileTrusteeNode => decide (tr.volume = volume)) htr
  exact absurd hvolume (of_decide_eq_false hfreed)

/-- A test drops the nodes and the list, or it leaves them. -/
theorem volTrusteesWereChanged_cases (volume : Nat) (actTime : Int) (s : TrusteeStore)
    (p : TrusteeProcess) :
    (actTime > p.vol.trusteeLastTestTime + 60 ∧ p.vol.trusteeSernum ≠ s.sernum ∧
      volTrusteesWereChanged volume actTime s p =
        (true, ⟨{ p.vol.free with trusteeSernum := s.sernum },
          truFreeCache (some volume) p.cache⟩)) ∨
    (¬(actTime > p.vol.trusteeLastTestTime + 60 ∧ p.vol.trusteeSernum ≠ s.sernum) ∧
      ∃ time, volTrusteesWereChanged volume actTime s p =
        (false, { p with vol := { p.vol with trusteeLastTestTime := time } })) := by
  unfold volTrusteesWereChanged
  by_cases hdue : actTime > p.vol.trusteeLastTestTime + 60
  · by_cases hchanged : p.vol.trusteeSernum ≠ s.sernum
    · exact .inl ⟨hdue, hchanged, by rw [if_pos hdue]; exact if_pos hchanged⟩
    · refine .inr ⟨fun h => hchanged h.2, actTime, ?_⟩
      rw [if_pos hdue]
      exact if_neg hchanged
  · refine .inr ⟨fun h => hdue h.1, p.vol.trusteeLastTestTime, ?_⟩
    rw [if_neg hdue]

theorem Coherent.test (h : Coherent volume s p) (actTime : Int) :
    Coherent volume s (volTrusteesWereChanged volume actTime s p).2 := by
  rcases volTrusteesWereChanged_cases volume actTime s p with
    ⟨-, -, htest⟩ | ⟨-, time, htest⟩
  · rw [htest]
    exact fun _ => linkedRead_free s p.cache
  · rw [htest]
    exact h

/-- What is read for an id at a file. -/
def readIdTrustee (s : TrusteeStore) (file : FileId) (id : UInt32) : Int :=
  (((readTrustees (s.trusteeDir file).entries 0).2.find? (·.id = id)).map
    fun e => (e.trustee.toNat : Int)).getD (-1)

theorem findIdTrustee_of_read {tr : FileTrusteeNode} {file : FileId} (id : UInt32)
    (h : tr.trustees = (readTrustees (s.trusteeDir file).entries 0).2) :
    findIdTrustee tr id = readIdTrustee s file id := by
  unfold findIdTrustee readIdTrustee
  rw [h]
  cases (readTrustees (s.trusteeDir file).entries 0).2.find? (·.id = id) <;> rfl

/-- A lookup leaves what the test leaves of the list, and keeps the nodes coherent. With the
number of the store remembered after the test, it finds what is in the store. -/
theorem Coherent.lookup (h : Coherent volume s p) (world : TrusteeWorld) (actTime : Int)
    (unixname : UnixName) (stb : FileStat) (id : UInt32)
    (hoption : (world.tree volume).options.trustees = true) :
    let found := truGetIdTrustee world volume actTime s p unixname stb id
    let tested := (volTrusteesWereChanged volume actTime s p).2
    Coherent volume s found.2 ∧ found.2.vol = tested.vol ∧
      (tested.vol.trusteeSernum = s.sernum → (∃ path, (namePath stb.id, path) ∈ s.links) →
        found.1 = readIdTrustee s stb.id id) := by
  have hread := @linkedRead_withStore volume s world
  have hnew : ∀ modeFlags, findIdTrustee
      (createTrusteeNode (world.withStore volume s).disk volume stb.id modeFlags) id =
        readIdTrustee s stb.id id := by
    intro modeFlags
    refine findIdTrustee_of_read id ?_
    show (readTrustees ((if volume = volume then s.trusteeDir else _) stb.id).entries 0).2 = _
    rw [if_pos rfl]
  unfold truGetIdTrustee findTestedNode
  rw [if_pos hoption]
  rcases volTrusteesWereChanged_cases volume actTime s p with
    ⟨-, -, htest⟩ | ⟨-, time, htest⟩
  · rw [htest]
    exact ⟨fun _ => (linkedRead_free s p.cache).add (hread volume stb.id), rfl, fun _ _ => hnew _⟩
  · rw [htest]
    have hfind := fun hsernum => (h hsernum).find volume stb.id
    dsimp only
    generalize findTrusteeNode p.cache volume stb.id = found at hfind ⊢
    obtain ⟨_ | tr, cache⟩ := found
    · exact ⟨fun hsernum => (hfind hsernum).1.add (hread volume stb.id), rfl, fun _ _ => hnew _⟩
    · refine ⟨fun hsernum => (hfind hsernum).1, rfl, fun hsernum hlinked => ?_⟩
      obtain ⟨hheld, hvolume, hid⟩ := (hfind hsernum).2 tr rfl
      rw [hid] at hheld
      exact findIdTrustee_of_read id (hheld hvolume hlinked)

end Nodes

/-! ## The scan -/

/-- The entry that a link is listed with for an id, as the file has it in the store. -/
def listedAt (w : ScanWorld) (volume : Nat) (s : TrusteeStore) (id : UInt32) (namespaceNr : Int)
    (target : List UInt8) : Option VolumeTrustee :=
  ((w.world.tree volume).stat (.ofBytes target)).bind fun stb =>
    ((readTrustees (s.trusteeDir stb.id).entries 0).2.find? (·.id = id)).map fun e =>
      ⟨e.trustee.toNat, w.listedPath namespaceNr target⟩

/-- A link that is read as a whole and leads to a file whose name is in the store. -/
structure Leads (w : ScanWorld) (volume : Nat) (s : TrusteeStore) (target : List UInt8) :
    Prop where
  ne_nil : target ≠ []
  length_le : target.length ≤ 254
  stat : ∃ stb, (w.world.tree volume).stat (.ofBytes target) = some stb ∧
    ∃ path, (namePath stb.id, path) ∈ s.links

section Scan

variable {w : ScanWorld} {volume : Nat} {s : TrusteeStore} {p : TrusteeProcess}
  {target : List UInt8}

/-- What a volume with trustees has at a link, after the lookup of its file. -/
theorem Coherent.scanLink (h : Coherent volume s p) (actTime : Int) (target : List UInt8)
    (hoption : (w.world.tree volume).options.trustees = true) :
    Coherent volume s (scanLink w volume actTime s p target) := by
  unfold MarsNwe.scanLink
  dsimp only
  split
  next => exact h
  next =>
    split
    next => exact h
    next stb hstat =>
      obtain ⟨hfound, -, -⟩ := h.lookup w.world actTime (.ofBytes (target.take 254)) stb
        p.vol.trusteeId hoption
      generalize truGetIdTrustee w.world volume actTime s p (.ofBytes (target.take 254)) stb
        p.vol.trusteeId = found at *
      obtain ⟨trustee, p'⟩ := found
      dsimp only
      split
      · exact hfound
      · exact hfound

theorem Coherent.scan (h : Coherent volume s p) (actTime : Int)
    (links : List (List (List UInt8) × List UInt8))
    (hoption : (w.world.tree volume).options.trustees = true) :
    Coherent volume s (links.foldl (fun p l => MarsNwe.scanLink w volume actTime s p l.2) p) := by
  induction links generalizing p with
  | nil => exact h
  | cons l links ih => exact ih (h.scanLink actTime l.2 hoption)

/-- With the number of the store remembered after the test, a link is listed with what the
store has. -/
theorem Coherent.scanLink_vol (h : Coherent volume s p) (actTime : Int)
    (hoption : (w.world.tree volume).options.trustees = true) (hleads : Leads w volume s target)
    (hsernum : (volTrusteesWereChanged volume actTime s p).2.vol.trusteeSernum = s.sernum) :
    (MarsNwe.scanLink w volume actTime s p target).vol =
      let vol := (volTrusteesWereChanged volume actTime s p).2.vol
      { vol with trustees := vol.trustees ++
        (listedAt w volume s p.vol.trusteeId vol.trusteeNamespace target).toList } := by
  obtain ⟨stb, hstat, hlinked⟩ := hleads.stat
  obtain ⟨-, hvol, hlookup⟩ :=
    h.lookup w.world actTime (.ofBytes target) stb p.vol.trusteeId hoption
  have hfound := hlookup hsernum hlinked
  clear hlookup
  have hlisted : listedAt w volume s p.vol.trusteeId
      (volTrusteesWereChanged volume actTime s p).2.vol.trusteeNamespace target =
        ((readTrustees (s.trusteeDir stb.id).entries 0).2.find? (·.id = p.vol.trusteeId)).map
          fun e => ⟨e.trustee.toNat, w.listedPath
            (volTrusteesWereChanged volume actTime s p).2.vol.trusteeNamespace target⟩ := by
    unfold listedAt
    rw [hstat]
    rfl
  unfold MarsNwe.scanLink
  rw [List.take_of_length_le hleads.length_le]
  dsimp only
  rw [hlisted, if_neg (by simpa using hleads.ne_nil), hstat]
  dsimp only
  generalize volTrusteesWereChanged volume actTime s p = tested at *
  generalize truGetIdTrustee w.world volume actTime s p (.ofBytes target) stb
    p.vol.trusteeId = found at *
  obtain ⟨trustee, p'⟩ := found
  dsimp only at hvol hfound ⊢
  unfold readIdTrustee at hfound
  cases hfind : (readTrustees (s.trusteeDir stb.id).entries 0).2.find?
      (·.id = p.vol.trusteeId) with
  | none =>
      rw [hfind] at hfound
      rw [hfound, if_neg (by decide), hvol]
      simp
  | some e =>
      rw [hfind] at hfound
      have hpos : trustee > -1 := by
        rw [hfound, Option.map_some, Option.getD_some]
        omega
      rw [if_pos hpos, hfound]
      show p'.vol.add _ _ = _
      rw [hvol]
      rfl

/-- A scan that starts with the number of the store lists all links as the store has them. -/
theorem Coherent.scan_vol (h : Coherent volume s p) (actTime : Int)
    (hoption : (w.world.tree volume).options.trustees = true)
    (hsernum : p.vol.trusteeSernum = s.sernum) {links : List (List (List UInt8) × List UInt8)}
    (hleads : ∀ l ∈ links, Leads w volume s l.2) :
    ∃ time, (links.foldl (fun p l => MarsNwe.scanLink w volume actTime s p l.2) p).vol =
      { p.vol with
        trustees := p.vol.trustees ++
          links.filterMap fun l =>
            listedAt w volume s p.vol.trusteeId p.vol.trusteeNamespace l.2
        trusteeLastTestTime := time } := by
  induction links generalizing p with
  | nil => exact ⟨p.vol.trusteeLastTestTime, by simp⟩
  | cons l links ih =>
      obtain ⟨hleads, hrest⟩ := List.forall_mem_cons.mp hleads
      obtain ⟨time, htest⟩ : ∃ time, volTrusteesWereChanged volume actTime s p =
          (false, { p with vol := { p.vol with trusteeLastTestTime := time } }) := by
        rcases volTrusteesWereChanged_cases volume actTime s p with
          ⟨-, hchanged, -⟩ | ⟨-, time, htest⟩
        · exact absurd hsernum hchanged
        · exact ⟨time, htest⟩
      have hvol := h.scanLink_vol actTime hoption hleads (by rw [htest]; exact hsernum)
      rw [htest] at hvol
      dsimp only at hvol
      obtain ⟨time', hscan⟩ := ih (h.scanLink actTime l.2 hoption) (by rw [hvol]; exact hsernum)
        hrest
      refine ⟨time', ?_⟩
      rw [List.foldl_cons, hscan, hvol, List.filterMap_cons]
      dsimp only
      cases listedAt w volume s p.vol.trusteeId p.vol.trusteeNamespace l.2 with
      | none => simp
      | some tr => simp

/-- No file has an entry for the id 0. -/
theorem listedAt_zero (namespaceNr : Int) (target : List UInt8) :
    listedAt w volume s 0 namespaceNr target = none := by
  unfold listedAt
  cases (w.world.tree volume).stat (.ofBytes target) with
  | none => rfl
  | some stb =>
      have hnone : (readTrustees (s.trusteeDir stb.id).entries 0).2.find? (·.id = 0) = none :=
        List.find?_eq_none.mpr fun e he hzero =>
          (mem_readTrustees he).2 (of_decide_eq_true hzero)
      rw [Option.bind_some, hnone]
      rfl

/-- A scan whose first lookup finds the number changed lists no more than the first link:
the others are looked up for the id 0. -/
theorem Coherent.scan_stale (h : Coherent volume s p) {actTime : Int}
    (hoption : (w.world.tree volume).options.trustees = true)
    (hdue : actTime > p.vol.trusteeLastTestTime + 60) (hsernum : p.vol.trusteeSernum ≠ s.sernum)
    {l : List (List UInt8) × List UInt8} {links : List (List (List UInt8) × List UInt8)}
    (hleads : ∀ l' ∈ l :: links, Leads w volume s l'.2) :
    ∃ time, ((l :: links).foldl (fun p l => MarsNwe.scanLink w volume actTime s p l.2) p).vol =
      ⟨(listedAt w volume s p.vol.trusteeId p.vol.trusteeNamespace l.2).toList, 0,
        p.vol.trusteeNamespace, s.sernum, time⟩ := by
  obtain ⟨hleads, hrest⟩ := List.forall_mem_cons.mp hleads
  have htest : volTrusteesWereChanged volume actTime s p =
      (true, ⟨{ p.vol.free with trusteeSernum := s.sernum },
        truFreeCache (some volume) p.cache⟩) := by
    rcases volTrusteesWereChanged_cases volume actTime s p with ⟨-, -, htest⟩ | ⟨hnot, -⟩
    · exact htest
    · exact absurd ⟨hdue, hsernum⟩ hnot
  have hvol := h.scanLink_vol actTime hoption hleads (by rw [htest])
  rw [htest] at hvol
  dsimp only [VolTrustees.free] at hvol
  rw [List.nil_append] at hvol
  obtain ⟨time, hscan⟩ := (h.scanLink actTime l.2 hoption).scan_vol actTime hoption
    (by rw [hvol]) hrest
  refine ⟨time, ?_⟩
  rw [List.foldl_cons, hscan, hvol]
  dsimp only
  simp only [listedAt_zero]
  simp

/-! ## The calls -/

theorem Coherent.build (h : Coherent volume s p) (actTime : Int) (id : UInt32)
    (namespaceNr : Int) (hoption : (w.world.tree volume).options.trustees = true) :
    Coherent volume s (buildVolumeUserTrustee w volume actTime s p id namespaceNr) :=
  Coherent.scan (p := { p with vol := { p.vol.free with
    trusteeId := id, trusteeNamespace := namespaceNr } }) h actTime _ hoption

/-- All calls for a list keep the nodes coherent. -/
theorem Coherent.list (h : Coherent volume s p) (w : ScanWorld) (actTime : Int) (id : UInt32)
    (namespaceNr : Int) (sequence : Nat) :
    Coherent volume s
      (getVolumeUserTrustee w volume actTime s p id namespaceNr sequence).2.2 := by
  unfold getVolumeUserTrustee
  split
  next hoption =>
    have htested := h.test actTime
    generalize volTrusteesWereChanged volume actTime s p = tested at *
    obtain ⟨changed, p'⟩ := tested
    dsimp only
    split
    · exact Coherent.build htested actTime id namespaceNr hoption
    · exact htested
  next => exact h

/-- The list of an id as the store has it. -/
def storeList (w : ScanWorld) (volume : Nat) (s : TrusteeStore) (id : UInt32)
    (namespaceNr : Int) : List VolumeTrustee :=
  (scannedLinks s).filterMap fun l => listedAt w volume s id namespaceNr l.2

/-- The number of the store is remembered, and a list for the id is that of the store. -/
structure ListReady (w : ScanWorld) (volume : Nat) (s : TrusteeStore) (id : UInt32)
    (namespaceNr : Int) (sequence : Nat) (p : TrusteeProcess) : Prop where
  coherent : Coherent volume s p
  sernum : p.vol.trusteeSernum = s.sernum
  list : sequence ≠ 0 → id = p.vol.trusteeId → namespaceNr = p.vol.trusteeNamespace →
    p.vol.trustees = storeList w volume s id namespaceNr

variable {id : UInt32} {namespaceNr : Int} {sequence : Nat}

/-- A call before which the process remembers the number of the store, or finds it changed. -/
theorem Coherent.list_eq (h : Coherent volume s p) (actTime : Int) (id : UInt32)
    (namespaceNr : Int) (sequence : Nat)
    (hoption : (w.world.tree volume).options.trustees = true)
    (hleads : ∀ l ∈ scannedLinks s, Leads w volume s l.2)
    (hsernum : p.vol.trusteeSernum = s.sernum ∨ actTime > p.vol.trusteeLastTestTime + 60)
    (hlist : p.vol.trusteeSernum = s.sernum → sequence ≠ 0 → id = p.vol.trusteeId →
      namespaceNr = p.vol.trusteeNamespace →
        p.vol.trustees = storeList w volume s id namespaceNr) :
    ∃ p', getVolumeUserTrustee w volume actTime s p id namespaceNr sequence =
        ((storeList w volume s id namespaceNr)[sequence]?.map w.answer, sequence + 1, p') ∧
      ∀ sequence', ListReady w volume s id namespaceNr sequence' p' := by
  have htested := h.test actTime
  have hbuilt : ∀ p' : TrusteeProcess, Coherent volume s p' → p'.vol.trusteeSernum = s.sernum →
      (buildVolumeUserTrustee w volume actTime s p' id namespaceNr).vol.trustees =
        storeList w volume s id namespaceNr ∧
      ∀ sequence', ListReady w volume s id namespaceNr sequence'
        (buildVolumeUserTrustee w volume actTime s p' id namespaceNr) := by
    intro p' hp' hsernum'
    have hkept := hp'.build actTime id namespaceNr hoption
    obtain ⟨time, hvol⟩ := Coherent.scan_vol (p := { p' with vol := { p'.vol.free with
      trusteeId := id, trusteeNamespace := namespaceNr } }) hp' actTime hoption hsernum' hleads
    have hvol : (buildVolumeUserTrustee w volume actTime s p' id namespaceNr).vol =
        ⟨storeList w volume s id namespaceNr, id, namespaceNr, p'.vol.trusteeSernum, time⟩ := hvol
    have htrustees := congrArg VolTrustees.trustees hvol
    refine ⟨htrustees, fun sequence' => ⟨hkept, ?_, fun _ _ _ => htrustees⟩⟩
    rw [hvol]
    exact hsernum'
  unfold getVolumeUserTrustee
  rw [if_pos hoption]
  rcases volTrusteesWereChanged_cases volume actTime s p with
    ⟨-, -, htest⟩ | ⟨hnot, time, htest⟩
  · rw [htest] at htested ⊢
    dsimp only
    rw [if_pos (.inl rfl)]
    obtain ⟨htrustees, hready⟩ := hbuilt _ htested rfl
    exact ⟨_, by rw [htrustees], hready⟩
  · have hsernum : p.vol.trusteeSernum = s.sernum :=
      Classical.byContradiction fun hne => hnot ⟨hsernum.resolve_left hne, hne⟩
    rw [htest] at htested ⊢
    dsimp only
    split
    next =>
      obtain ⟨htrustees, hready⟩ := hbuilt _ htested hsernum
      exact ⟨_, by rw [htrustees], hready⟩
    next hkeep =>
      simp only [Bool.false_eq_true, false_or, not_or, ne_eq, not_not] at hkeep
      obtain ⟨hsequence, hid, hnamespace⟩ := hkeep
      have htrustees := hlist hsernum hsequence hid hnamespace
      exact ⟨_, by rw [← htrustees], fun sequence' => ⟨htested, hsernum, fun _ _ _ => htrustees⟩⟩

/-- A call that answers the next entry of the list, before calls that answer those behind
it. -/
theorem enumerates_of_call {clock : Nat → Int} {calls : Nat} {p' : TrusteeProcess}
    {rest : List VolumeTrustee}
    (hcall : getVolumeUserTrustee w volume (clock calls) s p id namespaceNr sequence =
      (rest.head?.map w.answer, sequence + 1, p'))
    (htail : rest ≠ [] → (userTrusteeMachine w volume s id namespaceNr clock).Enumerates
      (calls + 1, p') (sequence + 1) (rest.tail.map w.answer)) :
    (userTrusteeMachine w volume s id namespaceNr clock).Enumerates (calls, p) sequence
      (rest.map w.answer) := by
  have hstep : (userTrusteeMachine w volume s id namespaceNr clock).step (calls, p) sequence =
      ((rest.head?.map w.answer).map (·, sequence + 1), calls + 1, p') := by
    simp only [userTrusteeMachine, hcall]
  cases rest with
  | nil =>
      show ((userTrusteeMachine w volume s id namespaceNr clock).step (calls, p) sequence).1 = none
      rw [hstep]
      rfl
  | cons tr rest =>
      refine ⟨sequence + 1, by rw [hstep]; rfl, ?_⟩
      rw [hstep]
      exact htail (List.cons_ne_nil tr rest)

/-- From a state that is ready for it, the rest of the list is answered. -/
theorem ListReady.enumerates (hoption : (w.world.tree volume).options.trustees = true)
    (hleads : ∀ l ∈ scannedLinks s, Leads w volume s l.2) {clock : Nat → Int} {calls : Nat}
    {rest : List VolumeTrustee}
    (hrest : (storeList w volume s id namespaceNr).drop sequence = rest)
    (h : ListReady w volume s id namespaceNr sequence p) :
    (userTrusteeMachine w volume s id namespaceNr clock).Enumerates (calls, p) sequence
      (rest.map w.answer) := by
  induction rest generalizing sequence calls p with
  | nil =>
      obtain ⟨p', hcall, -⟩ := h.coherent.list_eq (clock calls) id namespaceNr sequence
        hoption hleads (.inl h.sernum) fun _ => h.list
      rw [← List.head?_drop, hrest] at hcall
      exact enumerates_of_call hcall fun hne => absurd rfl hne
  | cons tr rest ih =>
      obtain ⟨p', hcall, hready⟩ := h.coherent.list_eq (clock calls) id namespaceNr sequence
        hoption hleads (.inl h.sernum) fun _ => h.list
      rw [← List.head?_drop, hrest] at hcall
      refine enumerates_of_call hcall fun _ => ih ?_ (hready (sequence + 1))
      rw [← List.tail_drop, hrest, List.tail_cons]

/-- A first call that finds the number changed only at its first lookup. -/
theorem Coherent.list_stale (h : Coherent volume s p) {actTime : Int} (id : UInt32)
    (namespaceNr : Int)
    (hoption : (w.world.tree volume).options.trustees = true)
    (hleads : ∀ l ∈ scannedLinks s, Leads w volume s l.2)
    (hkept : ¬actTime > p.vol.trusteeLastTestTime + 60) (hsernum : p.vol.trusteeSernum ≠ s.sernum)
    (hclock : 60 < actTime) :
    ∃ p', getVolumeUserTrustee w volume actTime s p id namespaceNr 0 =
        (((scannedLinks s).head?.bind fun l => listedAt w volume s id namespaceNr l.2).map w.answer,
          1, p') ∧
      (id ≠ 0 → scannedLinks s ≠ [] → ListReady w volume s id namespaceNr 1 p') := by
  obtain ⟨time, htest⟩ : ∃ time, volTrusteesWereChanged volume actTime s p =
      (false, { p with vol := { p.vol with trusteeLastTestTime := time } }) := by
    rcases volTrusteesWereChanged_cases volume actTime s p with
      ⟨hdue, -, -⟩ | ⟨-, time, htest⟩
    · exact absurd hdue hkept
    · exact ⟨time, htest⟩
  have hcall : getVolumeUserTrustee w volume actTime s p id namespaceNr 0 =
      ((buildVolumeUserTrustee w volume actTime s p id namespaceNr).vol.trustees[0]?.map w.answer,
        1, buildVolumeUserTrustee w volume actTime s p id namespaceNr) := by
    unfold getVolumeUserTrustee
    rw [if_pos hoption, htest]
    dsimp only
    rw [if_pos (.inr (.inl rfl))]
    rfl
  have hcoherent := h.build actTime id namespaceNr hoption
  cases hlinks : scannedLinks s with
  | nil =>
      have hvol :
          (buildVolumeUserTrustee w volume actTime s p id namespaceNr).vol.trustees = [] := by
        unfold buildVolumeUserTrustee volTrusteeScan
        rw [hlinks]
        rfl
      rw [hvol] at hcall
      exact ⟨_, hcall, fun _ hne => absurd rfl hne⟩
  | cons l links =>
      obtain ⟨time, hscan⟩ := Coherent.scan_stale (p := { p with vol := { p.vol.free with
        trusteeId := id, trusteeNamespace := namespaceNr } }) h hoption
        (by simpa [VolTrustees.free] using hclock) hsernum (hlinks ▸ hleads)
      have hvol : (buildVolumeUserTrustee w volume actTime s p id namespaceNr).vol =
          ⟨(listedAt w volume s id namespaceNr l.2).toList, 0, namespaceNr, s.sernum, time⟩ := by
        unfold buildVolumeUserTrustee volTrusteeScan
        rw [hlinks]
        exact hscan
      refine ⟨_, ?_, fun hid _ => ⟨hcoherent, congrArg VolTrustees.trusteeSernum hvol, ?_⟩⟩
      · rw [hcall, hvol, List.head?_cons, Option.bind_some]
        cases listedAt w volume s id namespaceNr l.2 <;> rfl
      · rw [hvol]
        exact fun _ hzero => absurd hzero hid

/-! ## The targets -/

variable {S : Set FileNumbers} {t : Targets}

theorem isStoreDir_hexText (n : Nat) : isStoreDir (hexText n) = true := by
  have hhead : ∀ c : Char, hexValue (chr c) = none → (hexText n).head? ≠ some (chr c) := by
    intro c hc hhead
    obtain ⟨d, hd, hdigit⟩ := mem_hex (List.mem_of_head? hhead)
    have hvalue := (hexDigit_spec hd).1
    rw [← hdigit] at hvalue
    cases hc.symm.trans hvalue
  exact decide_eq_true ⟨hhead 't' (by decide), hhead '.' (by decide), hhead 'n' (by decide)⟩

/-- The links of names are read by the scan, and no others. -/
theorem mem_scannedLinks {l : List (List UInt8) × List UInt8} :
    l ∈ scannedLinks s ↔ l ∈ s.links ∧ ∃ id path, l = (namePath id, path) := by
  unfold scannedLinks
  rw [mem_walk]
  refine and_congr_right fun hl => ⟨fun hwalk => ?_, fun hname => ?_⟩
  · obtain ⟨names, c, hpath, hnames, hpick, -⟩ := hwalk
    rw [List.nil_append] at hpath
    have hstored := s.stored l hl
    cases hstored with
    | trustee id e =>
        obtain ⟨rfl, -⟩ := List.append_inj' hpath rfl
        have hdir := hnames (chr 't' :: chr '.' :: hexText (id.ino.toNat % 256))
          (by simp [trusteePath, storePath])
        cases hdir
    | name id path => exact ⟨id, path, rfl⟩
    | sernum n =>
        have hpath : [] ++ [[chr 't', chr 's']] = names ++ [c] := hpath
        obtain ⟨-, hlast⟩ := List.append_inj' hpath rfl
        rw [← (List.cons.inj hlast).1] at hpick
        cases hpick
  · obtain ⟨id, path, rfl⟩ := hname
    refine ⟨[hexText id.dev.toNat, hexText (id.ino.toNat / 2 ^ 24),
      hexText (id.ino.toNat / 2 ^ 16 % 256), hexText (id.ino.toNat / 2 ^ 8 % 256)],
      chr 'n' :: chr '.' :: hexText (id.ino.toNat % 256), rfl, ?_, rfl, ?_⟩
    · simp [isStoreDir_hexText]
    · exact length_le_height hl

theorem NamesHeld.mem_scannedLinks (h : NamesHeld S s t.names)
    {l : List (List UInt8) × List UInt8} :
    l ∈ scannedLinks s ↔ ∃ file path, t.names file = some path ∧ l = (namePath file.id, path) := by
  rw [MarsNwe.mem_scannedLinks]
  constructor
  · rintro ⟨hl, id, path, rfl⟩
    obtain ⟨file, rfl, hname⟩ := (h.links id path).mp hl
    exact ⟨file, path, hname, rfl⟩
  · rintro ⟨file, path, hname, rfl⟩
    exact ⟨(h.links file.id path).mpr ⟨file, rfl, hname⟩, file.id, path, rfl⟩

/-- The volume has trustees; the targets are found under their names, which are not longer
than are read, and have no more entries than a node has room for. -/
structure TargetsThere (w : ScanWorld) (volume : Nat) (t : Targets) : Prop where
  option : (w.world.tree volume).options.trustees = true
  stat : ∀ file path, t.names file = some path →
    ∃ stb, (w.world.tree volume).stat (.ofBytes path) = some stb ∧ stb.id = file.id
  length : ∀ file path, t.names file = some path → path ≠ [] ∧ path.length ≤ 254
  fits : ∀ file path, t.names file = some path → t.force.FitsNode file

theorem TargetsThere.leads (h : TargetsThere w volume t) (hnames : NamesHeld S s t.names) :
    ∀ l ∈ scannedLinks s, Leads w volume s l.2 := by
  intro l hl
  obtain ⟨file, path, hname, rfl⟩ := hnames.mem_scannedLinks.mp hl
  obtain ⟨stb, hstat, hid⟩ := h.stat file path hname
  obtain ⟨hne, hlen⟩ := h.length file path hname
  refine ⟨hne, hlen, stb, hstat, path, ?_⟩
  exact (hnames.links stb.id path).mpr ⟨file, hid.symm, hname⟩

/-- A target is listed with the rights of its entry. -/
theorem TargetsThere.listedAt (h : TargetsThere w volume t) (hs : Represents S s t.force)
    (hnames : NamesHeld S s t.names) {file : FileNumbers} {path : List UInt8}
    (hname : t.names file = some path) (id : UInt32) (namespaceNr : Int) :
    listedAt w volume s id namespaceNr path =
      (t.force.entries file id).map fun rights =>
        ⟨rights.toNat, w.listedPath namespaceNr path⟩ := by
  obtain ⟨stb, hstat, hid⟩ := h.stat file path hname
  have hfile := hnames.mem file path hname
  have hread := readTrustees_of_fits (s.trusteeDir file.id).nodup
    (hs.length_entries_le hfile (h.fits file path hname))
  have hfind : ((readTrustees (s.trusteeDir file.id).entries 0).2.find? (·.id = id)).map
      IdsTrustee.trustee = t.force.entries file id := by
    rw [hread, List.find?_filter]
    by_cases hzero : id = 0
    · rw [hzero, hs.entries_zero, Option.map_eq_none_iff, List.find?_eq_none]
      intro e _
      simp
    · have hheld := hs.held file hfile id
      rw [if_neg hzero] at hheld
      rw [← hheld]
      unfold TrusteeDir.get?
      congr 2
      funext e
      by_cases he : e.id = id
      · simp [he, hzero]
      · simp [he]
  unfold MarsNwe.listedAt
  rw [hstat, Option.bind_some, hid, ← hfind, Option.map_map]
  rfl

/-- The list of the store has the targets with an entry, each once. -/
theorem TargetsThere.storeList (h : TargetsThere w volume t) (hs : Represents S s t.force)
    (hnames : NamesHeld S s t.names) (hS : Set.InjOn FileNumbers.id S) (id : UInt32)
    (namespaceNr : Int) :
    ∃ found : List (FileNumbers × List UInt8 × Rights), found.Nodup ∧
      (∀ file path rights, (file, path, rights) ∈ found ↔
        t.names file = some path ∧ t.force.entries file id = some rights) ∧
      storeList w volume s id namespaceNr = found.map fun target =>
        ⟨target.2.2.toNat, w.listedPath namespaceNr target.2.1⟩ := by
  have hlist : ∀ links : List (List (List UInt8) × List UInt8), links.Nodup →
      (∀ l ∈ links, ∃ file path, t.names file = some path ∧ l = (namePath file.id, path)) →
      ∃ found : List (FileNumbers × List UInt8 × Rights), found.Nodup ∧
        (∀ file path rights, (file, path, rights) ∈ found ↔
          (namePath file.id, path) ∈ links ∧
            t.names file = some path ∧ t.force.entries file id = some rights) ∧
        links.filterMap (fun l => MarsNwe.listedAt w volume s id namespaceNr l.2) =
          found.map fun target => ⟨target.2.2.toNat, w.listedPath namespaceNr target.2.1⟩ := by
    intro links hnodup hlinks
    induction links with
    | nil => exact ⟨[], List.nodup_nil, fun _ _ _ => by simp, rfl⟩
    | cons l links ih =>
        obtain ⟨hnew, htail⟩ := List.nodup_cons.mp hnodup
        obtain ⟨⟨file, path, hname, rfl⟩, hrest⟩ := List.forall_mem_cons.mp hlinks
        obtain ⟨found, hfound, hmem, heq⟩ := ih htail hrest
        rw [List.filterMap_cons, h.listedAt hs hnames hname]
        -- a link of the list belongs to one file only
        have hsame : ∀ file' path', t.names file' = some path' →
            (namePath file'.id, path') = (namePath file.id, path) → file' = file := by
          intro file' path' hname' hlink
          have hid := TrusteeStore.namePath_inj.mp (Prod.mk.inj hlink).1
          exact hS (hnames.mem file' path' hname') (hnames.mem file path hname) hid
        cases hentry : t.force.entries file id with
        | none =>
            refine ⟨found, hfound, fun file' path' rights => ?_, heq⟩
            rw [hmem, List.mem_cons]
            refine ⟨fun hin => ⟨.inr hin.1, hin.2⟩, fun hin => ⟨hin.1.resolve_left ?_, hin.2⟩⟩
            intro hlink
            have hheld := hin.2.2
            rw [hsame file' path' hin.2.1 hlink, hentry] at hheld
            contradiction
        | some rights =>
            refine ⟨(file, path, rights) :: found, ?_, fun file' path' rights' => ?_, ?_⟩
            · refine List.nodup_cons.mpr ⟨fun hin => ?_, hfound⟩
              exact hnew ((hmem file path rights).mp hin).1
            · rw [List.mem_cons, hmem, List.mem_cons]
              constructor
              · rintro (hhead | hin)
                · obtain ⟨rfl, hpair⟩ := Prod.mk.inj hhead
                  obtain ⟨rfl, rfl⟩ := Prod.mk.inj hpair
                  exact ⟨.inl rfl, hname, hentry⟩
                · exact ⟨.inr hin.1, hin.2⟩
              · rintro ⟨hlink | hlink, hname', hheld⟩
                · obtain rfl := hsame file' path' hname' hlink
                  rw [hname] at hname'
                  rw [hentry] at hheld
                  rw [Option.some.inj hname', Option.some.inj hheld]
                  exact .inl rfl
                · exact .inr ⟨hlink, hname', hheld⟩
            · rw [List.map_cons, ← heq]
              rfl
  obtain ⟨found, hfound, hmem, heq⟩ := hlist (scannedLinks s) (nodup_walk _ _ _ _ _)
    fun l hl => hnames.mem_scannedLinks.mp hl
  refine ⟨found, hfound, fun file path rights => ?_, heq⟩
  rw [hmem]
  refine and_iff_right_of_imp fun hin => ?_
  exact hnames.mem_scannedLinks.mpr ⟨file, path, hin.1, rfl⟩

end Scan

/-! ## Histories -/

/-- What an event must meet: the changes keep to some files and to ids of trustees, and a
change by another process does not bring the serial number back to the one remembered. -/
def ScanEvent.Steady (S : Set FileNumbers) (sys : ScanSystem) : ScanEvent → Prop
  | .own call => call.Plain S
  | .other call => call.Plain S ∧ sys.store.sernumAfter ≠ sys.process.vol.trusteeSernum
  | .freeFile file => file ∈ S
  | _ => True

/-- All events of a history do. -/
def ScanSystem.SteadyAlong (base : Nat) (place : TrusteeStore → Nat) (volume : Nat)
    (S : Set FileNumbers) : ScanSystem → List ScanEvent → Prop
  | _, [] => True
  | sys, e :: history => e.Steady S sys ∧ ∀ sys', sys.step base place volume e = some sys' →
      SteadyAlong base place volume S sys' history

/-- The store holds what is in force and the names of the targets, and the process has
nodes of it. -/
structure ScanSystem.Holds (S : Set FileNumbers) (volume : Nat) (sys : ScanSystem)
    (t : Targets) : Prop where
  represents : Represents S sys.store t.force
  names : NamesHeld S sys.store t.names
  coherent : Coherent volume sys.store sys.process

section Histories

variable {S : Set FileNumbers} {volume base : Nat} {place : TrusteeStore → Nat}
  {sys : ScanSystem} {t : Targets}

theorem TrusteeStore.eq_of_links {s s' : TrusteeStore} (h : s'.links = s.links) : s' = s := by
  cases s
  cases s'
  cases h
  rfl

theorem textLength_trusteePath_le (hbase : base ≤ 223) (id : FileId) :
    textLength base (trusteePath id) ≤ 255 := textLength_namePath_le hbase id

theorem Coherent.freeFile {s : TrusteeStore} {p : TrusteeProcess} (h : Coherent volume s p)
    (id : FileId) : Coherent volume (s.freeFile id) p := by
  intro hsernum tr htr hvolume ⟨path, hlink⟩
  rw [TrusteeStore.sernum_freeFile] at hsernum
  obtain ⟨hother, hlink⟩ := (TrusteeStore.names_freeFile id tr.id path).mp hlink
  rw [TrusteeStore.entries_freeFile hother]
  exact h hsernum tr htr hvolume ⟨path, hlink⟩

/-- One event. -/
theorem ScanSystem.Holds.step (h : sys.Holds S volume t) (place : TrusteeStore → Nat)
    (hS : Set.InjOn FileNumbers.id S) (hbase : base ≤ 223) {e : ScanEvent} (he : e.Steady S sys) :
    ∃ sys', sys.step base place volume e = some sys' ∧ sys'.Holds S volume (t.event e) := by
  obtain ⟨hforce, hnames, hnodes⟩ := h
  cases e with
  | own call =>
      obtain ⟨s', hcall, hforce'⟩ := hforce.call place hS hbase he
      have hnames' := hnames.call hS he hcall
      simp only [ScanSystem.step, hcall, Option.map_some]
      refine ⟨_, rfl, ?_⟩
      rcases TrusteeStore.sernum_call hcall with ⟨hchanges, -⟩ | ⟨hchanges, hlinks⟩
      · rw [if_pos hchanges]
        exact ⟨hforce', hnames', fun _ => linkedRead_free s' _⟩
      · rw [if_neg (by rw [hchanges]; exact Bool.false_ne_true)]
        obtain rfl := TrusteeStore.eq_of_links hlinks
        exact ⟨hforce', hnames', hnodes⟩
  | other call =>
      obtain ⟨hplain, hnumber⟩ := he
      obtain ⟨s', hcall, hforce'⟩ := hforce.call place hS hbase hplain
      have hnames' := hnames.call hS hplain hcall
      simp only [ScanSystem.step, hcall, Option.map_some]
      refine ⟨_, rfl, hforce', hnames', ?_⟩
      rcases TrusteeStore.sernum_call hcall with ⟨-, hsernum⟩ | ⟨-, hlinks⟩
      · exact fun hremembered => absurd (hsernum.symm.trans hremembered.symm) hnumber
      · obtain rfl := TrusteeStore.eq_of_links hlinks
        exact hnodes
  | freeFile file =>
      have hfits : textLength base (trusteePath file.id) ≤ 255 ∧
          textLength base (namePath file.id) ≤ 255 :=
        ⟨textLength_trusteePath_le hbase file.id, textLength_namePath_le hbase file.id⟩
      simp only [ScanSystem.step, TrusteeStore.truFreeFileTrusteesFromDisk, if_pos hfits,
        Option.map_some]
      exact ⟨_, rfl, hforce.freeFile hS he, hnames.freeFile hS he, hnodes.freeFile file.id⟩
  | test actTime => exact ⟨_, rfl, hforce, hnames, hnodes.test actTime⟩
  | ask world call =>
      refine ⟨_, rfl, hforce, hnames, fun hsernum => ?_⟩
      exact (hnodes hsernum).step linkedRead_withStore call
  | scan w actTime id namespaceNr sequence =>
      exact ⟨_, rfl, hforce, hnames, hnodes.list w actTime id namespaceNr sequence⟩

/-- A whole history. -/
theorem ScanSystem.Holds.run (h : sys.Holds S volume t) (hS : Set.InjOn FileNumbers.id S)
    (hbase : base ≤ 223) {history : List ScanEvent}
    (hsteady : sys.SteadyAlong base place volume S history) :
    ∃ sys', sys.run base place volume history = some sys' ∧
      sys'.Holds S volume (history.foldl Targets.event t) := by
  induction history generalizing sys t with
  | nil => exact ⟨sys, rfl, h⟩
  | cons e history ih =>
      obtain ⟨he, hrest⟩ := hsteady
      obtain ⟨sys', hstep, hsys'⟩ := h.step place hS hbase he
      obtain ⟨sys'', hrun, hsys''⟩ := ih hsys' (hrest sys' hstep)
      refine ⟨sys'', ?_, hsys''⟩
      unfold ScanSystem.run
      rw [List.foldlM_cons, hstep]
      exact hrun

theorem ScanSystem.start_holds (S : Set FileNumbers) (volume : Nat) :
    ScanSystem.start.Holds S volume .none := by
  refine ⟨represents_empty S, ⟨fun id path => ?_, fun file path hname => ?_⟩, fun _ => ?_⟩
  · refine iff_of_false List.not_mem_nil ?_
    rintro ⟨file, -, hname⟩
    cases hname
  · cases hname
  · exact NodesHold.empty

end Histories

/-! ## The condition -/

/-- When the paths of an id are listed to the end: the first call tests the serial number,
or the number remembered is that of the store, or no target has an entry for the id, or the
target that the scan comes to first has one. -/
def ListsAll (sys : ScanSystem) (t : Targets) (id : UInt32) (actTime : Int) : Prop :=
  actTime > sys.process.vol.trusteeLastTestTime + 60 ∨
    sys.process.vol.trusteeSernum = sys.store.sernum ∨
    (∀ file path, t.names file = some path → t.force.entries file id = none) ∨
    ∃ file path links, scannedLinks sys.store = (namePath file.id, path) :: links ∧
      t.names file = some path ∧ (t.force.entries file id).isSome

section Condition

variable {S : Set FileNumbers} {volume : Nat} {sys : ScanSystem} {t : Targets} {w : ScanWorld}
  {id : UInt32} {namespaceNr : Int} {clock : Nat → Int}

/-- Under the condition the list of the store is answered from its start. -/
theorem ScanSystem.Holds.enumerates (h : sys.Holds S volume t) (hthere : TargetsThere w volume t)
    (namespaceNr : Int) (hclock : 60 < clock 0) (hall : ListsAll sys t id (clock 0)) :
    (userTrusteeMachine w volume sys.store id namespaceNr clock).Enumerates (0, sys.process) 0
      ((storeList w volume sys.store id namespaceNr).map w.answer) := by
  have hleads := hthere.leads h.names
  by_cases hgood : sys.process.vol.trusteeSernum = sys.store.sernum ∨
      clock 0 > sys.process.vol.trusteeLastTestTime + 60
  · obtain ⟨p', hcall, hready⟩ := h.coherent.list_eq (clock 0) id namespaceNr 0
      hthere.option hleads hgood fun _ hzero => absurd rfl hzero
    rw [← List.head?_eq_getElem?] at hcall
    refine enumerates_of_call hcall fun _ => (hready 1).enumerates hthere.option hleads ?_
    exact List.drop_one
  · obtain ⟨hsernum, hkept⟩ := not_or.mp hgood
    obtain ⟨p', hcall, hready⟩ := h.coherent.list_stale id namespaceNr
      hthere.option hleads hkept hsernum hclock
    rcases (hall.resolve_left hkept).resolve_left hsernum with
      hnone | ⟨file, path, links, hlinks, hname, hheld⟩
    · have hlisted : ∀ l ∈ scannedLinks sys.store,
          listedAt w volume sys.store id namespaceNr l.2 = none := by
        intro l hl
        obtain ⟨file, path, hname, rfl⟩ := h.names.mem_scannedLinks.mp hl
        rw [hthere.listedAt h.represents h.names hname, hnone file path hname]
        rfl
      have hempty : storeList w volume sys.store id namespaceNr = [] :=
        List.filterMap_eq_nil_iff.mpr hlisted
      have hfirst : ((scannedLinks sys.store).head?.bind fun l =>
          listedAt w volume sys.store id namespaceNr l.2) = none :=
        Option.bind_eq_none_iff.mpr fun l hl => hlisted l (List.mem_of_head? hl)
      rw [hfirst] at hcall
      rw [hempty]
      exact enumerates_of_call hcall fun hne => absurd rfl hne
    · have hlisted := hthere.listedAt h.represents h.names hname id namespaceNr
      obtain ⟨rights, hrights⟩ := Option.isSome_iff_exists.mp hheld
      rw [hrights, Option.map_some] at hlisted
      have hid : id ≠ 0 := by
        rintro rfl
        rw [h.represents.entries_zero] at hrights
        contradiction
      have hlist : (storeList w volume sys.store id namespaceNr).head? =
          (scannedLinks sys.store).head?.bind fun l =>
            listedAt w volume sys.store id namespaceNr l.2 := by
        unfold storeList
        rw [hlinks, List.filterMap_cons, List.head?_cons, Option.bind_some, hlisted]
        rfl
      rw [← hlist] at hcall
      refine enumerates_of_call hcall fun _ => ?_
      refine (hready hid ?_).enumerates hthere.option hleads List.drop_one
      rw [hlinks]
      exact List.cons_ne_nil _ _

/-- Without it the first call finds nothing, though there is something. -/
theorem ScanSystem.Holds.first_none (h : sys.Holds S volume t) (hthere : TargetsThere w volume t)
    (namespaceNr : Int) (hclock : 60 < clock 0) (hnot : ¬ListsAll sys t id (clock 0)) :
    (getVolumeUserTrustee w volume (clock 0) sys.store sys.process id namespaceNr 0).1 = none ∧
      ∃ file path rights, t.names file = some path ∧ t.force.entries file id = some rights := by
  unfold ListsAll at hnot
  simp only [not_or] at hnot
  obtain ⟨hkept, hsernum, hsome, hfirst⟩ := hnot
  obtain ⟨p', hcall, -⟩ := h.coherent.list_stale id namespaceNr
    hthere.option (hthere.leads h.names) hkept hsernum hclock
  constructor
  · rw [hcall, Option.map_eq_none_iff, Option.bind_eq_none_iff]
    intro l hl
    obtain ⟨file, path, hname, rfl⟩ := h.names.mem_scannedLinks.mp (List.mem_of_head? hl)
    rw [hthere.listedAt h.represents h.names hname, Option.map_eq_none_iff]
    refine Option.not_isSome_iff_eq_none.mp fun hheld => hfirst ⟨file, path, ?_⟩
    obtain ⟨links, hlinks⟩ := List.head?_eq_some_iff.mp hl
    exact ⟨links, hlinks, hname, hheld⟩
  · refine Classical.byContradiction fun hnone => hsome fun file path hname => ?_
    cases hentry : t.force.entries file id with
    | none => rfl
    | some rights => exact absurd ⟨file, path, rights, hname, hentry⟩ hnone

/-- What holds after a history decides whether all is listed. -/
theorem ScanSystem.Holds.listsTargets_iff (h : sys.Holds S volume t)
    (hS : Set.InjOn FileNumbers.id S) (hthere : TargetsThere w volume t)
    (hclock : 60 < clock 0) :
    ListsTargets w volume sys t id namespaceNr clock ↔ ListsAll sys t id (clock 0) := by
  constructor
  · rintro ⟨found, -, hmem, henum⟩
    refine Classical.byContradiction fun hnot => ?_
    obtain ⟨hfirst, file, path, rights, hname, hentry⟩ :=
      h.first_none hthere namespaceNr hclock hnot
    have hin := (hmem file path rights).mpr ⟨hname, hentry⟩
    cases found with
    | nil => exact List.not_mem_nil hin
    | cons target found =>
        obtain ⟨sequence, hanswer, -⟩ := henum
        have hnone : ((userTrusteeMachine w volume sys.store id namespaceNr clock).step
            (0, sys.process) 0).1 = none := congrArg (Option.map _) hfirst
        rw [hnone] at hanswer
        contradiction
  · intro hall
    obtain ⟨found, hnodup, hmem, heq⟩ :=
      hthere.storeList h.represents h.names hS id namespaceNr
    have henum := h.enumerates hthere namespaceNr hclock hall
    rw [heq, List.map_map] at henum
    exact ⟨found, hnodup, hmem, henum⟩

end Condition

/-- After any history whose events are steady, a process lists the targets of an id just
when the first call is not the one whose scan finds the serial number changed, or nothing is
lost by it. -/
theorem user_trustees_listed_iff {base : Nat} (hbase : base ≤ 223) (place : TrusteeStore → Nat)
    (volume : Nat) {S : Set FileNumbers} (hS : Set.InjOn FileNumbers.id S)
    {history : List ScanEvent}
    (hsteady : ScanSystem.start.SteadyAlong base place volume S history) :
    ∃ sys, ScanSystem.start.run base place volume history = some sys ∧
      ∀ (w : ScanWorld) (id : UInt32) (namespaceNr : Int) (clock : Nat → Int),
        TargetsThere w volume (.after history) → 60 < clock 0 →
          (ListsTargets w volume sys (.after history) id namespaceNr clock ↔
            ListsAll sys (.after history) id (clock 0)) := by
  obtain ⟨sys, hrun, hsys⟩ := (ScanSystem.start_holds S volume).run hS hbase hsteady
  exact ⟨sys, hrun, fun w id namespaceNr clock hthere hclock =>
    hsys.listsTargets_iff hS hthere hclock⟩

/-- The volume SYS with the directories A and B. -/
def twoDirs : ScanWorld where
  sysname := [chr 'S', chr 'Y', chr 'S']
  conv := none
  world :=
    { tree := fun _ =>
        { options := ⟨true, false, false, false⟩
          root := ⟨8, 2⟩
          stat := fun name =>
            if name = .ofBytes [chr 'A'] then some ⟨⟨8, 5⟩, true, false, false, 0⟩
            else if name = .ofBytes [chr 'B'] then some ⟨⟨8, 6⟩, true, false, false, 0⟩
            else none
          lstat := fun _ => none
          unixRights := fun _ => 0
          above := fun _ => .none }
      disk := fun _ _ => .noOne
      user := ⟨1, true, [], 0⟩
      defaultUid := 0 }

/-- The serial number is tested; then another process makes 9 a trustee of A and 7 one
of B. -/
def grantsBehindTest : List ScanEvent :=
  [.test 1000, .other (.add ⟨8, 5⟩ [] 0xffff [⟨9, 1⟩] [chr 'A']),
    .other (.add ⟨8, 6⟩ [] 0xffff [⟨7, 1⟩] [chr 'B'])]

theorem steady_grantsBehindTest :
    ScanSystem.start.SteadyAlong 27 (fun _ => 100) 0
      {file | file.dev.toNat < 2 ^ 32 ∧ file.ino.toNat < 2 ^ 32} grantsBehindTest := by
  refine ⟨trivial, fun sys₁ h₁ => ⟨⟨⟨⟨by decide, by decide⟩, ?_, by decide⟩, ?_⟩,
    fun sys₂ h₂ => ⟨⟨⟨⟨by decide, by decide⟩, ?_, by decide⟩, ?_⟩, fun _ _ => trivial⟩⟩⟩
  · exact fun _ hdir => absurd hdir List.not_mem_nil
  · obtain rfl := Option.some.inj h₁
    decide
  · exact fun _ hdir => absurd hdir List.not_mem_nil
  · obtain rfl := Option.some.inj h₁
    have hnumbers : (ScanSystem.step 27 (fun _ => 100) 0
        ⟨.empty, (volTrusteesWereChanged 0 1000 .empty .start).2⟩
        (.other (.add ⟨8, 5⟩ [] 0xffff [⟨9, 1⟩] [chr 'A']))).map
          (fun sys => (sys.store.sernumAfter, sys.process.vol.trusteeSernum)) = some (2, 0) := by
      decide +kernel
    have hpair := Option.some.inj ((congrArg (Option.map _) h₂).symm.trans hnumbers)
    rw [(Prod.mk.inj hpair).1, (Prod.mk.inj hpair).2]
    decide

theorem targetsThere_grantsBehindTest :
    TargetsThere twoDirs 0 (.after grantsBehindTest) := by
  have hnames : ∀ file path, (Targets.after grantsBehindTest).names file = some path →
      file = ⟨8, 6⟩ ∧ path = [chr 'B'] ∨ file = ⟨8, 5⟩ ∧ path = [chr 'A'] := by
    intro file path hname
    change (if file = ⟨8, 6⟩ then some [chr 'B']
      else if file = ⟨8, 5⟩ then some [chr 'A'] else none) = some path at hname
    split at hname
    next hfile => exact .inl ⟨hfile, (Option.some.inj hname).symm⟩
    next =>
      split at hname
      next hfile => exact .inr ⟨hfile, (Option.some.inj hname).symm⟩
      next => contradiction
  refine ⟨rfl, fun file path hname => ?_, fun file path hname => ?_, fun file path hname => ?_⟩
  · rcases hnames file path hname with ⟨rfl, rfl⟩ | ⟨rfl, rfl⟩
    · exact ⟨⟨⟨8, 6⟩, true, false, false, 0⟩, by decide, rfl⟩
    · exact ⟨⟨⟨8, 5⟩, true, false, false, 0⟩, by decide, rfl⟩
  · rcases hnames file path hname with ⟨-, rfl⟩ | ⟨-, rfl⟩
    · exact ⟨List.cons_ne_nil _ _, by decide⟩
    · exact ⟨List.cons_ne_nil _ _, by decide⟩
  · refine ⟨[7, 9], fun id hentry => ?_, Nat.le_trans (m := 2) ?_ (by decide)⟩
    · change (if file = ⟨8, 6⟩ ∧ id = 7 then some _
        else if file = ⟨8, 5⟩ ∧ id = 9 then some _ else none).isSome = true at hentry
      split at hentry
      next hid => exact hid.2 ▸ List.mem_cons_self
      next =>
        split at hentry
        next hid => exact hid.2 ▸ List.mem_cons_of_mem 7 List.mem_cons_self
        next => contradiction
    · exact Nat.le_refl 2

/-- Of a grant behind the last test, a first call within the minute lists nothing, where
another target comes first. -/
theorem not_user_trustees_listed :
    ∃ sys, ScanSystem.start.run 27 (fun _ => 100) 0 grantsBehindTest = some sys ∧
      TargetsThere twoDirs 0 (.after grantsBehindTest) ∧
      ¬ListsTargets twoDirs 0 sys (.after grantsBehindTest) 7 0 fun _ => 1010 := by
  obtain ⟨sys, hrun⟩ : ∃ sys,
      ScanSystem.start.run 27 (fun _ => 100) 0 grantsBehindTest = some sys :=
    Option.isSome_iff_exists.mp (by decide +kernel)
  refine ⟨sys, hrun, targetsThere_grantsBehindTest, ?_⟩
  rintro ⟨found, -, hmem, henum⟩
  have hin : (⟨8, 6⟩, [chr 'B'], 1) ∈ found :=
    (hmem ⟨8, 6⟩ [chr 'B'] 1).mpr ⟨by decide, by decide⟩
  have hnone : (ScanSystem.start.run 27 (fun _ => 100) 0 grantsBehindTest).map (fun sys =>
      (getVolumeUserTrustee twoDirs 0 1010 sys.store sys.process 7 0 0).1) = some none := by
    decide +kernel
  rw [hrun] at hnone
  cases found with
  | nil => exact List.not_mem_nil hin
  | cons target found =>
      obtain ⟨sequence, hanswer, -⟩ := henum
      have hfirst : ((userTrusteeMachine twoDirs 0 sys.store 7 0 fun _ => 1010).step
          (0, sys.process) 0).1 = none := congrArg (Option.map _) (Option.some.inj hnone)
      rw [hfirst] at hanswer
      contradiction

theorem user_trustees_listed_grantsBehindTest :
    ∃ sys, ScanSystem.start.run 27 (fun _ => 100) 0 grantsBehindTest = some sys ∧
      (ListsTargets twoDirs 0 sys (.after grantsBehindTest) 7 0 (fun _ => 1061) ↔
        ListsAll sys (.after grantsBehindTest) 7 1061) := by
  obtain ⟨sys, hrun, hlists⟩ := user_trustees_listed_iff (by decide) (fun _ => 100) 0 injOn_small
    steady_grantsBehindTest
  exact ⟨sys, hrun, hlists twoDirs 7 0 (fun _ => 1061) targetsThere_grantsBehindTest (by decide)⟩

end MarsNwe
