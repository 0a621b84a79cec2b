import MarsNwe.File.Attributes
import MarsNwe.Trustee.StoreRuns

/-! # Attributes of an object are what its calls make of them

A link shows the attributes of its object, and the object without a link the default. Each
call makes of them what it should, also where it writes nothing, and leaves the links of
other objects alone.
-/

namespace MarsNwe

open Formatted Links

/-! ## Links -/

theorem attrPath_injective : Function.Injective attrPath := by
  intro id id' h
  have hdev := hexText_injective (List.cons.inj h).1
  have htail := (List.cons.inj h).2
  have hbyte3 := hexText_injective (List.cons.inj htail).1
  have htail := (List.cons.inj htail).2
  have hbyte2 := hexText_injective (List.cons.inj htail).1
  have htail := (List.cons.inj htail).2
  have hbyte1 := hexText_injective (List.cons.inj htail).1
  have hbyte0 := hexText_injective (List.cons.inj (List.cons.inj htail).2).1
  obtain ⟨dev, ino⟩ := id
  obtain ⟨dev', ino'⟩ := id'
  rw [FileId.mk.injEq, ← UInt32.toNat_inj, ← UInt32.toNat_inj]
  dsimp only at *
  exact ⟨hdev, by omega⟩

theorem textLength_attrPath_le {base : Nat} (hbase : base ≤ 233) (id : FileId) :
    textLength base (attrPath id) ≤ 254 := by
  have hdev := length_hexText_le (w := 8) (by decide) id.dev.toNat_lt
  have hino := id.ino.toNat_lt
  have hbyte : ∀ n, n < 256 → (hexText n).length ≤ 2 := fun n hn =>
    length_hexText_le (w := 2) (by decide) hn
  have hbyte3 := hbyte (id.ino.toNat / 2 ^ 24) (by omega)
  have hbyte2 := hbyte (id.ino.toNat / 2 ^ 16 % 256) (by omega)
  have hbyte1 := hbyte (id.ino.toNat / 2 ^ 8 % 256) (by omega)
  have hbyte0 := hbyte (id.ino.toNat % 256) (by omega)
  simp only [attrPath, textLength]
  omega

theorem scanX_hex8 (attrib : UInt32) :
    TrusteeStore.scanX ((hex 8 attrib.toNat).take 224) = some attrib := by
  have hshort : (hex 8 attrib.toNat).take 224 = hex 8 attrib.toNat :=
    List.take_of_length_le (by rw [length_hex]; omega)
  have hlt := attrib.toNat_lt
  unfold TrusteeStore.scanX
  rw [hshort, scanHex_hex _ (by omega) (by omega)]
  exact congrArg some (UInt32.ofNat_toNat)

theorem AttrStore.read_put (place : Nat) (s : AttrStore) (id id' : FileId) (attrib : UInt32) :
    (s.put place id attrib).read id' = if id' = id then some attrib else s.read id' := by
  have hlinks : ∀ text, (attrPath id', text) ∈ (s.put place id attrib).links ↔
      (id' = id ∧ text = hex 8 attrib.toNat) ∨ ((attrPath id', text) ∈ s.links ∧ id' ≠ id) := by
    intro text
    refine mem_symlink.trans (or_congr ?_ (mem_unlink.trans (and_congr_right fun _ => ?_)))
    · rw [Prod.mk.injEq, attrPath_injective.eq_iff]
    · exact attrPath_injective.ne_iff
  unfold read
  by_cases hid : id' = id
  · have hlink := (hlinks (hex 8 attrib.toNat)).mpr (.inl ⟨hid, rfl⟩)
    rw [if_pos hid, (readlink_eq_some (s.put place id attrib).nodup).mpr hlink, Option.bind_some]
    exact scanX_hex8 attrib
  · have hsame : readlink (s.put place id attrib).links (attrPath id') =
        readlink s.links (attrPath id') := by
      apply Option.ext
      intro text
      rw [readlink_eq_some (s.put place id attrib).nodup, readlink_eq_some s.nodup, hlinks]
      simp [hid]
    rw [if_neg hid, hsame]

/-! ## The directory bit -/

theorem forceDir_forceDir (isDir : Bool) (attrib : UInt32) :
    forceDir isDir (forceDir isDir attrib) = forceDir isDir attrib := by
  cases isDir
  · show attrib &&& ~~~fileAttrDir &&& ~~~fileAttrDir = _
    rw [UInt32.and_assoc, UInt32.and_self]
    rfl
  · show attrib ||| fileAttrDir ||| fileAttrDir = _
    rw [UInt32.or_assoc, UInt32.or_self]
    rfl

theorem forceDir_archive (isDir : Bool) (attrib : UInt32) :
    forceDir isDir (attrib ||| fileAttrA) = forceDir isDir attrib ||| fileAttrA := by
  cases isDir
  · show (attrib ||| fileAttrA) &&& ~~~fileAttrDir = (attrib &&& ~~~fileAttrDir) ||| fileAttrA
    have hdistrib : (attrib ||| fileAttrA) &&& ~~~fileAttrDir =
        (attrib &&& ~~~fileAttrDir) ||| (fileAttrA &&& ~~~fileAttrDir) :=
      UInt32.eq_of_toBitVec_eq BitVec.and_or_distrib_right
    exact hdistrib
  · show attrib ||| fileAttrA ||| fileAttrDir = attrib ||| fileAttrDir ||| fileAttrA
    rw [UInt32.or_assoc, UInt32.or_assoc, UInt32.or_comm fileAttrA]

/-- The archive bit, where it is set. -/
theorem or_archive {attrib : UInt32} (h : attrib &&& fileAttrA ≠ 0) :
    attrib ||| fileAttrA = attrib := by
  have hbits : ∀ i, i < 32 → fileAttrA.toBitVec.getLsbD i = decide (i = 5) := by decide
  have hset : attrib.toBitVec.getLsbD 5 = true := by
    refine Classical.byContradiction fun hclear => h ?_
    apply UInt32.eq_of_toBitVec_eq
    apply BitVec.eq_of_getLsbD_eq
    intro i hi
    rw [UInt32.toBitVec_and, BitVec.getLsbD_and, hbits i hi, UInt32.toBitVec_zero,
      BitVec.getLsbD_zero]
    by_cases hfive : i = 5
    · rw [hfive, Bool.eq_false_iff.mpr hclear, Bool.false_and]
    · rw [decide_eq_false hfive, Bool.and_false]
  apply UInt32.eq_of_toBitVec_eq
  apply BitVec.eq_of_getLsbD_eq
  intro i hi
  rw [UInt32.toBitVec_or, BitVec.getLsbD_or, hbits i hi]
  by_cases hfive : i = 5
  · rw [hfive, hset, Bool.true_or]
  · rw [decide_eq_false hfive, Bool.or_false]

/-! ## What is shown -/

/-- A volume with attributes that is neither a pipe nor read-only. -/
structure AttrConfig.Plain (cfg : AttrConfig) (volume : Nat) : Prop where
  isPipe : cfg.isPipe volume = false
  attributes : cfg.attributes volume = true
  readOnly : cfg.readOnly volume = false

/-- The attributes of an object: those in its link, or the default. -/
def AttrStore.shown (s : AttrStore) (isDir : Bool) (default : UInt32) (file : FileNumbers) :
    UInt32 := ((s.read file.id).map (forceDir isDir)).getD default

section Calls

variable {cfg : AttrConfig} {user : AttrUser} {s s' : AttrStore} {volume : Nat}
  {unixname : List UInt8} {stb : AttrStat}

theorem getAttrFromDisk_eq (hbase : cfg.base ≤ 233) (file : FileNumbers) :
    getAttrFromDisk cfg s file = some (s.read file.id) :=
  if_pos (textLength_attrPath_le hbase file.id)

theorem putAttrToDisk_eq (hbase : cfg.base ≤ 233) (file : FileNumbers) (attrib : UInt32) :
    putAttrToDisk cfg s file attrib = some (s.put (cfg.place s) file.id attrib) :=
  if_pos (textLength_attrPath_le hbase file.id)

theorem getNwAttribDword_eq (hbase : cfg.base ≤ 233) (hvolume : cfg.Plain volume) :
    getNwAttribDword cfg user s volume unixname stb =
      some (s.shown stb.isDir (defaultAttrib stb.isDir unixname) stb.file) := by
  unfold getNwAttribDword AttrStore.shown
  rw [if_neg (by rw [hvolume.isPipe]; decide), if_pos hvolume.attributes,
    getAttrFromDisk_eq hbase]
  dsimp only [Option.bind_eq_bind, Option.bind_some]
  rw [if_neg (by rw [hvolume.attributes]; exact fun h => Bool.false_ne_true h.1),
    if_neg (by rw [hvolume.readOnly]; decide)]
  cases s.read stb.file.id <;> rfl

/-- After a write the object shows what is written, and the others what they did. -/
theorem AttrStore.shown_put {S : Set FileNumbers} (hS : Set.InjOn FileNumbers.id S) (place : Nat)
    {file file' : FileNumbers} (hfile : file ∈ S) (hfile' : file' ∈ S) (attrib : UInt32)
    (isDir : Bool) (default : UInt32) :
    (s.put place file.id attrib).shown isDir default file' =
      if file = file' then forceDir isDir attrib else s.shown isDir default file' := by
  unfold shown
  rw [AttrStore.read_put]
  by_cases hsame : file = file'
  · rw [if_pos hsame, if_pos (congrArg _ hsame.symm), Option.map_some, Option.getD_some]
  · rw [if_neg hsame, if_neg fun hid => hsame (hS hfile' hfile hid).symm]

/-- What is shown has the directory bit of its kind. -/
theorem AttrStore.forceDir_shown (isDir : Bool) {default : UInt32}
    (hdefault : forceDir isDir default = default) (file : FileNumbers) :
    forceDir isDir (s.shown isDir default file) = s.shown isDir default file := by
  unfold shown
  cases s.read file.id with
  | none => exact hdefault
  | some attrib => exact forceDir_forceDir isDir attrib

/-! ## One call -/

/-- The objects of the calls: which of them are directories, and which have names that
begin with a point. -/
structure AttrObjects where
  S : Set FileNumbers
  isDir : FileNumbers → Bool
  dotted : FileNumbers → Bool

/-- A name and a `stat` of an object. -/
structure AttrObjects.Names (objects : AttrObjects) (unixname : List UInt8) (stb : AttrStat) :
    Prop where
  mem : stb.file ∈ objects.S
  isDir : stb.isDir = objects.isDir stb.file
  dotted : isDotFile unixname = objects.dotted stb.file

/-- A call for one of the objects on a plain volume; the archive bit is set of files. -/
def AttrCall.For (cfg : AttrConfig) (objects : AttrObjects) : AttrCall → Prop
  | .set _ volume unixname stb _ _ => cfg.Plain volume ∧ objects.Names unixname stb
  | .archiveBit volume file =>
      cfg.Plain volume ∧ file ∈ objects.S ∧ objects.isDir file = false

/-- The attributes of an object that has no link. -/
def AttrObjects.default (objects : AttrObjects) (file : FileNumbers) : UInt32 :=
  (if objects.isDir file then fileAttrDir else fileAttrA) |||
    if objects.dotted file then fileAttrH else 0

/-- What is shown of an object. -/
def AttrObjects.shown (objects : AttrObjects) (s : AttrStore) (file : FileNumbers) : UInt32 :=
  s.shown (objects.isDir file) (objects.default file) file

variable {objects : AttrObjects}

theorem AttrObjects.Names.default (h : objects.Names unixname stb) :
    defaultAttrib stb.isDir unixname = objects.default stb.file := by
  unfold defaultAttrib AttrObjects.default
  rw [h.isDir, h.dotted]

theorem AttrObjects.forceDir_default (objects : AttrObjects) (file : FileNumbers) :
    forceDir (objects.isDir file) (objects.default file) = objects.default file := by
  unfold AttrObjects.default
  cases objects.isDir file <;> cases objects.dotted file <;> rfl

theorem AttrObjects.Names.get (h : objects.Names unixname stb) (hbase : cfg.base ≤ 233)
    (hvolume : cfg.Plain volume) :
    getNwAttribDword cfg user s volume unixname stb = some (objects.shown s stb.file) := by
  rw [getNwAttribDword_eq hbase hvolume, h.default, h.isDir]
  rfl

/-- The attributes that a call leaves are those that it makes of the old ones, for its
object; the others keep theirs. -/
def AttrCall.Applies (objects : AttrObjects) (c : AttrCall) (s s' : AttrStore) : Prop :=
  ∀ file ∈ objects.S, objects.shown s' file =
    if c.file = file then c.apply (objects.isDir file) (objects.shown s file)
    else objects.shown s file

/-- A write of attributes. -/
theorem AttrCall.applies_put (hS : Set.InjOn FileNumbers.id objects.S) (c : AttrCall)
    (hmem : c.file ∈ objects.S) (place : Nat) {attrib : UInt32}
    (hattrib : forceDir (objects.isDir c.file) attrib =
      c.apply (objects.isDir c.file) (objects.shown s c.file)) :
    c.Applies objects s (s.put place c.file.id attrib) := by
  intro file hfile
  refine (AttrStore.shown_put hS place hmem hfile attrib _ _).trans ?_
  by_cases hsame : c.file = file
  · subst hsame
    rw [if_pos rfl, if_pos rfl, hattrib]
  · rw [if_neg hsame, if_neg hsame]
    rfl

/-- A call that writes nothing, as nothing would change. -/
theorem AttrCall.applies_self {c : AttrCall}
    (hsame : c.apply (objects.isDir c.file) (objects.shown s c.file) = objects.shown s c.file) :
    c.Applies objects s s := by
  intro file _
  by_cases hown : c.file = file
  · subst hown
    rw [if_pos rfl, hsame]
  · rw [if_neg hown]

theorem setNwAttrib_applies (hS : Set.InjOn FileNumbers.id objects.S) (hbase : cfg.base ≤ 233)
    (hvolume : cfg.Plain volume) (hnames : objects.Names unixname stb) (attrib : UInt32)
    (mode : AttrMode) :
    ∃ result stb' s', setNwAttrib cfg user s volume unixname stb attrib mode =
        some (result, stb', s') ∧
      (AttrCall.set user volume unixname stb attrib mode).Applies objects s s' := by
  have hstore : ∀ oldattrib newattrib,
      storeAttrib cfg user s volume unixname stb oldattrib newattrib =
        some (0, stb, s.put (cfg.place s) stb.file.id (forceDir stb.isDir newattrib)) := by
    intro oldattrib newattrib
    unfold storeAttrib
    rw [if_pos hvolume.attributes, putAttrToDisk_eq hbase]
    rfl
  have hwritten : user.mayModify volume unixname stb = true →
      (AttrCall.set user volume unixname stb attrib mode).Applies objects s
        (s.put (cfg.place s) stb.file.id
          (forceDir stb.isDir (mode.replace (objects.shown s stb.file) attrib))) := by
    intro hright
    refine AttrCall.applies_put hS (.set user volume unixname stb attrib mode) hnames.mem _ ?_
    show forceDir (objects.isDir stb.file) _ = if user.mayModify volume unixname stb then _ else _
    rw [if_pos hright, hnames.isDir, forceDir_forceDir]
    rfl
  unfold setNwAttrib
  rw [if_neg (by rw [hvolume.isPipe]; exact Bool.false_ne_true)]
  split
  next hrefused =>
    refine ⟨_, _, _, rfl, AttrCall.applies_self ?_⟩
    have hright : user.mayModify volume unixname stb = false := by simpa using hrefused
    exact if_neg (by rw [hright]; exact Bool.false_ne_true)
  next hallowed =>
    have hright : user.mayModify volume unixname stb = true := by simpa using hallowed
    dsimp only
    simp only [hvolume.attributes, Bool.not_true, Bool.false_eq_true, false_and, if_false, or_false]
    split
    next hmode =>
      rw [hnames.get hbase hvolume]
      dsimp only [Option.bind_eq_bind, Option.bind_some]
      split
      next =>
        rw [hstore]
        exact ⟨_, _, _, rfl, hwritten hright⟩
      next hskip =>
        -- nothing is written, as the attributes would stay as they are shown
        refine ⟨_, _, _, rfl, AttrCall.applies_self ?_⟩
        have hsame : mode.replace (objects.shown s stb.file) attrib = objects.shown s stb.file :=
          Classical.not_not.mp fun hne => hskip (.inr hne)
        show (if user.mayModify volume unixname stb then forceDir _ (mode.replace _ attrib)
          else _) = _
        rw [if_pos hright]
        refine (congrArg _ hsame).trans ?_
        exact AttrStore.forceDir_shown _ (objects.forceDir_default stb.file) stb.file
    next hdword =>
      obtain rfl := Classical.not_not.mp hdword
      rw [hstore]
      exact ⟨_, _, _, rfl, hwritten hright⟩

theorem setNwArchiveBit_applies (hS : Set.InjOn FileNumbers.id objects.S)
    (hbase : cfg.base ≤ 233) (hvolume : cfg.Plain volume) {file : FileNumbers}
    (hfile : file ∈ objects.S) (hkind : objects.isDir file = false) :
    ∃ s', setNwArchiveBit cfg s volume file = some s' ∧
      (AttrCall.archiveBit volume file).Applies objects s s' := by
  unfold setNwArchiveBit
  rw [if_pos hvolume.attributes, getAttrFromDisk_eq hbase]
  dsimp only [Option.bind_eq_bind, Option.bind_some]
  have hshown : objects.shown s file =
      ((s.read file.id).map (forceDir (objects.isDir file))).getD (objects.default file) := rfl
  cases hread : s.read file.id with
  | none =>
      refine ⟨s, rfl, AttrCall.applies_self ?_⟩
      rw [hread] at hshown
      show objects.shown s file ||| fileAttrA = objects.shown s file
      rw [hshown, Option.map_none, Option.getD_none]
      unfold AttrObjects.default
      rw [hkind]
      cases objects.dotted file <;> rfl
  | some attrib =>
      rw [hread, Option.map_some, Option.getD_some] at hshown
      dsimp only
      split
      next =>
        rw [putAttrToDisk_eq hbase]
        refine ⟨_, rfl, AttrCall.applies_put hS (.archiveBit volume file) hfile _ ?_⟩
        show forceDir (objects.isDir file) (attrib ||| fileAttrA) =
          objects.shown s file ||| fileAttrA
        rw [hshown, forceDir_archive]
      next hset =>
        refine ⟨s, rfl, AttrCall.applies_self ?_⟩
        show objects.shown s file ||| fileAttrA = objects.shown s file
        rw [hshown, ← forceDir_archive, or_archive hset]

/-- One call. -/
theorem AttrCall.For.call (hS : Set.InjOn FileNumbers.id objects.S) (hbase : cfg.base ≤ 233)
    {c : AttrCall} (hc : c.For cfg objects) :
    ∃ s', s.call cfg c = some s' ∧ c.Applies objects s s' := by
  cases c with
  | set user volume unixname stb attrib mode =>
      obtain ⟨hvolume, hnames⟩ := hc
      obtain ⟨result, stb', s', hset, happlies⟩ :=
        setNwAttrib_applies hS hbase hvolume hnames attrib mode
      refine ⟨s', ?_, happlies⟩
      show (setNwAttrib cfg user s volume unixname stb attrib mode).map _ = _
      rw [hset]
      rfl
  | archiveBit volume file =>
      obtain ⟨hvolume, hfile, hkind⟩ := hc
      exact setNwArchiveBit_applies hS hbase hvolume hfile hkind

/-- A list of calls. -/
theorem AttrStore.run_shown (hS : Set.InjOn FileNumbers.id objects.S) (hbase : cfg.base ≤ 233)
    {calls : List AttrCall} (hcalls : ∀ c ∈ calls, c.For cfg objects) :
    ∃ s', s.run cfg calls = some s' ∧ ∀ file ∈ objects.S, objects.shown s' file =
      attribAfter (objects.isDir file) file (objects.shown s file) calls := by
  induction calls generalizing s with
  | nil => exact ⟨s, rfl, fun _ _ => rfl⟩
  | cons c calls ih =>
      obtain ⟨hc, hrest⟩ := List.forall_mem_cons.mp hcalls
      obtain ⟨s₁, hcall, happlies⟩ := hc.call hS hbase (s := s)
      obtain ⟨s', hrun, hshown⟩ := ih hrest (s := s₁)
      refine ⟨s', ?_, fun file hfile => ?_⟩
      · unfold AttrStore.run
        rw [List.foldlM_cons, hcall]
        exact hrun
      · rw [hshown file hfile, happlies file hfile]
        unfold attribAfter
        rw [List.filter_cons]
        by_cases hown : c.file = file
        · rw [if_pos hown, if_pos (decide_eq_true hown), List.foldl_cons]
        · rw [if_neg hown, if_neg (by simpa using hown)]

end Calls

/-- After any calls for objects of different numbers, each under names that begin with a
point in all calls or in none, the attributes of an object are what its own calls make of
those it had. -/
theorem attributes_kept (cfg : AttrConfig) (hbase : cfg.base ≤ 233) (objects : AttrObjects)
    (hS : Set.InjOn FileNumbers.id objects.S) (s : AttrStore) (calls : List AttrCall)
    (hcalls : ∀ c ∈ calls, c.For cfg objects) :
    ∃ s', s.run cfg calls = some s' ∧
      ∀ (user : AttrUser) (volume : Nat) (unixname : List UInt8) (stb : AttrStat),
        cfg.Plain volume → objects.Names unixname stb →
        ∃ attrib, getNwAttribDword cfg user s volume unixname stb = some attrib ∧
          getNwAttribDword cfg user s' volume unixname stb =
            some (attribAfter stb.isDir stb.file attrib calls) := by
  obtain ⟨s', hrun, hshown⟩ := AttrStore.run_shown hS hbase hcalls (s := s)
  refine ⟨s', hrun, fun user volume unixname stb hvolume hnames => ?_⟩
  refine ⟨_, hnames.get hbase hvolume, ?_⟩
  rw [hnames.get hbase hvolume, hshown stb.file hnames.mem, hnames.isDir]

/-- One volume with attributes, with a directory name of so many characters. -/
def attrConfig (base : Nat) : AttrConfig where
  base := base
  place := fun _ => 0
  isPipe := fun _ => false
  attributes := fun _ => true
  readOnly := fun _ => false

/-- A user who may modify everything. -/
def attrUser : AttrUser where
  uid := 0
  unixEffRights := fun _ => 7
  mayModify := fun _ _ _ => true
  chmod := fun _ _ => true

/-- The names `/a` and `/.a`. -/
def plainName : List UInt8 := [chr '/', chr 'a']
def dottedName : List UInt8 := [chr '/', chr '.', chr 'a']

/-- From no links, an object has the attributes that its own calls make of its default. -/
def KeepsOwn (base : Nat) (calls : List AttrCall) (unixname : List UInt8) (stb : AttrStat) :
    Prop :=
  ∃ s attrib, AttrStore.run (attrConfig base) .empty calls = some s ∧
    getNwAttribDword (attrConfig base) attrUser .empty 0 unixname stb = some attrib ∧
    getNwAttribDword (attrConfig base) attrUser s 0 unixname stb =
      some (attribAfter stb.isDir stb.file attrib calls)

instance (base : Nat) (calls : List AttrCall) (unixname : List UInt8) (stb : AttrStat) :
    Decidable (KeepsOwn base calls unixname stb) :=
  decidable_of_iff
    (((AttrStore.run (attrConfig base) .empty calls).any fun s =>
      (getNwAttribDword (attrConfig base) attrUser .empty 0 unixname stb).any fun attrib =>
        getNwAttribDword (attrConfig base) attrUser s 0 unixname stb =
          some (attribAfter stb.isDir stb.file attrib calls)) = true) (by
    unfold KeepsOwn
    cases AttrStore.run (attrConfig base) .empty calls <;>
      cases getNwAttribDword (attrConfig base) attrUser .empty 0 unixname stb <;> simp)

/-- An object has the attributes of another one whose inode differs in the upper half only;
what is not written, as it is the default of a name with a point, is not there under another
name; the archive bit of a directory without a link is not set; and under a long directory
name the names do not fit. -/
theorem not_attributes_kept :
    ¬KeepsOwn 18 [.set attrUser 0 plainName ⟨⟨8, 5⟩, 0x8000⟩ 0x21 .dword] plainName
        ⟨⟨8, 0x100000005⟩, 0x8000⟩ ∧
      ¬KeepsOwn 18 [.set attrUser 0 dottedName ⟨⟨8, 5⟩, 0x8000⟩ 0x22 .byte] plainName
        ⟨⟨8, 5⟩, 0x8000⟩ ∧
      ¬KeepsOwn 18 [.archiveBit 0 ⟨8, 5⟩] plainName ⟨⟨8, 5⟩, 0x4000⟩ ∧
      ¬KeepsOwn 250 [.set attrUser 0 plainName ⟨⟨8, 5⟩, 0x8000⟩ 0x21 .dword] plainName
        ⟨⟨8, 5⟩, 0x8000⟩ := by
  decide +kernel

/-- A directory and files. -/
def attrObjects : AttrObjects where
  S := {file | file.dev.toNat < 2 ^ 32 ∧ file.ino.toNat < 2 ^ 32}
  isDir := fun file => file = ⟨8, 2⟩
  dotted := fun _ => false

theorem attributes_kept_some :
    ∃ s', AttrStore.empty.run (attrConfig 18)
        [.set attrUser 0 plainName ⟨⟨8, 5⟩, 0x8000⟩ 0x21 .word,
          .set attrUser 0 plainName ⟨⟨8, 2⟩, 0x4000⟩ 0x02 .byte, .archiveBit 0 ⟨8, 5⟩] = some s' ∧
      ∀ (user : AttrUser) (volume : Nat) (unixname : List UInt8) (stb : AttrStat),
        (attrConfig 18).Plain volume → attrObjects.Names unixname stb →
        ∃ attrib, getNwAttribDword (attrConfig 18) user .empty volume unixname stb = some attrib ∧
          getNwAttribDword (attrConfig 18) user s' volume unixname stb =
            some (attribAfter stb.isDir stb.file attrib
              [.set attrUser 0 plainName ⟨⟨8, 5⟩, 0x8000⟩ 0x21 .word,
                .set attrUser 0 plainName ⟨⟨8, 2⟩, 0x4000⟩ 0x02 .byte,
                .archiveBit 0 ⟨8, 5⟩]) := by
  refine attributes_kept (attrConfig 18) (by decide) attrObjects injOn_small .empty _ fun c hc => ?_
  have hvolume : (attrConfig 18).Plain 0 := ⟨rfl, rfl, rfl⟩
  simp only [List.mem_cons, List.not_mem_nil, or_false] at hc
  rcases hc with rfl | rfl | rfl
  · exact ⟨hvolume, ⟨by decide, by decide⟩, by decide, by decide⟩
  · exact ⟨hvolume, ⟨by decide, by decide⟩, by decide, by decide⟩
  · exact ⟨hvolume, ⟨by decide, by decide⟩, by decide⟩

end MarsNwe
