import Mathlib.Data.List.Forall2
import MarsNwe.Lib.WordSets
import MarsNwe.Trustee.EffRights

/-! # The way from the root to a file

The rights at a file, when no node is cached, depend on the directories that its
name goes through and on their trustees alone.
-/

namespace MarsNwe

/-- All rights of a list of trustees, as `build_trustee_rights` builds `eff_rights`. -/
def allRights (ugidTrustees : List IdsTrustee) : Rights :=
  ugidTrustees.foldl (fun rights e => rights ||| e.trustee) 0

/-- The directories on the way to a file, its own link, and whether every directory
could be read. The root has only its own. -/
def wayLinks (tree : VolumeTree) (unixname : UnixName) (stb : FileStat) :
    List PathLink × PathLink × Bool :=
  let newFlags := (if stb.isDir then 1 else 0) ||| symlinkFlag tree unixname stb
  if tree.root = stb.numbers then ([], ⟨stb.numbers, 3, newFlags⟩, true)
  else
    let (links, lastDev, ok) := pathLinks tree stb unixname.prefixes tree.root.dev
    (⟨tree.root, 3, 0⟩ :: links, ⟨stb.numbers, devFlags tree lastDev stb.numbers.dev, newFlags⟩, ok)

/-- The way to a file, if every directory on it can be read. -/
def wayTo (tree : VolumeTree) (unixname : UnixName) (stb : FileStat) : Option (List PathLink) :=
  let (dirs, file, ok) := wayLinks tree unixname stb
  if ok then some (dirs ++ [file]) else none

/-- The node of a link, when it is made. -/
def freshNode (disk : TrusteeDisk) (volume : Nat) (link : PathLink) : FileTrusteeNode :=
  createTrusteeNode disk volume link.id (link.modeFlags ||| link.newFlags)

/-- The trustees of a user after a way, with each node made on it. -/
def trusteesAlong (user : TrusteeUser) (disk : TrusteeDisk) (volume : Nat)
    (way : List PathLink) : List IdsTrustee :=
  way.foldl (fun ugidTrustees link =>
    (buildTrusteeRights user (freshNode disk volume link) ugidTrustees).2) []

/-- The rights of a user at the end of a way. -/
def rightsAlong (user : TrusteeUser) (disk : TrusteeDisk) (volume : Nat)
    (way : List PathLink) : Rights :=
  allRights (trusteesAlong user disk volume way)

/-! ## What the flags of a node decide -/

/-- Flags that pass trustees on alike. -/
def SameKind (flags flags' : UInt8) : Prop :=
  (flags &&& 0xe = 0 ↔ flags' &&& 0xe = 0) ∧ (flags &&& 2 = 0 ↔ flags' &&& 2 = 0)

instance (flags flags' : UInt8) : Decidable (SameKind flags flags') :=
  inferInstanceAs (Decidable (_ ∧ _))

/-- A node holds what is on disk, as far as it passes trustees on. -/
def Intact (disk : TrusteeDisk) (tr : FileTrusteeNode) : Prop :=
  tr.trustees = (readTrustees (disk tr.volume tr.id).entries 0).2 ∧
    (tr.modeFlags &&& 0xe = 0 → tr.inheritedMask =
      (readTrustees (disk tr.volume tr.id).entries 0).1.getD maxTrusteeMask)

theorem intact_createTrusteeNode (disk : TrusteeDisk) (volume : Nat) (id : FileId)
    (modeFlags : UInt8) : Intact disk (createTrusteeNode disk volume id modeFlags) := by
  refine ⟨rfl, fun hpass => ?_⟩
  have hpass' : modeFlags &&& 0xe = 0 := hpass
  show Option.getD _ (if modeFlags &&& 0xe ≠ 0 then 0 else maxTrusteeMask) = _
  rw [if_neg (not_not.mpr hpass')]
  rfl

theorem Intact.or_flags {disk : TrusteeDisk} {tr : FileTrusteeNode} (h : Intact disk tr)
    (flags : UInt8) : Intact disk { tr with modeFlags := tr.modeFlags ||| flags } :=
  ⟨h.1, fun hpass => h.2 ((WordSet.or_and_eq_zero _ _ _).mp hpass).1⟩

/-- Nodes of a file that hold what is on disk build the same trustees if their flags
are of the same kind. -/
theorem buildTrusteeRights_congr {disk : TrusteeDisk} {tr tr' : FileTrusteeNode}
    (h : Intact disk tr) (h' : Intact disk tr') (hvolume : tr.volume = tr'.volume)
    (hid : tr.id = tr'.id) (hkind : SameKind tr.modeFlags tr'.modeFlags) (user : TrusteeUser)
    (ugidTrustees : List IdsTrustee) :
    (buildTrusteeRights user tr ugidTrustees).2 = (buildTrusteeRights user tr' ugidTrustees).2 := by
  have htrustees : tr.trustees = tr'.trustees := by rw [h.1, h'.1, hvolume, hid]
  have hpass : passTrustees user tr ugidTrustees = passTrustees user tr' ugidTrustees := by
    unfold passTrustees
    by_cases hcut : tr.modeFlags &&& 0xe = 0
    · have hcut' := hkind.1.mp hcut
      have hmask : tr.inheritedMask = tr'.inheritedMask := by
        rw [h.2 hcut, h'.2 hcut', hvolume, hid]
      rw [if_neg (not_not.mpr hcut), if_neg (not_not.mpr hcut'), hmask]
    · have hcut' : ¬tr'.modeFlags &&& 0xe = 0 := fun h => hcut (hkind.1.mpr h)
      rw [if_pos hcut, if_pos hcut']
      simp only [ne_eq, hkind.2]
  unfold buildTrusteeRights
  rw [htrustees, hpass]

theorem effRights_buildTrusteeRights (user : TrusteeUser) (tr : FileTrusteeNode)
    (ugidTrustees : List IdsTrustee) :
    (buildTrusteeRights user tr ugidTrustees).1.effRights =
      some (allRights (buildTrusteeRights user tr ugidTrustees).2) := rfl

theorem intact_buildTrusteeRights {disk : TrusteeDisk} {tr : FileTrusteeNode}
    (h : Intact disk tr) (user : TrusteeUser) (ugidTrustees : List IdsTrustee) :
    Intact disk (buildTrusteeRights user tr ugidTrustees).1 := by
  refine ⟨h.1, fun hpass => ?_⟩
  have hpass' : tr.modeFlags &&& 0xe = 0 := hpass
  show (if tr.modeFlags &&& 0xe ≠ 0 then 0 else tr.inheritedMask) = _
  rw [if_neg (not_not.mpr hpass')]
  exact h.2 hpass'

/-- Ways that pass trustees on alike: directories that are kept alike, with flags of the
same kind. -/
def SameWay (way way' : List PathLink) : Prop :=
  List.Forall₂ (fun link link' => link.id = link'.id ∧
    SameKind (link.modeFlags ||| link.newFlags) (link'.modeFlags ||| link'.newFlags)) way way'

theorem SameWay.refl (way : List PathLink) : SameWay way way :=
  List.forall₂_same.mpr fun _ _ => ⟨rfl, Iff.rfl, Iff.rfl⟩

/-- The rights at the end of a way depend on what the way passes on only. -/
theorem SameWay.rightsAlong {way way' : List PathLink} (h : SameWay way way')
    (user : TrusteeUser) (disk : TrusteeDisk) (volume : Nat) :
    rightsAlong user disk volume way = rightsAlong user disk volume way' := by
  have hfold : ∀ ugidTrustees,
      way.foldl (fun ugidTrustees link =>
        (buildTrusteeRights user (freshNode disk volume link) ugidTrustees).2) ugidTrustees =
      way'.foldl (fun ugidTrustees link =>
        (buildTrusteeRights user (freshNode disk volume link) ugidTrustees).2) ugidTrustees := by
    induction h with
    | nil => exact fun _ => rfl
    | @cons link link' way way' hlink _ ih =>
        intro ugidTrustees
        have hbuilt := buildTrusteeRights_congr (intact_createTrusteeNode disk volume link.id _)
          (intact_createTrusteeNode disk volume link'.id _) rfl hlink.1 hlink.2 user ugidTrustees
        have hhead : (buildTrusteeRights user (freshNode disk volume link) ugidTrustees).2 =
            (buildTrusteeRights user (freshNode disk volume link') ugidTrustees).2 := hbuilt
        rw [List.foldl_cons, List.foldl_cons, hhead]
        exact ih _
  exact congrArg allRights (hfold [])

theorem trusteesAlong_concat (user : TrusteeUser) (disk : TrusteeDisk) (volume : Nat)
    (way : List PathLink) (link : PathLink) :
    trusteesAlong user disk volume (way ++ [link]) =
      (buildTrusteeRights user (freshNode disk volume link)
        (trusteesAlong user disk volume way)).2 := by
  unfold trusteesAlong
  rw [List.foldl_append, List.foldl_cons, List.foldl_nil]

end MarsNwe
