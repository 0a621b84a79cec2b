import MarsNwe.Namspace.BaseTable

/-! # Paths of the name space calls

A request names a file by a handle and a list of components. `add_hpath_to_nwpath`
writes the components behind the path of the handle, and gives the path the case that
the volume has.
-/

namespace MarsNwe.NameSpace

variable {φ : Type}

/-- `NW_HPATH`, its components as they are counted. -/
structure NwHpath where
  volume : UInt8
  base : UInt32
  flag : UInt8
  components : List (List UInt8)
deriving DecidableEq

/-- `N_NW_PATH` while `add_hpath_to_nwpath` works on it: `text` is what stands before
`pp`, and the volume -1 is `none`. -/
structure PathBuild where
  volume : Option Nat
  text : List UInt8
  npbeg : Nat
deriving DecidableEq

/-- `nw_get_volume_number` -/
def nwGetVolumeNumber (w : NsWorld φ) (volname : List UInt8) : Option Nat :=
  let vname := CText.visible ((CText.visible volname).map w.up)
  (List.range w.volumes.length).reverse.find? fun j =>
    (w.volumes[j]?.map fun v => v.sysname) = some vname

/-- Before the last `/` of a path; all of it when it has none. -/
def dropLastComp (path : List UInt8) : List UInt8 :=
  (path.rdropWhile fun c => c ≠ 0x2f).dropLast

/-- Behind the last `/` of a path. -/
def lastComp (path : List UInt8) : List UInt8 := path.rtakeWhile fun c => c ≠ 0x2f

/-- `*pp++ = c` -/
def PathBuild.put (s : PathBuild) (c : UInt8) : Except (NsFault ⊕ Int) PathBuild :=
  if s.text.length < 511 then .ok { s with text := s.text ++ [c] } else .error (.inl .overrun)

/-- One character of a component. -/
def hpathChar (w : NsWorld φ) (s : PathBuild) (c : UInt8) : Except (NsFault ⊕ Int) PathBuild :=
  if c = 0xae then s.put 0x2e
  else if c = 0xaa then s.put 0x2a
  else if c = 0xbf then s.put 0x3f
  else if c = 0x5c then s.put 0x2f
  else if c = 0x3a then
    match nwGetVolumeNumber w s.text with
    | some volume => .ok ⟨some volume, [], 0⟩
    | none => .error (.inr (-0x98))
  else s.put c

/-- The slash before a component. -/
def hpathSlash (s : PathBuild) : Except (NsFault ⊕ Int) PathBuild :=
  if s.text = [] then .ok s
  else do
    let s ← s.put 0x2f
    return if s.text[s.npbeg]? = some 0x2f then { s with npbeg := s.npbeg + 1 } else s

/-- One component; none of its characters means the directory above. -/
def hpathComponent (w : NsWorld φ) (s : PathBuild) (k : Nat) (comp : List UInt8) :
    Except (NsFault ⊕ Int) PathBuild :=
  if comp = [] then
    if s.text = [] then .error (.inr (-0x9c))
    else
      let path := dropLastComp (CText.visible s.text)
      .ok { s with text := path, npbeg := path.length }
  else if k = 0 ∧ s.volume = none then
    match nwGetVolumeNumber w comp with
    | some volume => .ok ⟨some volume, [], 0⟩
    | none => .error (.inr (-0x98))
  else do
    let s ← hpathSlash s
    comp.foldlM (hpathChar w) s

/-- The loop of `add_hpath_to_nwpath` from component `k` on. -/
def hpathLoop (w : NsWorld φ) : List (List UInt8) → (k : Nat) → PathBuild →
    Except (NsFault ⊕ Int) PathBuild
  | [], _, s => .ok s
  | comp :: comps, k, s => do
      let s ← hpathComponent w s k comp
      hpathLoop w comps (k + 1) s

/-- Nobody is logged in, and bit 0 of entry 8 is not set. -/
def NsWorld.LoginOnly (w : NsWorld φ) : Prop := w.actObjId = 0 ∧ w.entry8Flags &&& 1 = 0

instance (w : NsWorld φ) : Decidable w.LoginOnly := inferInstanceAs (Decidable (_ ∧ _))

/-- The test of the path for clients that are not logged in. -/
def isLoginPath (w : NsWorld φ) (path : List UInt8) : Prop :=
  let pp := ((path.dropWhile fun c => c = 0x2f).take 6).map w.up
  pp.take 5 = loginName ∧ (pp.getD 5 0 = 0 ∨ pp.getD 5 0 = 0x2f)

instance (w : NsWorld φ) (path : List UInt8) : Decidable (isLoginPath w path) :=
  inferInstanceAs (Decidable (_ ∧ _))

/-! ## Names on disk -/

/-- `my_match` of nameos2.c: the length of the name `s` when it is the next component
of `p`. -/
def os2Match (imatch : UInt8 → UInt8 → Bool) : (s p : List UInt8) → (len : Nat) → Nat
  | [], p, len => if p = [] ∨ p.head? = some 0x2f then len else 0
  | _ :: _, [], _ => 0
  | c :: s, b :: p, len => if imatch c b then os2Match imatch s p (len + 1) else 0

/-- `get_match`: `done` ends before a separator, `rest` begins behind it. The components
of `rest` become the names that the directories have for them, as far as they have
one. The routine for DOS names passes over further separators. -/
def nsGetMatch (w : NsWorld φ) (fs : φ) (dos : Bool) (done rest : List UInt8) : List UInt8 :=
  let slashes := if dos then rest.takeWhile fun c => c = 0x2f else []
  let comp := if dos then rest.dropWhile fun c => c = 0x2f else rest
  let len := fun d : Dirent =>
    if dos then myMatch w.ufnImatch d.name comp 0 0 else os2Match w.ufnImatch d.name comp 0
  match w.readdir fs done with
  | none => rest
  | some entries =>
      match entries.find? fun d => d.ino ≠ 0 ∧ len d ≠ 0 with
      | none => rest
      | some d =>
          if _hmore : comp.drop d.name.length = [] then slashes ++ d.name
          else
            slashes ++ d.name ++ 0x2f ::
              nsGetMatch w fs dos (done ++ 0x2f :: slashes ++ d.name)
                (comp.drop d.name.length).tail
termination_by rest.length
decreasing_by
  refine length_tail_drop_lt ?_ ‹_›
  split
  · exact List.length_dropWhile_le _ _
  · exact le_rfl

/-- `mangle_dos_name` and `mangle_os2_name` on `pp`, which stands behind `before` in the
name. -/
def mangleName (w : NsWorld φ) (fs : φ) (dos : Bool) (before pp : List UInt8) : List UInt8 :=
  if dos ∧ (w.stat fs (before ++ pp)).isSome then pp
  else nsGetMatch w fs dos before.dropLast pp

/-- The case of a path, as `add_hpath_to_nwpath` gives it. -/
def hpathCase (w : NsWorld φ) (fs : φ) (namespaceId : UInt8) (volume : Nat) (s : PathBuild) :
    List UInt8 :=
  let path := CText.visible s.text
  if namespaceId ≠ nameDos ∧ namespaceId ≠ nameOs2 then path
  else
    match w.volumes[volume]? with
    | none => CText.visible (path.map w.up)
    | some v =>
        if !v.options.igncase then w.caseFn v path
        else if s.text.length ≤ s.npbeg then path
        else
          let text := path.map w.dos2unix
          let pp := CText.visible (text.drop s.npbeg)
          let pp := if namespaceId = nameDos then w.caseFn v pp else pp
          let pp := mangleName w fs (namespaceId = nameDos) (v.unixname ++ text.take s.npbeg) pp
          CText.visible (path.take s.npbeg ++ pp.map w.unix2dos)

/-- `add_hpath_to_nwpath`: the volume and the path. -/
def addHpathToNwpath (w : NsWorld φ) (fs : φ) (namespaceId : UInt8) (volume : Option Nat)
    (path : List UInt8) (nwp : NwHpath) : Except (NsFault ⊕ Int) (Nat × List UInt8) := do
  let s ← hpathLoop w nwp.components 0 ⟨volume, path, path.length⟩
  match s.volume with
  | none => .error (.inr (-0x9c))
  | some volume =>
      if w.LoginOnly ∧ ¬(volume = 0 ∧ isLoginPath w (CText.visible s.text)) then
        .error (.inr (-0x9c))
      else .ok (volume, hpathCase w fs namespaceId volume s)

/-! ## Names of calls -/

/-- `xnwpath_2_unix`; `noSlash` is bit 1 of `modus`. -/
def xnwpath2Unix (w : NsWorld φ) (volume : Nat) (path : List UInt8) (noSlash : Bool)
    (extraPath : List UInt8) : List UInt8 :=
  match w.volumes[volume]?.filter fun v => v.unixname ≠ [] with
  | none => (asciiBytes ['Z', '/', 'Z', '/', 'Z']).map w.dos2unix
  | some v =>
      let name := v.unixname ++ path
      let name :=
        if noSlash && name.getLast? = some 0x2f then
          if 1 < name.length then name.dropLast else name ++ [0x2e]
        else if extraPath = [] then name
        else (if name.getLast? = some 0x2f then name else name ++ [0x2f]) ++ extraPath
      CText.visible (name.map w.dos2unix)

/-- `nwpath_2_unix` and `alloc_nwpath2unix` with `modus` 2. -/
def nwpath2Unix (w : NsWorld φ) (volume : Nat) (path : List UInt8) : List UInt8 :=
  xnwpath2Unix w volume path true []

end MarsNwe.NameSpace
