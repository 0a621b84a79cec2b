import Mathlib.Algebra.Ring.Nat
import MarsNwe.Namspace.Entries

/-! # Handles of a volume

A handle packs an inode with the number of a map, which stands for a device and a
name space. The maps of a volume are only ever added to, so a handle keeps what it
was made from.
-/

namespace MarsNwe.Volume

open NameSpace (NsVol NsM NsWorld)

/-! ## The code -/

section Code

variable {δ : Type} [DecidableEq δ]

/-- `look_name_space_map` with `do_insert`; `δ` is a device with a name space. -/
def lookNameSpaceMap (v : NsVol) (maps : List δ) (dnm : δ) : List δ × Option Nat :=
  match maps.findIdx? (· = dnm) with
  | some k => (maps, some k)
  | none =>
      if maps.length < v.maxMapsCount then (maps ++ [dnm], some maps.length) else (maps, none)

/-- `nw_vol_inode_to_handle`; the maps are those of all volumes. -/
def nwVolInodeToHandle (volumes : List NsVol) (maps : Nat → List δ) (volume inode : Nat)
    (dnm : δ) : UInt32 × (Nat → List δ) :=
  match volumes[volume]? with
  | none => (0, maps)
  | some v =>
      if inode > 0 ∧ inode ≤ v.highInode.toNat then
        let (found, result) := lookNameSpaceMap v (maps volume) dnm
        let maps := Function.update maps volume found
        match result with
        | some k =>
            (if v.oneDev then UInt32.ofNat inode
              else UInt32.ofNat k <<< 28 ||| UInt32.ofNat inode, maps)
        | none => (0, maps)
      else (0, maps)

/-- `nw_vol_handle_to_inode` -/
def nwVolHandleToInode (volumes : List NsVol) (maps : Nat → List δ) (volume : Nat)
    (handle : UInt32) : Option (Nat × δ) :=
  if handle > 0 then
    volumes[volume]?.bind fun v =>
      let entry := if v.oneDev then 0 else ((handle >>> 28) &&& 0xf).toNat
      (maps volume)[entry]?.map fun dnm => ((handle &&& v.highInode).toNat, dnm)
  else none

/-- What a handle is asked for. -/
structure HandleCall (δ : Type) where
  volume : Nat
  inode : Nat
  dnm : δ

/-- The maps of the volumes, as the calls for handles fill them. -/
def handleMachine (volumes : List NsVol) : Machine (Nat → List δ) (HandleCall δ) UInt32 where
  step maps c := nwVolInodeToHandle volumes maps c.volume c.inode c.dnm

/-- The handle a call gets after some others, the first of which came when the
volumes had just been initialised. -/
def handleAfter (volumes : List NsVol) (before : List (HandleCall δ)) (c : HandleCall δ) : UInt32 :=
  ((handleMachine volumes).step ((handleMachine volumes).exec (fun _ => []) before) c).1

end Code

/-! ## Packing -/

/-- A map number above the 28 bits of an inode. -/
theorem toNat_pack {k i : Nat} (hk : k < 16) (hi : i < 2 ^ 28) :
    (UInt32.ofNat k <<< 28 ||| UInt32.ofNat i).toNat = k * 2 ^ 28 + i := by
  have hshift : (UInt32.ofNat k <<< 28).toNat = k <<< 28 := by
    have hbits : UInt32.toNat 28 % 32 = 28 := rfl
    rw [UInt32.toNat_shiftLeft, UInt32.toNat_ofNat', hbits, Nat.shiftLeft_eq, Nat.shiftLeft_eq]
    omega
  rw [UInt32.toNat_or, hshift, UInt32.toNat_ofNat', Nat.mod_eq_of_lt (by omega),
    ← Nat.shiftLeft_add_eq_or_of_lt hi, Nat.shiftLeft_eq]

theorem pack_shiftRight {k i : Nat} (hk : k < 16) (hi : i < 2 ^ 28) :
    (((UInt32.ofNat k <<< 28 ||| UInt32.ofNat i) >>> 28) &&& 0xf).toNat = k := by
  have hbits : UInt32.toNat 28 % 32 = 28 := rfl
  have hmask : (0xf : UInt32).toNat = 2 ^ 4 - 1 := rfl
  rw [UInt32.toNat_and, UInt32.toNat_shiftRight, toNat_pack hk hi, hbits, hmask,
    Nat.and_two_pow_sub_one_eq_mod, Nat.shiftRight_eq_div_pow]
  omega

theorem pack_and {k i : Nat} (hk : k < 16) (hi : i < 2 ^ 28) :
    ((UInt32.ofNat k <<< 28 ||| UInt32.ofNat i) &&& 0xfffffff).toNat = i := by
  have hmask : (0xfffffff : UInt32).toNat = 2 ^ 28 - 1 := rfl
  rw [UInt32.toNat_and, toNat_pack hk hi, hmask, Nat.and_two_pow_sub_one_eq_mod]
  omega

/-! ## The maps of a volume -/

section Maps

variable {δ : Type} {volumes : List NsVol}

/-- No volume has more maps than it may have. -/
def Bounded (volumes : List NsVol) (maps : Nat → List δ) : Prop :=
  ∀ volume v, volumes[volume]? = some v → (maps volume).length ≤ v.maxMapsCount

/-- Maps that have only been added to. -/
def Grown (maps maps' : Nat → List δ) : Prop := ∀ volume, maps volume <+: maps' volume

theorem Grown.refl (maps : Nat → List δ) : Grown maps maps := fun _ => List.prefix_rfl

theorem Grown.trans {maps maps' maps'' : Nat → List δ} (h : Grown maps maps')
    (h' : Grown maps' maps'') : Grown maps maps'' := fun volume => (h volume).trans (h' volume)

theorem Grown.update {maps : Nat → List δ} {volume : Nat} {found : List δ}
    (h : maps volume <+: found) : Grown maps (Function.update maps volume found) := by
  intro volume'
  by_cases heq : volume' = volume
  · subst heq
    rw [Function.update_self]
    exact h
  · rw [Function.update_of_ne heq]

variable [DecidableEq δ]

/-- A look-up keeps the maps there are, and the number it gives is that of the map
looked for. -/
theorem lookNameSpaceMap_spec {v : NsVol} {maps : List δ} (dnm : δ)
    (hlen : maps.length ≤ v.maxMapsCount) :
    maps <+: (lookNameSpaceMap v maps dnm).1 ∧
      (lookNameSpaceMap v maps dnm).1.length ≤ v.maxMapsCount ∧
      ∀ k, (lookNameSpaceMap v maps dnm).2 = some k →
        (lookNameSpaceMap v maps dnm).1[k]? = some dnm := by
  unfold lookNameSpaceMap
  split
  next k hfind =>
    refine ⟨List.prefix_rfl, hlen, fun k' hk' => ?_⟩
    cases hk'
    obtain ⟨hk, hdnm, -⟩ := List.findIdx?_eq_some_iff_getElem.mp hfind
    rw [List.getElem?_eq_getElem hk]
    exact congrArg some (of_decide_eq_true hdnm)
  next =>
    split
    next hroom =>
      refine ⟨List.prefix_append maps [dnm], ?_, fun k' hk' => ?_⟩
      · rw [List.length_append, List.length_singleton]
        exact hroom
      · cases hk'
        exact List.getElem?_concat_length
    next => exact ⟨List.prefix_rfl, hlen, fun k' hk' => by cases hk'⟩

/-- A call for a handle adds to the maps at most. -/
theorem grown_nwVolInodeToHandle {maps : Nat → List δ} (hmaps : Bounded volumes maps)
    (volume inode : Nat) (dnm : δ) :
    Grown maps (nwVolInodeToHandle volumes maps volume inode dnm).2 ∧
      Bounded volumes (nwVolInodeToHandle volumes maps volume inode dnm).2 := by
  unfold nwVolInodeToHandle
  split
  next => exact ⟨.refl maps, hmaps⟩
  next v hv =>
    split
    next =>
      obtain ⟨hgrown, hlen, -⟩ := lookNameSpaceMap_spec dnm (hmaps volume v hv)
      have hbounded : Bounded volumes
          (Function.update maps volume (lookNameSpaceMap v (maps volume) dnm).1) := by
        intro volume' v' hv'
        by_cases heq : volume' = volume
        · subst heq
          rw [hv, Option.some.injEq] at hv'
          rw [Function.update_self, ← hv']
          exact hlen
        · rw [Function.update_of_ne heq]
          exact hmaps volume' v' hv'
      dsimp only
      split
      next => exact ⟨.update hgrown, hbounded⟩
      next => exact ⟨.update hgrown, hbounded⟩
    next => exact ⟨.refl maps, hmaps⟩

omit [DecidableEq δ] in
/-- What a packed handle decodes to. -/
theorem nwVolHandleToInode_pack {v : NsVol} {maps : Nat → List δ} {volume inode k : Nat} {dnm : δ}
    (hv : volumes[volume]? = some v) (hinode : inode > 0 ∧ inode ≤ v.highInode.toNat)
    (hk : k < v.maxMapsCount) (hmap : (maps volume)[k]? = some dnm)
    (hne : (if v.oneDev then UInt32.ofNat inode
      else UInt32.ofNat k <<< 28 ||| UInt32.ofNat inode) ≠ 0) :
    nwVolHandleToInode volumes maps volume (if v.oneDev then UInt32.ofNat inode
      else UInt32.ofNat k <<< 28 ||| UInt32.ofNat inode) = some (inode, dnm) := by
  rw [nwVolHandleToInode, if_pos (UInt32.pos_iff_ne_zero.mpr hne), hv, Option.bind_some]
  cases hone : v.oneDev with
  | true =>
      have hmax : v.maxMapsCount = 1 := by rw [NsVol.maxMapsCount, hone, if_pos rfl]
      have hhigh : v.highInode = 0xffffffff := by rw [NsVol.highInode, hone, if_pos rfl]
      have hzero : k = 0 := by omega
      have hbound : inode ≤ 0xffffffff := by
        have hle := hinode.2
        rwa [hhigh] at hle
      have hmask : (0xffffffff : UInt32).toNat = 2 ^ 32 - 1 := rfl
      rw [hzero] at hmap
      simp only [if_true, hhigh, hmap, Option.map_some, UInt32.toNat_and, UInt32.toNat_ofNat']
      rw [hmask, Nat.and_two_pow_sub_one_eq_mod, Nat.mod_mod, Nat.mod_eq_of_lt (by omega)]
  | false =>
      have hmax : v.maxMapsCount = 16 := by rw [NsVol.maxMapsCount, hone]; rfl
      have hhigh : v.highInode = 0xfffffff := by rw [NsVol.highInode, hone]; rfl
      have hk16 : k < 16 := hmax ▸ hk
      have hi : inode < 2 ^ 28 := by
        have hle := hinode.2
        rw [hhigh] at hle
        exact Nat.lt_succ_of_le hle
      simp only [Bool.false_eq_true, if_false, hhigh, pack_shiftRight hk16 hi, pack_and hk16 hi,
        hmap, Option.map_some]

/-- A handle decodes to what it was made from as long as the maps are only added
to. -/
theorem nwVolHandleToInode_of_grown {maps later : Nat → List δ} (hmaps : Bounded volumes maps)
    {volume inode : Nat} {dnm : δ}
    (hne : (nwVolInodeToHandle volumes maps volume inode dnm).1 ≠ 0)
    (hlater : Grown (nwVolInodeToHandle volumes maps volume inode dnm).2 later) :
    nwVolHandleToInode volumes later volume (nwVolInodeToHandle volumes maps volume inode dnm).1 =
      some (inode, dnm) := by
  cases hv : volumes[volume]? with
  | none => exact absurd (by rw [nwVolInodeToHandle, hv]) hne
  | some v =>
      by_cases hinode : inode > 0 ∧ inode ≤ v.highInode.toNat
      · obtain ⟨-, hlen, hfound⟩ := lookNameSpaceMap_spec dnm (hmaps volume v hv)
        cases hresult : (lookNameSpaceMap v (maps volume) dnm).2 with
        | none =>
            refine absurd ?_ hne
            simp only [nwVolInodeToHandle, hv, if_pos hinode, hresult]
        | some k =>
            have hstep : nwVolInodeToHandle volumes maps volume inode dnm =
                (if v.oneDev then UInt32.ofNat inode
                  else UInt32.ofNat k <<< 28 ||| UInt32.ofNat inode,
                Function.update maps volume (lookNameSpaceMap v (maps volume) dnm).1) := by
              simp only [nwVolInodeToHandle, hv, if_pos hinode, hresult]
            rw [hstep] at hlater hne ⊢
            have hkept := hlater volume
            dsimp only at hkept
            rw [Function.update_self] at hkept
            have hk := (List.getElem?_eq_some_iff.mp (hfound k hresult)).1
            have hmap : (later volume)[k]? = some dnm := by
              obtain ⟨added, hadded⟩ := hkept
              rw [← hadded, List.getElem?_append_left hk]
              exact hfound k hresult
            exact nwVolHandleToInode_pack hv hinode (Nat.lt_of_lt_of_le hk hlen) hmap hne
      · refine absurd ?_ hne
        simp only [nwVolInodeToHandle, hv, if_neg hinode]

/-! ## Runs -/

omit [DecidableEq δ] in
theorem bounded_nil : Bounded volumes (fun _ => ([] : List δ)) := fun _ _ _ => Nat.zero_le _

/-- Whatever calls there are, the maps are only added to. -/
theorem grown_exec (calls : List (HandleCall δ)) {maps : Nat → List δ}
    (hmaps : Bounded volumes maps) :
    Grown maps ((handleMachine volumes).exec maps calls) ∧
      Bounded volumes ((handleMachine volumes).exec maps calls) := by
  induction calls generalizing maps with
  | nil => exact ⟨.refl maps, hmaps⟩
  | cons c calls ih =>
      obtain ⟨hgrown, hbounded⟩ := grown_nwVolInodeToHandle hmaps c.volume c.inode c.dnm
      obtain ⟨hrest, hend⟩ := ih hbounded
      exact ⟨hgrown.trans hrest, hend⟩

/-- Every handle but 0 decodes to what it was made from whatever calls follow. -/
theorem handleAfter_decodes (before : List (HandleCall δ)) (c : HandleCall δ)
    (hne : handleAfter volumes before c ≠ 0) (after : List (HandleCall δ)) :
    nwVolHandleToInode volumes ((handleMachine volumes).exec (fun _ => []) (before ++ c :: after))
      c.volume (handleAfter volumes before c) = some (c.inode, c.dnm) := by
  obtain ⟨-, hbounded⟩ := grown_exec before (bounded_nil : Bounded volumes fun _ => ([] : List δ))
  obtain ⟨-, hnext⟩ := grown_nwVolInodeToHandle hbounded c.volume c.inode c.dnm
  rw [Machine.exec_append, Machine.exec_cons]
  exact nwVolHandleToInode_of_grown hbounded hne (grown_exec after hnext).1

/-- In any sequence of calls the handles other than 0 decode, at any later time, to
what they were made from, and two calls for a volume get the same one only for the
same inode, device and name space. -/
theorem handles_decode (volumes : List NsVol) (calls : List (HandleCall δ)) :
    (∀ before c after rest, calls = before ++ c :: after ++ rest →
      handleAfter volumes before c ≠ 0 →
      nwVolHandleToInode volumes
        ((handleMachine volumes).exec (fun _ => []) (before ++ c :: after)) c.volume
        (handleAfter volumes before c) = some (c.inode, c.dnm)) ∧
    ∀ before c after before' c' after', calls = before ++ c :: after →
      calls = before' ++ c' :: after' → c.volume = c'.volume →
      handleAfter volumes before c = handleAfter volumes before' c' →
      handleAfter volumes before c ≠ 0 → c.inode = c'.inode ∧ c.dnm = c'.dnm := by
  refine ⟨fun before c after _ _ hne => handleAfter_decodes before c hne after, ?_⟩
  intro before c after before' c' after' hcalls hcalls' hvolume hsame hne
  have hdecode := handleAfter_decodes before c hne after
  have hdecode' := handleAfter_decodes before' c' (hsame ▸ hne) after'
  rw [← hcalls, hvolume, hsame] at hdecode
  rw [← hcalls', hdecode, Option.some.injEq, Prod.mk.injEq] at hdecode'
  exact hdecode'

end Maps

/-! ## The name space calls -/

/-- The entries ask for their handles by this code. -/
theorem nameSpace_nwVolInodeToHandle {φ : Type} (w : NsWorld φ) (volume : Nat) (inode : UInt64)
    (dnm : NameSpace.DevNamespaceMap) (s : NameSpace.NsState φ) :
    (NameSpace.nwVolInodeToHandle w volume inode dnm).run s =
      .ok ((nwVolInodeToHandle w.volumes s.maps volume inode.toNat dnm).1,
        { s with maps := (nwVolInodeToHandle w.volumes s.maps volume inode.toNat dnm).2 }) := by
  rw [nwVolInodeToHandle]
  cases hv : w.volumes[volume]? with
  | none => simp only [NameSpace.nwVolInodeToHandle, hv]; rfl
  | some v =>
      have hsame : lookNameSpaceMap v (s.maps volume) dnm =
          NameSpace.lookNameSpaceMap v (s.maps volume) dnm := rfl
      have hrange : ¬(inode = 0 ∨ v.highInode.toUInt64 < inode) ↔
          inode.toNat > 0 ∧ inode.toNat ≤ v.highInode.toNat := by
        rw [not_or, ← UInt64.toNat_inj, UInt64.lt_iff_toNat_lt, UInt32.toNat_toUInt64]
        change ¬inode.toNat = 0 ∧ _ ↔ _
        omega
      simp only [NameSpace.nwVolInodeToHandle, hv]
      by_cases hinode : inode = 0 ∨ v.highInode.toUInt64 < inode
      · rw [if_pos hinode, if_neg fun h => hrange.mpr h hinode]
        rfl
      · rw [if_neg hinode, if_pos (hrange.mp hinode), hsame]
        cases hlook : NameSpace.lookNameSpaceMap v (s.maps volume) dnm with
        | mk found result =>
            cases result with
            | none =>
                simp [hlook]
                rfl
            | some k =>
                simp [hlook]
                rfl

end MarsNwe.Volume
