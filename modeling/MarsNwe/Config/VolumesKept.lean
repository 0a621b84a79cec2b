import MarsNwe.Config.Volumes

/-! # What every volume is like

Whatever the ini file holds, and however often it is read again and users log in: the
volumes are what the other modules take them for.
-/

namespace MarsNwe.Volume

open Formatted (atoi scanWord)
open NameSpace (NsVol)

/-! ## Volumes -/

/-- A directory name as volumes have it: no zero in it, and a separator at its end, if it
is not empty. -/
structure DirText (name : List UInt8) : Prop where
  noNul : (0 : UInt8) ∉ name
  ends : name = [] ∨ name.getLast? = some 0x2f

/-- The options fit together. -/
structure FlagsOk (f : VolFlags) : Prop where
  home : f.isHome = true → f.remount = true
  noInodes : f.noInodes = true →
    f.trustees = false ∧ f.ignUnxRight = false ∧ f.attributes = false
  ignUnxRight : f.ignUnxRight = true → f.trustees = true
  dos : f.dos = true

/-- A volume as the other modules take it. Only a home volume can be without a directory;
the name is made in 256 bytes, and for a home volume in 258. -/
structure ConfigOk (v : VolConfig) : Prop where
  unixname : DirText v.unixname
  length : v.unixname.length ≤ 256
  homeaddon : DirText v.homeaddon
  plain : v.options.isHome = false → v.unixname ≠ [] ∧ v.unixname.length ≤ 255
  flags : FlagsOk v.options
  maxMaps : v.maxMapsCount = if v.options.oneDev then 1 else 16
  high : v.highInode = if v.options.oneDev then 0xffffffff else 0xfffffff
  maps : v.maps.length ≤ v.maxMapsCount

/-- The volumes of a connection. -/
structure VolumesOk (s : Volumes) : Prop where
  each : ∀ v ∈ s.volumes, ConfigOk v
  count : ∀ max ∈ s.maxVols, s.volumes.length ≤ max
  unread : s.maxVols = none → s.volumes = []
  os2 : s.loadedOs2 = s.volumes.any fun v => v.options.os2
  nfs : s.loadedNfs = s.volumes.any fun v => v.options.nfs
  homeDir : DirText s.homeDir

/-- What the name space calls and the paths of requests work with. -/
def VolConfig.nsVol (v : VolConfig) (h : ConfigOk v) : NsVol where
  sysname := v.sysname
  unixname := v.unixname
  options := ⟨v.options.downshift, v.options.isPipe, v.options.remount, v.options.igncase⟩
  noNul := h.unixname.noNul
  ends := h.unixname.ends
  readonly := v.options.readonly
  oneDev := v.options.oneDev
  os2 := v.options.os2
  nfs := v.options.nfs

theorem VolConfig.nsVol_limits {v : VolConfig} (h : ConfigOk v) :
    (v.nsVol h).maxMapsCount = v.maxMapsCount ∧ (v.nsVol h).highInode = v.highInode :=
  ⟨h.maxMaps.symm, h.high.symm⟩

/-! ## Directory names -/

theorem dirText_nil : DirText [] := ⟨List.not_mem_nil, .inl rfl⟩

theorem endWithSep_dirText {name : List UInt8} (h : (0 : UInt8) ∉ name) :
    DirText (endWithSep name) := by
  unfold endWithSep
  split
  next hlast => exact ⟨h, .inr hlast⟩
  next => exact ⟨by simp [h], .inr (by simp)⟩

theorem endWithSep_ne_nil (name : List UInt8) : endWithSep name ≠ [] := by
  unfold endWithSep
  split
  next hlast =>
    rintro rfl
    cases hlast
  next => simp

theorem length_endWithSep_le (name : List UInt8) :
    (endWithSep name).length ≤ name.length + 1 := by
  unfold endWithSep
  split
  · exact Nat.le_succ _
  · simp

/-! ## Options -/

/-- What the characters of an option string keep. -/
structure FlagsRead (home : Bool) (f : VolFlags) : Prop where
  isHome : f.isHome = home
  attributes : f.attributes = true
  ignUnxRight : f.ignUnxRight = true → f.trustees = true
  dos : f.dos = true

theorem FlagsRead.option {home : Bool} {f : VolFlags} (h : FlagsRead home f) (c : UInt8) :
    FlagsRead home (f.option c) := by
  obtain ⟨hhome, hattributes, hign, hdos⟩ := h
  unfold VolFlags.option
  repeat' refine iteInduction (fun _ => ?_) fun _ => ?_
  all_goals first
    | exact ⟨hhome, hattributes, hign, hdos⟩
    | exact ⟨hhome, hattributes, fun _ => rfl, hdos⟩

theorem FlagsRead.options {home : Bool} {f : VolFlags} (h : FlagsRead home f)
    (s : List UInt8) : FlagsRead home (s.foldl VolFlags.option f) := by
  induction s generalizing f with
  | nil => exact h
  | cons c s ih => exact ih (h.option c)

theorem FlagsRead.checked {home : Bool} {f : VolFlags} (h : FlagsRead home f) :
    FlagsOk f.checked ∧ f.checked.isHome = home ∧ f.checked.oneDev = f.oneDev := by
  obtain ⟨hhome, -, hign, hdos⟩ := h
  unfold VolFlags.checked
  cases hh : f.isHome <;> cases hn : f.noInodes <;>
    refine ⟨⟨?_, ?_, ?_, ?_⟩, ?_, ?_⟩ <;> simp_all

/-! ## Starts -/

section Starts

variable (w : VolWorld)

/-- A map is added to the maps of the volume, or nothing happens. -/
theorem volumeToNamespaceMap_cases (v : VolConfig) :
    volumeToNamespaceMap w v = v ∨ ∃ m, v.maps.length < v.maxMapsCount ∧
      volumeToNamespaceMap w v = { v with maps := v.maps ++ [m] } := by
  unfold volumeToNamespaceMap
  split
  · exact .inl rfl
  · split
    · split
      · exact .inl rfl
      next hnew => exact .inr ⟨_, not_le.mp (not_or.mp hnew).2, rfl⟩
    · exact .inl rfl

theorem ConfigOk.mapped {v : VolConfig} (h : ConfigOk v) :
    ConfigOk (volumeToNamespaceMap w v) := by
  rcases volumeToNamespaceMap_cases w v with hsame | ⟨m, hroom, hadded⟩
  · rw [hsame]
    exact h
  · rw [hadded]
    refine ⟨h.unixname, h.length, h.homeaddon, h.plain, h.flags, h.maxMaps, h.high, ?_⟩
    rw [List.length_append, List.length_singleton]
    exact hroom

theorem mapped_options (v : VolConfig) :
    (volumeToNamespaceMap w v).options = v.options := by
  rcases volumeToNamespaceMap_cases w v with hsame | ⟨m, -, hadded⟩
  · rw [hsame]
  · rw [hadded]

theorem mapped_checked {v : VolConfig}
    (h : ∀ maps : List DevMap, maps.length ≤ v.maxMapsCount → ConfigOk
      { v with options := v.options.checked, maps := maps }) (hmaps : v.maps = []) :
    ConfigOk { volumeToNamespaceMap w v with
      options := (volumeToNamespaceMap w v).options.checked } := by
  rcases volumeToNamespaceMap_cases w v with hsame | ⟨m, hroom, hadded⟩
  · rw [hsame]
    exact h v.maps (by rw [hmaps]; exact Nat.zero_le _)
  · rw [hadded]
    refine h (v.maps ++ [m]) ?_
    rw [List.length_append, List.length_singleton]
    exact hroom

theorem initVolume_ok {sysname unixname : List UInt8} {more : List (List UInt8)}
    (hnul : (0 : UInt8) ∉ unixname) (hlen : unixname.length ≤ 254) :
    ConfigOk (initVolume w sysname unixname more) := by
  have haddonNul : (0 : UInt8) ∉ unixname.drop 2 := fun h => hnul (List.mem_of_mem_drop h)
  have haddon : DirText (if 2 < unixname.length then endWithSep (unixname.drop 2) else []) := by
    split
    · exact endWithSep_dirText haddonNul
    · exact dirText_nil
  have hends := endWithSep_dirText hnul
  have hendsLen := length_endWithSep_le unixname
  have hread : ∀ home, FlagsRead home { VolFlags.default with isHome := home } :=
    fun home => ⟨rfl, rfl, fun h => (by cases h), rfl⟩
  unfold initVolume
  dsimp only
  by_cases hhome : unixname.head? = some 0x7e ∧
      (unixname.tail = [] ∨ unixname.tail.head? = some 0x2f)
  · -- a home volume has no directory yet
    have hflags := (hread true).options (more.headD [])
    obtain ⟨hchecked, hisHome, honeDev⟩ := hflags.checked
    simp only [hhome, if_true, true_and, decide_true, ne_eq, not_true_eq_false, if_false]
    generalize (more.headD []).foldl VolFlags.option _ = options at hchecked hisHome honeDev ⊢
    exact ⟨dirText_nil, Nat.zero_le _, haddon, fun h => (by rw [hisHome] at h; cases h), hchecked,
      (by rw [honeDev]), (by rw [honeDev]), Nat.zero_le _⟩
  · have hflags := (hread false).options (more.headD [])
    obtain ⟨hchecked, -, honeDev⟩ := hflags.checked
    simp only [hhome, if_false, false_and, decide_false, ne_eq, endWithSep_ne_nil,
      not_false_eq_true, if_true]
    generalize (more.headD []).foldl VolFlags.option _ = options at hchecked honeDev ⊢
    refine mapped_checked w (fun maps hmaps => ?_) rfl
    have hshort : (endWithSep unixname).length ≤ 255 := hendsLen.trans (by omega)
    exact ⟨hends, hshort.trans (by omega), dirText_nil,
      fun _ => ⟨endWithSep_ne_nil unixname, hshort⟩, hchecked, (by rw [honeDev]), (by rw [honeDev]), hmaps⟩

/-- The volume that an entry makes. -/
def entryVolume (e : Int × List UInt8) : Option VolConfig :=
  if e.1 = 1 ∧ 3 < e.2.length then
    match scanWords 5 e.2 with
    | sysname :: unixname :: more => some (initVolume w sysname unixname more)
    | _ => none
  else none

end Starts

theorem scanWord_suffix {l word rest : List UInt8} (h : scanWord l = some (word, rest)) :
    rest <:+ l := by
  unfold scanWord at h
  dsimp only at h
  split at h
  · cases h
  · obtain ⟨-, rfl⟩ := Prod.mk.inj (Option.some.inj h)
    exact (List.dropWhile_suffix _).trans (List.dropWhile_suffix _)

/-- A word is taken out of the text, so what is left is shorter. -/
theorem scanWord_shorter {l word rest : List UInt8} (h : scanWord l = some (word, rest)) :
    rest.length < l.length := by
  have hne := (Formatted.of_scanWord h).1
  unfold scanWord at h
  dsimp only at h
  split at h
  · cases h
  · obtain ⟨rfl, rfl⟩ := Prod.mk.inj (Option.some.inj h)
    have hparts := congrArg List.length (List.takeWhile_append_dropWhile
      (p := fun c => !Formatted.isSpace c) (l := Formatted.skipSpace l))
    have hskip : (Formatted.skipSpace l).length ≤ l.length := (List.dropWhile_suffix _).length_le
    have hword := List.length_pos_of_ne_nil hne
    rw [List.length_append] at hparts
    omega

theorem infix_of_mem_scanWords {n : Nat} {text word : List UInt8} (h : word ∈ scanWords n text) :
    word <:+: text := by
  induction n generalizing text with
  | zero => exact absurd h List.not_mem_nil
  | succ n ih =>
      rw [scanWords] at h
      cases hword : scanWord text with
      | none =>
          rw [hword] at h
          exact absurd h List.not_mem_nil
      | some r =>
          obtain ⟨first, rest⟩ := r
          rw [hword] at h
          rcases List.mem_cons.mp h with rfl | hmem
          · exact (Formatted.of_scanWord hword).2.2
          · exact (ih hmem).trans (scanWord_suffix hword).isInfix

/-- The second word of a text is shorter than the text, as the first is not empty. -/
theorem second_of_scanWords {n : Nat} {text first second : List UInt8} {more : List (List UInt8)}
    (h : scanWords (n + 2) text = first :: second :: more) :
    second <:+: text ∧ second.length < text.length := by
  rw [scanWords] at h
  cases hfirst : scanWord text with
  | none =>
      rw [hfirst] at h
      cases h
  | some r =>
      obtain ⟨word, rest⟩ := r
      rw [hfirst] at h
      obtain ⟨rfl, hrest⟩ := List.cons.inj h
      have hin : second <:+: rest := infix_of_mem_scanWords (n := n + 1) (by rw [hrest]; simp)
      exact ⟨hin.trans (scanWord_suffix hfirst).isInfix,
        hin.length_le.trans_lt (scanWord_shorter hfirst)⟩

/-- What an entry of the ini file can be. -/
structure EntryText (e : Int × List UInt8) : Prop where
  noNul : (0 : UInt8) ∉ e.2
  length : e.2.length ≤ 255

theorem entryVolume_ok {w : VolWorld} {e : Int × List UInt8} (he : EntryText e) {v : VolConfig}
    (h : entryVolume w e = some v) : ConfigOk v := by
  unfold entryVolume at h
  split at h
  · cases hwords : scanWords 5 e.2 with
    | nil => rw [hwords] at h; cases h
    | cons sysname words =>
        cases words with
        | nil => rw [hwords] at h; cases h
        | cons unixname more =>
            rw [hwords] at h
            obtain rfl := Option.some.inj h
            obtain ⟨hin, hshorter⟩ := second_of_scanWords hwords
            have hlength := he.length
            exact initVolume_ok w (fun hmem => he.noNul (hin.subset hmem)) (by omega)
  · cases h

/-! ## The loop over the entries -/

/-- An entry adds its volume as long as there is room for it. -/
theorem takeEntry_volumes (w : VolWorld) (max : Nat) (s : Volumes) (e : Int × List UInt8) :
    (takeEntry w max s e).volumes =
      s.volumes ++ (if s.volumes.length < max then (entryVolume w e).toList else []) := by
  unfold takeEntry entryVolume
  by_cases hroom : s.volumes.length < max
  · simp only [hroom, true_and, if_true]
    split
    · cases scanWords 5 e.2 with
      | nil => simp
      | cons sysname words => cases words <;> simp
    · split_ifs <;> simp
  · simp only [hroom, false_and, and_false, if_false, List.append_nil]
    split_ifs <;> rfl

/-- An entry adds a volume, or changes the path of some file at most. -/
theorem takeEntry_cases (w : VolWorld) (max : Nat) (s : Volumes) (e : Int × List UInt8) :
    (∃ v, entryVolume w e = some v ∧ s.volumes.length < max ∧
      takeEntry w max s e = { s with
        volumes := s.volumes ++ [v]
        loadedOs2 := s.loadedOs2 || v.options.os2
        loadedNfs := s.loadedNfs || v.options.nfs }) ∨
    ∃ cache attributes trustees, takeEntry w max s e = { s with
      pathVolInodesCache := cache, pathAttributes := attributes, pathTrustees := trustees } := by
  unfold takeEntry entryVolume
  by_cases hvolume : e.1 = 1 ∧ s.volumes.length < max ∧ 3 < e.2.length
  · rw [if_pos hvolume, if_pos ⟨hvolume.1, hvolume.2.2⟩]
    cases scanWords 5 e.2 with
    | nil => exact .inr ⟨_, _, _, rfl⟩
    | cons sysname words =>
        cases words with
        | nil => exact .inr ⟨_, _, _, rfl⟩
        | cons unixname more => exact .inl ⟨_, rfl, hvolume.2.1, rfl⟩
  · rw [if_neg hvolume]
    split_ifs <;> exact .inr ⟨_, _, _, rfl⟩

theorem VolumesOk.takeEntry {w : VolWorld} {max : Nat} {s : Volumes} {e : Int × List UInt8}
    (h : VolumesOk s) (hmax : s.maxVols = some max) (he : EntryText e) :
    VolumesOk (takeEntry w max s e) ∧ (takeEntry w max s e).maxVols = some max := by
  rcases takeEntry_cases w max s e with ⟨v, hv, hroom, heq⟩ | ⟨_, _, _, heq⟩
  · rw [heq]
    refine ⟨⟨fun v' hv' => ?_, fun max' hmax' => ?_, fun hnone => ?_, ?_, ?_, h.homeDir⟩, hmax⟩
    · rcases List.mem_append.mp hv' with hold | hnew
      · exact h.each v' hold
      · rw [List.mem_singleton.mp hnew]
        exact entryVolume_ok he hv
    · obtain rfl := Option.some.inj (hmax.symm.trans hmax')
      rw [List.length_append, List.length_singleton]
      exact hroom
    · rw [hmax] at hnone
      cases hnone
    · simp [h.os2]
    · simp [h.nfs]
  · rw [heq]
    exact ⟨⟨h.each, h.count, h.unread, h.os2, h.nfs, h.homeDir⟩, hmax⟩

theorem entryText_answer {buff : List UInt8} {e : IniEntry} (h : lineEntry buff = some e) :
    EntryText (anyEntry.answer e) :=
  ⟨fun hmem => noNul_lineEntry h (List.mem_of_mem_take hmem), List.length_take_le _ _⟩

/-- The loop goes through the entries of the file. -/
theorem initLoop_eq (w : VolWorld) (max : Nat) (f : IniFile) (s : Volumes) :
    initLoop w max f s =
      (f.entries.map anyEntry.answer).foldl (takeEntry w max) s := by
  induction hlen : f.length using Nat.strong_induction_on generalizing f s with
  | _ n ih =>
      subst hlen
      rw [initLoop]
      rcases getIniEntry_any f (c := anyEntry) rfl with ⟨f', hread, hnil⟩ | ⟨e, f', hread, hcons⟩
      · rw [hnil]
        split
        · rfl
        next hread' => rw [hread] at hread'; cases hread'
      · rw [hcons]
        split
        next hread' => rw [hread] at hread'; cases hread'
        next e' f'' hread' =>
          obtain ⟨rfl, rfl⟩ : e' = anyEntry.answer e ∧ f'' = f' := by
            rw [hread] at hread'
            obtain ⟨hanswer, hnext⟩ := Prod.mk.inj hread'
            exact ⟨(Option.some.inj hanswer).symm, hnext.symm⟩
          exact ih _ (length_getIniEntry f anyEntry.entry anyEntry.strsize hread') _ _ rfl

theorem foldl_takeEntry_volumes (w : VolWorld) (max : Nat) {s : Volumes}
    (es : List (Int × List UInt8)) (hs : s.volumes.length ≤ max) :
    (es.foldl (takeEntry w max) s).volumes =
      (s.volumes ++ es.filterMap (entryVolume w)).take max := by
  induction es generalizing s with
  | nil => simp [List.take_of_length_le hs]
  | cons e es ih =>
      have hstep := takeEntry_volumes w max s e
      rw [List.foldl_cons]
      by_cases hroom : s.volumes.length < max
      · rw [if_pos hroom] at hstep
        have hlen : (takeEntry w max s e).volumes.length ≤ max := by
          rw [hstep, List.length_append]
          have hone : (entryVolume w e).toList.length ≤ 1 := by
            cases entryVolume w e <;> simp
          omega
        rw [ih hlen, hstep, List.append_assoc]
        cases hv : entryVolume w e with
        | none => rw [List.filterMap_cons_none hv, Option.toList_none, List.nil_append]
        | some v => rw [List.filterMap_cons_some hv, Option.toList_some, List.singleton_append]
      · rw [if_neg hroom, List.append_nil] at hstep
        have hfull : s.volumes.length = max := Nat.le_antisymm hs (not_lt.mp hroom)
        rw [ih (by rw [hstep, hfull]), hstep, List.take_left' hfull, List.take_left' hfull]

theorem VolumesOk.foldl {w : VolWorld} {max : Nat} {s : Volumes}
    (es : List (Int × List UInt8)) (h : VolumesOk s) (hmax : s.maxVols = some max)
    (hes : ∀ e ∈ es, EntryText e) :
    VolumesOk (es.foldl (Volume.takeEntry w max) s) := by
  induction es generalizing s with
  | nil => exact h
  | cons e es ih =>
      obtain ⟨hok, hkept⟩ := h.takeEntry (w := w) hmax (hes e List.mem_cons_self)
      exact ih hok hkept fun e he => hes e (List.mem_cons_of_mem _ he)

/-! ## Runs -/

theorem VolumesOk.nwInitVolumes {s : Volumes} (h : VolumesOk s) (w : VolWorld)
    (ini : List UInt8) : VolumesOk (nwInitVolumes w ini s) := by
  unfold Volume.nwInitVolumes
  dsimp only
  rw [initLoop_eq]
  refine VolumesOk.foldl _ ⟨fun v hv => absurd hv List.not_mem_nil, fun _ _ => Nat.zero_le _,
    fun _ => rfl, rfl, rfl, h.homeDir⟩ rfl fun e he => ?_
  obtain ⟨x, hx, rfl⟩ := List.mem_map.mp he
  obtain ⟨buff, -, hbuff⟩ := List.mem_filterMap.mp hx
  exact entryText_answer hbuff

theorem getUnxHomeDir_text (pwDir : Option (List UInt8)) :
    (0 : UInt8) ∉ getUnxHomeDir pwDir ∧ (getUnxHomeDir pwDir).length ≤ 255 := by
  unfold getUnxHomeDir
  cases pwDir with
  | none => exact ⟨List.not_mem_nil, Nat.zero_le _⟩
  | some dir =>
      dsimp only
      split
      · decide
      · exact ⟨fun h => CText.noNul_visible dir (List.mem_of_mem_take h), List.length_take_le _ _⟩

theorem ConfigOk.setup {v : VolConfig} (h : ConfigOk v) (w : VolWorld) {unixname : List UInt8}
    (hname : DirText unixname) (hlen : unixname.length ≤ 256) (umodeDir umodeFile : Int) :
    ConfigOk (setupVolume w unixname umodeDir umodeFile v) ∧
      (setupVolume w unixname umodeDir umodeFile v).options = v.options := by
  have hmodes : ∀ v' : VolConfig, ConfigOk v' ∧ v'.options = v.options →
      ConfigOk { v' with
        umodeDir := if v'.umodeDir = 0 then umodeDir else v'.umodeDir
        umodeFile := if v'.umodeFile = 0 then umodeFile else v'.umodeFile } ∧
      v'.options = v.options :=
    fun v' hv' => ⟨⟨hv'.1.unixname, hv'.1.length, hv'.1.homeaddon, hv'.1.plain, hv'.1.flags,
      hv'.1.maxMaps, hv'.1.high, hv'.1.maps⟩, hv'.2⟩
  unfold setupVolume
  dsimp only
  refine hmodes _ ?_
  by_cases hhome : v.options.isHome = true
  · rw [if_pos hhome]
    have hfname : ∀ fname : List UInt8, DirText fname → fname.length ≤ 256 →
        ConfigOk (if fname ≠ [] then
            volumeToNamespaceMap w { v with maps := [], unixname := fname }
          else { v with maps := [], unixname := fname }) ∧
          (if fname ≠ [] then volumeToNamespaceMap w { v with maps := [], unixname := fname }
            else { v with maps := [], unixname := fname }).options = v.options := by
      intro fname htext hshort
      have hok : ConfigOk { v with maps := [], unixname := fname } :=
        ⟨htext, hshort, h.homeaddon, fun hplain => Bool.noConfusion (hhome.symm.trans hplain), h.flags,
          h.maxMaps, h.high, Nat.zero_le _⟩
      split
      · exact ⟨hok.mapped w, mapped_options w _⟩
      · exact ⟨hok, rfl⟩
    split
    next hboth =>
      split
      · exact hfname [] dirText_nil (Nat.zero_le _)
      next hfits =>
        refine hfname _ ⟨?_, .inr ?_⟩ (by rw [List.length_append]; omega)
        · rw [List.mem_append, not_or]
          exact ⟨hname.noNul, h.homeaddon.noNul⟩
        · rw [List.getLast?_append_of_ne_nil _ hboth.2]
          exact h.homeaddon.ends.resolve_left hboth.2
    · exact hfname _ hname hlen
  · rw [if_neg hhome]
    exact ⟨h, rfl⟩

theorem VolumesOk.nwSetupVolOpts {s : Volumes} (h : VolumesOk s) (w : VolWorld)
    (umodeDir umodeFile : Int) (pwDir : Option (List UInt8)) :
    VolumesOk (nwSetupVolOpts w umodeDir umodeFile pwDir s) := by
  obtain ⟨hnul, hlen⟩ := getUnxHomeDir_text pwDir
  have hname : DirText (if getUnxHomeDir pwDir = [] then [] else endWithSep (getUnxHomeDir pwDir)) ∧
      (if getUnxHomeDir pwDir = [] then [] else endWithSep (getUnxHomeDir pwDir)).length ≤ 256 := by
    split
    · exact ⟨dirText_nil, Nat.zero_le _⟩
    · exact ⟨endWithSep_dirText hnul, (length_endWithSep_le _).trans (by omega)⟩
  obtain ⟨htext, hshort⟩ := hname
  unfold Volume.nwSetupVolOpts
  dsimp only
  generalize (if getUnxHomeDir pwDir = [] then [] else endWithSep (getUnxHomeDir pwDir)) = unixname
    at htext hshort ⊢
  have hoptions : ∀ v ∈ s.volumes,
      (setupVolume w unixname umodeDir umodeFile v).options = v.options :=
    fun v hv => ((h.each v hv).setup w htext hshort umodeDir umodeFile).2
  have hsame : (s.volumes.map (setupVolume w unixname umodeDir umodeFile)).map VolConfig.options =
      s.volumes.map VolConfig.options := by
    rw [List.map_map]
    exact List.map_congr_left hoptions
  have hany : ∀ p : VolFlags → Bool,
      (s.volumes.map (setupVolume w unixname umodeDir umodeFile)).any (fun v => p v.options) =
        s.volumes.any fun v => p v.options := by
    intro p
    have hflags := congrArg (fun l => l.any p) hsame
    simp only [List.any_map] at hflags
    rw [List.any_map]
    exact hflags
  refine ⟨fun v hv => ?_, ?_, fun hnone => ?_, ?_, ?_, htext⟩
  · obtain ⟨v', hv', rfl⟩ := List.mem_map.mp hv
    exact ((h.each v' hv').setup w htext hshort umodeDir umodeFile).1
  · simpa using h.count
  · simpa using h.unread hnone
  · exact h.os2.trans (hany VolFlags.os2).symm
  · exact h.nfs.trans (hany VolFlags.nfs).symm

theorem volMachine_step {s : Volumes} (h : VolumesOk s) (e : VolEvent) :
    VolumesOk (volMachine.step s e).2 := by
  cases e with
  | init w ini => exact h.nwInitVolumes w ini
  | setup w umodeDir umodeFile pwDir => exact h.nwSetupVolOpts w umodeDir umodeFile pwDir

/-- In every state that starts and logins lead to, whatever is in the ini files. -/
theorem volumes_always_ok (events : List VolEvent) :
    VolumesOk (volMachine.exec Volumes.none events) := by
  have hstep : ∀ s e, VolumesOk s → VolumesOk (volMachine.step s e).2 :=
    fun s e hs => volMachine_step hs e
  exact volMachine.exec_preserves hstep events ⟨fun v hv => absurd hv List.not_mem_nil,
    fun _ h => (by cases h), fun _ => rfl, rfl, rfl, dirText_nil⟩

theorem foldl_takeEntry_maxVols (w : VolWorld) (max : Nat) (s : Volumes)
    (es : List (Int × List UInt8)) : (es.foldl (takeEntry w max) s).maxVols = s.maxVols := by
  induction es generalizing s with
  | nil => rfl
  | cons e es ih =>
      rw [List.foldl_cons, ih]
      rcases takeEntry_cases w max s e with ⟨_, _, _, heq⟩ | ⟨_, _, _, heq⟩ <;> rw [heq]

/-- The volumes of a written file are those of its entries, in their order, up to the
limit that the first start has set. -/
theorem volumes_of_written_ini (before : List VolEvent) (w : VolWorld) (lines : List IniText) :
    let old := volMachine.exec Volumes.none before
    let new := (volMachine.step old (.init w (IniText.print lines))).2
    let max := old.maxVols.getD (readMaxVols w (IniText.print lines))
    new.maxVols = some max ∧
      new.volumes = (((lines.filterMap IniText.entry?).map anyEntry.answer).filterMap
        (entryVolume w)).take max := by
  intro old new max
  have hnew : new = nwInitVolumes w (IniText.print lines) old := rfl
  unfold nwInitVolumes at hnew
  dsimp only at hnew
  rw [initLoop_eq, entries_rewind_print] at hnew
  rw [hnew]
  refine ⟨foldl_takeEntry_maxVols w max _ _, ?_⟩
  exact (foldl_takeEntry_volumes w max _ (Nat.zero_le _)).trans (by rw [List.nil_append])

end MarsNwe.Volume
