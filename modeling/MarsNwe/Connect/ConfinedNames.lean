import MarsNwe.Connect.Confinement

/-! # The names of a request

From the path of a request to the names made of it: `build_path`, the names on
disk, `build_dir_name` and `build_unix_name`. All of them lead into the volume.
-/

namespace MarsNwe

/-! ## Where a request starts -/

/-- The volume that a request is resolved to, and the length of the path that its
directory handle adds. -/
def startOf (dirs : Dirs) (volume : Option Nat) (dirHandle : Nat) : Option (Nat × Nat) :=
  match volume with
  | some j => some (j, 0)
  | none => (usedDir dirs dirHandle).map fun d => (d.volume, d.path.length)

/-- A volume whose names are what `build_unix_name` takes them for. -/
structure VolOk (w : ConnWorld) (v : NwVol) : Prop where
  nonempty : v.unixname ≠ []
  length : v.unixname.length ≤ 250
  kept : v.unixname.map w.dos2unix = v.unixname

/-- Looking for names on disk starts at the root of the volume, whoever asks, and
with the name before its last separator. -/
def MayLook (w : ConnWorld) (v : NwVol) : Prop :=
  v.options.igncase = true → v.unixname ≠ [0x2f] ∧ ¬w.LoginOnly

/-- Every handle in use has a good path. -/
def DirsGood (dirs : Dirs) : Prop := ∀ d ∈ dirs, d.id.ino ≠ 0 → PathGood d.path

/-- What the last component has to be: it does not climb. -/
structure NameGood (fn : List UInt8) : Prop where
  noNul : (0 : UInt8) ∉ fn
  climbs : unixSyntax.Avoids .point .start fn

theorem NameGood.becomes {w : ConnWorld} {s t : List UInt8} (hs : NameGood s)
    (h : BecomesText w s t) : NameGood t :=
  ⟨fun hmem => hs.noNul ((becomesText_mem h (by simp)).mpr hmem),
    hs.climbs.of_alike _ (becomesText_alike h)⟩

/-- A path as `conn_get_kpl_path` returns it, with the room its names take. -/
structure Good (w : ConnWorld) (room : Nat) (q : NwPath) : Prop where
  volume : ∃ j v, q.volume = some j ∧ w.volumes[j]? = some v ∧ VolOk w v ∧
    v.unixname.length + q.path.length + q.fn.length ≤ room
  path : PathGood q.path
  fn : NameGood q.fn
  login : w.LoginOnly → q.volume = some 0 ∧ isLoginPath w q.path

/-- A string that overruns its buffer is not among the ends of a computation. -/
def NoOverrun (e : Stop) : Prop := e ≠ .overrun

/-- All names that are passed on are confined, and no buffer is overrun. -/
abbrev Stays {α : Type} (w : ConnWorld) (m : Conn α) (Q : α → Prop) : Prop :=
  Logged.Ensures (Confined w) NoOverrun m Q

/-! ## Names below a directory -/

/-- A text that stays below a volume, and below its login directory where it must. -/
structure Below (w : ConnWorld) (rest : List UInt8) : Prop where
  climbs : unixSyntax.Avoids .point .start rest
  login : w.LoginOnly → ∃ seps login tail : List UInt8,
    rest = seps ++ (login.map w.dos2unix ++ 0x2f :: tail) ∧ (∀ c ∈ seps, c = 0x2f) ∧
      login.map w.up = loginName

theorem NwVol.ends_of_ne {v : NwVol} (hv : v.unixname ≠ []) : v.unixname.getLast? = some 0x2f :=
  v.ends.resolve_left hv

theorem confined_of_below {w : ConnWorld} {j : Nat} {v : NwVol} {rest : List UInt8}
    (hj : w.volumes[j]? = some v) (hv : v.unixname ≠ []) (hlogin : w.LoginOnly → j = 0)
    (hrest : Below w rest) (c : FsCall) : Confined w ⟨c, some j, v.unixname ++ rest⟩ := by
  have hends : v.unixname.getLast? = some unixSyntax.sep := NwVol.ends_of_ne hv
  refine ⟨j, v, rfl, hj, unixSyntax.inside_append hends hrest.climbs, fun hanon => ?_⟩
  obtain ⟨seps, login, tail, rfl, hseps, hname⟩ := hrest.login hanon
  refine ⟨hlogin hanon, login, hname, ?_⟩
  have hclimbs := (unixSyntax.avoids_append.mp hrest.climbs).2
  have htail : unixSyntax.Avoids .point .start tail := by
    have hafter := (unixSyntax.avoids_append.mp hclimbs).2.2
    rwa [show (0x2f : UInt8) = unixSyntax.sep from rfl, unixSyntax.next_sep] at hafter
  refine (unixSyntax.inside_seps hends hseps).mpr ?_
  have hinside := unixSyntax.inside_append
    (show (v.unixname ++ login.map w.dos2unix ++ [0x2f]).getLast? = some unixSyntax.sep by
      simp [unixSyntax]) htail
  simpa using hinside

/-- A name without the separator at its end. -/
theorem Confined.of_append_sep {w : ConnWorld} {c c' : FsCall} {volume : Option Nat}
    {name : List UInt8} (hname : name ≠ [])
    (h : Confined w ⟨c, volume, name ++ [0x2f]⟩) : Confined w ⟨c', volume, name⟩ := by
  obtain ⟨j, v, hvolume, hj, hinside, hlogin⟩ := h
  refine ⟨j, v, hvolume, hj, hinside.of_append_sep _ hname, fun hanon => ?_⟩
  obtain ⟨hzero, login, hmap, hin⟩ := hlogin hanon
  exact ⟨hzero, login, hmap, hin.of_append_sep _ hname⟩

/-- A path that passes the test begins with the login directory. -/
theorem isLoginPath_split {w : ConnWorld} (hw : WorldOk w) {path : List UInt8}
    (hpath : PathGood path) (h : isLoginPath w path) :
    ∃ seps login tail : List UInt8, path = seps ++ (login ++ 0x2f :: tail) ∧
      (∀ c ∈ seps, c = 0x2f) ∧ login.map w.up = loginName := by
  obtain ⟨hname, hnext⟩ := h
  have hsplit := List.takeWhile_append_dropWhile (p := fun c => decide (c = 0x2f)) (l := path)
  generalize hr : (path.dropWhile fun c => c = 0x2f) = r at hname hnext hsplit
  rw [List.map_take, List.take_take] at hname
  have hlogin : (r.take 5).map w.up = loginName := by rw [List.map_take]; exact hname
  have hlong : 5 ≤ r.length := by
    have hlen := congrArg List.length hlogin
    rw [List.length_map, List.length_take] at hlen
    simp only [loginName, asciiBytes, List.length_map, List.length_cons, List.length_nil] at hlen
    omega
  refine ⟨path.takeWhile fun c => decide (c = 0x2f), r.take 5, (r.drop 5).tail, ?_, ?_, hlogin⟩
  · have hrest : r.drop 5 = 0x2f :: (r.drop 5).tail := by
      cases hdrop : r.drop 5 with
      | nil =>
          -- then the path ends with `N`, and not with a separator
          exfalso
          have hr5 : r.take 5 = r := List.take_of_length_le (List.drop_eq_nil_iff.mp hdrop)
          rw [hr5] at hlogin
          have hne : r ≠ [] := by rintro rfl; simp at hlong
          have hlast : r.getLast? = some 0x2f := by
            rcases hpath.ends with rfl | hlast
            · simp at hr; exact absurd hr hne
            · rw [← hsplit, List.getLast?_append_of_ne_nil _ hne] at hlast
              exact hlast
          have hup : (r.map w.up).getLast? = some 0x2f := by
            rw [List.getLast?_map, hlast, Option.map_some,
              (hw.keeps_up 0x2f (by simp) 0x2f).mpr rfl]
          rw [hlogin] at hup
          exact absurd hup (by decide)
      | cons c tail =>
          have hc : ((r.take 6).map w.up).getD 5 0 = w.up c := by
            have hget : r[5]? = some c := by
              rw [← List.head?_drop, hdrop, List.head?_cons]
            rw [List.getD_eq_getElem?_getD, List.getElem?_map,
              List.getElem?_take_of_lt (by omega), hget]
            rfl
          rw [hc] at hnext
          rcases hnext with hzero | hsep
          · have hmem : c ∈ path := by
              rw [← hsplit]
              refine List.mem_append_right _ (List.mem_of_mem_drop (i := 5) ?_)
              rw [hdrop]
              exact List.mem_cons_self
            rw [(hw.keeps_up 0 (by simp) c).mp hzero] at hmem
            exact absurd hmem hpath.noNul
          · rw [(hw.keeps_up 0x2f (by simp) c).mp hsep, List.tail_cons]
    rw [← hrest, List.take_append_drop, hsplit]
  · intro c hc
    simpa using List.mem_takeWhile_imp hc

theorem alikeMap {w : ConnWorld} (hw : WorldOk w) (s : List UInt8) :
    List.Forall₂ unixSyntax.Alike s (s.map w.dos2unix) :=
  unixSyntax.alike_map
    (fun c => ⟨(hw.keeps_dos2unix 0x2f (by simp) c).symm,
      (hw.keeps_dos2unix 0x2e (by simp) c).symm⟩) s

/-- The path of a request with any name behind it. -/
theorem below_path {w : ConnWorld} (hw : WorldOk w) {room : Nat} {q : NwPath}
    (hq : Good w room q) {fn : List UInt8} (hfn : unixSyntax.Avoids .point .start fn) :
    Below w (q.path.map w.dos2unix ++ fn) where
  climbs := (hq.path.points.of_alike _ (alikeMap hw _)).append _ hfn
  login hanon := by
    obtain ⟨seps, login, tail, hpath, hseps, hname⟩ :=
      isLoginPath_split hw hq.path (hq.login hanon).2
    have hsep : w.dos2unix 0x2f = 0x2f := (hw.keeps_dos2unix 0x2f (by simp) 0x2f).mpr rfl
    refine ⟨seps.map w.dos2unix, login, tail.map w.dos2unix ++ fn, ?_, ?_, hname⟩
    · rw [hpath]
      simp [hsep]
    · intro c hc
      obtain ⟨d, hd, rfl⟩ := List.mem_map.mp hc
      rw [hseps d hd, hsep]

theorem confined_path {w : ConnWorld} (hw : WorldOk w) {room : Nat} {q : NwPath}
    (hq : Good w room q) {j : Nat} {v : NwVol} (hvolume : q.volume = some j)
    (hj : w.volumes[j]? = some v) (hv : VolOk w v) {fn : List UInt8}
    (hfn : unixSyntax.Avoids .point .start fn) (c : FsCall) :
    Confined w ⟨c, q.volume, v.unixname ++ (q.path.map w.dos2unix ++ fn)⟩ := by
  rw [hvolume]
  refine confined_of_below hj hv.nonempty (fun hanon => ?_) (below_path hw hq hfn) c
  rw [(hq.login hanon).1] at hvolume
  exact (Option.some.inj hvolume).symm

/-! ## `build_unix_name` -/

section BuildUnixName

variable {w : ConnWorld} {room j : Nat} {q : NwPath} {v : NwVol}

theorem noNul_dos2unix (hw : WorldOk w) {s : List UInt8} (hs : (0 : UInt8) ∉ s) :
    CText.visible (s.map w.dos2unix) = s.map w.dos2unix :=
  visible_map_of_keeps hw.keeps_dos2unix hs

/-- The name before a separator at its end is taken off. -/
theorem buildUnixName_eq (hw : WorldOk w) (hq : Good w room q) (hroom : room ≤ 299)
    (hvolume : q.volume = some j) (hj : w.volumes[j]? = some v) (ignoreFn noSlash : Bool) :
    buildUnixName w q ignoreFn noSlash =
      if (ignoreFn = true ∨ q.fn = []) ∧ noSlash = true then
        if 1 < (v.unixname ++ q.path).length then
          (v.unixname ++ q.path.map w.dos2unix).dropLast
        else v.unixname ++ [0x2e]
      else v.unixname ++ (q.path ++ if ignoreFn then [] else q.fn).map w.dos2unix := by
  obtain ⟨j', v', hvolume', hj', hv, hlen⟩ := hq.volume
  obtain rfl : j' = j := Option.some.inj (hvolume'.symm.trans hvolume)
  obtain rfl : v' = v := Option.some.inj (hj'.symm.trans hj)
  have hends := NwVol.ends_of_ne hv.nonempty
  have hpathLen : q.path.take (299 - v'.unixname.length) = q.path :=
    List.take_of_length_le (by omega)
  have hlast : (v'.unixname ++ q.path).getLast? = some 0x2f := by
    rcases hq.path.ends with hnil | hlast
    · rw [hnil, List.append_nil]
      exact hends
    · rw [List.getLast?_append, hlast, Option.some_or]
  have hnul : (0 : UInt8) ∉ v'.unixname ++ q.path :=
    fun hmem => (List.mem_append.mp hmem).elim v'.noNul hq.path.noNul
  unfold buildUnixName
  rw [hvolume, Option.bind_some, hj]
  simp only [hv.nonempty, Nat.not_lt.mpr hv.length, or_self, if_false, hpathLen]
  by_cases hfn : ignoreFn = true ∨ q.fn = []
  · have hno : ¬(!ignoreFn && decide (q.fn ≠ [])) = true := by
      rcases hfn with h | h <;> simp [h]
    have htext : (q.path ++ if ignoreFn then [] else q.fn) = q.path := by
      rcases hfn with h | h <;> simp [h]
    rw [if_neg hno, htext]
    by_cases hslash : noSlash = true
    · simp only [hslash, hlast, Bool.true_and, decide_true, if_true, hfn, true_and]
      split
      · rw [noNul_dos2unix hw fun h => hnul (List.dropLast_subset _ h), List.map_dropLast,
          List.map_append, hv.kept]
      next hshort =>
        have hroot : q.path = [] := by
          have hpos := List.length_pos_iff.mpr hv.nonempty
          rw [List.length_append] at hshort
          exact List.eq_nil_of_length_eq_zero (by omega)
        have hdot : w.dos2unix 0x2e = 0x2e := (hw.keeps_dos2unix 0x2e (by simp) 0x2e).mpr rfl
        rw [noNul_dos2unix hw (by simpa using hnul), List.map_append, hroot, List.append_nil,
          hv.kept, List.map_singleton, hdot]
    · simp only [hslash, Bool.false_and, Bool.false_eq_true, if_false, and_false]
      rw [noNul_dos2unix hw hnul, List.map_append, hv.kept]
  · obtain ⟨hignore, hne⟩ := not_or.mp hfn
    have hyes : (!ignoreFn && decide (q.fn ≠ [])) = true := by simp [hignore, hne]
    rw [if_pos hyes, if_neg fun h => hfn h.1, if_neg hignore, List.take_of_length_le
      (by rw [List.length_append]; omega), noNul_dos2unix hw, List.append_assoc,
      List.map_append, hv.kept]
    exact fun hmem => (List.mem_append.mp hmem).elim hnul hq.fn.noNul

theorem length_buildUnixName (hw : WorldOk w) (hq : Good w room q) (hroom : room ≤ 299)
    (ignoreFn noSlash : Bool) : (buildUnixName w q ignoreFn noSlash).length ≤ max 2 room := by
  obtain ⟨j, v, hvolume, hj, -, hlen⟩ := hq.volume
  rw [buildUnixName_eq hw hq hroom hvolume hj]
  split
  · split
    · simp only [List.length_dropLast, List.length_append, List.length_map]
      omega
    next hshort =>
      simp only [List.length_append, List.length_singleton] at hshort ⊢
      omega
  · split <;> simp only [List.length_append, List.length_map, List.length_nil] <;> omega

/-- The directory of a request, without its last separator. -/
theorem confined_dropLast (hw : WorldOk w) (hq : Good w room q) (hvolume : q.volume = some j)
    (hj : w.volumes[j]? = some v) (hlong : 1 < (v.unixname ++ q.path).length) (c : FsCall) :
    Confined w ⟨c, q.volume, (v.unixname ++ q.path.map w.dos2unix).dropLast⟩ := by
  obtain ⟨j', v', hvolume', hj', hv, -⟩ := hq.volume
  obtain rfl : j' = j := Option.some.inj (hvolume'.symm.trans hvolume)
  obtain rfl : v' = v := Option.some.inj (hj'.symm.trans hj)
  have hconf := confined_path hw hq hvolume hj hv
    (show unixSyntax.Avoids .point .start [] from trivial) c
  rw [List.append_nil] at hconf
  have hlast : (v'.unixname ++ q.path.map w.dos2unix).getLast? = some 0x2f := by
    rcases hq.path.ends with hnil | hlast
    · simpa [hnil] using NwVol.ends_of_ne hv.nonempty
    · have hsep := (hw.keeps_dos2unix 0x2f (by simp) 0x2f).mpr rfl
      rw [List.getLast?_append, List.getLast?_map, hlast, Option.map_some, hsep, Option.some_or]
  obtain ⟨r, hr⟩ := List.getLast?_eq_some_iff.mp hlast
  rw [hr] at hconf ⊢
  rw [List.dropLast_concat]
  refine hconf.of_append_sep ?_
  rintro rfl
  have hlen := congrArg List.length hr
  simp only [List.length_append, List.length_map, List.length_nil,
    List.length_singleton] at hlen hlong
  omega

/-- Whatever parts of it a name takes, it is confined. -/
theorem confined_buildUnixName (hw : WorldOk w) (hq : Good w room q) (hroom : room ≤ 299)
    (ignoreFn noSlash : Bool) (c : FsCall) :
    Confined w ⟨c, q.volume, buildUnixName w q ignoreFn noSlash⟩ := by
  obtain ⟨j, v, hvolume, hj, hv, hlen⟩ := hq.volume
  rw [buildUnixName_eq hw hq hroom hvolume hj]
  split
  · split
    next hlong => exact confined_dropLast hw hq hvolume hj hlong c
    next hshort =>
      have hroot : q.path = [] := by
        have hpos := List.length_pos_iff.mpr hv.nonempty
        rw [List.length_append] at hshort
        exact List.eq_nil_of_length_eq_zero (by omega)
      have hconf := confined_path hw hq hvolume hj hv
        (show unixSyntax.Avoids .point .start [0x2e] from ⟨by simp, trivial⟩) c
      simpa [hroot] using hconf
  · rw [List.map_append]
    refine confined_path hw hq hvolume hj hv ?_ c
    split
    · trivial
    · exact hq.fn.climbs.of_alike _ (alikeMap hw _)

end BuildUnixName

/-! ## Names on disk -/

/-- A character of a name on disk, for a character that was looked for. -/
def OnDisk (w : ConnWorld) (b c : UInt8) : Prop := w.ufnImatch c b = true

theorem onDisk_refl (w : ConnWorld) (s : List UInt8) : List.Forall₂ (OnDisk w) s s :=
  List.forall₂_same.mpr fun c _ => by simp [OnDisk, ConnWorld.ufnImatch]

theorem onDisk_alike {w : ConnWorld} (hw : WorldOk w) {s t : List UInt8}
    (h : List.Forall₂ (OnDisk w) s t) : List.Forall₂ unixSyntax.Alike s t :=
  h.imp fun _ _ hbc =>
    ⟨(hw.ufnImatch_iff (s := 0x2f) hbc (by simp)).symm,
      (hw.ufnImatch_iff (s := 0x2e) hbc (by simp)).symm⟩

/-- A match covers a whole component. -/
theorem myMatch_spec {imatch : UInt8 → UInt8 → Bool} {s p : List UInt8} {len dot : Nat}
    (h : myMatch imatch s p len dot ≠ 0) :
    ∃ matched more, p = matched ++ more ∧
      List.Forall₂ (fun b c => imatch c b = true) matched s ∧
      (more = [] ∨ ∃ tail, more = 0x2f :: tail) := by
  induction s generalizing p len dot with
  | nil =>
      refine ⟨[], p, rfl, .nil, ?_⟩
      simp only [myMatch] at h
      split at h
      next hend =>
        rcases hend with hnil | hsep
        · exact .inl hnil
        · exact .inr (List.head?_eq_some_iff.mp hsep)
      next => exact absurd rfl h
  | cons c s ih =>
      cases p with
      | nil => exact absurd rfl h
      | cons b p =>
          have hstep : ∃ len dot, imatch c b = true ∧ myMatch imatch s p len dot ≠ 0 := by
            simp only [myMatch] at h
            split_ifs at h
            all_goals first
              | exact absurd rfl h
              | exact ⟨_, _, ‹_›, h⟩
          obtain ⟨len, dot, hcb, hrest⟩ := hstep
          obtain ⟨matched, more, rfl, hmatch, hmore⟩ := ih hrest
          exact ⟨b :: matched, more, rfl, .cons hcb hmatch, hmore⟩

theorem stays_call {w : ConnWorld} {c : FsCall} {volume : Option Nat} {name : List UInt8}
    (h : Confined w ⟨c, volume, name⟩) : Stays w (w.call c volume name) fun _ => True :=
  (Logged.Ensures.emit h).bind fun _ _ => Logged.Ensures.pure trivial

theorem stays_callStat {w : ConnWorld} {volume : Option Nat} {name : List UInt8}
    (h : Confined w ⟨.stat, volume, name⟩) : Stays w (w.callStat volume name) fun _ => True :=
  (Logged.Ensures.emit h).bind fun _ _ => Logged.Ensures.pure trivial

theorem stays_callOpendir {w : ConnWorld} {volume : Option Nat} {name : List UInt8}
    (h : Confined w ⟨.opendir, volume, name⟩) :
    Stays w (w.callOpendir volume name) fun r => r = w.readdir name :=
  (Logged.Ensures.emit h).bind fun _ _ => Logged.Ensures.pure rfl

theorem stays_stop {α : Type} {w : ConnWorld} {n : Int} {Q : α → Prop} :
    Stays w (Logged.stop (.code n)) Q :=
  Logged.Ensures.stop (by simp [NoOverrun])

theorem getMatch_stays {w : ConnWorld} (hw : WorldOk w) (hanon : ¬w.LoginOnly) {j : Nat}
    {v : NwVol} (hj : w.volumes[j]? = some v) (hv : v.unixname ≠ []) {done rest seen : List UInt8}
    (hdone : done ≠ []) (hseen : done ++ [0x2f] = v.unixname ++ seen)
    (hclimbs : unixSyntax.Avoids .point .start seen)
    (hafter : unixSyntax.after .start seen = .start)
    (hrest : unixSyntax.Avoids .point .start rest) :
    Stays w (getMatch w (some j) done rest) fun r => List.Forall₂ (OnDisk w) rest r := by
  induction hlen : rest.length using Nat.strong_induction_on generalizing done rest seen with
  | _ n ih =>
      subst hlen
      have hconf : Confined w ⟨.opendir, some j, done⟩ := by
        have hbelow := confined_of_below hj hv (fun h => absurd h hanon)
          ⟨hclimbs, fun h => absurd h hanon⟩ .opendir
        rw [← hseen] at hbelow
        exact hbelow.of_append_sep hdone
      unfold getMatch
      refine (stays_callOpendir hconf).bind fun found _ => ?_
      cases found with
      | none => exact Logged.Ensures.pure (onDisk_refl w rest)
      | some entries =>
          dsimp only
          split
          next => exact Logged.Ensures.pure (onDisk_refl w rest)
          next d hfind =>
            have hfound := List.find?_some hfind
            have hmatch : myMatch w.ufnImatch d.name (rest.dropWhile fun c => c = 0x2f) 0 0 ≠ 0 :=
              (of_decide_eq_true hfound).2
            obtain ⟨matched, more, hcomp, hdisk, hmore⟩ := myMatch_spec hmatch
            have hsplit :=
              List.takeWhile_append_dropWhile (p := fun c => decide (c = 0x2f)) (l := rest)
            generalize (rest.takeWhile fun c => decide (c = 0x2f)) = slashes at hsplit ⊢
            rw [hcomp] at hsplit ⊢
            have hdrop : (matched ++ more).drop d.name.length = more := by
              rw [← hdisk.length_eq, List.drop_left]
            have hslashes := onDisk_refl w slashes
            have hname : List.Forall₂ (OnDisk w) (slashes ++ matched) (slashes ++ d.name) :=
              List.rel_append hslashes hdisk
            split
            next hend =>
              rw [hdrop] at hend
              refine Logged.Ensures.pure ?_
              rw [← hsplit, hend, List.append_nil]
              exact hname
            next hend =>
              rw [hdrop] at hend ⊢
              obtain ⟨tail, rfl⟩ := hmore.resolve_left hend
              rw [← hsplit] at hrest ih ⊢
              have hparts : slashes ++ (matched ++ 0x2f :: tail) =
                  (slashes ++ matched ++ [0x2f]) ++ tail := by simp
              rw [hparts] at hrest
              obtain ⟨hfirst, hlater⟩ := unixSyntax.avoids_append.mp hrest
              rw [unixSyntax.after_of_getLast? (by simp [unixSyntax])] at hlater
              have hsep : List.Forall₂ (OnDisk w) [0x2f] [0x2f] := onDisk_refl w _
              have hseg := hfirst.of_alike _ (onDisk_alike hw (List.rel_append hname hsep))
              refine (@ih tail.length (by simp; omega) _ tail
                (seen ++ (slashes ++ d.name ++ [0x2f])) (by simp) ?_ ?_ ?_ hlater
                rfl).bind fun r hr => ?_
              · have hcat : done ++ 0x2f :: slashes ++ d.name ++ [0x2f] =
                    done ++ [0x2f] ++ (slashes ++ d.name ++ [0x2f]) := by simp
                rw [hcat, hseen, List.append_assoc]
              · refine unixSyntax.avoids_append.mpr ⟨hclimbs, ?_⟩
                rw [hafter]
                exact hseg
              · exact unixSyntax.after_of_getLast? (by simp [unixSyntax])
              · refine Logged.Ensures.pure ?_
                have hall := List.rel_append hname (List.rel_append hsep hr)
                simpa using hall

/-! ## The names that `build_dir_name` ends with -/

/-- A text that went to disk and back. -/
theorem becomes_of_onDisk {w : ConnWorld} (hw : WorldOk w) {s found : List UInt8}
    (h : List.Forall₂ (OnDisk w) (s.map w.dos2unix) found) :
    BecomesText w s (found.map w.unix2dos) := by
  refine List.forall₂_map_right_iff.mpr ((List.forall₂_map_left_iff.mp h).imp ?_)
  intro c u hu
  refine ⟨fun t ht => ?_, fun hwild t ht hback => (hwild t ht).2.2 u c hu hback⟩
  rw [← hw.keeps_dos2unix t ht c, ← hw.ufnImatch_iff hu ht, hw.keeps_unix2dos t ht u]

/-- The parts of a changed text, put back into a path. -/
theorem becomes_parts {w : ConnWorld} {p : NwPath} {ppp : Nat} {rest : List UInt8}
    (hpath : (0 : UInt8) ∉ p.path) (hfn : (0 : UInt8) ∉ p.fn) (hppp : ppp ≤ p.path.length)
    (h : BecomesText w ((p.path ++ p.fn).drop ppp) rest) :
    BecomesText w p.path
        (CText.visible (p.path.take ppp ++ rest.take (p.path.length - ppp))) ∧
      BecomesText w p.fn (CText.visible (rest.drop (p.path.length - ppp))) := by
  rw [List.drop_append_of_le_length hppp] at h
  have hlen : (p.path.drop ppp).length = p.path.length - ppp := List.length_drop
  have hleft := List.forall₂_take (p.path.length - ppp) h
  have hright := List.forall₂_drop (p.path.length - ppp) h
  rw [List.take_left' hlen] at hleft
  rw [List.drop_left' hlen] at hright
  have hwhole : BecomesText w p.path (p.path.take ppp ++ rest.take (p.path.length - ppp)) := by
    have hjoin := List.rel_append (becomesText_refl w (p.path.take ppp)) hleft
    dsimp only at hjoin
    rwa [List.take_append_drop] at hjoin
  rw [CText.visible_of_noNul fun h => hpath ((becomesText_mem hwhole (by simp)).mpr h),
    CText.visible_of_noNul fun h => hfn ((becomesText_mem hright (by simp)).mpr h)]
  exact ⟨hwhole, hright⟩

theorem onVisible_of_noNul {f : List UInt8 → List UInt8} {s : List UInt8}
    (hs : (0 : UInt8) ∉ s) : onVisible f s = f s := by
  unfold onVisible
  rw [CText.visible_of_noNul hs, List.drop_length, List.append_nil]

theorem mangle_stays {w : ConnWorld} (hw : WorldOk w) {j : Nat} {v : NwVol} {p : NwPath}
    {ppp : Nat} (hvolume : p.volume = some j) (hj : w.volumes[j]? = some v) (hv : VolOk w v)
    (hlook : MayLook w v) (higncase : v.options.igncase = true) (hpath : PathGood p.path) (hfn : NameGood p.fn)
    (hppp : ppp ≤ p.path.length) (hkept : PathGood (p.path.take ppp)) :
    Stays w (mangle w v p ppp) fun q =>
      BecomesText w p.path q.path ∧ BecomesText w p.fn q.fn ∧ q.volume = p.volume := by
  obtain ⟨hroot, hanon⟩ := hlook higncase
  have hnul : (0 : UInt8) ∉ p.path ++ p.fn :=
    fun h => (List.mem_append.mp h).elim hpath.noNul hfn.noNul
  have htextNul : (0 : UInt8) ∉ (p.path ++ p.fn).map w.dos2unix := by
    rw [← noNul_dos2unix hw hnul]
    exact CText.noNul_visible _
  have hdropNul : (0 : UInt8) ∉ ((p.path ++ p.fn).map w.dos2unix).drop ppp :=
    fun h => htextNul (List.mem_of_mem_drop h)
  have hclimbs : unixSyntax.Avoids .point .start ((p.path ++ p.fn).map w.dos2unix) :=
    (hpath.points.append _ hfn.climbs).of_alike _ (alikeMap hw _)
  have hdropMap : ((p.path ++ p.fn).map w.dos2unix).drop ppp =
      ((p.path ++ p.fn).drop ppp).map w.dos2unix := List.map_drop.symm
  unfold mangle
  dsimp only
  rw [CText.visible_of_noNul htextNul, CText.visible_of_noNul hdropNul, hvolume]
  refine (stays_callStat (confined_of_below hj hv.nonempty (fun h => absurd h hanon)
    ⟨hclimbs, fun h => absurd h hanon⟩ _)).bind fun found _ => ?_
  cases found with
  | some st =>
      refine Logged.Ensures.pure ?_
      rw [onVisible_of_noNul hdropNul, hdropMap]
      have hrest := becomes_of_onDisk hw (onDisk_refl w (((p.path ++ p.fn).drop ppp).map w.dos2unix))
      obtain ⟨hleft, hright⟩ := becomes_parts hpath.noNul hfn.noNul hppp hrest
      exact ⟨hleft, hright, rfl⟩
  | none =>
      -- what is looked up starts behind a separator
      have htake : ((p.path ++ p.fn).map w.dos2unix).take ppp = (p.path.take ppp).map w.dos2unix := by
        rw [← List.map_take, List.take_append_of_le_length hppp]
      have hbecomes : List.Forall₂ unixSyntax.Alike (p.path.take ppp)
          ((p.path.take ppp).map w.dos2unix) := alikeMap hw _
      have hlast : (v.unixname ++ (p.path.take ppp).map w.dos2unix).getLast? = some 0x2f := by
        rcases hkept.ends with hnil | hlast
        · simpa [hnil] using NwVol.ends_of_ne hv.nonempty
        · have hsep := (hw.keeps_dos2unix 0x2f (by simp) 0x2f).mpr rfl
          rw [List.getLast?_append, List.getLast?_map, hlast, Option.map_some, hsep,
            Option.some_or]
      have hafter : unixSyntax.after .start ((p.path.take ppp).map w.dos2unix) = .start := by
        rcases hkept.ends with hnil | hlast
        · rw [hnil]
          rfl
        · refine unixSyntax.after_of_getLast? ?_
          rw [List.getLast?_map, hlast, Option.map_some,
            (hw.keeps_dos2unix 0x2f (by simp) 0x2f).mpr rfl]
          rfl
      have hsplit := hclimbs
      rw [← List.take_append_drop ppp ((p.path ++ p.fn).map w.dos2unix)] at hsplit
      obtain ⟨hseen, hrest⟩ := unixSyntax.avoids_append.mp hsplit
      rw [htake] at hseen hrest ⊢
      rw [hafter] at hrest
      obtain ⟨r, hr⟩ := List.getLast?_eq_some_iff.mp hlast
      have hne : r ≠ [] := by
        rintro rfl
        rw [List.nil_append] at hr
        obtain ⟨hunix, -⟩ | ⟨hunix, -⟩ := List.append_eq_singleton_iff.mp hr
        · exact hv.nonempty hunix
        · exact hroot hunix
      rw [if_neg (by simp [hv.nonempty]), hr, List.dropLast_concat]
      refine (getMatch_stays hw hanon hj hv.nonempty hne hr.symm hseen hafter hrest).bind
        fun found hfound => Logged.Ensures.pure ?_
      have hfoundNul : (0 : UInt8) ∉ found := by
        rw [hdropMap] at hfound
        intro hmem
        have hback : (0 : UInt8) ∈ found.map w.unix2dos :=
          List.mem_map.mpr ⟨0, hmem, (hw.keeps_unix2dos 0 (by simp) 0).mpr rfl⟩
        have hmem' := (becomesText_mem (becomes_of_onDisk hw hfound) (by simp)).mpr hback
        exact hnul (List.mem_of_mem_drop hmem')
      rw [onVisible_of_noNul hdropNul, onVisible_of_noNul hfoundNul]
      rw [hdropMap] at hfound
      obtain ⟨hleft, hright⟩ := becomes_parts hpath.noNul hfn.noNul hppp
        (becomes_of_onDisk hw hfound)
      exact ⟨hleft, hright, rfl⟩

/-! ## `conn_get_kpl_path` -/

theorem noNul_pathText (data : List UInt8) : (0 : UInt8) ∉ pathText data := by
  intro hmem
  obtain ⟨c, hc, hzero⟩ := List.mem_map.mp hmem
  have hne : c ≠ 0 := ne_of_mem_of_not_mem hc (CText.noNul_visible data)
  unfold pathByte at hzero
  split_ifs at hzero <;> simp_all

/-- The last component of a request is a single one. -/
theorem nameGood_requestName {data : List UInt8} (h : ¬[0x2e, 0x2e] <+: requestName data) :
    NameGood (requestName data) ∧ (0x2f : UInt8) ∉ requestName data := by
  have hsep : (0x2f : UInt8) ∉ requestName data := by
    intro hmem
    unfold requestName List.rtakeWhile at hmem
    have himp := List.mem_takeWhile_imp (List.mem_reverse.mp hmem)
    simp at himp
  have hnul : (0 : UInt8) ∉ requestName data :=
    fun hmem => noNul_pathText data ((List.rtakeWhile_suffix _ _).subset hmem)
  exact ⟨⟨hnul, unixSyntax.avoids_of_not_mem hsep h⟩, hsep⟩

theorem buildPath_good {w : ConnWorld} (hw : WorldOk w) {data : List UInt8} {onlyDir : Bool}
    (hlen : data.length ≤ 254) (hcolons : onlyDir = false → ColonsFirst data) :
    (0 : UInt8) ∉ (buildPath w data onlyDir).1.path ∧
      ((0 : UInt8) ∉ (if onlyDir then [] else requestName data) →
        BecomesText w (if onlyDir then [] else requestName data)
          (buildPath w data onlyDir).1.fn) ∧
      (buildPath w data onlyDir).1.path.length + (buildPath w data onlyDir).1.fn.length ≤
        data.length := by
  have hgood := connBuildPathFn_good w hlen hcolons
  unfold buildPath
  rw [List.take_of_length_le (by omega)]
  generalize connBuildPathFn w data onlyDir = r at hgood ⊢
  obtain ⟨vol, p⟩ := r
  obtain ⟨hnul, hfn, hsum⟩ := hgood
  dsimp only at hnul hfn hsum ⊢
  have hsame : (0 : UInt8) ∉ p.path ∧ ((0 : UInt8) ∉ (if onlyDir then [] else requestName data) →
      BecomesText w (if onlyDir then [] else requestName data) p.fn) ∧
      p.path.length + p.fn.length ≤ data.length :=
    ⟨hnul, fun _ => hfn ▸ becomesText_refl w p.fn, hsum⟩
  split
  · exact hsame
  split
  · exact hsame
  split
  · exact hsame
  next v _ =>
    have hpath := caseFn_becomes hw v hnul
    refine ⟨fun h => hnul ((becomesText_mem hpath (by simp)).mpr h), fun h => ?_, ?_⟩
    · rw [← hfn] at h ⊢
      exact caseFn_becomes hw v h
    · have hlenPath := hpath.length_eq
      have hlenFn : (w.caseFn v p.fn).length ≤ p.fn.length := by
        unfold ConnWorld.caseFn
        exact ((List.takeWhile_prefix _).length_le).trans (List.length_map _).le
      dsimp only
      omega

/-- Where the loop over the search path starts. -/
theorem startDir_good {w : ConnWorld} {dirs : Dirs} {p : NwPath} {dirHandle j : Nat}
    {search : List UInt8} {s : DirScan} (hdirs : DirsGood dirs) (hp : (0 : UInt8) ∉ p.path)
    (hroom : ∀ j n, startOf dirs p.volume dirHandle = some (j, n) → n + p.path.length ≤ 254)
    (h : startDir w dirs p dirHandle = some (j, search, s)) :
    ∃ n, startOf dirs p.volume dirHandle = some (j, n) ∧ (0 : UInt8) ∉ search ∧
      ScanGood s search.length (n + p.path.length) := by
  unfold startDir at h
  unfold startOf at hroom ⊢
  cases hvolume : p.volume with
  | some k =>
      rw [hvolume] at h
      cases h
      exact ⟨0, rfl, hp, ⟨pathGood_nil, by simp, fun _ => rfl, by simp, le_rfl,
        by simpa using pathGood_nil, by simp⟩⟩
  | none =>
      rw [hvolume] at h hroom
      dsimp only at h hroom ⊢
      cases hdir : usedDir dirs dirHandle with
      | none =>
          rw [hdir] at h
          cases h
      | some d =>
          rw [hdir] at h hroom
          have hlen := hroom d.volume d.path.length rfl
          dsimp only at h
          split at h
          · cases h
            refine ⟨d.path.length, rfl, fun hmem => hp (List.mem_of_mem_tail hmem),
              ⟨pathGood_nil, by simp, fun _ => rfl, by simp, le_rfl, by simpa using pathGood_nil,
                ?_⟩⟩
            simp only [List.length_nil, List.length_tail]
            omega
          · cases h
            have hgood : PathGood d.path := by
              unfold usedDir at hdir
              split at hdir
              · cases hdir
              · obtain ⟨hget, hused⟩ := Option.filter_eq_some_iff.mp hdir
                exact hdirs d (List.mem_of_getElem? hget) (of_decide_eq_true hused)
            have htake : d.path.take 255 = d.path := List.take_of_length_le (by omega)
            rw [htake]
            refine ⟨d.path.length, rfl, hp, ⟨hgood, by simp, fun _ => rfl, by simp, ?_, ?_,
              by simp⟩⟩
            · split
              · exact le_rfl
              · exact Nat.zero_le _
            · split
              · simpa using hgood
              · simpa using pathGood_nil

theorem nwPathDirectoryIsOk_stays {w : ConnWorld} (hw : WorldOk w) {room : Nat}
    (hroom : room ≤ 299) {q : NwPath} {j : Nat} {v : NwVol} (hvolume : q.volume = some j)
    (hj : w.volumes[j]? = some v) (hv : VolOk w v)
    (hlen : v.unixname.length + q.path.length + q.fn.length ≤ room) (hpath : PathGood q.path)
    (hfn : NameGood q.fn) : Stays w (nwPathDirectoryIsOk w q) fun _ => Good w room q := by
  unfold nwPathDirectoryIsOk
  refine Logged.Ensures.ite (fun _ => stays_stop) fun hlogin => ?_
  have hgood : Good w room q := by
    refine ⟨⟨j, v, hvolume, hj, hv, hlen⟩, hpath, hfn, fun hanon => ?_⟩
    exact not_not.mp fun hnot => hlogin ⟨hanon, hnot⟩
  refine (stays_callStat (confined_buildUnixName hw hgood hroom true true _)).bind fun found _ => ?_
  cases found with
  | none => exact stays_stop
  | some st =>
      exact Logged.Ensures.ite (fun _ => stays_stop) fun _ =>
        Logged.Ensures.ite (fun _ => stays_stop) fun _ => Logged.Ensures.pure hgood

theorem buildDirName_stays {w : ConnWorld} (hw : WorldOk w) {dirs : Dirs} (hdirs : DirsGood dirs)
    {room : Nat} (hroom : room ≤ 299) {p : NwPath} {dirHandle : Nat} (hp : (0 : UInt8) ∉ p.path)
    (hfn : NameGood p.fn)
    (hstart : ∀ j n, startOf dirs p.volume dirHandle = some (j, n) → n + p.path.length ≤ 254 ∧
      ∀ v, w.volumes[j]? = some v → VolOk w v ∧ MayLook w v ∧
        v.unixname.length + n + p.path.length + p.fn.length < room) :
    Stays w (buildDirName w dirs p dirHandle) fun r =>
      Good w room r.1 ∧ BecomesText w p.fn r.1.fn := by
  unfold buildDirName
  cases hdir : startDir w dirs p dirHandle with
  | none => exact stays_stop
  | some start =>
      obtain ⟨j, search, s⟩ := start
      obtain ⟨n, hfrom, hsearch, hscan⟩ :=
        startDir_good hdirs hp (fun j n h => (hstart j n h).1) hdir
      obtain ⟨hlimit, hvolumes⟩ := hstart j n hfrom
      obtain ⟨hok, herror⟩ := scanPath_good hscan hsearch hlimit
      refine (Logged.Ensures.lift hok herror).bind fun s hs => ?_
      obtain ⟨hpath, hppp, hkept, hlen⟩ := hs
      dsimp only
      cases hj : w.volumes[j]? with
      | none => exact stays_stop
      | some v =>
          obtain ⟨hv, hlook, hsum⟩ := hvolumes v hj
          have hcase := caseFn_becomes hw v
            (s := s.path.drop s.ppp) fun h => hpath.noNul (List.mem_of_mem_drop h)
          have hwhole : BecomesText w s.path
              (s.path.take s.ppp ++ w.caseFn v (s.path.drop s.ppp)) := by
            have hjoin := List.rel_append (becomesText_refl w (s.path.take s.ppp)) hcase
            dsimp only at hjoin
            rwa [List.take_append_drop] at hjoin
          have hfnCase := caseFn_becomes hw v hfn.noNul
          have hnewPath := hpath.becomes hwhole
          have hnewFn := hfn.becomes hfnCase
          have hpathLen := hwhole.length_eq
          have hfnLen := hfnCase.length_eq
          have hnewKept : PathGood
              ((s.path.take s.ppp ++ w.caseFn v (s.path.drop s.ppp)).take s.ppp) := by
            rw [List.take_left' (by rw [List.length_take]; omega)]
            exact hkept
          have hrest : ∀ q : NwPath, PathGood q.path ∧ NameGood q.fn ∧ BecomesText w p.fn q.fn ∧
              q.volume = some j ∧ q.path.length = s.path.length ∧ q.fn.length = p.fn.length →
              Stays w (do let st ← nwPathDirectoryIsOk w q; return (q, st)) fun r =>
                Good w room r.1 ∧ BecomesText w p.fn r.1.fn := by
            rintro q ⟨hqPath, hqFn, hqBecomes, hqVolume, hqLen, hqFnLen⟩
            exact (nwPathDirectoryIsOk_stays hw hroom hqVolume hj hv (by omega) hqPath hqFn).bind
              fun st hgood => Logged.Ensures.pure ⟨hgood, hqBecomes⟩
          dsimp only
          refine Logged.Ensures.ite (fun higncase => ?_) fun _ => ?_
          · refine (mangle_stays hw rfl hj hv hlook higncase hnewPath hnewFn
              (hpathLen ▸ hppp) hnewKept).bind fun q hq => hrest q ?_
            obtain ⟨hqPath, hqFn, hqVolume⟩ := hq
            exact ⟨hnewPath.becomes hqPath, hnewFn.becomes hqFn, becomesText_trans hfnCase hqFn,
              hqVolume, hqPath.length_eq.symm.trans hpathLen.symm,
              hqFn.length_eq.symm.trans hfnLen.symm⟩
          · exact (Logged.Ensures.pure ⟨hnewPath, hnewFn, hfnCase, rfl, hpathLen.symm,
              hfnLen.symm⟩).bind hrest

/-- When the names of a request are confined: the directory of its volume is one,
there is room for the names, and the last component, where it is a name of its own,
does not climb and follows the colons. -/
structure RequestOk (w : ConnWorld) (dirs : Dirs) (dirHandle : Nat) (data : List UInt8)
    (onlyDir : Bool) (room : Nat) : Prop where
  start : ∀ j n, startOf dirs (buildPath w data onlyDir).1.volume dirHandle = some (j, n) →
    n + data.length ≤ 254 ∧ ∀ v, w.volumes[j]? = some v → VolOk w v ∧ MayLook w v ∧
      v.unixname.length + n + data.length < room
  name : onlyDir = false → ColonsFirst data ∧ ¬[0x2e, 0x2e] <+: requestName data

/-- `build_path` and then `build_dir_name`, whether the first failed or not. -/
theorem buildPath_buildDirName_stays {w : ConnWorld} (hw : WorldOk w) {dirs : Dirs}
    (hdirs : DirsGood dirs) {room : Nat} (hroom : room ≤ 299) {dirHandle : Nat}
    {data : List UInt8} {onlyDir : Bool} (hreq : RequestOk w dirs dirHandle data onlyDir room) :
    Stays w (buildDirName w dirs (buildPath w data onlyDir).1 dirHandle) fun r =>
      Good w room r.1 ∧ BecomesText w (if onlyDir then [] else requestName data) r.1.fn := by
  have hname : NameGood (if onlyDir then [] else requestName data) := by
    split
    · exact ⟨by simp, trivial⟩
    next h => exact (nameGood_requestName (hreq.name (by simpa using h)).2).1
  cases hfrom : startOf dirs (buildPath w data onlyDir).1.volume dirHandle with
  | none =>
      have hdir : startDir w dirs (buildPath w data onlyDir).1 dirHandle = none := by
        unfold startOf at hfrom
        split at hfrom
        · cases hfrom
        next hvolume =>
          unfold startDir
          rw [hvolume]
          rw [Option.map_eq_none_iff.mp hfrom]
      unfold buildDirName
      rw [hdir]
      exact stays_stop
  | some start =>
      obtain ⟨j, n⟩ := start
      have hlen : data.length ≤ 254 := by
        have := (hreq.start j n hfrom).1
        omega
      obtain ⟨hnul, hfn, hsum⟩ := buildPath_good hw hlen fun h => (hreq.name h).1
      have hbecomes := hfn hname.noNul
      refine (buildDirName_stays hw hdirs hroom hnul (hname.becomes hbecomes) ?_).mono
        fun r hr => ⟨hr.1, becomesText_trans hbecomes hr.2⟩
      intro j' n' hfrom'
      obtain ⟨hlimit, hvolumes⟩ := hreq.start j' n' hfrom'
      refine ⟨by omega, fun v hv => ?_⟩
      obtain ⟨hok, hlook, hlt⟩ := hvolumes v hv
      exact ⟨hok, hlook, by omega⟩

theorem connGetKplPath_stays {w : ConnWorld} (hw : WorldOk w) {dirs : Dirs}
    (hdirs : DirsGood dirs) {room : Nat} (hroom : room ≤ 299) {dirHandle : Nat}
    {data : List UInt8} {onlyDir : Bool} (hreq : RequestOk w dirs dirHandle data onlyDir room) :
    Stays w (connGetKplPath w dirs dirHandle data onlyDir) fun r =>
      Good w room r.1 ∧ BecomesText w (if onlyDir then [] else requestName data) r.1.fn := by
  unfold connGetKplPath
  exact Logged.Ensures.ite (fun _ => stays_stop) fun _ =>
    buildPath_buildDirName_stays hw hdirs hroom hreq

end MarsNwe
