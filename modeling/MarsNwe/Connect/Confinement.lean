import MarsNwe.Connect.PathOps
import MarsNwe.Lib.LexPath

/-! # The directories that requests lead to

What `build_dir_name` gives for a request is a path without components that begin
with a point, so the names that begin with the directory of the volume and go on
with it stay there. The last component is not tested: it has to come without two
leading points.
-/

namespace MarsNwe

/-! ## Confinement -/

def unixSyntax : PathSyntax UInt8 := ⟨0x2f, 0x2e, by decide⟩

/-- A name leads into the directory of its volume, and into the login directory of
volume 0 as long as nobody is logged in. -/
def Confined (w : ConnWorld) (x : Passed) : Prop :=
  ∃ j v, x.volume = some j ∧ w.volumes[j]? = some v ∧ unixSyntax.Inside v.unixname x.name ∧
    (w.LoginOnly → j = 0 ∧ ∃ login : List UInt8, login.map w.up = loginName ∧
      unixSyntax.Inside (v.unixname ++ login.map w.dos2unix ++ [0x2f]) x.name)

/-! ## Tables and entries of directories -/

/-- A table maps no other byte to the terminator, the separator or the point. -/
def KeepsPath (f : UInt8 → UInt8) : Prop :=
  ∀ s ∈ [(0 : UInt8), 0x2f, 0x2e], ∀ c, f c = s ↔ c = s

/-- The tables keep paths, and `readdir` returns names of one component. -/
structure WorldOk (w : ConnWorld) : Prop where
  tables : ∀ t, w.conv = some t → KeepsPath t.dos2unix ∧ KeepsPath t.unix2dos ∧
    KeepsPath t.down2up ∧ KeepsPath t.up2down ∧ KeepsPath t.up2downUnix
  entries : ∀ name ds, w.readdir name = some ds →
    ∀ d ∈ ds, (0 : UInt8) ∉ d.name ∧ (0x2f : UInt8) ∉ d.name

theorem keepsPath_id : KeepsPath id := fun _ _ _ => Iff.rfl

theorem keepsPath_upChar : KeepsPath upChar := by
  have hall : ∀ s ∈ [(0 : UInt8), 0x2f, 0x2e], ∀ n : Fin 256,
      upChar (UInt8.ofFin n) = s ↔ UInt8.ofFin n = s := by
    decide +kernel
  exact fun s hs c => hall s hs c.toFin

theorem keepsPath_downChar : KeepsPath downChar := by
  have hall : ∀ s ∈ [(0 : UInt8), 0x2f, 0x2e], ∀ n : Fin 256,
      downChar (UInt8.ofFin n) = s ↔ UInt8.ofFin n = s := by
    decide +kernel
  exact fun s hs c => hall s hs c.toFin

namespace WorldOk

variable {w : ConnWorld} (hw : WorldOk w)

include hw

theorem keeps_up : KeepsPath w.up := by
  unfold ConnWorld.up
  cases hconv : w.conv with
  | none => exact keepsPath_upChar
  | some t => exact (hw.tables t hconv).2.2.1

theorem keeps_down : KeepsPath w.down := by
  unfold ConnWorld.down
  cases hconv : w.conv with
  | none => exact keepsPath_downChar
  | some t => exact (hw.tables t hconv).2.2.2.1

theorem keeps_dos2unix : KeepsPath w.dos2unix := by
  unfold ConnWorld.dos2unix
  cases hconv : w.conv with
  | none => exact keepsPath_id
  | some t => exact (hw.tables t hconv).1

theorem keeps_unix2dos : KeepsPath w.unix2dos := by
  unfold ConnWorld.unix2dos
  cases hconv : w.conv with
  | none => exact keepsPath_id
  | some t => exact (hw.tables t hconv).2.1

/-- The case of a volume. -/
theorem keeps_case (v : NwVol) :
    KeepsPath (if v.options.downshift then w.down else w.up) := by
  split
  · exact hw.keeps_down
  · exact hw.keeps_up

/-- Characters that match on disk are alike for paths. -/
theorem ufnImatch_iff {a b s : UInt8} (h : w.ufnImatch a b = true)
    (hs : s ∈ [(0 : UInt8), 0x2f, 0x2e]) : a = s ↔ b = s := by
  have hkeeps : ∀ f : UInt8 → UInt8, KeepsPath f → f a = f b → (a = s ↔ b = s) := by
    intro f hf hab
    rw [← hf s hs a, ← hf s hs b, hab]
  unfold ConnWorld.ufnImatch at h
  rcases Bool.or_eq_true .. ▸ h with heq | heq
  · rw [eq_of_beq heq]
  · cases hconv : w.conv with
    | none =>
        rw [hconv] at heq
        exact hkeeps downChar keepsPath_downChar (eq_of_beq heq)
    | some t =>
        rw [hconv] at heq
        exact hkeeps _ (hw.tables t hconv).2.2.2.2 (eq_of_beq heq)

end WorldOk

/-! ## Names with and without wildcards -/

/-- The second form of a point and the question marks come from themselves only,
also where names are looked up on disk. Renaming depends on it. -/
def KeepsWild (w : ConnWorld) : Prop :=
  ∀ s ∈ [(0xae : UInt8), 0x3f, 0xbf], (∀ c, w.up c = s → c = s) ∧ (∀ c, w.down c = s → c = s) ∧
    ∀ u c, w.ufnImatch u (w.dos2unix c) = true → w.unix2dos u = s → c = s

/-- What a character of a request may be when a name is made of it. -/
structure Becomes (w : ConnWorld) (c d : UInt8) : Prop where
  path : ∀ s ∈ [(0 : UInt8), 0x2f, 0x2e], c = s ↔ d = s
  wild : KeepsWild w → ∀ s ∈ [(0xae : UInt8), 0x3f, 0xbf], d = s → c = s

/-- The same for texts. -/
abbrev BecomesText (w : ConnWorld) := List.Forall₂ (Becomes w)

theorem Becomes.refl (w : ConnWorld) (c : UInt8) : Becomes w c c :=
  ⟨fun _ _ => Iff.rfl, fun _ _ _ h => h⟩

theorem Becomes.trans {w : ConnWorld} {a b c : UInt8} (hab : Becomes w a b)
    (hbc : Becomes w b c) : Becomes w a c :=
  ⟨fun s hs => (hab.path s hs).trans (hbc.path s hs),
    fun hwild s hs h => hab.wild hwild s hs (hbc.wild hwild s hs h)⟩

theorem Becomes.alike {w : ConnWorld} {c d : UInt8} (h : Becomes w c d) :
    unixSyntax.Alike c d :=
  ⟨h.path 0x2f (by simp), h.path 0x2e (by simp)⟩

theorem becomesText_refl (w : ConnWorld) (s : List UInt8) : BecomesText w s s :=
  List.forall₂_same.mpr fun c _ => Becomes.refl w c

theorem becomesText_trans {w : ConnWorld} {s t u : List UInt8} (hst : BecomesText w s t)
    (htu : BecomesText w t u) : BecomesText w s u := by
  induction hst generalizing u with
  | nil => exact htu
  | cons h _ ih =>
      obtain ⟨d, u, hd, hu, rfl⟩ := List.forall₂_cons_left_iff.mp htu
      exact .cons (h.trans hd) (ih hu)

theorem becomesText_alike {w : ConnWorld} {s t : List UInt8} (h : BecomesText w s t) :
    List.Forall₂ unixSyntax.Alike s t :=
  h.imp fun _ _ => Becomes.alike

theorem becomesText_mem {w : ConnWorld} {s t : List UInt8} {c : UInt8} (h : BecomesText w s t)
    (hc : c ∈ [(0 : UInt8), 0x2f, 0x2e]) : c ∈ s ↔ c ∈ t := by
  induction h with
  | nil => simp
  | cons hcd _ ih =>
      rw [List.mem_cons, List.mem_cons, ih, eq_comm, hcd.path c hc, eq_comm]

theorem visible_map_of_keeps {f : UInt8 → UInt8} (hf : KeepsPath f) {s : List UInt8}
    (hs : (0 : UInt8) ∉ s) : CText.visible (s.map f) = s.map f := by
  apply CText.visible_of_noNul
  intro hmem
  obtain ⟨c, hc, hzero⟩ := List.mem_map.mp hmem
  exact hs ((hf 0 (by simp) c).mp hzero ▸ hc)

theorem caseFn_becomes {w : ConnWorld} (hw : WorldOk w) (v : NwVol) {s : List UInt8}
    (hs : (0 : UInt8) ∉ s) : BecomesText w s (w.caseFn v s) := by
  unfold ConnWorld.caseFn
  rw [visible_map_of_keeps (hw.keeps_case v) hs]
  refine List.forall₂_map_right_iff.mpr (List.forall₂_same.mpr fun c _ => ?_)
  refine ⟨fun t ht => (hw.keeps_case v t ht c).symm, ?_⟩
  intro hwild t ht h
  split at h
  · exact (hwild t ht).2.1 c h
  · exact (hwild t ht).1 c h

/-! ## Paths of directories -/

/-- A path as `build_dir_name` makes it. -/
structure PathGood (path : List UInt8) : Prop where
  noNul : (0 : UInt8) ∉ path
  points : unixSyntax.Avoids .start .start path
  ends : path = [] ∨ path.getLast? = some 0x2f

theorem pathGood_nil : PathGood [] := ⟨by simp, trivial, .inl rfl⟩

theorem getLast?_forall₂ {R : UInt8 → UInt8 → Prop} {s t : List UInt8} {c : UInt8}
    (h : List.Forall₂ R s t) (hs : s.getLast? = some c) : ∃ d, R c d ∧ t.getLast? = some d := by
  obtain ⟨r, rfl⟩ := List.getLast?_eq_some_iff.mp hs
  have hrev := List.forall₂_reverse_iff.mpr h
  rw [List.reverse_append, List.reverse_singleton, List.singleton_append] at hrev
  obtain ⟨d, u, hcd, -, heq⟩ := List.forall₂_cons_left_iff.mp hrev
  exact ⟨d, hcd, by rw [← List.head?_reverse, heq, List.head?_cons]⟩

theorem PathGood.becomes {w : ConnWorld} {s t : List UInt8} (hs : PathGood s)
    (h : BecomesText w s t) : PathGood t where
  noNul hmem := hs.noNul ((becomesText_mem h (by simp)).mpr hmem)
  points := hs.points.of_alike _ (becomesText_alike h)
  ends := by
    rcases hs.ends with rfl | hlast
    · exact .inl (List.forall₂_nil_left_iff.mp h)
    · obtain ⟨d, hd, ht⟩ := getLast?_forall₂ h hlast
      rw [(hd.path 0x2f (by simp)).mp rfl] at ht
      exact .inr ht

/-- Behind a good path a new component starts. -/
theorem PathGood.after {s : List UInt8} (hs : PathGood s) :
    unixSyntax.after .start s = .start := by
  rcases hs.ends with rfl | hlast
  · rfl
  · exact unixSyntax.after_of_getLast? hlast

/-- A component that does not begin with a point may follow. -/
theorem PathGood.append {s comp : List UInt8} (hs : PathGood s) (hnul : (0 : UInt8) ∉ comp)
    (hsep : (0x2f : UInt8) ∉ comp) (hpoint : comp.head? ≠ some 0x2e) :
    PathGood (s ++ comp ++ [0x2f]) where
  noNul := by simp [hs.noNul, hnul]
  points := by
    rw [List.append_assoc]
    refine unixSyntax.avoids_append.mpr ⟨hs.points, ?_⟩
    rw [hs.after]
    cases comp with
    | nil => exact ⟨by simp [unixSyntax], trivial⟩
    | cons c comp =>
        obtain ⟨hc, hrest⟩ := not_or.mp (mt List.mem_cons.mpr hsep)
        have hne : c ≠ 0x2e := by simpa using hpoint
        refine ⟨fun h => hne h.2, ?_⟩
        rw [unixSyntax.next_inside (Ne.symm hc) fun _ => hne]
        refine unixSyntax.avoids_append.mpr ⟨unixSyntax.avoids_inside (by simp) hrest, ?_⟩
        refine ⟨?_, trivial⟩
        simp [unixSyntax]
  ends := .inr (by simp)

theorem PathGood.dropLastDir {s : List UInt8} (hs : PathGood s) : PathGood (dropLastDir s) := by
  unfold MarsNwe.dropLastDir
  dsimp only
  split
  · exact pathGood_nil
  next hlong =>
    have hpre : (s.dropLast.rdropWhile fun c => c ≠ 0x2f) <+: s :=
      (List.rdropWhile_prefix _ _).trans (List.dropLast_prefix s)
    have hne : (s.dropLast.rdropWhile fun c => c ≠ 0x2f) ≠ [] := by
      rintro heq
      rw [heq] at hlong
      simp at hlong
    have hlast := List.rdropWhile_last_not _ _ hne
    refine ⟨fun hmem => hs.noNul (hpre.subset hmem), hs.points.of_isPrefix _ hpre, .inr ?_⟩
    rw [List.getLast?_eq_some_getLast hne]
    simpa using hlast

theorem length_dropLastDir_le (s : List UInt8) : (dropLastDir s).length ≤ s.length := by
  unfold dropLastDir
  dsimp only
  split
  · exact Nat.zero_le _
  · exact ((List.rdropWhile_prefix _ _).trans (List.dropLast_prefix s)).length_le

theorem goBack_good {n : Nat} {path path' : List UInt8} (hpath : PathGood path)
    (h : goBack n path = .ok path') : PathGood path' ∧ path'.length ≤ path.length := by
  induction n generalizing path with
  | zero =>
      cases h
      exact ⟨hpath, le_rfl⟩
  | succ n ih =>
      unfold goBack at h
      split at h
      · cases h
      · obtain ⟨hgood, hlen⟩ := ih hpath.dropLastDir h
        exact ⟨hgood, hlen.trans (length_dropLastDir_le path)⟩

/-! ## The loop over the search path -/

/-- What holds between two characters, with `limit` for the length of the path. -/
structure ScanGood (s : DirScan) (left limit : Nat) : Prop where
  path : PathGood s.path
  comp : (0 : UInt8) ∉ s.comp ∧ (0x2f : UInt8) ∉ s.comp
  start : s.comp = [] → s.state = .start
  points : s.comp.head? = some 0x2e → s.state = .points
  ppp : s.ppp ≤ s.path.length
  kept : PathGood (s.path.take s.ppp)
  length : s.path.length + s.comp.length + left ≤ limit

theorem goBack_error {n : Nat} {path : List UInt8} {e : Stop} (h : goBack n path = .error e) :
    e ≠ .overrun := by
  induction n generalizing path with
  | zero => cases h
  | succ n ih =>
      unfold goBack at h
      split at h
      · cases h
        simp
      · exact ih h

/-- The action at the end of a component, for the components of the loop. -/
theorem closeComp_good {s : DirScan} {comp : List UInt8} (limit : Nat) (hpath : PathGood s.path)
    (hnul : (0 : UInt8) ∉ comp) (hsep : (0x2f : UInt8) ∉ comp) (hppp : s.ppp ≤ s.path.length)
    (hkept : PathGood (s.path.take s.ppp))
    (hback : comp.head? = some 0x2e → comp.tail ≠ [] → s.ppp = 0)
    (hlimit : s.path.length + comp.length + 1 ≤ limit) (hroom : limit ≤ 255) :
    (∀ s', closeComp s comp = .ok s' → ScanGood s' 0 limit ∧ s'.comp = []) ∧
      ∀ e, closeComp s comp = .error e → e ≠ .overrun := by
  unfold closeComp
  dsimp only
  split
  next hnil =>
    refine ⟨fun s' h => ?_, fun e h => by cases h⟩
    cases h
    exact ⟨⟨hpath, by simp, fun _ => rfl, by simp, hppp, hkept, by simp; omega⟩, rfl⟩
  split
  next hpoint =>
    cases hgo : goBack (comp.tail.takeWhile fun c => c = 0x2e).length s.path with
    | error e =>
        refine ⟨fun s' h => (by cases h), fun e' h => ?_⟩
        cases h
        exact goBack_error hgo
    | ok path =>
        refine ⟨fun s' h => ?_, fun e h => by cases h⟩
        cases h
        obtain ⟨hgood, hlen⟩ := goBack_good hpath hgo
        by_cases htail : comp.tail = []
        · rw [htail] at hgo
          cases hgo
          exact ⟨⟨hgood, by simp, fun _ => rfl, by simp, hppp, hkept, by simp; omega⟩, rfl⟩
        · have hzero := hback hpoint htail
          refine ⟨⟨hgood, by simp, fun _ => rfl, by simp, hzero.le.trans (Nat.zero_le _), ?_,
            by simp; omega⟩, rfl⟩
          simpa only [hzero, List.take_zero] using pathGood_nil
  next hpoint =>
    split
    · omega
    · refine ⟨fun s' h => ?_, fun e h => by cases h⟩
      cases h
      refine ⟨⟨hpath.append hnul hsep hpoint, by simp, fun _ => rfl, by simp, ?_, ?_, ?_⟩, rfl⟩
      · simp only [List.length_append]
        omega
      · rw [List.append_assoc, List.take_append_of_le_length hppp]
        exact hkept
      · simp only [List.length_append, List.length_singleton, List.length_nil]
        omega

/-- A component that begins with a point consists of points. -/
theorem next_points {s : DirScan} {c : UInt8} {left limit : Nat} {state : ScanState}
    (hs : ScanGood s left limit) (hnext : s.state.next c = some state) (hslash : state ≠ .slash)
    (hhead : (s.comp ++ [c]).head? = some 0x2e) : state = .points := by
  cases hcomp : s.comp with
  | nil =>
      have hc : c = 0x2e := by simpa [hcomp] using hhead
      rw [hs.start hcomp, hc] at hnext
      exact (Option.some.inj hnext).symm
  | cons d comp =>
      have hd : s.comp.head? = some 0x2e := by simpa [hcomp] using hhead
      rw [hs.points hd] at hnext
      simp only [ScanState.next] at hnext
      split at hnext
      · exact absurd (Option.some.inj hnext).symm hslash
      · split at hnext
        · exact (Option.some.inj hnext).symm
        · cases hnext

/-- One character. The path gets one byte longer than the text at most, when its
last separator is missing. -/
theorem scanChar_good {s : DirScan} {c : UInt8} {last : Bool} {left limit : Nat}
    (hs : ScanGood s (left + 1) limit) (hc : c ≠ 0) (hroom : limit ≤ 254)
    (hlast : last = true → left = 0) :
    (∀ s', scanChar c last s = .ok s' →
        ScanGood s' left (if last then limit + 1 else limit)) ∧
      ∀ e, scanChar c last s = .error e → e ≠ .overrun := by
  have hlength := hs.length
  unfold scanChar
  cases hnext : s.state.next c with
  | none => exact ⟨fun s' h => (by cases h), fun e h => (by cases h; simp)⟩
  | some state =>
      dsimp only
      have hppp : (if s.state = .points then 0 else s.ppp) ≤ s.path.length := by
        split
        · exact Nat.zero_le _
        · exact hs.ppp
      have hkept : PathGood (s.path.take (if s.state = .points then 0 else s.ppp)) := by
        split
        · exact pathGood_nil
        · exact hs.kept
      have hzero : s.comp.head? = some 0x2e → (if s.state = .points then 0 else s.ppp) = 0 :=
        fun h => if_pos (hs.points h)
      by_cases hslash : state = .slash
      · rw [if_pos hslash]
        obtain ⟨hok, herror⟩ := closeComp_good (limit - left)
          (s := { s with ppp := if s.state = .points then 0 else s.ppp })
          hs.path hs.comp.1 hs.comp.2 hppp hkept (fun h _ => hzero h) (by simp; omega) (by omega)
        refine ⟨fun s' h => ?_, herror⟩
        obtain ⟨hgood, -⟩ := hok s' h
        refine ⟨hgood.path, hgood.comp, hgood.start, hgood.points, hgood.ppp, hgood.kept, ?_⟩
        have := hgood.length
        split <;> omega
      · have hnotsep : c ≠ 0x2f := by
          rintro rfl
          cases hstate : s.state <;> simp_all [ScanState.next]
        have hcomp : (0 : UInt8) ∉ s.comp ++ [c] ∧ (0x2f : UInt8) ∉ s.comp ++ [c] := by
          simp [hs.comp.1, hs.comp.2, hc.symm, hnotsep.symm]
        rw [if_neg hslash]
        by_cases hend : last = true
        · rw [if_pos hend]
          have hback : (s.comp ++ [c]).head? = some 0x2e → (s.comp ++ [c]).tail ≠ [] →
              (if s.state = .points then 0 else s.ppp) = 0 := by
            intro hhead htail
            refine hzero ?_
            cases hcompnil : s.comp with
            | nil => simp [hcompnil] at htail
            | cons d comp => simpa [hcompnil] using hhead
          obtain ⟨hok, herror⟩ := closeComp_good (limit + 1)
            (s := { s with ppp := if s.state = .points then 0 else s.ppp })
            hs.path hcomp.1 hcomp.2 hppp hkept hback (by simp; omega) (by omega)
          refine ⟨fun s' h => ?_, herror⟩
          rw [if_pos hend, hlast hend]
          exact (hok s' h).1
        · rw [if_neg hend]
          refine ⟨fun s' h => ?_, fun e h => by cases h⟩
          cases h
          refine ⟨hs.path, hcomp, by simp, ?_, hppp, hkept, ?_⟩
          · intro hhead
            exact next_points hs hnext hslash hhead
          · rw [if_neg hend]
            simp only [List.length_append, List.length_singleton]
            omega

/-- The whole search path. -/
theorem scanPath_good {search : List UInt8} {s : DirScan} {limit : Nat}
    (hs : ScanGood s search.length limit) (hsearch : (0 : UInt8) ∉ search)
    (hroom : limit ≤ 254) :
    (∀ s', scanPath search s = .ok s' → PathGood s'.path ∧ s'.ppp ≤ s'.path.length ∧
        PathGood (s'.path.take s'.ppp) ∧ s'.path.length ≤ limit + 1) ∧
      ∀ e, scanPath search s = .error e → e ≠ .overrun := by
  induction search generalizing s with
  | nil =>
      refine ⟨fun s' h => ?_, fun e h => by cases h⟩
      cases h
      have hlen := hs.length
      exact ⟨hs.path, hs.ppp, hs.kept, by omega⟩
  | cons c rest ih =>
      obtain ⟨hc, hrest⟩ := not_or.mp (mt List.mem_cons.mpr hsearch)
      obtain ⟨hok, herror⟩ := scanChar_good hs (Ne.symm hc) hroom
        (show rest.isEmpty = true → rest.length = 0 by cases rest <;> simp)
      unfold scanPath
      cases hchar : scanChar c rest.isEmpty s with
      | error e =>
          refine ⟨fun s' h => (by cases h), fun e' h => ?_⟩
          cases h
          exact herror e hchar
      | ok s₁ =>
          have hgood := hok s₁ hchar
          cases rest with
          | nil =>
              refine ⟨fun s' h => ?_, fun e h => by cases h⟩
              cases h
              have hlen := hgood.length
              rw [if_pos (by simp)] at hlen
              exact ⟨hgood.path, hgood.ppp, hgood.kept, by simp at hlen; omega⟩
          | cons b rest => exact ih (by simpa using hgood) hrest

/-! ## The request -/

/-- The form of a byte that paths use. -/
def pathByte (c : UInt8) : UInt8 :=
  if c = 0xae then 0x2e else if c = 0xbf then 0x3f else if c = 0x5c then 0x2f else c

/-- The bytes of a request up to its first zero, in the forms that paths use. -/
def pathText (data : List UInt8) : List UInt8 := (CText.visible data).map pathByte

/-- The last component, which follows the last separator or colon. -/
def requestName (data : List UInt8) : List UInt8 :=
  (pathText data).rtakeWhile fun c => c ≠ 0x2f ∧ c ≠ 0x3a

/-- No colon stands behind a separator. -/
def ColonsFirst (data : List UInt8) : Prop :=
  (0x3a : UInt8) ∉ (pathText data).dropWhile fun c => c ≠ 0x2f

instance (data : List UInt8) : Decidable (ColonsFirst data) :=
  inferInstanceAs (Decidable (¬_))

/-- The state of `conn_build_path_fn` while no separator stands before a colon. -/
structure PathTextGood (s : PathText) (text : List UInt8) : Prop where
  none : s.p = none → (0x2f : UInt8) ∉ s.text
  some : ∀ p, s.p = some p → p ≤ s.text.length ∧ (0x2f : UInt8) ∈ text
  name : s.text.drop (s.p.getD 0) = text.rtakeWhile fun c => c ≠ 0x2f ∧ c ≠ 0x3a

theorem colonsFirst_concat {text : List UInt8} {c : UInt8}
    (h : (0x3a : UInt8) ∉ (text ++ [c]).dropWhile fun c => c ≠ 0x2f) :
    ((0x3a : UInt8) ∉ text.dropWhile fun c => c ≠ 0x2f) ∧
      (c = 0x3a → (0x2f : UInt8) ∉ text) := by
  rw [List.dropWhile_append] at h
  split at h
  next hempty =>
    have hnil := List.isEmpty_iff.mp hempty
    refine ⟨by rw [hnil]; simp, fun _ hmem => ?_⟩
    simpa using List.dropWhile_eq_nil_iff.mp hnil 0x2f hmem
  next =>
    refine ⟨fun hmem => h (List.mem_append_left _ hmem), ?_⟩
    rintro rfl
    exact absurd (List.mem_append_right _ (List.mem_singleton_self _)) h

/-- What is put into the buffer for any byte but a colon, and what `p` becomes. -/
theorem connBuildPathChar_put (w : ConnWorld) (s : PathText) {c : UInt8} (hc : c ≠ 0x3a) :
    (connBuildPathChar w s c).text = s.text ++ [pathByte c] ∧
      (connBuildPathChar w s c).p =
        if pathByte c = 0x2f then some (s.text.length + 1) else s.p := by
  unfold connBuildPathChar pathByte
  by_cases h1 : c = 0xae
  · simp [h1, PathText.put]
  by_cases h2 : c = 0xaa ∨ c = 0x2a
  · rcases h2 with rfl | rfl <;> simp [PathText.put]
  by_cases h3 : c = 0xbf ∨ c = 0x3f
  · rcases h3 with rfl | rfl <;> simp [PathText.put]
  by_cases h4 : c = 0x2f ∨ c = 0x5c
  · rcases h4 with rfl | rfl <;> simp [PathText.put]
  obtain ⟨h5, h6⟩ := not_or.mp h3
  obtain ⟨h7, h8⟩ := not_or.mp h4
  simp [h1, h2, hc, h5, h6, h7, h8, PathText.put]

theorem pathByte_ne {c : UInt8} (hnul : c ≠ 0) (hcolon : c ≠ 0x3a) :
    pathByte c ≠ 0 ∧ pathByte c ≠ 0x3a := by
  unfold pathByte
  split_ifs <;> simp_all

theorem foldl_connBuildPathChar_text (w : ConnWorld) {l : List UInt8}
    (hnul : (0 : UInt8) ∉ l) :
    (0 : UInt8) ∉ (l.foldl (connBuildPathChar w) ⟨[], [], w.stack, none, 0⟩).text ∧
      (l.foldl (connBuildPathChar w) ⟨[], [], w.stack, none, 0⟩).text.length ≤ l.length := by
  induction l using List.reverseRecOn with
  | nil => simp
  | append_singleton l c ih =>
      simp only [List.mem_append, List.mem_singleton, not_or] at hnul
      obtain ⟨htext, hlen⟩ := ih hnul.1
      rw [List.foldl_append, List.foldl_cons, List.foldl_nil]
      by_cases hc : c = 0x3a
      · simp [hc, connBuildPathChar]
      · rw [(connBuildPathChar_put w _ hc).1]
        have hbyte := pathByte_ne (Ne.symm hnul.2) hc
        exact ⟨by simp [htext, hbyte.1.symm], by simpa using hlen⟩

theorem foldl_connBuildPathChar_good (w : ConnWorld) {l : List UInt8} (hnul : (0 : UInt8) ∉ l)
    (hcolons : (0x3a : UInt8) ∉ (l.map pathByte).dropWhile fun c => c ≠ 0x2f) :
    PathTextGood (l.foldl (connBuildPathChar w) ⟨[], [], w.stack, none, 0⟩) (l.map pathByte) := by
  induction l using List.reverseRecOn with
  | nil => exact ⟨by simp, by simp, by simp⟩
  | append_singleton l c ih =>
      simp only [List.mem_append, List.mem_singleton, not_or] at hnul
      rw [List.map_append, List.map_singleton] at hcolons ⊢
      obtain ⟨hbefore, hcolon⟩ := colonsFirst_concat hcolons
      have hs := ih hnul.1 hbefore
      rw [List.foldl_append, List.foldl_cons, List.foldl_nil]
      generalize l.foldl (connBuildPathChar w) ⟨[], [], w.stack, none, 0⟩ = s at hs ⊢
      by_cases hc : c = 0x3a
      · subst hc
        have hnosep := hcolon (by decide)
        have hp : s.p = none := by
          cases hp : s.p with
          | none => rfl
          | some p => exact absurd (hs.some p hp).2 hnosep
        refine ⟨by simp [connBuildPathChar], ?_, ?_⟩
        · intro p h
          simp [connBuildPathChar, hp] at h
        · rw [List.rtakeWhile_concat_neg _ _ _ (by decide)]
          simp [connBuildPathChar]
      · obtain ⟨htext, hp⟩ := connBuildPathChar_put w s hc
        have hbyte := (pathByte_ne (Ne.symm hnul.2) hc).2
        refine ⟨?_, ?_, ?_⟩
        · intro h
          rw [hp] at h
          split at h
          · cases h
          next hsep =>
            rw [htext]
            simp [hs.none h, Ne.symm hsep]
        · intro p h
          rw [hp] at h
          rw [htext]
          split at h
          next hsep =>
            cases h
            exact ⟨by simp, by simp [hsep]⟩
          next hsep =>
            obtain ⟨hle, hmem⟩ := hs.some p h
            exact ⟨by simp; omega, List.mem_append_left _ hmem⟩
        · rw [htext, hp]
          split
          next hsep =>
            rw [List.rtakeWhile_concat_neg _ _ _ (by simp [hsep])]
            simp
          next hsep =>
            rw [List.rtakeWhile_concat_pos _ _ _ (by simp [hsep, hbyte]), ← hs.name]
            refine List.drop_append_of_le_length ?_
            cases hsp : s.p with
            | none => exact Nat.zero_le _
            | some p => exact (hs.some p hsp).1

/-- What `conn_build_path_fn` takes from a request: the last component without a
slip when every colon stands before the separators. -/
theorem connBuildPathFn_good (w : ConnWorld) {data : List UInt8} {onlyDir : Bool}
    (hlen : data.length ≤ 254) (hcolons : onlyDir = false → ColonsFirst data) :
    (0 : UInt8) ∉ (connBuildPathFn w data onlyDir).2.path ∧
      (connBuildPathFn w data onlyDir).2.fn = (if onlyDir then [] else requestName data) ∧
      (connBuildPathFn w data onlyDir).2.path.length +
        (connBuildPathFn w data onlyDir).2.fn.length ≤ data.length := by
  have hnul := CText.noNul_visible data
  have hvis : (CText.visible data).length ≤ data.length :=
    (List.takeWhile_prefix _).length_le
  obtain ⟨htext, htextLen⟩ := foldl_connBuildPathChar_text w hnul
  have hgood := fun h => foldl_connBuildPathChar_good w hnul (hcolons h)
  unfold connBuildPathFn
  generalize (CText.visible data).foldl (connBuildPathChar w) ⟨[], [], w.stack, none, 0⟩ = s
    at htext htextLen hgood ⊢
  cases onlyDir with
  | true =>
      simp only [if_true, CText.visible_append_zero htext]
      exact ⟨htext, trivial, by simp; omega⟩
  | false =>
      obtain ⟨hnone, hsome, hname⟩ := hgood rfl
      simp only [Bool.false_eq_true, if_false]
      cases hp : s.p with
      | none =>
          rw [hp, Option.getD_none, List.drop_zero] at hname
          simp only [CText.visible_append_zero htext]
          rw [List.take_of_length_le (by omega)]
          exact ⟨by simp, hname, by simp; omega⟩
      | some p =>
          obtain ⟨hle, -⟩ := hsome p hp
          rw [hp, Option.getD_some] at hname
          have htake : (0 : UInt8) ∉ s.text.take p := fun h => htext (List.mem_of_mem_take h)
          have hdrop : (0 : UInt8) ∉ s.text.drop p := fun h => htext (List.mem_of_mem_drop h)
          simp only [List.take_append_of_le_length hle, List.drop_append_of_le_length hle,
            CText.visible_append_zero hdrop, CText.visible_of_noNul htake]
          rw [List.take_of_length_le (l := s.text.drop p) (by simp; omega)]
          exact ⟨htake, hname, by simp; omega⟩

end MarsNwe
