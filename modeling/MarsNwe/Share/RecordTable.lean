import MarsNwe.Share.LogRecords

/-! # One table of logical records

The lists of the processes and the locks of the kernel together are one table of
locks, held under the lock file and the byte that a name is turned into. The table
answers for the names as if it held the locks under them while no two names in use
that are turned into the same file and byte meet.
-/

namespace MarsNwe

open KeyedFile RecordLock

variable {F : Type → Type → Type} [KeyedFile F] {P : Type} [DecidableEq P]

/-! ## The lists of the processes -/

/-- The lock file and the byte of a name. -/
abbrev LockPlace := List UInt8 × UInt32

namespace RecordLocks

variable {s s' : RecordLocks F P} {p : P} {fn : List UInt8} {offset : UInt32} {areas : LockAreas}

/-- The area that a process has in its list for a byte. -/
def area (s : RecordLocks F P) (p : P) (k : LockPlace) : Option LockArea :=
  (fetch (s.rootLf p) k.1).bind fun areas => fetch areas k.2

/-- The lock that a process has of a byte. -/
def byte (s : RecordLocks F P) (p : P) (k : LockPlace) : Option LockKind :=
  fetch (s.bytes k.1 k.2) p

/-- Two states differ in what one process has for one byte only. -/
structure SameElse (s s' : RecordLocks F P) (p : P) (k : LockPlace) : Prop where
  area : ∀ q k', ¬(q = p ∧ k' = k) → s'.area q k' = s.area q k'
  byte : ∀ q k', ¬(q = p ∧ k' = k) → s'.byte q k' = s.byte q k'

theorem SameElse.trans {s'' : RecordLocks F P} {k : LockPlace} (h : s.SameElse s' p k)
    (h' : s'.SameElse s'' p k) : s.SameElse s'' p k where
  area q k' hne := (h'.area q k' hne).trans (h.area q k' hne)
  byte q k' hne := (h'.byte q k' hne).trans (h.byte q k' hne)

omit [KeyedFile F] in
theorem area_setAreas (q : P) (k : LockPlace) : (s.setAreas p fn areas).area q k =
    if q = p ∧ k.1 = fn then fetch areas k.2 else s.area q k := by
  unfold area setAreas setRoot
  by_cases hq : q = p
  · subst hq
    by_cases hk : k.1 = fn
    · simp [hk]
    · simp [hk, fetch_store_of_ne _ _ hk]
  · simp [hq]

omit [KeyedFile F] in
theorem area_setAreas_self : (s.setAreas p fn areas).area p (fn, offset) = fetch areas offset := by
  rw [area_setAreas, if_pos ⟨rfl, rfl⟩]

@[simp] theorem byte_setAreas : (s.setAreas p fn areas).byte = s.byte := rfl

omit [KeyedFile F] [DecidableEq P] in
@[simp] theorem area_setByte {locks : F P LockKind} :
    (s.setByte fn offset locks).area = s.area := rfl

theorem byte_setByte {locks : F P LockKind} (q : P) (k : LockPlace) :
    (s.setByte fn offset locks).byte q k =
      if k = (fn, offset) then fetch locks q else s.byte q k := by
  by_cases hk : k = (fn, offset)
  · subst hk
    simp [byte, setByte]
  · have hplace : ¬(k.1 = fn ∧ k.2 = offset) := fun h => hk (Prod.ext h.1 h.2)
    simp [byte, setByte, hk, hplace]

theorem sameElse_setByte {locks : F P LockKind}
    (hlocks : ∀ q, q ≠ p → fetch locks q = s.byte q (fn, offset)) :
    s.SameElse (s.setByte fn offset locks) p (fn, offset) where
  area _ _ _ := rfl
  byte q k hne := by
    rw [byte_setByte]
    split
    next hk => rw [hk, hlocks q fun hq => hne ⟨hq, hk⟩]
    next => rfl

theorem sameElse_setAreas
    (hareas : ∀ offset', offset' ≠ offset → fetch areas offset' = s.area p (fn, offset')) :
    s.SameElse (s.setAreas p fn areas) p (fn, offset) where
  area q k hne := by
    rw [area_setAreas]
    split
    next hk =>
      obtain ⟨rfl, rfl⟩ := hk
      exact hareas k.2 fun hoffset => hne ⟨rfl, Prod.ext rfl hoffset⟩
    next => rfl
  byte _ _ _ := rfl

theorem area_closed (q : P) (k : LockPlace) :
    ((s.close p fn).setRoot p (delete (s.rootLf p) fn)).area q k =
      if q = p ∧ k.1 = fn then none else s.area q k := by
  unfold area close setRoot
  by_cases hq : q = p
  · subst hq
    by_cases hk : k.1 = fn
    · simp [hk]
    · simp [hk, fetch_delete_of_ne _ hk]
  · simp [hq]

theorem byte_closed {root : ListFile (List UInt8) LockAreas} (q : P) (k : LockPlace) :
    ((s.close p fn).setRoot p root).byte q k =
      if q = p ∧ k.1 = fn then none else s.byte q k := by
  unfold byte close setRoot
  by_cases hk : k.1 = fn
  · simp [hk, fetch_delete]
  · simp [hk]

end RecordLocks

/-! ## The table behind the lists -/

open LockTable

variable {s s' : RecordLocks F P} {t t' : LockTable P LockPlace} {p : P} {k : LockPlace}
  {kind : LockKind}

/-- The area for the locks that a process holds at a place. -/
def shownArea (t : LockTable P LockPlace) (p : P) (k : LockPlace) : Option LockArea :=
  if held t p k = 0 then none
  else some ⟨held t p k, if ⟨p, k, .write⟩ ∈ t then 1 else 0⟩

/-- The lists and the kernel have the locks of a table of places. -/
structure RecordLocks.Keeps (s : RecordLocks F P) (t : LockTable P LockPlace) : Prop where
  lone : Lone t
  area : ∀ p k, s.area p k = shownArea t p k
  byte : ∀ p k kind, s.byte p k = some kind ↔ ⟨p, k, kind⟩ ∈ t

/-- The call of the table that a `lock_flag` stands for. -/
def LogFlag.call {K : Type} (name : K) : LogFlag → LockCall K
  | .exclusive => .lock .write name
  | .shared => .lock .read name
  | .remove | .removeLog => .unlock name

/-- The result for the answer of a table. -/
def answerCode : LockAnswer → Int
  | .done => 0
  | .excluded => -0xfe
  | .missing => -0xff

/-- The count of the locks of the process does not overflow. -/
def Countable (t : LockTable P LockPlace) (p : P) : LockCall LockPlace → Prop
  | .lock kind k => Excluded t k kind ∨ (held t p k : Int) < intMax
  | .unlock _ => True

theorem RecordLocks.keeps_init : (RecordLocks.init : RecordLocks F P).Keeps 0 where
  lone := Lone.zero
  area p k := by
    simp [RecordLocks.area, RecordLocks.init, shownArea, held]
  byte p k kind := by
    simp [RecordLocks.byte, RecordLocks.init]

omit [KeyedFile F] in
theorem shownArea_eq_none : shownArea t p k = none ↔ ¬Holds t p k := by
  unfold shownArea
  rw [← held_eq_zero]
  split <;> simp_all

theorem shownArea_congr {q : P} {k' : LockPlace} (hheld : held t' q k' = held t q k')
    (hmem : ∀ kind, ⟨q, k', kind⟩ ∈ t' ↔ ⟨q, k', kind⟩ ∈ t) :
    shownArea t' q k' = shownArea t q k' := by
  unfold shownArea
  rw [hheld]
  simp only [hmem]

theorem held_cons_of_ne {h : Held P LockPlace} {q : P} {k' : LockPlace}
    (hne : ¬(q = h.proc ∧ k' = h.name)) : held (h ::ₘ t) q k' = held t q k' := by
  rw [held_cons, if_neg fun heq => hne ⟨heq.1.symm, heq.2.symm⟩, Nat.add_zero]

/-- A lock is added at a place for which a process had none or only shared ones. -/
theorem RecordLocks.Keeps.cons (h : s.Keeps t) (hfree : ¬Excluded t k kind)
    (helse : s.SameElse s' p k)
    (harea : s'.area p k = some ⟨held t p k + 1, if kind = .write then 1 else 0⟩)
    (hbyte : s'.byte p k = some kind) : s'.Keeps (⟨p, k, kind⟩ ::ₘ t) where
  lone := h.lone.cons hfree
  area q k' := by
    by_cases hown : q = p ∧ k' = k
    · obtain ⟨rfl, rfl⟩ := hown
      have hwrite : ⟨q, k', .write⟩ ∈ (⟨q, k', kind⟩ ::ₘ t : LockTable P LockPlace) ↔
          kind = .write := by
        rw [Multiset.mem_cons]
        constructor
        · rintro (heq | hmem)
          · exact ((Held.mk.inj heq).2.2).symm
          · exact absurd ⟨_, hmem, rfl, by cases kind <;> rfl⟩ hfree
        · rintro rfl
          exact .inl rfl
      have hheld : held (⟨q, k', kind⟩ ::ₘ t) q k' = held t q k' + 1 := by
        rw [held_cons, if_pos ⟨rfl, rfl⟩]
      rw [harea, shownArea, hheld, if_neg (Nat.succ_ne_zero _)]
      simp only [hwrite]
      rfl
    · rw [helse.area q k' hown, h.area]
      apply (shownArea_congr (held_cons_of_ne hown) _).symm
      intro kind'
      rw [Multiset.mem_cons, or_iff_right]
      rintro heq
      exact hown ⟨(Held.mk.inj heq).1, (Held.mk.inj heq).2.1⟩
  byte q k' kind' := by
    by_cases hown : q = p ∧ k' = k
    · obtain ⟨rfl, rfl⟩ := hown
      rw [hbyte, Multiset.mem_cons]
      constructor
      · intro heq
        exact .inl (by rw [Option.some.inj heq])
      · rintro (heq | hmem)
        · rw [(Held.mk.inj heq).2.2]
        · -- what is there does not exclude the new lock, so both are shared
          cases kind with
          | write => exact absurd ⟨_, hmem, rfl, by cases kind' <;> rfl⟩ hfree
          | read =>
              cases kind' with
              | read => rfl
              | write => exact absurd ⟨_, hmem, rfl, rfl⟩ hfree
    · rw [helse.byte q k' hown, h.byte, Multiset.mem_cons, or_iff_right]
      rintro heq
      exact hown ⟨(Held.mk.inj heq).1, (Held.mk.inj heq).2.1⟩

/-- A lock of a process is taken out of a place. -/
theorem RecordLocks.Keeps.erase (h : s.Keeps t) (hmem : ⟨p, k, kind⟩ ∈ t)
    (helse : s.SameElse s' p k) (harea : s'.area p k = shownArea (t.erase ⟨p, k, kind⟩) p k)
    (hbyte : ∀ kind', s'.byte p k = some kind' ↔ ⟨p, k, kind'⟩ ∈ t.erase ⟨p, k, kind⟩) :
    s'.Keeps (t.erase ⟨p, k, kind⟩) where
  lone := h.lone.erase _
  area q k' := by
    by_cases hown : q = p ∧ k' = k
    · obtain ⟨rfl, rfl⟩ := hown
      exact harea
    · rw [helse.area q k' hown, h.area]
      apply (shownArea_congr _ _).symm
      · rw [held_erase hmem, if_neg fun heq => hown ⟨heq.1.symm, heq.2.symm⟩, Nat.add_zero]
      · intro kind'
        apply Multiset.mem_erase_of_ne
        intro heq
        exact hown ⟨(Held.mk.inj heq).1, (Held.mk.inj heq).2.1⟩
  byte q k' kind' := by
    by_cases hown : q = p ∧ k' = k
    · obtain ⟨rfl, rfl⟩ := hown
      exact hbyte kind'
    · rw [helse.byte q k' hown, h.byte, Multiset.mem_erase_of_ne]
      intro heq
      exact hown ⟨(Held.mk.inj heq).1, (Held.mk.inj heq).2.1⟩

/-- Of several locks that a process holds at a place none is exclusive. -/
theorem kind_eq_read (hlone : Lone t) (hmem : ⟨p, k, kind⟩ ∈ t)
    (hrest : Holds (t.erase ⟨p, k, kind⟩) p k) {kind' : LockKind} (hmem' : ⟨p, k, kind'⟩ ∈ t) :
    kind' = .read := by
  cases kind' with
  | read => rfl
  | write =>
      have heq : (⟨p, k, kind⟩ : Held P LockPlace) = ⟨p, k, .write⟩ := hlone.eq hmem' rfl hmem rfl
      obtain ⟨g, hg, -, hname⟩ := hrest
      rw [heq] at hg
      exact absurd hname (hlone _ hmem' rfl g hg)

/-- One of several locks is taken back: the count goes down, and nothing else. -/
theorem RecordLocks.Keeps.countDown (h : s.Keeps t) (hmem : ⟨p, k, kind⟩ ∈ t)
    (hrest : Holds (t.erase ⟨p, k, kind⟩) p k) (helse : s.SameElse s' p k)
    (harea : s'.area p k = some ⟨(held t p k : Int) - 1, 0⟩) (hbyte : s'.byte p k = s.byte p k) :
    s'.Keeps (t.erase ⟨p, k, kind⟩) := by
  have hread {kind' : LockKind} (hmem' : ⟨p, k, kind'⟩ ∈ t) : kind' = .read :=
    kind_eq_read h.lone hmem hrest hmem'
  have hcount : held t p k = held (t.erase ⟨p, k, kind⟩) p k + 1 := by
    rw [held_erase hmem, if_pos ⟨rfl, rfl⟩]
  apply h.erase hmem helse
  · have hnone : ⟨p, k, .write⟩ ∉ t.erase ⟨p, k, kind⟩ := fun hwrite =>
      LockKind.noConfusion (hread (Multiset.mem_of_mem_erase hwrite))
    rw [harea, shownArea, if_neg (Nat.pos_iff_ne_zero.mp (held_pos.mpr hrest)), if_neg hnone,
      hcount]
    congr 2
    omega
  · intro kind'
    rw [hbyte, h.byte]
    refine ⟨fun hmem' => ?_, Multiset.mem_of_mem_erase⟩
    obtain ⟨⟨_, _, kind''⟩, hg, rfl, rfl⟩ := hrest
    rw [hread hmem']
    rwa [hread (Multiset.mem_of_mem_erase hg)] at hg

/-- The last lock is taken back. -/
theorem RecordLocks.Keeps.last (h : s.Keeps t) (hmem : ⟨p, k, kind⟩ ∈ t)
    (hrest : ¬Holds (t.erase ⟨p, k, kind⟩) p k) (helse : s.SameElse s' p k)
    (harea : s'.area p k = none) (hbyte : s'.byte p k = none) :
    s'.Keeps (t.erase ⟨p, k, kind⟩) := by
  apply h.erase hmem helse
  · rw [harea, shownArea_eq_none.mpr hrest]
  · intro kind'
    rw [hbyte]
    exact iff_of_false (by simp) fun hg => hrest ⟨_, hg, rfl, rfl⟩

/-! ## What the code does -/

section Code

variable {fn : List UInt8} {offset : UInt32} {areas : LockAreas} {lockFlag : Int}

/-- The areas of a file that a process finds in its list, or starts with. -/
def RecordLocks.Lists (s : RecordLocks F P) (p : P) (fn : List UInt8) (areas : LockAreas) : Prop :=
  ∀ offset, s.area p (fn, offset) = fetch areas offset

/-- The lock of another process is in the way just when the table says so. -/
theorem getlk_isSome_iff (h : s.Keeps t) (hnone : ¬Holds t p (fn, offset)) (want : LockKind) :
    (getlk (s.bytes fn offset) p want).isSome = true ↔ Excluded t (fn, offset) want := by
  constructor
  · intro hsome
    obtain ⟨kind, hget⟩ := Option.isSome_iff_exists.mp hsome
    obtain ⟨q, -, hfetch, hexcl⟩ := getlk_some hget
    exact ⟨⟨q, (fn, offset), kind⟩, (h.byte q (fn, offset) kind).mp hfetch, rfl, hexcl⟩
  · rintro ⟨⟨q, _, kind⟩, hmem, rfl, hexcl⟩
    by_contra hfree
    have hq : q ≠ p := by
      rintro rfl
      exact hnone ⟨_, hmem, rfl, rfl⟩
    have hpass := getlk_none (Option.not_isSome_iff_eq_none.mp hfree) hq
      ((h.byte q (fn, offset) kind).mpr hmem)
    rw [hpass] at hexcl
    contradiction

/-- A further lock of the same process is refused just when the table says so. -/
theorem excluded_iff_of_holds (hlone : Lone t) (hholds : Holds t p k) :
    Excluded t k kind ↔ ⟨p, k, .write⟩ ∈ t ∨ kind = .write := by
  obtain ⟨⟨_, _, held⟩, hmem, rfl, rfl⟩ := hholds
  constructor
  · rintro ⟨g, hg, hname, hexcl⟩
    cases kind with
    | write => exact .inr rfl
    | read =>
        have hwrite : g.kind = .write := by
          cases hkind : g.kind with
          | write => rfl
          | read =>
              rw [hkind] at hexcl
              contradiction
        rw [← hlone.eq hg hwrite hmem hname.symm] at hwrite
        obtain rfl : held = .write := hwrite
        exact .inl hmem
  · rintro (hwrite | rfl)
    · exact ⟨_, hwrite, rfl, by cases kind <;> rfl⟩
    · exact ⟨_, hmem, rfl, by cases held <;> rfl⟩

theorem lockFlag_pos {lockFlag : Int} (h : lockFlag > -1) : ¬lockFlag < 0 := by
  omega

/-- The kernel grants the first lock of a byte. -/
theorem lockArea_granted (hlists : s.Lists p fn areas) (hfetch : fetch areas offset = none)
    (hflag : lockFlag > -1)
    (hfree : (getlk (s.bytes fn offset) p (lockType lockFlag)).isSome = false) :
    ∃ s', lockArea s p lockFlag fn offset areas = some (0, s') ∧ s.SameElse s' p (fn, offset) ∧
      s'.area p (fn, offset) = some ⟨1, if lockType lockFlag = .write then 1 else 0⟩ ∧
      s'.byte p (fn, offset) = some (lockType lockFlag) := by
  have hset : setlk (s.bytes fn offset) p (lockType lockFlag) =
      store (s.bytes fn offset) p (lockType lockFlag) := setlk_of_free hfree
  have hone : (if lockFlag = 1 then (1 : Int) else 0) =
      if lockType lockFlag = .write then 1 else 0 := by
    unfold lockType
    by_cases h : lockFlag = 1 <;> simp [h]
  refine ⟨(s.setByte fn offset (setlk (s.bytes fn offset) p (lockType lockFlag))).setAreas p fn
    (store areas offset ⟨1, if lockFlag = 1 then 1 else 0⟩), ?_, ?_, ?_, ?_⟩
  · simp only [lockArea, hfetch, if_neg (lockFlag_pos hflag), hfree, Bool.false_eq_true, if_false]
  · apply RecordLocks.SameElse.trans
    · apply RecordLocks.sameElse_setByte
      intro q hq
      exact fetch_setlk_of_ne (lockType lockFlag) hq
    · apply RecordLocks.sameElse_setAreas
      intro offset' hne
      rw [fetch_store_of_ne _ _ hne]
      exact (hlists offset').symm
  · rw [RecordLocks.area_setAreas_self, fetch_store_self, hone]
  · rw [RecordLocks.byte_setAreas, RecordLocks.byte_setByte, if_pos rfl, hset, fetch_store_self]

/-- The first lock of a process at a place. -/
theorem lockArea_first (h : s.Keeps t) (hlists : s.Lists p fn areas)
    (hnone : ¬Holds t p (fn, offset)) (hflag : lockFlag > -1)
    (hfree : ¬Excluded t (fn, offset) (lockType lockFlag)) :
    ∃ s', lockArea s p lockFlag fn offset areas = some (0, s') ∧
      s'.Keeps (⟨p, (fn, offset), lockType lockFlag⟩ ::ₘ t) := by
  have hfetch : fetch areas offset = none := by
    rw [← hlists, h.area, shownArea_eq_none.mpr hnone]
  have hget := Bool.eq_false_iff.mpr fun hsome => hfree ((getlk_isSome_iff h hnone _).mp hsome)
  obtain ⟨s', hrun, helse, harea, hbyte⟩ := lockArea_granted hlists hfetch hflag hget
  refine ⟨s', hrun, h.cons hfree helse ?_ hbyte⟩
  rw [harea, held_eq_zero.mpr hnone]
  rfl

/-- A shared lock besides another one of the process. -/
theorem lockArea_again (h : s.Keeps t) (hlists : s.Lists p fn areas)
    (hholds : Holds t p (fn, offset)) (hflag : lockFlag > -1)
    (hfree : ¬Excluded t (fn, offset) (lockType lockFlag)) :
    if (held t p (fn, offset) : Int) < intMax then
      ∃ s', lockArea s p lockFlag fn offset areas = some (0, s') ∧
        s'.Keeps (⟨p, (fn, offset), lockType lockFlag⟩ ::ₘ t)
    else lockArea s p lockFlag fn offset areas = none := by
  have hexcl := mt (excluded_iff_of_holds h.lone hholds).mpr hfree
  rw [not_or] at hexcl
  have hshared : lockFlag ≠ 1 := fun heq => hexcl.2 (if_pos heq)
  have hread : lockType lockFlag = .read := if_neg hshared
  have hfetch : fetch areas offset = some ⟨held t p (fn, offset), 0⟩ := by
    rw [← hlists, h.area, shownArea, if_neg (Nat.pos_iff_ne_zero.mp (held_pos.mpr hholds)),
      if_neg hexcl.1]
  simp only [lockArea, hfetch, if_pos hflag, ne_eq, not_true_eq_false, hshared, or_false, if_false]
  by_cases hcount : (held t p (fn, offset) : Int) < intMax
  · simp only [if_pos hcount]
    refine ⟨_, rfl, h.cons hfree ?_ ?_ ?_⟩
    · apply RecordLocks.sameElse_setAreas
      intro offset' hne
      rw [fetch_store_of_ne _ _ hne]
      exact (hlists offset').symm
    · rw [RecordLocks.area_setAreas_self, fetch_store_self, hread]
      rfl
    · -- the lock that the kernel has of the process is shared already
      rw [RecordLocks.byte_setAreas, hread, h.byte]
      obtain ⟨⟨_, _, kind⟩, hmem, rfl, hname⟩ := hholds
      cases kind with
      | read => exact hname ▸ hmem
      | write => exact absurd (hname ▸ hmem) hexcl.1
  · simp only [if_neg hcount]

/-- A lock that the table excludes is refused. -/
theorem lockArea_refused (h : s.Keeps t) (hlists : s.Lists p fn areas) (hflag : lockFlag > -1)
    (hexcl : Excluded t (fn, offset) (lockType lockFlag)) :
    lockArea s p lockFlag fn offset areas = some (-0xfe, s) := by
  by_cases hholds : Holds t p (fn, offset)
  · have hfetch : fetch areas offset = some ⟨held t p (fn, offset),
        if ⟨p, (fn, offset), .write⟩ ∈ t then 1 else 0⟩ := by
      rw [← hlists, h.area, shownArea, if_neg (Nat.pos_iff_ne_zero.mp (held_pos.mpr hholds))]
    have hguard : (if ⟨p, (fn, offset), .write⟩ ∈ t then (1 : Int) else 0) ≠ 0 ∨ lockFlag = 1 := by
      rcases (excluded_iff_of_holds h.lone hholds).mp hexcl with hwrite | hkind
      · left
        rw [if_pos hwrite]
        exact one_ne_zero
      · right
        by_contra hne
        rw [lockType, if_neg hne] at hkind
        contradiction
    simp only [lockArea, hfetch, if_pos hflag]
    rw [if_pos hguard]
  · have hfetch : fetch areas offset = none := by
      rw [← hlists, h.area, shownArea_eq_none.mpr hholds]
    have hget := (getlk_isSome_iff h hholds _).mpr hexcl
    simp only [lockArea, hfetch, if_neg (lockFlag_pos hflag), hget, if_true]

/-- A process without a lock at a place has none to unlock. -/
theorem lockArea_missing (h : s.Keeps t) (hlists : s.Lists p fn areas)
    (hnone : ¬Holds t p (fn, offset)) (hflag : lockFlag < 0) :
    lockArea s p lockFlag fn offset areas = some (-0xff, s) := by
  have hfetch : fetch areas offset = none := by
    rw [← hlists, h.area, shownArea_eq_none.mpr hnone]
  simp only [lockArea, hfetch, if_pos hflag]

/-- A process has no lock of a byte for which it has no area. -/
theorem RecordLocks.Keeps.byte_eq_none (h : s.Keeps t) (harea : s.area p k = none) :
    s.byte p k = none := by
  rw [h.area, shownArea_eq_none] at harea
  by_contra hsome
  obtain ⟨kind, hkind⟩ := Option.ne_none_iff_exists'.mp hsome
  exact harea ⟨_, (h.byte p k kind).mp hkind, rfl, rfl⟩

/-- The file without areas goes out of the list, and is closed. -/
theorem RecordLocks.Lists.sameElse_closed (hlists : s.Lists p fn areas)
    (hbytes : ∀ k : LockPlace, k ≠ (fn, offset) → s.area p k = none → s.byte p k = none)
    (hempty : (delete areas offset).records = []) :
    s.SameElse ((s.close p fn).setRoot p (delete (s.rootLf p) fn)) p (fn, offset) := by
  have hnone : ∀ k : LockPlace, k.1 = fn → k ≠ (fn, offset) → s.area p k = none := by
    rintro ⟨_, offset'⟩ rfl hne
    have hoffset : offset' ≠ offset := fun heq => hne (Prod.ext rfl heq)
    have hfetch : fetch (delete areas offset) offset' = none := by
      change ListFile.search offset' (delete areas offset).records = none
      rw [hempty]
      rfl
    rw [hlists, ← fetch_delete_of_ne areas hoffset, hfetch]
  constructor
  · intro q k' hne
    rw [RecordLocks.area_closed]
    split
    next hk =>
      obtain ⟨rfl, hfn⟩ := hk
      rw [hnone k' hfn fun heq => hne ⟨rfl, heq⟩]
    next => rfl
  · intro q k' hne
    rw [RecordLocks.byte_closed]
    split
    next hk =>
      obtain ⟨rfl, hfn⟩ := hk
      have hk' : k' ≠ (fn, offset) := fun heq => hne ⟨rfl, heq⟩
      rw [hbytes k' hk' (hnone k' hfn hk')]
    next => rfl

/-- A lock of the process is taken back, the last one of the byte or one of several. -/
theorem lockArea_unlock (h : s.Keeps t) (hlists : s.Lists p fn areas)
    (hholds : Holds t p (fn, offset)) (hflag : lockFlag < 0) :
    ∃ s', lockArea s p lockFlag fn offset areas = some (0, s') ∧
      s'.Keeps (release t p (fn, offset)) := by
  obtain ⟨kind, hmem, hrelease⟩ := release_eq hholds
  have hcount : held t p (fn, offset) =
      held (t.erase ⟨p, (fn, offset), kind⟩) p (fn, offset) + 1 := by
    rw [held_erase hmem, if_pos ⟨rfl, rfl⟩]
  have hfetch : fetch areas offset = some ⟨held t p (fn, offset),
      if ⟨p, (fn, offset), .write⟩ ∈ t then 1 else 0⟩ := by
    rw [← hlists, h.area, shownArea, if_neg (Nat.pos_iff_ne_zero.mp (held_pos.mpr hholds))]
  have hlock : ¬lockFlag > -1 := by omega
  rw [hrelease]
  by_cases hrest : Holds (t.erase ⟨p, (fn, offset), kind⟩) p (fn, offset)
  · have hmore : (held t p (fn, offset) : Int) - 1 > 0 := by
      have hpos := held_pos.mpr hrest
      omega
    have hshared : ⟨p, (fn, offset), .write⟩ ∉ t := fun hwrite =>
      LockKind.noConfusion (kind_eq_read h.lone hmem hrest hwrite)
    simp only [lockArea, hfetch, if_neg hlock, if_pos hmore, if_neg hshared]
    refine ⟨_, rfl, h.countDown hmem hrest ?_ ?_ rfl⟩
    · apply RecordLocks.sameElse_setAreas
      intro offset' hne
      rw [fetch_store_of_ne _ _ hne]
      exact (hlists offset').symm
    · rw [RecordLocks.area_setAreas_self, fetch_store_self]
  · have hlast : ¬(held t p (fn, offset) : Int) - 1 > 0 := by
      have hzero := held_eq_zero.mpr hrest
      omega
    have hunlock : s.SameElse (s.setByte fn offset (unlock (s.bytes fn offset) p)) p (fn, offset) :=
      RecordLocks.sameElse_setByte fun q hq => fetch_delete_of_ne _ hq
    simp only [lockArea, hfetch, if_neg hlock, if_neg hlast]
    by_cases hempty : (delete areas offset).records = []
    · simp only [if_pos hempty]
      have hlists' : (s.setByte fn offset (unlock (s.bytes fn offset) p)).Lists p fn areas := hlists
      refine ⟨_, rfl, h.last hmem hrest (hunlock.trans ?_) ?_ ?_⟩
      · apply hlists'.sameElse_closed _ hempty
        intro k hk hnone
        rw [RecordLocks.byte_setByte, if_neg hk]
        exact h.byte_eq_none hnone
      · rw [RecordLocks.area_closed, if_pos ⟨rfl, rfl⟩]
      · rw [RecordLocks.byte_closed, if_pos ⟨rfl, rfl⟩]
    · simp only [if_neg hempty]
      refine ⟨_, rfl, h.last hmem hrest (hunlock.trans ?_) ?_ ?_⟩
      · apply RecordLocks.sameElse_setAreas
        intro offset' hne
        rw [fetch_delete_of_ne _ hne]
        exact (hlists offset').symm
      · rw [RecordLocks.area_setAreas_self, fetch_delete_self]
      · rw [RecordLocks.byte_setAreas, RecordLocks.byte_setByte, if_pos rfl, unlock,
          fetch_delete_self]

omit [KeyedFile F] [DecidableEq P] in
/-- The areas of a file that a process has in its list. -/
theorem RecordLocks.lists_of_fetch (hfetch : fetch (s.rootLf p) fn = some areas) :
    s.Lists p fn areas := by
  intro offset
  rw [RecordLocks.area, hfetch]
  rfl

omit [KeyedFile F] [DecidableEq P] in
/-- A file that a process does not have in its list has no areas. -/
theorem RecordLocks.lists_empty (hfetch : fetch (s.rootLf p) fn = none) : s.Lists p fn empty := by
  intro offset
  rw [RecordLocks.area, hfetch, fetch_empty]
  rfl

/-- The state in which a file that was not in the list is open and its byte locked. -/
def RecordLocks.opened (s : RecordLocks F P) (p : P) (fn : List UInt8) (offset : UInt32)
    (want : LockKind) : RecordLocks F P :=
  (s.setByte fn offset (setlk (s.bytes fn offset) p want)).setAreas p fn empty

theorem RecordLocks.Lists.sameElse_opened (hlists : s.Lists p fn empty) (want : LockKind) :
    s.SameElse (s.opened p fn offset want) p (fn, offset) := by
  apply RecordLocks.SameElse.trans
  · exact RecordLocks.sameElse_setByte fun q hq => fetch_setlk_of_ne want hq
  · apply RecordLocks.sameElse_setAreas
    intro offset' _
    exact (hlists offset').symm

omit [KeyedFile F] in
/-- A file just opened has no areas. -/
theorem RecordLocks.lists_setAreas : (s.setAreas p fn areas).Lists p fn areas := by
  intro offset
  exact RecordLocks.area_setAreas_self

/-- The first lock of a file. It is asked for twice, and the second time it is the lock
that the process has. -/
theorem lockArea_opened (h : s.Keeps t) (hlists : s.Lists p fn empty) (hflag : lockFlag > -1)
    (hfree : ¬Excluded t (fn, offset) (lockType lockFlag)) :
    ∃ s', lockArea (s.opened p fn offset (lockType lockFlag)) p lockFlag fn offset empty =
        some (0, s') ∧ s'.Keeps (⟨p, (fn, offset), lockType lockFlag⟩ ::ₘ t) := by
  have hnone : ¬Holds t p (fn, offset) := by
    rw [← shownArea_eq_none, ← h.area, hlists, fetch_empty]
  have hget := Bool.eq_false_iff.mpr fun hsome => hfree ((getlk_isSome_iff h hnone _).mp hsome)
  have hbyte : (s.opened p fn offset (lockType lockFlag)).bytes fn offset =
      store (s.bytes fn offset) p (lockType lockFlag) := by
    rw [← setlk_of_free hget]
    exact if_pos ⟨rfl, rfl⟩
  have hagain := getlk_store_self (lockType lockFlag) hget
  rw [← hbyte] at hagain
  obtain ⟨s', hrun, helse, harea, hlock⟩ :=
    lockArea_granted RecordLocks.lists_setAreas (fetch_empty offset) hflag hagain
  refine ⟨s', hrun, h.cons hfree ((hlists.sameElse_opened _).trans helse) ?_ hlock⟩
  rw [harea, held_eq_zero.mpr hnone]
  rfl

/-! ## A call in a process -/

/-- The place that a name is turned into, with pointers of `w` bytes. -/
def recordPlace (w : Nat) (name : RecordName) : LockPlace :=
  (lockFn w name.data, recordOffset name.data)

/-- The result of a call is the answer of the table, and the state after it keeps the table
after it. -/
def AnswersAs (t : LockTable P LockPlace) (p : P) (call : LockCall LockPlace)
    (result : Option (Int × RecordLocks F P)) : Prop :=
  ∃ s', result = some (answerCode (step t p call).1, s') ∧ s'.Keeps (step t p call).2

variable {w : Nat} {name : RecordName}

theorem lockRecord_listed (hfetch : fetch (s.rootLf p) (lockFn w name.data) = some areas) :
    lockRecord w s p lockFlag name.data =
      lockArea s p lockFlag (lockFn w name.data) (recordOffset name.data) areas := by
  simp only [lockRecord, hfetch]

theorem lockRecord_unlisted (hfetch : fetch (s.rootLf p) (lockFn w name.data) = none)
    (hflag : lockFlag > -1) :
    lockRecord w s p lockFlag name.data =
      if (getlk (s.bytes (lockFn w name.data) (recordOffset name.data)) p
          (lockType lockFlag)).isSome then some (-0xfe, s)
      else lockArea (s.opened p (lockFn w name.data) (recordOffset name.data) (lockType lockFlag)) p
        lockFlag (lockFn w name.data) (recordOffset name.data) empty := by
  simp only [lockRecord, hfetch, if_neg (lockFlag_pos hflag)]
  rfl

/-- A process has no locks in a file that is not in its list. -/
theorem RecordLocks.Keeps.not_holds (h : s.Keeps t)
    (hfetch : fetch (s.rootLf p) (lockFn w name.data) = none) :
    ¬Holds t p (recordPlace w name) := by
  rw [← shownArea_eq_none, ← h.area]
  exact (RecordLocks.lists_empty hfetch _).trans (fetch_empty _)

theorem lockRecord_refused (h : s.Keeps t) (hflag : lockFlag > -1)
    (hexcl : Excluded t (recordPlace w name) (lockType lockFlag)) :
    lockRecord w s p lockFlag name.data = some (-0xfe, s) := by
  cases hfetch : fetch (s.rootLf p) (lockFn w name.data) with
  | some areas =>
      rw [lockRecord_listed hfetch]
      exact lockArea_refused h (RecordLocks.lists_of_fetch hfetch) hflag hexcl
  | none =>
      rw [lockRecord_unlisted hfetch hflag]
      exact if_pos ((getlk_isSome_iff h (h.not_holds hfetch) _).mpr hexcl)

/-- A lock that the table grants is granted, unless the count overflows. -/
theorem lockRecord_granted (h : s.Keeps t) (hflag : lockFlag > -1)
    (hfree : ¬Excluded t (recordPlace w name) (lockType lockFlag)) :
    if (held t p (recordPlace w name) : Int) < intMax then
      ∃ s', lockRecord w s p lockFlag name.data = some (0, s') ∧
        s'.Keeps (⟨p, recordPlace w name, lockType lockFlag⟩ ::ₘ t)
    else lockRecord w s p lockFlag name.data = none := by
  have hcount : ¬Holds t p (recordPlace w name) →
      (held t p (recordPlace w name) : Int) < intMax := by
    intro hnone
    rw [held_eq_zero.mpr hnone, intMax]
    decide
  cases hfetch : fetch (s.rootLf p) (lockFn w name.data) with
  | some areas =>
      have hlists := RecordLocks.lists_of_fetch hfetch
      rw [lockRecord_listed hfetch]
      by_cases hholds : Holds t p (recordPlace w name)
      · exact lockArea_again h hlists hholds hflag hfree
      · rw [if_pos (hcount hholds)]
        exact lockArea_first h hlists hholds hflag hfree
  | none =>
      have hnone := h.not_holds hfetch
      rw [if_pos (hcount hnone), lockRecord_unlisted hfetch hflag,
        if_neg fun hsome => hfree ((getlk_isSome_iff h hnone _).mp hsome)]
      exact lockArea_opened h (RecordLocks.lists_empty hfetch) hflag hfree

theorem lockRecord_lock (h : s.Keeps t) (hflag : lockFlag > -1)
    (hcount : Countable t p (.lock (lockType lockFlag) (recordPlace w name))) :
    AnswersAs t p (.lock (lockType lockFlag) (recordPlace w name))
      (lockRecord w s p lockFlag name.data) := by
  unfold AnswersAs step
  by_cases hexcl : Excluded t (recordPlace w name) (lockType lockFlag)
  · simp only [if_pos hexcl]
    exact ⟨s, lockRecord_refused h hflag hexcl, h⟩
  · have hgranted := lockRecord_granted (p := p) h hflag hexcl
    rw [if_pos (hcount.resolve_left hexcl)] at hgranted
    simp only [if_neg hexcl]
    exact hgranted

theorem lockRecord_unlock (h : s.Keeps t) (hflag : lockFlag < 0) :
    AnswersAs t p (.unlock (recordPlace w name)) (lockRecord w s p lockFlag name.data) := by
  unfold AnswersAs step
  cases hfetch : fetch (s.rootLf p) (lockFn w name.data) with
  | some areas =>
      have hlists := RecordLocks.lists_of_fetch hfetch
      rw [lockRecord_listed hfetch]
      by_cases hholds : Holds t p (recordPlace w name)
      · simp only [if_pos hholds]
        exact lockArea_unlock h hlists hholds hflag
      · simp only [if_neg hholds]
        exact ⟨s, lockArea_missing h hlists hholds hflag, h⟩
  | none =>
      simp only [if_neg (h.not_holds hfetch)]
      refine ⟨s, ?_, h⟩
      simp only [lockRecord, hfetch, if_pos hflag]
      rfl

/-- A call is answered as by the table of the places, whose state is kept. -/
theorem lockRecord_keeps (h : s.Keeps t) (flag : LogFlag)
    (hcount : Countable t p (flag.call (recordPlace w name))) :
    AnswersAs t p (flag.call (recordPlace w name)) (lockRecord w s p flag.value name.data) := by
  cases flag with
  | exclusive =>
      have hflag : LogFlag.exclusive.value > -1 := by decide
      exact lockRecord_lock h hflag hcount
  | shared =>
      have hflag : LogFlag.shared.value > -1 := by decide
      exact lockRecord_lock h hflag hcount
  | remove => exact lockRecord_unlock h (by decide)
  | removeLog => exact lockRecord_unlock h (by decide)

/-- A count that overflows leaves no state. -/
theorem lockRecord_uncountable (h : s.Keeps t) (flag : LogFlag)
    (hcount : ¬Countable t p (flag.call (recordPlace w name))) :
    lockRecord w s p flag.value name.data = none := by
  cases flag with
  | exclusive =>
      obtain ⟨hfree, hover⟩ := not_or.mp hcount
      have hflag : LogFlag.exclusive.value > -1 := by decide
      have hgranted := lockRecord_granted (p := p) h hflag hfree
      rwa [if_neg hover] at hgranted
  | shared =>
      obtain ⟨hfree, hover⟩ := not_or.mp hcount
      have hflag : LogFlag.shared.value > -1 := by decide
      have hgranted := lockRecord_granted (p := p) h hflag hfree
      rwa [if_neg hover] at hgranted
  | remove => exact absurd trivial hcount
  | removeLog => exact absurd trivial hcount

end Code

/-! ## Runs -/

section Runs

variable {w : Nat}
  {shareFile : Option (RecordLocks F P) → Int → Int → Int → Int → Int × Option (RecordLocks F P)}

/-- The result of a call, and the locks after it. -/
theorem logMachine_step (w : Nat)
    (shareFile : Option (RecordLocks F P) → Int → Int → Int → Int →
      Int × Option (RecordLocks F P)) (s : LogState F P) (e : LogCall P) :
    ((logMachine w shareFile).step s e).1 =
        (s.locks.bind fun s => lockRecord w s e.proc e.flag.value e.name.data).map Prod.fst ∧
      ((logMachine w shareFile).step s e).2.locks =
        (s.locks.bind fun s => lockRecord w s e.proc e.flag.value e.name.data).map Prod.snd := by
  have hzero : e.flag.value ≠ 0 := by
    cases e.flag <;> decide
  have hflag : ¬e.flag.value ∉ [-1, -2, 1, 3] := by
    cases e.flag <;> decide
  simp only [logMachine, nwLogLogicalRecord, if_neg hzero, if_neg hflag, recordCalls]
  cases s.locks.bind fun s => lockRecord w s e.proc e.flag.value e.name.data with
  | none => exact ⟨rfl, rfl⟩
  | some result => exact ⟨rfl, rfl⟩

/-- The table of the names: what is asked for under a name. -/
def nameTable : Machine (LockTable P RecordName) (LogCall P) (Option Int) where
  step t e :=
    let (answer, t') := step t e.proc (e.flag.call e.name)
    (some (answerCode answer), t')

/-- No lock under another name that is turned into the same place decides about the
call, and its count does not overflow. -/
def PlaceDecides (w : Nat) (t : LockTable P RecordName) (e : LogCall P) : Prop :=
  TellsApart (recordPlace w) t e.proc (e.flag.call e.name) ∧
    Countable (rename (recordPlace w) t) e.proc (e.flag.call (recordPlace w e.name))

theorem LogFlag.call_rename {K L : Type} (f : K → L) (name : K) (flag : LogFlag) :
    (flag.call name).rename f = flag.call (f name) := by
  cases flag <;> rfl

theorem answerCode_injective : Function.Injective answerCode := by
  intro a b
  cases a <;> cases b <;> decide

/-- The locks are those of a table of names, each under its place. -/
def LogState.KeepsNames (w : Nat) (s : LogState F P) (t : LockTable P RecordName) : Prop :=
  ∃ locks, s.locks = some locks ∧ locks.Keeps (rename (recordPlace w) t)

/-- A call is answered as by the table of the names just when the place decides as the
name does, and then the table is kept. -/
theorem LogState.KeepsNames.step {s : LogState F P} {t : LockTable P RecordName}
    (h : s.KeepsNames w t) (e : LogCall P) :
    (((logMachine w shareFile).step s e).1 = (nameTable.step t e).1 ↔ PlaceDecides w t e) ∧
      (PlaceDecides w t e →
        ((logMachine w shareFile).step s e).2.KeepsNames w (nameTable.step t e).2) := by
  obtain ⟨locks, hlocks, hkeeps⟩ := h
  obtain ⟨hresult, hnext⟩ := logMachine_step w shareFile s e
  rw [hlocks, Option.bind_some] at hresult hnext
  by_cases hcount :
      Countable (rename (recordPlace w) t) e.proc (e.flag.call (recordPlace w e.name))
  · obtain ⟨s', hrun, hkeeps'⟩ := lockRecord_keeps hkeeps e.flag hcount
    rw [hrun] at hresult hnext
    rw [← LogFlag.call_rename] at hresult hkeeps'
    constructor
    · rw [hresult, PlaceDecides, and_iff_left hcount, ← answer_rename_iff]
      change some _ = some _ ↔ _
      rw [Option.some.injEq]
      exact answerCode_injective.eq_iff
    · intro hdecides
      refine ⟨s', hnext, ?_⟩
      change s'.Keeps (rename _ (LockTable.step t _ _).2)
      rw [← step_rename hkeeps.lone hdecides.1]
      exact hkeeps'
  · have hrun := lockRecord_uncountable hkeeps e.flag hcount
    rw [hrun] at hresult
    rw [hresult]
    constructor
    · apply iff_of_false
      · exact Option.some_ne_none _ ∘ Eq.symm
      · exact fun hdecides => hcount hdecides.2
    · exact fun hdecides => absurd hdecides.2 hcount

theorem LogState.keepsNames_init : (LogState.init : LogState F P).KeepsNames w 0 :=
  ⟨RecordLocks.init, rfl, RecordLocks.keeps_init⟩

/-- The calls of the processes are answered as by one table of locks under the names just
when every call is decided alike by the place of its name. -/
theorem record_locks_by_name_iff (calls : List (LogCall P)) :
    (logMachine (F := F) w shareFile).answers LogState.init calls = nameTable.answers 0 calls ↔
      nameTable.Along (PlaceDecides w) 0 calls :=
  Machine.answers_eq_iff_along _ (fun _ _ e h => h.step e) LogState.keepsNames_init calls

/-- A process locks `A`, and another one cannot lock `A` with a zero behind it: a name
of less than four bytes is filled up with zeros. -/
theorem not_record_locks_by_name :
    ¬∀ calls : List (LogCall Nat),
      (logMachine (F := ListFile) 8 fun s _ _ _ _ => (0, s)).answers LogState.init calls =
        nameTable.answers 0 calls := by
  intro hall
  have hrun := hall [⟨1, .exclusive, 0, ⟨[0x41], by decide, by decide⟩⟩,
    ⟨2, .exclusive, 0, ⟨[0x41, 0], by decide, by decide⟩⟩]
  revert hrun
  decide +kernel

/-! ## Names that are told apart -/

/-- There is more of the name than the four bytes for the offset, and none of it is
rewritten. -/
def RecordName.Plain (name : RecordName) : Prop :=
  4 < name.data.length ∧ ∀ b ∈ name.data.drop 4, b ≠ 0x2f ∧ b ≠ 0

instance (name : RecordName) : Decidable name.Plain :=
  inferInstanceAs (Decidable (4 < name.data.length ∧ ∀ b ∈ name.data.drop 4, b ≠ 0x2f ∧ b ≠ 0))

theorem rewriteFn_of_plain (w len : Nat) {bs : List UInt8} (h : ∀ b ∈ bs, b ≠ 0x2f ∧ b ≠ 0) :
    rewriteFn w len bs = (bs, 0) := by
  induction bs with
  | nil => rfl
  | cons b bs ih =>
      obtain ⟨hb, hbs⟩ := List.forall_mem_cons.mp h
      rw [rewriteFn, if_neg (not_or.mpr hb), ih hbs]

theorem RecordName.Plain.lockFn {name : RecordName} (h : name.Plain) (w : Nat) :
    lockFn w name.data = name.data.drop 4 := by
  have hlength : (name.data.drop 4).length = name.data.length - 4 := List.length_drop
  have hne : name.data.drop 4 ≠ [] := by
    intro hnil
    have hpos := h.1
    rw [hnil] at hlength
    simp only [List.length_nil] at hlength
    omega
  have hshort : ¬(name.data.drop 4).length > 256 := by
    have := name.short
    omega
  simp only [MarsNwe.lockFn, if_neg hne, if_neg hshort, rewriteFn_of_plain w _ h.2]
  exact List.append_nil _

theorem take_four {l : List UInt8} (h : 4 < l.length) :
    l.take 4 = [l.getD 0 0, l.getD 1 0, l.getD 2 0, l.getD 3 0] := by
  obtain _ | ⟨a, _ | ⟨b, _ | ⟨c, _ | ⟨d, l⟩⟩⟩⟩ := l
  · simp at h
  · simp at h
  · simp at h
  · simp at h
  · rfl

theorem recordOffset_injective {a b : List UInt8} (ha : 4 < a.length) (hb : 4 < b.length)
    (h : recordOffset a = recordOffset b) : a.take 4 = b.take 4 := by
  obtain ⟨h₀, h₁, h₂, h₃⟩ := be32_inj h
  rw [take_four ha, take_four hb, h₀, h₁, h₂, h₃]

/-- Plain names are turned into places of their own. -/
theorem RecordName.Plain.recordPlace_inj {a b : RecordName} (ha : a.Plain) (hb : b.Plain)
    (h : recordPlace w a = recordPlace w b) : a = b := by
  obtain ⟨hfn, hoffset⟩ := Prod.mk.inj h
  rw [ha.lockFn, hb.lockFn] at hfn
  have htake := recordOffset_injective ha.1 hb.1 hoffset
  have hdata : a.data = b.data := by
    rw [← List.take_append_drop 4 a.data, ← List.take_append_drop 4 b.data, htake, hfn]
  cases a
  cases b
  cases hdata
  rfl

omit [DecidableEq P] in
/-- Among plain names the place decides as the name does. -/
theorem tellsApart_of_plain {t : LockTable P RecordName} (ht : ∀ h ∈ t, h.name.Plain)
    {e : LogCall P} (he : e.name.Plain) :
    TellsApart (recordPlace w) t e.proc (e.flag.call e.name) := by
  have hlock : ∀ kind, Excluded (rename (recordPlace w) t) (recordPlace w e.name) kind →
      Excluded t e.name kind := by
    intro kind hexcl
    obtain ⟨h, hmem, hplace, hkind⟩ := excluded_rename.mp hexcl
    exact ⟨h, hmem, (ht h hmem).recordPlace_inj he hplace, hkind⟩
  have hunlock : Holds (rename (recordPlace w) t) e.proc (recordPlace w e.name) →
      Holds t e.proc e.name := by
    intro hholds
    obtain ⟨h, hmem, hproc, hplace⟩ := holds_rename.mp hholds
    exact ⟨h, hmem, hproc, (ht h hmem).recordPlace_inj he hplace⟩
  cases e.flag with
  | exclusive => exact hlock .write
  | shared => exact hlock .read
  | remove => exact hunlock
  | removeLog => exact hunlock

/-- A call adds one lock at most, under its name. -/
theorem nameTable_step_le (t : LockTable P RecordName) (e : LogCall P) :
    ∃ kind, (nameTable.step t e).2 ≤ ⟨e.proc, e.name, kind⟩ ::ₘ t := by
  have hlock : ∀ kind, (step t e.proc (.lock kind e.name)).2 ≤ ⟨e.proc, e.name, kind⟩ ::ₘ t := by
    intro kind
    rw [step]
    split
    · exact Multiset.le_cons_self _ _
    · exact le_refl _
  have hunlock : (step t e.proc (.unlock e.name)).2 ≤ ⟨e.proc, e.name, .read⟩ ::ₘ t := by
    apply le_trans _ (Multiset.le_cons_self _ _)
    rw [step]
    split
    next hholds =>
      obtain ⟨kind, -, hrelease⟩ := release_eq hholds
      rw [hrelease]
      exact Multiset.erase_le _ _
    next => exact le_refl _
  obtain ⟨p, flag, timeout, name⟩ := e
  cases flag with
  | exclusive => exact ⟨.write, hlock .write⟩
  | shared => exact ⟨.read, hlock .read⟩
  | remove => exact ⟨.read, hunlock⟩
  | removeLog => exact ⟨.read, hunlock⟩

theorem countable_of_few {t : LockTable P RecordName} (e : LogCall P)
    (hfew : Multiset.card t + 1 < 2 ^ 31) :
    Countable (rename (recordPlace w) t) e.proc (e.flag.call (recordPlace w e.name)) := by
  have hlock : ∀ kind, Countable (rename (recordPlace w) t) e.proc
      (.lock kind (recordPlace w e.name)) := by
    intro kind
    right
    have hheld : held (rename (recordPlace w) t) e.proc (recordPlace w e.name) ≤
        Multiset.card (rename (recordPlace w) t) := Multiset.countP_le_card _ _
    rw [card_rename] at hheld
    rw [intMax]
    omega
  cases e.flag with
  | exclusive => exact hlock .write
  | shared => exact hlock .read
  | remove => trivial
  | removeLog => trivial

theorem placeDecides_along {t : LockTable P RecordName} {calls : List (LogCall P)}
    (ht : ∀ h ∈ t, h.name.Plain) (hcalls : ∀ e ∈ calls, e.name.Plain)
    (hfew : Multiset.card t + calls.length < 2 ^ 31) :
    nameTable.Along (PlaceDecides w) t calls := by
  induction calls generalizing t with
  | nil => trivial
  | cons e calls ih =>
      obtain ⟨he, hrest⟩ := List.forall_mem_cons.mp hcalls
      obtain ⟨kind, hle⟩ := nameTable_step_le t e
      rw [List.length_cons] at hfew
      have hcard := Multiset.card_le_card hle
      rw [Multiset.card_cons] at hcard
      refine ⟨⟨tellsApart_of_plain ht he, countable_of_few e (by omega)⟩, ih ?_ hrest (by omega)⟩
      intro h hmem
      rcases Multiset.mem_cons.mp (Multiset.mem_of_le hle hmem) with rfl | hold
      · exact he
      · exact ht h hold

/-- Calls for plain names are answered as by one table of locks under the names. -/
theorem record_locks_of_plain {calls : List (LogCall P)} (hcalls : ∀ e ∈ calls, e.name.Plain)
    (hfew : calls.length < 2 ^ 31) :
    (logMachine (F := F) w shareFile).answers LogState.init calls = nameTable.answers 0 calls := by
  have hsteps := Machine.answers_eq_iff_along (logMachine (F := F) w shareFile)
    (fun _ _ e h => h.step e) LogState.keepsNames_init calls
  apply hsteps.mpr
  apply placeDecides_along _ hcalls
  · simpa using hfew
  · intro h hmem
    exact absurd hmem (Multiset.notMem_zero h)

/-- Two processes share the lock of a record while a third cannot have it alone. -/
theorem record_locks_of_plain_shared :
    (logMachine (F := ListFile) 8 fun s _ _ _ _ => (0, s)).answers (LogState.init (P := Nat))
        [⟨1, .shared, 0, ⟨[0, 0, 0, 7, 0x41], by decide, by decide⟩⟩,
          ⟨2, .shared, 0, ⟨[0, 0, 0, 7, 0x41], by decide, by decide⟩⟩,
          ⟨3, .exclusive, 0, ⟨[0, 0, 0, 7, 0x41], by decide, by decide⟩⟩] =
      [some 0, some 0, some (-0xfe)] := by
  rw [record_locks_of_plain (by decide +kernel) (by decide +kernel)]
  decide +kernel

end Runs

end MarsNwe
