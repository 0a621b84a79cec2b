import MarsNwe.Share.ShareLock

/-! # Unlocking a listed lock

`share_lock` unlocks only the first listed lock that starts before the end of
the range given. This is the lock asked for as long as the listed ranges are the
same or lie apart.
-/

namespace MarsNwe

/-- The file, start and length of the `F_UNLCK` that an unlock request hands to
`fcntl`. -/
def unlockedRange (locks : List ShareLock) (e : LockCall) : Option (Int × Int × Int) :=
  match e.action with
  | .unlock => ((locksFrom e locks).head?.filter (unlocks e)).map fun sl => (e.fd, e.lStart, sl.len)
  | _ => none

/-- Two entries for the same lock. -/
def ShareLock.Same (a b : ShareLock) : Prop := a.fd = b.fd ∧ a.start = b.start ∧ a.len = b.len

/-- An unlock request names a listed lock by its length or by length 0. -/
def LockCall.Names (e : LockCall) (sl : ShareLock) : Prop :=
  e.fd = sl.fd ∧ e.lStart = sl.start ∧ (e.lLen = sl.len ∨ e.lLen = 0)

/-- Unlock requests take exactly the lock they name out of the list and release
its range. One that names no listed lock is refused. -/
structure UnlocksExactly (locks : List ShareLock) : Prop where
  listed : ∀ sl ∈ locks, ∀ e : LockCall, e.action = .unlock → e.Names sl →
    (∃ before found behind, locks = before ++ found :: behind ∧ found.Same sl ∧
      shareLockCall locks e = (0, before ++ behind)) ∧
    unlockedRange locks e = some (sl.fd, sl.start, sl.len)
  other : ∀ e : LockCall, e.action = .unlock → (∀ sl ∈ locks, ¬e.Names sl) →
    shareLockCall locks e = (-0xff, locks) ∧ unlockedRange locks e = none

/-- Where the search takes a lock to end: length 0 counts for one byte. -/
def ShareLock.stop (sl : ShareLock) : Int := if sl.len = 0 then sl.start + 1 else sl.start + sl.len

/-- One of the ranges ends before the other starts. -/
def ShareLock.Apart (a b : ShareLock) : Prop := a.stop ≤ b.start ∨ b.stop ≤ a.start

/-- A lock request that is granted has no negative length, and its range is that
of a listed lock of the same file or lies apart from it. -/
def AsksApart (locks : List ShareLock) : LocksCall → Prop
  | .shareLock e => e.action = .lock → e.fcntl = true →
      (locksFrom e locks).head?.any (collides e) = false →
      0 ≤ e.lLen ∧ ∀ sl ∈ locks, e.wanted.Same sl ∨ e.wanted.Apart sl
  | .shareUnlockAll _ => True

/-- The listed ranges are the same or descend from the end of the file. -/
structure Ordered (locks : List ShareLock) : Prop where
  len : ∀ sl ∈ locks, 0 ≤ sl.len
  descends : locks.Pairwise fun a b => a.Same b ∨ b.stop ≤ a.start
  asked : ∀ sl ∈ locks, ∃ e : LockCall, e.wanted = sl

theorem ShareLock.start_lt_stop {sl : ShareLock} (h : 0 ≤ sl.len) : sl.start < sl.stop := by
  unfold ShareLock.stop
  split <;> omega

theorem LockCall.stop_eq (e : LockCall) :
    e.wanted.stop = if e.lLen = 0 then e.lStart + 1 else e.lStart + e.lLen := rfl

/-- The search stops at the first lock that starts before the end of the range. -/
theorem findsLock_iff (e : LockCall) (sl : ShareLock) :
    findsLock e sl = true ↔ sl.start < e.wanted.stop := by
  rw [LockCall.stop_eq]
  by_cases hzero : e.lLen = 0
  · rw [if_pos hzero]
    by_cases haction : e.action = .unlock
    · simp only [findsLock, hzero, haction, if_true, beq_self_eq_true, Bool.true_and,
        Bool.or_eq_true, decide_eq_true_eq, beq_iff_eq]
      omega
    · simp only [findsLock, hzero, haction, if_false, beq_self_eq_true, Bool.true_and,
        Bool.or_eq_true, decide_eq_true_eq]
      omega
  · rw [if_neg hzero]
    have hne : (e.lLen == 0) = false := beq_eq_false_iff_ne.mpr hzero
    simp only [findsLock, hne, Bool.false_and, Bool.or_false, decide_eq_true_eq]
    omega

theorem stop_le_of_mem_locksBefore {e : LockCall} {locks : List ShareLock} {sl : ShareLock}
    (hsl : sl ∈ locksBefore e locks) : e.wanted.stop ≤ sl.start := by
  have hnot := List.mem_takeWhile_imp hsl
  rw [Bool.not_eq_true', ← Bool.not_eq_true, findsLock_iff] at hnot
  omega

theorem start_lt_of_locksFrom {e : LockCall} {locks : List ShareLock} {found : ShareLock}
    {behind : List ShareLock} (hfrom : locksFrom e locks = found :: behind) :
    found.start < e.wanted.stop := by
  rw [← findsLock_iff]
  have hhead := List.head?_dropWhile_not (fun sl => !findsLock e sl) locks
  rw [locksFrom] at hfrom
  rw [hfrom] at hhead
  simpa using hhead

/-! ## Ordered lists -/

/-- The search finds the lock named. -/
theorem Ordered.finds {locks : List ShareLock} (h : Ordered locks) {sl : ShareLock}
    (hsl : sl ∈ locks) {e : LockCall} (hnames : e.Names sl) :
    ∃ found behind, locksFrom e locks = found :: behind ∧ found.Same sl := by
  obtain ⟨-, hstart, hlen⟩ := hnames
  have hslen := h.len sl hsl
  have hstop : e.wanted.stop ≤ sl.stop := by
    rw [LockCall.stop_eq, ShareLock.stop]
    rcases hlen with hlen | hlen
    · rw [hlen, hstart]
    · rw [if_pos hlen]
      split <;> omega
  have hfinds : sl.start < e.wanted.stop := by
    rw [LockCall.stop_eq]
    split <;> omega
  have hsplit := locksBefore_append_locksFrom e locks
  have hmem : sl ∈ locksFrom e locks := by
    rw [← hsplit, List.mem_append] at hsl
    refine hsl.resolve_left fun hbefore => ?_
    have hle := stop_le_of_mem_locksBefore hbefore
    omega
  have hpairs := h.descends
  rw [← hsplit, List.pairwise_append] at hpairs
  cases hfrom : locksFrom e locks with
  | nil =>
      rw [hfrom] at hmem
      exact absurd hmem List.not_mem_nil
  | cons found behind =>
      refine ⟨found, behind, rfl, ?_⟩
      have hlt := start_lt_of_locksFrom hfrom
      rw [hfrom] at hmem hpairs
      rcases List.mem_cons.mp hmem with rfl | hbehind
      · exact ⟨rfl, rfl, rfl⟩
      · rcases (List.pairwise_cons.mp hpairs.2.1).1 sl hbehind with hsame | hle
        · exact hsame
        · omega

theorem Ordered.unlocksExactly {locks : List ShareLock} (h : Ordered locks) :
    UnlocksExactly locks := by
  constructor
  · intro sl hsl e haction hnames
    obtain ⟨found, behind, hfrom, hsame⟩ := h.finds hsl hnames
    have hsplit := locksBefore_append_locksFrom e locks
    rw [hfrom] at hsplit
    have hunlocks : unlocks e found = true := by
      obtain ⟨hfd, hstart, hlen⟩ := hnames
      simp only [unlocks, Bool.and_eq_true, Bool.or_eq_true, beq_iff_eq]
      exact ⟨⟨hsame.1.trans hfd.symm, hsame.2.1.trans hstart.symm⟩,
        hlen.imp (fun hlen => hsame.2.2.trans hlen.symm) id⟩
    constructor
    · refine ⟨locksBefore e locks, found, behind, hsplit.symm, hsame, ?_⟩
      simp [shareLockCall, haction, hfrom, hunlocks]
    · simp [unlockedRange, haction, hfrom, hunlocks, hnames.1, hnames.2.1, hsame.2.2]
  · intro e haction hnone
    have hnot : ((locksFrom e locks).head?.any (unlocks e)) = false := by
      cases hfrom : locksFrom e locks with
      | nil => rfl
      | cons found behind =>
          rw [List.head?_cons, Option.any_some, ← Bool.not_eq_true]
          intro hunlocks
          simp only [unlocks, Bool.and_eq_true, Bool.or_eq_true, beq_iff_eq] at hunlocks
          have hmem : found ∈ locks := by
            rw [← locksBefore_append_locksFrom e locks, hfrom]
            exact List.mem_append_right _ List.mem_cons_self
          exact hnone found hmem
            ⟨hunlocks.1.1.symm, hunlocks.1.2.symm, hunlocks.2.imp Eq.symm id⟩
    constructor
    · simp [shareLockCall, haction, hnot]
    · cases hfrom : locksFrom e locks with
      | nil => simp [unlockedRange, haction, hfrom]
      | cons found behind =>
          rw [hfrom, List.head?_cons, Option.any_some] at hnot
          simp [unlockedRange, haction, hfrom, hnot]

theorem Ordered.nil : Ordered [] where
  len _ hsl := absurd hsl List.not_mem_nil
  descends := List.Pairwise.nil
  asked _ hsl := absurd hsl List.not_mem_nil

theorem Ordered.sublist {locks locks' : List ShareLock} (h : Ordered locks)
    (hsub : locks'.Sublist locks) : Ordered locks' where
  len sl hsl := h.len sl (hsub.subset hsl)
  descends := h.descends.sublist hsub
  asked sl hsl := h.asked sl (hsub.subset hsl)

/-- A lock of the range of a listed one, or apart from all of them, is inserted in
order. -/
theorem Ordered.insert {locks : List ShareLock} (h : Ordered locks) {e : LockCall}
    (hlen : 0 ≤ e.lLen) (hapart : ∀ sl ∈ locks, e.wanted.Same sl ∨ e.wanted.Apart sl) :
    Ordered (locksBefore e locks ++ e.wanted :: locksFrom e locks) := by
  have hsplit := locksBefore_append_locksFrom e locks
  have hmem : ∀ sl, sl ∈ locksBefore e locks ++ e.wanted :: locksFrom e locks →
      sl = e.wanted ∨ sl ∈ locks := by
    intro sl hsl
    rw [← hsplit]
    simp only [List.mem_append, List.mem_cons] at hsl ⊢
    tauto
  have hpairs := h.descends
  rw [← hsplit, List.pairwise_append] at hpairs
  obtain ⟨hbefore, hfrom, hcross⟩ := hpairs
  refine ⟨fun sl hsl => ?_, List.pairwise_append.mpr
    ⟨hbefore, List.pairwise_cons.mpr ⟨fun b hb => ?_, hfrom⟩, fun a ha b hb => ?_⟩,
    fun sl hsl => ?_⟩
  · rcases hmem sl hsl with rfl | hsl
    · exact hlen
    · exact h.len sl hsl
  · -- a lock behind the one found starts no later than that one
    have hb' : b ∈ locks := hsplit ▸ List.mem_append_right _ hb
    rcases hapart b hb' with hsame | hend | hend
    · exact .inl hsame
    · exfalso
      cases hcons : locksFrom e locks with
      | nil =>
          rw [hcons] at hb
          exact absurd hb List.not_mem_nil
      | cons found behind =>
          have hlt := start_lt_of_locksFrom hcons
          have hbstop := ShareLock.start_lt_stop (h.len b hb')
          rw [hcons] at hb hfrom
          rcases List.mem_cons.mp hb with rfl | hb
          · omega
          · rcases (List.pairwise_cons.mp hfrom).1 b hb with hsame | hle
            · have hstart := hsame.2.1
              omega
            · omega
    · exact .inr hend
  · rcases List.mem_cons.mp hb with rfl | hb
    · exact .inr (stop_le_of_mem_locksBefore ha)
    · exact hcross a ha b hb
  · rcases hmem sl hsl with rfl | hsl
    · exact ⟨e, rfl⟩
    · exact h.asked sl hsl

theorem Ordered.step {locks : List ShareLock} (h : Ordered locks) {call : LocksCall}
    (hasks : AsksApart locks call) : Ordered (shareLockMachine.step locks call).2 := by
  rcases shareLockMachine_step locks call with
    ⟨e, rfl, haction, hfcntl, hpassed, hnext⟩ | ⟨-, hsub⟩
  · obtain ⟨hlen, hapart⟩ := hasks haction hfcntl hpassed
    rw [hnext]
    exact h.insert hlen hapart
  · exact h.sublist hsub

/-! ## Lists that a lock request spoils -/

/-- Where unlocking is exact, a request for a listed lock finds an entry for it. -/
theorem UnlocksExactly.finds {locks : List ShareLock} (h : UnlocksExactly locks) {sl : ShareLock}
    (hsl : sl ∈ locks) {e : LockCall} (haction : e.action = .unlock) (hnames : e.Names sl) :
    ∃ found, (locksFrom e locks).head? = some found ∧ found.Same sl := by
  have hrange := (h.listed sl hsl e haction hnames).2
  simp only [unlockedRange, haction, Option.map_eq_some_iff, Option.filter_eq_some_iff,
    Prod.mk.injEq] at hrange
  obtain ⟨found, ⟨hhead, hunlocks⟩, hfd, hstart, hlen⟩ := hrange
  simp only [unlocks, Bool.and_eq_true, beq_iff_eq] at hunlocks
  exact ⟨found, hhead, hunlocks.1.1.trans hfd, hunlocks.1.2.trans hstart, hlen⟩

theorem start_lt_of_head? {e : LockCall} {locks : List ShareLock} {found : ShareLock}
    (hhead : (locksFrom e locks).head? = some found) : found.start < e.wanted.stop := by
  obtain ⟨behind, hfrom⟩ := List.head?_eq_some_iff.mp hhead
  exact start_lt_of_locksFrom hfrom

/-- The search goes no further than a lock it stops at. -/
theorem head?_locksFrom_append {e : LockCall} {before rest : List ShareLock} {new found : ShareLock}
    (hstop : new.start < e.wanted.stop)
    (hhead : (locksFrom e (before ++ new :: rest)).head? = some found) :
    found ∈ before ∨ found = new := by
  rw [locksFrom, ← List.find?_eq_head?_dropWhile_not, List.find?_append,
    List.find?_cons_of_pos ((findsLock_iff e new).mpr hstop)] at hhead
  cases hbefore : before.find? (findsLock e) with
  | none =>
      rw [hbefore] at hhead
      exact .inr (Option.some.inj hhead).symm
  | some sl =>
      rw [hbefore] at hhead
      obtain rfl := Option.some.inj hhead
      exact .inl (List.mem_of_find?_eq_some hbefore)

/-- The unlock request for the range of a request. -/
def LockCall.toUnlock (e : LockCall) : LockCall := { e with action := .unlock }

theorem LockCall.wanted_toUnlock (e : LockCall) : e.toUnlock.wanted = e.wanted := rfl

/-- When a granted request leaves a list in which unlocking is exact, it asked
for a range apart. -/
theorem asksApart_of_unlocksExactly {locks : List ShareLock} (h : Ordered locks) {e : LockCall}
    (hexact : UnlocksExactly (locksBefore e locks ++ e.wanted :: locksFrom e locks)) :
    0 ≤ e.lLen ∧ ∀ sl ∈ locks, e.wanted.Same sl ∨ e.wanted.Apart sl := by
  constructor
  · have hmem : e.wanted ∈ locksBefore e locks ++ e.wanted :: locksFrom e locks :=
      List.mem_append_right _ List.mem_cons_self
    obtain ⟨found, hhead, hsame⟩ := hexact.finds hmem (e := e.toUnlock) rfl ⟨rfl, rfl, .inl rfl⟩
    have hlt := start_lt_of_head? hhead
    rw [LockCall.wanted_toUnlock] at hlt
    have hstart : found.start = e.lStart := hsame.2.1
    rw [LockCall.stop_eq] at hlt
    split at hlt <;> omega
  · intro sl hsl
    by_cases hend : sl.stop ≤ e.wanted.start
    · exact .inr (.inr hend)
    · obtain ⟨e', rfl⟩ := h.asked sl hsl
      have hmem : e'.wanted ∈ locksBefore e locks ++ e.wanted :: locksFrom e locks := by
        rw [← locksBefore_append_locksFrom e locks] at hsl
        simp only [List.mem_append, List.mem_cons] at hsl ⊢
        tauto
      obtain ⟨found, hhead, hsame⟩ := hexact.finds hmem (e := e'.toUnlock) rfl
        ⟨rfl, rfl, .inl rfl⟩
      have hstop : e.wanted.start < e'.toUnlock.wanted.stop := not_le.mp hend
      rcases head?_locksFrom_append hstop hhead with hbefore | rfl
      · have hle := stop_le_of_mem_locksBefore hbefore
        rw [hsame.2.1] at hle
        exact .inr (.inl hle)
      · exact .inl hsame

theorem AsksApart.of_unlocksExactly {locks : List ShareLock} (h : Ordered locks)
    {call : LocksCall} (hexact : UnlocksExactly (shareLockMachine.step locks call).2) :
    AsksApart locks call := by
  cases call with
  | shareUnlockAll fd => trivial
  | shareLock e =>
      intro haction hfcntl hpassed
      apply asksApart_of_unlocksExactly h
      have hnext : (shareLockMachine.step locks (.shareLock e)).2 =
          locksBefore e locks ++ e.wanted :: locksFrom e locks := by
        simp [shareLockMachine, shareLockCall, haction, hfcntl, hpassed]
      rwa [hnext] at hexact

/-- Unlocking is exact in every state of a run exactly when every lock request
granted in it asks for a range apart from those listed, or for one of them. -/
theorem unlocksExactly_iff (calls : List LocksCall) :
    (∀ before, before <+: calls → UnlocksExactly (shareLockMachine.exec [] before)) ↔
      shareLockMachine.Along AsksApart [] calls :=
  shareLockMachine.forall_prefix_iff_along_of_invariant (fun _ h => h.unlocksExactly)
    (fun _ _ h hasks => h.step hasks)
    (fun _ _ h hnot hexact => hnot (.of_unlocksExactly h hexact)) .nil calls

/-- A shared lock inside a longer shared one hides it from its unlock request. -/
theorem unlock_misses_listed : ¬∀ calls : List LocksCall,
    UnlocksExactly (shareLockMachine.exec [] calls) := by
  intro hall
  have hrun := hall [.shareLock ⟨3, .lock, 3, 0, 100, 0, true, true⟩,
    .shareLock ⟨3, .lock, 3, 10, 5, 0, true, true⟩]
  have hlist : UnlocksExactly [⟨10, 5, 3, false⟩, ⟨0, 100, 3, false⟩] := hrun
  have hrange := (hlist.listed ⟨0, 100, 3, false⟩ (by decide) ⟨3, .unlock, 0, 0, 100, 0, true, true⟩
    rfl ⟨rfl, by decide, .inl (by decide)⟩).2
  revert hrange
  decide

end MarsNwe
