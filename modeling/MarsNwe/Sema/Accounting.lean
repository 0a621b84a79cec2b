import MarsNwe.Lib.SlotTable
import MarsNwe.Sema.Semaphores

/-! # Accounting of semaphores

The table of the server counts how often each semaphore is open, and so do the
tables of the connections together. An open that finds the connection's table
full leaves the first count raised, and the two never agree again.
-/

namespace MarsNwe

/-! ## The table of the server -/

theorem semaAt_of_nonpos {semas : SemaTable} {handle : Int} (h : ¬0 < handle) :
    semaAt semas handle = none := if_neg h

theorem semaAt_pos {semas : SemaTable} {handle : Int} (h : 0 < handle) :
    semaAt semas handle = semas[(handle - 1).toNat]?.join := if_pos h

theorem semaAt_some {semas : SemaTable} {handle : Int} {se : Sema}
    (h : semaAt semas handle = some se) :
    0 < handle ∧ semas[(handle - 1).toNat]? = some (some se) := by
  by_cases hpos : 0 < handle
  · rw [semaAt_pos hpos, Option.join_eq_some_iff] at h
    exact ⟨hpos, h⟩
  · rw [semaAt_of_nonpos hpos] at h
    contradiction

theorem semaAt_setSema {semas : SemaTable} {handle : Int} (hpos : 0 < handle)
    (hlt : (handle - 1).toNat < semas.length) (se : Option Sema) (handle' : Int) :
    semaAt (setSema semas handle se) handle' =
      if handle' = handle then se else semaAt semas handle' := by
  by_cases hpos' : 0 < handle'
  · rw [semaAt_pos hpos', semaAt_pos hpos', setSema]
    split
    next heq =>
      rw [heq, List.getElem?_set_self hlt]
      rfl
    next hne => rw [List.getElem?_set_ne (by omega)]
  · rw [semaAt_of_nonpos hpos', semaAt_of_nonpos hpos', if_neg (by omega)]

/-- Writing the semaphore of a handle that is in use. -/
theorem semaAt_setSema_of_some {semas : SemaTable} {handle : Int} {se : Sema}
    (h : semaAt semas handle = some se) (se' : Option Sema) (handle' : Int) :
    semaAt (setSema semas handle se') handle' =
      if handle' = handle then se' else semaAt semas handle' := by
  obtain ⟨hpos, hget⟩ := semaAt_some h
  exact semaAt_setSema hpos (List.getElem?_eq_some_iff.mp hget).1 se' handle'

theorem semaAt_append (semas : SemaTable) (new : Option Sema) (handle' : Int) :
    semaAt (semas ++ [new]) handle' =
      if handle' = semas.length + 1 then new else semaAt semas handle' := by
  by_cases hpos' : 0 < handle'
  · rw [semaAt_pos hpos', semaAt_pos hpos', List.getElem?_append]
    split
    next hlt => rw [if_neg (by omega)]
    next hge =>
      by_cases heq : handle' = semas.length + 1
      · have hzero : (handle' - 1).toNat - semas.length = 0 := by omega
        rw [hzero, if_pos heq]
        rfl
      · have hbeyond : semas[(handle' - 1).toNat]? = none := List.getElem?_eq_none (by omega)
        rw [if_neg heq, hbeyond, List.getElem?_eq_none (by simp; omega)]
  · rw [semaAt_of_nonpos hpos', semaAt_of_nonpos hpos', if_neg (by omega)]

theorem semaAt_trimSemas (semas : SemaTable) (handle handle' : Int) :
    semaAt (trimSemas semas handle) handle' = semaAt semas handle' := by
  unfold trimSemas
  split
  · by_cases hpos' : 0 < handle'
    · rw [semaAt_pos hpos', semaAt_pos hpos', SlotTable.join_getElem?_rdropWhile]
    · rw [semaAt_of_nonpos hpos', semaAt_of_nonpos hpos']
  · rfl

/-- The semaphores are those of `semas`, but for the one with a handle. -/
def Rewrites (semas : SemaTable) (handle : Int) (new : Option Sema) (semas' : SemaTable) : Prop :=
  ∀ handle', semaAt semas' handle' = if handle' = handle then new else semaAt semas handle'

/-- What `close_sema` leaves of the semaphores. -/
theorem rewrites_closeSema {semas : SemaTable} {handle : Int} {se : Sema}
    (h : semaAt semas handle = some se) :
    Rewrites semas handle
      (if se.opencount = 1 then none else some { se with opencount := se.opencount - 1 })
      (closeSema semas handle).2 := by
  intro handle'
  unfold closeSema
  rw [h]
  dsimp only
  by_cases hlast : se.opencount = 1
  · have hzero : se.opencount - 1 = 0 := by omega
    rw [if_pos hzero, if_pos hlast, semaAt_trimSemas, semaAt_setSema_of_some h]
  · have hmore : ¬se.opencount - 1 = 0 := by omega
    rw [if_neg hmore, if_neg hlast, semaAt_setSema_of_some h]

theorem closeSema_of_none {semas : SemaTable} {handle : Int} (h : semaAt semas handle = none) :
    closeSema semas handle = (-0xff, semas) := by
  unfold closeSema
  rw [h]

theorem findSema_eq_some {semas : SemaTable} {name : List UInt8} {k : Nat}
    (h : findSema semas name = some k) :
    ∃ se, semaAt semas (k + 1) = some se ∧ se.name = name := by
  obtain ⟨hlt, hentry, -⟩ := List.findIdx?_eq_some_iff_getElem.mp h
  have hindex : ((k : Int) + 1 - 1).toNat = k := by omega
  have hat : semaAt semas (k + 1) = semas[k] := by
    rw [semaAt_pos (by omega), hindex, List.getElem?_eq_getElem hlt]
    rfl
  cases hse : semas[k] with
  | none => simp [hse] at hentry
  | some se => exact ⟨se, hat.trans hse, by simpa [hse] using hentry⟩

/-- Every entry of the table is in use, under names other than this one. -/
def TableFull (semas : SemaTable) (name : List UInt8) : Prop :=
  maxSemaphores ≤ semas.length ∧ ∀ entry ∈ semas, ∃ se, entry = some se ∧ se.name ≠ name

theorem findSema_eq_none {semas : SemaTable} {name : List UInt8} (h : findSema semas name = none)
    {handle : Int} {se : Sema} (hse : semaAt semas handle = some se) : se.name ≠ name := by
  have hentry := List.findIdx?_eq_none_iff.mp h (some se)
    (List.mem_of_getElem? (semaAt_some hse).2)
  simpa using hentry

/-- What `open_sema` does: count a semaphore up, create one, or fail. -/
theorem openSema_cases (semas : SemaTable) (name : List UInt8) (value : Int) :
    (∃ handle se, semaAt semas handle = some se ∧ se.name = name ∧
      (openSema semas name value).1 = .ok (handle, se.opencount + 1) ∧
      Rewrites semas handle (some { se with opencount := se.opencount + 1 })
        (openSema semas name value).2) ∨
    (∃ handle, 0 < handle ∧ semaAt semas handle = none ∧ ¬TableFull semas name ∧
      (∀ handle' se', semaAt semas handle' = some se' → se'.name ≠ name) ∧
      (openSema semas name value).1 = .ok (handle, 1) ∧
      Rewrites semas handle (some ⟨name, 1, value⟩) (openSema semas name value).2) ∨
    TableFull semas name ∧ openSema semas name value = (.error (-0x96), semas) := by
  unfold openSema
  cases hfind : findSema semas name with
  | some k =>
      obtain ⟨se, hse, hname⟩ := findSema_eq_some hfind
      simp only [hse]
      exact .inl ⟨k + 1, se, hse, hname, rfl, semaAt_setSema_of_some hse _⟩
  | none =>
      have hnew : ∀ handle' se', semaAt semas handle' = some se' → se'.name ≠ name :=
        fun handle' se' => findSema_eq_none hfind
      apply Or.inr
      dsimp only
      cases hfree : semas.findIdx? Option.isNone with
      | some isfree =>
          obtain ⟨hlt, hentry, -⟩ := List.findIdx?_eq_some_iff_getElem.mp hfree
          have hindex : ((isfree : Int) + 1 - 1).toNat = isfree := by omega
          have hnone : semas[isfree] = none := Option.isNone_iff_eq_none.mp hentry
          have hroom : ¬TableFull semas name := by
            intro ⟨_, hused⟩
            obtain ⟨se, hse, -⟩ := hused none (hnone ▸ List.getElem_mem hlt)
            contradiction
          refine .inl ⟨isfree + 1, by omega, ?_, hroom, hnew, rfl,
            semaAt_setSema (by omega) (by rw [hindex]; exact hlt) _⟩
          rw [semaAt_pos (by omega), hindex, List.getElem?_eq_getElem hlt, hnone]
          rfl
      | none =>
          dsimp only
          split
          next hroom =>
            refine .inl ⟨semas.length + 1, by omega, ?_, fun hfull => ?_, hnew, rfl,
              semaAt_append _ _⟩
            · rw [semaAt_pos (by omega), List.getElem?_eq_none (by omega)]
              rfl
            · exact absurd hfull.1 (Nat.not_le.mpr hroom)
          next hroom =>
            refine .inr ⟨⟨Nat.not_lt.mp hroom, fun entry hentry => ?_⟩, rfl⟩
            have hused := List.findIdx?_eq_none_iff.mp hfree entry hentry
            have hother := List.findIdx?_eq_none_iff.mp hfind entry hentry
            cases entry with
            | none => simp at hused
            | some se => exact ⟨se, rfl, by simpa using hother⟩

/-- How often a semaphore is open, by the table of the server. -/
def opencountAt (semas : SemaTable) (handle : Int) : Int :=
  ((semaAt semas handle).map Sema.opencount).getD 0

theorem opencountAt_of_some {semas : SemaTable} {handle : Int} {se : Sema}
    (h : semaAt semas handle = some se) : opencountAt semas handle = se.opencount := by
  unfold opencountAt
  rw [h]
  rfl

theorem opencountAt_of_none {semas : SemaTable} {handle : Int} (h : semaAt semas handle = none) :
    opencountAt semas handle = 0 := by
  unfold opencountAt
  rw [h]
  rfl

theorem Rewrites.opencountAt {semas semas' : SemaTable} {handle : Int} {new : Option Sema}
    (h : Rewrites semas handle new semas') (handle' : Int) :
    opencountAt semas' handle' =
      if handle' = handle then (new.map Sema.opencount).getD 0
      else MarsNwe.opencountAt semas handle' := by
  unfold MarsNwe.opencountAt
  rw [h handle']
  split <;> rfl

/-- Every semaphore is open, and no two of them have one name. -/
structure SemasSound (semas : SemaTable) : Prop where
  opened : ∀ handle se, semaAt semas handle = some se → 0 < se.opencount
  distinct : ∀ handle handle' se se', semaAt semas handle = some se →
    semaAt semas handle' = some se' → se.name = se'.name → handle = handle'

theorem SemasSound.opencountAt_pos_iff {semas : SemaTable} (hs : SemasSound semas)
    (handle : Int) : 0 < opencountAt semas handle ↔ (semaAt semas handle).isSome := by
  cases hse : semaAt semas handle with
  | none => simp [opencountAt_of_none hse]
  | some se => simp [opencountAt_of_some hse, hs.opened handle se hse]

/-- A semaphore may be written whose name no other one has. -/
theorem SemasSound.of_rewrites {semas semas' : SemaTable} {handle : Int} {new : Option Sema}
    (hs : SemasSound semas) (hwrite : Rewrites semas handle new semas')
    (hopened : ∀ se, new = some se → 0 < se.opencount)
    (hname : ∀ se handle' se', new = some se → handle' ≠ handle →
      semaAt semas handle' = some se' → se'.name ≠ se.name) : SemasSound semas' where
  opened handle' se hse := by
    rw [hwrite] at hse
    split at hse
    · exact hopened se hse
    · exact hs.opened handle' se hse
  distinct handle₁ handle₂ se₁ se₂ h₁ h₂ heq := by
    rw [hwrite] at h₁ h₂
    split at h₁ <;> split at h₂
    next heq₁ heq₂ => rw [heq₁, heq₂]
    next heq₁ hne₂ => exact absurd heq.symm (hname se₁ handle₂ se₂ h₁ hne₂ h₂)
    next hne₁ heq₂ => exact absurd heq (hname se₂ handle₁ se₁ h₂ hne₁ h₁)
    next => exact hs.distinct handle₁ handle₂ se₁ se₂ h₁ h₂ heq

/-- A semaphore may be written over under its own name. -/
theorem SemasSound.of_rewrites_same {semas semas' : SemaTable} {handle : Int} {se : Sema}
    {new : Option Sema} (hs : SemasSound semas) (hse : semaAt semas handle = some se)
    (hwrite : Rewrites semas handle new semas')
    (hnew : ∀ se', new = some se' → 0 < se'.opencount ∧ se'.name = se.name) :
    SemasSound semas' := by
  apply hs.of_rewrites hwrite (fun se' hse' => (hnew se' hse').1)
  intro se' handle' other hse' hne hother hname
  exact hne (hs.distinct handle' handle other se hother hse (hname.trans (hnew se' hse').2))

/-- `close_sema` counts a semaphore down. -/
theorem closeSema_spec {semas : SemaTable} (hs : SemasSound semas) {handle : Int}
    (hopen : 0 < opencountAt semas handle) :
    (closeSema semas handle).1 = 0 ∧ SemasSound (closeSema semas handle).2 ∧
      ∀ handle', opencountAt (closeSema semas handle).2 handle' =
        opencountAt semas handle' - if handle' = handle then 1 else 0 := by
  obtain ⟨se, hse⟩ := Option.isSome_iff_exists.mp ((hs.opencountAt_pos_iff handle).mp hopen)
  have hwrite := rewrites_closeSema hse
  have hpos := hs.opened handle se hse
  refine ⟨?_, hs.of_rewrites_same hse hwrite fun se' hse' => ?_, fun handle' => ?_⟩
  · unfold closeSema
    rw [hse]
    dsimp only
    split <;> rfl
  · split at hse'
    · contradiction
    · obtain rfl := Option.some.inj hse'
      exact ⟨by simp only; omega, rfl⟩
  · rw [hwrite.opencountAt]
    split
    next heq =>
      rw [heq, opencountAt_of_some hse]
      split
      next hlast => simp [hlast]
      next => rfl
    next => exact (sub_zero _).symm

/-- What `wait_sema` and `signal_sema` leave: the value of a semaphore may be another one. -/
theorem SemasSound.setValue {semas : SemaTable} (hs : SemasSound semas) {handle : Int} {se : Sema}
    (hse : semaAt semas handle = some se) (value : Int) :
    SemasSound (setSema semas handle (some { se with value := value })) ∧
      ∀ handle', opencountAt (setSema semas handle (some { se with value := value })) handle' =
        opencountAt semas handle' := by
  have hwrite : Rewrites semas handle (some { se with value := value }) _ :=
    semaAt_setSema_of_some hse _
  refine ⟨hs.of_rewrites_same hse hwrite fun se' hse' => ?_, fun handle' => ?_⟩
  · obtain rfl := Option.some.inj hse'
    exact ⟨hs.opened handle se hse, rfl⟩
  · rw [hwrite.opencountAt]
    split
    next heq =>
      rw [heq, opencountAt_of_some hse]
      rfl
    next => rfl

theorem waitSema_spec {semas : SemaTable} (hs : SemasSound semas) (handle : Int) :
    SemasSound (waitSema semas handle).2 ∧
      ∀ handle', opencountAt (waitSema semas handle).2 handle' = opencountAt semas handle' := by
  unfold waitSema
  split
  next => exact ⟨hs, fun _ => rfl⟩
  next se hse =>
    split
    · exact ⟨hs, fun _ => rfl⟩
    · exact hs.setValue hse _

theorem signalSema_spec {semas : SemaTable} (hs : SemasSound semas) (handle : Int) :
    SemasSound (signalSema semas handle).2 ∧
      ∀ handle', opencountAt (signalSema semas handle).2 handle' = opencountAt semas handle' := by
  unfold signalSema
  split
  next => exact ⟨hs, fun _ => rfl⟩
  next se hse => exact hs.setValue hse _

/-- `open_sema` counts the semaphore of a name up, from nothing if there is none. -/
theorem openSema_spec {semas : SemaTable} (hs : SemasSound semas) (name : List UInt8)
    (value : Int) :
    (∃ handle, 0 < handle ∧ ¬TableFull semas name ∧
      (openSema semas name value).1 = .ok (handle, opencountAt semas handle + 1) ∧
      SemasSound (openSema semas name value).2 ∧
      (∀ handle', opencountAt (openSema semas name value).2 handle' =
        opencountAt semas handle' + if handle' = handle then 1 else 0) ∧
      ∀ handle' se, semaAt semas handle' = some se → (se.name = name ↔ handle' = handle)) ∨
    TableFull semas name ∧ openSema semas name value = (.error (-0x96), semas) := by
  rcases openSema_cases semas name value with
    ⟨handle, se, hse, hname, hok, hwrite⟩ | ⟨handle, hpos, hnone, hroom, hnew, hok, hwrite⟩ | hfull
  · have hlive := hs.opened handle se hse
    refine .inl ⟨handle, (semaAt_some hse).1, fun hfull => ?_, ?_, ?_, fun handle' => ?_,
      fun handle' se' hse' => ⟨fun hname' => ?_, fun heq => ?_⟩⟩
    · obtain ⟨se', hse', hother⟩ := hfull.2 (some se) (List.mem_of_getElem? (semaAt_some hse).2)
      exact hother (Option.some.inj hse' ▸ hname)
    · rw [hok, opencountAt_of_some hse]
    · apply hs.of_rewrites_same hse hwrite
      intro se' hse'
      obtain rfl := Option.some.inj hse'
      exact ⟨by simp only; omega, rfl⟩
    · rw [hwrite.opencountAt]
      split
      next heq =>
        rw [heq, opencountAt_of_some hse]
        rfl
      next => exact (add_zero _).symm
    · exact hs.distinct handle' handle se' se hse' hse (hname'.trans hname.symm)
    · rw [heq, hse] at hse'
      exact Option.some.inj hse' ▸ hname
  · refine .inl ⟨handle, hpos, hroom, ?_, ?_, fun handle' => ?_,
      fun handle' se' hse' => ⟨fun hname' => absurd hname' (hnew handle' se' hse'), fun heq => ?_⟩⟩
    · rw [hok, opencountAt_of_none hnone]
      rfl
    · apply hs.of_rewrites hwrite
      · intro se hse
        obtain rfl := Option.some.inj hse
        exact Int.one_pos
      · intro se handle' se' hse _ hse'
        obtain rfl := Option.some.inj hse
        exact hnew handle' se' hse'
    · rw [hwrite.opencountAt]
      split
      next heq =>
        rw [heq, opencountAt_of_none hnone]
        rfl
      next => exact (add_zero _).symm
    · rw [heq, hnone] at hse'
      contradiction
  · exact .inr hfull

/-! ## The tables of the connections -/

/-- How often a connection holds a semaphore. -/
def heldBy (c : List SemaConn) (handle : Int) : Int :=
  (c.map fun sem => if sem.handle = handle then sem.opencount else 0).sum

/-- How often all connections together hold a semaphore. -/
def heldByAll (conns : List (List SemaConn)) (handle : Int) : Int :=
  (conns.map fun c => heldBy c handle).sum

/-- An entry is free or counts how often a semaphore is open. -/
def SemaConn.Sound (sem : SemaConn) : Prop :=
  sem.handle = 0 ∧ sem.opencount ≤ 0 ∨ 0 < sem.handle ∧ 0 < sem.opencount

theorem SemaConn.Sound.count_nonneg {sem : SemaConn} (h : sem.Sound) {handle : Int}
    (hpos : 0 < handle) : 0 ≤ if sem.handle = handle then sem.opencount else 0 := by
  unfold SemaConn.Sound at h
  split <;> omega

theorem heldBy_nonneg {c : List SemaConn} (hc : ∀ sem ∈ c, sem.Sound) {handle : Int}
    (hpos : 0 < handle) : 0 ≤ heldBy c handle :=
  List.sum_nonneg fun n hn => by
    obtain ⟨sem, hsem, rfl⟩ := List.mem_map.mp hn
    exact (hc sem hsem).count_nonneg hpos

/-- A connection holds a semaphore when one of its entries counts it. -/
theorem heldBy_pos_iff {c : List SemaConn} (hc : ∀ sem ∈ c, sem.Sound) {handle : Int}
    (hpos : 0 < handle) : 0 < heldBy c handle ↔ ∃ sem ∈ c, sem.handle = handle := by
  unfold heldBy
  rw [SlotTable.sum_pos_iff fun sem hsem => (hc sem hsem).count_nonneg hpos]
  constructor
  · intro ⟨sem, hsem, hcount⟩
    split at hcount
    next heq => exact ⟨sem, hsem, heq⟩
    next => omega
  · intro ⟨sem, hsem, heq⟩
    have hsound := hc sem hsem
    unfold SemaConn.Sound at hsound
    exact ⟨sem, hsem, by rw [if_pos heq]; omega⟩

theorem findSemaConn_eq_some {c : List SemaConn} {handle : Int} {k : Nat}
    (h : findSemaConn c handle = some k) : ∃ sem, (c)[k]? = some sem ∧ sem.handle = handle := by
  unfold findSemaConn at h
  obtain ⟨i, hi, rfl⟩ := Option.map_eq_some_iff.mp h
  obtain ⟨hlt, hhandle, -⟩ := List.findIdx?_eq_some_iff_getElem.mp hi
  rw [List.getElem_reverse] at hhandle
  exact ⟨_, List.getElem?_eq_getElem _, by simpa using hhandle⟩

theorem findSemaConn_eq_none {c : List SemaConn} {handle : Int}
    (h : findSemaConn c handle = none) : ∀ sem ∈ c, sem.handle ≠ handle := by
  intro sem hsem
  unfold findSemaConn at h
  have hother := List.findIdx?_eq_none_iff.mp (Option.map_eq_none_iff.mp h) sem
    (List.mem_reverse.mpr hsem)
  simpa using hother

/-- A connection without an entry for a semaphore, and without room for one. -/
def NoRoom (c : List SemaConn) (handle : Int) : Prop :=
  maxSemaConn ≤ c.length ∧ ∀ sem ∈ c, sem.handle ≠ 0 ∧ sem.handle ≠ handle

/-- Writing an entry changes what a connection holds by what the entries count. -/
theorem heldBy_set {c : List SemaConn} {k : Nat} {sem : SemaConn} (h : (c)[k]? = some sem)
    (sem' : SemaConn) (handle : Int) :
    heldBy (c.set k sem') handle = heldBy c handle -
      (if sem.handle = handle then sem.opencount else 0) +
      if sem'.handle = handle then sem'.opencount else 0 :=
  SlotTable.sum_set h _ sem'

theorem sound_set {c : List SemaConn} (hc : ∀ sem ∈ c, sem.Sound) {sem' : SemaConn}
    (hsem' : sem'.Sound) (k : Nat) : ∀ sem ∈ c.set k sem', sem.Sound := by
  intro sem hsem
  rcases List.mem_or_eq_of_mem_set hsem with hold | rfl
  · exact hc sem hold
  · exact hsem'

/-- `open_conn_sema` counts an entry up, takes one, or fails. -/
theorem openConnSema_spec {c : List SemaConn} (hc : ∀ sem ∈ c, sem.Sound) {handle : Int}
    (hpos : 0 < handle) :
    (¬NoRoom c handle ∧ (openConnSema c handle).1 = handle ∧
      (∀ sem ∈ (openConnSema c handle).2, sem.Sound) ∧
      ∀ handle', 0 < handle' → heldBy (openConnSema c handle).2 handle' =
        heldBy c handle' + if handle' = handle then 1 else 0) ∨
    NoRoom c handle ∧ openConnSema c handle = (-0x96, c) := by
  have hnew : SemaConn.Sound ⟨handle, 1⟩ := .inr ⟨hpos, Int.one_pos⟩
  unfold openConnSema
  cases hfind : findSemaConn c handle with
  | some k =>
      obtain ⟨sem, hget, hhandle⟩ := findSemaConn_eq_some hfind
      have hmem := List.mem_of_getElem? hget
      have hsound := hc sem hmem
      have hup : SemaConn.Sound { sem with opencount := sem.opencount + 1 } := by
        unfold SemaConn.Sound at hsound ⊢
        dsimp only
        omega
      dsimp only
      rw [SlotTable.modify_eq_set hget]
      refine .inl ⟨fun hfull => (hfull.2 sem hmem).2 hhandle, rfl, sound_set hc hup k,
        fun handle' _ => ?_⟩
      rw [heldBy_set hget]
      dsimp only
      split <;> split <;> omega
  | none =>
      have hother := findSemaConn_eq_none hfind
      dsimp only
      cases hfree : c.findIdx? fun sem => sem.handle == 0 with
      | some isFree =>
          obtain ⟨hlt, hzero, -⟩ := List.findIdx?_eq_some_iff_getElem.mp hfree
          refine .inl ⟨fun hfull => ?_, rfl, sound_set hc hnew isFree, fun handle' hpos' => ?_⟩
          · exact (hfull.2 _ (List.getElem_mem hlt)).1 (by simpa using hzero)
          · rw [heldBy_set (List.getElem?_eq_getElem hlt)]
            have hzero : (c)[isFree].handle = 0 := by simpa using hzero
            dsimp only
            split <;> split <;> split <;> omega
      | none =>
          have hused := List.findIdx?_eq_none_iff.mp hfree
          dsimp only
          split
          next hroom =>
            refine .inl ⟨fun hfull => absurd hfull.1 (Nat.not_le.mpr hroom), rfl,
              fun sem hsem => ?_, fun handle' _ => ?_⟩
            · rcases List.mem_append.mp hsem with hold | hlast
              · exact hc sem hold
              · rw [List.mem_singleton.mp hlast]
                exact hnew
            · unfold heldBy
              rw [List.map_append, List.sum_append, List.map_singleton, List.sum_singleton]
              simp only [eq_comm]
          next hroom =>
            refine .inr ⟨⟨Nat.not_lt.mp hroom, fun sem hsem => ⟨?_, hother sem hsem⟩⟩, rfl⟩
            simpa using hused sem hsem

theorem mem_trimSemaConn {c : List SemaConn} {k : Nat} {sem : SemaConn}
    (h : sem ∈ trimSemaConn c k) : sem ∈ c := by
  unfold trimSemaConn at h
  split at h
  · exact SlotTable.mem_of_mem_rdropWhile h
  · exact h

theorem heldBy_trimSemaConn (c : List SemaConn) (k : Nat) {handle : Int} (hpos : 0 < handle) :
    heldBy (trimSemaConn c k) handle = heldBy c handle := by
  unfold trimSemaConn
  split
  · apply SlotTable.sum_rdropWhile
    intro sem hfree
    have hzero : sem.handle = 0 := by simpa using hfree
    exact if_neg (by omega)
  · rfl

/-- `close_conn_sema` counts an entry down when there is one. With the handle 0 it
finds a free entry, which counts nothing before and after. -/
theorem closeConnSema_spec {c : List SemaConn} (hc : ∀ sem ∈ c, sem.Sound) (handle : Int) :
    (∀ sem ∈ (closeConnSema c handle).2, sem.Sound) ∧
      ((closeConnSema c handle).1 = 0 ∧
          (handle = 0 ∨ 0 < handle ∧ 0 < heldBy c handle) ∧
          (∀ handle', 0 < handle' → heldBy (closeConnSema c handle).2 handle' =
            heldBy c handle' - if handle' = handle then 1 else 0) ∨
        (closeConnSema c handle).1 ≠ 0 ∧ (closeConnSema c handle).2 = c) := by
  unfold closeConnSema
  cases hfind : findSemaConn c handle with
  | none => exact ⟨hc, .inr ⟨by simp only; omega, rfl⟩⟩
  | some k =>
      obtain ⟨sem, hget, hhandle⟩ := findSemaConn_eq_some hfind
      have hmem := List.mem_of_getElem? hget
      have hsound := hc sem hmem
      have hheld : handle = 0 ∨ 0 < handle ∧ 0 < heldBy c handle := by
        rcases hsound with hfree | hused
        · exact .inl (hhandle ▸ hfree.1)
        · have hpos := hhandle ▸ hused.1
          exact .inr ⟨hpos, (heldBy_pos_iff hc hpos).mpr ⟨sem, hmem, hhandle⟩⟩
      unfold SemaConn.Sound at hsound
      simp only [hget]
      split
      next hlast =>
        have hclear : SemaConn.Sound ⟨0, 0⟩ := .inl ⟨rfl, le_refl _⟩
        refine ⟨fun sem' hsem' => sound_set hc hclear k sem' (mem_trimSemaConn hsem'),
          .inl ⟨rfl, hheld, fun handle' hpos' => ?_⟩⟩
        rw [heldBy_trimSemaConn _ _ hpos', heldBy_set hget]
        dsimp only
        split <;> split <;> split <;> omega
      next hmore =>
        have hdown : SemaConn.Sound { sem with opencount := sem.opencount - 1 } := by
          unfold SemaConn.Sound
          dsimp only
          omega
        refine ⟨sound_set hc hdown k, .inl ⟨rfl, hheld, fun handle' hpos' => ?_⟩⟩
        rw [heldBy_set hget]
        dsimp only
        split <;> split <;> omega

theorem heldBy_le_heldByAll {conns : List (List SemaConn)}
    (hconns : ∀ c ∈ conns, ∀ sem ∈ c, sem.Sound) {c : List SemaConn} (hc : c ∈ conns)
    {handle : Int} (hpos : 0 < handle) : heldBy c handle ≤ heldByAll conns handle := by
  apply List.single_le_sum
  · intro n hn
    obtain ⟨c', hc', rfl⟩ := List.mem_map.mp hn
    exact heldBy_nonneg (hconns c' hc') hpos
  · exact List.mem_map_of_mem hc

/-- The connections hold a semaphore when an entry of one of them counts it. -/
theorem heldByAll_pos_iff {conns : List (List SemaConn)}
    (hconns : ∀ c ∈ conns, ∀ sem ∈ c, sem.Sound) {handle : Int} (hpos : 0 < handle) :
    0 < heldByAll conns handle ↔ ∃ c ∈ conns, ∃ sem ∈ c, sem.handle = handle := by
  unfold heldByAll
  rw [SlotTable.sum_pos_iff fun c hc => heldBy_nonneg (hconns c hc) hpos]
  constructor
  · intro ⟨c, hc, hheld⟩
    exact ⟨c, hc, (heldBy_pos_iff (hconns c hc) hpos).mp hheld⟩
  · intro ⟨c, hc, hentry⟩
    exact ⟨c, hc, (heldBy_pos_iff (hconns c hc) hpos).mpr hentry⟩

/-! ## Clean-ups -/

theorem closeSemaTimes_spec {semas : SemaTable} (hs : SemasSound semas) {handle : Int} {n : Nat}
    (hn : (n : Int) ≤ opencountAt semas handle) :
    SemasSound (closeSemaTimes semas handle n) ∧
      ∀ handle', opencountAt (closeSemaTimes semas handle n) handle' =
        opencountAt semas handle' - if handle' = handle then (n : Int) else 0 := by
  induction n generalizing semas with
  | zero => exact ⟨hs, fun handle' => by unfold closeSemaTimes; split <;> omega⟩
  | succ n ih =>
      have hopen : 0 < opencountAt semas handle := by omega
      obtain ⟨-, hs', hcount⟩ := closeSema_spec hs hopen
      have hself := hcount handle
      rw [if_pos rfl] at hself
      obtain ⟨hsound, htimes⟩ := ih hs' (by omega)
      refine ⟨hsound, fun handle' => ?_⟩
      unfold closeSemaTimes
      rw [htimes, hcount]
      split <;> omega

theorem clearConnSemas_cons (semas : SemaTable) (sem : SemaConn) (c : List SemaConn) :
    clearConnSemas semas (sem :: c) =
      if 0 < sem.handle ∧ 0 < sem.opencount then
        closeSemaTimes (clearConnSemas semas c) sem.handle sem.opencount.toNat
      else clearConnSemas semas c := rfl

/-- `clear_conn_semas` takes off each semaphore what the connection holds of it. -/
theorem clearConnSemas_spec {semas : SemaTable} (hs : SemasSound semas) {c : List SemaConn}
    (hc : ∀ sem ∈ c, sem.Sound)
    (hheld : ∀ handle, 0 < handle → heldBy c handle ≤ opencountAt semas handle) :
    SemasSound (clearConnSemas semas c) ∧
      ∀ handle, 0 < handle →
        opencountAt (clearConnSemas semas c) handle = opencountAt semas handle - heldBy c handle := by
  induction c with
  | nil => exact ⟨hs, fun handle _ => (sub_zero _).symm⟩
  | cons sem c ih =>
      have hsem := hc sem List.mem_cons_self
      have hrest := fun sem' hsem' => hc sem' (List.mem_cons_of_mem _ hsem')
      have hcons : ∀ handle, heldBy (sem :: c) handle =
          (if sem.handle = handle then sem.opencount else 0) + heldBy c handle :=
        fun handle => List.sum_cons
      obtain ⟨hs', hcount⟩ := ih hrest fun handle hpos => by
        have := hheld handle hpos
        have := hcons handle
        have := hsem.count_nonneg hpos
        omega
      unfold SemaConn.Sound at hsem
      rw [clearConnSemas_cons]
      split
      next hused =>
        have hself := hcons sem.handle
        rw [if_pos rfl] at hself
        have hroom := hheld sem.handle hused.1
        have hafter := hcount sem.handle hused.1
        have htimes : (sem.opencount.toNat : Int) ≤
            opencountAt (clearConnSemas semas c) sem.handle := by omega
        obtain ⟨hsound, htimes⟩ := closeSemaTimes_spec hs' htimes
        refine ⟨hsound, fun handle hpos => ?_⟩
        rw [htimes, hcount handle hpos, hcons]
        split <;> split <;> omega
      next hfree =>
        refine ⟨hs', fun handle hpos => ?_⟩
        rw [hcount handle hpos, hcons, if_neg (by omega)]
        omega

/-! ## The law -/

/-- A semaphore exists exactly when a connection holds it, it is open as often as
the connections hold it, and no two semaphores have one name. -/
structure SemaLaw (s : SemaState) : Prop where
  held : ∀ handle, (semaAt s.semas handle).isSome ↔
    ∃ c ∈ s.conns, ∃ sem ∈ c, sem.handle = handle ∧ 0 < sem.opencount
  counted : ∀ handle se, semaAt s.semas handle = some se →
    se.opencount = heldByAll s.conns handle
  distinct : ∀ handle handle' se se', semaAt s.semas handle = some se →
    semaAt s.semas handle' = some se' → se.name = se'.name → handle = handle'

/-- The law, and what the entries of the tables look like. -/
structure SemaInv (s : SemaState) : Prop where
  sound : SemasSound s.semas
  entries : ∀ c ∈ s.conns, ∀ sem ∈ c, sem.Sound
  counted : ∀ handle, 0 < handle → opencountAt s.semas handle = heldByAll s.conns handle

theorem SemaInv.init (maxConnections : Nat) : SemaInv (SemaState.init maxConnections) where
  sound := by
    constructor <;> intro handle <;> simp [SemaState.init, semaAt]
  entries := by
    intro c hc
    simp [(List.mem_replicate.mp hc).2]
  counted := by
    intro handle _
    simp [SemaState.init, opencountAt, semaAt, heldByAll, heldBy]

theorem SemaInv.law {s : SemaState} (h : SemaInv s) : SemaLaw s where
  held handle := by
    by_cases hpos : 0 < handle
    · rw [← h.sound.opencountAt_pos_iff, h.counted handle hpos,
        heldByAll_pos_iff h.entries hpos]
      constructor
      · intro ⟨c, hc, sem, hsem, heq⟩
        have hsound := h.entries c hc sem hsem
        unfold SemaConn.Sound at hsound
        exact ⟨c, hc, sem, hsem, heq, by omega⟩
      · intro ⟨c, hc, sem, hsem, heq, _⟩
        exact ⟨c, hc, sem, hsem, heq⟩
    · rw [semaAt_of_nonpos hpos]
      refine ⟨fun hsome => by contradiction, fun ⟨c, hc, sem, hsem, heq, hcount⟩ => ?_⟩
      have hsound := h.entries c hc sem hsem
      unfold SemaConn.Sound at hsound
      omega
  counted handle se hse := by
    rw [← h.counted handle (semaAt_some hse).1, opencountAt_of_some hse]
  distinct := h.sound.distinct

/-- Other counts in the table of the server are kept when a connection's table
changes by as much. -/
theorem SemaInv.setConn {s : SemaState} (h : SemaInv s) {conn : Nat} {c c' : List SemaConn}
    {semas' : SemaTable} (hget : s.conns[conn]? = some c) (hs : SemasSound semas')
    (hc' : ∀ sem ∈ c', sem.Sound)
    (hcount : ∀ handle, 0 < handle → opencountAt semas' handle =
      opencountAt s.semas handle - heldBy c handle + heldBy c' handle) :
    SemaInv ⟨semas', s.conns.set conn c'⟩ where
  sound := hs
  entries other hother := by
    rcases List.mem_or_eq_of_mem_set hother with hold | rfl
    · exact h.entries other hold
    · exact hc'
  counted handle hpos := by
    unfold heldByAll
    rw [hcount handle hpos, h.counted handle hpos,
      SlotTable.sum_set hget (fun c => heldBy c handle) c']
    rfl

theorem SemaInv.setSemas {s : SemaState} (h : SemaInv s) {semas' : SemaTable}
    (hs : SemasSound semas')
    (hcount : ∀ handle, opencountAt semas' handle = opencountAt s.semas handle) :
    SemaInv { s with semas := semas' } where
  sound := hs
  entries := h.entries
  counted handle hpos := (hcount handle).trans (h.counted handle hpos)

/-- The condition: who opens a semaphore has an entry for it, a free entry, or
room for one more, unless the table of the server has none either. -/
def RoomToOpen (s : SemaState) : SemaEvent → Prop
  | .request conn (.openSema value name) =>
      ∀ c, s.conns[conn]? = some c → 1 ≤ name.length → name.length ≤ 127 → value ≤ 127 →
        ¬TableFull s.semas name →
        c.length < maxSemaConn ∨ ∃ sem ∈ c, sem.handle = 0 ∨
          ∃ se, semaAt s.semas sem.handle = some se ∧ se.name = name
  | _ => True

/-- Every step of `open_sema` either finds room and keeps the invariant, or
leaves a semaphore counted that nobody holds. -/
theorem handleFunc0x20_openSema {s : SemaState} (h : SemaInv s) {conn : Nat} {c : List SemaConn}
    (hget : s.conns[conn]? = some c) (value : UInt8) (name : List UInt8) :
    let s' := (handleFunc0x20 s conn c (.openSema value name)).2
    SemaInv s' ∧ RoomToOpen s (.request conn (.openSema value name)) ∨
      ¬SemaLaw s' ∧ ¬RoomToOpen s (.request conn (.openSema value name)) := by
  have hmem := List.mem_of_getElem? hget
  have hc := h.entries c hmem
  dsimp only
  unfold handleFunc0x20
  dsimp only
  split
  next hlength =>
    refine .inl ⟨h, fun c' _ hmin hmax => ?_⟩
    omega
  next hlength =>
  split
  next hvalue =>
    exact .inl ⟨h, fun c' _ _ _ hmax => absurd hvalue (UInt8.not_lt.mpr hmax)⟩
  next hvalue =>
  rcases openSema_spec h.sound name value.toNat with
    ⟨handle, hpos, hroom, hok, hs', hcount, hnamed⟩ | ⟨hfull, herror⟩
  · cases hopen : openSema s.semas name value.toNat with
    | mk result semas' =>
    rw [hopen] at hok hs' hcount
    dsimp only at hok hs' hcount
    rw [hok]
    dsimp only
    -- an entry of the connection has the handle just when it has the name
    have hentry : ∀ sem ∈ c, 0 < sem.handle →
        ((∃ se, semaAt s.semas sem.handle = some se ∧ se.name = name) ↔ sem.handle = handle) := by
      intro sem hsem hused
      have hheld : 0 < heldByAll s.conns sem.handle :=
        (heldByAll_pos_iff h.entries hused).mpr ⟨c, hmem, sem, hsem, rfl⟩
      rw [← h.counted _ hused, h.sound.opencountAt_pos_iff] at hheld
      obtain ⟨se, hse⟩ := Option.isSome_iff_exists.mp hheld
      rw [← hnamed sem.handle se hse]
      constructor
      · intro ⟨se', hse', hname⟩
        rw [hse] at hse'
        exact Option.some.inj hse' ▸ hname
      · intro hname
        exact ⟨se, hse, hname⟩
    rcases openConnSema_spec hc hpos with ⟨hfits, hresult, hc', hheld⟩ | ⟨hnoRoom, hresult⟩
    · rw [hresult, if_neg (by omega)]
      refine .inl ⟨h.setConn hget hs' hc' fun handle' hpos' => ?_, fun c' hget' _ _ _ _ => ?_⟩
      · rw [hcount, hheld handle' hpos']
        split <;> omega
      · obtain rfl := Option.some.inj (hget.symm.trans hget')
        by_contra hnone
        rw [not_or] at hnone
        refine hfits ⟨Nat.not_lt.mp hnone.1, fun sem hsem => ?_⟩
        have hzero : sem.handle ≠ 0 := fun hzero => hnone.2 ⟨sem, hsem, .inl hzero⟩
        have hused : 0 < sem.handle := by
          have hsound := hc sem hsem
          unfold SemaConn.Sound at hsound
          omega
        exact ⟨hzero, fun heq => hnone.2 ⟨sem, hsem, .inr ((hentry sem hsem hused).mpr heq)⟩⟩
    · rw [hresult]
      have hsmall : ¬(0 : Int) < -0x96 := by omega
      dsimp only
      rw [if_pos (by omega), closeSema_of_none (semaAt_of_nonpos hsmall)]
      refine .inr ⟨fun hlaw => ?_, fun hcond => ?_⟩
      · -- the semaphore is counted once more than it is held
        have hself := hcount handle
        rw [if_pos rfl, h.counted handle hpos] at hself
        cases hse : semaAt semas' handle with
        | none =>
            rw [opencountAt_of_none hse] at hself
            have hnonneg : 0 ≤ heldByAll s.conns handle := by
              apply List.sum_nonneg
              intro n hn
              obtain ⟨c', hc', rfl⟩ := List.mem_map.mp hn
              exact heldBy_nonneg (h.entries c' hc') hpos
            omega
        | some se =>
            have heq := hlaw.counted handle se hse
            rw [opencountAt_of_some hse, heq] at hself
            dsimp only at hself
            omega
      · rcases hcond c hget (by omega) (by omega) (UInt8.not_lt.mp hvalue) hroom with
          hlt | ⟨sem, hsem, hzero | hname⟩
        · exact absurd hlt (Nat.not_lt.mpr hnoRoom.1)
        · exact (hnoRoom.2 sem hsem).1 hzero
        · have hused : 0 < sem.handle := by
            obtain ⟨se, hse, -⟩ := hname
            exact (semaAt_some hse).1
          exact (hnoRoom.2 sem hsem).2 ((hentry sem hsem hused).mp hname)
  · rw [herror]
    exact .inl ⟨h, fun c' _ _ _ _ hroom => absurd hfull hroom⟩

/-- The other requests keep the invariant. -/
theorem handleFunc0x20_inv {s : SemaState} (h : SemaInv s) {conn : Nat} {c : List SemaConn}
    (hget : s.conns[conn]? = some c) {r : SemaRequest}
    (hr : ∀ value name, r ≠ .openSema value name) : SemaInv (handleFunc0x20 s conn c r).2 := by
  have hmem := List.mem_of_getElem? hget
  cases r with
  | openSema value name => exact absurd rfl (hr value name)
  | examineSema handle => exact h
  | waitSema handle =>
      exact h.setSemas (waitSema_spec h.sound handle).1 (waitSema_spec h.sound handle).2
  | signalSema handle =>
      exact h.setSemas (signalSema_spec h.sound handle).1 (signalSema_spec h.sound handle).2
  | closeSema handle =>
      obtain ⟨hc', ⟨hzero, hheld, hcount⟩ | ⟨hne, hsame⟩⟩ :=
        closeConnSema_spec (h.entries c hmem) handle
      · unfold handleFunc0x20
        dsimp only
        rw [if_pos hzero]
        rcases hheld with hfree | ⟨hpos, hheld⟩
        · -- a free entry was found, and no semaphore has its handle
          rw [closeSema_of_none (semaAt_of_nonpos (by omega))]
          dsimp only
          refine h.setConn hget h.sound hc' fun handle' hpos' => ?_
          rw [hcount handle' hpos', if_neg (by omega)]
          omega
        · have hopen : 0 < opencountAt s.semas handle := by
            have hle := heldBy_le_heldByAll h.entries hmem hpos
            rw [h.counted handle hpos]
            omega
          obtain ⟨-, hs', hdown⟩ := closeSema_spec h.sound hopen
          refine h.setConn hget hs' hc' fun handle' hpos' => ?_
          rw [hcount handle' hpos', hdown]
          omega
      · unfold handleFunc0x20
        dsimp only
        rw [if_neg hne]
        refine h.setConn hget h.sound hc' fun handle' _ => ?_
        rw [hsame]
        omega

theorem SemaInv.clear {s : SemaState} (h : SemaInv s) {conn : Nat} {c : List SemaConn}
    (hget : s.conns[conn]? = some c) :
    SemaInv ⟨clearConnSemas s.semas c, s.conns.set conn []⟩ := by
  have hmem := List.mem_of_getElem? hget
  obtain ⟨hs', hcount⟩ := clearConnSemas_spec h.sound (h.entries c hmem) fun handle hpos => by
    rw [h.counted handle hpos]
    exact heldBy_le_heldByAll h.entries hmem hpos
  refine h.setConn hget hs' (fun sem hsem => by contradiction) fun handle hpos => ?_
  rw [hcount handle hpos]
  exact (add_zero _).symm

/-- What a step does to the invariant and to the law, by the condition. -/
theorem semaMachine_step {s : SemaState} (h : SemaInv s) (e : SemaEvent) :
    SemaInv (semaMachine.step s e).2 ∧ RoomToOpen s e ∨
      ¬SemaLaw (semaMachine.step s e).2 ∧ ¬RoomToOpen s e := by
  unfold semaMachine
  cases e with
  | clear conn =>
      refine .inl ⟨?_, trivial⟩
      dsimp only
      split
      next c hget => exact h.clear hget
      next => exact h
  | request conn r =>
      dsimp only
      cases hget : s.conns[conn]? with
      | some c =>
          by_cases hr : ∃ value name, r = .openSema value name
          · obtain ⟨value, name, rfl⟩ := hr
            exact handleFunc0x20_openSema h hget value name
          · have hother : ∀ value name, r ≠ .openSema value name :=
              fun value name heq => hr ⟨value, name, heq⟩
            refine .inl ⟨handleFunc0x20_inv h hget hother, ?_⟩
            cases r with
            | openSema value name => exact absurd rfl (hother value name)
            | _ => trivial
      | none =>
          refine .inl ⟨h, ?_⟩
          cases r with
          | openSema value name =>
              intro c hc
              rw [hget] at hc
              contradiction
          | _ => trivial

/-- The accounting holds after every step of a run just when every open of it
finds room with its connection. -/
theorem semas_accounted_iff (maxConnections : Nat) (events : List SemaEvent) :
    semaMachine.Along (fun s e => SemaLaw (semaMachine.step s e).2)
        (SemaState.init maxConnections) events ↔
      semaMachine.Along RoomToOpen (SemaState.init maxConnections) events := by
  have hstep : ∀ s e, SemaInv s → SemaLaw (semaMachine.step s e).2 →
      SemaInv (semaMachine.step s e).2 := by
    intro s e h hlaw
    rcases semaMachine_step h e with ⟨hinv, -⟩ | ⟨hbroken, -⟩
    · exact hinv
    · exact absurd hlaw hbroken
  apply semaMachine.along_iff hstep _ events (SemaInv.init maxConnections)
  intro s e h
  rcases semaMachine_step h e with ⟨hinv, hroom⟩ | ⟨hbroken, hfull⟩
  · exact iff_of_true hinv.law hroom
  · exact iff_of_false hbroken hfull

/-- One connection opens a semaphore for each of the names. -/
def opensOf (names : List UInt8) : List SemaEvent :=
  names.map fun name => .request 0 (.openSema 1 [name])

/-- The eleventh semaphore that a connection opens stays, although the open failed
and nobody holds it. -/
theorem semas_unaccounted :
    ¬∀ maxConnections events,
      semaMachine.Along (fun s e => SemaLaw (semaMachine.step s e).2)
        (SemaState.init maxConnections) events := by
  intro h
  have hall := h 1 (opensOf [1, 2, 3, 4, 5, 6, 7, 8, 9, 10] ++ opensOf [11])
  obtain ⟨hlaw, -⟩ := ((semaMachine.along_append _ _ _).mp hall).2
  have hheld := (hlaw.held 11).mp (by decide)
  revert hheld
  decide

end MarsNwe
