import MarsNwe.Lib.PinnedSlots
import MarsNwe.Namspace.BaseTable

/-! # What the table operations keep

An entry is in the place that it says, no other entry has its address, and no entry lies
behind `anz_dbe`. Apart from their places, the operations leave the other entries as they
are: only an allocation evicts one, when the table is full.
-/

namespace MarsNwe.NameSpace

/-- An entry without its place. -/
def DirBaseEntry.unplaced (e : DirBaseEntry) : DirBaseEntry := { e with slot := 0 }

def isLocked (e : DirBaseEntry) : Bool := e.locked ≠ 0

def unplacedSlots (dirBase : List (Option DirBaseEntry)) : List (Option DirBaseEntry) :=
  dirBase.map (Option.map DirBaseEntry.unplaced)

/-- The entries, whatever their places. -/
def contents (dirBase : List (Option DirBaseEntry)) : List DirBaseEntry :=
  (unplacedSlots dirBase).reduceOption

/-- Every entry says in which place it is. -/
def PlacesRight (dirBase : List (Option DirBaseEntry)) : Prop :=
  ∀ (i : Nat) (e : DirBaseEntry), dirBase[i]? = some (some e) → e.slot = i

/-! ## Sorting -/

theorem length_downsortLoop (k dbase : Nat) (dirBase : List (Option DirBaseEntry)) :
    (downsortLoop k dbase dirBase).1.length = dirBase.length := by
  induction k generalizing dbase dirBase with
  | zero => rfl
  | succ k ih =>
      unfold downsortLoop
      dsimp only
      split
      · rw [ih, List.length_set]
      · exact ih dbase dirBase

theorem PlacesRight.set {dirBase : List (Option DirBaseEntry)} (h : PlacesRight dirBase)
    {k : Nat} {slot : Option DirBaseEntry} (hslot : ∀ e ∈ slot, e.slot = k) :
    PlacesRight (dirBase.set k slot) := by
  intro i e hi
  rw [List.getElem?_set'] at hi
  split at hi
  next hk =>
      subst hk
      obtain ⟨_, -, rfl⟩ := Option.map_eq_some_iff.mp hi
      exact hslot e rfl
  next => exact h i e hi

theorem PlacesRight.downsortLoop {dirBase : List (Option DirBaseEntry)} (h : PlacesRight dirBase)
    (k dbase : Nat) : PlacesRight (downsortLoop k dbase dirBase).1 := by
  induction k generalizing dbase dirBase with
  | zero => exact h
  | succ k ih =>
      unfold NameSpace.downsortLoop
      dsimp only
      split
      · refine ih (h.set ?_) k
        intro e he
        obtain ⟨_, -, rfl⟩ := Option.map_eq_some_iff.mp he
        rfl
      · exact ih h dbase

theorem unplacedSlots_set (dirBase : List (Option DirBaseEntry)) (k : Nat)
    (slot : Option DirBaseEntry) :
    unplacedSlots (dirBase.set k slot) =
      (unplacedSlots dirBase).set k (slot.map DirBaseEntry.unplaced) := by
  unfold unplacedSlots
  rw [List.map_set]

theorem getElem?_unplacedSlots (dirBase : List (Option DirBaseEntry)) (i : Nat) :
    (unplacedSlots dirBase)[i]? = dirBase[i]?.map (Option.map DirBaseEntry.unplaced) :=
  List.getElem?_map

theorem any_isLocked_unplaced (slot : Option DirBaseEntry) :
    (slot.map DirBaseEntry.unplaced).any isLocked = slot.any isLocked := by
  cases slot <;> rfl

/-- A stretch of locked places. -/
theorem any_isLocked_of_mem {dirBase : List (Option DirBaseEntry)} {a n : Nat}
    (h : ∀ i, a ≤ i → i < a + n → dirBase[i]?.join.any isLocked = true) :
    ∀ y ∈ ((unplacedSlots dirBase).drop a).take n, y.any isLocked = true := by
  intro y hy
  obtain ⟨i, hi⟩ := List.getElem?_of_mem hy
  rw [List.getElem?_take] at hi
  split at hi
  next hlt =>
      rw [List.getElem?_drop, getElem?_unplacedSlots] at hi
      obtain ⟨slot, hslot, rfl⟩ := Option.map_eq_some_iff.mp hi
      rw [any_isLocked_unplaced]
      have hthis := h (a + i) (by omega) (by omega)
      rwa [hslot] at hthis
  next => contradiction

/-- What is put into the last hole has pushed the entries before the first one up. The
induction is on the places still to be looked at; those behind them, up to the hole, are
locked. -/
theorem unplaced_downsortLoop {k dbase : Nat} {dirBase : List (Option DirBaseEntry)}
    (x : Option DirBaseEntry) (hk : k ≤ dbase) (hdbase : dbase < dirBase.length)
    (hlocked : ∀ i, k ≤ i → i < dbase → dirBase[i]?.join.any isLocked = true) :
    (unplacedSlots (downsortLoop k dbase dirBase).1).set (downsortLoop k dbase dirBase).2 x =
      PinnedSlots.shift isLocked x ((unplacedSlots dirBase).take dbase) ++
        (unplacedSlots dirBase).drop (dbase + 1) := by
  induction k generalizing dbase dirBase with
  | zero =>
      have hall := any_isLocked_of_mem (a := 0) (n := dbase) (by simpa using hlocked)
      have hlen : (unplacedSlots dirBase).length = dirBase.length := List.length_map _
      rw [List.drop_zero] at hall
      rw [PinnedSlots.shift_of_pinned hall, List.append_assoc, List.singleton_append]
      exact (List.set_eq_take_append_cons_drop).trans (if_pos (hlen ▸ hdbase))
  | succ k ih =>
      obtain ⟨y, hy⟩ : ∃ y, dirBase[k]? = some y :=
        ⟨_, List.getElem?_eq_getElem (show k < dirBase.length by omega)⟩
      unfold downsortLoop
      dsimp only
      rw [hy, Option.join_some]
      split
      next hfree =>
        have hrun := any_isLocked_of_mem (a := k + 1) (n := dbase - (k + 1))
          fun i hi hlt => hlocked i hi (by omega)
        have hy' : (unplacedSlots dirBase)[k]? = some (y.map DirBaseEntry.unplaced) := by
          rw [getElem?_unplacedSlots, hy]
          rfl
        have hfree' : (y.map DirBaseEntry.unplaced).any isLocked = false := by
          rw [any_isLocked_unplaced]
          cases y with
          | none => rfl
          | some e => simpa [isLocked] using hfree
        have hsplit : (unplacedSlots dirBase).take dbase =
            (unplacedSlots dirBase).take k ++ y.map DirBaseEntry.unplaced ::
              ((unplacedSlots dirBase).drop (k + 1)).take (dbase - (k + 1)) := by
          have hadd := List.take_add (l := unplacedSlots dirBase) (i := k) (j := dbase - k)
          rw [Nat.add_sub_cancel' (by omega)] at hadd
          obtain ⟨hlt, hget⟩ := List.getElem?_eq_some_iff.mp hy'
          rw [hadd, List.drop_eq_getElem_cons hlt, hget,
            show dbase - k = dbase - (k + 1) + 1 by omega, List.take_succ_cons]
        -- the entry goes up, and its place is the next hole
        rw [ih le_rfl (by rw [List.length_set]; omega) (by omega), unplacedSlots_set, hsplit,
          PinnedSlots.shift_append_cons hfree', PinnedSlots.shift_of_pinned hrun,
          List.append_assoc]
        have hmap : (y.map fun e => { e with slot := dbase }).map DirBaseEntry.unplaced =
            y.map DirBaseEntry.unplaced := by cases y <;> rfl
        rw [hmap, List.take_set_of_le (by omega), List.drop_set, if_neg (by omega),
          List.set_eq_take_append_cons_drop, if_pos, List.drop_drop, List.append_assoc]
        · rw [show k + 1 + (dbase - (k + 1) + 1) = dbase + 1 by omega]
          rfl
        · rw [List.length_drop, unplacedSlots, List.length_map]
          omega
      next hpinned =>
        refine ih (by omega) hdbase fun i hi hlt => ?_
        rcases Nat.lt_or_eq_of_le hi with hgt | rfl
        · exact hlocked i hgt hlt
        · rw [hy, Option.join_some]
          cases y with
          | none => exact absurd rfl hpinned
          | some e => simpa [isLocked] using hpinned

/-! ## Contents -/

theorem mem_contents {dirBase : List (Option DirBaseEntry)} {e : DirBaseEntry} :
    e ∈ contents dirBase ↔ ∃ (i : Nat) (e' : DirBaseEntry),
      dirBase[i]? = some (some e') ∧ e'.unplaced = e := by
  unfold contents
  rw [List.reduceOption_mem_iff, List.mem_iff_getElem?]
  refine exists_congr fun i => ?_
  rw [getElem?_unplacedSlots, Option.map_eq_some_iff]
  constructor
  · rintro ⟨slot, hslot, heq⟩
    obtain ⟨e', rfl, heq⟩ := Option.map_eq_some_iff.mp heq
    exact ⟨e', hslot, Option.some.inj heq⟩
  · rintro ⟨e', hslot, rfl⟩
    exact ⟨_, hslot, rfl⟩

theorem perm_reduceOption {l l' : List (Option DirBaseEntry)} (h : l.Perm l') :
    l.reduceOption.Perm l'.reduceOption := h.filterMap id

/-- A place that is emptied. -/
theorem contents_set_none {dirBase : List (Option DirBaseEntry)} {k : Nat}
    {slot : Option DirBaseEntry} (h : dirBase[k]? = some slot) :
    (contents dirBase).Perm
      ((slot.map DirBaseEntry.unplaced).toList ++ contents (dirBase.set k none)) := by
  obtain ⟨hlt, hget⟩ := List.getElem?_eq_some_iff.mp h
  have hsplit : dirBase = dirBase.take k ++ slot :: dirBase.drop (k + 1) := by
    rw [← hget, ← List.drop_eq_getElem_cons hlt, List.take_append_drop]
  have hset : dirBase.set k none = dirBase.take k ++ none :: dirBase.drop (k + 1) :=
    (List.set_eq_take_append_cons_drop).trans (if_pos hlt)
  unfold contents
  rw [hset]
  nth_rewrite 1 [hsplit]
  simp only [unplacedSlots, List.map_append, List.map_cons, List.reduceOption_append,
    Option.map_none, List.reduceOption_cons_of_none]
  cases slot with
  | none => simp
  | some e =>
      simp only [Option.map_some, List.reduceOption_cons_of_some, Option.toList_some,
        List.singleton_append]
      exact List.perm_middle

/-- An entry put into the hole that sorting leaves is the only one that comes in. -/
theorem contents_downsort {dirBase : List (Option DirBaseEntry)} {dbase : Nat}
    (h : dirBase[dbase]? = some none) (x : DirBaseEntry) :
    (contents ((downsortDbeEntries dbase dirBase).1.set (downsortDbeEntries dbase dirBase).2
      (some x))).Perm (x.unplaced :: contents dirBase) := by
  have hlt := (List.getElem?_eq_some_iff.mp h).1
  have hget : (unplacedSlots dirBase)[dbase]? = some none := by
    rw [getElem?_unplacedSlots, h]
    rfl
  have hslots := unplaced_downsortLoop (some x.unplaced) (le_refl dbase) hlt
    fun i hi hi' => absurd hi' (Nat.not_lt.mpr hi)
  obtain ⟨hlt', hget'⟩ := List.getElem?_eq_some_iff.mp hget
  have hsplit : unplacedSlots dirBase = (unplacedSlots dirBase).take dbase ++
      none :: (unplacedSlots dirBase).drop (dbase + 1) := by
    rw [← hget', ← List.drop_eq_getElem_cons hlt', List.take_append_drop]
  unfold contents downsortDbeEntries
  rw [unplacedSlots_set, Option.map_some, hslots]
  refine (perm_reduceOption ((PinnedSlots.perm_shift isLocked _ _).append_right _)).trans ?_
  nth_rewrite 3 [hsplit]
  simp only [List.cons_append, List.reduceOption_cons_of_some, List.reduceOption_append,
    List.reduceOption_cons_of_none]
  exact .refl _

/-- Behind the first hole nothing changes. -/
theorem getElem?_downsort {dirBase : List (Option DirBaseEntry)} {dbase i : Nat}
    (h : dbase < dirBase.length) (x : DirBaseEntry) (hi : dbase < i) :
    (unplacedSlots ((downsortDbeEntries dbase dirBase).1.set (downsortDbeEntries dbase dirBase).2
      (some x)))[i]? = (unplacedSlots dirBase)[i]? := by
  have hslots := unplaced_downsortLoop (some x.unplaced) (le_refl dbase) h
    fun i hi hi' => absurd hi' (Nat.not_lt.mpr hi)
  have hlen : (unplacedSlots dirBase).length = dirBase.length := List.length_map _
  unfold downsortDbeEntries
  rw [unplacedSlots_set, Option.map_some, hslots, List.getElem?_append_right]
  · rw [PinnedSlots.length_shift, List.length_take, Nat.min_eq_left (by omega),
      List.getElem?_drop, show dbase + 1 + (i - (dbase + 1)) = i by omega]
  · rw [PinnedSlots.length_shift, List.length_take, Nat.min_eq_left (by omega)]
    omega

/-! ## Choosing a place -/

/-- The first loop of an allocation stops at the first free place. -/
theorem allocScan_fst (dirBase : List (Option DirBaseEntry)) (j : Nat)
    (toUseFree toUseFile : Option Nat) :
    (allocScan dirBase j toUseFree toUseFile).1 =
      j + (dirBase.takeWhile Option.isSome).length := by
  induction dirBase generalizing j toUseFree toUseFile with
  | nil => rfl
  | cons slot dirBase ih =>
      cases slot with
      | none => rfl
      | some e =>
          unfold allocScan
          simp only [List.takeWhile_cons, Option.isSome_some, if_true, List.length_cons]
          repeat' split
          all_goals
            rw [ih]
            omega

/-- What it may give up has a property that all entries which are not locked have. -/
theorem allocScan_snd {P : Nat → Prop} (dirBase : List (Option DirBaseEntry)) (j : Nat)
    (toUseFree toUseFile : Option Nat)
    (hP : ∀ (i : Nat) (e : DirBaseEntry), dirBase[i]? = some (some e) → e.locked = 0 → P (j + i))
    (hfree : ∀ i ∈ toUseFree, P i) (hfile : ∀ i ∈ toUseFile, P i) :
    (∀ i ∈ (allocScan dirBase j toUseFree toUseFile).2.1, P i) ∧
      ∀ i ∈ (allocScan dirBase j toUseFree toUseFile).2.2, P i := by
  induction dirBase generalizing j toUseFree toUseFile with
  | nil => exact ⟨hfree, hfile⟩
  | cons slot dirBase ih =>
      cases slot with
      | none => exact ⟨hfree, hfile⟩
      | some e =>
          have hrest : ∀ (i : Nat) (e : DirBaseEntry), dirBase[i]? = some (some e) →
              e.locked = 0 → P (j + 1 + i) := by
            intro i e' hi hlocked
            rw [Nat.add_assoc, Nat.add_comm 1 i]
            exact hP (i + 1) e' hi hlocked
          have hhere : e.locked = 0 → ∀ i ∈ some j, P i := by
            intro hlocked i hi
            rw [← Option.mem_some_iff.mp hi]
            exact hP 0 e rfl hlocked
          unfold allocScan
          split
          next hlocked =>
            split
            · exact ih _ _ _ hrest (hhere hlocked.2) hfile
            · split
              · exact ih _ _ _ hrest hfree (hhere hlocked.2)
              · exact ih _ _ _ hrest hfree hfile
          next => exact ih _ _ _ hrest hfree hfile

/-- The first place where a list goes on after a stretch. -/
theorem getElem?_length_takeWhile {α : Type} {p : α → Bool} {l : List α}
    (h : (l.takeWhile p).length < l.length) :
    ∃ a, l[(l.takeWhile p).length]? = some a ∧ p a = false := by
  have hsplit := List.takeWhile_append_dropWhile (p := p) (l := l)
  cases hrest : l.dropWhile p with
  | nil =>
      rw [hrest, List.append_nil] at hsplit
      rw [hsplit] at h
      exact absurd h (lt_irrefl _)
  | cons a rest =>
      refine ⟨a, ?_, ?_⟩
      · nth_rewrite 1 [← hsplit]
        rw [hrest, List.getElem?_append_right le_rfl, Nat.sub_self, List.getElem?_cons_zero]
      · have hhead := List.head?_dropWhile_not p l
        rw [hrest] at hhead
        simpa using hhead

theorem lastUnlocked_lt (dirBase : List (Option DirBaseEntry)) {n : Nat} (hn : 0 < n) :
    lastUnlocked dirBase n < n := by
  induction n with
  | zero => contradiction
  | succ n ih =>
      unfold lastUnlocked
      split
      · rcases Nat.eq_zero_or_pos n with rfl | hpos
        · exact Nat.zero_lt_one
        · exact (ih hpos).trans (Nat.lt_succ_self n)
      · exact Nat.lt_succ_self n

/-- With an entry that is not locked before `n`, the last one is found. -/
theorem not_isLocked_lastUnlocked {dirBase : List (Option DirBaseEntry)} {n i : Nat} (hi : i < n)
    (hfree : dirBase[i]?.join.any isLocked = false) :
    dirBase[lastUnlocked dirBase n]?.join.any isLocked = false := by
  induction n with
  | zero => contradiction
  | succ n ih =>
      unfold lastUnlocked
      split
      next hlocked =>
          rcases Nat.lt_succ_iff_lt_or_eq.mp hi with hlt | rfl
          · exact ih hlt
          · exact absurd (hlocked.symm.trans hfree) (by simp)
      next hfree => exact Bool.eq_false_iff.mpr hfree

/-! ## The invariant -/

namespace BaseTable

/-- A table as the operations keep it. -/
structure Ok (t : BaseTable) : Prop where
  places : PlacesRight t.dirBase
  inUse : ∀ (i : Nat) (e : DirBaseEntry), t.dirBase[i]? = some (some e) → i < t.anzDbe
  bound : t.anzDbe ≤ t.dirBase.length
  ptrs : ((contents t.dirBase).map DirBaseEntry.ptr).Nodup
  fresh : ∀ e ∈ contents t.dirBase, e.ptr < t.fresh

theorem empty_ok (maxBaseh : Nat) : (empty maxBaseh).Ok := by
  have hnone : ∀ (i : Nat) (e : DirBaseEntry), (empty maxBaseh).dirBase[i]? ≠ some (some e) := by
    intro i e hi
    exact absurd (List.eq_of_mem_replicate (List.mem_of_getElem? hi)) (by simp)
  have hempty : contents (empty maxBaseh).dirBase = [] := by
    refine List.eq_nil_iff_forall_not_mem.mpr fun e he => ?_
    obtain ⟨i, e', hi, -⟩ := mem_contents.mp he
    exact hnone i e' hi
  exact {
    places := fun i e hi => absurd hi (hnone i e)
    inUse := fun i e hi => absurd hi (hnone i e)
    bound := Nat.zero_le _
    ptrs := by rw [hempty]; exact List.nodup_nil
    fresh := by rw [hempty]; exact fun e he => absurd he List.not_mem_nil }

variable {t : BaseTable}

/-- The place of an allocation is free, or the table is full and the place is that of the
victim, which is not locked if any entry but one is not. -/
theorem Ok.place_cases (h : t.Ok) (hpos : 0 < t.dirBase.length) :
    (t.dirBase[t.place]? = some none ∧ t.place ≤ t.anzDbe) ∨
      (t.anzDbe = t.dirBase.length ∧ t.place < t.anzDbe ∧
        ∃ e, t.dirBase[t.place]? = some (some e) ∧
          ((∃ i < t.anzDbe, t.dirBase[i]?.join.any isLocked = false) → e.locked = 0)) := by
  have hlen : (t.dirBase.take t.anzDbe).length = t.anzDbe := List.length_take_of_le h.bound
  have hget : ∀ i, i < t.anzDbe → (t.dirBase.take t.anzDbe)[i]? = t.dirBase[i]? :=
    fun i hi => List.getElem?_take_of_lt hi
  unfold place
  dsimp only
  rw [allocScan_fst, Nat.zero_add]
  have hle : ((t.dirBase.take t.anzDbe).takeWhile Option.isSome).length ≤ t.anzDbe :=
    (List.takeWhile_prefix Option.isSome).length_le.trans_eq hlen
  rcases Nat.lt_or_eq_of_le hle with hlt | heq
  · -- a free place before the end
    rw [if_neg fun hall => absurd hall.1 hlt.ne]
    obtain ⟨slot, hslot, hnone⟩ := getElem?_length_takeWhile (hlt.trans_eq hlen.symm)
    rw [hget _ hlt] at hslot
    cases slot with
    | none => exact .inl ⟨hslot, hlt.le⟩
    | some e => contradiction
  · have hsome : ∀ i < t.anzDbe, ∃ e, t.dirBase[i]? = some (some e) := by
      intro i hi
      have hall : (t.dirBase.take t.anzDbe).takeWhile Option.isSome = t.dirBase.take t.anzDbe :=
        (List.takeWhile_prefix Option.isSome).eq_of_length (heq.trans hlen.symm)
      obtain ⟨slot, hslot⟩ : ∃ slot, t.dirBase[i]? = some slot :=
        ⟨_, List.getElem?_eq_getElem (hi.trans_le h.bound)⟩
      have hmem := List.mem_of_getElem? ((hget i hi).trans hslot)
      rw [← hall] at hmem
      obtain ⟨e, rfl⟩ := Option.isSome_iff_exists.mp (List.mem_takeWhile_imp hmem)
      exact ⟨e, hslot⟩
    rw [heq]
    by_cases hfull : t.anzDbe = t.dirBase.length
    · rw [if_pos ⟨rfl, hfull⟩]
      right
      have hfull_pos : 0 < t.anzDbe := hfull ▸ hpos
      have hchoice := allocScan_snd (P := fun i => i < t.anzDbe ∧
        ∃ e, t.dirBase[i]? = some (some e) ∧ e.locked = 0) (t.dirBase.take t.anzDbe) 0 none none
        (by
          intro i e hi hlocked
          have hlt : i < t.anzDbe := hlen ▸ (List.getElem?_eq_some_iff.mp hi).1
          rw [hget i hlt] at hi
          rw [Nat.zero_add]
          exact ⟨hlt, e, hi, hlocked⟩)
        (by simp) (by simp)
      have hplace : ∀ i, (i < t.anzDbe ∧ ∃ e, t.dirBase[i]? = some (some e) ∧ e.locked = 0) →
          t.anzDbe = t.dirBase.length ∧ i < t.anzDbe ∧ ∃ e, t.dirBase[i]? = some (some e) ∧
            ((∃ i < t.anzDbe, t.dirBase[i]?.join.any isLocked = false) → e.locked = 0) := by
        rintro i ⟨hlt, e, he, hlocked⟩
        exact ⟨hfull, hlt, e, he, fun _ => hlocked⟩
      cases hfree : (allocScan (t.dirBase.take t.anzDbe) 0 none none).2.1 with
      | some i => exact hplace i (hchoice.1 i hfree)
      | none =>
          cases hfile : (allocScan (t.dirBase.take t.anzDbe) 0 none none).2.2 with
          | some i => exact hplace i (hchoice.2 i hfile)
          | none =>
              have hlast := lastUnlocked_lt t.dirBase hfull_pos
              obtain ⟨e, he⟩ := hsome _ hlast
              refine ⟨hfull, hlast, e, he, ?_⟩
              rintro ⟨i, hi, hunlocked⟩
              have hthis := not_isLocked_lastUnlocked hi hunlocked
              rw [he] at hthis
              simpa [isLocked] using hthis
    · rw [if_neg fun hall => hfull hall.2]
      left
      have hlt : t.anzDbe < t.dirBase.length := lt_of_le_of_ne h.bound hfull
      refine ⟨?_, le_rfl⟩
      rw [List.getElem?_eq_getElem hlt]
      cases hslot : t.dirBase[t.anzDbe] with
      | none => rfl
      | some e =>
          have hi := h.inUse t.anzDbe e (by rw [List.getElem?_eq_getElem hlt, hslot])
          exact absurd hi (lt_irrefl _)

/-! ## The operations -/

/-- What allocations and touches do alike: from a hole on the entries go up, and `x` comes
to the front. -/
def toFront (dirBase : List (Option DirBaseEntry)) (dbase : Nat) (x : DirBaseEntry) :
    List (Option DirBaseEntry) :=
  (downsortDbeEntries dbase dirBase).1.set (downsortDbeEntries dbase dirBase).2
    (some { x with slot := (downsortDbeEntries dbase dirBase).2 })

section ToFront

variable {dirBase : List (Option DirBaseEntry)} {dbase : Nat} {x : DirBaseEntry}

theorem length_toFront : (toFront dirBase dbase x).length = dirBase.length :=
  (List.length_set).trans (length_downsortLoop dbase dbase dirBase)

theorem contents_toFront (h : dirBase[dbase]? = some none) :
    (contents (toFront dirBase dbase x)).Perm (x.unplaced :: contents dirBase) :=
  contents_downsort h _

theorem places_toFront (h : PlacesRight dirBase) : PlacesRight (toFront dirBase dbase x) := by
  refine (h.downsortLoop dbase dbase).set fun e he => ?_
  rw [← Option.mem_some_iff.mp he]

theorem inUse_toFront {n : Nat} (h : dirBase[dbase]? = some none) (hn : dbase < n)
    (hinUse : ∀ (i : Nat) (e : DirBaseEntry), dirBase[i]? = some (some e) → i < n) (i : Nat)
    (e : DirBaseEntry) (hi : (toFront dirBase dbase x)[i]? = some (some e)) : i < n := by
  by_cases hle : i ≤ dbase
  · exact hle.trans_lt hn
  · have hsame := getElem?_downsort (List.getElem?_eq_some_iff.mp h).1
      { x with slot := (downsortDbeEntries dbase dirBase).2 } (Nat.lt_of_not_le hle)
    rw [getElem?_unplacedSlots, getElem?_unplacedSlots] at hsame
    change ((toFront dirBase dbase x)[i]?).map _ = _ at hsame
    rw [hi] at hsame
    obtain ⟨slot, hslot, hmap⟩ := Option.map_eq_some_iff.mp hsame.symm
    obtain ⟨e', rfl, -⟩ := Option.map_eq_some_iff.mp hmap
    exact hinUse i e' hslot

end ToFront

/-- What an allocation adds, without its place. -/
def newEntry (ptr : Nat) : DirBaseEntry := ⟨ptr, 0, 0, 0, 0, [], noStat⟩

theorem dirBase_allocate (t : BaseTable) :
    t.allocate.1.dirBase = toFront (t.dirBase.set t.place none) t.place (newEntry t.fresh) := rfl

theorem anzDbe_allocate (t : BaseTable) :
    t.allocate.1.anzDbe = if t.place = t.anzDbe then t.anzDbe + 1 else t.anzDbe := rfl

/-- An allocation adds an entry and takes one away at most. -/
theorem Ok.contents_allocate (h : t.Ok) (hpos : 0 < t.dirBase.length) :
    (contents t.allocate.1.dirBase ++ (t.victim.map DirBaseEntry.unplaced).toList).Perm
      (newEntry t.fresh :: contents t.dirBase) := by
  have hslot : ∃ slot, t.dirBase[t.place]? = some slot := by
    rcases h.place_cases hpos with ⟨hnone, -⟩ | ⟨-, -, e, he, -⟩
    · exact ⟨none, hnone⟩
    · exact ⟨some e, he⟩
  obtain ⟨slot, hslot⟩ := hslot
  have hlt := (List.getElem?_eq_some_iff.mp hslot).1
  have hnew : (contents t.allocate.1.dirBase).Perm
      (newEntry t.fresh :: contents (t.dirBase.set t.place none)) := by
    rw [dirBase_allocate]
    exact contents_toFront (List.getElem?_set_self hlt)
  have hold := contents_set_none hslot
  unfold victim
  rw [hslot, Option.join_some]
  refine (hnew.append_right _).trans ?_
  rw [List.cons_append]
  exact (List.perm_append_comm.trans hold.symm).cons _

theorem Ok.allocate (h : t.Ok) (hpos : 0 < t.dirBase.length) : t.allocate.1.Ok := by
  have hslot : ∃ slot, t.dirBase[t.place]? = some slot ∧
      t.place < (if t.place = t.anzDbe then t.anzDbe + 1 else t.anzDbe) := by
    rcases h.place_cases hpos with ⟨hnone, hle⟩ | ⟨-, hlt, e, he, -⟩
    · refine ⟨none, hnone, ?_⟩
      split <;> omega
    · refine ⟨some e, he, ?_⟩
      split <;> omega
  obtain ⟨slot, hslot, hanz⟩ := hslot
  have hlt := (List.getElem?_eq_some_iff.mp hslot).1
  have hsub : ∀ e ∈ contents t.allocate.1.dirBase,
      e = newEntry t.fresh ∨ e ∈ contents t.dirBase := by
    intro e he
    exact List.mem_cons.mp ((h.contents_allocate hpos).subset (List.mem_append_left _ he))
  exact {
    places := by
      rw [dirBase_allocate]
      exact places_toFront (h.places.set fun e he => nomatch he)
    inUse := by
      rw [dirBase_allocate, anzDbe_allocate]
      refine inUse_toFront (List.getElem?_set_self hlt) hanz fun i e hi => ?_
      rw [List.getElem?_set'] at hi
      split at hi
      next =>
          obtain ⟨_, -, hnone⟩ := Option.map_eq_some_iff.mp hi
          contradiction
      next =>
          have hin := h.inUse i e hi
          split <;> omega
    bound := by
      rw [dirBase_allocate, anzDbe_allocate, length_toFront, List.length_set]
      have hbound := h.bound
      split <;> omega
    ptrs := by
      have hperm := (h.contents_allocate hpos).map DirBaseEntry.ptr
      have hnodup : (DirBaseEntry.ptr (newEntry t.fresh) ::
          (contents t.dirBase).map DirBaseEntry.ptr).Nodup := by
        refine List.nodup_cons.mpr ⟨fun hmem => ?_, h.ptrs⟩
        obtain ⟨e, he, heq⟩ := List.mem_map.mp hmem
        exact absurd (h.fresh e he) (by rw [heq]; exact lt_irrefl _)
      have hall := hperm.nodup_iff.mpr hnodup
      rw [List.map_append] at hall
      exact (List.nodup_append.mp hall).1
    fresh := by
      intro e he
      rcases hsub e he with rfl | hold
      · exact Nat.lt_succ_self _
      · exact (h.fresh e hold).trans (Nat.lt_succ_self _) }

theorem length_allocate (t : BaseTable) :
    t.allocate.1.dirBase.length = t.dirBase.length := by
  rw [dirBase_allocate, length_toFront, List.length_set]

/-- An entry that the table has. -/
def Has (t : BaseTable) (e : DirBaseEntry) : Prop := t.dirBase[e.slot]? = some (some e)

theorem Ok.has (h : t.Ok) {i : Nat} {e : DirBaseEntry} (hi : t.dirBase[i]? = some (some e)) :
    t.Has e := by
  unfold Has
  rw [h.places i e hi]
  exact hi

theorem Has.mem {e : DirBaseEntry} (he : t.Has e) : e.unplaced ∈ contents t.dirBase :=
  mem_contents.mpr ⟨_, e, he, rfl⟩

theorem Ok.eq_of_ptr (h : t.Ok) {e e' : DirBaseEntry} (he : t.Has e) (he' : t.Has e')
    (hptr : e.ptr = e'.ptr) : e = e' := by
  by_cases hslot : e.slot = e'.slot
  · unfold Has at he he'
    rw [hslot, he'] at he
    exact (Option.some.inj (Option.some.inj he)).symm
  · have hnodup := ((contents_set_none he).map DirBaseEntry.ptr).nodup_iff.mp h.ptrs
    refine absurd ?_ (List.nodup_cons.mp hnodup).1
    refine List.mem_map.mpr ⟨e'.unplaced, mem_contents.mpr ⟨e'.slot, e', ?_, rfl⟩, hptr.symm⟩
    rw [List.getElem?_set_ne hslot]
    exact he'

theorem at?_eq_some (h : t.Ok) {ptr : Nat} {e : DirBaseEntry} :
    t.at? ptr = some e ↔ t.Has e ∧ e.ptr = ptr := by
  have hfound : ∀ {e' : DirBaseEntry}, t.at? ptr = some e' → t.Has e' ∧ e'.ptr = ptr := by
    intro e' hat
    have hfind := Option.join_eq_some_iff.mp hat
    obtain ⟨i, hi⟩ := List.getElem?_of_mem (List.mem_of_find?_eq_some hfind)
    exact ⟨h.has hi, by simpa using List.find?_some hfind⟩
  refine ⟨hfound, fun ⟨he, hptr⟩ => ?_⟩
  cases hat : t.at? ptr with
  | some e' =>
      obtain ⟨he', hptr'⟩ := hfound hat
      rw [h.eq_of_ptr he' he (hptr'.trans hptr.symm)]
  | none =>
      unfold at? at hat
      have hnone : t.dirBase.find? (fun slot => slot.any fun e => e.ptr = ptr) = none := by
        cases hfind : t.dirBase.find? (fun slot => slot.any fun e => e.ptr = ptr) with
        | none => rfl
        | some slot =>
            rw [hfind] at hat
            have hany := List.find?_some hfind
            cases slot with
            | none => contradiction
            | some e' => contradiction
      have hno := List.find?_eq_none.mp hnone (some e) (List.mem_of_getElem? he)
      exact absurd (by simpa using hptr) hno

theorem contents_free {e : DirBaseEntry} (he : t.Has e) :
    (contents t.dirBase).Perm (e.unplaced :: contents (t.free e).dirBase) :=
  contents_set_none he

theorem trim_le (dirBase : List (Option DirBaseEntry)) (n : Nat) : trim dirBase n ≤ n := by
  induction n with
  | zero => exact le_rfl
  | succ n ih =>
      unfold trim
      split
      · exact ih.trans (Nat.le_succ n)
      · exact le_rfl

theorem lt_trim {dirBase : List (Option DirBaseEntry)} {n i : Nat} {e : DirBaseEntry}
    (hi : dirBase[i]? = some (some e)) (hlt : i < n) : i < trim dirBase n := by
  induction n with
  | zero => contradiction
  | succ n ih =>
      unfold trim
      split
      next hnone =>
          rcases Nat.lt_succ_iff_lt_or_eq.mp hlt with hlt | rfl
          · exact ih hlt
          · rw [hi] at hnone
            contradiction
      next => exact hlt

theorem Ok.free (h : t.Ok) {e : DirBaseEntry} (he : t.Has e) : (t.free e).Ok := by
  have hperm := contents_free he
  have hold : ∀ (i : Nat) (e' : DirBaseEntry), (t.free e).dirBase[i]? = some (some e') →
      t.dirBase[i]? = some (some e') := by
    intro i e' hi
    change (t.dirBase.set e.slot none)[i]? = _ at hi
    rw [List.getElem?_set'] at hi
    split at hi
    next =>
        obtain ⟨_, -, hnone⟩ := Option.map_eq_some_iff.mp hi
        contradiction
    next => exact hi
  exact {
    places := fun i e' hi => h.places i e' (hold i e' hi)
    inUse := fun i e' hi => lt_trim hi (h.inUse i e' (hold i e' hi))
    bound := by
      change trim _ _ ≤ (t.dirBase.set e.slot none).length
      rw [List.length_set]
      exact (trim_le _ _).trans h.bound
    ptrs := (List.nodup_cons.mp ((hperm.map DirBaseEntry.ptr).nodup_iff.mp h.ptrs)).2
    fresh := fun e' he' => h.fresh e' (hperm.symm.subset (List.mem_cons_of_mem _ he')) }

theorem contents_touch {e : DirBaseEntry} (he : t.Has e) :
    (contents (t.touch e).1.dirBase).Perm (contents t.dirBase) := by
  unfold touch
  split
  · have hlt := (List.getElem?_eq_some_iff.mp he).1
    have hfront : (contents (toFront (t.dirBase.set e.slot none) e.slot e)).Perm
        (e.unplaced :: contents (t.dirBase.set e.slot none)) :=
      contents_toFront (List.getElem?_set_self hlt)
    exact hfront.trans (contents_set_none he).symm
  · exact .refl _

theorem Ok.touch (h : t.Ok) {e : DirBaseEntry} (he : t.Has e) : (t.touch e).1.Ok := by
  have hperm := contents_touch he
  have hptrs : ((contents (t.touch e).1.dirBase).map DirBaseEntry.ptr).Nodup :=
    (hperm.map DirBaseEntry.ptr).nodup_iff.mpr h.ptrs
  have hfresh : ∀ e' ∈ contents (t.touch e).1.dirBase, e'.ptr < t.fresh :=
    fun e' he' => h.fresh e' (hperm.subset he')
  unfold BaseTable.touch at hptrs hfresh ⊢
  split
  next hslot =>
    rw [if_pos hslot] at hptrs hfresh
    have hlt := (List.getElem?_eq_some_iff.mp he).1
    have hin : ∀ (i : Nat) (e' : DirBaseEntry), (t.dirBase.set e.slot none)[i]? = some (some e') →
        i < t.anzDbe := by
      intro i e' hi
      rw [List.getElem?_set'] at hi
      split at hi
      next =>
          obtain ⟨_, -, hnone⟩ := Option.map_eq_some_iff.mp hi
          contradiction
      next => exact h.inUse i e' hi
    exact {
      places := places_toFront (x := e) (h.places.set fun e' he' => nomatch he')
      inUse := inUse_toFront (x := e) (List.getElem?_set_self hlt) (h.inUse _ e he) hin
      bound := by
        change t.anzDbe ≤ (toFront (t.dirBase.set e.slot none) e.slot e).length
        rw [length_toFront, List.length_set]
        exact h.bound
      ptrs := hptrs
      fresh := hfresh }
  next => exact h

/-- A write that is not to the address or the place of an entry. -/
structure Mild (f : DirBaseEntry → DirBaseEntry) : Prop where
  ptr : ∀ e, (f e).ptr = e.ptr
  slot : ∀ e, (f e).slot = e.slot
  unplaced : ∀ e, (f e).unplaced = f e.unplaced

theorem getElem?_write (t : BaseTable) (ptr : Nat) (f : DirBaseEntry → DirBaseEntry) (i : Nat) :
    (t.write ptr f).dirBase[i]? =
      t.dirBase[i]?.map (Option.map fun e => if e.ptr = ptr then f e else e) := List.getElem?_map

theorem contents_write {f : DirBaseEntry → DirBaseEntry} (hf : Mild f) (ptr : Nat) :
    contents (t.write ptr f).dirBase =
      (contents t.dirBase).map fun e => if e.ptr = ptr then f e else e := by
  unfold contents unplacedSlots write
  rw [List.reduceOption_map, List.reduceOption_map, List.reduceOption_map, List.map_map,
    List.map_map]
  refine List.map_congr_left fun e _ => ?_
  change DirBaseEntry.unplaced (if e.ptr = ptr then f e else e) =
    if e.ptr = ptr then f e.unplaced else e.unplaced
  split
  · exact hf.unplaced e
  · rfl

theorem Ok.write (h : t.Ok) {f : DirBaseEntry → DirBaseEntry} (hf : Mild f) (ptr : Nat) :
    (t.write ptr f).Ok := by
  have hptrs : ∀ l : List DirBaseEntry,
      (l.map fun e => if e.ptr = ptr then f e else e).map DirBaseEntry.ptr =
        l.map DirBaseEntry.ptr := by
    intro l
    rw [List.map_map]
    refine List.map_congr_left fun e _ => ?_
    change DirBaseEntry.ptr (if e.ptr = ptr then f e else e) = e.ptr
    split
    · exact hf.ptr e
    · rfl
  have hold : ∀ (i : Nat) (e : DirBaseEntry), (t.write ptr f).dirBase[i]? = some (some e) →
      ∃ e', t.dirBase[i]? = some (some e') ∧ e.slot = e'.slot := by
    intro i e hi
    rw [getElem?_write] at hi
    obtain ⟨slot, hslot, hmap⟩ := Option.map_eq_some_iff.mp hi
    obtain ⟨e', rfl, rfl⟩ := Option.map_eq_some_iff.mp hmap
    refine ⟨e', hslot, ?_⟩
    split
    · exact hf.slot e'
    · rfl
  exact {
    places := fun i e hi => by
      obtain ⟨e', he', heq⟩ := hold i e hi
      exact heq.trans (h.places i e' he')
    inUse := fun i e hi => by
      obtain ⟨e', he', -⟩ := hold i e hi
      exact h.inUse i e' he'
    bound := by
      change t.anzDbe ≤ (t.dirBase.map _).length
      rw [List.length_map]
      exact h.bound
    ptrs := by
      rw [contents_write hf, hptrs]
      exact h.ptrs
    fresh := by
      intro e he
      rw [contents_write hf] at he
      obtain ⟨e', he', rfl⟩ := List.mem_map.mp he
      have hlt := h.fresh e' he'
      change (if e'.ptr = ptr then f e' else e').ptr < t.fresh
      split
      · rwa [hf.ptr]
      · exact hlt }

end BaseTable

end MarsNwe.NameSpace
