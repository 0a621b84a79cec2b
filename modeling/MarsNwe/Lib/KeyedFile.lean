import Mathlib.Data.List.Nodup
import Mathlib.Data.List.TakeWhile

/-! # Keyed record files

A keyed file stores at most one record under each key and walks its keys in an
order of its own, which callers must not rely on. The interface fixes what a
fetch sees after a store or a delete and that a walk meets every stored key
exactly once; nothing is said about the order of the walk.
-/

theorem List.takeWhile_congr_of_mem {α : Type} {p q : α → Bool} {l : List α}
    (h : ∀ a ∈ l, p a = q a) : l.takeWhile p = l.takeWhile q := by
  induction l with
  | nil => rfl
  | cons a l ih =>
      rw [List.takeWhile_cons, List.takeWhile_cons, h a List.mem_cons_self,
        ih fun a' ha' => h a' (List.mem_cons_of_mem _ ha')]

/-- The interface of a keyed file, with the laws its callers may use. -/
class KeyedFile (F : Type → Type → Type) where
  empty {κ ν : Type} [DecidableEq κ] : F κ ν
  fetch {κ ν : Type} [DecidableEq κ] : F κ ν → κ → Option ν
  store {κ ν : Type} [DecidableEq κ] : F κ ν → κ → ν → F κ ν
  delete {κ ν : Type} [DecidableEq κ] : F κ ν → κ → F κ ν
  keys {κ ν : Type} [DecidableEq κ] : F κ ν → List κ
  fetch_empty {κ ν : Type} [DecidableEq κ] (k : κ) : fetch (empty : F κ ν) k = none
  fetch_store {κ ν : Type} [DecidableEq κ] (f : F κ ν) (k k' : κ) (v : ν) :
    fetch (store f k v) k' = if k' = k then some v else fetch f k'
  fetch_delete {κ ν : Type} [DecidableEq κ] (f : F κ ν) (k k' : κ) :
    fetch (delete f k) k' = if k' = k then none else fetch f k'
  keys_nodup {κ ν : Type} [DecidableEq κ] (f : F κ ν) : (keys f).Nodup
  mem_keys {κ ν : Type} [DecidableEq κ] (f : F κ ν) (k : κ) :
    k ∈ keys f ↔ (fetch f k).isSome

namespace KeyedFile

attribute [simp] fetch_empty

variable {F : Type → Type → Type} [KeyedFile F] {κ ν : Type} [DecidableEq κ]

@[simp] theorem fetch_store_self (f : F κ ν) (k : κ) (v : ν) :
    fetch (store f k v) k = some v := by
  rw [fetch_store, if_pos rfl]

theorem fetch_store_of_ne (f : F κ ν) {k k' : κ} (v : ν) (hne : k' ≠ k) :
    fetch (store f k v) k' = fetch f k' := by
  rw [fetch_store, if_neg hne]

@[simp] theorem fetch_delete_self (f : F κ ν) (k : κ) : fetch (delete f k) k = none := by
  rw [fetch_delete, if_pos rfl]

theorem fetch_delete_of_ne (f : F κ ν) {k k' : κ} (hne : k' ≠ k) :
    fetch (delete f k) k' = fetch f k' := by
  rw [fetch_delete, if_neg hne]

theorem fetch_delete_eq_some {f : F κ ν} {k k' : κ} {v : ν} :
    fetch (delete f k) k' = some v ↔ k' ≠ k ∧ fetch f k' = some v := by
  rw [fetch_delete]
  split <;> simp_all

/-- The records of a file in the order of its walk. -/
def walk (f : F κ ν) : List (κ × ν) :=
  (keys f).filterMap fun k => (fetch f k).map (Prod.mk k)

@[simp] theorem mem_walk {f : F κ ν} {k : κ} {v : ν} :
    (k, v) ∈ walk f ↔ fetch f k = some v := by
  simp only [walk, List.mem_filterMap, Option.map_eq_some_iff, Prod.mk.injEq]
  constructor
  · rintro ⟨k', _, v', hfetch, rfl, rfl⟩
    exact hfetch
  · intro hfetch
    exact ⟨k, (mem_keys f k).mpr (by simp [hfetch]), v, hfetch, rfl, rfl⟩

/-- A walk meets every stored key exactly once. -/
theorem walk_keys (f : F κ ν) : (walk f).map Prod.fst = keys f := by
  have hall : ∀ ks : List κ, (∀ k ∈ ks, (fetch f k).isSome) →
      (ks.filterMap fun k => (fetch f k).map (Prod.mk k)).map Prod.fst = ks := by
    intro ks hks
    induction ks with
    | nil => rfl
    | cons k ks ih =>
        obtain ⟨v, hv⟩ := Option.isSome_iff_exists.mp (hks k List.mem_cons_self)
        have htail := ih fun k' hk' => hks k' (List.mem_cons_of_mem _ hk')
        simp only [List.filterMap_cons, hv, Option.map_some, List.map_cons, htail]
  exact hall _ fun k hk => (mem_keys f k).mp hk

theorem walk_nodup (f : F κ ν) : (walk f).Nodup := by
  apply List.Nodup.of_map Prod.fst
  rw [walk_keys]
  exact keys_nodup f

/-- A search of the walk fails exactly when no stored record satisfies the test. -/
theorem walk_find?_eq_none {f : F κ ν} {p : κ × ν → Bool} :
    (walk f).find? p = none ↔ ∀ k v, fetch f k = some v → p (k, v) = false := by
  rw [List.find?_eq_none]
  constructor
  · intro hnone k v hfetch
    exact Bool.eq_false_iff.mpr (hnone (k, v) (mem_walk.mpr hfetch))
  · rintro hnone ⟨k, v⟩ hmem
    exact Bool.eq_false_iff.mp (hnone k v (mem_walk.mp hmem))

theorem fetch_of_walk_find? {f : F κ ν} {p : κ × ν → Bool} {k : κ} {v : ν}
    (hfind : (walk f).find? p = some (k, v)) : fetch f k = some v ∧ p (k, v) = true :=
  ⟨mem_walk.mp (List.mem_of_find?_eq_some hfind), List.find?_some hfind⟩

/-- Delete keys one after the other. -/
def deleteAll (f : F κ ν) (ks : List κ) : F κ ν := ks.foldl delete f

@[simp] theorem deleteAll_nil (f : F κ ν) : deleteAll f [] = f := rfl

@[simp] theorem deleteAll_cons (f : F κ ν) (k : κ) (ks : List κ) :
    deleteAll f (k :: ks) = deleteAll (delete f k) ks := rfl

/-- Delete keys one after the other, up to the first one that has no record. -/
def deletePrefix (f : F κ ν) : List κ → F κ ν
  | [] => f
  | k :: ks => if (fetch f k).isSome then deletePrefix (delete f k) ks else f

/-- The keys that `deletePrefix` deletes: the stored ones before the first gap. -/
def storedPrefix (f : F κ ν) (ks : List κ) : List κ := ks.takeWhile fun k => (fetch f k).isSome

theorem fetch_deletePrefix {f : F κ ν} {ks : List κ} (hnodup : ks.Nodup) (k : κ) :
    fetch (deletePrefix f ks) k = if k ∈ storedPrefix f ks then none else fetch f k := by
  induction ks generalizing f with
  | nil => simp [deletePrefix, storedPrefix]
  | cons head tail ih =>
      obtain ⟨hhead, htail⟩ := List.nodup_cons.mp hnodup
      have hkeep : storedPrefix (delete f head) tail = storedPrefix f tail := by
        unfold storedPrefix
        apply List.takeWhile_congr_of_mem
        intro k' hk'
        rw [fetch_delete_of_ne f (ne_of_mem_of_not_mem hk' hhead)]
      rw [deletePrefix]
      split
      next hstored =>
        rw [ih htail, hkeep, fetch_delete, storedPrefix, storedPrefix, List.takeWhile_cons,
          if_pos hstored]
        by_cases hmem : k ∈ tail.takeWhile fun k => (fetch f k).isSome
        · simp [hmem]
        · by_cases heq : k = head <;> simp [hmem, heq]
      next hmissing =>
        rw [storedPrefix, List.takeWhile_cons, if_neg hmissing]
        simp

/-- When all keys are stored, all of them are deleted. -/
theorem storedPrefix_of_all {f : F κ ν} {ks : List κ} (hall : ∀ k ∈ ks, (fetch f k).isSome) :
    storedPrefix f ks = ks :=
  List.takeWhile_eq_self_iff.mpr hall

/-- Store records one after the other, later ones replacing earlier ones. -/
def storeAll (f : F κ ν) (rs : List (κ × ν)) : F κ ν := rs.foldl (fun f r => store f r.1 r.2) f

@[simp] theorem storeAll_nil (f : F κ ν) : storeAll f [] = f := rfl

@[simp] theorem storeAll_cons (f : F κ ν) (r : κ × ν) (rs : List (κ × ν)) :
    storeAll f (r :: rs) = storeAll (store f r.1 r.2) rs := rfl

theorem fetch_storeAll_of_notMem (f : F κ ν) {rs : List (κ × ν)} {k : κ}
    (hk : ∀ v, (k, v) ∉ rs) : fetch (storeAll f rs) k = fetch f k := by
  induction rs generalizing f with
  | nil => rfl
  | cons r rs ih =>
      have hne : k ≠ r.1 := fun heq => hk r.2 (by simp [heq])
      rw [storeAll_cons, ih _ fun v hv => hk v (List.mem_cons_of_mem _ hv),
        fetch_store_of_ne _ _ hne]

/-- When no key is written twice, a stored record is what a fetch sees. -/
theorem fetch_storeAll_of_mem (f : F κ ν) {rs : List (κ × ν)} {k : κ} {v : ν}
    (hnodup : (rs.map Prod.fst).Nodup) (hmem : (k, v) ∈ rs) :
    fetch (storeAll f rs) k = some v := by
  induction rs generalizing f with
  | nil => simp at hmem
  | cons r rs ih =>
      obtain ⟨hhead, htail⟩ := List.nodup_cons.mp hnodup
      rw [storeAll_cons]
      rcases List.mem_cons.mp hmem with rfl | hrest
      · have hfresh : ∀ v', (k, v') ∉ rs := fun v' hv' =>
          hhead (List.mem_map.mpr ⟨(k, v'), hv', rfl⟩)
        rw [fetch_storeAll_of_notMem _ hfresh]
        exact fetch_store_self _ _ _
      · exact ih _ htail hrest

/-- What a fetch sees was written last, or stood there before. -/
theorem fetch_storeAll_cases (f : F κ ν) (rs : List (κ × ν)) (k : κ) :
    (fetch (storeAll f rs) k = fetch f k ∧ ∀ v, (k, v) ∉ rs) ∨
      ∃ v, (k, v) ∈ rs ∧ fetch (storeAll f rs) k = some v := by
  induction rs generalizing f with
  | nil => exact .inl ⟨rfl, fun _ => List.not_mem_nil⟩
  | cons r rs ih =>
      rw [storeAll_cons]
      rcases ih (store f r.1 r.2) with ⟨hfetch, hnot⟩ | ⟨v, hmem, hfetch⟩
      · by_cases hk : k = r.1
        · subst hk
          exact .inr ⟨r.2, List.mem_cons_self, by rw [hfetch, fetch_store_self]⟩
        · apply Or.inl
          refine ⟨by rw [hfetch, fetch_store_of_ne _ _ hk], fun v hmem => ?_⟩
          rcases List.mem_cons.mp hmem with heq | hmem
          · exact hk (congrArg Prod.fst heq)
          · exact hnot v hmem
      · exact .inr ⟨v, List.mem_cons_of_mem _ hmem, hfetch⟩

/-- Records with one value for each key, written to an empty file, are what it
holds afterwards. -/
theorem fetch_storeAll_empty {rs : List (κ × ν)}
    (huniq : ∀ k v v', (k, v) ∈ rs → (k, v') ∈ rs → v = v') (k : κ) (v : ν) :
    fetch (storeAll (empty : F κ ν) rs) k = some v ↔ (k, v) ∈ rs := by
  rcases fetch_storeAll_cases (empty : F κ ν) rs k with ⟨hfetch, hnot⟩ | ⟨v', hmem, hfetch⟩
  · rw [hfetch, fetch_empty]
    exact iff_of_false (by simp) (hnot v)
  · rw [hfetch, Option.some.injEq]
    constructor
    · intro heq
      exact heq ▸ hmem
    · intro hv
      exact huniq k v' v hmem hv

/-- Copying the walk of one file into an empty file copies every record. -/
theorem fetch_storeAll_walk {G : Type → Type → Type} [KeyedFile G] (g : G κ ν) (k : κ) :
    fetch (storeAll (empty : F κ ν) (walk g)) k = fetch g k := by
  cases hfetch : fetch g k with
  | some v =>
      apply fetch_storeAll_of_mem
      · rw [walk_keys]
        exact keys_nodup g
      · exact mem_walk.mpr hfetch
  | none =>
      rw [fetch_storeAll_of_notMem, fetch_empty]
      intro v hmem
      rw [mem_walk, hfetch] at hmem
      contradiction

end KeyedFile

/-- Two files hold the same records, whatever the order of their walks. -/
def SameRecords {F G : Type → Type → Type} [KeyedFile F] [KeyedFile G] {κ ν : Type}
    [DecidableEq κ] (f : F κ ν) (g : G κ ν) : Prop :=
  ∀ k, KeyedFile.fetch f k = KeyedFile.fetch g k

/-! ## Association lists as keyed files -/

/-- A keyed file kept as a list of records that never holds a key twice. -/
structure ListFile (κ ν : Type) where
  records : List (κ × ν)
  nodup : (records.map Prod.fst).Nodup

namespace ListFile

variable {κ ν : Type} [DecidableEq κ]

/-- The record found first under a key. -/
def search (k : κ) : List (κ × ν) → Option ν
  | [] => none
  | r :: rs => if k = r.1 then some r.2 else search k rs

/-- Replace the record of a key in place, or append it. -/
def put (k : κ) (v : ν) : List (κ × ν) → List (κ × ν)
  | [] => [(k, v)]
  | r :: rs => if k = r.1 then (k, v) :: rs else r :: put k v rs

theorem put_keys (k : κ) (v : ν) (rs : List (κ × ν)) :
    (put k v rs).map Prod.fst =
      if k ∈ rs.map Prod.fst then rs.map Prod.fst else rs.map Prod.fst ++ [k] := by
  induction rs with
  | nil => rfl
  | cons r rs ih =>
      by_cases heq : k = r.1
      · simp [put, heq]
      · rw [put, if_neg heq, List.map_cons, ih]
        by_cases hmem : k ∈ rs.map Prod.fst
        · simp [hmem]
        · rw [if_neg hmem, List.map_cons, if_neg (fun h => (List.mem_cons.mp h).elim heq hmem),
            List.cons_append]

theorem search_put (k k' : κ) (v : ν) (rs : List (κ × ν)) :
    search k' (put k v rs) = if k' = k then some v else search k' rs := by
  induction rs with
  | nil => rfl
  | cons r rs ih =>
      by_cases heq : k = r.1
      · by_cases hk : k' = k <;> simp_all [put, search]
      · by_cases hr : k' = r.1
        · have hne : k' ≠ k := fun h => heq (h ▸ hr)
          simp [put, search, heq, hr, Ne.symm heq]
        · simp [put, search, heq, hr, ih]

theorem search_filter (k k' : κ) (rs : List (κ × ν)) :
    search k' (rs.filter fun r => r.1 ≠ k) = if k' = k then none else search k' rs := by
  induction rs with
  | nil => simp [search]
  | cons r rs ih =>
      by_cases hr : r.1 = k
      · by_cases hk : k' = k <;> simp_all [search]
      · by_cases hk : k' = r.1
        · simp [search, hr, hk]
        · simp_all [search]

theorem mem_keys_iff (k : κ) (rs : List (κ × ν)) :
    k ∈ rs.map Prod.fst ↔ (search k rs).isSome := by
  induction rs with
  | nil => simp [search]
  | cons r rs ih =>
      by_cases hk : k = r.1
      · simp [search, hk]
      · rw [List.map_cons, List.mem_cons, or_iff_right hk, ih, search, if_neg hk]

theorem put_nodup (k : κ) (v : ν) {rs : List (κ × ν)} (h : (rs.map Prod.fst).Nodup) :
    ((put k v rs).map Prod.fst).Nodup := by
  rw [put_keys]
  split
  next => exact h
  next hnot =>
    refine List.nodup_append.mpr ⟨h, List.nodup_singleton k, ?_⟩
    intro a ha b hb heq
    rw [List.mem_singleton] at hb
    exact hnot (hb ▸ heq ▸ ha)

instance : KeyedFile ListFile where
  empty := ⟨[], List.nodup_nil⟩
  fetch f k := search k f.records
  store f k v := ⟨put k v f.records, put_nodup k v f.nodup⟩
  delete f k := ⟨f.records.filter fun r => r.1 ≠ k,
    f.nodup.sublist (List.filter_sublist.map Prod.fst)⟩
  keys f := f.records.map Prod.fst
  fetch_empty _ := rfl
  fetch_store f k k' v := search_put k k' v f.records
  fetch_delete f k k' := search_filter k k' f.records
  keys_nodup f := f.nodup
  mem_keys f k := mem_keys_iff k f.records

end ListFile
