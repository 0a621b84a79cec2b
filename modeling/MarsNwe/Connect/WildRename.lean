import MarsNwe.Connect.PathOps

/-! # Renaming by a pattern

The loop of `do_mv_file` writes the new name over the destination pattern it was
copied from, and puts the pattern back afterwards. The name it makes is compared
with the one that the parts of name and pattern give.
-/

namespace MarsNwe

/-! ## The code on its buffers -/

/-- `destpath.fn`, a terminated string. -/
structure FnBuf where
  bytes : List UInt8
  length_eq : bytes.length = 256
  terminated : (0 : UInt8) ∈ bytes

/-- The loop over the saved pattern: `topath` is the place in `fn` that is written
next. -/
def mvFileLoop : (otopath frompath : List UInt8) → (topath : Nat) → (fn : List UInt8) →
    Nat × List UInt8
  | [], _, topath, fn => (topath, fn)
  | c :: otopath, frompath, topath, fn =>
      if isQuery c then
        match frompath with
        | [] => mvFileLoop otopath [] topath fn
        | d :: rest =>
            if isPoint d then mvFileLoop otopath frompath topath fn
            else mvFileLoop otopath rest (topath + 1) (fn.set topath d)
      else if isPoint c then
        let frompath := (frompath.dropWhile fun c => ¬isPoint c).tail
        -- a point is not written at the end
        if otopath = [] then mvFileLoop otopath frompath topath fn
        else mvFileLoop otopath frompath (topath + 1) (fn.set topath 0x2e)
      else mvFileLoop otopath (skipOne frompath) (topath + 1) (fn.set topath c)

/-- The name that `do_mv_file` makes in `fn`, and `fn` after it has been put back. -/
def mvFileName (fn frompath : List UInt8) : List UInt8 × List UInt8 :=
  let saved := (CText.visible fn).take 255
  let (topath, made) := mvFileLoop saved frompath 0 fn
  let made := made.set topath 0
  (CText.visible made, saved ++ 0 :: made.drop (saved.length + 1))

theorem take_set_succ {l : List UInt8} {k : Nat} (h : k < l.length) (c : UInt8) :
    (l.set k c).take (k + 1) = l.take k ++ [c] := by
  rw [List.take_succ_eq_append_getElem (by rwa [List.length_set]), List.getElem_set_self,
    List.take_set_of_le (Nat.le_refl k)]

/-- What the loop writes from `topath` on is the name with its wildcards filled in. -/
theorem mvFileLoop_spec (otopath frompath : List UInt8) (topath : Nat) (fn : List UInt8)
    (hroom : topath + otopath.length ≤ fn.length) :
    let r := mvFileLoop otopath frompath topath fn
    r.2.length = fn.length ∧ r.1 ≤ topath + otopath.length ∧
      r.2.take r.1 = fn.take topath ++ wildName otopath frompath := by
  induction otopath generalizing frompath topath fn with
  | nil => exact ⟨rfl, Nat.le_refl _, by simp [mvFileLoop, wildName]⟩
  | cons c otopath ih =>
      rw [List.length_cons] at hroom
      -- one character is written, or none
      have hwrite : ∀ (d : UInt8) (frompath : List UInt8),
          let r := mvFileLoop otopath frompath (topath + 1) (fn.set topath d)
          r.2.length = fn.length ∧ r.1 ≤ topath + (otopath.length + 1) ∧
            r.2.take r.1 = fn.take topath ++ d :: wildName otopath frompath := by
        intro d frompath
        obtain ⟨hlen, hle, htake⟩ := ih frompath (topath + 1) (fn.set topath d)
          (by rw [List.length_set]; omega)
        refine ⟨by rw [hlen, List.length_set], by omega, ?_⟩
        rw [htake, take_set_succ (by omega), List.append_assoc, List.singleton_append]
      have hskip : ∀ frompath : List UInt8,
          let r := mvFileLoop otopath frompath topath fn
          r.2.length = fn.length ∧ r.1 ≤ topath + (otopath.length + 1) ∧
            r.2.take r.1 = fn.take topath ++ wildName otopath frompath := by
        intro frompath
        obtain ⟨hlen, hle, htake⟩ := ih frompath topath fn (by omega)
        exact ⟨hlen, by omega, htake⟩
      dsimp only
      rw [mvFileLoop.eq_def, wildName, List.length_cons]
      dsimp only
      by_cases hquery : isQuery c
      · rw [if_pos hquery, if_pos hquery]
        cases frompath with
        | nil => exact hskip []
        | cons d rest =>
            by_cases hpoint : isPoint d
            · simp only [hpoint, if_true, List.head?_cons, skipOne, Option.filter_some,
                Option.any_some, not_true_eq_false, decide_false, Bool.false_eq_true, if_false]
              exact hskip (d :: rest)
            · simp only [hpoint, if_false, List.head?_cons, skipOne, Option.filter_some,
                Option.any_some, not_false_eq_true, decide_true, if_true, List.tail_cons]
              exact hwrite d rest
      · rw [if_neg hquery, if_neg hquery]
        by_cases hpoint : isPoint c
        · rw [if_pos hpoint, if_pos hpoint]
          by_cases hend : otopath = []
          · simp only [if_pos hend]
            exact hskip _
          · simp only [if_neg hend]
            exact hwrite 0x2e _
        · rw [if_neg hpoint, if_neg hpoint]
          exact hwrite c _

theorem mem_wildName {otopath frompath : List UInt8} {c : UInt8}
    (hc : c ∈ wildName otopath frompath) : c ∈ otopath ∨ c ∈ frompath ∨ c = 0x2e := by
  induction otopath generalizing frompath with
  | nil => exact absurd hc List.not_mem_nil
  | cons d otopath ih =>
      have hskip : skipOne frompath ⊆ frompath := by
        unfold skipOne
        split
        · exact List.tail_subset frompath
        · exact List.Subset.refl frompath
      have hrest : ∀ from', from' ⊆ frompath → c ∈ wildName otopath from' →
          c ∈ d :: otopath ∨ c ∈ frompath ∨ c = 0x2e := by
        intro from' hsub hmem
        rcases ih hmem with hto | hfrom | hdot
        · exact .inl (List.mem_cons_of_mem d hto)
        · exact .inr (.inl (hsub hfrom))
        · exact .inr (.inr hdot)
      rw [wildName] at hc
      split at hc
      · rcases List.mem_append.mp hc with hhead | hmem
        · refine .inr (.inl ?_)
          rw [Option.mem_toList, Option.filter_eq_some_iff] at hhead
          exact List.mem_of_mem_head? hhead.1
        · exact hrest _ hskip hmem
      · have hdrop : (frompath.dropWhile fun c => ¬isPoint c).tail ⊆ frompath :=
          ((List.tail_sublist _).trans (List.dropWhile_sublist _)).subset
        split at hc
        · dsimp only at hc
          split at hc
          · exact hrest _ hdrop hc
          · rcases List.mem_cons.mp hc with rfl | hmem
            · exact .inr (.inr rfl)
            · exact hrest _ hdrop hmem
        · rcases List.mem_cons.mp hc with rfl | hmem
          · exact .inl List.mem_cons_self
          · exact hrest _ hskip hmem

theorem FnBuf.length_visible_lt (fn : FnBuf) : (CText.visible fn.bytes).length < 256 := by
  by_contra hge
  have heq : CText.visible fn.bytes = fn.bytes :=
    (List.takeWhile_prefix _).eq_of_length_le (by rw [fn.length_eq]; exact not_lt.mp hge)
  apply CText.noNul_visible fn.bytes
  rw [heq]
  exact fn.terminated

/-- The whole pattern is saved. -/
theorem FnBuf.saved_eq (fn : FnBuf) : (CText.visible fn.bytes).take 255 = CText.visible fn.bytes :=
  List.take_of_length_le (Nat.le_of_lt_succ fn.length_visible_lt)

/-- The loop stays inside the buffer. -/
theorem FnBuf.loop_spec (fn : FnBuf) (frompath : List UInt8) :
    let r := mvFileLoop (CText.visible fn.bytes) frompath 0 fn.bytes
    r.2.length = 256 ∧ r.1 ≤ (CText.visible fn.bytes).length ∧
      r.2.take r.1 = wildName (CText.visible fn.bytes) frompath := by
  have hlt := fn.length_visible_lt
  obtain ⟨hlen, hle, htake⟩ := mvFileLoop_spec (CText.visible fn.bytes) frompath 0 fn.bytes
    (by rw [fn.length_eq]; omega)
  rw [fn.length_eq] at hlen
  rw [List.take_zero, List.nil_append] at htake
  exact ⟨hlen, by omega, htake⟩

/-- The name that is made is the one that the wildcards give. -/
theorem mvFileName_fst (fn : FnBuf) {frompath : List UInt8} (hfrom : (0 : UInt8) ∉ frompath) :
    (mvFileName fn.bytes frompath).1 = wildName (CText.visible fn.bytes) frompath := by
  have hlt := fn.length_visible_lt
  obtain ⟨hlen, hle, htake⟩ := fn.loop_spec frompath
  have hname : (0 : UInt8) ∉ wildName (CText.visible fn.bytes) frompath := by
    intro hmem
    rcases mem_wildName hmem with hto | hmem | hdot
    · exact CText.noNul_visible fn.bytes hto
    · exact hfrom hmem
    · cases hdot
  unfold mvFileName
  rw [fn.saved_eq]
  dsimp only
  generalize mvFileLoop (CText.visible fn.bytes) frompath 0 fn.bytes = r at hlen hle htake
  have hset : r.2.set r.1 0 = r.2.take r.1 ++ 0 :: r.2.drop (r.1 + 1) :=
    List.set_eq_take_cons_drop _ (by omega)
  rw [hset, htake]
  exact CText.visible_append_zero hname

/-- What `fn` holds after the rename of a file. -/
def FnBuf.afterRename (fn : FnBuf) (frompath : List UInt8) : FnBuf where
  bytes := (mvFileName fn.bytes frompath).2
  length_eq := by
    have hlt := fn.length_visible_lt
    have hlen := (fn.loop_spec frompath).1
    unfold mvFileName
    rw [fn.saved_eq]
    dsimp only at hlen ⊢
    rw [List.length_append, List.length_cons, List.length_drop, List.length_set]
    omega
  terminated := List.mem_append_right _ List.mem_cons_self

/-- The pattern is back in its place. -/
theorem FnBuf.visible_afterRename (fn : FnBuf) (frompath : List UInt8) :
    CText.visible (fn.afterRename frompath).bytes = CText.visible fn.bytes := by
  change CText.visible ((CText.visible fn.bytes).take 255 ++ _) = _
  rw [fn.saved_eq]
  exact CText.visible_append_zero (CText.noNul_visible fn.bytes)

/-! ## What a pattern makes of a name -/

/-- The parts of a name between its points. -/
def nameParts (name : List UInt8) : List (List UInt8) := name.splitOnP fun c => isPoint c

/-- A part of a name by a part of a pattern: a question mark stands for the character
in its place, or for nothing behind the end of the part. -/
def mergePart : (pattern part : List UInt8) → List UInt8
  | [], _ => []
  | c :: pattern, part =>
      if isQuery c then part.head?.toList ++ mergePart pattern part.tail
      else c :: mergePart pattern part.tail

/-- The parts of a pattern by the parts of a name in the same places. -/
def mergeParts : (pattern parts : List (List UInt8)) → List (List UInt8)
  | [], _ => []
  | p :: pattern, parts => mergePart p (parts.headD []) :: mergeParts pattern parts.tail

/-- Parts joined with points. An empty last part is left out with its point. -/
def joinParts : List (List UInt8) → List UInt8
  | [] => []
  | r :: rs => if rs = [] ∨ rs = [[]] then r else r ++ 0x2e :: joinParts rs

/-- The name that a rename to a pattern gives to a file. -/
def dosRename (pattern name : List UInt8) : List UInt8 :=
  joinParts (mergeParts (nameParts pattern) (nameParts name))

/-- A name of up to 8 characters, or one with a point and up to 3 characters more. -/
structure Name83 where
  base : List UInt8
  ext : List UInt8
  base_pos : base ≠ []
  base_le : base.length ≤ 8
  ext_le : ext.length ≤ 3
  noPoint : ∀ c ∈ base ++ ext, ¬isPoint c
  noNul : (0 : UInt8) ∉ base ++ ext

/-- The point stands before an extension only. -/
def Name83.bytes (n : Name83) : List UInt8 :=
  if n.ext = [] then n.base else n.base ++ 0x2e :: n.ext

/-- The last of several parts of the pattern is of question marks only, and the name
has no such part. -/
def LeavesPoint (pattern name : List UInt8) : Prop :=
  ∃ before queries, nameParts pattern = before ++ [queries] ∧ before ≠ [] ∧ queries ≠ [] ∧
    (∀ c ∈ queries, isQuery c) ∧ (nameParts name).length ≤ before.length

/-- The rename of one file after the other with the same pattern. -/
def renameMachine : Machine FnBuf Name83 (List UInt8) where
  step fn name := ((mvFileName fn.bytes name.bytes).1, fn.afterRename name.bytes)

/-- What `wildName` makes of the parts: it leaves the last point out where the
pattern ends. -/
def wildParts : (pattern parts : List (List UInt8)) → List UInt8
  | [], _ => []
  | p :: pattern, parts =>
      if pattern = [] ∨ pattern = [[]] then mergePart p (parts.headD [])
      else mergePart p (parts.headD []) ++ 0x2e :: wildParts pattern parts.tail

theorem nameParts_nil : nameParts [] = [[]] := List.splitOnP_nil

theorem nameParts_point {c : UInt8} (hc : isPoint c) (s : List UInt8) :
    nameParts (c :: s) = [] :: nameParts s := by
  rw [nameParts, List.splitOnP_cons_eq_if_modifyHead, if_pos (decide_eq_true hc), nameParts]

theorem nameParts_cons {c : UInt8} (hc : ¬isPoint c) (s : List UInt8) :
    nameParts (c :: s) = (nameParts s).modifyHead (List.cons c) := by
  rw [nameParts, List.splitOnP_cons_eq_if_modifyHead, if_neg (by simpa using hc), nameParts]

theorem nameParts_ne_nil (s : List UInt8) : nameParts s ≠ [] := List.splitOnP_ne_nil _ s

theorem nameParts_eq_singleton_nil {s : List UInt8} : nameParts s = [[]] ↔ s = [] := by
  constructor
  · intro h
    cases s with
    | nil => rfl
    | cons c s =>
        by_cases hc : isPoint c
        · rw [nameParts_point hc] at h
          exact absurd (List.cons.inj h).2 (nameParts_ne_nil s)
        · rw [nameParts_cons hc] at h
          obtain ⟨p, ps, hps⟩ := List.exists_cons_of_ne_nil (nameParts_ne_nil s)
          rw [hps] at h
          cases h
  · rintro rfl
    exact nameParts_nil

/-- The parts behind the first point. -/
theorem nameParts_drop (s : List UInt8) :
    (nameParts s).tail = [] ∧ (s.dropWhile fun c => ¬isPoint c).tail = [] ∨
      nameParts (s.dropWhile fun c => ¬isPoint c).tail = (nameParts s).tail := by
  induction s with
  | nil => exact .inl ⟨rfl, rfl⟩
  | cons c s ih =>
      by_cases hc : isPoint c
      · refine .inr ?_
        rw [nameParts_point hc, List.dropWhile_cons_of_neg (by simpa using hc)]
        rfl
      · rw [nameParts_cons hc, List.dropWhile_cons_of_pos (by simpa using hc)]
        obtain ⟨p, ps, hps⟩ := List.exists_cons_of_ne_nil (nameParts_ne_nil s)
        rw [hps] at ih ⊢
        exact ih

/-- What is left of the first part when a character is skipped. -/
theorem nameParts_skipOne (s : List UInt8) :
    (nameParts (skipOne s)).headD [] = ((nameParts s).headD []).tail ∧
      (nameParts (skipOne s)).tail = (nameParts s).tail := by
  cases s with
  | nil => exact ⟨rfl, rfl⟩
  | cons c s =>
      by_cases hc : isPoint c
      · have hskip : skipOne (c :: s) = c :: s := by simp [skipOne, hc]
        rw [hskip, nameParts_point hc]
        exact ⟨rfl, rfl⟩
      · have hskip : skipOne (c :: s) = s := by simp [skipOne, hc]
        obtain ⟨p, ps, hps⟩ := List.exists_cons_of_ne_nil (nameParts_ne_nil s)
        rw [hskip, nameParts_cons hc, hps]
        exact ⟨rfl, rfl⟩

/-- The first character of a name, unless that is a point, starts its first part. -/
theorem nameParts_head? (s : List UInt8) :
    (s.head?.filter fun c => ¬isPoint c) = ((nameParts s).headD []).head? := by
  cases s with
  | nil => rfl
  | cons c s =>
      by_cases hc : isPoint c
      · rw [nameParts_point hc]
        simp [hc]
      · obtain ⟨p, ps, hps⟩ := List.exists_cons_of_ne_nil (nameParts_ne_nil s)
        rw [nameParts_cons hc, hps]
        simp [hc]

theorem wildParts_nil (ps : List (List UInt8)) : wildParts ps [] = wildParts ps [[]] := by
  cases ps <;> rfl

/-- A character in front of the first part of the pattern. -/
theorem wildParts_cons {c : UInt8} {x p : List UInt8} {ps ss ss' : List (List UInt8)}
    (hhead : mergePart (c :: p) (ss.headD []) = x ++ mergePart p (ss'.headD []))
    (htail : ss'.tail = ss.tail) :
    wildParts ((c :: p) :: ps) ss = x ++ wildParts (p :: ps) ss' := by
  rw [wildParts, wildParts, hhead, htail]
  split
  · rfl
  · rw [List.append_assoc]

/-- The loop works part by part. -/
theorem wildName_eq_wildParts (otopath frompath : List UInt8) :
    wildName otopath frompath = wildParts (nameParts otopath) (nameParts frompath) := by
  induction otopath generalizing frompath with
  | nil => rfl
  | cons c otopath ih =>
      obtain ⟨p, ps, hps⟩ := List.exists_cons_of_ne_nil (nameParts_ne_nil otopath)
      obtain ⟨hskip, htail⟩ := nameParts_skipOne frompath
      rw [wildName]
      by_cases hquery : isQuery c
      · have hpoint : ¬isPoint c := by
          rcases hquery with rfl | rfl <;> decide
        rw [if_pos hquery, nameParts_cons hpoint, hps, List.modifyHead_cons, nameParts_head?, ih,
          hps]
        refine (wildParts_cons ?_ htail).symm
        rw [mergePart, if_pos hquery, hskip]
      · rw [if_neg hquery]
        by_cases hpoint : isPoint c
        · rw [if_pos hpoint, nameParts_point hpoint, wildParts]
          by_cases hend : otopath = []
          · subst hend
            rfl
          · have hmore : ¬(nameParts otopath = [] ∨ nameParts otopath = [[]]) := by
              rw [nameParts_eq_singleton_nil, not_or]
              exact ⟨nameParts_ne_nil otopath, hend⟩
            rw [if_neg hmore]
            dsimp only
            rw [if_neg hend, ih]
            rcases nameParts_drop frompath with ⟨hnone, hnil⟩ | hdrop
            · rw [hnone, hnil, wildParts_nil, nameParts_nil]
              rfl
            · rw [hdrop]
              rfl
        · rw [if_neg hpoint, nameParts_cons hpoint, hps, List.modifyHead_cons, ih, hps,
            ← List.singleton_append]
          refine (wildParts_cons ?_ htail).symm
          rw [mergePart, if_neg hquery, hskip, List.singleton_append]

/-! ## Points that are left at the end -/

theorem mergePart_nil {q : List UInt8} : mergePart q [] = [] ↔ ∀ c ∈ q, isQuery c := by
  induction q with
  | nil => simp [mergePart]
  | cons c q ih =>
      rw [mergePart]
      by_cases hquery : isQuery c
      · rw [if_pos hquery, List.forall_mem_cons, and_iff_right hquery, ← ih]
        rfl
      · rw [if_neg hquery, List.forall_mem_cons]
        exact iff_of_false (List.cons_ne_nil _ _) fun h => hquery h.1

/-- Question marks come to nothing where the name has nothing. -/
theorem mergePart_eq_nil {q part : List UInt8} (hq : q ≠ []) :
    mergePart q part = [] ↔ (∀ c ∈ q, isQuery c) ∧ part = [] := by
  cases part with
  | nil => rw [mergePart_nil, and_iff_left rfl]
  | cons d part =>
      refine iff_of_false ?_ fun h => List.cons_ne_nil _ _ h.2
      cases q with
      | nil => exact absurd rfl hq
      | cons c q =>
          rw [mergePart]
          split <;> exact List.cons_ne_nil _ _

theorem getD_succ (ss : List (List UInt8)) (n : Nat) :
    ss.getD (n + 1) [] = ss.tail.getD n [] := by
  cases ss <;> rfl

/-- Some last part comes to nothing, in the list from its second part on. -/
theorem lastNothing_cons {p : List UInt8} {ps ss : List (List UInt8)} :
    (∃ before q, p :: ps = before ++ [q] ∧ before ≠ [] ∧ q ≠ [] ∧
      mergePart q (ss.getD before.length []) = []) ↔
    ∃ before q, ps = before ++ [q] ∧ q ≠ [] ∧ mergePart q (ss.tail.getD before.length []) = [] := by
  constructor
  · rintro ⟨before, q, heq, hne, hq, hmerge⟩
    cases before with
    | nil => exact absurd rfl hne
    | cons p' before =>
        rw [List.length_cons, getD_succ] at hmerge
        exact ⟨before, q, (List.cons.inj heq).2, hq, hmerge⟩
  · rintro ⟨before, q, rfl, hq, hmerge⟩
    exact ⟨p :: before, q, rfl, List.cons_ne_nil _ _, hq, by
      rwa [List.length_cons, getD_succ]⟩

/-- The loop and the rename differ where a last part comes to nothing. -/
theorem wildParts_eq_joinParts_iff (ps ss : List (List UInt8)) :
    wildParts ps ss = joinParts (mergeParts ps ss) ↔
      ¬∃ before q, ps = before ++ [q] ∧ before ≠ [] ∧ q ≠ [] ∧
        mergePart q (ss.getD before.length []) = [] := by
  induction ps generalizing ss with
  | nil =>
      refine iff_of_true rfl ?_
      rintro ⟨before, q, heq, -⟩
      simpa using congrArg List.length heq
  | cons p ps ih =>
      rw [lastNothing_cons]
      match ps, ih with
      | [], _ =>
          refine iff_of_true rfl ?_
          rintro ⟨before, q, heq, -⟩
          simpa using congrArg List.length heq
      | [q], _ =>
          have hlast : (∃ before q', [q] = before ++ [q'] ∧ q' ≠ [] ∧
              mergePart q' (ss.tail.getD before.length []) = []) ↔
              q ≠ [] ∧ mergePart q (ss.tail.headD []) = [] := by
            constructor
            · rintro ⟨before, q', heq, hq, hmerge⟩
              obtain ⟨rfl, rfl⟩ : before = [] ∧ q' = q := by
                cases before with
                | nil => exact ⟨rfl, (List.cons.inj heq).1.symm⟩
                | cons b before => simpa using congrArg List.length heq
              rw [List.length_nil, ← List.headD_eq_getD] at hmerge
              exact ⟨hq, hmerge⟩
            · rintro ⟨hq, hmerge⟩
              exact ⟨[], q, rfl, hq, by rwa [List.length_nil, ← List.headD_eq_getD]⟩
          rw [hlast, wildParts, mergeParts, mergeParts, mergeParts, joinParts]
          by_cases hq : q = []
          · subst hq
            exact iff_of_true rfl fun h => h.1 rfl
          · have hmore : ¬([q] = [] ∨ [q] = [[]]) := by simpa using hq
            rw [if_neg hmore, and_iff_right hq]
            by_cases hmerge : mergePart q (ss.tail.headD []) = []
            · rw [hmerge, if_pos (.inr rfl)]
              refine iff_of_false (fun h => ?_) (not_not_intro rfl)
              simpa using congrArg List.length h
            · rw [if_neg (by simpa using hmerge)]
              exact iff_of_true rfl hmerge
      | q :: q' :: rest, ih =>
          have hwild : wildParts (p :: q :: q' :: rest) ss =
              mergePart p (ss.headD []) ++ 0x2e :: wildParts (q :: q' :: rest) ss.tail := by
            rw [wildParts, if_neg (by simp)]
          have hjoin : joinParts (mergeParts (p :: q :: q' :: rest) ss) =
              mergePart p (ss.headD []) ++
                0x2e :: joinParts (mergeParts (q :: q' :: rest) ss.tail) := by
            rw [mergeParts, joinParts, if_neg (by simp [mergeParts])]
          rw [hwild, hjoin, List.append_cancel_left_eq, List.cons.injEq, and_iff_right rfl, ih]
          -- two parts are left: the last one is not the first
          refine not_congr (exists_congr fun before => exists_congr fun last =>
            and_congr_right fun heq => and_iff_right_of_imp fun _ => ?_)
          rintro rfl
          simpa using congrArg List.length heq

theorem nameParts_noPoint {s : List UInt8} (hs : ∀ c ∈ s, ¬isPoint c) : nameParts s = [s] :=
  List.splitOnP_eq_singleton fun c hc => by simpa using hs c hc

theorem Name83.nameParts_bytes (n : Name83) :
    nameParts n.bytes = n.base :: if n.ext = [] then [] else [n.ext] := by
  have hbase : ∀ c ∈ n.base, ¬isPoint c := fun c hc => n.noPoint c (List.mem_append_left _ hc)
  have hext : ∀ c ∈ n.ext, ¬isPoint c := fun c hc => n.noPoint c (List.mem_append_right _ hc)
  unfold Name83.bytes
  split
  · exact nameParts_noPoint hbase
  · rw [nameParts, List.splitOnP_append_cons _ _ (by decide),
      List.splitOnP_eq_singleton fun c hc => by simpa using hbase c hc]
    exact congrArg (n.base :: ·) (nameParts_noPoint hext)

theorem Name83.part_ne_nil (n : Name83) : ∀ part ∈ nameParts n.bytes, part ≠ [] := by
  intro part hpart
  rw [n.nameParts_bytes] at hpart
  rcases List.mem_cons.mp hpart with rfl | hpart
  · exact n.base_pos
  · split at hpart
    · cases hpart
    · rw [List.mem_singleton.mp hpart]
      assumption

theorem Name83.noNul_bytes (n : Name83) : (0 : UInt8) ∉ n.bytes := by
  have hnul := n.noNul
  unfold Name83.bytes
  split
  · exact fun hmem => hnul (List.mem_append_left _ hmem)
  · simp only [List.mem_append, List.mem_cons, not_or] at hnul ⊢
    exact ⟨hnul.1, by decide, hnul.2⟩

/-- There is nothing at a place behind the last part, and there alone. -/
theorem Name83.getD_eq_nil (n : Name83) (k : Nat) :
    (nameParts n.bytes).getD k [] = [] ↔ (nameParts n.bytes).length ≤ k := by
  constructor
  · intro hnil
    by_contra hlt
    rw [not_le] at hlt
    rw [List.getD_eq_getElem?_getD, List.getElem?_eq_getElem hlt, Option.getD_some] at hnil
    exact n.part_ne_nil _ (List.getElem_mem hlt) hnil
  · intro hle
    rw [List.getD_eq_getElem?_getD, List.getElem?_eq_none hle, Option.getD_none]

/-- The code makes the name of the rename unless it leaves a point at the end. -/
theorem wildName_eq_dosRename_iff (pattern : List UInt8) (n : Name83) :
    wildName pattern n.bytes = dosRename pattern n.bytes ↔ ¬LeavesPoint pattern n.bytes := by
  rw [wildName_eq_wildParts, dosRename, wildParts_eq_joinParts_iff]
  refine not_congr (exists_congr fun before => exists_congr fun queries =>
    and_congr_right fun _ => and_congr_right fun _ => and_congr_right fun hqueries => ?_)
  rw [mergePart_eq_nil hqueries, n.getD_eq_nil]

/-! ## Patterns of question marks, and patterns without any -/

theorem mergePart_replicate {k : Nat} {part : List UInt8} (hlen : part.length ≤ k) :
    mergePart (List.replicate k 0x3f) part = part := by
  induction k generalizing part with
  | zero => rw [List.length_eq_zero_iff.mp (Nat.le_zero.mp hlen)]; rfl
  | succ k ih =>
      rw [List.replicate_succ, mergePart, if_pos (.inl rfl)]
      cases part with
      | nil => exact ih (Nat.zero_le k)
      | cons c part => exact congrArg (c :: ·) (ih (Nat.le_of_succ_le_succ hlen))

/-- `????????.???` -/
def anyName83 : List UInt8 := List.replicate 8 0x3f ++ 0x2e :: List.replicate 3 0x3f

theorem dosRename_anyName83 (n : Name83) : dosRename anyName83 n.bytes = n.bytes := by
  have hparts : nameParts anyName83 = [List.replicate 8 0x3f, List.replicate 3 0x3f] := by decide
  rw [dosRename, hparts, n.nameParts_bytes]
  simp only [mergeParts, joinParts, List.headD_cons, List.tail_cons]
  rw [mergePart_replicate n.base_le]
  unfold Name83.bytes
  by_cases hext : n.ext = []
  · rw [if_pos hext, if_pos hext]
    rfl
  · rw [if_neg hext, if_neg hext, List.headD_cons, mergePart_replicate n.ext_le,
      if_neg (by simpa using hext)]
    rfl

/-- A pattern with its points written as `.` and without one at the end. -/
def withoutLastPoint : List UInt8 → List UInt8
  | [] => []
  | c :: pattern =>
      if isPoint c then if pattern = [] then [] else 0x2e :: withoutLastPoint pattern
      else c :: withoutLastPoint pattern

theorem joinParts_nameParts (pattern : List UInt8) :
    joinParts (nameParts pattern) = withoutLastPoint pattern := by
  induction pattern with
  | nil => rfl
  | cons c pattern ih =>
      rw [withoutLastPoint]
      by_cases hpoint : isPoint c
      · have hend : nameParts pattern = [] ∨ nameParts pattern = [[]] ↔ pattern = [] := by
          rw [or_iff_right (nameParts_ne_nil pattern), nameParts_eq_singleton_nil]
        rw [if_pos hpoint, nameParts_point hpoint, joinParts, ih, List.nil_append]
        exact if_congr hend rfl rfl
      · obtain ⟨p, ps, hps⟩ := List.exists_cons_of_ne_nil (nameParts_ne_nil pattern)
        rw [if_neg hpoint, nameParts_cons hpoint, ← ih, hps, List.modifyHead_cons, joinParts,
          joinParts]
        split <;> rfl

theorem mem_of_mem_nameParts {pattern p : List UInt8} (hp : p ∈ nameParts pattern) :
    p ⊆ pattern := by
  induction pattern generalizing p with
  | nil =>
      rw [nameParts_nil, List.mem_singleton] at hp
      exact hp ▸ List.Subset.refl []
  | cons c pattern ih =>
      by_cases hpoint : isPoint c
      · rw [nameParts_point hpoint, List.mem_cons] at hp
        rcases hp with rfl | hp
        · exact List.nil_subset _
        · exact List.subset_cons_of_subset c (ih hp)
      · obtain ⟨q, qs, hqs⟩ := List.exists_cons_of_ne_nil (nameParts_ne_nil pattern)
        rw [nameParts_cons hpoint, hqs, List.modifyHead_cons, List.mem_cons] at hp
        rw [hqs] at ih
        rcases hp with rfl | hp
        · exact List.cons_subset_cons c (ih List.mem_cons_self)
        · exact List.subset_cons_of_subset c (ih (List.mem_cons_of_mem q hp))

theorem mergePart_literal {q part : List UInt8} (hq : ∀ c ∈ q, ¬isQuery c) :
    mergePart q part = q := by
  induction q generalizing part with
  | nil => rfl
  | cons c q ih =>
      obtain ⟨hc, hrest⟩ := List.forall_mem_cons.mp hq
      rw [mergePart, if_neg hc, ih hrest]

theorem mergeParts_literal {ps ss : List (List UInt8)} (hps : ∀ p ∈ ps, ∀ c ∈ p, ¬isQuery c) :
    mergeParts ps ss = ps := by
  induction ps generalizing ss with
  | nil => rfl
  | cons p ps ih =>
      obtain ⟨hp, hrest⟩ := List.forall_mem_cons.mp hps
      rw [mergeParts, mergePart_literal hp, ih hrest]

theorem dosRename_literal {pattern : List UInt8} (hpattern : ∀ c ∈ pattern, ¬isQuery c)
    (name : List UInt8) : dosRename pattern name = withoutLastPoint pattern := by
  rw [dosRename, mergeParts_literal fun p hp c hc => hpattern c (mem_of_mem_nameParts hp hc),
    joinParts_nameParts]

/-! ## One file after the other -/

theorem renameMachine_visible (fn : FnBuf) (sources : List Name83) :
    CText.visible (renameMachine.exec fn sources).bytes = CText.visible fn.bytes := by
  induction sources generalizing fn with
  | nil => rfl
  | cons n sources ih =>
      rw [Machine.exec_cons, ih]
      exact fn.visible_afterRename n.bytes

/-- Each file gets its name from the pattern as it was at first. -/
theorem renameMachine_answers (fn : FnBuf) (sources : List Name83) :
    renameMachine.answers fn sources =
      sources.map fun n => wildName (CText.visible fn.bytes) n.bytes := by
  induction sources generalizing fn with
  | nil => rfl
  | cons n sources ih =>
      rw [Machine.answers, ih, List.map_cons]
      change (mvFileName fn.bytes n.bytes).1 ::
        sources.map (fun n => wildName (CText.visible (fn.afterRename _).bytes) n.bytes) = _
      rw [mvFileName_fst fn n.noNul_bytes, fn.visible_afterRename]

/-- The files are renamed as the pattern says, and the pattern is as it was, if and
only if no file leaves a point at the end of its name. -/
theorem renames_iff_no_point_left (fn : FnBuf) (sources : List Name83) :
    (renameMachine.answers fn sources =
          sources.map (fun n => dosRename (CText.visible fn.bytes) n.bytes) ∧
        CText.visible (renameMachine.exec fn sources).bytes = CText.visible fn.bytes ↔
      ∀ n ∈ sources, ¬LeavesPoint (CText.visible fn.bytes) n.bytes) ∧
    (∀ n : Name83, dosRename anyName83 n.bytes = n.bytes) ∧
    ∀ pattern : List UInt8, (∀ c ∈ pattern, ¬isQuery c) →
      ∀ n : Name83, dosRename pattern n.bytes = withoutLastPoint pattern := by
  refine ⟨?_, dosRename_anyName83, fun pattern hpattern n => dosRename_literal hpattern n.bytes⟩
  rw [and_iff_left (renameMachine_visible fn sources), renameMachine_answers, List.map_inj_left]
  exact forall₂_congr fun n _ => wildName_eq_dosRename_iff _ n

/-- `README` -/
def readmeName : Name83 where
  base := [0x52, 0x45, 0x41, 0x44, 0x4d, 0x45]
  ext := []
  base_pos := by decide
  base_le := by decide
  ext_le := by decide
  noPoint := by simp [isPoint]
  noNul := by decide

/-- `????????.???` in `fn`. -/
def anyNameBuf : FnBuf where
  bytes := anyName83 ++ List.replicate 244 0
  length_eq := by rw [List.length_append, List.length_replicate]; rfl
  terminated := List.mem_append_right _ (List.mem_replicate.mpr ⟨by decide, rfl⟩)

/-- `README` is renamed to `README.`, with the point at the end. -/
theorem any_name_leaves_point :
    renameMachine.answers anyNameBuf [readmeName] = [readmeName.bytes ++ [0x2e]] ∧
      dosRename anyName83 readmeName.bytes = readmeName.bytes := by
  refine ⟨?_, dosRename_anyName83 readmeName⟩
  have hvisible : CText.visible anyNameBuf.bytes = anyName83 :=
    CText.visible_append_zero (t := List.replicate 243 0) (by decide)
  rw [renameMachine_answers, hvisible]
  decide

end MarsNwe
