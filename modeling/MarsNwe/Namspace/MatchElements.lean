import MarsNwe.Namspace.Matching

/-! # The matchers by the first element of a pattern

An element is a byte, a wildcard, an escape or a range. Each matcher on lists is given by
what it does at the first element of the pattern.
-/

namespace MarsNwe.NameSpace

theorem peek_cons (c : UInt8) (s : List UInt8) : peek (c :: s) = c := rfl

theorem peek_eq_zero {s : List UInt8} (hs : 0 ∉ s) : peek s = 0 ↔ s = [] := by
  cases s with
  | nil => simp [peek]
  | cons c s =>
      rw [List.mem_cons, not_or] at hs
      simp [peek, Ne.symm hs.1]

theorem ne_nil_of_peek {s : List UInt8} (h : peek s ≠ 0) : s ≠ [] := by
  rintro rfl
  exact h rfl

/-! ## Ranges of characters -/

theorem rangeNo_suffix (p : List UInt8) : (rangeNo p).2 <:+ p := by
  unfold rangeNo
  split
  · exact List.tail_suffix p
  · exact List.suffix_rfl

theorem noNul_rangeNo {p : List UInt8} (hp : 0 ∉ p) : 0 ∉ (rangeNo p).2 :=
  fun hmem => hp ((rangeNo_suffix p).mem hmem)

/-- A range that is closed leaves the end of the pattern. -/
theorem suffix_of_rangeLoop {sc : UInt8} {pc : Nat} {no found found' : Bool} {p rest : List UInt8}
    (h : rangeLoop sc no pc p found = .closed found' rest) : rest <:+ p := by
  fun_induction rangeLoop sc no pc p found with
  | case1 | case2 | case3 => contradiction
  | case4 pc p found anf q hanf hbehind isRange ende hit found₁ rest₁ hrest =>
      obtain ⟨-, rfl⟩ := RangeEnd.closed.inj h
      exact (List.suffix_cons _ _).trans
        (hrest ▸ (List.drop_suffix _ _).trans (List.drop_suffix _ _))
  | case5 pc p found anf q hanf hbehind isRange ende hit found₁ c rest₁ hrest hc ih =>
      exact (ih h).trans ((List.suffix_cons _ _).trans
        (hrest ▸ (List.drop_suffix _ _).trans (List.drop_suffix _ _)))

/-! ## DOS -/

/-- The first element of a pattern. -/
def xCode (c : UInt8) (p : List UInt8) : UInt8 :=
  unwild (if c = 0xff ∧ isWildByte (peek p) then peek p else c)

/-- What stands behind it. -/
def xRest (c : UInt8) (p : List UInt8) : List UInt8 :=
  p.drop (if c = 0xff ∧ isWildByte (peek p) then 1 else 0)

theorem xRest_suffix (c : UInt8) (p : List UInt8) : xRest c p <:+ p := List.drop_suffix _ p

theorem unwild_ne_zero {c : UInt8} (h : c ≠ 0) : unwild c ≠ 0 := by
  unfold unwild
  split
  · decide
  · split
    · decide
    · split
      · decide
      · exact h

section

variable (igncase : Bool) (imatch : UInt8 → UInt8 → Bool)

/-- A character of a name and one of a pattern are the same. -/
def xSame (sc pc : UInt8) : Bool := if igncase then imatch sc pc else sc == pc

variable {igncase imatch} {c : UInt8} {p s : List UInt8}

theorem xStrMatch_noChar :
    xStrMatch igncase imatch (c :: p) s .noChar =
      if xCode c p = 0x2a ∨ xCode c p = 0x3f then xStrMatch igncase imatch (xRest c p) s .noChar
      else if xCode c p = 0x2e then xStrMatch igncase imatch (xRest c p) s .plain
      else some false := by
  rw [xStrMatch.eq_def]
  rfl

theorem xStrMatch_atEnd :
    xStrMatch igncase imatch (c :: p) s .atEnd =
      if xCode c p ≠ 0x2e then some false
      else xStrMatch igncase imatch (xRest c p) s .afterPoint := by
  rw [xStrMatch.eq_def]
  rfl

theorem xStrMatch_afterPoint :
    xStrMatch igncase imatch (c :: p) s .afterPoint =
      if xCode c p ≠ 0x2a then some false
      else xStrMatch igncase imatch (xRest c p) s .afterPoint := by
  rw [xStrMatch.eq_def]
  rfl

/-- The matcher at an element that is not a range. -/
theorem xStrMatch_element (hset : xCode c p ≠ 0x5b) :
    xStrMatch igncase imatch (c :: p) s .plain =
      if xCode c p = 0x5c then
        if peek (xRest c p) ≠ peek s then some false
        else if xRest c p = [] then none
        else xStrMatch igncase imatch (xRest c p).tail s.tail .plain
      else if xCode c p = 0x3f then
        xStrMatch igncase imatch (xRest c p) s.tail
          (if peek s = 0 ∨ peek s = 0x2e then .noChar else .plain)
      else if xCode c p = 0x2e then
        if s ≠ [] ∧ peek s ≠ 0x2e then some false
        else xStrMatch igncase imatch (xRest c p) s.tail .plain
      else if xCode c p = 0x2a then
        if xRest c p = [] then some true
        else
          match starLoop (fun s => xStrMatch igncase imatch (xRest c p) s .plain) (· = 0x2e) s with
          | none => none
          | some (some result) => some result
          | some none => xStrMatch igncase imatch (xRest c p) [] .atEnd
      else if !xSame igncase imatch (peek s) (xCode c p) then some false
      else if s = [] then none
      else xStrMatch igncase imatch (xRest c p) s.tail .plain := by
  rw [xStrMatch.eq_def]
  change (if xCode c p = 0x5c then _ else if xCode c p = 0x3f then _ else if xCode c p = 0x2e then _
    else if xCode c p = 0x2a then _ else if xCode c p = 0x5b then _ else _) = _
  rw [if_neg hset]
  rfl

theorem xStrMatch_range {pc : UInt8} {q : List UInt8} (h : xCode c p = 0x5b)
    (hset : (rangeNo (xRest c p)).2 = pc :: q) :
    xStrMatch igncase imatch (c :: p) s .plain =
      if s = [] then some false
      else
        match rangeLoop (peek s) (rangeNo (xRest c p)).1 pc.toNat q (rangeNo (xRest c p)).1 with
        | .unclosed => some false
        | .behind => none
        | .closed found rest =>
            if found then xStrMatch igncase imatch rest s.tail .plain else some false := by
  rw [xStrMatch.eq_def]
  change (if xCode c p = 0x5c then _ else if xCode c p = 0x3f then _ else if xCode c p = 0x2e then _
    else if xCode c p = 0x2a then _ else if xCode c p = 0x5b then _ else _) = _
  rw [h, if_neg (by decide), if_neg (by decide), if_neg (by decide), if_neg (by decide),
    if_pos rfl]
  split
  next hnil => cases hset.symm.trans hnil
  next pc' q' hcons =>
    cases hset.symm.trans hcons
    split
    · rfl
    · unfold xRest
      split <;> next heq => rw [heq]

theorem xStrMatch_range_end (h : xCode c p = 0x5b) (hset : (rangeNo (xRest c p)).2 = []) :
    xStrMatch igncase imatch (c :: p) s .plain = some (decide (s = [] ∨ s = [0x2e])) := by
  rw [xStrMatch.eq_def]
  change (if xCode c p = 0x5c then _ else if xCode c p = 0x3f then _ else if xCode c p = 0x2e then _
    else if xCode c p = 0x2a then _ else if xCode c p = 0x5b then _ else _) = _
  rw [h, if_neg (by decide), if_neg (by decide), if_neg (by decide), if_neg (by decide),
    if_pos rfl]
  split
  next hnil => rfl
  next pc' q' hcons => cases hset.symm.trans hcons

end

/-! ## OS/2 -/

theorem getNP_suffix (p : List UInt8) : (getNP p).2 <:+ p := by
  cases p with
  | nil => exact List.suffix_rfl
  | cons c p =>
      simp only [getNP]
      split
      · exact (List.tail_suffix p).trans (List.suffix_cons c p)
      · split
        · exact (List.tail_suffix p).trans (List.suffix_cons c p)
        · exact List.suffix_cons c p

theorem wildCode_lt (c : UInt8) :
    wildCode c = 1000 ∨ wildCode c = 2000 ∨ wildCode c = 3000 ∨ wildCode c < 256 := by
  unfold wildCode
  split
  · exact .inr (.inr (.inl rfl))
  · split
    · exact .inl rfl
    · split
      · exact .inr (.inl rfl)
      · exact .inr (.inr (.inr c.toNat_lt))

/-- What `get_n_p` returns is a wildcard or a byte. -/
theorem getNP_lt (p : List UInt8) : (getNP p).1 = 1000 ∨ (getNP p).1 = 2000 ∨ (getNP p).1 = 3000 ∨
    (getNP p).1 < 256 := by
  cases p with
  | nil => exact .inr (.inr (.inr (by decide)))
  | cons c p =>
      simp only [getNP]
      split
      · exact .inr (.inr (.inr (peek p).toNat_lt))
      · split
        · exact wildCode_lt _
        · exact .inr (.inr (.inr c.toNat_lt))

/-- A character in the case that the volume does not have. -/
def wrongCase (options : VolOptions) (sc : UInt8) : Bool :=
  !options.igncase &&
    (if options.downshift then 0x41 ≤ sc && sc ≤ 0x5a else 0x61 ≤ sc && sc ≤ 0x7a)

/-- `!get_n_p(&p) || !get_n_p(&p)`: one element at most is left. -/
def lastOne (p : List UInt8) : Bool := (getNP p).1 = 0 ∨ (getNP (getNP p).2).1 = 0

section

variable (options : VolOptions) (imatch : UInt8 → UInt8 → Bool)

/-- A character of a name and one of a pattern are the same. -/
def os2Same (sc : UInt8) (pc : Nat) : Bool :=
  if options.igncase then imatch sc (UInt8.ofNat pc) else sc.toNat == pc

variable {options imatch} {p s : List UInt8}

theorem fnOs2Match_end (h : (getNP p).1 = 0) :
    fnOs2Match options imatch p s = some (decide (s = [] ∨ s = [0x2e])) := by
  cases p with
  | nil => rw [fnOs2Match]
  | cons c p =>
      rw [fnOs2Match, if_pos h]

theorem fnOs2Match_wrongCase (hzero : (getNP p).1 ≠ 0) (hcase : wrongCase options (peek s) = true) :
    fnOs2Match options imatch p s = some false := by
  cases p with
  | nil => exact absurd rfl hzero
  | cons c p =>
      rw [fnOs2Match, if_neg hzero]
      exact if_pos hcase

/-- The matcher at an element that is not a range. -/
theorem fnOs2Match_element (hzero : (getNP p).1 ≠ 0) (hcase : wrongCase options (peek s) = false)
    (hset : (getNP p).1 ≠ 0x5b) :
    fnOs2Match options imatch p s =
      if (getNP p).1 = 0x2e ∨ (getNP p).1 = 1000 then
        if s ≠ [] ∧ peek s ≠ 0x2e then some false
        else fnOs2Match options imatch (getNP p).2 s.tail
      else if (getNP p).1 = 0x3f ∨ (getNP p).1 = 2000 then
        if s = [] then some false else fnOs2Match options imatch (getNP p).2 s.tail
      else if (getNP p).1 = 0x2a ∨ (getNP p).1 = 3000 then
        if (getNP p).2 = [] then some true
        else
          match starLoop (fun s => fnOs2Match options imatch (getNP p).2 s)
              (fun d => d = 0x2e && lastOne (getNP p).2) s with
          | none => none
          | some (some result) => some result
          | some none =>
              if (getNP (getNP p).2).1 = 0x2e ∨ (getNP (getNP p).2).1 = 1000 then
                fnOs2Match options imatch (getNP p).2 []
              else some false
      else if !os2Same options imatch (peek s) (getNP p).1 then some false
      else if s = [] then none
      else fnOs2Match options imatch (getNP p).2 s.tail := by
  cases p with
  | nil => exact absurd rfl hzero
  | cons c p =>
      rw [fnOs2Match, if_neg hzero]
      refine (if_neg (Bool.eq_false_iff.mp hcase)).trans ?_
      rw [if_neg hset]
      rfl

theorem fnOs2Match_range (h : (getNP p).1 = 0x5b) (hcase : wrongCase options (peek s) = false)
    (hfirst : (getNP (rangeNo (getNP p).2).2).1 ≠ 0) :
    fnOs2Match options imatch p s =
      if s = [] then some false
      else
        match rangeLoop (peek s) (rangeNo (getNP p).2).1 (getNP (rangeNo (getNP p).2).2).1
            (getNP (rangeNo (getNP p).2).2).2 (rangeNo (getNP p).2).1 with
        | .unclosed => some false
        | .behind => none
        | .closed found rest =>
            if found then fnOs2Match options imatch rest s.tail else some false := by
  cases p with
  | nil => cases h
  | cons c p =>
      rw [fnOs2Match, if_neg (by omega)]
      refine (if_neg (Bool.eq_false_iff.mp hcase)).trans ?_
      rw [if_neg (by omega), if_neg (by omega), if_neg (by omega), if_pos h]
      split
      next hnil =>
        rw [hnil] at hfirst
        exact absurd rfl hfirst
      next first more hcons =>
        rw [hcons] at hfirst ⊢
        rw [if_neg hfirst]
        split
        · rfl
        · split <;> next heq => rw [heq]

theorem fnOs2Match_range_end (h : (getNP p).1 = 0x5b) (hcase : wrongCase options (peek s) = false)
    (hfirst : (getNP (rangeNo (getNP p).2).2).1 = 0) :
    fnOs2Match options imatch p s = some (decide (s = [] ∨ s = [0x2e])) := by
  cases p with
  | nil => cases h
  | cons c p =>
      rw [fnOs2Match, if_neg (by omega)]
      refine (if_neg (Bool.eq_false_iff.mp hcase)).trans ?_
      rw [if_neg (by omega), if_neg (by omega), if_neg (by omega), if_pos h]
      split
      · rfl
      next first more hcons =>
        rw [hcons] at hfirst
        rw [if_pos hfirst]

end

/-! ## Other name spaces -/

/-- The first element of a pattern. -/
def nsCode (c : UInt8) (p : List UInt8) : Nat := if c = 0xff then wildCode (peek p) else c.toNat

/-- What stands behind it. -/
def nsRest (c : UInt8) (p : List UInt8) : List UInt8 :=
  p.drop (if c = 0xff ∧ 1000 ≤ wildCode (peek p) then 1 else 0)

theorem nsRest_suffix (c : UInt8) (p : List UInt8) : nsRest c p <:+ p := List.drop_suffix _ p

theorem wildCode_eq_zero {c : UInt8} : wildCode c = 0 ↔ c = 0 := by
  unfold wildCode
  split
  next h => rcases h with rfl | rfl <;> decide
  next =>
    split
    next h => rcases h with rfl | rfl <;> decide
    next =>
      split
      next h => rcases h with rfl | rfl <;> decide
      next => exact UInt8.toNat_inj (b := 0)

section

variable {c : UInt8} {p s : List UInt8}

theorem ne_escape {n : Nat} (h : nsCode c p = n) (hn : n ≠ 0x5c) : c ≠ 0x5c := by
  rintro rfl
  exact hn h.symm

theorem nsCode_ne {n k : Nat} (h : nsCode c p = n) (hn : n ≠ k) : nsCode c p ≠ k := h ▸ hn

/-- The matcher at an element that is neither an escape nor a range. -/
theorem namespaceFnMatch_element (hesc : c ≠ 0x5c) (hset : nsCode c p ≠ 0x5b) :
    namespaceFnMatch (c :: p) s =
      if nsCode c p = 1000 then
        if peek s ≠ 0x2e then some false else namespaceFnMatch (nsRest c p) s.tail
      else if nsCode c p = 2000 then
        if s = [] then some false else namespaceFnMatch (nsRest c p) s.tail
      else if nsCode c p = 3000 then
        if nsRest c p = [] then some true
        else
          match starLoop (fun s => namespaceFnMatch (nsRest c p) s) (fun _ => false) s with
          | none => none
          | some result => some (result.getD false)
      else if (peek s).toNat ≠ nsCode c p then some false
      else if s = [] then none
      else namespaceFnMatch (nsRest c p) s.tail := by
  rw [namespaceFnMatch, if_neg hesc]
  change (if nsCode c p = 1000 then _ else if nsCode c p = 2000 then _
    else if nsCode c p = 3000 then _ else if nsCode c p = 0x5b then _ else _) = _
  rw [if_neg hset]
  rfl

theorem namespaceFnMatch_range {pc : UInt8} {q : List UInt8} (h : nsCode c p = 0x5b)
    (hset : (rangeNo (nsRest c p)).2 = pc :: q) :
    namespaceFnMatch (c :: p) s =
      if s = [] then some false
      else
        match rangeLoop (peek s) (rangeNo (nsRest c p)).1 pc.toNat q (rangeNo (nsRest c p)).1 with
        | .unclosed => some false
        | .behind => none
        | .closed found rest => if found then namespaceFnMatch rest s.tail else some false := by
  have hesc : c ≠ 0x5c := by
    rintro rfl
    cases h
  rw [namespaceFnMatch, if_neg hesc]
  change (if nsCode c p = 1000 then _ else if nsCode c p = 2000 then _
    else if nsCode c p = 3000 then _ else if nsCode c p = 0x5b then _ else _) = _
  rw [if_neg (by omega), if_neg (by omega), if_neg (by omega), if_pos h]
  split
  next hnil => cases hset.symm.trans hnil
  next pc' q' hcons =>
    cases hset.symm.trans hcons
    split
    · rfl
    · unfold nsRest
      split <;> next heq => rw [heq]

theorem namespaceFnMatch_range_end (h : nsCode c p = 0x5b) (hset : (rangeNo (nsRest c p)).2 = []) :
    namespaceFnMatch (c :: p) s = some (decide (s = [])) := by
  have hesc : c ≠ 0x5c := by
    rintro rfl
    cases h
  rw [namespaceFnMatch, if_neg hesc]
  change (if nsCode c p = 1000 then _ else if nsCode c p = 2000 then _
    else if nsCode c p = 3000 then _ else if nsCode c p = 0x5b then _ else _) = _
  rw [if_neg (by omega), if_neg (by omega), if_neg (by omega), if_pos h]
  split
  next hnil => rfl
  next pc' q' hcons => cases hset.symm.trans hcons

end

end MarsNwe.NameSpace
