import MarsNwe.Namspace.MatchReads
import MarsNwe.Namspace.MatchElements

/-! # The matchers on pointers and on lists

On terminated strings the matchers on pointers do what the matchers on lists do, and they
read behind a string where those have no result.
-/

namespace MarsNwe.NameSpace

open CPtr

/-- What the end of a range is to a matcher. -/
def RangeEnd.toCode : RangeEnd → Option (Option (Bool × CPtr))
  | .unclosed => some none
  | .behind => none
  | .closed found rest => some (some (found, ofText rest))

theorem nameEnds_ofText {s : List UInt8} (hs : 0 ∉ s) :
    nameEnds (ofText s) = some (decide (s = [] ∨ s = [0x2e])) := by
  cases s with
  | nil => rfl
  | cons c s =>
      rw [List.mem_cons, not_or] at hs
      have hend : s.headD 0 = 0 ↔ s = [] := peek_eq_zero hs.2
      by_cases hc : c = 0x2e
      · simp only [nameEnds, ofText_cons, read_cons, hc, List.tail_cons, read_ofText,
          Option.bind_eq_bind, Option.bind_some, if_true, hend]
        simp
      · simp [nameEnds, hc, Ne.symm hs.1]

theorem rangeNoAt_ofText (p : List UInt8) :
    rangeNoAt (ofText p) = some ((rangeNo p).1, ofText (rangeNo p).2) := by
  cases p with
  | nil => rfl
  | cons c p =>
      by_cases hc : c = 0x21 ∨ c = 0x5e <;> simp [rangeNoAt, rangeNo, peek, hc]

/-- An escape is passed over, unless it is the last byte. -/
theorem escapedAt_ofText {pc : Nat} {p : List UInt8}
    (h : (if pc = 0x5c then (peek p).toNat else pc) ≠ 0) :
    escapedAt pc (ofText p) = some (if pc = 0x5c then (peek p).toNat else pc,
      ofText (p.drop (if pc = 0x5c then 1 else 0))) := by
  unfold escapedAt
  by_cases hesc : pc = 0x5c
  · cases p with
    | nil => exact absurd (by simp [hesc, peek]) h
    | cons c p => simp [hesc, peek]
  · simp [hesc]

theorem escapedAt_ofText_zero {pc : Nat} {p : List UInt8}
    (h : (if pc = 0x5c then (peek p).toNat else pc) = 0) :
    ∃ r, escapedAt pc (ofText p) = some (0, r) := by
  unfold escapedAt
  by_cases hesc : pc = 0x5c
  · rw [if_pos hesc] at h ⊢
    exact ⟨_, by rw [read_ofText]; exact congrArg (fun n => some (n, _)) h⟩
  · rw [if_neg hesc] at h ⊢
    exact ⟨_, by rw [h]⟩

/-- The pattern goes on behind the end of a range, unless it ends with the `-`. -/
theorem rangeEndeAt_ofText (anf : Nat) (p : List UInt8) :
    rangeEndeAt anf (ofText p) =
      if peek p = 0x2d ∧ p.tail = [] then some (0, [])
      else if peek p = 0x2d ∧ peek p.tail ≠ 0x5d then
        some ((peek p.tail).toNat, ofText (p.drop 2))
      else some (anf, ofText p) := by
  rcases p with _ | ⟨c, p⟩
  · rfl
  · by_cases hdash : c = 0x2d
    · subst hdash
      cases p with
      | nil => rfl
      | cons d p => by_cases hd : d = 0x5d <;> simp [rangeEndeAt, peek, hd]
    · simp [rangeEndeAt, peek, hdash]

theorem rangeEndeAt_isRange (anf : Nat) {p : List UInt8} (h : ¬ (peek p = 0x2d ∧ p.tail = [])) :
    rangeEndeAt anf (ofText p) =
      some (if peek p = 0x2d ∧ peek p.tail ≠ 0x5d then (peek p.tail).toNat else anf,
        ofText (p.drop (if peek p = 0x2d ∧ peek p.tail ≠ 0x5d then 2 else 0))) := by
  rw [rangeEndeAt_ofText, if_neg h]
  split <;> rfl

/-- A round of the loop over a range that has not met the end of the pattern. -/
theorem rangeLoopAt_of {sc : UInt8} {no : Bool} {rounds pc anf ende : Nat} {p q r : CPtr}
    {found : Bool} (hesc : escapedAt pc p = some (anf, q)) (hanf : anf ≠ 0)
    (hende : rangeEndeAt anf q = some (ende, r)) :
    rangeLoopAt sc no (rounds + 1) pc p found =
      (read r).bind fun c =>
        if c = 0x5d then
          some (some (if found = no ∧ (anf = sc.toNat ∨ anf ≤ sc.toNat ∧ sc.toNat ≤ ende) then !no
            else found, r.tail))
        else
          rangeLoopAt sc no rounds c.toNat r.tail
            (if found = no ∧ (anf = sc.toNat ∨ anf ≤ sc.toNat ∧ sc.toNat ≤ ende) then !no
              else found) := by
  rw [rangeLoopAt, hesc]
  simp only [Option.bind_eq_bind, Option.bind_some, if_neg hanf, hende]
  rfl

/-- The loop over a range reads what the loop on lists says. The last round may find the
terminator. -/
theorem rangeLoopAt_ofText (sc : UInt8) (no : Bool) (pc : Nat) (p : List UInt8) (found : Bool) :
    ∀ rounds, p.length + 1 < rounds →
      rangeLoopAt sc no rounds pc (ofText p) found = (rangeLoop sc no pc p found).toCode := by
  fun_induction rangeLoop sc no pc p found with
  | case1 pc p found anf hanf =>
      rintro (_ | rounds) hrounds
      · exact absurd hrounds (Nat.not_lt_zero _)
      obtain ⟨r, hr⟩ := escapedAt_ofText_zero hanf
      rw [rangeLoopAt, hr]
      rfl
  | case2 pc p found anf q hanf hbehind =>
      rintro (_ | rounds) hrounds
      · exact absurd hrounds (Nat.not_lt_zero _)
      have hesc : escapedAt pc (ofText p) = some (anf, ofText q) := escapedAt_ofText hanf
      have hende := rangeEndeAt_ofText anf q
      rw [if_pos hbehind] at hende
      rw [rangeLoopAt_of hesc hanf hende]
      rfl
  | case3 pc p found anf q hanf hbehind isRange hrest =>
      rintro (_ | rounds) hrounds
      · exact absurd hrounds (Nat.not_lt_zero _)
      have hesc : escapedAt pc (ofText p) = some (anf, ofText q) := escapedAt_ofText hanf
      have hnext : q.drop (if peek q = 0x2d ∧ peek q.tail ≠ 0x5d then 2 else 0) = [] := hrest
      rw [rangeLoopAt_of hesc hanf (rangeEndeAt_isRange anf hbehind), hnext]
      obtain ⟨rounds, rfl⟩ := Nat.exists_eq_add_one_of_ne_zero (by omega : rounds ≠ 0)
      rfl
  | case4 pc p found anf q hanf hbehind isRange ende hit found₁ rest hrest =>
      rintro (_ | rounds) hrounds
      · exact absurd hrounds (Nat.not_lt_zero _)
      have hesc : escapedAt pc (ofText p) = some (anf, ofText q) := escapedAt_ofText hanf
      have hnext : q.drop (if peek q = 0x2d ∧ peek q.tail ≠ 0x5d then 2 else 0) = 0x5d :: rest :=
        hrest
      rw [rangeLoopAt_of hesc hanf (rangeEndeAt_isRange anf hbehind), hnext]
      rfl
  | case5 pc p found anf q hanf hbehind isRange ende hit found₁ c rest hrest hc ih =>
      rintro (_ | rounds) hrounds
      · exact absurd hrounds (Nat.not_lt_zero _)
      have hesc : escapedAt pc (ofText p) = some (anf, ofText q) := escapedAt_ofText hanf
      have hnext : q.drop (if peek q = 0x2d ∧ peek q.tail ≠ 0x5d then 2 else 0) = c :: rest := hrest
      have hlt : rest.length < p.length := by
        have hlen := congrArg List.length hnext
        simp only [q, List.length_drop, List.length_cons] at hlen
        omega
      rw [rangeLoopAt_of hesc hanf (rangeEndeAt_isRange anf hbehind), hnext]
      exact (if_neg hc).trans (ih rounds (by omega))

theorem tryAll_ofText (rest : CPtr → Option Bool) (rest' : List UInt8 → Option Bool)
    (giveUp : UInt8 → Option Bool) (giveUp' : UInt8 → Bool) {s : List UInt8} (hs : 0 ∉ s)
    (h : ∀ t, t <:+ s → rest (ofText t) = rest' t) (hgive : ∀ c, giveUp c = some (giveUp' c)) :
    tryAll rest (fun _ => false) giveUp (ofText s) =
      (starLoop rest' giveUp' s).map fun result => result.elim (.ok (ofText [])) .error := by
  induction s with
  | nil => rfl
  | cons c s ih =>
      rw [List.mem_cons, not_or] at hs
      have ih := ih hs.2 fun t ht => h t (ht.trans (List.suffix_cons c s))
      have hhere := h (c :: s) List.suffix_rfl
      rw [ofText_cons] at hhere ⊢
      rw [tryAll, if_neg (by simpa using Ne.symm hs.1), hhere, ih, hgive, starLoop]
      cases rest' (c :: s) with
      | none => rfl
      | some b => cases b <;> cases giveUp' c <;> rfl

/-- A name is passed over no further than its end. -/
theorem advance_ofText {s : List UInt8} (hs : 0 ∉ s) :
    (if peek s = 0 then ofText s else (ofText s).tail) = ofText s.tail := by
  simp only [peek_eq_zero hs]
  split
  next hnil => rw [hnil]; rfl
  next hne => exact tail_ofText hne

/-! ## DOS -/

section

variable {igncase : Bool} {imatch : UInt8 → UInt8 → Bool} {rounds : Nat} {c : UInt8}
  {p s : List UInt8}

/-- 0xff is taken with the wildcard that it stands before. -/
theorem xStrCode_ofText (c : UInt8) (p : List UInt8) :
    xStrCode c (ofText p) = some (xCode c p, ofText (xRest c p)) := by
  unfold xStrCode xCode xRest
  by_cases hlead : c = 0xff
  · cases p with
    | nil => simp [hlead, peek, isWildByte]
    | cons d p => cases hwild : isWildByte d <;> simp [hlead, peek, hwild]
  · simp [hlead]

theorem xCode_ne_zero (hp : 0 ∉ c :: p) : xCode c p ≠ 0 := by
  apply unwild_ne_zero
  split
  next hlead =>
    intro hzero
    rw [hzero] at hlead
    cases hlead.2
  · exact (List.ne_of_not_mem_cons hp).symm

theorem noNul_xRest (hp : 0 ∉ c :: p) : 0 ∉ xRest c p := fun hmem =>
  hp (List.mem_cons_of_mem c ((xRest_suffix c p).mem hmem))

/-- So many rounds of `x_str_match` do what the matcher on lists does. -/
def XAgrees (igncase : Bool) (imatch : UInt8 → UInt8 → Bool) (rounds : Nat) : Prop :=
  ∀ {p s : List UInt8} {state : XState}, p.length < rounds → 0 ∉ p → 0 ∉ s →
    xStrLoopAt igncase imatch rounds (ofText p) (ofText s) state =
      xStrMatch igncase imatch p s state

theorem xStrLoopAt_escape (hagrees : XAgrees igncase imatch rounds)
    (hlen : (xRest c p).length < rounds) (hp : 0 ∉ c :: p) (hs : 0 ∉ s) (h : xCode c p = 0x5c) :
    xStrLoopAt igncase imatch (rounds + 1) (ofText (c :: p)) (ofText s) .plain =
      xStrMatch igncase imatch (c :: p) s .plain := by
  have hc : c ≠ 0 := (List.ne_of_not_mem_cons hp).symm
  have hrest : 0 ∉ xRest c p := noNul_xRest hp
  rw [xStrMatch_element (by rw [h]; decide), if_pos h, xStrLoopAt, ofText_cons, read_cons]
  simp only [Option.bind_eq_bind, Option.bind_some, if_neg hc, List.tail_cons, xStrCode_ofText,
    if_pos h]
  rw [read_ofText, read_ofText]
  change (if peek (xRest c p) ≠ peek s then _ else _) = _
  split
  · rfl
  next heq =>
    symm
    split
    next hnil =>
      -- pattern and name have ended
      rw [hnil, (peek_eq_zero hs).mp ((not_not.mp heq).symm.trans (congrArg peek hnil))]
      cases rounds <;> rfl
    next hne =>
      have hzero : peek s ≠ 0 := fun h => hne ((peek_eq_zero hrest).mp ((not_not.mp heq).trans h))
      have htail : (xRest c p).tail.length < rounds :=
        Nat.lt_of_le_of_lt (List.tail_sublist _).length_le hlen
      rw [tail_ofText hne, tail_ofText (ne_nil_of_peek hzero)]
      exact (hagrees htail (fun hmem => hrest (List.mem_of_mem_tail hmem))
        fun hmem => hs (List.mem_of_mem_tail hmem)).symm

theorem xStrLoopAt_star (hagrees : XAgrees igncase imatch rounds)
    (hlen : (xRest c p).length < rounds) (hp : 0 ∉ c :: p) (hs : 0 ∉ s) (h : xCode c p = 0x2a) :
    xStrLoopAt igncase imatch (rounds + 1) (ofText (c :: p)) (ofText s) .plain =
      xStrMatch igncase imatch (c :: p) s .plain := by
  have hc : c ≠ 0 := (List.ne_of_not_mem_cons hp).symm
  have hrest : 0 ∉ xRest c p := noNul_xRest hp
  have htries := tryAll_ofText
    (fun s => xStrLoopAt igncase imatch rounds (ofText (xRest c p)) s .plain)
    (fun s => xStrMatch igncase imatch (xRest c p) s .plain) (fun c => some (c = 0x2e))
    (fun c => c = 0x2e) hs (fun t ht => hagrees hlen hrest fun hmem => hs (ht.mem hmem))
    fun _ => rfl
  have hread : read (ofText (xRest c p)) = some (peek (xRest c p)) := read_ofText _
  rw [xStrMatch_element (by rw [h]; decide), h, if_neg (by decide), if_neg (by decide),
    if_neg (by decide), if_pos rfl, xStrLoopAt, ofText_cons, read_cons]
  simp only [Option.bind_eq_bind, Option.bind_some, if_neg hc, List.tail_cons, xStrCode_ofText,
    hread, htries, peek_eq_zero hrest]
  rw [h, if_neg (by decide), if_neg (by decide), if_neg (by decide), if_pos rfl]
  split
  · rfl
  · cases starLoop (fun s => xStrMatch igncase imatch (xRest c p) s .plain) (· = 0x2e) s with
    | none => rfl
    | some result =>
        cases result with
        | none => exact hagrees hlen hrest List.not_mem_nil
        | some result => rfl

theorem xStrLoopAt_range (hagrees : XAgrees igncase imatch rounds)
    (hlen : (xRest c p).length < rounds) (hp : 0 ∉ c :: p) (hs : 0 ∉ s) (h : xCode c p = 0x5b) :
    xStrLoopAt igncase imatch (rounds + 1) (ofText (c :: p)) (ofText s) .plain =
      xStrMatch igncase imatch (c :: p) s .plain := by
  have hc : c ≠ 0 := (List.ne_of_not_mem_cons hp).symm
  have hno : 0 ∉ (rangeNo (xRest c p)).2 := noNul_rangeNo (noNul_xRest hp)
  have hle := length_rangeNo_le (xRest c p)
  rw [xStrLoopAt, ofText_cons, read_cons]
  simp only [Option.bind_eq_bind, Option.bind_some, if_neg hc, List.tail_cons, xStrCode_ofText,
    rangeNoAt_ofText, read_ofText]
  rw [h, if_neg (by decide), if_neg (by decide), if_neg (by decide), if_neg (by decide),
    if_pos rfl]
  cases hset : (rangeNo (xRest c p)).2 with
  | nil =>
      rw [xStrMatch_range_end h hset]
      exact nameEnds_ofText hs
  | cons pc q =>
      rw [hset] at hno hle
      rw [List.mem_cons, not_or] at hno
      rw [xStrMatch_range h hset]
      change (if pc = 0 then _ else if peek s = 0 then _ else _) = _
      rw [if_neg (Ne.symm hno.1)]
      simp only [peek_eq_zero hs]
      split
      · rfl
      next hne =>
        have hrange := rangeLoopAt_ofText (peek s) (rangeNo (xRest c p)).1 pc.toNat q
          (rangeNo (xRest c p)).1 (ofText (pc :: q)).length (by simp [ofText])
        change (rangeLoopAt (peek s) (rangeNo (xRest c p)).1 (ofText (pc :: q)).length pc.toNat
          (ofText q) (rangeNo (xRest c p)).1).bind _ = _
        rw [hrange]
        cases hin : rangeLoop (peek s) (rangeNo (xRest c p)).1 pc.toNat q (rangeNo (xRest c p)).1 with
        | unclosed => rfl
        | behind => rfl
        | closed found rest =>
            have hlt := length_rangeLoop_lt hin
            rw [List.length_cons] at hle
            change (if found = true then
              xStrLoopAt igncase imatch rounds (ofText rest) (ofText s).tail .plain else _) = _
            rw [tail_ofText hne, hagrees (by omega)
              (fun hmem => hno.2 ((suffix_of_rangeLoop hin).mem hmem))
              (fun hmem => hs (List.mem_of_mem_tail hmem))]
            rfl

/-- The elements that take one character at most. -/
theorem xStrLoopAt_element (himatch : ∀ c, imatch 0 c = true → c = 0)
    (hagrees : XAgrees igncase imatch rounds) (hlen : (xRest c p).length < rounds)
    (hp : 0 ∉ c :: p) (hs : 0 ∉ s) (hesc : xCode c p ≠ 0x5c) (hstar : xCode c p ≠ 0x2a)
    (hset : xCode c p ≠ 0x5b) :
    xStrLoopAt igncase imatch (rounds + 1) (ofText (c :: p)) (ofText s) .plain =
      xStrMatch igncase imatch (c :: p) s .plain := by
  have hc : c ≠ 0 := (List.ne_of_not_mem_cons hp).symm
  have hrest : 0 ∉ xRest c p := noNul_xRest hp
  have htail : 0 ∉ s.tail := fun hmem => hs (List.mem_of_mem_tail hmem)
  have hread : read (ofText s) = some (peek s) := read_ofText s
  rw [xStrMatch_element hset, if_neg hesc, if_neg hstar, xStrLoopAt, ofText_cons, read_cons]
  simp only [Option.bind_eq_bind, Option.bind_some, if_neg hc, List.tail_cons, xStrCode_ofText,
    hread, if_neg hesc, if_neg hstar, if_neg hset]
  by_cases hquery : xCode c p = 0x3f
  · rw [if_pos hquery, if_pos hquery, advance_ofText hs]
    exact hagrees hlen hrest htail
  rw [if_neg hquery, if_neg hquery]
  by_cases hdot : xCode c p = 0x2e
  · rw [if_pos hdot, if_pos hdot, advance_ofText hs, hagrees hlen hrest htail]
    simp only [ne_eq, peek_eq_zero hs]
    rfl
  rw [if_neg hdot, if_neg hdot]
  change (if !xSame igncase imatch (peek s) (xCode c p) then _ else _) = _
  cases hsame : xSame igncase imatch (peek s) (xCode c p) with
  | false => rfl
  | true =>
      have hne : s ≠ [] := by
        rintro rfl
        unfold xSame at hsame
        split at hsame
        · exact xCode_ne_zero hp (himatch _ hsame)
        · exact xCode_ne_zero hp (eq_of_beq hsame).symm
      simp only [Bool.not_true, Bool.false_eq_true, if_false, if_neg hne, tail_ofText hne]
      exact hagrees hlen hrest htail

/-- The states behind a name take nothing of it. -/
theorem xStrLoopAt_behind (hagrees : XAgrees igncase imatch rounds)
    (hlen : (xRest c p).length < rounds) (hp : 0 ∉ c :: p) (hs : 0 ∉ s) {state : XState}
    (hstate : state ≠ .plain) :
    xStrLoopAt igncase imatch (rounds + 1) (ofText (c :: p)) (ofText s) state =
      xStrMatch igncase imatch (c :: p) s state := by
  have hc : c ≠ 0 := (List.ne_of_not_mem_cons hp).symm
  have hnext : ∀ {state}, xStrLoopAt igncase imatch rounds (ofText (xRest c p)) (ofText s) state =
      xStrMatch igncase imatch (xRest c p) s state := hagrees hlen (noNul_xRest hp) hs
  rw [xStrLoopAt, ofText_cons, read_cons]
  simp only [Option.bind_eq_bind, Option.bind_some, if_neg hc, List.tail_cons, xStrCode_ofText]
  cases state with
  | plain => contradiction
  | noChar =>
      rw [xStrMatch_noChar, ← hnext, ← hnext]
      rfl
  | atEnd =>
      rw [xStrMatch_atEnd, ← hnext]
      rfl
  | afterPoint =>
      rw [xStrMatch_afterPoint, ← hnext]
      rfl

/-- With a table that takes no byte for the terminator `x_str_match` reads what the matcher
on lists says. -/
theorem xStrLoopAt_ofText (himatch : ∀ c, imatch 0 c = true → c = 0) (rounds : Nat) :
    XAgrees igncase imatch rounds := by
  induction rounds with
  | zero => exact fun hrounds => absurd hrounds (Nat.not_lt_zero _)
  | succ rounds hagrees =>
      intro p s state hrounds hp hs
      cases p with
      | nil =>
          rw [xStrLoopAt, xStrMatch.eq_def]
          exact nameEnds_ofText hs
      | cons c p =>
          have hlen : (xRest c p).length < rounds :=
            Nat.lt_of_le_of_lt (xRest_suffix c p).length_le (Nat.lt_of_succ_lt_succ hrounds)
          by_cases hstate : state = .plain
          · subst hstate
            by_cases hesc : xCode c p = 0x5c
            · exact xStrLoopAt_escape hagrees hlen hp hs hesc
            by_cases hstar : xCode c p = 0x2a
            · exact xStrLoopAt_star hagrees hlen hp hs hstar
            by_cases hset : xCode c p = 0x5b
            · exact xStrLoopAt_range hagrees hlen hp hs hset
            exact xStrLoopAt_element himatch hagrees hlen hp hs hesc hstar hset
          · exact xStrLoopAt_behind hagrees hlen hp hs hstate

end

/-! ## OS/2 -/

section

variable {options : VolOptions} {imatch : UInt8 → UInt8 → Bool} {rounds : Nat}
  {p s : List UInt8}

/-- `get_n_p` keeps to the pattern unless it has met its end. -/
theorem getNPAt_ofText {p : List UInt8} (h : (getNP p).1 ≠ 0) :
    getNPAt (ofText p) = some ((getNP p).1, ofText (getNP p).2) := by
  cases p with
  | nil => exact absurd rfl h
  | cons c p =>
      unfold getNPAt getNP at *
      by_cases hesc : c = 0x5c
      · cases p with
        | nil => exact absurd (by simp [hesc, peek]) h
        | cons d p => simp [hesc, peek]
      · by_cases hlead : c = 0xff
        · cases p with
          | nil => exact absurd (by simp [hlead, peek, wildCode]) h
          | cons d p => simp [hlead, peek]
        · simp [hesc, hlead]

theorem getNPAt_ofText_zero {p : List UInt8} (h : (getNP p).1 = 0) :
    ∃ r, getNPAt (ofText p) = some (0, r) := by
  cases p with
  | nil => exact ⟨[], rfl⟩
  | cons c p =>
      by_cases hesc : c = 0x5c
      · have hnext : (p.head?.getD 0).toNat = 0 := by simpa [getNP, hesc, peek] using h
        exact ⟨(ofText p).tail, by simp [getNPAt, hesc, hnext]⟩
      · by_cases hlead : c = 0xff
        · have hnext : wildCode (p.head?.getD 0) = 0 := by simpa [getNP, hlead, peek] using h
          exact ⟨(ofText p).tail, by simp [getNPAt, hlead, hnext]⟩
        · have hc : c.toNat = 0 := by simpa [getNP, hesc, hlead] using h
          exact ⟨ofText p, by simp [getNPAt, hesc, hlead, hc]⟩

theorem lastOneAt_ofText (p : List UInt8) : lastOneAt (ofText p) = some (lastOne p) := by
  unfold lastOne
  by_cases h : (getNP p).1 = 0
  · obtain ⟨r, hr⟩ := getNPAt_ofText_zero h
    rw [lastOneAt, hr]
    simp [h]
  · rw [lastOneAt, getNPAt_ofText h]
    by_cases hnext : (getNP (getNP p).2).1 = 0
    · obtain ⟨r, hr⟩ := getNPAt_ofText_zero hnext
      simp [h, hr, hnext]
    · simp [h, getNPAt_ofText hnext, hnext]

theorem wrongCaseAt_ofText (options : VolOptions) (s : List UInt8) :
    wrongCaseAt options (ofText s) = some (wrongCase options (peek s)) := by
  unfold wrongCaseAt wrongCase
  rw [read_ofText]
  cases options.igncase <;> rfl

theorem noNul_getNP (hp : 0 ∉ p) : 0 ∉ (getNP p).2 := fun hmem => hp ((getNP_suffix p).mem hmem)

/-- So many rounds of `fn_os2_match` do what the matcher on lists does. -/
def Os2Agrees (options : VolOptions) (imatch : UInt8 → UInt8 → Bool) (rounds : Nat) : Prop :=
  ∀ {p s : List UInt8}, p.length < rounds → 0 ∉ p → 0 ∉ s →
    fnOs2LoopAt options imatch rounds (ofText p) (ofText s) = fnOs2Match options imatch p s

theorem fnOs2LoopAt_star (hagrees : Os2Agrees options imatch rounds)
    (hlen : (getNP p).2.length < rounds) (hp : 0 ∉ p) (hs : 0 ∉ s)
    (hcase : wrongCase options (peek s) = false) (h : (getNP p).1 = 0x2a ∨ (getNP p).1 = 3000) :
    fnOs2LoopAt options imatch (rounds + 1) (ofText p) (ofText s) =
      fnOs2Match options imatch p s := by
  have hzero : (getNP p).1 ≠ 0 := by omega
  have hrest : 0 ∉ (getNP p).2 := noNul_getNP hp
  have hread : read (ofText (getNP p).2) = some (peek (getNP p).2) := read_ofText _
  have htries := tryAll_ofText
    (fun s => fnOs2LoopAt options imatch rounds (ofText (getNP p).2) s)
    (fun s => fnOs2Match options imatch (getNP p).2 s)
    (fun c => if c = 0x2e then lastOneAt (ofText (getNP p).2) else some false)
    (fun c => c = 0x2e && lastOne (getNP p).2)
    hs (fun t ht => hagrees hlen hrest fun hmem => hs (ht.mem hmem))
    (fun c => by rw [lastOneAt_ofText]; by_cases hc : c = 0x2e <;> simp [hc])
  rw [fnOs2Match_element hzero hcase (by omega), if_neg (by omega), if_neg (by omega), if_pos h,
    fnOs2LoopAt, getNPAt_ofText hzero]
  simp only [Option.bind_eq_bind, Option.bind_some, if_neg hzero, wrongCaseAt_ofText, hcase,
    Bool.false_eq_true, if_false, hread, htries, peek_eq_zero hrest]
  rw [if_neg (by omega), if_neg (by omega), if_pos h]
  split
  · rfl
  · generalize starLoop (fun s => fnOs2Match options imatch (getNP p).2 s) _ s = result
    rcases result with _ | _ | result
    · rfl
    · by_cases hnext : (getNP (getNP p).2).1 = 0
      · obtain ⟨r, hr⟩ := getNPAt_ofText_zero hnext
        simp [hr, hnext]
      · simp only [Option.map_some, Option.elim_none, Option.bind_some, getNPAt_ofText hnext]
        rw [hagrees hlen hrest List.not_mem_nil]
        rfl
    · rfl

theorem fnOs2LoopAt_range (hagrees : Os2Agrees options imatch rounds)
    (hlen : (getNP p).2.length < rounds) (hp : 0 ∉ p) (hs : 0 ∉ s)
    (hcase : wrongCase options (peek s) = false) (h : (getNP p).1 = 0x5b) :
    fnOs2LoopAt options imatch (rounds + 1) (ofText p) (ofText s) =
      fnOs2Match options imatch p s := by
  have hzero : (getNP p).1 ≠ 0 := by omega
  have hread : read (ofText s) = some (peek s) := read_ofText s
  rw [fnOs2LoopAt, getNPAt_ofText hzero]
  simp only [Option.bind_eq_bind, Option.bind_some, if_neg hzero, wrongCaseAt_ofText, hcase,
    Bool.false_eq_true, if_false, rangeNoAt_ofText, hread]
  rw [if_neg (by omega), if_neg (by omega), if_neg (by omega), if_pos h]
  by_cases hfirst : (getNP (rangeNo (getNP p).2).2).1 = 0
  · obtain ⟨r, hr⟩ := getNPAt_ofText_zero hfirst
    rw [fnOs2Match_range_end h hcase hfirst, hr]
    exact nameEnds_ofText hs
  · rw [fnOs2Match_range h hcase hfirst, getNPAt_ofText hfirst]
    have hno : 0 ∉ (getNP (rangeNo (getNP p).2).2).2 :=
      noNul_getNP (noNul_rangeNo (noNul_getNP hp))
    have hle : (getNP (rangeNo (getNP p).2).2).2.length ≤ (getNP p).2.length :=
      ((getNP_suffix _).trans (rangeNo_suffix _)).length_le
    generalize getNP (rangeNo (getNP p).2).2 = first at hfirst hno hle ⊢
    obtain ⟨pc, q⟩ := first
    dsimp only at hfirst hno hle
    have hrange := rangeLoopAt_ofText (peek s) (rangeNo (getNP p).2).1 pc q
      (rangeNo (getNP p).2).1 ((ofText q).length + 1) (by simp [ofText])
    simp only [Option.bind_some, if_neg hfirst, peek_eq_zero hs]
    split
    · rfl
    next hne =>
      rw [hrange]
      cases hin : rangeLoop (peek s) (rangeNo (getNP p).2).1 pc q (rangeNo (getNP p).2).1 with
      | unclosed => rfl
      | behind => rfl
      | closed found rest =>
          have hlt := length_rangeLoop_lt hin
          change (if found = true then
            fnOs2LoopAt options imatch rounds (ofText rest) (ofText s).tail else _) = _
          rw [tail_ofText hne, hagrees (by omega)
            (fun hmem => hno ((suffix_of_rangeLoop hin).mem hmem))
            (fun hmem => hs (List.mem_of_mem_tail hmem))]
          rfl

/-- The elements that take one character at most. -/
theorem fnOs2LoopAt_element (himatch : ∀ c, imatch 0 c = true → c = 0)
    (hagrees : Os2Agrees options imatch rounds) (hlen : (getNP p).2.length < rounds) (hp : 0 ∉ p)
    (hs : 0 ∉ s) (hzero : (getNP p).1 ≠ 0) (hcase : wrongCase options (peek s) = false)
    (hstar : ¬((getNP p).1 = 0x2a ∨ (getNP p).1 = 3000)) (hset : (getNP p).1 ≠ 0x5b) :
    fnOs2LoopAt options imatch (rounds + 1) (ofText p) (ofText s) =
      fnOs2Match options imatch p s := by
  have hrest : 0 ∉ (getNP p).2 := noNul_getNP hp
  have htail : 0 ∉ s.tail := fun hmem => hs (List.mem_of_mem_tail hmem)
  have hread : read (ofText s) = some (peek s) := read_ofText s
  rw [fnOs2Match_element hzero hcase hset, if_neg hstar, fnOs2LoopAt, getNPAt_ofText hzero]
  simp only [Option.bind_eq_bind, Option.bind_some, if_neg hzero, wrongCaseAt_ofText, hcase,
    Bool.false_eq_true, if_false, hread, if_neg hstar, if_neg hset]
  by_cases hdot : (getNP p).1 = 0x2e ∨ (getNP p).1 = 1000
  · rw [if_pos hdot, if_pos hdot, advance_ofText hs, hagrees hlen hrest htail]
    simp only [ne_eq, peek_eq_zero hs]
    rfl
  rw [if_neg hdot, if_neg hdot]
  by_cases hquery : (getNP p).1 = 0x3f ∨ (getNP p).1 = 2000
  · rw [if_pos hquery, if_pos hquery]
    simp only [peek_eq_zero hs]
    split
    · rfl
    next hne =>
      rw [tail_ofText hne]
      exact hagrees hlen hrest htail
  rw [if_neg hquery, if_neg hquery]
  change (if !os2Same options imatch (peek s) (getNP p).1 then _ else _) = _
  cases hsame : os2Same options imatch (peek s) (getNP p).1 with
  | false => rfl
  | true =>
      have hne : s ≠ [] := by
        rintro rfl
        unfold os2Same at hsame
        split at hsame
        · have hbyte := getNP_lt p
          have hpc := congrArg UInt8.toNat (himatch _ hsame)
          rw [UInt8.toNat_ofNat'] at hpc
          have hpc : (getNP p).1 % 256 = 0 := hpc
          omega
        · exact hzero (eq_of_beq hsame).symm
      simp only [Bool.not_true, Bool.false_eq_true, if_false, if_neg hne, tail_ofText hne]
      exact hagrees hlen hrest htail

/-- With a table that takes no byte for the terminator `fn_os2_match` reads what the matcher
on lists says. -/
theorem fnOs2LoopAt_ofText (himatch : ∀ c, imatch 0 c = true → c = 0) (rounds : Nat) :
    Os2Agrees options imatch rounds := by
  induction rounds with
  | zero => exact fun hrounds => absurd hrounds (Nat.not_lt_zero _)
  | succ rounds hagrees =>
      intro p s hrounds hp hs
      by_cases hzero : (getNP p).1 = 0
      · obtain ⟨r, hr⟩ := getNPAt_ofText_zero hzero
        rw [fnOs2Match_end hzero, fnOs2LoopAt, hr]
        exact nameEnds_ofText hs
      cases hcase : wrongCase options (peek s) with
      | true =>
          rw [fnOs2Match_wrongCase hzero hcase, fnOs2LoopAt, getNPAt_ofText hzero]
          simp only [Option.bind_eq_bind, Option.bind_some, if_neg hzero, wrongCaseAt_ofText, hcase]
          rfl
      | false =>
          have hlen : (getNP p).2.length < rounds := by
            cases p with
            | nil => exact absurd rfl hzero
            | cons c p =>
                exact Nat.lt_of_le_of_lt (length_getNP_le c p) (Nat.lt_of_succ_lt_succ hrounds)
          by_cases hstar : (getNP p).1 = 0x2a ∨ (getNP p).1 = 3000
          · exact fnOs2LoopAt_star hagrees hlen hp hs hcase hstar
          by_cases hset : (getNP p).1 = 0x5b
          · exact fnOs2LoopAt_range hagrees hlen hp hs hcase hset
          exact fnOs2LoopAt_element himatch hagrees hlen hp hs hzero hcase hstar hset

end

/-! ## Other name spaces -/

section

variable {rounds : Nat} {c : UInt8} {p s : List UInt8}

/-- What stands behind 0xff is taken with it unless it means nothing there. -/
theorem nsCodeAt_ofText (c : UInt8) (p : List UInt8) :
    nsCodeAt c (ofText p) = some (nsCode c p, ofText (nsRest c p)) := by
  unfold nsCodeAt nsCode nsRest
  by_cases hlead : c = 0xff
  · cases p with
    | nil => simp [hlead, peek, wildCode]
    | cons d p =>
      by_cases hwild : 1000 ≤ wildCode d <;> simp [hlead, peek, hwild]
  · simp [hlead]

theorem noNul_nsRest (hp : 0 ∉ c :: p) : 0 ∉ nsRest c p := fun hmem =>
  hp (List.mem_cons_of_mem c ((nsRest_suffix c p).mem hmem))

/-- Only a 0xff at the end of the pattern reads as 0. -/
theorem nsRest_of_nsCode_zero (hp : 0 ∉ c :: p) (h : nsCode c p = 0) : nsRest c p = [] := by
  unfold nsCode at h
  split at h
  · have hnil : p = [] :=
      (peek_eq_zero (List.not_mem_of_not_mem_cons hp)).mp (wildCode_eq_zero.mp h)
    rw [nsRest, hnil, List.drop_nil]
  · exact absurd (UInt8.toNat_inj.mp h : c = 0) (List.ne_of_not_mem_cons hp).symm

/-- So many rounds of `namespace_fn_match` do what the matcher on lists does. -/
def NsAgrees (rounds : Nat) : Prop :=
  ∀ {p s : List UInt8}, p.length < rounds → 0 ∉ p → 0 ∉ s →
    namespaceFnLoopAt rounds (ofText p) (ofText s) = namespaceFnMatch p s

theorem namespaceFnLoopAt_star (hagrees : NsAgrees rounds) (hlen : (nsRest c p).length < rounds)
    (hp : 0 ∉ c :: p) (hs : 0 ∉ s) (h : nsCode c p = 3000) :
    namespaceFnLoopAt (rounds + 1) (ofText (c :: p)) (ofText s) = namespaceFnMatch (c :: p) s := by
  have hc : c ≠ 0 := (List.ne_of_not_mem_cons hp).symm
  have hesc : c ≠ 0x5c := ne_escape h (by decide)
  have hrest : 0 ∉ nsRest c p := noNul_nsRest hp
  have hread : read (ofText (nsRest c p)) = some (peek (nsRest c p)) := read_ofText _
  have htries := tryAll_ofText (fun s => namespaceFnLoopAt rounds (ofText (nsRest c p)) s)
    (fun s => namespaceFnMatch (nsRest c p) s) (fun _ => some false) (fun _ => false) hs
    (fun t ht => hagrees hlen hrest fun hmem => hs (ht.mem hmem)) fun _ => rfl
  rw [namespaceFnMatch_element hesc (by omega), if_neg (by omega), if_neg (by omega), if_pos h,
    namespaceFnLoopAt, ofText_cons, read_cons]
  simp only [Option.bind_eq_bind, Option.bind_some, if_neg hc, List.tail_cons, if_neg hesc,
    nsCodeAt_ofText, hread, htries, peek_eq_zero hrest]
  rw [if_neg (by omega), if_neg (by omega), if_pos h]
  split
  · rfl
  · cases starLoop (fun s => namespaceFnMatch (nsRest c p) s) (fun _ => false) s with
    | none => rfl
    | some result => cases result <;> rfl

theorem namespaceFnLoopAt_range (hagrees : NsAgrees rounds) (hlen : (nsRest c p).length < rounds)
    (hp : 0 ∉ c :: p) (hs : 0 ∉ s) (h : nsCode c p = 0x5b) :
    namespaceFnLoopAt (rounds + 1) (ofText (c :: p)) (ofText s) = namespaceFnMatch (c :: p) s := by
  have hc : c ≠ 0 := (List.ne_of_not_mem_cons hp).symm
  have hesc : c ≠ 0x5c := ne_escape h (by decide)
  have hno : 0 ∉ (rangeNo (nsRest c p)).2 := noNul_rangeNo (noNul_nsRest hp)
  have hle := length_rangeNo_le (nsRest c p)
  rw [namespaceFnLoopAt, ofText_cons, read_cons]
  simp only [Option.bind_eq_bind, Option.bind_some, if_neg hc, List.tail_cons, if_neg hesc,
    nsCodeAt_ofText, rangeNoAt_ofText, read_ofText]
  rw [if_neg (by omega), if_neg (by omega), if_neg (by omega), if_pos h]
  cases hset : (rangeNo (nsRest c p)).2 with
  | nil =>
      rw [namespaceFnMatch_range_end h hset]
      change some (decide (peek s = 0)) = _
      simp only [peek_eq_zero hs]
  | cons pc q =>
      rw [hset] at hno hle
      rw [List.mem_cons, not_or] at hno
      rw [namespaceFnMatch_range h hset]
      change (if pc = 0 then _ else if peek s = 0 then _ else _) = _
      rw [if_neg (Ne.symm hno.1)]
      simp only [peek_eq_zero hs]
      split
      · rfl
      next hne =>
        have hrange := rangeLoopAt_ofText (peek s) (rangeNo (nsRest c p)).1 pc.toNat q
          (rangeNo (nsRest c p)).1 (ofText (pc :: q)).length (by simp [ofText])
        change (rangeLoopAt (peek s) (rangeNo (nsRest c p)).1 (ofText (pc :: q)).length pc.toNat
          (ofText q) (rangeNo (nsRest c p)).1).bind _ = _
        rw [hrange]
        cases hin : rangeLoop (peek s) (rangeNo (nsRest c p)).1 pc.toNat q
            (rangeNo (nsRest c p)).1 with
        | unclosed => rfl
        | behind => rfl
        | closed found rest =>
            have hlt := length_rangeLoop_lt hin
            rw [List.length_cons] at hle
            change (if found = true then
              namespaceFnLoopAt rounds (ofText rest) (ofText s).tail else _) = _
            rw [tail_ofText hne, hagrees (by omega)
              (fun hmem => hno.2 ((suffix_of_rangeLoop hin).mem hmem))
              (fun hmem => hs (List.mem_of_mem_tail hmem))]
            rfl

/-- The elements that take one character. -/
theorem namespaceFnLoopAt_element (hagrees : NsAgrees rounds)
    (hlen : (nsRest c p).length < rounds) (hp : 0 ∉ c :: p) (hs : 0 ∉ s) (hesc : c ≠ 0x5c)
    (hstar : nsCode c p ≠ 3000) (hset : nsCode c p ≠ 0x5b) :
    namespaceFnLoopAt (rounds + 1) (ofText (c :: p)) (ofText s) = namespaceFnMatch (c :: p) s := by
  have hc : c ≠ 0 := (List.ne_of_not_mem_cons hp).symm
  have hread : read (ofText s) = some (peek s) := read_ofText s
  have hnext : s ≠ [] → namespaceFnLoopAt rounds (ofText (nsRest c p)) (ofText s).tail =
      namespaceFnMatch (nsRest c p) s.tail := fun hne => by
    rw [tail_ofText hne]
    exact hagrees hlen (noNul_nsRest hp) fun hmem => hs (List.mem_of_mem_tail hmem)
  rw [namespaceFnMatch_element hesc hset, if_neg hstar, namespaceFnLoopAt, ofText_cons, read_cons]
  simp only [Option.bind_eq_bind, Option.bind_some, if_neg hc, List.tail_cons, if_neg hesc,
    nsCodeAt_ofText, hread, if_neg hstar, if_neg hset]
  by_cases hpoint : nsCode c p = 1000
  · rw [if_pos hpoint, if_pos hpoint]
    split
    · rfl
    next hdot => exact hnext (ne_nil_of_peek (by rw [not_not.mp hdot]; decide))
  rw [if_neg hpoint, if_neg hpoint]
  by_cases hquery : nsCode c p = 2000
  · rw [if_pos hquery, if_pos hquery]
    simp only [peek_eq_zero hs]
    split
    · rfl
    next hne => exact hnext hne
  rw [if_neg hquery, if_neg hquery]
  split
  · rfl
  next heq =>
    symm
    split
    next hnil =>
      -- the name is read behind its end
      subst hnil
      have hzero : nsCode c p = 0 := (not_not.mp heq).symm
      rw [nsRest_of_nsCode_zero hp hzero]
      cases rounds <;> rfl
    next hne => exact (hnext hne).symm

/-- `namespace_fn_match` reads what the matcher on lists says. -/
theorem namespaceFnLoopAt_ofText (rounds : Nat) : NsAgrees rounds := by
  induction rounds with
  | zero => exact fun hrounds => absurd hrounds (Nat.not_lt_zero _)
  | succ rounds hagrees =>
      intro p s hrounds hp hs
      cases p with
      | nil =>
          rw [namespaceFnLoopAt, namespaceFnMatch, read_ofText s]
          change some (decide (peek s = 0)) = _
          simp only [peek_eq_zero hs]
      | cons c p =>
          have hlen : (nsRest c p).length < rounds :=
            Nat.lt_of_le_of_lt (nsRest_suffix c p).length_le (Nat.lt_of_succ_lt_succ hrounds)
          by_cases hesc : c = 0x5c
          · subst hesc
            rw [namespaceFnLoopAt, namespaceFnMatch, if_pos rfl]
            exact hagrees (Nat.lt_of_succ_lt_succ hrounds) (List.not_mem_of_not_mem_cons hp) hs
          by_cases hstar : nsCode c p = 3000
          · exact namespaceFnLoopAt_star hagrees hlen hp hs hstar
          by_cases hset : nsCode c p = 0x5b
          · exact namespaceFnLoopAt_range hagrees hlen hp hs hset
          exact namespaceFnLoopAt_element hagrees hlen hp hs hesc hstar hset

end

/-! ## The matchers -/

/-- `namespace_fn_match` -/
theorem namespaceFnMatchAt_ofText {s p : List UInt8} (hs : 0 ∉ s) (hp : 0 ∉ p) :
    namespaceFnMatchAt (ofText s) (ofText p) = namespaceFnMatch p s :=
  namespaceFnLoopAt_ofText _ (by simp [ofText]) hp hs

/-- `x_str_match` -/
theorem xStrMatchAt_ofText (igncase : Bool) {imatch : UInt8 → UInt8 → Bool}
    (himatch : ∀ c, imatch 0 c = true → c = 0) {s p : List UInt8} (hs : 0 ∉ s) (hp : 0 ∉ p) :
    xStrMatchAt igncase imatch (ofText s) (ofText p) = xStrMatch igncase imatch p s .plain :=
  xStrLoopAt_ofText himatch _ (by simp [ofText]) hp hs

/-- `fn_os2_match` -/
theorem fnOs2MatchAt_ofText (options : VolOptions) {imatch : UInt8 → UInt8 → Bool}
    (himatch : ∀ c, imatch 0 c = true → c = 0) {s p : List UInt8} (hs : 0 ∉ s) (hp : 0 ∉ p) :
    fnOs2MatchAt options imatch (ofText s) (ofText p) = fnOs2Match options imatch p s :=
  fnOs2LoopAt_ofText himatch _ (by simp [ofText]) hp hs

end MarsNwe.NameSpace
