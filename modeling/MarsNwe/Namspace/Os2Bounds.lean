import MarsNwe.Namspace.MatchParts

/-! # When the OS/2 matcher stays inside its strings

`fn_os2_match`, laid along a name as the other matchers are. `get_n_p` meets the end of a
pattern where the pattern ends in an escape or in 0xff, so only a range breaks a pattern.
-/

namespace MarsNwe.NameSpace

section

variable (options : VolOptions) (imatch : UInt8 → UInt8 → Bool)

/-- The first element of a pattern takes a piece of a name. -/
inductive Os2Takes : List UInt8 × List UInt8 → List UInt8 × List UInt8 → Prop
  | point {p s : List UInt8} (h : (getNP p).1 = 0x2e ∨ (getNP p).1 = 1000)
      (hcase : wrongCase options (peek s) = false) (hs : s = [] ∨ peek s = 0x2e) :
      Os2Takes (p, s) ((getNP p).2, s.tail)
  | query {d : UInt8} {p s : List UInt8} (h : (getNP p).1 = 0x3f ∨ (getNP p).1 = 2000)
      (hcase : wrongCase options d = false) : Os2Takes (p, d :: s) ((getNP p).2, s)
  | star {p s t : List UInt8} (h : (getNP p).1 = 0x2a ∨ (getNP p).1 = 3000)
      (hcase : wrongCase options (peek s) = false) (hmore : (getNP p).2 ≠ [])
      (ht : StarPlace (fun d => d = 0x2e && lastOne (getNP p).2) s t) :
      Os2Takes (p, s) ((getNP p).2, t)
  | starEnd {p s : List UInt8} (h : (getNP p).1 = 0x2a ∨ (getNP p).1 = 3000)
      (hcase : wrongCase options (peek s) = false) (hmore : (getNP p).2 ≠ [])
      (hs : ∀ d ∈ s, (d = 0x2e && lastOne (getNP p).2) = false)
      (hnext : (getNP (getNP p).2).1 = 0x2e ∨ (getNP (getNP p).2).1 = 1000) :
      Os2Takes (p, s) ((getNP p).2, [])
  | range {d : UInt8} {p s rest : List UInt8} (h : (getNP p).1 = 0x5b)
      (hcase : wrongCase options d = false)
      (hfirst : (getNP (rangeNo (getNP p).2).2).1 ≠ 0)
      (hin : rangeLoop d (rangeNo (getNP p).2).1 (getNP (rangeNo (getNP p).2).2).1
        (getNP (rangeNo (getNP p).2).2).2 (rangeNo (getNP p).2).1 = .closed true rest) :
      Os2Takes (p, d :: s) (rest, s)
  | char {d : UInt8} {p s : List UInt8} (hzero : (getNP p).1 ≠ 0)
      (h : (getNP p).1 ∉ [0x2e, 1000, 0x3f, 2000, 0x2a, 3000, 0x5b])
      (hcase : wrongCase options d = false) (hsame : os2Same options imatch d (getNP p).1 = true) :
      Os2Takes (p, d :: s) ((getNP p).2, s)

/-- A pattern is broken here: a range ends with a `-` and there is a character to be
looked for. -/
inductive Os2Breaks : List UInt8 × List UInt8 → Prop
  | range {d : UInt8} {p s : List UInt8} (h : (getNP p).1 = 0x5b)
      (hcase : wrongCase options d = false)
      (hfirst : (getNP (rangeNo (getNP p).2).2).1 ≠ 0)
      (hbreak : rangeLoop d (rangeNo (getNP p).2).1 (getNP (rangeNo (getNP p).2).2).1
        (getNP (rangeNo (getNP p).2).2).2 (rangeNo (getNP p).2).1 = .behind) :
      Os2Breaks (p, d :: s)

/-- A pattern with a break in it, wherever a name ends. -/
inductive Os2Broken : List UInt8 → Prop
  | range {p : List UInt8} (h : (getNP p).1 = 0x5b)
      (hfirst : (getNP (rangeNo (getNP p).2).2).1 ≠ 0)
      (hbreak : (rangeLoop 0 false (getNP (rangeNo (getNP p).2).2).1
        (getNP (rangeNo (getNP p).2).2).2 false).left = none) : Os2Broken p
  | behind {p rest : List UInt8} (h : (getNP p).1 = 0x5b)
      (hfirst : (getNP (rangeNo (getNP p).2).2).1 ≠ 0)
      (hin : (rangeLoop 0 false (getNP (rangeNo (getNP p).2).2).1
        (getNP (rangeNo (getNP p).2).2).2 false).left = some (some rest))
      (hrest : Os2Broken rest) : Os2Broken p
  | next {p : List UInt8} (hzero : (getNP p).1 ≠ 0) (hset : (getNP p).1 ≠ 0x5b)
      (h : Os2Broken (getNP p).2) : Os2Broken p

variable {options imatch} {p s : List UInt8}

theorem not_os2Broken_nil : ¬ Os2Broken [] := by
  intro h
  cases h with
  | range h => cases h
  | behind h => cases h
  | next hzero => exact hzero rfl

/-- A pattern with a break in it is never matched. -/
theorem not_fnOs2Match_of_broken (h : Os2Broken p) (hs : 0 ∉ s) :
    fnOs2Match options imatch p s ≠ some true := by
  induction h generalizing s with
  | @range p h hfirst hbreak =>
      cases hcase : wrongCase options (peek s) with
      | true =>
          rw [fnOs2Match_wrongCase (by omega) hcase]
          simp
      | false =>
          have hleft := left_rangeLoop (peek s) 0 (rangeNo (getNP p).2).1 false
            (getNP (rangeNo (getNP p).2).2).1 (getNP (rangeNo (getNP p).2).2).2
            (rangeNo (getNP p).2).1 false
          rw [hbreak] at hleft
          rw [fnOs2Match_range h hcase hfirst]
          split
          · simp
          · split
            · simp
            · simp
            next heq =>
              rw [heq] at hleft
              cases hleft
  | @behind p rest h hfirst hin hrest ih =>
      cases hcase : wrongCase options (peek s) with
      | true =>
          rw [fnOs2Match_wrongCase (by omega) hcase]
          simp
      | false =>
          have hleft := left_rangeLoop (peek s) 0 (rangeNo (getNP p).2).1 false
            (getNP (rangeNo (getNP p).2).2).1 (getNP (rangeNo (getNP p).2).2).2
            (rangeNo (getNP p).2).1 false
          rw [hin] at hleft
          rw [fnOs2Match_range h hcase hfirst]
          split
          · simp
          · split
            · simp
            · simp
            next found r heq =>
              rw [heq] at hleft
              cases hleft
              split
              · exact ih fun hmem => hs (List.mem_of_mem_tail hmem)
              · simp
  | @next p hzero hset h ih =>
      cases hcase : wrongCase options (peek s) with
      | true =>
          rw [fnOs2Match_wrongCase hzero hcase]
          simp
      | false =>
          have htail : fnOs2Match options imatch (getNP p).2 s.tail ≠ some true :=
            ih fun hmem => hs (List.mem_of_mem_tail hmem)
          have hne : (getNP p).2 ≠ [] := by
            intro hnil
            rw [hnil] at h
            exact not_os2Broken_nil h
          rw [fnOs2Match_element hzero hcase hset, if_neg hne]
          split
          · split
            · simp
            · exact htail
          · split
            · split
              · simp
              · exact htail
            · split
              · split
                · simp
                next result hloop =>
                  intro htrue
                  rw [Option.some.injEq] at htrue
                  subst htrue
                  obtain ⟨t, ht, hmatch⟩ := exists_of_starLoop_true hloop
                  exact ih (fun hmem => hs (ht.mem hmem)) hmatch
                · split
                  · exact ih List.not_mem_nil
                  · simp
              · split
                · simp
                · split
                  · simp
                  · exact htail

/-- Where the matcher reads behind a string, the pattern breaks or an element takes a piece
of the name. -/
theorem os2Breaks_or_takes (himatch : ∀ c, imatch 0 c = true → c = 0)
    (h : fnOs2Match options imatch p s = none) :
    Os2Breaks options (p, s) ∨ ∃ d, Os2Takes options imatch (p, s) d ∧
      fnOs2Match options imatch d.1 d.2 = none := by
  by_cases hzero : (getNP p).1 = 0
  · rw [fnOs2Match_end hzero] at h
    cases h
  cases hcase : wrongCase options (peek s) with
  | true =>
      rw [fnOs2Match_wrongCase hzero hcase] at h
      cases h
  | false =>
      by_cases hset : (getNP p).1 = 0x5b
      · by_cases hfirst : (getNP (rangeNo (getNP p).2).2).1 = 0
        · rw [fnOs2Match_range_end hset hcase hfirst] at h
          cases h
        · rw [fnOs2Match_range hset hcase hfirst] at h
          cases s with
          | nil => cases h
          | cons d s =>
              rw [if_neg (List.cons_ne_nil d s)] at h
              split at h
              · cases h
              next hbreak => exact .inl (.range hset hcase hfirst hbreak)
              next found rest hin =>
                cases found with
                | false => cases h
                | true => exact .inr ⟨_, .range hset hcase hfirst hin, h⟩
      rw [fnOs2Match_element hzero hcase hset] at h
      by_cases hpoint : (getNP p).1 = 0x2e ∨ (getNP p).1 = 1000
      · rw [if_pos hpoint] at h
        split at h
        · cases h
        next hdot => exact .inr ⟨_, .point hpoint hcase (by tauto), h⟩
      rw [if_neg hpoint] at h
      by_cases hquery : (getNP p).1 = 0x3f ∨ (getNP p).1 = 2000
      · rw [if_pos hquery] at h
        cases s with
        | nil => cases h
        | cons d s => exact .inr ⟨_, .query hquery hcase, h⟩
      rw [if_neg hquery] at h
      by_cases hstar : (getNP p).1 = 0x2a ∨ (getNP p).1 = 3000
      · rw [if_pos hstar] at h
        split at h
        · cases h
        next hmore =>
          split at h
          next hloop =>
            obtain ⟨t, ht, hnone⟩ := exists_of_starLoop_none hloop
            exact .inr ⟨_, .star hstar hcase hmore ht, hnone⟩
          · cases h
          next hloop =>
            split at h
            next hnext =>
              exact .inr ⟨_, .starEnd hstar hcase hmore (forall_of_starLoop_end hloop) hnext, h⟩
            · cases h
      rw [if_neg hstar] at h
      split at h
      · cases h
      next hsame =>
        have hsame : os2Same options imatch (peek s) (getNP p).1 = true := by
          simpa only [Bool.not_eq_true', Bool.not_eq_false] using hsame
        rw [not_or] at hpoint hquery hstar
        cases s with
        | nil =>
            -- no byte of a pattern is taken for the terminator
            have hlt := getNP_lt p
            unfold os2Same at hsame
            split at hsame
            · have hbyte := congrArg UInt8.toNat (himatch _ hsame)
              rw [UInt8.toNat_ofNat'] at hbyte
              have hbyte : (getNP p).1 % 256 = 0 := hbyte
              omega
            · exact absurd (eq_of_beq hsame).symm hzero
        | cons d s =>
            exact .inr ⟨_, .char hzero (by simp [hpoint, hquery, hstar, hset]) hcase hsame, h⟩

theorem none_of_os2Breaks {d : List UInt8 × List UInt8} (h : Os2Breaks options d) :
    fnOs2Match options imatch d.1 d.2 = none := by
  cases h with
  | @range d p s h hcase hfirst hbreak =>
      change fnOs2Match options imatch p (d :: s) = none
      rw [fnOs2Match_range h hcase hfirst, if_neg (List.cons_ne_nil d s), peek_cons, hbreak]

theorem none_of_os2Takes {d : List UInt8 × List UInt8} (hs : 0 ∉ s)
    (h : Os2Takes options imatch (p, s) d) (hbroken : Os2Broken d.1)
    (hnone : fnOs2Match options imatch d.1 d.2 = none) :
    fnOs2Match options imatch p s = none := by
  have hnever : ∀ u, u <:+ s → fnOs2Match options imatch d.1 u ≠ some true :=
    fun u hu => not_fnOs2Match_of_broken hbroken fun hmem => hs (hu.mem hmem)
  cases h with
  | point h hcase hpoint =>
      rw [fnOs2Match_element (by omega) hcase (by omega), if_pos h, if_neg (by tauto)]
      exact hnone
  | query h hcase =>
      rw [fnOs2Match_element (by omega) hcase (by omega), if_neg (by omega), if_pos h]
      exact hnone
  | star h hcase hmore ht =>
      rw [fnOs2Match_element (by omega) hcase (by omega), if_neg (by omega), if_neg (by omega),
        if_pos h, if_neg hmore, starLoop_eq_none ht hnone hnever]
  | starEnd h hcase hmore hall hnext =>
      rw [fnOs2Match_element (by omega) hcase (by omega), if_neg (by omega), if_neg (by omega),
        if_pos h, if_neg hmore]
      rcases starLoop_of_forall hall hnever with hloop | hloop
      · rw [hloop]
      · rw [hloop]
        exact (if_pos hnext).trans hnone
  | @range e p s rest h hcase hfirst hin =>
      rw [fnOs2Match_range h hcase hfirst, if_neg (List.cons_ne_nil e s), peek_cons, hin]
      exact hnone
  | @char e p s hzero h hcase hsame =>
      simp only [List.mem_cons, not_or, List.not_mem_nil, not_false_eq_true, and_true] at h
      rw [fnOs2Match_element hzero hcase (by omega), if_neg (by omega), if_neg (by omega),
        if_neg (by omega)]
      change (if (!os2Same options imatch e (getNP p).1) = true then _ else _) = _
      rw [hsame]
      exact hnone

theorem os2Broken_of_os2Breaks {d : List UInt8 × List UInt8} (h : Os2Breaks options d) :
    Os2Broken d.1 := by
  cases h with
  | @range d p s h hcase hfirst hbreak =>
      refine .range h hfirst ?_
      rw [left_rangeLoop 0 d false (rangeNo (getNP p).2).1 _ _ false (rangeNo (getNP p).2).1,
        hbreak]
      rfl

theorem os2Broken_of_os2Takes {a b : List UInt8 × List UInt8}
    (h : Os2Takes options imatch a b) (hb : Os2Broken b.1) : Os2Broken a.1 := by
  cases h with
  | @point p s h hcase hs => exact show Os2Broken p from .next (by omega) (by omega) hb
  | @query d p s h hcase => exact show Os2Broken p from .next (by omega) (by omega) hb
  | @star p s t h hcase hmore ht => exact show Os2Broken p from .next (by omega) (by omega) hb
  | @starEnd p s h hcase hmore hs hnext =>
      exact show Os2Broken p from .next (by omega) (by omega) hb
  | @range d p s rest h hcase hfirst hin =>
      refine .behind h hfirst ?_ hb
      rw [left_rangeLoop 0 d false (rangeNo (getNP p).2).1 _ _ false (rangeNo (getNP p).2).1, hin]
      rfl
  | @char d p s hzero h hcase hsame =>
      simp only [List.mem_cons, not_or, List.not_mem_nil, not_false_eq_true, and_true] at h
      exact show Os2Broken p from .next hzero (by omega) hb

theorem getNP_shorter (h : (getNP p).1 ≠ 0) :
    (getNP p).2 <:+ p ∧ (getNP p).2.length < p.length := by
  refine ⟨getNP_suffix p, ?_⟩
  cases p with
  | nil => exact absurd rfl h
  | cons c p => exact Nat.lt_succ_of_le (length_getNP_le c p)

/-- Every element takes something of the pattern, and nothing is put in front. -/
theorem Os2Takes.suffix {a b : List UInt8 × List UInt8} (h : Os2Takes options imatch a b) :
    (b.1 <:+ a.1 ∧ b.1.length < a.1.length) ∧ b.2 <:+ a.2 := by
  cases h with
  | point h hcase hs => exact ⟨getNP_shorter (by omega), List.tail_suffix _⟩
  | query h hcase => exact ⟨getNP_shorter (by omega), List.suffix_cons _ _⟩
  | star h hcase hmore ht => exact ⟨getNP_shorter (by omega), ht.suffix⟩
  | starEnd h hcase hmore hs hnext => exact ⟨getNP_shorter (by omega), List.nil_suffix⟩
  | @range d p s rest h hcase hfirst hin =>
      have hrest : rest <:+ (getNP p).2 := (suffix_of_rangeLoop hin).trans
        ((getNP_suffix _).trans (rangeNo_suffix _))
      have hshorter := getNP_shorter (by omega : (getNP p).1 ≠ 0)
      exact ⟨⟨hrest.trans hshorter.1, Nat.lt_of_le_of_lt hrest.length_le hshorter.2⟩,
        List.suffix_cons _ _⟩
  | char hzero h hcase hsame => exact ⟨getNP_shorter hzero, List.suffix_cons _ _⟩

/-- `fn_os2_match` as a search. -/
def os2Search (options : VolOptions) {imatch : UInt8 → UInt8 → Bool}
    (himatch : ∀ c, imatch 0 c = true → c = 0) :
    Backtrack (List UInt8 × List UInt8) (List UInt8) where
  run d := fnOs2Match options imatch d.1 d.2
  next := Os2Takes options imatch
  stuck := Os2Breaks options
  part := Prod.fst
  ok d := 0 ∉ d.1 ∧ 0 ∉ d.2
  broken := Os2Broken
  wf := Subrelation.wf (fun h => (Os2Takes.suffix h).1.2)
    (measure fun d : List UInt8 × List UInt8 => d.1.length).wf
  stuck_or_next _ _ h := os2Breaks_or_takes himatch h
  run_of_stuck _ h := none_of_os2Breaks h
  run_of_next _ _ hok h hbroken hnone := none_of_os2Takes hok.2 h hbroken hnone
  broken_of_stuck _ h := os2Broken_of_os2Breaks h
  broken_of_next _ _ h hd := os2Broken_of_os2Takes h hd
  ok_of_next _ _ h hok :=
    ⟨fun hmem => hok.1 ((Os2Takes.suffix h).1.1.mem hmem),
      fun hmem => hok.2 ((Os2Takes.suffix h).2.mem hmem)⟩

end

end MarsNwe.NameSpace
