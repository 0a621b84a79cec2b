import MarsNwe.Namspace.MatchParts

/-! # When the DOS matcher stays inside its strings

`x_str_match` of namspace.c, laid along a name as `namespace_fn_match` is, with the states
that it goes through.
-/

namespace MarsNwe.NameSpace

/-- A pattern, a name and a state of the matcher. -/
abbrev XPlace := List UInt8 × List UInt8 × XState

section

variable (igncase : Bool) (imatch : UInt8 → UInt8 → Bool)

/-- The first element of a pattern takes a piece of a name. -/
inductive XTakes : XPlace → XPlace → Prop
  | escape {c d : UInt8} {p s q : List UInt8} (h : xCode c p = 0x5c) (hq : xRest c p = d :: q) :
      XTakes (c :: p, d :: s, .plain) (q, s, .plain)
  | query {c : UInt8} {p s : List UInt8} (h : xCode c p = 0x3f) :
      XTakes (c :: p, s, .plain)
        (xRest c p, s.tail, if peek s = 0 ∨ peek s = 0x2e then .noChar else .plain)
  | point {c : UInt8} {p s : List UInt8} (h : xCode c p = 0x2e) (hs : s = [] ∨ peek s = 0x2e) :
      XTakes (c :: p, s, .plain) (xRest c p, s.tail, .plain)
  | star {c : UInt8} {p s t : List UInt8} (h : xCode c p = 0x2a) (hmore : xRest c p ≠ [])
      (ht : StarPlace (fun d => d = 0x2e) s t) : XTakes (c :: p, s, .plain) (xRest c p, t, .plain)
  | starEnd {c : UInt8} {p s : List UInt8} (h : xCode c p = 0x2a) (hmore : xRest c p ≠ [])
      (hs : ∀ d ∈ s, decide (d = 0x2e) = false) :
      XTakes (c :: p, s, .plain) (xRest c p, [], .atEnd)
  | range {c d pc : UInt8} {p s q rest : List UInt8} (h : xCode c p = 0x5b)
      (hset : (rangeNo (xRest c p)).2 = pc :: q)
      (hin : rangeLoop d (rangeNo (xRest c p)).1 pc.toNat q (rangeNo (xRest c p)).1 =
        .closed true rest) : XTakes (c :: p, d :: s, .plain) (rest, s, .plain)
  | char {c d : UInt8} {p s : List UInt8}
      (h : xCode c p ∉ [(0x5c : UInt8), 0x3f, 0x2e, 0x2a, 0x5b])
      (hsame : xSame igncase imatch d (xCode c p) = true) :
      XTakes (c :: p, d :: s, .plain) (xRest c p, s, .plain)
  | skip {c : UInt8} {p s : List UInt8} (h : xCode c p = 0x2a ∨ xCode c p = 0x3f) :
      XTakes (c :: p, s, .noChar) (xRest c p, s, .noChar)
  | resume {c : UInt8} {p s : List UInt8} (h : xCode c p = 0x2e) :
      XTakes (c :: p, s, .noChar) (xRest c p, s, .plain)
  | endPoint {c : UInt8} {p s : List UInt8} (h : xCode c p = 0x2e) :
      XTakes (c :: p, s, .atEnd) (xRest c p, s, .afterPoint)
  | endStar {c : UInt8} {p s : List UInt8} (h : xCode c p = 0x2a) :
      XTakes (c :: p, s, .afterPoint) (xRest c p, s, .afterPoint)

/-- A pattern is broken here: an escape is its last byte and the name has ended, or a range
ends with a `-` and there is a character to be looked for. -/
inductive XBreaks : XPlace → Prop
  | escape : XBreaks ([0x5c], [], .plain)
  | range {c d pc : UInt8} {p s q : List UInt8} (h : xCode c p = 0x5b)
      (hset : (rangeNo (xRest c p)).2 = pc :: q)
      (hbreak : rangeLoop d (rangeNo (xRest c p)).1 pc.toNat q (rangeNo (xRest c p)).1 =
        .behind) : XBreaks (c :: p, d :: s, .plain)

/-- A pattern with a break in it, wherever a name ends. -/
inductive XBroken : List UInt8 → Prop
  | lone : XBroken [0x5c]
  | range {c pc : UInt8} {p q : List UInt8} (h : xCode c p = 0x5b)
      (hset : (rangeNo (xRest c p)).2 = pc :: q)
      (hbreak : (rangeLoop 0 false pc.toNat q false).left = none) : XBroken (c :: p)
  | behind {c pc : UInt8} {p q rest : List UInt8} (h : xCode c p = 0x5b)
      (hset : (rangeNo (xRest c p)).2 = pc :: q)
      (hin : (rangeLoop 0 false pc.toNat q false).left = some (some rest))
      (hrest : XBroken rest) : XBroken (c :: p)
  | escape {c d : UInt8} {p q : List UInt8} (h : xCode c p = 0x5c) (hq : xRest c p = d :: q)
      (hrest : XBroken q) : XBroken (c :: p)
  | next {c : UInt8} {p : List UInt8} (hesc : xCode c p ≠ 0x5c) (hset : xCode c p ≠ 0x5b)
      (h : XBroken (xRest c p)) : XBroken (c :: p)

variable {igncase imatch} {c : UInt8} {p s : List UInt8} {state : XState}

/-- Behind a name no escape and no range is taken. -/
theorem xStrMatch_other (hstate : state ≠ .plain) (h : xCode c p = 0x5c ∨ xCode c p = 0x5b) :
    xStrMatch igncase imatch (c :: p) s state = some false := by
  cases state with
  | plain => contradiction
  | noChar =>
      rw [xStrMatch_noChar]
      rcases h with h | h <;> rw [h] <;> rfl
  | atEnd =>
      rw [xStrMatch_atEnd]
      rcases h with h | h <;> rw [h] <;> rfl
  | afterPoint =>
      rw [xStrMatch_afterPoint]
      rcases h with h | h <;> rw [h] <;> rfl

/-- A pattern with a break in it is never matched. -/
theorem not_xStrMatch_of_broken (h : XBroken p) (hs : 0 ∉ s) :
    xStrMatch igncase imatch p s state ≠ some true := by
  induction h generalizing s state with
  | lone =>
      by_cases hstate : state = .plain
      · subst hstate
        rw [xStrMatch_element (by decide)]
        change (if peek [] ≠ peek s then some false else none) ≠ some true
        split <;> simp
      · rw [xStrMatch_other hstate (.inl rfl)]
        simp
  | @range c pc p q h hset hbreak =>
      by_cases hstate : state = .plain
      · subst hstate
        have hleft := left_rangeLoop (peek s) 0 (rangeNo (xRest c p)).1 false pc.toNat q
          (rangeNo (xRest c p)).1 false
        rw [hbreak] at hleft
        rw [xStrMatch_range h hset]
        split
        · simp
        · split
          · simp
          · simp
          next heq =>
            rw [heq] at hleft
            cases hleft
      · rw [xStrMatch_other hstate (.inr h)]
        simp
  | @behind c pc p q rest h hset hin hrest ih =>
      by_cases hstate : state = .plain
      · subst hstate
        have hleft := left_rangeLoop (peek s) 0 (rangeNo (xRest c p)).1 false pc.toNat q
          (rangeNo (xRest c p)).1 false
        rw [hin] at hleft
        rw [xStrMatch_range h hset]
        split
        · simp
        · split
          · simp
          · simp
          next found r heq =>
            rw [heq] at hleft
            cases hleft
            split
            · exact ih fun hmem => hs (List.mem_of_mem_tail hmem)
            · simp
      · rw [xStrMatch_other hstate (.inr h)]
        simp
  | @escape c d p q h hq hrest ih =>
      by_cases hstate : state = .plain
      · subst hstate
        rw [xStrMatch_element (by rw [h]; decide), if_pos h, hq]
        split
        · simp
        · exact ih fun hmem => hs (List.mem_of_mem_tail hmem)
      · rw [xStrMatch_other hstate (.inl h)]
        simp
  | @next c p hesc hset h ih =>
      have htail : ∀ state, xStrMatch igncase imatch (xRest c p) s.tail state ≠ some true :=
        fun state => ih fun hmem => hs (List.mem_of_mem_tail hmem)
      have hne : xRest c p ≠ [] := by
        intro hnil
        rw [hnil] at h
        cases h
      cases state with
      | noChar =>
          rw [xStrMatch_noChar]
          split
          · exact ih hs
          · split
            · exact ih hs
            · simp
      | atEnd =>
          rw [xStrMatch_atEnd]
          split
          · simp
          · exact ih hs
      | afterPoint =>
          rw [xStrMatch_afterPoint]
          split
          · simp
          · exact ih hs
      | plain =>
          rw [xStrMatch_element hset, if_neg hesc, if_neg hne]
          by_cases hquery : xCode c p = 0x3f
          · rw [if_pos hquery]
            exact htail _
          rw [if_neg hquery]
          by_cases hpoint : xCode c p = 0x2e
          · rw [if_pos hpoint]
            split
            · simp
            · exact htail _
          rw [if_neg hpoint]
          split
          · split
            · simp
            next result hloop =>
              intro htrue
              rw [Option.some.injEq] at htrue
              subst htrue
              obtain ⟨t, ht, hmatch⟩ := exists_of_starLoop_true hloop
              exact ih (fun hmem => hs (ht.mem hmem)) hmatch
            · exact ih List.not_mem_nil
          · split
            · simp
            · split
              · simp
              · exact htail _

theorem ne_special (h : xCode c p ∉ [(0x5c : UInt8), 0x3f, 0x2e, 0x2a, 0x5b]) :
    xCode c p ≠ 0x5c ∧ xCode c p ≠ 0x3f ∧ xCode c p ≠ 0x2e ∧ xCode c p ≠ 0x2a ∧
      xCode c p ≠ 0x5b := by
  simpa only [List.mem_cons, not_or, List.not_mem_nil, not_false_eq_true, and_true] using h

/-- In the states behind a name every element is one. -/
theorem xTakes_of_other (hstate : state ≠ .plain)
    (h : xStrMatch igncase imatch p s state = none) :
    ∃ d, XTakes igncase imatch (p, s, state) d ∧
      xStrMatch igncase imatch d.1 d.2.1 d.2.2 = none := by
  rcases p with _ | ⟨c, p⟩
  · rw [xStrMatch.eq_def] at h
    cases h
  cases state with
  | plain => contradiction
  | noChar =>
      rw [xStrMatch_noChar] at h
      split at h
      next hskip => exact ⟨_, .skip hskip, h⟩
      · split at h
        next hpoint => exact ⟨_, .resume hpoint, h⟩
        · cases h
  | atEnd =>
      rw [xStrMatch_atEnd] at h
      split at h
      · cases h
      next hpoint => exact ⟨_, .endPoint (not_not.mp hpoint), h⟩
  | afterPoint =>
      rw [xStrMatch_afterPoint] at h
      split at h
      · cases h
      next hstar => exact ⟨_, .endStar (not_not.mp hstar), h⟩

theorem eq_of_unwild {c : UInt8} (h : unwild c = 0x5c) : c = 0x5c := by
  unfold unwild at h
  split at h
  · cases h
  · split at h
    · cases h
    · split at h
      · cases h
      · exact h

/-- Only an escape reads as one. -/
theorem eq_escape (h : xCode c p = 0x5c) : c = 0x5c ∧ xRest c p = p := by
  by_cases hlead : c = 0xff ∧ isWildByte (peek p) = true
  · rw [xCode, if_pos hlead] at h
    rw [eq_of_unwild h] at hlead
    cases hlead.2
  · rw [xCode, if_neg hlead] at h
    exact ⟨eq_of_unwild h, by rw [xRest, if_neg hlead, List.drop_zero]⟩

/-- Where the matcher reads behind a string, the pattern breaks or an element takes a piece
of the name. -/
theorem xBreaks_or_takes (himatch : ∀ c, imatch 0 c = true → c = 0) (hp : 0 ∉ p) (hs : 0 ∉ s)
    (h : xStrMatch igncase imatch p s state = none) :
    XBreaks (p, s, state) ∨ ∃ d, XTakes igncase imatch (p, s, state) d ∧
      xStrMatch igncase imatch d.1 d.2.1 d.2.2 = none := by
  by_cases hstate : state = .plain
  · subst hstate
    rcases p with _ | ⟨c, p⟩
    · rw [xStrMatch.eq_def] at h
      cases h
    by_cases hset : xCode c p = 0x5b
    · cases hno : (rangeNo (xRest c p)).2 with
      | nil =>
          rw [xStrMatch_range_end hset hno] at h
          cases h
      | cons pc q =>
          rw [xStrMatch_range hset hno] at h
          cases s with
          | nil => cases h
          | cons d s =>
              rw [if_neg (List.cons_ne_nil d s)] at h
              split at h
              · cases h
              next hbreak => exact .inl (.range hset hno hbreak)
              next found rest hin =>
                cases found with
                | false => cases h
                | true => exact .inr ⟨_, .range hset hno hin, h⟩
    rw [xStrMatch_element hset] at h
    by_cases hesc : xCode c p = 0x5c
    · rw [if_pos hesc] at h
      obtain ⟨rfl, hrest⟩ := eq_escape hesc
      rw [hrest] at h
      split at h
      · cases h
      next hpeek =>
        rcases p with _ | ⟨d, q⟩
        · rw [(peek_eq_zero hs).mp (not_not.mp hpeek).symm]
          exact .inl .escape
        · rcases s with _ | ⟨e, s⟩
          · exact absurd (not_not.mp hpeek : d = 0) fun hd => hp (by simp [hd])
          · obtain rfl : d = e := not_not.mp hpeek
            exact .inr ⟨_, .escape hesc hrest, h⟩
    rw [if_neg hesc] at h
    by_cases hquery : xCode c p = 0x3f
    · rw [if_pos hquery] at h
      exact .inr ⟨_, .query hquery, h⟩
    rw [if_neg hquery] at h
    by_cases hpoint : xCode c p = 0x2e
    · rw [if_pos hpoint] at h
      split at h
      · cases h
      next hdot => exact .inr ⟨_, .point hpoint (by tauto), h⟩
    rw [if_neg hpoint] at h
    by_cases hstar : xCode c p = 0x2a
    · rw [if_pos hstar] at h
      split at h
      · cases h
      next hmore =>
        split at h
        next hloop =>
          obtain ⟨t, ht, hnone⟩ := exists_of_starLoop_none hloop
          exact .inr ⟨_, .star hstar hmore ht, hnone⟩
        · cases h
        next hloop => exact .inr ⟨_, .starEnd hstar hmore (forall_of_starLoop_end hloop), h⟩
    rw [if_neg hstar] at h
    split at h
    · cases h
    next hsame =>
      cases s with
      | nil =>
          -- no byte of a pattern is taken for the terminator
          have hzero := xCode_ne_zero hp
          simp only [xSame, Bool.not_eq_true', Bool.not_eq_false] at hsame
          split at hsame
          · exact absurd (himatch _ hsame) hzero
          · exact absurd (eq_of_beq hsame).symm hzero
      | cons d s =>
          have hsame : xSame igncase imatch (peek (d :: s)) (xCode c p) = true := by
            simpa only [Bool.not_eq_true', Bool.not_eq_false] using hsame
          exact .inr ⟨_, .char (by simp [hesc, hquery, hpoint, hstar, hset]) hsame, h⟩
  · exact .inr (xTakes_of_other hstate h)

theorem none_of_xBreaks {d : XPlace} (h : XBreaks d) :
    xStrMatch igncase imatch d.1 d.2.1 d.2.2 = none := by
  cases h with
  | escape =>
      rw [xStrMatch_element (by decide)]
      rfl
  | @range c d pc p s q h hset hbreak =>
      change xStrMatch igncase imatch (c :: p) (d :: s) .plain = none
      rw [xStrMatch_range h hset, if_neg (List.cons_ne_nil d s), peek_cons, hbreak]

theorem none_of_xTakes {d : XPlace} (hs : 0 ∉ s) (h : XTakes igncase imatch (p, s, state) d)
    (hbroken : XBroken d.1) (hnone : xStrMatch igncase imatch d.1 d.2.1 d.2.2 = none) :
    xStrMatch igncase imatch p s state = none := by
  have hnever : ∀ u, u <:+ s → ∀ state, xStrMatch igncase imatch d.1 u state ≠ some true :=
    fun u hu state => not_xStrMatch_of_broken hbroken fun hmem => hs (hu.mem hmem)
  cases h with
  | @escape c e p s q h hq =>
      rw [xStrMatch_element (by rw [h]; decide), if_pos h, hq]
      exact (if_neg (not_not.mpr rfl)).trans hnone
  | query h =>
      rw [xStrMatch_element (by rw [h]; decide), h]
      exact hnone
  | point h hpoint =>
      rw [xStrMatch_element (by rw [h]; decide), h]
      change (if s ≠ [] ∧ peek s ≠ 0x2e then _ else _) = _
      rw [if_neg (by tauto)]
      exact hnone
  | star h hmore ht =>
      rw [xStrMatch_element (by rw [h]; decide), h]
      change (if _ = [] then _ else _) = _
      rw [if_neg hmore, starLoop_eq_none ht hnone fun u hu => hnever u hu .plain]
  | starEnd h hmore hall =>
      rw [xStrMatch_element (by rw [h]; decide), h]
      change (if _ = [] then _ else _) = _
      rw [if_neg hmore]
      rcases starLoop_of_forall hall fun u hu => hnever u hu .plain with hloop | hloop
      · rw [hloop]
      · rw [hloop]
        exact hnone
  | @range c e pc p s q rest h hset hin =>
      rw [xStrMatch_range h hset, if_neg (List.cons_ne_nil e s), peek_cons, hin]
      exact hnone
  | @char c e p s h hsame =>
      obtain ⟨hesc, hquery, hpoint, hstar, hset⟩ := ne_special h
      rw [xStrMatch_element hset, if_neg hesc, if_neg hquery, if_neg hpoint, if_neg hstar]
      change (if (!xSame igncase imatch e (xCode c p)) = true then _ else _) = _
      rw [hsame]
      exact hnone
  | skip h =>
      rw [xStrMatch_noChar, if_pos h]
      exact hnone
  | resume h =>
      rw [xStrMatch_noChar, h]
      exact hnone
  | endPoint h =>
      rw [xStrMatch_atEnd, h]
      exact hnone
  | endStar h =>
      rw [xStrMatch_afterPoint, h]
      exact hnone

theorem xBroken_of_xBreaks {d : XPlace} (h : XBreaks d) : XBroken d.1 := by
  cases h with
  | escape => exact .lone
  | @range c d pc p s q h hset hbreak =>
      refine .range h hset ?_
      rw [left_rangeLoop 0 d false (rangeNo (xRest c p)).1 _ _ false (rangeNo (xRest c p)).1,
        hbreak]
      rfl

theorem xBroken_of_xTakes {a b : XPlace} (h : XTakes igncase imatch a b) (hb : XBroken b.1) :
    XBroken a.1 := by
  cases h with
  | escape h hq => exact .escape h hq hb
  | query h => exact .next (by rw [h]; decide) (by rw [h]; decide) hb
  | point h hs => exact .next (by rw [h]; decide) (by rw [h]; decide) hb
  | star h hmore ht => exact .next (by rw [h]; decide) (by rw [h]; decide) hb
  | starEnd h hmore hs => exact .next (by rw [h]; decide) (by rw [h]; decide) hb
  | @range c d pc p s q rest h hset hin =>
      refine .behind h hset ?_ hb
      rw [left_rangeLoop 0 d false (rangeNo (xRest c p)).1 _ _ false (rangeNo (xRest c p)).1, hin]
      rfl
  | char h hsame =>
      obtain ⟨hesc, -, -, -, hset⟩ := ne_special h
      exact .next hesc hset hb
  | skip h =>
      rcases h with h | h
      · exact .next (by rw [h]; decide) (by rw [h]; decide) hb
      · exact .next (by rw [h]; decide) (by rw [h]; decide) hb
  | resume h => exact .next (by rw [h]; decide) (by rw [h]; decide) hb
  | endPoint h => exact .next (by rw [h]; decide) (by rw [h]; decide) hb
  | endStar h => exact .next (by rw [h]; decide) (by rw [h]; decide) hb

/-- Every element takes something of the pattern, and nothing is put in front. -/
theorem XTakes.suffix {a b : XPlace} (h : XTakes igncase imatch a b) :
    (b.1 <:+ a.1 ∧ b.1.length < a.1.length) ∧ b.2.1 <:+ a.2.1 := by
  cases h with
  | @escape c d p s q h hq =>
      have hrest : q <:+ p := (List.suffix_cons d q).trans (hq ▸ xRest_suffix c p)
      exact ⟨suffix_cons_of _ hrest, List.suffix_cons _ _⟩
  | query h => exact ⟨suffix_cons_of _ (xRest_suffix _ _), List.tail_suffix _⟩
  | point h hs => exact ⟨suffix_cons_of _ (xRest_suffix _ _), List.tail_suffix _⟩
  | star h hmore ht => exact ⟨suffix_cons_of _ (xRest_suffix _ _), ht.suffix⟩
  | starEnd h hmore hs => exact ⟨suffix_cons_of _ (xRest_suffix _ _), List.nil_suffix⟩
  | @range c d pc p s q rest h hset hin =>
      have hrest : rest <:+ p := (suffix_of_rangeLoop hin).trans
        ((List.suffix_cons pc q).trans (hset ▸ (rangeNo_suffix _).trans (xRest_suffix c p)))
      exact ⟨suffix_cons_of _ hrest, List.suffix_cons _ _⟩
  | char h hsame => exact ⟨suffix_cons_of _ (xRest_suffix _ _), List.suffix_cons _ _⟩
  | skip h => exact ⟨suffix_cons_of _ (xRest_suffix _ _), List.suffix_rfl⟩
  | resume h => exact ⟨suffix_cons_of _ (xRest_suffix _ _), List.suffix_rfl⟩
  | endPoint h => exact ⟨suffix_cons_of _ (xRest_suffix _ _), List.suffix_rfl⟩
  | endStar h => exact ⟨suffix_cons_of _ (xRest_suffix _ _), List.suffix_rfl⟩

/-- `x_str_match` as a search. -/
def xSearch (igncase : Bool) {imatch : UInt8 → UInt8 → Bool}
    (himatch : ∀ c, imatch 0 c = true → c = 0) : Backtrack XPlace (List UInt8) where
  run d := xStrMatch igncase imatch d.1 d.2.1 d.2.2
  next := XTakes igncase imatch
  stuck := XBreaks
  part := Prod.fst
  ok d := 0 ∉ d.1 ∧ 0 ∉ d.2.1
  broken := XBroken
  wf := Subrelation.wf (fun h => (XTakes.suffix h).1.2) (measure fun d : XPlace => d.1.length).wf
  stuck_or_next _ hok h := xBreaks_or_takes himatch hok.1 hok.2 h
  run_of_stuck _ h := none_of_xBreaks h
  run_of_next _ _ hok h hbroken hnone := none_of_xTakes hok.2 h hbroken hnone
  broken_of_stuck _ h := xBroken_of_xBreaks h
  broken_of_next _ _ h hd := xBroken_of_xTakes h hd
  ok_of_next _ _ h hok :=
    ⟨fun hmem => hok.1 ((XTakes.suffix h).1.1.mem hmem),
      fun hmem => hok.2 ((XTakes.suffix h).2.mem hmem)⟩

end

end MarsNwe.NameSpace
