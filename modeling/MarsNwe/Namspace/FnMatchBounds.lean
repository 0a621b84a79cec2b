import MarsNwe.Namspace.MatchParts

/-! # When `namespace_fn_match` stays inside its strings

A pattern is laid along a name, element by element. The matcher leaves its strings where
the pattern is broken and what stands before the break fits the front of the name.
-/

namespace MarsNwe.NameSpace

/-- The first element of a pattern takes a piece of a name; both go on behind it. -/
inductive NsTakes : List UInt8 × List UInt8 → List UInt8 × List UInt8 → Prop
  | escape {p s : List UInt8} : NsTakes (0x5c :: p, s) (p, s)
  | point {c : UInt8} {p s : List UInt8} (h : nsCode c p = 1000) :
      NsTakes (c :: p, 0x2e :: s) (nsRest c p, s)
  | query {c d : UInt8} {p s : List UInt8} (h : nsCode c p = 2000) :
      NsTakes (c :: p, d :: s) (nsRest c p, s)
  | star {c : UInt8} {p s t : List UInt8} (h : nsCode c p = 3000) (hmore : nsRest c p ≠ [])
      (ht : StarPlace (fun _ => false) s t) : NsTakes (c :: p, s) (nsRest c p, t)
  | range {c d pc : UInt8} {p s q rest : List UInt8} (h : nsCode c p = 0x5b)
      (hset : (rangeNo (nsRest c p)).2 = pc :: q)
      (hin : rangeLoop d (rangeNo (nsRest c p)).1 pc.toNat q (rangeNo (nsRest c p)).1 =
        .closed true rest) : NsTakes (c :: p, d :: s) (rest, s)
  | char {c d : UInt8} {p s : List UInt8} (hesc : c ≠ 0x5c) (hset : nsCode c p ≠ 0x5b)
      (h : d.toNat = nsCode c p) : NsTakes (c :: p, d :: s) (nsRest c p, s)

/-- A pattern is broken here: a 0xff is its last byte and the name has ended, or a range
ends with a `-` and there is a character to be looked for. -/
inductive NsBreaks : List UInt8 × List UInt8 → Prop
  | lead : NsBreaks ([0xff], [])
  | range {c d pc : UInt8} {p s q : List UInt8} (h : nsCode c p = 0x5b)
      (hset : (rangeNo (nsRest c p)).2 = pc :: q)
      (hbreak : rangeLoop d (rangeNo (nsRest c p)).1 pc.toNat q (rangeNo (nsRest c p)).1 =
        .behind) : NsBreaks (c :: p, d :: s)

/-- A pattern with a break in it, wherever a name ends. -/
inductive NsBroken : List UInt8 → Prop
  | lead : NsBroken [0xff]
  | range {c pc : UInt8} {p q : List UInt8} (h : nsCode c p = 0x5b)
      (hset : (rangeNo (nsRest c p)).2 = pc :: q)
      (hbreak : (rangeLoop 0 false pc.toNat q false).left = none) : NsBroken (c :: p)
  | behind {c pc : UInt8} {p q rest : List UInt8} (h : nsCode c p = 0x5b)
      (hset : (rangeNo (nsRest c p)).2 = pc :: q)
      (hin : (rangeLoop 0 false pc.toNat q false).left = some (some rest))
      (hrest : NsBroken rest) : NsBroken (c :: p)
  | escape {p : List UInt8} (h : NsBroken p) : NsBroken (0x5c :: p)
  | next {c : UInt8} {p : List UInt8} (hesc : c ≠ 0x5c) (hset : nsCode c p ≠ 0x5b)
      (h : NsBroken (nsRest c p)) : NsBroken (c :: p)

section

variable {c : UInt8} {p s : List UInt8}

/-- A 0xff that is the last byte of a pattern. -/
theorem namespaceFnMatch_lead :
    namespaceFnMatch [0xff] s =
      if peek s = 0 then if s = [] then none else some (decide (s.tail = [])) else some false := by
  have hcode : nsCode 0xff [] = 0 := rfl
  rw [namespaceFnMatch_element (by decide) (by rw [hcode]; decide), hcode]
  by_cases hs : peek s = 0
  · rw [if_pos hs, hs, show nsRest 0xff [] = [] from rfl, namespaceFnMatch]
    rfl
  · have hne : (peek s).toNat ≠ 0 := fun h => hs (UInt8.toNat_inj.mp h)
    rw [if_neg hs]
    exact if_pos hne

/-- A pattern with a break in it is never matched. -/
theorem not_namespaceFnMatch_of_broken (h : NsBroken p) (hs : 0 ∉ s) :
    namespaceFnMatch p s ≠ some true := by
  induction h generalizing s with
  | lead =>
      cases s with
      | nil => simp [namespaceFnMatch_lead]
      | cons d s =>
          have hd : peek (d :: s) ≠ 0 := fun h => List.cons_ne_nil d s ((peek_eq_zero hs).mp h)
          rw [namespaceFnMatch_lead, if_neg hd]
          simp
  | @range c pc p q h hset hbreak =>
      rw [namespaceFnMatch_range h hset]
      split
      · simp
      · have hleft := left_rangeLoop (peek s) 0 (rangeNo (nsRest c p)).1 false pc.toNat q
          (rangeNo (nsRest c p)).1 false
        rw [hbreak] at hleft
        split
        · simp
        · simp
        next heq =>
          rw [heq] at hleft
          cases hleft
  | @behind c pc p q rest h hset hin hrest ih =>
      rw [namespaceFnMatch_range h hset]
      split
      · simp
      · have hleft := left_rangeLoop (peek s) 0 (rangeNo (nsRest c p)).1 false pc.toNat q
          (rangeNo (nsRest c p)).1 false
        rw [hin] at hleft
        split
        · simp
        · simp
        next found r heq =>
          rw [heq] at hleft
          cases hleft
          split
          · exact ih fun hmem => hs (List.mem_of_mem_tail hmem)
          · simp
  | @escape p h ih =>
      rw [namespaceFnMatch, if_pos rfl]
      exact ih hs
  | @next c p hesc hset h ih =>
      have htail : namespaceFnMatch (nsRest c p) s.tail ≠ some true :=
        ih fun hmem => hs (List.mem_of_mem_tail hmem)
      have hne : nsRest c p ≠ [] := by
        intro hnil
        rw [hnil] at h
        cases h
      rw [namespaceFnMatch_element hesc hset, if_neg hne]
      split
      · split
        · simp
        · exact htail
      · split
        · split
          · simp
          · exact htail
        · split
          · split
            · simp
            next result hloop =>
              intro htrue
              rcases result with _ | _ | _
              · cases htrue
              · cases htrue
              · obtain ⟨t, ht, hmatch⟩ := exists_of_starLoop_true hloop
                exact ih (fun hmem => hs (ht.mem hmem)) hmatch
          · split
            · simp
            · split
              · simp
              · exact htail

/-- Where the matcher reads behind a string, the pattern breaks or an element takes a piece
of the name. -/
theorem nsBreaks_or_takes (hp : 0 ∉ p) (h : namespaceFnMatch p s = none) :
    NsBreaks (p, s) ∨ ∃ d, NsTakes (p, s) d ∧ namespaceFnMatch d.1 d.2 = none := by
  rcases p with _ | ⟨c, p⟩
  · rw [namespaceFnMatch] at h
    cases h
  by_cases hesc : c = 0x5c
  · subst hesc
    rw [namespaceFnMatch, if_pos rfl] at h
    exact .inr ⟨_, .escape, h⟩
  by_cases hset : nsCode c p = 0x5b
  · cases hno : (rangeNo (nsRest c p)).2 with
    | nil =>
        rw [namespaceFnMatch_range_end hset hno] at h
        cases h
    | cons pc q =>
        rw [namespaceFnMatch_range hset hno] at h
        cases s with
        | nil => cases h
        | cons d s =>
            rw [if_neg (List.cons_ne_nil d s)] at h
            split at h
            · cases h
            next hbreak => exact .inl (.range hset hno hbreak)
            next found rest hin =>
              cases found with
              | false => cases h
              | true => exact .inr ⟨_, .range hset hno hin, h⟩
  rw [namespaceFnMatch_element hesc hset] at h
  by_cases hpoint : nsCode c p = 1000
  · rw [if_pos hpoint] at h
    cases s with
    | nil => cases h
    | cons d s =>
        by_cases hdot : d = 0x2e
        · subst hdot
          exact .inr ⟨_, .point hpoint, h⟩
        · rw [if_pos (show peek (d :: s) ≠ 0x2e from hdot)] at h
          cases h
  rw [if_neg hpoint] at h
  by_cases hquery : nsCode c p = 2000
  · rw [if_pos hquery] at h
    cases s with
    | nil => cases h
    | cons d s => exact .inr ⟨_, .query hquery, h⟩
  rw [if_neg hquery] at h
  by_cases hstar : nsCode c p = 3000
  · rw [if_pos hstar] at h
    split at h
    · cases h
    next hmore =>
      split at h
      next hloop =>
        obtain ⟨t, ht, hnone⟩ := exists_of_starLoop_none hloop
        exact .inr ⟨_, .star hstar hmore ht, hnone⟩
      · cases h
  rw [if_neg hstar] at h
  split at h
  · cases h
  next hchar =>
    cases s with
    | nil =>
        -- only a 0xff at the end of the pattern reads as 0
        have hcode : nsCode c p = 0 := (not_not.mp hchar).symm
        rw [List.mem_cons, not_or] at hp
        unfold nsCode at hcode
        split at hcode
        next hlead =>
          subst hlead
          rw [(peek_eq_zero hp.2).mp (wildCode_eq_zero.mp hcode)]
          exact .inl .lead
        · exact absurd (UInt8.toNat_inj.mp hcode : c = 0) (Ne.symm hp.1)
    | cons d s => exact .inr ⟨_, .char hesc hset (not_not.mp hchar), h⟩

theorem none_of_nsBreaks (h : NsBreaks (p, s)) : namespaceFnMatch p s = none := by
  cases h with
  | lead => exact namespaceFnMatch_lead
  | @range c d pc p s q h hset hbreak =>
      rw [namespaceFnMatch_range h hset, if_neg (List.cons_ne_nil d s), peek_cons, hbreak]

theorem none_of_nsTakes {d : List UInt8 × List UInt8} (hs : 0 ∉ s) (h : NsTakes (p, s) d)
    (hbroken : NsBroken d.1) (hnone : namespaceFnMatch d.1 d.2 = none) :
    namespaceFnMatch p s = none := by
  cases h with
  | escape =>
      rw [namespaceFnMatch, if_pos rfl]
      exact hnone
  | point h =>
      rw [namespaceFnMatch_element (ne_escape h (by decide)) (nsCode_ne h (by decide)), if_pos h]
      exact hnone
  | query h =>
      rw [namespaceFnMatch_element (ne_escape h (by decide)) (nsCode_ne h (by decide)), if_neg (by omega), if_pos h]
      exact hnone
  | star h hmore ht =>
      rw [namespaceFnMatch_element (ne_escape h (by decide)) (nsCode_ne h (by decide)), if_neg (by omega),
        if_neg (by omega), if_pos h, if_neg hmore,
        starLoop_eq_none ht hnone fun u hu => not_namespaceFnMatch_of_broken hbroken
          fun hmem => hs (hu.mem hmem)]
  | @range c d pc p s q rest h hset hin =>
      rw [namespaceFnMatch_range h hset, if_neg (List.cons_ne_nil d s), peek_cons, hin]
      exact hnone
  | @char c d p s hesc hset h =>
      have hlt := d.toNat_lt
      rw [namespaceFnMatch_element hesc hset, if_neg (by omega), if_neg (by omega),
        if_neg (by omega), if_neg (not_not.mpr (show (peek (d :: s)).toNat = nsCode c p from h))]
      exact hnone

theorem nsBroken_of_nsBreaks {c : List UInt8 × List UInt8} (h : NsBreaks c) : NsBroken c.1 := by
  cases h with
  | lead => exact .lead
  | @range c d pc p s q h hset hbreak =>
      refine .range h hset ?_
      rw [left_rangeLoop 0 d false (rangeNo (nsRest c p)).1 _ _ false (rangeNo (nsRest c p)).1,
        hbreak]
      rfl

theorem nsBroken_of_nsTakes {c d : List UInt8 × List UInt8} (h : NsTakes c d)
    (hd : NsBroken d.1) : NsBroken c.1 := by
  cases h with
  | escape => exact .escape hd
  | point h => exact .next (ne_escape h (by decide)) (nsCode_ne h (by decide)) hd
  | query h => exact .next (ne_escape h (by decide)) (nsCode_ne h (by decide)) hd
  | star h hmore ht => exact .next (ne_escape h (by decide)) (nsCode_ne h (by decide)) hd
  | @range c d pc p s q rest h hset hin =>
      refine .behind h hset ?_ hd
      rw [left_rangeLoop 0 d false (rangeNo (nsRest c p)).1 _ _ false (rangeNo (nsRest c p)).1, hin]
      rfl
  | char hesc hset h => exact .next hesc hset hd

/-- Every element takes something of the pattern, and nothing is put in front. -/
theorem NsTakes.suffix {c d : List UInt8 × List UInt8} (h : NsTakes c d) :
    (d.1 <:+ c.1 ∧ d.1.length < c.1.length) ∧ d.2 <:+ c.2 := by
  cases h with
  | escape => exact ⟨suffix_cons_of _ List.suffix_rfl, List.suffix_rfl⟩
  | point h => exact ⟨suffix_cons_of _ (nsRest_suffix _ _), List.suffix_cons _ _⟩
  | query h => exact ⟨suffix_cons_of _ (nsRest_suffix _ _), List.suffix_cons _ _⟩
  | star h hmore ht => exact ⟨suffix_cons_of _ (nsRest_suffix _ _), ht.suffix⟩
  | @range c d pc p s q rest h hset hin =>
      have hrest : rest <:+ p := (suffix_of_rangeLoop hin).trans
        ((List.suffix_cons pc q).trans (hset ▸ (rangeNo_suffix _).trans (nsRest_suffix c p)))
      exact ⟨suffix_cons_of _ hrest, List.suffix_cons _ _⟩
  | char hesc hset h => exact ⟨suffix_cons_of _ (nsRest_suffix _ _), List.suffix_cons _ _⟩

/-- `namespace_fn_match` as a search. -/
def nsSearch : Backtrack (List UInt8 × List UInt8) (List UInt8) where
  run c := namespaceFnMatch c.1 c.2
  next := NsTakes
  stuck := NsBreaks
  part := Prod.fst
  ok c := 0 ∉ c.1 ∧ 0 ∉ c.2
  broken := NsBroken
  wf := Subrelation.wf (fun h => (NsTakes.suffix h).1.2)
    (measure fun c : List UInt8 × List UInt8 => c.1.length).wf
  stuck_or_next _ hok h := nsBreaks_or_takes hok.1 h
  run_of_stuck _ h := none_of_nsBreaks h
  run_of_next _ _ hok h hbroken hnone := none_of_nsTakes hok.2 h hbroken hnone
  broken_of_stuck _ h := nsBroken_of_nsBreaks h
  broken_of_next _ _ h hd := nsBroken_of_nsTakes h hd
  ok_of_next _ _ h hok :=
    ⟨fun hmem => hok.1 ((NsTakes.suffix h).1.1.mem hmem),
      fun hmem => hok.2 ((NsTakes.suffix h).2.mem hmem)⟩

end

end MarsNwe.NameSpace
