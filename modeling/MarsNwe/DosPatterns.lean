import MarsNwe.Connect.DirSearch
import MarsNwe.Lib.PaddedField
import MarsNwe.Namspace.XStrBounds
import MarsNwe.Tools

/-! # DOS patterns

The two matchers for DOS names beside what DOS means by a pattern: a base of 8 and an
extension of 3 characters, each padded with blanks, compared place by place.
-/

namespace MarsNwe

open PaddedField

/-! ## Names and patterns -/

/-- `dfn_imatch`; `up2down` is the table for lower case, if a conversion table is loaded. -/
def dfnImatch (up2down : Option (UInt8 → UInt8)) (a b : UInt8) : Bool :=
  a == b || match up2down with
    | none => downChar a == downChar b
    | some table => table a == table b

/-- A conversion table that takes no character for a terminator or for a point. -/
structure ConvTableOk (up2down : Option (UInt8 → UInt8)) : Prop where
  nul : ∀ table, up2down = some table → ∀ c, table 0 = table c → c = 0
  point : ∀ table, up2down = some table → ∀ c, table 0x2e = table c → c = 0x2e

/-- A byte that stands for itself: it is no terminator, no point and no wildcard, and
begins no escape and no range. -/
def IsLiteral (c : UInt8) : Prop :=
  c ∉ [(0 : UInt8), 0x2e, 0x2a, 0x3f, 0xaa, 0xae, 0xbf, 0xff, 0x5c, 0x5b]

instance (c : UInt8) : Decidable (IsLiteral c) := inferInstanceAs (Decidable (¬ _))

/-- A field of a pattern: literals and `?`, and perhaps `*` as its last character. -/
structure DosField (n : Nat) extends Pattern UInt8 where
  length_le : places.length ≤ n
  literal : ∀ c, .lit c ∈ places → IsLiteral c

/-- `base.ext` -/
structure DosPattern where
  base : DosField 8
  ext : DosField 3

/-- The bytes of a place; `lead` stands before each wildcard. -/
def placeText (lead : List UInt8) : Place UInt8 → List UInt8
  | .any => lead ++ [0x3f]
  | .lit c => [c]

def fieldText (lead : List UInt8) (places : List (Place UInt8)) (star : Bool) : List UInt8 :=
  places.flatMap (placeText lead) ++ if star then lead ++ [0x2a] else []

def DosPattern.text (lead : List UInt8) (p : DosPattern) : List UInt8 :=
  fieldText lead p.base.places p.base.star ++ 0x2e :: fieldText lead p.ext.places p.ext.star

/-- A name of 8.3 form; it need not have a point. -/
structure DosName where
  base : List UInt8
  ext : Option (List UInt8)
  length_base : base.length ≤ 8
  length_ext : (ext.getD []).length ≤ 3
  noPoint : (0x2e : UInt8) ∉ base ++ ext.getD []
  noNul : (0 : UInt8) ∉ base ++ ext.getD []

/-- The point of a name and what stands behind it. -/
def extText : Option (List UInt8) → List UInt8
  | none => []
  | some ext => 0x2e :: ext

def DosName.text (n : DosName) : List UInt8 := n.base ++ extText n.ext

/-- The case of a character is that of the volume. -/
def CharCaseOk (options : VolOptions) (c : UInt8) : Prop :=
  options.igncase = false →
    if options.downshift then ¬(0x41 ≤ c ∧ c ≤ 0x5a) else ¬(0x61 ≤ c ∧ c ≤ 0x7a)

def DosName.CaseOk (options : VolOptions) (n : DosName) : Prop :=
  ∀ c ∈ n.base ++ n.ext.getD [], CharCaseOk options c

/-- What DOS means: both fields are padded with blanks, and every character fits its
place. -/
def dosMatches (options : VolOptions) (imatch : UInt8 → UInt8 → Bool) (n : DosName)
    (p : DosPattern) : Bool :=
  p.base.matchesPadded (NameSpace.xSame options.igncase imatch) 0x20 8 n.base &&
    p.ext.matchesPadded (NameSpace.xSame options.igncase imatch) 0x20 3 (n.ext.getD [])

/-- Both matchers give the answer of DOS. -/
def MatchersAgree (options : VolOptions) (imatch : UInt8 → UInt8 → Bool) (n : DosName)
    (p : DosPattern) : Prop :=
  (∀ unix2dos, fnDosMatch ⟨unix2dos, imatch⟩ options n.text (p.text []) =
    dosMatches options imatch n p) ∧
  NameSpace.fnDosMatchOld options imatch n.text (p.text [0xff]) =
    some (dosMatches options imatch n p)

/-- A name without a point has ended in the star of the base, and the extension of the
pattern is not empty and has more than a star. -/
def EndsInStar (n : DosName) (p : DosPattern) : Prop :=
  n.ext = none ∧ p.base.star ∧ p.base.places.length ≤ n.base.length ∧ p.ext.places ≠ []

instance (n : DosName) (p : DosPattern) : Decidable (EndsInStar n p) :=
  inferInstanceAs (Decidable (_ ∧ _))

/-! ## The matcher of connect.c -/

section

variable {options : VolOptions} {imatch : UInt8 → UInt8 → Bool}

/-- The end of a name and its point fit no literal. -/
structure SepOk (igncase : Bool) (imatch : UInt8 → UInt8 → Bool) : Prop where
  nul : ∀ c, NameSpace.xSame igncase imatch 0 c = true → c = 0
  point : ∀ c, NameSpace.xSame igncase imatch 0x2e c = true → c = 0x2e
  refl : ∀ c, NameSpace.xSame igncase imatch c c = true

theorem sepOk_dfnImatch (igncase : Bool) {up2down : Option (UInt8 → UInt8)}
    (h : ConvTableOk up2down) : SepOk igncase (dfnImatch up2down) := by
  have hpoint : ∀ n : Fin 256, downChar 0x2e = downChar (UInt8.ofFin n) →
      UInt8.ofFin n = 0x2e := by
    decide +kernel
  constructor
  · intro c hsame
    cases igncase with
    | false => exact (eq_of_beq hsame).symm
    | true =>
        rcases Bool.or_eq_true _ _ ▸ hsame with heq | heq
        · exact (eq_of_beq heq).symm
        · cases up2down with
          | none => exact downChar_eq_zero c (eq_of_beq heq).symm
          | some table => exact h.nul table rfl c (eq_of_beq heq)
  · intro c hsame
    cases igncase with
    | false => exact (eq_of_beq hsame).symm
    | true =>
        rcases Bool.or_eq_true _ _ ▸ hsame with heq | heq
        · exact (eq_of_beq heq).symm
        · cases up2down with
          | none => exact hpoint c.toFin (eq_of_beq heq)
          | some table => exact h.point table rfl c (eq_of_beq heq)
  · intro c
    cases igncase <;> simp [NameSpace.xSame, dfnImatch]

theorem xStrMatch_lit {unix2dos : UInt8 → UInt8} {a : UInt8} (ha : IsLiteral a)
    (p s : List UInt8) :
    xStrMatch ⟨unix2dos, imatch⟩ options (a :: p) s =
      (NameSpace.xSame options.igncase imatch (s.headD 0) a &&
        xStrMatch ⟨unix2dos, imatch⟩ options p s.tail) := by
  simp only [IsLiteral, List.mem_cons, List.not_mem_nil, or_false, not_or] at ha
  rw [xStrMatch, if_neg (by simp [ha]), if_neg (by simp [ha]), if_neg (by simp [ha])]
  change (if NameSpace.xSame options.igncase imatch (s.headD 0) a then _ else _) = _
  cases NameSpace.xSame options.igncase imatch (s.headD 0) a <;> rfl

variable (hsep : SepOk options.igncase imatch) {unix2dos : UInt8 → UInt8}

theorem fromPoint_append {cs : List UInt8} (hcs : (0x2e : UInt8) ∉ cs) (ext : Option (List UInt8)) :
    fromPoint (cs ++ extText ext) = extText ext := by
  unfold fromPoint
  rw [List.dropWhile_append_of_pos fun c hc => decide_eq_true (ne_of_mem_of_not_mem hc hcs)]
  cases ext <;> simp [extText]

include hsep in
/-- The end of a field fits no literal. -/
theorem not_xSame_extText {a : UInt8} (ha : IsLiteral a) (ext : Option (List UInt8)) :
    NameSpace.xSame options.igncase imatch ((extText ext).headD 0) a = false := by
  apply Bool.eq_false_iff.mpr
  intro hsame
  cases ext with
  | none =>
      obtain rfl := hsep.nul a hsame
      exact ha (by decide)
  | some ext =>
      obtain rfl := hsep.point a hsame
      exact ha (by decide)

include hsep in
/-- The matcher of connect.c reads the base of the name along the base of the pattern. -/
theorem xStrMatch_base {places : List (Place UInt8)} {star : Bool} {cs : List UInt8}
    (hlit : ∀ c, .lit c ∈ places → IsLiteral c) (hcs : (0x2e : UInt8) ∉ cs)
    (ext : Option (List UInt8)) (q : List UInt8) :
    xStrMatch ⟨unix2dos, imatch⟩ options (fieldText [] places star ++ 0x2e :: q)
        (cs ++ extText ext) =
      (readsPlaces (NameSpace.xSame options.igncase imatch) star places cs &&
        xStrMatch ⟨unix2dos, imatch⟩ options q (ext.getD [])) := by
  -- the point of the pattern, where the name is still in its base
  have hpoint : ∀ c cs, (0x2e : UInt8) ≠ c →
      xStrMatch ⟨unix2dos, imatch⟩ options (0x2e :: q) (c :: cs) = false := by
    intro c cs hc
    simp [xStrMatch, Ne.symm hc]
  have hext : xStrMatch ⟨unix2dos, imatch⟩ options (0x2e :: q) (extText ext) =
      xStrMatch ⟨unix2dos, imatch⟩ options q (ext.getD []) := by
    cases ext <;> simp [xStrMatch, extText]
  induction places generalizing cs with
  | nil =>
      cases star with
      | false =>
          cases cs with
          | nil => simpa [fieldText, readsPlaces] using hext
          | cons c cs =>
              simpa [fieldText, readsPlaces] using hpoint c _ (List.ne_of_not_mem_cons hcs)
      | true =>
          change xStrMatch _ options (0x2a :: 0x2e :: q) _ = _
          rw [xStrMatch, if_neg (by decide), if_pos (by decide), if_neg (by simp),
            fromPoint_append hcs, hext]
          -- in front of the point the rest of the pattern fits nowhere
          have hnone : ((List.range ((cs ++ extText ext).length - (extText ext).length)).any
              fun i => xStrMatch ⟨unix2dos, imatch⟩ options (0x2e :: q)
                ((cs ++ extText ext).drop i)) = false := by
            rw [List.any_eq_false]
            intro i hi
            have hi : i < cs.length := by simpa using hi
            rw [List.drop_append_of_le_length (Nat.le_of_lt hi), List.drop_eq_getElem_cons hi,
              List.cons_append, hpoint _ _ (ne_of_mem_of_not_mem (List.getElem_mem hi) hcs).symm]
            exact Bool.false_ne_true
          rw [hnone]
          rfl
  | cons t places ih =>
      have hlit' : ∀ c, .lit c ∈ places → IsLiteral c := fun c hc =>
        hlit c (List.mem_cons_of_mem _ hc)
      cases t with
      | any =>
          change xStrMatch _ options (0x3f :: (fieldText [] places star ++ 0x2e :: q)) _ = _
          rw [xStrMatch, if_pos (by decide), readsPlaces]
          cases cs with
          | nil =>
              rw [List.nil_append, if_neg (by cases ext <;> simp [extText])]
              exact ih hlit' List.not_mem_nil
          | cons c cs =>
              rw [List.cons_append, if_pos (by simpa using (List.ne_of_not_mem_cons hcs).symm)]
              exact ih hlit' (List.not_mem_of_not_mem_cons hcs)
      | lit a =>
          have ha := hlit a List.mem_cons_self
          change xStrMatch _ options (a :: (fieldText [] places star ++ 0x2e :: q)) _ = _
          rw [xStrMatch_lit ha]
          cases cs with
          | nil => rw [List.nil_append, not_xSame_extText hsep ha, readsPlaces]; rfl
          | cons c cs =>
              rw [readsPlaces, Bool.and_assoc, ← ih hlit' (List.not_mem_of_not_mem_cons hcs)]
              rfl

include hsep in
/-- And the extension of the name along that of the pattern. -/
theorem xStrMatch_ext {places : List (Place UInt8)} {star : Bool} {cs : List UInt8}
    (hlit : ∀ c, .lit c ∈ places → IsLiteral c) (hcs : (0x2e : UInt8) ∉ cs) :
    xStrMatch ⟨unix2dos, imatch⟩ options (fieldText [] places star) cs =
      readsPlaces (NameSpace.xSame options.igncase imatch) star places cs := by
  induction places generalizing cs with
  | nil =>
      cases star with
      | false => simp [fieldText, readsPlaces, xStrMatch]
      | true => simp [fieldText, readsPlaces, xStrMatch]
  | cons t places ih =>
      have hlit' : ∀ c, .lit c ∈ places → IsLiteral c := fun c hc =>
        hlit c (List.mem_cons_of_mem _ hc)
      cases t with
      | any =>
          change xStrMatch _ options (0x3f :: fieldText [] places star) _ = _
          rw [xStrMatch, if_pos (by decide), readsPlaces]
          cases cs with
          | nil => exact ih hlit' List.not_mem_nil
          | cons c cs =>
              rw [if_pos (by simpa using (List.ne_of_not_mem_cons hcs).symm)]
              exact ih hlit' (List.not_mem_of_not_mem_cons hcs)
      | lit a =>
          have ha := hlit a List.mem_cons_self
          change xStrMatch _ options (a :: fieldText [] places star) _ = _
          rw [xStrMatch_lit ha]
          cases cs with
          | nil =>
              have hend := not_xSame_extText hsep ha none
              rw [extText] at hend
              rw [hend, readsPlaces]
              rfl
          | cons c cs =>
              rw [readsPlaces, ← ih hlit' (List.not_mem_of_not_mem_cons hcs)]
              rfl

/-! ## The matcher of namspace.c -/

open NameSpace in
theorem xCode_lit {a : UInt8} (ha : IsLiteral a) (p : List UInt8) :
    xCode a p = a ∧ xRest a p = p := by
  simp only [IsLiteral, List.mem_cons, List.not_mem_nil, or_false, not_or] at ha
  simp [xCode, xRest, unwild, ha]

open NameSpace in
theorem xCode_query (p : List UInt8) :
    xCode 0xff (0x3f :: p) = 0x3f ∧ xRest 0xff (0x3f :: p) = p := ⟨rfl, rfl⟩

open NameSpace in
theorem xCode_star (p : List UInt8) :
    xCode 0xff (0x2a :: p) = 0x2a ∧ xRest 0xff (0x2a :: p) = p := ⟨rfl, rfl⟩

open NameSpace in
theorem xCode_point (p : List UInt8) : xCode 0x2e p = 0x2e ∧ xRest 0x2e p = p := ⟨rfl, rfl⟩

/-- Behind the end of a field only wildcards are passed over. -/
theorem oldMatch_noChar (same : UInt8 → UInt8 → Bool) {places : List (Place UInt8)} {star : Bool}
    (hlit : ∀ c, .lit c ∈ places → IsLiteral c) (q s : List UInt8) :
    NameSpace.xStrMatch options.igncase imatch (fieldText [0xff] places star ++ q) s .noChar =
      if readsPlaces same star places [] then
        NameSpace.xStrMatch options.igncase imatch q s .noChar
      else some false := by
  induction places with
  | nil =>
      cases star with
      | false => rfl
      | true =>
          change NameSpace.xStrMatch _ imatch (0xff :: 0x2a :: q) s .noChar = _
          rw [NameSpace.xStrMatch_noChar, (xCode_star q).1, (xCode_star q).2]
          rfl
  | cons t places ih =>
      have ih := ih fun c hc => hlit c (List.mem_cons_of_mem _ hc)
      cases t with
      | any =>
          change NameSpace.xStrMatch _ imatch
            (0xff :: 0x3f :: (fieldText [0xff] places star ++ q)) s .noChar = _
          rw [NameSpace.xStrMatch_noChar, (xCode_query _).1, (xCode_query _).2]
          exact ih
      | lit a =>
          have ha := hlit a List.mem_cons_self
          change NameSpace.xStrMatch _ imatch (a :: (fieldText [0xff] places star ++ q)) s
            .noChar = _
          rw [NameSpace.xStrMatch_noChar, (xCode_lit ha _).1]
          simp only [IsLiteral, List.mem_cons, List.not_mem_nil, or_false, not_or] at ha
          rw [if_neg (by simp [ha]), if_neg (by simp [ha])]
          rfl

/-- A star passes over the characters that the rest of the pattern does not begin with. -/
theorem starLoop_append {rest : List UInt8 → Option Bool} {giveUp : UInt8 → Bool}
    {cs : List UInt8} (t : List UInt8) (hcs : ∀ c ∈ cs, giveUp c = false)
    (hrest : ∀ c ∈ cs, ∀ s, rest (c :: s) = some false) :
    NameSpace.starLoop rest giveUp (cs ++ t) = NameSpace.starLoop rest giveUp t := by
  induction cs with
  | nil => rfl
  | cons c cs ih =>
      rw [List.cons_append, NameSpace.starLoop, hrest c List.mem_cons_self,
        hcs c List.mem_cons_self]
      exact ih (fun c hc => hcs c (List.mem_cons_of_mem _ hc))
        (fun c hc => hrest c (List.mem_cons_of_mem _ hc))

/-- A literal. -/
theorem oldMatch_lit {a : UInt8} (ha : IsLiteral a) (p s : List UInt8) :
    NameSpace.xStrMatch options.igncase imatch (a :: p) s .plain =
      if NameSpace.xSame options.igncase imatch (NameSpace.peek s) a then
        if s = [] then none else NameSpace.xStrMatch options.igncase imatch p s.tail .plain
      else some false := by
  have hcode := xCode_lit ha p
  simp only [IsLiteral, List.mem_cons, List.not_mem_nil, or_false, not_or] at ha
  rw [NameSpace.xStrMatch_element (by rw [hcode.1]; simp [ha]), hcode.1, hcode.2,
    if_neg (by simp [ha]), if_neg (by simp [ha]), if_neg (by simp [ha]), if_neg (by simp [ha])]
  cases NameSpace.xSame options.igncase imatch (NameSpace.peek s) a <;> rfl

/-- The point of the pattern at the end of the base. -/
theorem oldMatch_point (ext : Option (List UInt8)) (q : List UInt8) :
    NameSpace.xStrMatch options.igncase imatch (0x2e :: q) (extText ext) .plain =
      NameSpace.xStrMatch options.igncase imatch q (ext.getD []) .plain := by
  have hcode := xCode_point q
  rw [NameSpace.xStrMatch_element (by rw [hcode.1]; decide), hcode.1, hcode.2]
  cases ext <;> rfl

/-- The point of the pattern inside of the base. -/
theorem oldMatch_point_inside {c : UInt8} (hc : (0x2e : UInt8) ≠ c) (s q : List UInt8) :
    NameSpace.xStrMatch options.igncase imatch (0x2e :: q) (c :: s) .plain = some false := by
  have hcode := xCode_point q
  rw [NameSpace.xStrMatch_element (by rw [hcode.1]; decide), hcode.1]
  change (if c :: s ≠ [] ∧ c ≠ 0x2e then some false else _) = _
  rw [if_pos ⟨List.cons_ne_nil _ _, hc.symm⟩]

/-- The star at the end of the base. -/
theorem oldMatch_star {cs : List UInt8} (hcs : (0x2e : UInt8) ∉ cs) (ext : Option (List UInt8))
    (q : List UInt8) :
    NameSpace.xStrMatch options.igncase imatch (0xff :: 0x2a :: 0x2e :: q) (cs ++ extText ext)
        .plain =
      NameSpace.xStrMatch options.igncase imatch q (ext.getD [])
        (if ext = none then .afterPoint else .plain) := by
  have hcode := xCode_star (0x2e :: q)
  rw [NameSpace.xStrMatch_element (by rw [hcode.1]; decide), hcode.1, hcode.2]
  simp only [show (0x2a : UInt8) ≠ 0x5c by decide, show (0x2a : UInt8) ≠ 0x3f by decide,
    show (0x2a : UInt8) ≠ 0x2e by decide, if_false, if_true, List.cons_ne_nil]
  rw [starLoop_append]
  · cases ext with
    | none =>
        rw [if_pos rfl]
        change NameSpace.xStrMatch _ imatch (0x2e :: q) [] .atEnd = _
        rw [NameSpace.xStrMatch_atEnd, (xCode_point q).1, (xCode_point q).2]
        rfl
    | some ext =>
        rw [if_neg (by simp), extText, NameSpace.starLoop]
        rw [show 0x2e :: ext = extText (some ext) from rfl, oldMatch_point]
        cases NameSpace.xStrMatch options.igncase imatch q ((some ext).getD []) .plain with
        | none => rfl
        | some result => cases result <;> rfl
  · intro c hc
    exact decide_eq_false (ne_of_mem_of_not_mem hc hcs)
  · intro c hc s
    exact oldMatch_point_inside (ne_of_mem_of_not_mem hc hcs).symm s q

include hsep in
/-- The matcher of namspace.c reads the base of the name along the base of the pattern. -/
theorem oldMatch_base {places : List (Place UInt8)} {star : Bool} {cs : List UInt8}
    (hlit : ∀ c, .lit c ∈ places → IsLiteral c) (hcs : (0x2e : UInt8) ∉ cs)
    (hnul : (0 : UInt8) ∉ cs) (ext : Option (List UInt8)) (q : List UInt8) :
    NameSpace.xStrMatch options.igncase imatch (fieldText [0xff] places star ++ 0x2e :: q)
        (cs ++ extText ext) .plain =
      if readsPlaces (NameSpace.xSame options.igncase imatch) star places cs then
        NameSpace.xStrMatch options.igncase imatch q (ext.getD [])
          (if ext = none ∧ star ∧ places.length ≤ cs.length then .afterPoint else .plain)
      else some false := by
  induction places generalizing cs with
  | nil =>
      cases star with
      | false =>
          change NameSpace.xStrMatch _ imatch (0x2e :: q) _ .plain = _
          cases cs with
          | nil =>
              rw [List.nil_append, oldMatch_point]
              simp [readsPlaces]
          | cons c cs =>
              rw [List.cons_append, oldMatch_point_inside (List.ne_of_not_mem_cons hcs)]
              simp [readsPlaces]
      | true =>
          change NameSpace.xStrMatch _ imatch (0xff :: 0x2a :: 0x2e :: q) _ .plain = _
          rw [oldMatch_star hcs]
          simp [readsPlaces]
  | cons t places ih =>
      have hlit' : ∀ c, .lit c ∈ places → IsLiteral c := fun c hc =>
        hlit c (List.mem_cons_of_mem _ hc)
      cases t with
      | any =>
          change NameSpace.xStrMatch _ imatch
            (0xff :: 0x3f :: (fieldText [0xff] places star ++ 0x2e :: q)) _ .plain = _
          have hcode := xCode_query (fieldText [0xff] places star ++ 0x2e :: q)
          rw [NameSpace.xStrMatch_element (by rw [hcode.1]; decide), hcode.1, hcode.2,
            if_neg (by decide), if_pos rfl, readsPlaces]
          cases cs with
          | nil =>
              -- the rest of the base is behind the end of the name's base
              have hpeek : NameSpace.peek ([] ++ extText ext) = 0 ∨
                  NameSpace.peek ([] ++ extText ext) = 0x2e := by
                cases ext
                · exact Or.inl rfl
                · exact Or.inr rfl
              have htail : ([] ++ extText ext).tail = ext.getD [] := by cases ext <;> rfl
              have hpoint : ∀ s, NameSpace.xStrMatch options.igncase imatch (0x2e :: q) s .noChar =
                  NameSpace.xStrMatch options.igncase imatch q s .plain := by
                intro s
                rw [NameSpace.xStrMatch_noChar, (xCode_point q).1, (xCode_point q).2]
                rfl
              rw [if_pos hpeek, htail,
                oldMatch_noChar (NameSpace.xSame options.igncase imatch) hlit', hpoint]
              simp
          | cons c cs =>
              have hpeek : ¬(NameSpace.peek ((c :: cs) ++ extText ext) = 0 ∨
                  NameSpace.peek ((c :: cs) ++ extText ext) = 0x2e) := by
                change ¬(c = 0 ∨ c = 0x2e)
                rw [not_or]
                exact ⟨(List.ne_of_not_mem_cons hnul).symm, (List.ne_of_not_mem_cons hcs).symm⟩
              rw [if_neg hpeek]
              refine (ih hlit' (List.not_mem_of_not_mem_cons hcs)
                (List.not_mem_of_not_mem_cons hnul)).trans ?_
              simp
      | lit a =>
          have ha := hlit a List.mem_cons_self
          change NameSpace.xStrMatch _ imatch
            (a :: (fieldText [0xff] places star ++ 0x2e :: q)) _ .plain = _
          rw [oldMatch_lit ha]
          cases cs with
          | nil =>
              have hend : NameSpace.peek ([] ++ extText ext) = (extText ext).headD 0 := rfl
              rw [hend, not_xSame_extText hsep ha]
              rfl
          | cons c cs =>
              change (if NameSpace.xSame options.igncase imatch c a then
                NameSpace.xStrMatch _ imatch _ (cs ++ extText ext) .plain else some false) = _
              rw [ih hlit' (List.not_mem_of_not_mem_cons hcs) (List.not_mem_of_not_mem_cons hnul)]
              rw [readsPlaces]
              cases NameSpace.xSame options.igncase imatch c a
              · rfl
              · simp

include hsep in
/-- And the extension of the name along that of the pattern. -/
theorem oldMatch_ext {places : List (Place UInt8)} {star : Bool} {cs : List UInt8}
    (hlit : ∀ c, .lit c ∈ places → IsLiteral c) (hcs : (0x2e : UInt8) ∉ cs)
    (hnul : (0 : UInt8) ∉ cs) :
    NameSpace.xStrMatch options.igncase imatch (fieldText [0xff] places star) cs .plain =
      some (readsPlaces (NameSpace.xSame options.igncase imatch) star places cs) := by
  induction places generalizing cs with
  | nil =>
      cases star with
      | false =>
          cases cs with
          | nil => simp [fieldText, NameSpace.xStrMatch, readsPlaces]
          | cons c cs =>
              have hne : c ≠ 0x2e := (List.ne_of_not_mem_cons hcs).symm
              simp [fieldText, NameSpace.xStrMatch, readsPlaces, hne]
      | true =>
          change NameSpace.xStrMatch _ imatch [0xff, 0x2a] _ .plain = _
          rw [NameSpace.xStrMatch_element (by decide)]
          rfl
  | cons t places ih =>
      have hlit' : ∀ c, .lit c ∈ places → IsLiteral c := fun c hc =>
        hlit c (List.mem_cons_of_mem _ hc)
      cases t with
      | any =>
          change NameSpace.xStrMatch _ imatch (0xff :: 0x3f :: fieldText [0xff] places star) _
            .plain = _
          have hcode := xCode_query (fieldText [0xff] places star)
          rw [NameSpace.xStrMatch_element (by rw [hcode.1]; decide), hcode.1, hcode.2,
            if_neg (by decide), if_pos rfl, readsPlaces]
          cases cs with
          | nil =>
              have hend := @oldMatch_noChar options imatch
                (NameSpace.xSame options.igncase imatch) _ star hlit' [] []
              rw [List.append_nil] at hend
              change NameSpace.xStrMatch _ imatch (fieldText [0xff] places star) [] .noChar = _
              rw [hend, List.tail_nil]
              cases readsPlaces (NameSpace.xSame options.igncase imatch) star places []
              · rfl
              · simp [NameSpace.xStrMatch]
          | cons c cs =>
              have hpeek : ¬(NameSpace.peek (c :: cs) = 0 ∨ NameSpace.peek (c :: cs) = 0x2e) := by
                change ¬(c = 0 ∨ c = 0x2e)
                rw [not_or]
                exact ⟨(List.ne_of_not_mem_cons hnul).symm, (List.ne_of_not_mem_cons hcs).symm⟩
              rw [if_neg hpeek]
              exact ih hlit' (List.not_mem_of_not_mem_cons hcs) (List.not_mem_of_not_mem_cons hnul)
      | lit a =>
          have ha := hlit a List.mem_cons_self
          change NameSpace.xStrMatch _ imatch (a :: fieldText [0xff] places star) _ .plain = _
          rw [oldMatch_lit ha]
          cases cs with
          | nil =>
              have hend := not_xSame_extText hsep ha none
              rw [extText] at hend
              change (if NameSpace.xSame options.igncase imatch ([].headD 0) a then _ else _) = _
              rw [hend]
              rfl
          | cons c cs =>
              change (if NameSpace.xSame options.igncase imatch c a then
                NameSpace.xStrMatch _ imatch _ cs .plain else some false) = _
              rw [ih hlit' (List.not_mem_of_not_mem_cons hcs) (List.not_mem_of_not_mem_cons hnul),
                readsPlaces]
              cases NameSpace.xSame options.igncase imatch c a <;> rfl

/-- Behind the star of the base and its point only another star is let through. -/
theorem oldMatch_afterPoint {places : List (Place UInt8)} {star : Bool}
    (hlit : ∀ c, .lit c ∈ places → IsLiteral c) :
    NameSpace.xStrMatch options.igncase imatch (fieldText [0xff] places star) [] .afterPoint =
      some (decide (places = [])) := by
  cases places with
  | nil =>
      have hend : NameSpace.xStrMatch options.igncase imatch [] [] .afterPoint = some true := by
        simp [NameSpace.xStrMatch]
      cases star with
      | false => exact hend
      | true =>
          change NameSpace.xStrMatch _ imatch [0xff, 0x2a] _ .afterPoint = _
          rw [NameSpace.xStrMatch_afterPoint]
          exact hend
  | cons t places =>
      cases t with
      | any =>
          change NameSpace.xStrMatch _ imatch (0xff :: 0x3f :: fieldText [0xff] places star) _ _ = _
          rw [NameSpace.xStrMatch_afterPoint, (xCode_query _).1]
          rfl
      | lit a =>
          have ha := hlit a List.mem_cons_self
          change NameSpace.xStrMatch _ imatch (a :: fieldText [0xff] places star) _ _ = _
          rw [NameSpace.xStrMatch_afterPoint, (xCode_lit ha _).1]
          simp only [IsLiteral, List.mem_cons, List.not_mem_nil, or_false, not_or] at ha
          rw [if_pos (by simp [ha])]
          rfl

/-! ## The whole patterns -/

theorem isDosName_letter {c : UInt8} {ss : List UInt8} {pf : Bool} {len : Nat}
    (hc : (0x2e : UInt8) ≠ c) (hlen : len + 1 ≤ if pf then 3 else 8)
    (hcase : CharCaseOk options c) :
    isDosName options (c :: ss) pf len = isDosName options ss pf (len + 1) := by
  have hroom : ¬(pf ∧ 3 < len + 1 ∨ 8 < len + 1) := by
    cases pf
    · simp at hlen ⊢
      omega
    · simp at hlen ⊢
      omega
  have hright : (!options.igncase && if options.downshift then 0x41 ≤ c && c ≤ 0x5a
      else 0x61 ≤ c && c ≤ 0x7a) = false := by
    cases hign : options.igncase with
    | true => rfl
    | false =>
        have hok := hcase hign
        cases hdown : options.downshift <;> simpa [hdown] using hok
  rw [isDosName, if_neg hc.symm, if_neg hroom, hright]
  rfl

theorem isDosName_field {cs t : List UInt8} {pf : Bool} {len : Nat}
    (hcs : (0x2e : UInt8) ∉ cs) (hlen : len + cs.length ≤ if pf then 3 else 8)
    (hcase : ∀ c ∈ cs, CharCaseOk options c) :
    isDosName options (cs ++ t) pf len = isDosName options t pf (len + cs.length) := by
  induction cs generalizing len with
  | nil => rfl
  | cons c cs ih =>
      rw [List.length_cons] at hlen
      rw [List.cons_append, isDosName_letter (List.ne_of_not_mem_cons hcs)
        (by omega) (hcase c List.mem_cons_self),
        ih (List.not_mem_of_not_mem_cons hcs) (by omega)
          (fun c hc => hcase c (List.mem_cons_of_mem _ hc)), List.length_cons]
      congr 1
      omega

/-- A name of 8.3 form in the case of the volume is a DOS name. -/
theorem isDosName_text (n : DosName) (hcase : n.CaseOk options) :
    isDosName options n.text false 0 = true := by
  obtain ⟨hbase, hext⟩ : (0x2e : UInt8) ∉ n.base ∧ (0x2e : UInt8) ∉ n.ext.getD [] := by
    have := n.noPoint
    rwa [List.mem_append, not_or] at this
  have hlenBase := n.length_base
  have hlenExt := n.length_ext
  rw [DosName.text, isDosName_field hbase (by simpa using hlenBase)
    (fun c hc => hcase c (List.mem_append_left _ hc))]
  cases hn : n.ext with
  | none => rfl
  | some ext =>
      rw [hn] at hext hlenExt
      have hfield := @isDosName_field options ext [] true 0 hext (by simpa using hlenExt)
        (fun c hc => hcase c (List.mem_append_right _ (by rwa [hn])))
      rw [List.append_nil] at hfield
      rw [extText, isDosName, if_pos rfl]
      exact hfield

theorem ne_lead_of_mem_fieldText {n : Nat} (f : DosField n) {c : UInt8}
    (hc : c ∈ fieldText [] f.places f.star) : c ≠ 0xff := by
  rintro rfl
  rcases List.mem_append.mp hc with hplace | hstar
  · obtain ⟨t, ht, hmem⟩ := List.mem_flatMap.mp hplace
    cases t with
    | any => exact absurd hmem (by decide)
    | lit a =>
        obtain rfl := List.mem_singleton.mp hmem
        exact f.literal _ ht (by decide)
  · cases hf : f.star <;> simp [hf] at hstar

/-- `fn_dos_match` leaves the pattern as it is. -/
theorem filter_text (p : DosPattern) : (p.text []).filter (· ≠ 0xff) = p.text [] := by
  rw [List.filter_eq_self]
  intro c hc
  rcases List.mem_append.mp hc with hbase | hext
  · exact decide_eq_true (ne_lead_of_mem_fieldText p.base hbase)
  · rcases List.mem_cons.mp hext with rfl | hext
    · rfl
    · exact decide_eq_true (ne_lead_of_mem_fieldText p.ext hext)

include hsep in
/-- The answer of `fn_dos_match`. -/
theorem fnDosMatch_eq (n : DosName) (p : DosPattern) (hcase : n.CaseOk options) :
    fnDosMatch ⟨unix2dos, imatch⟩ options n.text (p.text []) =
      (p.base.reads (NameSpace.xSame options.igncase imatch) n.base &&
        p.ext.reads (NameSpace.xSame options.igncase imatch) (n.ext.getD [])) := by
  obtain ⟨hbase, hext⟩ : (0x2e : UInt8) ∉ n.base ∧ (0x2e : UInt8) ∉ n.ext.getD [] := by
    have := n.noPoint
    rwa [List.mem_append, not_or] at this
  rw [fnDosMatch, isDosName_text n hcase, filter_text, Bool.true_and, DosPattern.text,
    DosName.text, xStrMatch_base hsep p.base.literal hbase, xStrMatch_ext hsep p.ext.literal hext]
  rfl

include hsep in
/-- The answer of `fn_dos_match_old`. -/
theorem fnDosMatchOld_eq (n : DosName) (p : DosPattern) (hcase : n.CaseOk options) :
    NameSpace.fnDosMatchOld options imatch n.text (p.text [0xff]) =
      some (p.base.reads (NameSpace.xSame options.igncase imatch) n.base &&
        p.ext.reads (NameSpace.xSame options.igncase imatch) (n.ext.getD []) &&
        !decide (EndsInStar n p)) := by
  obtain ⟨hbase, hext⟩ : (0x2e : UInt8) ∉ n.base ∧ (0x2e : UInt8) ∉ n.ext.getD [] := by
    have := n.noPoint
    rwa [List.mem_append, not_or] at this
  obtain ⟨hbase0, hext0⟩ : (0 : UInt8) ∉ n.base ∧ (0 : UInt8) ∉ n.ext.getD [] := by
    have := n.noNul
    rwa [List.mem_append, not_or] at this
  rw [NameSpace.fnDosMatchOld, if_pos (isDosName_text n hcase), DosPattern.text, DosName.text,
    oldMatch_base hsep p.base.literal hbase hbase0]
  change (if p.base.reads _ n.base then _ else _) = _
  cases p.base.reads (NameSpace.xSame options.igncase imatch) n.base with
  | false => rfl
  | true =>
      rw [if_pos rfl, Bool.true_and]
      split
      · next hstar =>
          rw [hstar.1, Option.getD_none, oldMatch_afterPoint p.ext.literal]
          by_cases hplaces : p.ext.places = []
          · have hreads : p.ext.reads (NameSpace.xSame options.igncase imatch) [] = true := by
              rw [Pattern.reads, hplaces]
              simp [readsPlaces]
            simp [EndsInStar, hplaces, hreads]
          · simp [EndsInStar, hplaces, hstar]
      · next hstar =>
          rw [oldMatch_ext hsep p.ext.literal hext hext0]
          have hends : ¬EndsInStar n p := fun h => hstar ⟨h.1, h.2.1, h.2.2.1⟩
          simp [hends, Pattern.reads]

/-- Both matchers give the answer of DOS if and only if this answer is no, or nothing
stands against padding and the name has not ended in the star of the base. -/
theorem matchersAgree_iff {up2down : Option (UInt8 → UInt8)} (htable : ConvTableOk up2down)
    (n : DosName) (p : DosPattern) (hcase : n.CaseOk options) :
    MatchersAgree options (dfnImatch up2down) n p ↔
      (dosMatches options (dfnImatch up2down) n p = true →
        p.base.Aligned n.base ∧ p.ext.Aligned (n.ext.getD []) ∧ ¬EndsInStar n p) := by
  have hsep := sepOk_dfnImatch options.igncase htable
  have hbase := reads_iff (hsep.refl 0x20) p.base.length_le n.length_base
  have hext := reads_iff (hsep.refl 0x20) p.ext.length_le n.length_ext
  have hdos : dosMatches options (dfnImatch up2down) n p = true ↔
      p.base.matchesPadded (NameSpace.xSame options.igncase (dfnImatch up2down)) 0x20 8 n.base =
          true ∧
        p.ext.matchesPadded (NameSpace.xSame options.igncase (dfnImatch up2down)) 0x20 3
          (n.ext.getD []) = true :=
    Bool.and_eq_true_iff
  unfold MatchersAgree
  simp only [fnDosMatch_eq hsep n p hcase, fnDosMatchOld_eq hsep n p hcase, forall_const,
    Option.some.injEq]
  cases hanswer : dosMatches options (dfnImatch up2down) n p with
  | true =>
      obtain ⟨hb, he⟩ := hdos.mp hanswer
      simp only [Bool.and_eq_true, hbase, hext, hb, he, true_and, Bool.not_eq_true',
        decide_eq_false_iff_not, forall_const]
      exact ⟨fun h => ⟨h.1.1, h.1.2, h.2.2⟩, fun h => ⟨⟨h.1, h.2.1⟩, ⟨h.1, h.2.1⟩, h.2.2⟩⟩
  | false =>
      have hreads : (p.base.reads (NameSpace.xSame options.igncase (dfnImatch up2down)) n.base &&
          p.ext.reads (NameSpace.xSame options.igncase (dfnImatch up2down)) (n.ext.getD [])) =
            false := by
        apply Bool.eq_false_iff.mpr
        intro hboth
        rw [Bool.and_eq_true, hbase, hext] at hboth
        rw [hdos.mpr ⟨hboth.1.1, hboth.2.1⟩] at hanswer
        cases hanswer
      simp [hreads]

end

/-- Without a conversion table. -/
theorem convTableOk_none : ConvTableOk none where
  nul _ h := by cases h
  point _ h := by cases h

/-- The name `A`. -/
def nameA : DosName where
  base := [0x41]
  ext := none
  length_base := by decide
  length_ext := by decide
  noPoint := by decide
  noNul := by decide

/-- `k` places for any character, and perhaps a star. -/
def queries (k : Nat) (star : Bool) : Pattern UInt8 := ⟨List.replicate k .any, star⟩

def queryField (n k : Nat) (star : Bool) (h : k ≤ n) : DosField n where
  toPattern := queries k star
  length_le := by simpa [queries] using h
  literal c hc := by simp [queries] at hc

/-- A volume in capital letters. -/
def upperVol : VolOptions where
  downshift := false
  isPipe := false
  remount := false
  igncase := false

/-- `A` along `?.*`. -/
theorem matchersAgree_iff_query :
    let p : DosPattern := ⟨queryField 8 1 false (by decide), queryField 3 0 true (by decide)⟩
    MatchersAgree upperVol (dfnImatch none) nameA p ↔
      (dosMatches upperVol (dfnImatch none) nameA p = true →
        p.base.Aligned nameA.base ∧ p.ext.Aligned (nameA.ext.getD []) ∧ ¬EndsInStar nameA p) :=
  matchersAgree_iff convTableOk_none nameA _ (by
    intro c hc _
    obtain rfl := List.mem_singleton.mp hc
    decide)

/-- `A` along `*.???`: DOS finds it and so does `fn_dos_match`, `fn_dos_match_old` does
not. -/
theorem not_matchersAgree_star :
    let p : DosPattern := ⟨queryField 8 0 true (by decide), queryField 3 3 false (by decide)⟩
    nameA.CaseOk upperVol ∧ dosMatches upperVol (dfnImatch none) nameA p = true ∧
      ¬MatchersAgree upperVol (dfnImatch none) nameA p := by
  intro p
  have hcase : nameA.CaseOk upperVol := by
    intro c hc _
    obtain rfl := List.mem_singleton.mp hc
    decide
  have hdos : dosMatches upperVol (dfnImatch none) nameA p = true := by decide +kernel
  refine ⟨hcase, hdos, fun hagree => ?_⟩
  have hold := hagree.2
  rw [fnDosMatchOld_eq (sepOk_dfnImatch _ convTableOk_none) nameA p hcase, hdos] at hold
  revert hold
  decide +kernel

end MarsNwe
