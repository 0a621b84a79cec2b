import MarsNwe.Connect.DirSearch
import MarsNwe.Lib.CPtr

/-! # What the DOS matcher reads and writes

`x_str_match` and `fn_dos_match` of connect.c on pointers, with the buffer that the
pattern is copied to. No result stands for a read behind a terminator or a write behind
the buffer.
-/

namespace MarsNwe

open CPtr

variable (imatch : UInt8 → UInt8 → Bool)

/-- `x_str_match` on the pattern `p` and the name `s`. -/
def xStrMatchAt (soptions : VolOptions) : (p s : CPtr) → Option Bool
  | [], _ => none
  | c :: p, s =>
      if c = 0 then do return (← read s) = 0
      else if c = 0xbf ∨ c = 0x3f then do
        let sc ← read s
        xStrMatchAt soptions p (if sc ≠ 0 ∧ sc ≠ 0x2e then s.tail else s)
      else if c = 0xaa ∨ c = 0x2a then do
        if (← read p) ≠ 0 then
          match ← tryAll (fun s => xStrMatchAt soptions p s) (· = 0x2e) (fun _ => some false) s with
          | .error result => return result
          | .ok s => xStrMatchAt soptions p s
        else if c = 0x2a then return true
        else xStrMatchAt soptions p (← skip (· = 0x2e) s)
      else if c = 0xae ∨ c = 0x2e then do
        let sc ← read s
        if sc ≠ 0 ∧ sc ≠ 0x2e then return false
        else xStrMatchAt soptions p (if sc = 0 then s else s.tail)
      else do
        let sc ← read s
        if if soptions.igncase then imatch sc c else sc == c then xStrMatchAt soptions p s.tail
        else return false

/-- The first loop of `fn_dos_match`: the bytes that are not 0xff are written to a buffer
with `room` bytes left, the terminator last. -/
def copyPattern : (p : CPtr) → (room : Nat) → Option CPtr
  | [], _ => none
  | c :: p, room =>
      if c = 0xff then copyPattern p room
      else if room = 0 then none
      else if c = 0 then some [0]
      else (copyPattern p (room - 1)).map (c :: ·)

/-- The second loop of `fn_dos_match`. -/
def isDosNameAt (options : VolOptions) : (ss : CPtr) → (pf : Bool) → (len : Nat) → Option Bool
  | [], _, _ => none
  | c :: ss, pf, len =>
      if c = 0 then some true
      else if c = 0x2e then if pf then some false else isDosNameAt options ss true 0
      else if pf ∧ 3 < len + 1 ∨ 8 < len + 1 then some false
      else if !options.igncase &&
          (if options.downshift then 0x41 ≤ c && c ≤ 0x5a else 0x61 ≤ c && c ≤ 0x7a) then some false
      else isDosNameAt options ss pf (len + 1)

/-- The bytes of `p_buff`. -/
def patternRoom : Nat := 200

/-- `fn_dos_match` -/
def fnDosMatchAt (options : VolOptions) (s p : CPtr) : Option Bool := do
  let p ← copyPattern p patternRoom
  if ← isDosNameAt options s false 0 then xStrMatchAt imatch options p s else return false

/-! ## The strings are kept -/

section

variable {imatch} (himatch : ∀ c, imatch 0 c = true → c = 0)

theorem noNul_dropWhile {s : List UInt8} (hs : (0 : UInt8) ∉ s) (stop : UInt8 → Bool) :
    (0 : UInt8) ∉ s.dropWhile stop :=
  fun hmem => hs ((List.dropWhile_sublist stop).mem hmem)

/-- The star before the last: all places up to a point are tried. -/
theorem tryAll_fromPoint {rest : CPtr → Option Bool} {rest' : List UInt8 → Bool}
    {s : List UInt8} (hs : 0 ∉ s) (h : ∀ t, t <:+ s → rest (ofText t) = some (rest' t)) :
    tryAll rest (· = 0x2e) (fun _ => some false) (ofText s) =
      some (if (List.range (s.length - (fromPoint s).length)).any fun i => rest' (s.drop i)
        then .error true else .ok (ofText (fromPoint s))) := by
  induction s with
  | nil => simp [tryAll, fromPoint]
  | cons c s ih =>
      rw [List.mem_cons, not_or] at hs
      have ih := ih hs.2 fun t ht => h t (ht.trans (List.suffix_cons c s))
      by_cases hpoint : c = 0x2e
      · simp [tryAll, fromPoint, hpoint]
      · have hlen : (fromPoint s).length ≤ s.length :=
          (List.dropWhile_sublist _).length_le
        have hdrop : fromPoint (c :: s) = fromPoint s := by
          simp [fromPoint, hpoint]
        have hrange : (c :: s).length - (fromPoint s).length =
            (s.length - (fromPoint s).length) + 1 := by
          rw [List.length_cons]
          omega
        have hhere := h (c :: s) List.suffix_rfl
        rw [ofText_cons] at hhere
        rw [hdrop, hrange, List.range_succ_eq_map, List.any_cons, List.any_map, ofText_cons,
          tryAll, if_neg (by simpa [hpoint] using Ne.symm hs.1), hhere, ih]
        cases hrest : rest' (c :: s) <;> simp [hrest, Function.comp_def]

/-- `x_str_match` behind a star, when it keeps to its strings behind the pattern's next
byte. -/
theorem xStrMatchAt_star (unix2dos : UInt8 → UInt8) (soptions : VolOptions) {c : UInt8}
    {p s : List UInt8} (hc : c = 0xaa ∨ c = 0x2a) (hp : 0 ∉ p) (hs : 0 ∉ s)
    (ih : ∀ t, 0 ∉ t → xStrMatchAt imatch soptions (ofText p) (ofText t) =
      some (xStrMatch ⟨unix2dos, imatch⟩ soptions p t)) :
    xStrMatchAt imatch soptions (ofText (c :: p)) (ofText s) =
      some (xStrMatch ⟨unix2dos, imatch⟩ soptions (c :: p) s) := by
  have hzero : c ≠ 0 := by
    rintro rfl
    revert hc
    decide
  have hquery : ¬ (c = 0xbf ∨ c = 0x3f) := by
    rcases hc with rfl | rfl <;> decide
  have hpoint : (0 : UInt8) ∉ fromPoint s := noNul_dropWhile hs _
  rw [ofText_cons, xStrMatchAt, xStrMatch, if_neg hzero, if_neg hquery, if_neg hquery, if_pos hc,
    if_pos hc, read_ofText]
  cases p with
  | nil =>
      by_cases hlast : c = 0x2a
      · simp [hlast]
      · have hend := ih _ hpoint
        have hskip : skip (· = 0x2e) (ofText s) = some (ofText (fromPoint s)) := by
          simpa [fromPoint] using skip_ofText (· = 0x2e) hs
        simp_all [xStrMatch]
  | cons d p =>
      rw [List.mem_cons, not_or] at hp
      have htries := tryAll_fromPoint hs fun t ht => ih t fun hmem => hs (ht.mem hmem)
      have hrest := ih _ hpoint
      simp only [ofText_cons] at htries hrest
      simp only [List.headD_cons, Option.bind_eq_bind, Option.bind_some, ofText_cons, htries,
        if_pos (Ne.symm hp.1), List.isEmpty_cons, Bool.false_eq_true, if_false]
      cases (List.range (s.length - (fromPoint s).length)).any fun i =>
        xStrMatch ⟨unix2dos, imatch⟩ soptions (d :: p) (s.drop i)
      · exact hrest
      · rfl

include himatch in
/-- `x_str_match` reads nothing behind its strings. -/
theorem xStrMatchAt_ofText (unix2dos : UInt8 → UInt8) (soptions : VolOptions)
    {p s : List UInt8} (hp : 0 ∉ p) (hs : 0 ∉ s) :
    xStrMatchAt imatch soptions (ofText p) (ofText s) =
      some (xStrMatch ⟨unix2dos, imatch⟩ soptions p s) := by
  induction p generalizing s with
  | nil =>
      cases s with
      | nil => rfl
      | cons c s =>
          rw [List.mem_cons, not_or] at hs
          simp [xStrMatchAt, xStrMatch, Ne.symm hs.1]
  | cons c p ih =>
      rw [List.mem_cons, not_or] at hp
      obtain ⟨hc, hp⟩ := hp
      by_cases hstar : c = 0xaa ∨ c = 0x2a
      · exact xStrMatchAt_star unix2dos soptions hstar hp hs fun t ht => ih hp ht
      rw [ofText_cons, xStrMatchAt, xStrMatch, if_neg (Ne.symm hc), if_neg hstar, if_neg hstar,
        read_ofText]
      cases s with
      | nil => 
        by_cases hquery : c = 0xbf ∨ c = 0x3f
        · simpa [hquery] using ih hp hs
        by_cases hdot : c = 0xae ∨ c = 0x2e
        · simpa [hquery, hdot] using ih hp hs
        have hnot : (if soptions.igncase then imatch 0 c else (0 : UInt8) == c) = false := by
          split
          · exact Bool.eq_false_iff.mpr fun h => hc (himatch c h).symm
          · simpa using hc
        simp only [List.headD_nil, Option.bind_eq_bind, Option.bind_some, if_neg hquery,
          if_neg hdot, hnot, Bool.false_eq_true, if_false]
        rfl
      | cons d s => 
        rw [List.mem_cons, not_or] at hs
        have hrest := ih hp hs.2
        by_cases hquery : c = 0xbf ∨ c = 0x3f
        · by_cases hd : d = 0x2e
          · simpa [hquery, hd] using ih hp (s := 0x2e :: s) (by simpa using hs.2)
          · simpa [hquery, hd, Ne.symm hs.1] using hrest
        by_cases hdot : c = 0xae ∨ c = 0x2e
        · by_cases hd : d = 0x2e
          · simpa [hquery, hdot, hd] using hrest
          · simp [hquery, hdot, hd, Ne.symm hs.1]
        simp only [List.headD_cons, Option.bind_eq_bind, Option.bind_some, if_neg hquery,
          if_neg hdot]
        by_cases hmatch : (if soptions.igncase then imatch d c else d == c) = true
        · exact (if_pos hmatch).trans (hrest.trans (congrArg some (if_pos hmatch).symm))
        · exact (if_neg hmatch).trans (congrArg some (if_neg hmatch).symm)

/-- The loop over a name of any length reads nothing behind it. -/
theorem isDosNameAt_ofText (options : VolOptions) {s : List UInt8} (hs : 0 ∉ s) (pf : Bool)
    (len : Nat) : isDosNameAt options (ofText s) pf len = some (isDosName options s pf len) := by
  induction s generalizing pf len with
  | nil => rfl
  | cons c s ih =>
      rw [List.mem_cons, not_or] at hs
      have ih := ih hs.2
      rw [ofText_cons, isDosNameAt, isDosName, if_neg (Ne.symm hs.1)]
      by_cases hpoint : c = 0x2e
      · cases pf <;> simp [hpoint, ih]
      · rw [if_neg hpoint, if_neg hpoint, ih]
        split
        · rfl
        · exact (apply_ite some _ _ _).symm

/-- The copy of a pattern fits unless too many of its bytes are not 0xff. -/
theorem copyPattern_ofText {p : List UInt8} (hp : 0 ∉ p) (room : Nat) :
    copyPattern (ofText p) room =
      if (p.filter (· ≠ 0xff)).length < room then some (ofText (p.filter (· ≠ 0xff)))
      else none := by
  induction p generalizing room with
  | nil => cases room <;> rfl
  | cons c p ih =>
      rw [List.mem_cons, not_or] at hp
      have ih := ih hp.2
      rw [ofText_cons, copyPattern]
      by_cases hlead : c = 0xff
      · simp [hlead, ih]
      · cases room with
        | zero => simp [hlead]
        | succ room =>
            simp only [if_neg hlead, if_neg (Ne.symm hp.1), Nat.add_one_ne_zero, if_false,
              Nat.add_sub_cancel, ih]
            split <;> simp_all

include himatch in
/-- `fn_dos_match` keeps to its strings, and to its buffer if and only if the pattern has
fewer bytes that are not 0xff than the buffer has room. -/
theorem fnDosMatchAt_ofText (unix2dos : UInt8 → UInt8) (options : VolOptions)
    {s p : List UInt8} (hs : 0 ∉ s) (hp : 0 ∉ p) :
    fnDosMatchAt imatch options (ofText s) (ofText p) =
      if (p.filter (· ≠ 0xff)).length < patternRoom then
        some (fnDosMatch ⟨unix2dos, imatch⟩ options s p)
      else none := by
  have hfilter : (0 : UInt8) ∉ p.filter (· ≠ 0xff) := fun hmem => hp (List.mem_filter.mp hmem).1
  rw [fnDosMatchAt, copyPattern_ofText hp, fnDosMatch]
  split
  · simp only [Option.bind_eq_bind, Option.bind_some, isDosNameAt_ofText options hs,
      xStrMatchAt_ofText himatch unix2dos options hfilter hs]
    cases isDosName options s false 0 <;> rfl
  · rfl

end

end MarsNwe
