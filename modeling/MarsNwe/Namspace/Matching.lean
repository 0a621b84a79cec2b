import MarsNwe.Namspace.Entries

/-! # Patterns of the name space searches

The matchers read names and patterns byte by byte; a list that has ended shows its
terminator. A matcher that goes on behind the terminator of the name or of the pattern
has no answer.
-/

namespace MarsNwe.NameSpace

variable {φ : Type}

/-- `*p` -/
def peek (p : List UInt8) : UInt8 := p.headD 0

/-- How a range of characters ends. -/
inductive RangeEnd
  | unclosed
  /-- The pattern is read behind its terminator. -/
  | behind
  | closed (found : Bool) (p : List UInt8)

/-- The loop over a range of characters, which the matchers share: `pc` has been read,
`p` stands behind it, and `no` says that the range begins with a negation. -/
def rangeLoop (sc : UInt8) (no : Bool) (pc : Nat) (p : List UInt8) (found : Bool) : RangeEnd :=
  let anf := if pc = 0x5c then (peek p).toNat else pc
  let q := p.drop (if pc = 0x5c then 1 else 0)
  if anf = 0 then .unclosed
  else if peek q = 0x2d ∧ q.tail = [] then .behind
  else
    let isRange := peek q = 0x2d ∧ peek q.tail ≠ 0x5d
    let ende := if isRange then (peek q.tail).toNat else anf
    let hit := anf = sc.toNat ∨ anf ≤ sc.toNat ∧ sc.toNat ≤ ende
    let found := if found = no ∧ hit then !no else found
    match _hrest : q.drop (if isRange then 2 else 0) with
    | [] => .unclosed
    | c :: rest => if c = 0x5d then .closed found rest else rangeLoop sc no c.toNat rest found
termination_by p.length
decreasing_by
  have hlen := congrArg List.length _hrest
  simp only [q, List.length_drop, List.length_cons] at hlen
  omega

theorem length_rangeLoop_lt {sc : UInt8} {pc : Nat} {no found found' : Bool} {p rest : List UInt8}
    (h : rangeLoop sc no pc p found = .closed found' rest) : rest.length < p.length := by
  fun_induction rangeLoop sc no pc p found with
  | case1 | case2 | case3 => contradiction
  | case4 pc p found anf q hanf hbehind isRange ende hit found₁ rest₁ hrest =>
      obtain ⟨-, rfl⟩ := RangeEnd.closed.inj h
      have hlen := congrArg List.length hrest
      simp only [q, List.length_drop, List.length_cons] at hlen
      omega
  | case5 pc p found anf q hanf hbehind isRange ende hit found₁ c rest₁ hrest hc ih =>
      have hlen := congrArg List.length hrest
      simp only [q, List.length_drop, List.length_cons] at hlen
      have hlt := ih h
      omega

/-- Behind the `[` of a range: the negation is passed over. -/
def rangeNo (p : List UInt8) : Bool × List UInt8 :=
  if peek p = 0x21 ∨ peek p = 0x5e then (true, p.tail) else (false, p)

theorem length_rangeNo_le (p : List UInt8) : (rangeNo p).2.length ≤ p.length := by
  unfold rangeNo
  split <;> simp

/-- `while (*s)` of a star: `rest` is what follows it in the pattern, and `give up` says
where a name may not be passed over. No result stands for the end of the name. -/
def starLoop (rest : List UInt8 → Option Bool) (giveUp : UInt8 → Bool) :
    List UInt8 → Option (Option Bool)
  | [] => some none
  | c :: s =>
      match rest (c :: s) with
      | none => none
      | some true => some (some true)
      | some false => if giveUp c then some (some false) else starLoop rest giveUp s

/-! ## DOS -/

/-- The states of `x_str_match` outside of ranges: 0, 10, 30 and 31. -/
inductive XState
  | plain
  | noChar
  | atEnd
  | afterPoint

/-- The bytes that 0xff may stand before. -/
def isWildByte (c : UInt8) : Bool :=
  c = 0x2a ∨ c = 0x3f ∨ c = 0xaa ∨ c = 0xae ∨ c = 0xbf ∨ c = 0x2e

def unwild (c : UInt8) : UInt8 :=
  if c = 0xaa then 0x2a else if c = 0xae then 0x2e else if c = 0xbf then 0x3f else c

/-- The loop of `x_str_match` on the pattern `p` and the name `s`. -/
def xStrMatch (igncase : Bool) (imatch : UInt8 → UInt8 → Bool) :
    (p s : List UInt8) → XState → Option Bool
  | [], s, _ => some (s = [] ∨ s = [0x2e])
  | c :: p, s, state =>
      let lead := c = 0xff ∧ isWildByte (peek p)
      let pc := unwild (if lead then peek p else c)
      let q := p.drop (if lead then 1 else 0)
      match state with
      | .plain =>
          if pc = 0x5c then
            if peek q ≠ peek s then some false
            else if q = [] then none
            else xStrMatch igncase imatch q.tail s.tail .plain
          else if pc = 0x3f then
            xStrMatch igncase imatch q s.tail (if peek s = 0 ∨ peek s = 0x2e then .noChar else .plain)
          else if pc = 0x2e then
            if s ≠ [] ∧ peek s ≠ 0x2e then some false else xStrMatch igncase imatch q s.tail .plain
          else if pc = 0x2a then
            if q = [] then some true
            else
              match starLoop (fun s => xStrMatch igncase imatch q s .plain) (· = 0x2e) s with
              | none => none
              | some (some result) => some result
              | some none => xStrMatch igncase imatch q [] .atEnd
          else if pc = 0x5b then
            match _hno : (rangeNo q).2 with
            | [] => some (s = [] ∨ s = [0x2e])
            | pc :: rest =>
                if s = [] then some false
                else
                  match _hrange : rangeLoop (peek s) (rangeNo q).1 pc.toNat rest (rangeNo q).1 with
                  | .unclosed => some false
                  | .behind => none
                  | .closed found rest =>
                      if found then xStrMatch igncase imatch rest s.tail .plain else some false
          else if !(if igncase then imatch (peek s) pc else peek s == pc) then some false
          else if s = [] then none
          else xStrMatch igncase imatch q s.tail .plain
      | .noChar =>
          if pc = 0x2a ∨ pc = 0x3f then xStrMatch igncase imatch q s .noChar
          else if pc = 0x2e then xStrMatch igncase imatch q s .plain
          else some false
      | .atEnd => if pc ≠ 0x2e then some false else xStrMatch igncase imatch q s .afterPoint
      | .afterPoint => if pc ≠ 0x2a then some false else xStrMatch igncase imatch q s .afterPoint
termination_by p => p.length
decreasing_by
  all_goals simp only [List.length_cons, List.length_tail, List.length_drop]
  all_goals try omega
  have hno := length_rangeNo_le q
  have hrest := length_rangeLoop_lt _hrange
  simp only [_hno, q, List.length_cons, List.length_drop] at hno
  omega

/-- `fn_dos_match_old` -/
def fnDosMatchOld (options : VolOptions) (imatch : UInt8 → UInt8 → Bool) (s p : List UInt8) :
    Option Bool :=
  if isDosName options s false 0 then xStrMatch options.igncase imatch p s .plain else some false

/-! ## OS/2 -/

/-- What a byte behind 0xff stands for: a star, a point, a question mark or itself. -/
def wildCode (c : UInt8) : Nat :=
  if c = 0xaa ∨ c = 0x2a then 3000
  else if c = 0xae ∨ c = 0x2e then 1000
  else if c = 0xbf ∨ c = 0x3f then 2000
  else c.toNat

/-- `get_n_p` -/
def getNP : List UInt8 → Nat × List UInt8
  | [] => (0, [])
  | c :: p =>
      if c = 0x5c then ((peek p).toNat, p.tail)
      else if c = 0xff then (wildCode (peek p), p.tail)
      else (c.toNat, p)

theorem length_getNP_le (c : UInt8) (p : List UInt8) : (getNP (c :: p)).2.length ≤ p.length := by
  simp only [getNP]
  split
  · simp
  · split <;> simp

/-- The loop of `fn_os2_match` on the pattern `p` and the name `s`. -/
def fnOs2Match (options : VolOptions) (imatch : UInt8 → UInt8 → Bool) :
    (p s : List UInt8) → Option Bool
  | [], s => some (s = [] ∨ s = [0x2e])
  | c :: p, s =>
      let pc := (getNP (c :: p)).1
      let q := (getNP (c :: p)).2
      let wrongCase := !options.igncase &&
        (if options.downshift then 0x41 ≤ peek s && peek s ≤ 0x5a
          else 0x61 ≤ peek s && peek s ≤ 0x7a)
      if pc = 0 then some (s = [] ∨ s = [0x2e])
      else if wrongCase then some false
      else if pc = 0x2e ∨ pc = 1000 then
        if s ≠ [] ∧ peek s ≠ 0x2e then some false else fnOs2Match options imatch q s.tail
      else if pc = 0x3f ∨ pc = 2000 then
        if s = [] then some false else fnOs2Match options imatch q s.tail
      else if pc = 0x2a ∨ pc = 3000 then
        if q = [] then some true
        else
          let lastOne := (getNP q).1 = 0 ∨ (getNP (getNP q).2).1 = 0
          match starLoop (fun s => fnOs2Match options imatch q s) (fun c => c = 0x2e && lastOne)
              s with
          | none => none
          | some (some result) => some result
          | some none =>
              if (getNP q).1 = 0x2e ∨ (getNP q).1 = 1000 then fnOs2Match options imatch q []
              else some false
      else if pc = 0x5b then
        match _hno : (rangeNo q).2 with
        | [] => some (s = [] ∨ s = [0x2e])
        | first :: more =>
            let pc := (getNP (first :: more)).1
            if pc = 0 then some (s = [] ∨ s = [0x2e])
            else if s = [] then some false
            else
              match _hrange : rangeLoop (peek s) (rangeNo q).1 pc (getNP (first :: more)).2
                  (rangeNo q).1 with
              | .unclosed => some false
              | .behind => none
              | .closed found rest => if found then fnOs2Match options imatch rest s.tail else some false
      else if !(if options.igncase then imatch (peek s) (UInt8.ofNat pc) else (peek s).toNat == pc) then
        some false
      else if s = [] then none
      else fnOs2Match options imatch q s.tail
termination_by p => p.length
decreasing_by
  all_goals
    have hq := length_getNP_le c p
    simp only [List.length_cons]
  all_goals try omega
  have hno := length_rangeNo_le q
  have hrest := length_rangeLoop_lt _hrange
  have hnext := length_getNP_le first more
  simp only [_hno, q, List.length_cons] at hno
  omega

/-! ## Other name spaces -/

/-- The loop of `namespace_fn_match` on the pattern `p` and the name `s`. A byte behind
0xff that means nothing there is read twice. -/
def namespaceFnMatch : (p s : List UInt8) → Option Bool
  | [], s => some (s = [])
  | c :: p, s =>
      let code := if c = 0xff then wildCode (peek p) else c.toNat
      let q := p.drop (if c = 0xff ∧ 1000 ≤ wildCode (peek p) then 1 else 0)
      if c = 0x5c then namespaceFnMatch p s
      else if code = 1000 then
        if peek s ≠ 0x2e then some false else namespaceFnMatch q s.tail
      else if code = 2000 then if s = [] then some false else namespaceFnMatch q s.tail
      else if code = 3000 then
        if q = [] then some true
        else
          match starLoop (fun s => namespaceFnMatch q s) (fun _ => false) s with
          | none => none
          | some result => some (result.getD false)
      else if code = 0x5b then
        match _hno : (rangeNo q).2 with
        | [] => some (s = [])
        | pc :: rest =>
            if s = [] then some false
            else
              match _hrange : rangeLoop (peek s) (rangeNo q).1 pc.toNat rest (rangeNo q).1 with
              | .unclosed => some false
              | .behind => none
              | .closed found rest => if found then namespaceFnMatch rest s.tail else some false
      else if (peek s).toNat ≠ code then some false
      else if s = [] then none
      else namespaceFnMatch q s.tail
termination_by p => p.length
decreasing_by
  all_goals simp only [List.length_cons, List.length_drop]
  all_goals try omega
  have hno := length_rangeNo_le q
  have hrest := length_rangeLoop_lt _hrange
  simp only [_hno, q, List.length_cons, List.length_drop] at hno
  omega

end MarsNwe.NameSpace
