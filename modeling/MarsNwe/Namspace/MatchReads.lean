import MarsNwe.Namspace.Matching
import MarsNwe.Lib.CPtr

/-! # What the matchers of the name spaces read

The matchers of namspace.c and nameos2.c on pointers. No result stands for a read behind
the terminator of the name or of the pattern. Each round of a loop reads a byte of the
pattern and passes over it, so there are as many rounds as bytes.
-/

namespace MarsNwe.NameSpace

open CPtr

/-- What follows the loop of the DOS and the OS/2 matcher: the name has ended, or a point
is its last byte. -/
def nameEnds (s : CPtr) : Option Bool := do
  let c ← read s
  if c = 0x2e then return (← read s.tail) = 0 else return c = 0

/-! ## Ranges of characters -/

/-- Behind the `[` of a range: the negation is passed over. -/
def rangeNoAt (p : CPtr) : Option (Bool × CPtr) := do
  let c ← read p
  if c = 0x21 ∨ c = 0x5e then return (true, p.tail) else return (false, p)

/-- `if (pc == '\\') pc = *(p++)` -/
def escapedAt (pc : Nat) (p : CPtr) : Option (Nat × CPtr) :=
  if pc = 0x5c then do return ((← read p).toNat, p.tail) else some (pc, p)

/-- `if (*p == '-' && *(p+1) != ']')`: the end of a range that begins with `anf`, and the
pointer behind it. -/
def rangeEndeAt (anf : Nat) (p : CPtr) : Option (Nat × CPtr) := do
  if (← read p) = 0x2d then
    let c ← read p.tail
    if c ≠ 0x5d then return (c.toNat, p.tail.tail) else return (anf, p)
  else return (anf, p)

/-- The `do` loop over a range: `pc` has been read, `p` stands behind it. The loop ends
with what it has found and a pointer behind the `]`, or returns from the matcher. -/
def rangeLoopAt (sc : UInt8) (no : Bool) :
    (rounds : Nat) → (pc : Nat) → (p : CPtr) → (found : Bool) → Option (Option (Bool × CPtr))
  | 0, _, _, _ => none
  | rounds + 1, pc, p, found => do
      let (anf, p) ← escapedAt pc p
      if anf = 0 then return none
      else
        let (ende, p) ← rangeEndeAt anf p
        let hit := anf = sc.toNat ∨ anf ≤ sc.toNat ∧ sc.toNat ≤ ende
        let found := if found = no ∧ hit then !no else found
        let c ← read p
        if c = 0x5d then return some (found, p.tail)
        else rangeLoopAt sc no rounds c.toNat p.tail found

/-! ## DOS -/

/-- The byte that 0xff stands before, and what a wildcard with its high bit set means. -/
def xStrCode (c : UInt8) (p : CPtr) : Option (UInt8 × CPtr) :=
  if c = 0xff then do
    let next ← read p
    if isWildByte next then return (unwild next, p.tail) else return (unwild c, p)
  else some (unwild c, p)

/-- The loop of `x_str_match` on the pattern `p` and the name `s`. -/
def xStrLoopAt (igncase : Bool) (imatch : UInt8 → UInt8 → Bool) :
    (rounds : Nat) → (p s : CPtr) → XState → Option Bool
  | 0, _, _, _ => none
  | rounds + 1, p, s, state => do
      let c ← read p
      if c = 0 then nameEnds s
      else
        let (pc, p) ← xStrCode c p.tail
        match state with
        | .plain =>
            if pc = 0x5c then
              if (← read p) ≠ (← read s) then return false
              else xStrLoopAt igncase imatch rounds p.tail s.tail .plain
            else if pc = 0x3f then
              let sc ← read s
              xStrLoopAt igncase imatch rounds p (if sc = 0 then s else s.tail)
                (if sc = 0 ∨ sc = 0x2e then .noChar else .plain)
            else if pc = 0x2e then
              let sc ← read s
              if sc ≠ 0 ∧ sc ≠ 0x2e then return false
              else xStrLoopAt igncase imatch rounds p (if sc = 0 then s else s.tail) .plain
            else if pc = 0x2a then
              if (← read p) = 0 then return true
              else
                match ← tryAll (fun s => xStrLoopAt igncase imatch rounds p s .plain)
                  (fun _ => false) (fun c => some (c = 0x2e)) s with
                | .error result => return result
                | .ok s => xStrLoopAt igncase imatch rounds p s .atEnd
            else if pc = 0x5b then
              let (no, p) ← rangeNoAt p
              let pc ← read p
              if pc = 0 then nameEnds s
              else
                let sc ← read s
                if sc = 0 then return false
                else
                  match ← rangeLoopAt sc no p.length pc.toNat p.tail no with
                  | none => return false
                  | some (found, p) =>
                      if found then xStrLoopAt igncase imatch rounds p s.tail .plain
                      else return false
            else
              let sc ← read s
              if !(if igncase then imatch sc pc else sc == pc) then return false
              else xStrLoopAt igncase imatch rounds p s.tail .plain
        | .noChar =>
            if pc = 0x2a ∨ pc = 0x3f then xStrLoopAt igncase imatch rounds p s .noChar
            else if pc = 0x2e then xStrLoopAt igncase imatch rounds p s .plain
            else return false
        | .atEnd =>
            if pc ≠ 0x2e then return false else xStrLoopAt igncase imatch rounds p s .afterPoint
        | .afterPoint =>
            if pc ≠ 0x2a then return false else xStrLoopAt igncase imatch rounds p s .afterPoint

/-- `x_str_match` -/
def xStrMatchAt (igncase : Bool) (imatch : UInt8 → UInt8 → Bool) (s p : CPtr) : Option Bool :=
  xStrLoopAt igncase imatch p.length p s .plain

/-! ## OS/2 -/

/-- `get_n_p` -/
def getNPAt (p : CPtr) : Option (Nat × CPtr) := do
  let c ← read p
  if c = 0x5c then return ((← read p.tail).toNat, p.tail.tail)
  else if c = 0xff then return (wildCode (← read p.tail), p.tail.tail)
  else return (c.toNat, p.tail)

/-- `!get_n_p(&p) || !get_n_p(&p)` -/
def lastOneAt (p : CPtr) : Option Bool := do
  let (pc, p) ← getNPAt p
  if pc = 0 then return true
  else
    let (pc, _) ← getNPAt p
    return pc = 0

/-- A character in the case that the volume does not have. -/
def wrongCaseAt (options : VolOptions) (s : CPtr) : Option Bool :=
  if options.igncase then some false
  else do
    let sc ← read s
    return if options.downshift then 0x41 ≤ sc && sc ≤ 0x5a else 0x61 ≤ sc && sc ≤ 0x7a

/-- The loop of `fn_os2_match` on the pattern `p` and the name `s`. -/
def fnOs2LoopAt (options : VolOptions) (imatch : UInt8 → UInt8 → Bool) :
    (rounds : Nat) → (p s : CPtr) → Option Bool
  | 0, _, _ => none
  | rounds + 1, p, s => do
      let (pc, p) ← getNPAt p
      if pc = 0 then nameEnds s
      else if ← wrongCaseAt options s then return false
      else if pc = 0x2e ∨ pc = 1000 then
        let sc ← read s
        if sc ≠ 0 ∧ sc ≠ 0x2e then return false
        else fnOs2LoopAt options imatch rounds p (if sc = 0 then s else s.tail)
      else if pc = 0x3f ∨ pc = 2000 then
        if (← read s) = 0 then return false else fnOs2LoopAt options imatch rounds p s.tail
      else if pc = 0x2a ∨ pc = 3000 then
        if (← read p) = 0 then return true
        else
          match ← tryAll (fun s => fnOs2LoopAt options imatch rounds p s) (fun _ => false)
            (fun c => if c = 0x2e then lastOneAt p else some false) s with
          | .error result => return result
          | .ok s => do
              let (np, _) ← getNPAt p
              if np = 0x2e ∨ np = 1000 then fnOs2LoopAt options imatch rounds p s
              else return false
      else if pc = 0x5b then
        let (no, p) ← rangeNoAt p
        let (pc, p) ← getNPAt p
        if pc = 0 then nameEnds s
        -- the `while` has been passed again
        else if ← wrongCaseAt options s then return false
        else
          let sc ← read s
          if sc = 0 then return false
          else
            match ← rangeLoopAt sc no (p.length + 1) pc p no with
            | none => return false
            | some (found, p) =>
                if found then fnOs2LoopAt options imatch rounds p s.tail else return false
      else
        let sc ← read s
        if !(if options.igncase then imatch sc (UInt8.ofNat pc) else sc.toNat == pc) then
          return false
        else fnOs2LoopAt options imatch rounds p s.tail

/-- `fn_os2_match` -/
def fnOs2MatchAt (options : VolOptions) (imatch : UInt8 → UInt8 → Bool) (s p : CPtr) :
    Option Bool :=
  fnOs2LoopAt options imatch p.length p s

/-! ## Other name spaces -/

/-- What stands behind 0xff: a star, a point or a question mark, or the byte itself, which
stays in front. -/
def nsCodeAt (c : UInt8) (p : CPtr) : Option (Nat × CPtr) :=
  if c = 0xff then do
    let code := wildCode (← read p)
    return (code, if 1000 ≤ code then p.tail else p)
  else some (c.toNat, p)

/-- The loop of `namespace_fn_match` on the pattern `p` and the name `s`. -/
def namespaceFnLoopAt : (rounds : Nat) → (p s : CPtr) → Option Bool
  | 0, _, _ => none
  | rounds + 1, p, s => do
      let c ← read p
      if c = 0 then return (← read s) = 0
      else if c = 0x5c then namespaceFnLoopAt rounds p.tail s
      else
        let (code, p) ← nsCodeAt c p.tail
        if code = 1000 then
          if (← read s) ≠ 0x2e then return false else namespaceFnLoopAt rounds p s.tail
        else if code = 2000 then
          if (← read s) = 0 then return false else namespaceFnLoopAt rounds p s.tail
        else if code = 3000 then
          if (← read p) = 0 then return true
          else
            match ← tryAll (fun s => namespaceFnLoopAt rounds p s) (fun _ => false)
              (fun _ => some false) s with
            | .error result => return result
            | .ok _ => return false
        else if code = 0x5b then
          let (no, p) ← rangeNoAt p
          let pc ← read p
          if pc = 0 then return (← read s) = 0
          else
            let sc ← read s
            if sc = 0 then return false
            else
              match ← rangeLoopAt sc no p.length pc.toNat p.tail no with
              | none => return false
              | some (found, p) =>
                  if found then namespaceFnLoopAt rounds p s.tail else return false
        else if (← read s).toNat ≠ code then return false
        else namespaceFnLoopAt rounds p s.tail

/-- `namespace_fn_match` -/
def namespaceFnMatchAt (s p : CPtr) : Option Bool := namespaceFnLoopAt p.length p s

end MarsNwe.NameSpace
