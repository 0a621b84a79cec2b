import Mathlib.Algebra.Ring.Int.Defs
import MarsNwe.Lib.CText
import Mathlib.Data.List.DropRight

/-! # The argument vector of a pipe command

`build_argv` cuts a command at its blanks, in one buffer with the vector of the
pointers to its words. The room for the pointers is what the text leaves of the
buffer, and whether the vector is still terminated depends on both.
-/

namespace MarsNwe

/-! ## The code -/

def isBlank (c : UInt8) : Bool := c == 0x20 || c == 0x09

/-- A value that an `int` holds. -/
def cInt (x : Int) : Option Int := if -2 ^ 31 ≤ x ∧ x < 2 ^ 31 then some x else none

/-- What `build_argv` leaves in the buffer: the text, and behind it, from `offset`
on, the pointers into the text with a `NULL` after the last. -/
structure Argv where
  text : List UInt8
  offset : Int
  slots : List Nat
deriving DecidableEq

/-- The loop over the text. `done` is what stands before `p`, `slots` are the slots
before `pp`, and `pp` is the pointer that `*pp` holds. -/
def argvLoop (fits : Nat → Bool) (components : Nat) (flags : Int) :
    (rest done : List UInt8) → (slots : List Nat) → (pp : Nat) →
      Option (List UInt8 × List Nat)
  | [], _, _, _ => none
  | c :: rest, done, slots, pp =>
      if c = 0 ∨ ¬slots.length < components then some (done ++ c :: rest, slots ++ [pp])
      else if isBlank c then
        match rest.head? with
        | none => none
        | some next =>
            if isBlank next then argvLoop fits components flags rest (done ++ [0]) slots pp
            else if fits (slots.length + 1) then
              argvLoop fits components flags rest (done ++ [0]) (slots ++ [pp]) (done.length + 1)
            else none
      else if slots = [] ∧ flags % 2 = 1 ∧ c = 0x2f then
        argvLoop fits components flags rest (done ++ [c]) slots (done.length + 1)
      else argvLoop fits components flags rest (done ++ [c]) slots pp

/-- `build_argv` with pointers of `w` bytes. The outer `none` is an access outside
`buf`, or a length that is no `int`; the inner one is `NULL`. -/
def buildArgv (w : Nat) (bufsize : Int) (command : List UInt8) (flags : Int) :
    Option (Option Argv) := do
  let len ← cInt command.length
  let offset := (← cInt (len + 4)).tdiv 4 * 4
  let components := (← cInt (bufsize - offset)).tdiv 4
  if components > 1 then
    -- slot `k` takes `w` bytes, although the slots were counted in units of 4
    let fits := fun k : Nat => decide (offset + w * (k + 1) ≤ bufsize)
    if fits 0 then
      let text := command ++ List.replicate (offset - len).toNat 0
      let (text, slots) ← argvLoop fits (components - 1).toNat flags text [] [] 0
      -- the last loop of the code reads the slots up to the `NULL`
      if fits slots.length then pure (some ⟨text, offset, slots⟩) else none
    else none
  else pure none

/-! ## What the vector should be -/

/-- The maximal runs of characters that are no blanks. -/
def words (command : List UInt8) : List (List UInt8) :=
  (command.splitOnP isBlank).filter fun word => word ≠ []

/-- The part of the path behind its last slash. -/
def lastPart (flags : Int) (word : List UInt8) : List UInt8 :=
  if flags % 2 = 1 then word.rtakeWhile fun c => c ≠ 0x2f else word

/-- The arguments that a command asks for. -/
def argsOf (flags : Int) (command : List UInt8) : List (List UInt8) :=
  match words command with
  | [] => []
  | word :: rest => lastPart flags word :: rest

/-- The string at `p`, if it is terminated in the text. -/
def stringAt (text : List UInt8) (p : Nat) : Option (List UInt8) :=
  if (0 : UInt8) ∈ text.drop p then some (CText.visible (text.drop p)) else none

/-- The strings that the slots point to. -/
def Argv.entries (v : Argv) : Option (List (List UInt8)) := v.slots.mapM (stringAt v.text)

/-- The vector and its terminator lie in `buf` behind the text, and its entries are
the arguments, all of them when there is room for their pointers. -/
structure Argv.WellFormed (w : Nat) (bufsize : Int) (command : List UInt8) (flags : Int)
    (v : Argv) : Prop where
  behind : (command.length : Int) < v.offset
  inside : v.offset + w * (v.slots.length + 1) ≤ bufsize
  entries : ∃ args, v.entries = some args ∧ args <+: argsOf flags command ∧
    (v.offset + w * ((argsOf flags command).length + 1) ≤ bufsize → args = argsOf flags command)

/-- The call keeps inside `buf`, and what it returns is `NULL` or well formed. -/
def BuildsArgv (w : Nat) (bufsize : Int) (command : List UInt8) (flags : Int) : Prop :=
  ∃ result, buildArgv w bufsize command flags = some result ∧
    ∀ v, result = some v → v.WellFormed w bufsize command flags

/-- No blank at the beginning and none at the end. -/
structure Trimmed (command : List UInt8) : Prop where
  head : ∀ c, command.head? = some c → ¬isBlank c
  last : ∀ c, command.getLast? = some c → ¬isBlank c

/-- Where the vector begins: behind the text and its terminator. -/
def argvOffset (command : List UInt8) : Int := (command.length + 4) / 4 * 4

/-- The lengths are `int`s, and the buffer has either no room for two pointers of 4
bytes, or room for one pointer for each word of a command that is not empty and one
more. -/
def ArgvFits (w : Nat) (bufsize : Int) (command : List UInt8) : Prop :=
  (command.length : Int) + 4 < 2 ^ 31 ∧
    (-2 ^ 31 ≤ bufsize - argvOffset command ∧ bufsize < argvOffset command + 8 ∨
      command ≠ [] ∧ argvOffset command + w * ((words command).length + 1) ≤ bufsize)

/-! ## Words -/

@[simp] theorem words_nil : words [] = [] := by simp [words]

theorem words_blank {c : UInt8} (hc : isBlank c) (rest : List UInt8) :
    words (c :: rest) = words rest := by
  unfold words
  rw [← List.nil_append (c :: rest), List.splitOnP_append_cons [] rest hc, List.filter_append]
  simp

/-- A command that starts with a word has the word and those of the rest. -/
theorem words_of_head {c : UInt8} (hc : ¬isBlank c) (rest : List UInt8) :
    words (c :: rest) = (c :: rest).takeWhile (fun c => !isBlank c) ::
      words ((c :: rest).dropWhile fun c => !isBlank c) := by
  have hword : ∀ x ∈ (c :: rest).takeWhile (fun c => !isBlank c), isBlank x = false := by
    intro x hx
    simpa using List.mem_takeWhile_imp hx
  have hne : (c :: rest).takeWhile (fun c => !isBlank c) ≠ [] := by
    rw [List.takeWhile_cons_of_pos (by simpa using hc)]
    exact List.cons_ne_nil _ _
  conv => lhs; rw [← List.takeWhile_append_dropWhile (p := fun c => !isBlank c) (l := c :: rest)]
  cases hd : (c :: rest).dropWhile (fun c => !isBlank c) with
  | nil =>
      rw [List.append_nil, words_nil, words, List.splitOnP_eq_singleton hword]
      simp [hne]
  | cons b r =>
      have hb : isBlank b := by
        have := List.head?_dropWhile_not (fun c => !isBlank c) (c :: rest)
        simpa [hd] using this
      rw [words_blank hb, words, List.splitOnP_append_cons _ _ hb, List.filter_append,
        List.splitOnP_eq_singleton hword]
      simp [hne, words]

/-- The words that begin behind the word at the head of a text. -/
def laterWords (text : List UInt8) : List (List UInt8) :=
  words (text.dropWhile fun c => !isBlank c)

theorem laterWords_letter {c : UInt8} (hc : ¬isBlank c) (rest : List UInt8) :
    laterWords (c :: rest) = laterWords rest := by
  unfold laterWords
  rw [List.dropWhile_cons_of_pos (by simpa using hc)]

theorem laterWords_blank {c : UInt8} (hc : isBlank c) (rest : List UInt8) :
    laterWords (c :: rest) = words rest := by
  unfold laterWords
  rw [List.dropWhile_cons_of_neg (by simpa using hc), words_blank hc]

theorem words_eq_laterWords {c : UInt8} (hc : isBlank c) (rest : List UInt8) :
    words (c :: rest) = laterWords (c :: rest) := by
  rw [laterWords_blank hc, words_blank hc]

theorem takeWhile_blank {c : UInt8} (hc : isBlank c) (rest : List UInt8) :
    (c :: rest).takeWhile (fun c => !isBlank c) = [] :=
  List.takeWhile_cons_of_neg (by simpa using hc)

/-- Behind a text without a blank at its end the same holds of its tail. -/
theorem last_tail {c : UInt8} {rest : List UInt8}
    (hlast : ∀ x, (c :: rest).getLast? = some x → ¬isBlank x) :
    ∀ x, rest.getLast? = some x → ¬isBlank x := by
  intro x hx
  cases rest with
  | nil => cases hx
  | cons d r => exact hlast x (by rwa [List.getLast?_cons_cons])

/-- A blank is not the last character. -/
theorem exists_cons_of_blank {c : UInt8} {rest : List UInt8} (hc : isBlank c)
    (hlast : ∀ x, (c :: rest).getLast? = some x → ¬isBlank x) : ∃ d r, rest = d :: r := by
  cases rest with
  | nil => exact absurd hc (hlast c rfl)
  | cons d r => exact ⟨d, r, rfl⟩

/-! ## The loop -/

section Loop

variable {fits : Nat → Bool} {components : Nat} {flags : Int}

/-- The number of slots that the loop fills: one for each word, while it counts. -/
theorem length_argvLoop (cmd z done : List UInt8) (slots : List Nat) (pp : Nat)
    (hnul : (0 : UInt8) ∉ cmd) (hlast : ∀ x, cmd.getLast? = some x → ¬isBlank x)
    (hslots : slots.length ≤ components) {text : List UInt8} {found : List Nat}
    (h : argvLoop fits components flags (cmd ++ 0 :: z) done slots pp = some (text, found)) :
    found.length = 1 + min (slots.length + (laterWords cmd).length) components := by
  induction cmd generalizing done slots pp with
  | nil =>
      rw [List.nil_append, argvLoop, if_pos (Or.inl rfl)] at h
      cases h
      simp [laterWords]
      omega
  | cons c rest ih =>
      obtain ⟨hc, hrest⟩ : (0 : UInt8) ≠ c ∧ (0 : UInt8) ∉ rest := by simpa using hnul
      have hlast' := last_tail hlast
      rw [List.cons_append, argvLoop] at h
      split at h
      · next hstop =>
          cases h
          have := hstop.resolve_left (Ne.symm hc)
          rw [List.length_append, List.length_singleton]
          omega
      split at h
      · next hgo hblank =>
          obtain ⟨d, r, rfl⟩ := exists_cons_of_blank hblank hlast
          rw [List.cons_append, List.head?_cons] at h
          dsimp only at h
          rw [laterWords_blank hblank]
          have hlt : slots.length < components := by
            by_contra hge
            exact hgo (Or.inr hge)
          split at h
          · next hd =>
              rw [words_eq_laterWords hd]
              exact ih _ _ _ hrest hlast' hslots h
          split at h
          · next hd hfit =>
              rw [ih _ _ _ hrest hlast' (by simpa [Nat.succ_le_iff] using hlt) h, words_of_head hd]
              simp [laterWords]
              omega
          · cases h
      · next hletter =>
          rw [laterWords_letter hletter]
          split at h
          · exact ih _ _ _ hrest hlast' hslots h
          · exact ih _ _ _ hrest hlast' hslots h

/-- The word of slot `pp` so far: its letters, without those that `build_argv` has cut
off, up to `p`, or up to the zero that stands for the blank behind it. -/
structure WordAt (flags : Int) (slots : List Nat) (done cmd : List UInt8) (pp : Nat)
    (word gap : List UInt8) : Prop where
  le : pp ≤ done.length
  eq : done.drop pp = word ++ gap
  noNul : (0 : UInt8) ∉ word
  cut : slots = [] → flags % 2 = 1 → (0x2f : UInt8) ∉ word
  gap : gap = [] ∨ gap.head? = some 0 ∧ cmd.takeWhile (fun c => !isBlank c) = []

/-- The first slot loses what stands before its last slash. -/
def cutWord (flags : Int) (slots : List Nat) (word : List UInt8) : List UInt8 :=
  if slots = [] then lastPart flags word else word

theorem lastPart_of_noSlash {word : List UInt8} (h : flags % 2 = 1 → (0x2f : UInt8) ∉ word) :
    lastPart flags word = word := by
  unfold lastPart
  split
  · next hflag =>
      rw [List.rtakeWhile_eq_self_iff]
      intro x hx
      simpa using ne_of_mem_of_not_mem hx (h hflag)
  · rfl

theorem rtakeWhile_append_cons {α : Type*} {p : α → Bool} {a : α} (ha : ¬p a) (xs ys : List α) :
    (xs ++ a :: ys).rtakeWhile p = ys.rtakeWhile p := by
  induction ys using List.reverseRecOn with
  | nil => rw [List.rtakeWhile_concat_neg p xs a ha, List.rtakeWhile_nil]
  | append_singleton ys y ih =>
      rw [← List.cons_append, ← List.append_assoc]
      by_cases hy : p y
      · rw [List.rtakeWhile_concat_pos p _ y hy, List.rtakeWhile_concat_pos p _ y hy, ih]
      · rw [List.rtakeWhile_concat_neg p _ y hy, List.rtakeWhile_concat_neg p _ y hy]

theorem WordAt.cutWord_eq {slots : List Nat} {done cmd word gap : List UInt8} {pp : Nat}
    (h : WordAt flags slots done cmd pp word gap) : cutWord flags slots word = word := by
  unfold cutWord
  split
  · next hnil => exact lastPart_of_noSlash (h.cut hnil)
  · rfl

/-- Once a zero stands behind the word, the slot points to the word. -/
theorem WordAt.stringAt_eq {slots : List Nat} {done cmd word gap : List UInt8} {pp : Nat}
    (h : WordAt flags slots done cmd pp word gap) (z : List UInt8) :
    stringAt (done ++ 0 :: z) pp = some word := by
  have hdrop : (done ++ 0 :: z).drop pp = word ++ (gap ++ 0 :: z) := by
    rw [List.drop_append_of_le_length h.le, h.eq, List.append_assoc]
  obtain ⟨t, ht⟩ : ∃ t, gap ++ 0 :: z = 0 :: t := by
    rcases h.gap with rfl | ⟨hhead, -⟩
    · exact ⟨z, rfl⟩
    · cases gap with
      | nil => cases hhead
      | cons g gap => exact ⟨gap ++ 0 :: z, by simpa using hhead⟩
  rw [stringAt, hdrop, ht, if_pos (by simp), CText.visible_append_zero h.noNul]

/-- The word that begins at `p`. -/
theorem WordAt.next {slots : List Nat} {done cmd : List UInt8} {c : UInt8} :
    WordAt flags slots (done ++ [c]) cmd (done.length + 1) [] [] where
  le := by simp
  eq := by simp
  noNul := List.not_mem_nil
  cut _ _ := List.not_mem_nil
  gap := Or.inl rfl

theorem WordAt.blank {slots : List Nat} {done rest word gap : List UInt8} {pp : Nat} {c d : UInt8}
    (h : WordAt flags slots done (c :: d :: rest) pp word gap) (hd : isBlank d) :
    WordAt flags slots (done ++ [0]) (d :: rest) pp word (gap ++ [0]) where
  le := by
    have := h.le
    simp
    omega
  eq := by rw [List.drop_append_of_le_length h.le, h.eq, List.append_assoc]
  noNul := h.noNul
  cut := h.cut
  gap := by
    refine Or.inr ⟨?_, takeWhile_blank hd rest⟩
    rcases h.gap with rfl | ⟨hhead, -⟩
    · rfl
    · rw [List.head?_append, hhead, Option.some_or]

theorem WordAt.letter {slots : List Nat} {done rest word gap : List UInt8} {pp : Nat} {c : UInt8}
    (h : WordAt flags slots done (c :: rest) pp word gap) (hc : 0 ≠ c) (hletter : ¬isBlank c)
    (hslash : ¬(slots = [] ∧ flags % 2 = 1 ∧ c = 0x2f)) :
    WordAt flags slots (done ++ [c]) rest pp (word ++ [c]) [] where
  le := by
    have := h.le
    simp
    omega
  eq := by
    have hgap : gap = [] := by
      refine h.gap.resolve_right fun hgap => ?_
      rw [List.takeWhile_cons_of_pos (by simpa using hletter)] at hgap
      exact List.cons_ne_nil _ _ hgap.2
    rw [List.drop_append_of_le_length h.le, h.eq, hgap, List.append_nil, List.append_nil]
  noNul := by simp [h.noNul, hc]
  cut hnil hflag := by
    have hne : c ≠ 0x2f := fun hc => hslash ⟨hnil, hflag, hc⟩
    simp [h.cut hnil hflag, hne.symm]
  gap := Or.inl rfl

/-- With room for all words the loop goes to the end of the text, and the slots that
it fills point to the word that was begun and to those behind it. -/
theorem argvLoop_spec (cmd z done : List UInt8) (slots : List Nat) (pp : Nat)
    (word gap : List UInt8) (hnul : (0 : UInt8) ∉ cmd)
    (hlast : ∀ x, cmd.getLast? = some x → ¬isBlank x)
    (hroom : slots.length + (laterWords cmd).length < components)
    (hfits : ∀ k ≤ slots.length + (laterWords cmd).length, fits k)
    (hword : WordAt flags slots done cmd pp word gap) :
    ∃ out found, argvLoop fits components flags (cmd ++ 0 :: z) done slots pp =
        some (done ++ out, slots ++ found) ∧
      found.mapM (stringAt (done ++ out)) =
        some (cutWord flags slots (word ++ cmd.takeWhile fun c => !isBlank c) ::
          laterWords cmd) := by
  induction cmd generalizing done slots pp word gap with
  | nil =>
      refine ⟨0 :: z, [pp], by rw [List.nil_append, argvLoop, if_pos (Or.inl rfl)], ?_⟩
      simp [hword.stringAt_eq z, hword.cutWord_eq, laterWords]
  | cons c rest ih =>
      obtain ⟨hc, hrest⟩ : (0 : UInt8) ≠ c ∧ (0 : UInt8) ∉ rest := by simpa using hnul
      have hlast' := last_tail hlast
      have hgo : ¬(c = 0 ∨ ¬slots.length < components) := by
        rintro (rfl | hge)
        · exact hc rfl
        · omega
      rw [List.cons_append, argvLoop, if_neg hgo]
      by_cases hblank : isBlank c
      · obtain ⟨d, r, rfl⟩ := exists_cons_of_blank hblank hlast
        rw [if_pos hblank, List.cons_append, List.head?_cons]
        dsimp only
        rw [laterWords_blank hblank] at hroom hfits ⊢
        rw [takeWhile_blank hblank, List.append_nil, hword.cutWord_eq]
        by_cases hd : isBlank d
        · -- one more blank behind the word
          rw [if_pos hd]
          rw [words_eq_laterWords hd] at hroom hfits ⊢
          obtain ⟨out, found, hrun, hfound⟩ := ih (done ++ [0]) slots pp word (gap ++ [0]) hrest
            hlast' hroom hfits (hword.blank hd)
          rw [takeWhile_blank hd, List.append_nil, hword.cutWord_eq] at hfound
          rw [List.append_cons] at hfound
          exact ⟨0 :: out, found, by rw [← List.cons_append, hrun]; simp, by simpa using hfound⟩
        · -- the next word begins, and its pointer goes to the next slot
          rw [if_neg hd]
          rw [words_of_head hd, List.length_cons] at hroom hfits
          rw [if_pos (hfits _ (by omega)), words_of_head hd]
          obtain ⟨out, found, hrun, hfound⟩ := ih (done ++ [0]) (slots ++ [pp]) (done.length + 1)
            [] [] hrest hlast' (by simp [laterWords]; omega)
            (fun k hk => hfits k (by simp [laterWords] at hk; omega)) WordAt.next
          refine ⟨0 :: out, pp :: found, by rw [← List.cons_append, hrun]; simp, ?_⟩
          rw [List.append_assoc, List.singleton_append] at hfound
          rw [List.mapM_cons, hword.stringAt_eq, hfound]
          simp [cutWord, laterWords]
      · rw [if_neg hblank]
        rw [laterWords_letter hblank] at hroom hfits ⊢
        rw [List.takeWhile_cons_of_pos (by simpa using hblank)]
        split
        · next hslash =>
            obtain ⟨rfl, hflag, rfl⟩ := hslash
            obtain ⟨out, found, hrun, hfound⟩ := ih (done ++ [0x2f]) [] (done.length + 1) [] []
              hrest hlast' hroom hfits WordAt.next
            refine ⟨0x2f :: out, found, by rw [hrun]; simp, ?_⟩
            rw [List.append_assoc, List.singleton_append] at hfound
            rw [hfound]
            simp only [cutWord, lastPart, hflag, if_true, List.nil_append]
            rw [rtakeWhile_append_cons (by simp)]
        · next hslash =>
            obtain ⟨out, found, hrun, hfound⟩ := ih (done ++ [c]) slots pp (word ++ [c]) [] hrest
              hlast' hroom hfits (hword.letter hc hblank hslash)
            refine ⟨c :: out, found, by rw [hrun]; simp, ?_⟩
            rw [List.append_assoc, List.singleton_append] at hfound
            rw [hfound, List.append_assoc, List.singleton_append]

end Loop

/-! ## The call -/

section Call

variable {w : Nat} {bufsize : Int} {command : List UInt8} {flags : Int}

theorem cInt_some {x : Int} (h : -2 ^ 31 ≤ x ∧ x < 2 ^ 31) : cInt x = some x := if_pos h

theorem cInt_none {x : Int} (h : ¬(-2 ^ 31 ≤ x ∧ x < 2 ^ 31)) : cInt x = none := if_neg h

theorem length_lt_argvOffset (command : List UInt8) :
    (command.length : Int) < argvOffset command := by
  unfold argvOffset
  omega

/-- There are slots to speak of from two of 4 bytes on. -/
theorem one_lt_tdiv_four {room : Int} : room.tdiv 4 > 1 ↔ 8 ≤ room := by
  by_cases hroom : 0 ≤ room
  · rw [Int.tdiv_eq_ediv_of_nonneg hroom]
    omega
  · obtain ⟨k, rfl⟩ : ∃ k, room = -k := ⟨-room, (Int.neg_neg room).symm⟩
    rw [Int.neg_tdiv, Int.tdiv_eq_ediv_of_nonneg (by omega)]
    omega

/-- Lengths that are no `int`s. -/
theorem buildArgv_of_long (h : ¬(command.length : Int) + 4 < 2 ^ 31) :
    buildArgv w bufsize command flags = none := by
  unfold buildArgv
  by_cases hlen : (command.length : Int) < 2 ^ 31
  · rw [cInt_some (by omega), Option.bind_eq_bind, Option.bind_some, cInt_none (by omega)]
    rfl
  · rw [cInt_none (by omega)]
    rfl

theorem buildArgv_of_lt (h : (command.length : Int) + 4 < 2 ^ 31) :
    buildArgv w bufsize command flags = (cInt (bufsize - argvOffset command)).bind fun room =>
      if room.tdiv 4 > 1 then
        let fits := fun k : Nat => decide (argvOffset command + w * (k + 1) ≤ bufsize)
        if fits 0 then
          (argvLoop fits (room.tdiv 4 - 1).toNat flags
            (command ++ List.replicate (argvOffset command - command.length).toNat 0) [] [] 0).bind
            fun r => if fits r.2.length then some (some ⟨r.1, argvOffset command, r.2⟩) else none
        else none
      else some none := by
  unfold buildArgv
  rw [cInt_some (by omega), Option.bind_eq_bind, Option.bind_some, cInt_some (by omega),
    Option.bind_some, Int.tdiv_eq_ediv_of_nonneg (by omega)]
  rfl

/-- The text region of the buffer ends with a zero. -/
theorem text_eq (command : List UInt8) :
    ∃ z, command ++ List.replicate (argvOffset command - command.length).toNat 0 =
      command ++ 0 :: z := by
  have := length_lt_argvOffset command
  obtain ⟨k, hk⟩ : ∃ k, (argvOffset command - command.length).toNat = k + 1 :=
    Nat.exists_eq_succ_of_ne_zero (by omega)
  exact ⟨List.replicate k 0, by rw [hk, List.replicate_succ]⟩

theorem words_of_ne_nil (hne : command ≠ []) (htrim : Trimmed command) :
    words command = command.takeWhile (fun c => !isBlank c) :: laterWords command := by
  obtain ⟨c, rest, rfl⟩ := List.exists_cons_of_ne_nil hne
  exact words_of_head (htrim.head c rfl) rest

/-- With room for the pointers and for the `NULL` the vector is as it should be. -/
theorem buildsArgv_of_fits (hw : 4 ≤ w) (hbuf : bufsize < 2 ^ 31)
    (hlen : (command.length : Int) + 4 < 2 ^ 31) (hnul : (0 : UInt8) ∉ command)
    (htrim : Trimmed command) (hne : command ≠ [])
    (hfits : argvOffset command + w * ((words command).length + 1) ≤ bufsize) :
    BuildsArgv w bufsize command flags := by
  have hwords := words_of_ne_nil hne htrim
  have hoff := length_lt_argvOffset command
  rw [hwords, List.length_cons] at hfits
  push_cast at hfits
  -- the slots take at least 4 bytes each
  have hslot : ∀ k : Nat, k ≤ (laterWords command).length + 1 →
      argvOffset command + w * (k + 1) ≤ bufsize := by
    intro k hk
    have : (w : Int) * (k + 1) ≤ w * ((laterWords command).length + 1 + 1) :=
      Int.mul_le_mul_of_nonneg_left (by omega) (by omega)
    omega
  have hroom : 4 * ((laterWords command).length + 2 : Int) ≤ bufsize - argvOffset command := by
    have : 4 * ((laterWords command).length + 2 : Int) ≤
        w * ((laterWords command).length + 1 + 1) :=
      Int.mul_le_mul (by omega) (by omega) (by omega) (by omega)
    omega
  obtain ⟨z, hz⟩ := text_eq command
  obtain ⟨out, found, hrun, hfound⟩ := @argvLoop_spec
    (fun k : Nat => decide (argvOffset command + w * (k + 1) ≤ bufsize))
    ((bufsize - argvOffset command).tdiv 4 - 1).toNat flags
    command z [] [] 0 [] [] hnul htrim.last
    (by
      rw [Int.tdiv_eq_ediv_of_nonneg (by omega), List.length_nil]
      omega)
    (by
      intro k hk
      rw [List.length_nil] at hk
      exact decide_eq_true (hslot k (by omega)))
    { le := Nat.zero_le _, eq := rfl, noNul := List.not_mem_nil,
      cut := fun _ _ => List.not_mem_nil, gap := Or.inl rfl }
  have hcount : found.length = (laterWords command).length + 1 := by
    have := length_argvLoop command z [] [] 0 hnul htrim.last (Nat.zero_le _) hrun
    rw [List.nil_append, Int.tdiv_eq_ediv_of_nonneg (by omega), List.length_nil] at this
    omega
  refine ⟨some ⟨out, argvOffset command, found⟩, ?_, ?_⟩
  · rw [buildArgv_of_lt hlen, cInt_some (by omega), Option.bind_some,
      if_pos (one_lt_tdiv_four.mpr (by omega)), hz]
    dsimp only
    rw [if_pos (decide_eq_true (hslot 0 (by omega))), hrun]
    simpa [hcount] using hslot _ (Nat.le_refl _)
  · rintro _ ⟨⟩
    have hargs : argsOf flags command =
        cutWord flags [] (command.takeWhile fun c => !isBlank c) :: laterWords command := by
      rw [argsOf, hwords]
      rfl
    refine ⟨hoff, ?_, argsOf flags command, ?_, List.prefix_refl _, fun _ => rfl⟩
    · dsimp only
      rw [hcount]
      exact_mod_cast hslot _ (Nat.le_refl _)
    · rw [hargs]
      exact hfound

/-- A vector that is returned has slots for the words, and one more for the `NULL`. -/
theorem fits_of_buildArgv (hw : 4 ≤ w) (hlen : (command.length : Int) + 4 < 2 ^ 31)
    (hnul : (0 : UInt8) ∉ command) (htrim : Trimmed command)
    (hne : command ≠ []) {v : Argv}
    (h : buildArgv w bufsize command flags = some (some v)) :
    argvOffset command + w * ((words command).length + 1) ≤ bufsize := by
  obtain ⟨z, hz⟩ := text_eq command
  rw [buildArgv_of_lt hlen, hz] at h
  obtain ⟨room, hroom, h⟩ := Option.bind_eq_some_iff.mp h
  obtain rfl : bufsize - argvOffset command = room := by
    unfold cInt at hroom
    split at hroom
    · exact Option.some.inj hroom
    · cases hroom
  split at h
  · next hcomps =>
      dsimp only at h
      split at h
      · obtain ⟨⟨text, found⟩, hrun, h⟩ := Option.bind_eq_some_iff.mp h
        split at h
        · next hfits =>
            have hcount := length_argvLoop command z [] [] 0 hnul htrim.last (Nat.zero_le _) hrun
            have hroom8 := one_lt_tdiv_four.mp hcomps
            rw [Int.tdiv_eq_ediv_of_nonneg (by omega), List.length_nil, Nat.zero_add] at hcount
            have hfits := of_decide_eq_true hfits
            dsimp only at hfits
            have hslots : 4 * (found.length + 1 : Int) ≤ w * (found.length + 1) :=
              Int.mul_le_mul_of_nonneg_right (by omega) (by omega)
            -- the loop was not stopped by its counter
            have hall : found.length = (laterWords command).length + 1 := by omega
            rw [words_of_ne_nil hne htrim, List.length_cons, ← hall]
            exact hfits
        · cases h
      · cases h
  · cases h

/-- An empty command has no argument, but its vector has one. -/
theorem not_wellFormed_nil {v : Argv} (h : buildArgv w bufsize [] flags = some (some v)) :
    ¬v.WellFormed w bufsize [] flags := by
  rw [buildArgv_of_lt (by decide)] at h
  obtain ⟨room, -, h⟩ := Option.bind_eq_some_iff.mp h
  split at h
  · dsimp only at h
    split at h
    · obtain ⟨⟨text, found⟩, hrun, h⟩ := Option.bind_eq_some_iff.mp h
      obtain ⟨z, hz⟩ := text_eq []
      rw [hz, List.nil_append, argvLoop, if_pos (Or.inl rfl)] at hrun
      cases hrun
      split at h
      · cases h
        rintro ⟨-, -, args, hargs, hprefix, -⟩
        rw [argsOf, words_nil] at hprefix
        rw [List.prefix_nil.mp hprefix] at hargs
        simp [Argv.entries, stringAt] at hargs
      · cases h
    · cases h
  · cases h

/-- Which calls build a vector as they should. -/
theorem buildsArgv_iff (hw : w = 4 ∨ w = 8) (hbuf : -2 ^ 31 ≤ bufsize ∧ bufsize < 2 ^ 31)
    (hnul : (0 : UInt8) ∉ command) (htrim : Trimmed command) :
    BuildsArgv w bufsize command flags ↔ ArgvFits w bufsize command := by
  have hw4 : 4 ≤ w := by omega
  have hoff := length_lt_argvOffset command
  by_cases hlen : (command.length : Int) + 4 < 2 ^ 31
  · constructor
    · rintro ⟨result, hrun, hresult⟩
      refine ⟨hlen, ?_⟩
      cases result with
      | some v =>
          have hne : command ≠ [] := by
            rintro rfl
            exact not_wellFormed_nil hrun (hresult v rfl)
          exact Or.inr ⟨hne, fits_of_buildArgv hw4 hlen hnul htrim hne hrun⟩
      | none =>
          left
          rw [buildArgv_of_lt hlen] at hrun
          obtain ⟨room, hroom, hrun⟩ := Option.bind_eq_some_iff.mp hrun
          unfold cInt at hroom
          split at hroom
          · next hint =>
              cases hroom
              split at hrun
              · dsimp only at hrun
                split at hrun
                · obtain ⟨r, -, hr⟩ := Option.bind_eq_some_iff.mp hrun
                  split at hr <;> cases hr
                · cases hrun
              · next hcomps =>
                  rw [one_lt_tdiv_four] at hcomps
                  omega
          · cases hroom
    · rintro ⟨-, hsmall | ⟨hne, hfits⟩⟩
      · refine ⟨none, ?_, by rintro v ⟨⟩⟩
        rw [buildArgv_of_lt hlen, cInt_some (by omega), Option.bind_some,
          if_neg (mt one_lt_tdiv_four.mp (by omega))]
      · exact buildsArgv_of_fits hw4 hbuf.2 hlen hnul htrim hne hfits
  · constructor
    · rintro ⟨result, hrun, -⟩
      rw [buildArgv_of_long hlen] at hrun
      cases hrun
    · rintro ⟨hlt, -⟩
      exact absurd hlt hlen

end Call

/-- `/bin/ls -l`, with the path cut off, in a buffer of 300 bytes. -/
theorem buildsArgv_iff_ls :
    let command : List UInt8 := [0x2f, 0x62, 0x69, 0x6e, 0x2f, 0x6c, 0x73, 0x20, 0x2d, 0x6c]
    BuildsArgv 8 300 command 1 ↔ ArgvFits 8 300 command :=
  buildsArgv_iff (Or.inr rfl) (by decide) (by decide)
    { head := by simp [isBlank], last := by simp [isBlank] }

/-- 32 words of one letter: the slots are counted in units of 4 bytes, but pointers of
8 bytes take all of the buffer and more. With pointers of 4 bytes 50 words leave no
room for the `NULL`. -/
theorem not_buildsArgv_words :
    let command : Nat → List UInt8 := fun n => 0x61 :: (List.replicate n [0x20, 0x61]).flatten
    ((0 : UInt8) ∉ command 31 ∧ Trimmed (command 31) ∧ ¬BuildsArgv 8 300 (command 31) 0) ∧
      (0 : UInt8) ∉ command 49 ∧ Trimmed (command 49) ∧ ¬BuildsArgv 4 300 (command 49) 0 := by
  intro command
  have hfault : ∀ w n, buildArgv w 300 (command n) 0 = none → ¬BuildsArgv w 300 (command n) 0 := by
    rintro w n hnone ⟨result, hrun, -⟩
    rw [hnone] at hrun
    cases hrun
  refine ⟨⟨by decide +kernel, ⟨by decide +kernel, by decide +kernel⟩,
    hfault 8 31 (by decide +kernel)⟩, by decide +kernel,
    ⟨by decide +kernel, by decide +kernel⟩, hfault 4 49 (by decide +kernel)⟩

end MarsNwe
