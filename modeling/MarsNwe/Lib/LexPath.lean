import Mathlib.Data.List.Infix
import Mathlib.Data.List.Forall2

/-! # Path names, resolved lexically

A path name is split at its separators. An empty segment and a single dot stay
where they are, two dots go one directory up, and every other segment goes down.
A name that starts inside a directory and has no segment of two dots after it
stays inside that directory.
-/

/-- The separator of segments and the dot. -/
structure PathSyntax (α : Type) where
  sep : α
  dot : α
  sep_ne_dot : sep ≠ dot

namespace PathSyntax

variable {α : Type} [DecidableEq α] (x : PathSyntax α)

/-! ## Resolution -/

/-- One segment, on the directories gone down so far, the innermost first. Above
`/` there is only `/`; a relative name remembers how far up it leads. -/
def push (absolute : Bool) (stack : List (List α)) (seg : List α) : List (List α) :=
  if seg = [] ∨ seg = [x.dot] then stack
  else if seg = [x.dot, x.dot] then
    match stack with
    | [] => if absolute then [] else [seg]
    | top :: rest => if top = seg then seg :: top :: rest else rest
  else seg :: stack

def isAbsolute (name : List α) : Bool := name.head? = some x.sep

/-- The directories from the start of a name to what it names, innermost first. -/
def resolve (name : List α) : List (List α) :=
  (name.splitOn x.sep).foldl (x.push (x.isAbsolute name)) []

/-- `name` names `root` or something below it. -/
def Inside (root name : List α) : Prop :=
  x.isAbsolute root = x.isAbsolute name ∧ x.resolve root <:+ x.resolve name

instance (root name : List α) : Decidable (x.Inside root name) :=
  inferInstanceAs (Decidable (_ ∧ _))

theorem suffix_foldl_push (absolute : Bool) {segs : List (List α)}
    (hsegs : ∀ seg ∈ segs, seg ≠ [x.dot, x.dot]) (stack : List (List α)) :
    stack <:+ segs.foldl (x.push absolute) stack := by
  induction segs generalizing stack with
  | nil => exact List.suffix_refl stack
  | cons seg segs ih =>
      have hrest := ih (fun s hs => hsegs s (List.mem_cons_of_mem _ hs))
        (x.push absolute stack seg)
      refine List.IsSuffix.trans ?_ hrest
      unfold push
      rw [if_neg (hsegs seg List.mem_cons_self)]
      split
      · exact List.suffix_refl stack
      · exact List.suffix_cons seg stack

/-! ## Names without climbing

`Avoids q` reads a name and says that no dot stands at places of the kind `q`:
for the places behind a leading dot, no segment begins with two dots; for the
first places of segments, none begins with a dot. Both carry over to the parts of
a name from its start. -/

/-- Where in a segment a character stands. -/
inductive Place
  /-- The first of its segment. -/
  | start
  /-- Behind a single dot that begins the segment. -/
  | point
  | inside
deriving DecidableEq

def next (p : Place) (c : α) : Place :=
  if c = x.sep then .start else if p = .start ∧ c = x.dot then .point else .inside

/-- The place behind a text that starts at the place `p`. -/
def after (p : Place) (s : List α) : Place := s.foldl x.next p

def Avoids (q : Place) : Place → List α → Prop
  | _, [] => True
  | p, c :: s => ¬(p = q ∧ c = x.dot) ∧ Avoids q (x.next p c) s

instance decidableAvoids (q : Place) : (p : Place) → (s : List α) → Decidable (x.Avoids q p s)
  | _, [] => .isTrue trivial
  | p, c :: s =>
      have := decidableAvoids q (x.next p c) s
      inferInstanceAs (Decidable (_ ∧ _))

variable {q p : Place} {s t : List α}

@[simp] theorem avoids_nil : x.Avoids q p [] := trivial

@[simp] theorem next_sep : x.next p x.sep = .start := if_pos rfl

theorem avoids_append : x.Avoids q p (s ++ t) ↔ x.Avoids q p s ∧ x.Avoids q (x.after p s) t := by
  induction s generalizing p with
  | nil => simp [after]
  | cons c s ih =>
      simp only [List.cons_append, Avoids, ih, after, List.foldl_cons, and_assoc]

theorem Avoids.of_isPrefix (h : x.Avoids q p t) (hst : s <+: t) : x.Avoids q p s := by
  obtain ⟨u, rfl⟩ := hst
  exact (x.avoids_append.mp h).1

/-- Behind a separator a new segment starts. -/
theorem after_of_getLast? (h : s.getLast? = some x.sep) : x.after p s = .start := by
  obtain ⟨r, rfl⟩ := List.getLast?_eq_some_iff.mp h
  simp [after]

/-- Without dots at the starts of segments, no place is behind a leading dot. -/
theorem Avoids.after_ne_point (h : x.Avoids .start p s) (hp : p ≠ .point) :
    x.after p s ≠ .point := by
  induction s generalizing p with
  | nil => exact hp
  | cons c s ih =>
      refine ih h.2 ?_
      unfold next
      rw [if_neg h.1]
      split <;> simp

theorem Avoids.point_of_start (h : x.Avoids .start p s) (hp : p ≠ .point) :
    x.Avoids .point p s := by
  induction s generalizing p with
  | nil => trivial
  | cons c s ih =>
      refine ⟨fun hc => hp hc.1, ih h.2 ?_⟩
      unfold next
      rw [if_neg h.1]
      split <;> simp

/-- A text that may stand at the start of a segment may stand inside one. -/
theorem Avoids.inside_of_start (h : x.Avoids .point .start s) : x.Avoids .point .inside s := by
  have hpoint : ∀ {t : List α}, x.Avoids .point .point t → x.Avoids .point .inside t := by
    intro t ht
    cases t with
    | nil => trivial
    | cons c t =>
        refine ⟨by simp, ?_⟩
        have hnext : x.next .inside c = x.next .point c := by simp [next]
        rw [hnext]
        exact ht.2
  cases s with
  | nil => trivial
  | cons c s =>
      refine ⟨by simp, ?_⟩
      have hrest := h.2
      unfold next at hrest ⊢
      split at hrest
      next hsep => rwa [if_pos hsep]
      next hsep =>
        rw [if_neg hsep, if_neg (by simp)]
        split at hrest
        · exact hpoint hrest
        · exact hrest

/-- Two texts are joined when nothing begins with a dot in the first. -/
theorem Avoids.append (hs : x.Avoids .start .start s) (ht : x.Avoids .point .start t) :
    x.Avoids .point .start (s ++ t) := by
  refine x.avoids_append.mpr ⟨hs.point_of_start x (by simp), ?_⟩
  have hne := hs.after_ne_point x (by simp)
  cases hplace : x.after .start s with
  | start => exact ht
  | point => exact absurd hplace hne
  | inside => exact ht.inside_of_start x

/-- Characters alike for the syntax. -/
def Alike (c d : α) : Prop := (c = x.sep ↔ d = x.sep) ∧ (c = x.dot ↔ d = x.dot)

theorem next_alike {c d : α} (h : x.Alike c d) : x.next p c = x.next p d := by
  simp only [next, h.1, h.2]

theorem Avoids.of_alike (h : x.Avoids q p s) (hst : List.Forall₂ x.Alike s t) :
    x.Avoids q p t := by
  induction hst generalizing p with
  | nil => trivial
  | cons hcd _ ih => exact ⟨by rw [← hcd.2]; exact h.1, ih (x.next_alike hcd ▸ h.2)⟩

omit [DecidableEq α] in
theorem alike_map {f : α → α} (hf : ∀ c, x.Alike c (f c)) (s : List α) :
    List.Forall₂ x.Alike s (s.map f) := by
  induction s with
  | nil => exact .nil
  | cons c s ih => exact .cons (hf c) ih

/-- The segments of a text that avoids climbing. -/
theorem Avoids.segments (h : x.Avoids .point p s) :
    (p = .start → ∀ seg ∈ s.splitOn x.sep, seg ≠ [x.dot, x.dot]) ∧
      (p = .point → (s.splitOn x.sep).head?.bind List.head? ≠ some x.dot) ∧
      ∀ seg ∈ (s.splitOn x.sep).tail, seg ≠ [x.dot, x.dot] := by
  induction s generalizing p with
  | nil => simp
  | cons c s ih =>
      obtain ⟨hhead, hrest⟩ := h
      obtain ⟨hstart, hpoint, htail⟩ := ih hrest
      rw [List.splitOn_cons_eq_if_modifyHead]
      by_cases hc : c = x.sep
      · subst hc
        have hsegs := hstart x.next_sep
        exact ⟨fun _ => by simpa using hsegs, by simp, by simpa using hsegs⟩
      · rw [if_neg (by simpa using hc)]
        obtain ⟨first, segs, heq⟩ := List.exists_cons_of_ne_nil (List.splitOn_ne_nil x.sep s)
        rw [heq] at hpoint htail ⊢
        refine ⟨?_, ?_, by simpa using htail⟩
        · rintro rfl seg hseg
          rcases List.mem_cons.mp (by simpa using hseg) with rfl | hmem
          · intro hdots
            obtain ⟨rfl, rfl⟩ := List.cons.inj hdots
            exact hpoint (by simp [next, hc]) (by simp)
          · exact htail seg (by simpa using hmem)
        · rintro rfl
          simpa using hhead

/-- Whatever follows the separator at the end of a directory name stays inside the
directory unless it climbs. -/
theorem inside_append {root rest : List α} (hroot : root.getLast? = some x.sep)
    (hrest : x.Avoids .point .start rest) : x.Inside root (root ++ rest) := by
  obtain ⟨r, rfl⟩ := List.getLast?_eq_some_iff.mp hroot
  have habs : x.isAbsolute (r ++ [x.sep] ++ rest) = x.isAbsolute (r ++ [x.sep]) := by
    cases r <;> simp [isAbsolute]
  refine ⟨habs.symm, ?_⟩
  unfold resolve
  rw [habs, List.append_assoc, List.singleton_append, List.splitOn_append_cons_self,
    List.splitOn_append_cons_self, List.splitOn_nil, List.foldl_append, List.foldl_append]
  simpa [push] using x.suffix_foldl_push _ ((hrest.segments x).1 rfl) _

/-- A name without its last separator names the same. -/
theorem resolve_append_sep {name : List α} (hname : name ≠ []) :
    x.resolve (name ++ [x.sep]) = x.resolve name ∧
      x.isAbsolute (name ++ [x.sep]) = x.isAbsolute name := by
  have habs : x.isAbsolute (name ++ [x.sep]) = x.isAbsolute name := by
    cases name <;> simp_all [isAbsolute]
  refine ⟨?_, habs⟩
  unfold resolve
  rw [habs, List.splitOn_append_cons_self, List.splitOn_nil, List.foldl_append]
  simp [push]

/-- The same for a name cut off before a separator. -/
theorem Inside.of_append_sep {root name : List α} (hname : name ≠ [])
    (h : x.Inside root (name ++ [x.sep])) : x.Inside root name := by
  obtain ⟨hresolve, habs⟩ := x.resolve_append_sep hname
  unfold Inside at h ⊢
  rwa [hresolve, habs] at h

/-- A second separator changes nothing. -/
theorem resolve_sep_sep {root : List α} (hroot : root.getLast? = some x.sep) (rest : List α) :
    x.resolve (root ++ x.sep :: rest) = x.resolve (root ++ rest) ∧
      x.isAbsolute (root ++ x.sep :: rest) = x.isAbsolute (root ++ rest) := by
  obtain ⟨r, rfl⟩ := List.getLast?_eq_some_iff.mp hroot
  have habs : x.isAbsolute (r ++ [x.sep] ++ x.sep :: rest) =
      x.isAbsolute (r ++ [x.sep] ++ rest) := by
    cases r <;> simp [isAbsolute]
  refine ⟨?_, habs⟩
  unfold resolve
  rw [habs, List.splitOn_append_cons_self, List.splitOn_append_cons_self,
    List.append_assoc r, List.singleton_append, List.splitOn_append_cons_self]
  simp [push]

theorem inside_seps {dir root seps rest : List α} (hroot : root.getLast? = some x.sep)
    (hseps : ∀ c ∈ seps, c = x.sep) :
    x.Inside dir (root ++ (seps ++ rest)) ↔ x.Inside dir (root ++ rest) := by
  induction seps with
  | nil => exact Iff.rfl
  | cons c seps ih =>
      obtain rfl := hseps c List.mem_cons_self
      obtain ⟨hresolve, habs⟩ := x.resolve_sep_sep hroot (seps ++ rest)
      rw [← ih fun c hc => hseps c (List.mem_cons_of_mem _ hc), List.cons_append]
      unfold Inside
      rw [hresolve, habs]

theorem next_inside {c : α} (hc : c ≠ x.sep) (hp : p = .start → c ≠ x.dot) :
    x.next p c = .inside := by
  unfold next
  rw [if_neg hc, if_neg fun h => hp h.1 h.2]

/-- The rest of a component. -/
theorem avoids_inside (hq : q ≠ .inside) (hs : x.sep ∉ s) : x.Avoids q .inside s := by
  induction s with
  | nil => trivial
  | cons c s ih =>
      obtain ⟨hc, hrest⟩ := not_or.mp (mt List.mem_cons.mpr hs)
      refine ⟨fun h => hq h.1.symm, ?_⟩
      rw [x.next_inside (Ne.symm hc) (by simp)]
      exact ih hrest

/-- A single component that does not begin with two dots. -/
theorem avoids_of_not_mem (hsep : x.sep ∉ s) (hdots : ¬[x.dot, x.dot] <+: s) :
    x.Avoids .point .start s := by
  cases s with
  | nil => trivial
  | cons c s =>
      obtain ⟨hc, hrest⟩ := not_or.mp (mt List.mem_cons.mpr hsep)
      refine ⟨by simp, ?_⟩
      by_cases hdot : c = x.dot
      · have hnext : x.next .start c = .point := by simp [next, hdot, x.sep_ne_dot.symm]
        rw [hnext]
        cases s with
        | nil => trivial
        | cons d s =>
            obtain ⟨hd, hrest⟩ := not_or.mp (mt List.mem_cons.mpr hrest)
            have hne : d ≠ x.dot := by
              rintro rfl
              exact hdots ⟨s, by rw [hdot]; rfl⟩
            refine ⟨fun h => hne h.2, ?_⟩
            rw [x.next_inside (Ne.symm hd) (by simp)]
            exact x.avoids_inside (by simp) hrest
      · rw [x.next_inside (Ne.symm hc) fun _ => hdot]
        exact x.avoids_inside (by simp) hrest

end PathSyntax
