import MarsNwe.File.Requests
import MarsNwe.Lib.SlotTable

/-! # Cached file offsets -/

namespace MarsNwe

open Prog Function

/-! ## Descriptors -/

/-- An open descriptor: one with a position, or a stream without. -/
inductive Desc where
  | file (pos : Nat)
  | stream
deriving DecidableEq

/-- The open descriptors of the process. -/
abbrev Descs := Int → Option Desc

/-- An `open` takes a free descriptor, or fails. -/
def OpensFd (k : Descs) (r : Opened) (k' : Descs) : Prop :=
  match r with
  | .fd n => k n = none ∧ ∃ d, (d = .file 0 ∨ d = .stream) ∧ k' = update k n (some d)
  | _ => k' = k

/-- A transfer of some bytes moves the position, a failed one does not. -/
def Advances (k : Descs) (fd : Int) (r : Option Nat) (k' : Descs) : Prop :=
  match r with
  | none => k' = k
  | some n =>
      (∃ pos, k fd = some (.file pos) ∧ k' = update k fd (some (.file (pos + n)))) ∨
        k fd = some .stream ∧ k' = k

/-- The descriptors and their positions: `lseek`, `read` and `write` succeed, transfer
less than asked for, or fail and leave the position alone. -/
def posKernel : Kernel FileCall FileCall.Answer Descs
  | k, .open _ _ _, r, k' => OpensFd k r k'
  | k, .openCreat _ _ _, r, k' => OpensFd k r k'
  | k, .creat _ _ _, r, k' => OpensFd k r k'
  | k, .close fd, _, k' => k' = update k fd none
  | k, .lseek fd dest, r, k' =>
      match r with
      | none => k' = k
      | some n => (∃ pos, k fd = some (.file pos)) ∧ (∀ m, dest = .set m → n = m) ∧
          k' = update k fd (some (.file n))
  | k, .read fd _, r, k' => Advances k fd (r.map fun l => l.1.length) k'
  | k, .write fd _ _, r, k' => Advances k fd (r.map (·.1)) k'
  | k, .extPopen _ _, r, k' =>
      match r with
      | none => k' = k
      | some (a, b, c) => k a = none ∧ k b = none ∧ k c = none ∧
          k' = update (update (update k a (some .stream)) b (some .stream)) c (some .stream)
  | k, .extPclose (a, b, c), _, k' => k' = update (update (update k a none) b none) c none
  | k, _, _, k' => k' = k

/-- Calls that leave all descriptors alone. -/
def FileCall.Quiet : FileCall → Prop
  | .open .. | .openCreat .. | .creat .. | .close .. | .lseek .. | .read .. | .write .. => False
  | .extPopen .. | .extPclose .. => False
  | _ => True

theorem posKernel_quiet {k k' : Descs} {c : FileCall} {r : c.Answer} (hc : c.Quiet)
    (h : posKernel k c r k') : k' = k := by
  cases c <;> first | exact h | exact hc.elim

theorem ensures_of_quietCalls {α : Type} {k : Descs} {P : α → Prop} {m : FileProg α}
    (hcalls : Calls FileCall.Quiet m) (hreturns : Returns P m) :
    Ensures posKernel k m fun a k' => P a ∧ k' = k :=
  ensures_of_quiet (fun _ _ _ _ => posKernel_quiet) hcalls hreturns

/-- The answers that the cached offsets bear: a write at another offset than 0 does
not fail, and when the end of a mapped file is looked up again, the descriptor stands
there already. -/
def Bears (e : FileRequest) (k : Descs) (c : FileCall) (r : c.Answer) : Prop :=
  match e, c, r with
  | .write _ _ _ offset, .write fd _ _, r =>
      ∀ pos, k fd = some (.file pos) → offset = 0 ∨ r.isSome = true
  | .read .., .lseek fd .atEnd, r => ∀ n, r = some n → k fd = some (.file n)
  | _, _, _ => True

/-- The kernel where its answers to a request are such. -/
def bearing (e : FileRequest) : Kernel FileCall FileCall.Answer Descs :=
  fun k c r k' => posKernel k c r k' ∧ Bears e k c r

theorem bearing_le {e : FileRequest} (k : Descs) (c : FileCall) (r : c.Answer) (k' : Descs)
    (h : bearing e k c r k') : posKernel k c r k' :=
  h.1

/-! ## Handles and their descriptors -/

/-- The descriptors that a handle keeps open. -/
def FileHandle.fds (fh : FileHandle) : List Int :=
  if fh.is fhIsPipeCommand then
    match fh.f with
    | some f => [(f.fds.1 : Int), (f.fds.2.1 : Int), (f.fds.2.2 : Int)]
    | none => []
  else if -1 < fh.fd then [fh.fd] else []

/-- What holds of a handle: its descriptors are open, and a cached offset that is
not negative is where the descriptor stands. -/
structure HandleOk (fh : FileHandle) (k : Descs) : Prop where
  opened : ∀ fd ∈ fh.fds, k fd ≠ none
  mem : -1 < fh.fd → fh.fd ∈ fh.fds
  command : fh.is fhIsPipeCommand = true → fh.is fhIsPipe = true
  agrees : fh.is fhIsPipe = false → ∀ pos, k fh.fd = some (.file pos) → -1 < fh.fd →
    0 ≤ fh.offd → fh.offd = pos

/-- From one state of a handle and of the descriptors to another one, no descriptor
of another handle is touched. -/
structure Moves (fh : FileHandle) (k : Descs) (fh' : FileHandle) (k' : Descs) : Prop where
  ok : HandleOk fh' k'
  owned : ∀ fd ∈ fh'.fds, fd ∈ fh.fds ∨ k fd = none
  frame : ∀ fd, fd ∉ fh.fds → k fd ≠ none → k' fd = k fd

namespace Moves

variable {fh fh' fh'' : FileHandle} {k k' k'' : Descs}

theorem refl (h : HandleOk fh k) : Moves fh k fh k :=
  ⟨h, fun _ hfd => .inl hfd, fun _ _ _ => rfl⟩

theorem trans (h : Moves fh k fh' k') (h' : Moves fh' k' fh'' k'') : Moves fh k fh'' k'' := by
  have hframe : ∀ fd, fd ∉ fh.fds → k fd ≠ none → fd ∉ fh'.fds := fun fd hfd hopen hfd' =>
    (h.owned fd hfd').elim hfd hopen
  refine ⟨h'.ok, fun fd hfd => ?_, fun fd hfd hopen => ?_⟩
  · rcases h'.owned fd hfd with hfd' | hfree
    · exact h.owned fd hfd'
    · by_cases hmem : fd ∈ fh.fds
      · exact .inl hmem
      · refine .inr (by_contra fun hopen => ?_)
        exact hopen ((h.frame fd hmem hopen).symm.trans hfree)
  · rw [h'.frame fd (hframe fd hfd hopen) ?_, h.frame fd hfd hopen]
    rwa [h.frame fd hfd hopen]

/-- The position of the descriptor changes, and the offset that is cached with it. -/
theorem seek (h : HandleOk fh k) (hfd : -1 < fh.fd) (n : Nat) (offd : Int)
    (hoffd : fh.is fhIsPipe = false → 0 ≤ offd → offd = n) :
    Moves fh k { fh with offd } (update k fh.fd (some (.file n))) := by
  have hmem : ∀ fd ∈ fh.fds, update k fh.fd (some (.file n)) fd ≠ none := by
    intro fd hfd
    by_cases heq : fd = fh.fd
    · simp [heq]
    · simpa [update_of_ne heq] using h.opened fd hfd
  refine ⟨⟨hmem, h.mem, h.command, fun hpipe pos hpos _ hnonneg => ?_⟩, fun fd hfd => .inl hfd, fun fd hnot _ => ?_⟩
  · simp only [update_self, Option.some.injEq, Desc.file.injEq] at hpos
    rw [← hpos]
    exact hoffd hpipe hnonneg
  · refine update_of_ne (fun heq => hnot ?_) _ _
    rw [heq]
    exact h.mem hfd

/-- The cached offset is forgotten. -/
theorem forget (h : HandleOk fh k) {offd : Int} (hoffd : offd < 0) :
    Moves fh k { fh with offd } k :=
  ⟨⟨h.opened, h.mem, h.command, fun _ _ _ _ hnonneg => absurd hnonneg (Int.not_le.mpr hoffd)⟩,
    fun _ hfd => .inl hfd, fun _ _ _ => rfl⟩

/-- Fields that the descriptors do not depend on. -/
theorem same (h : HandleOk fh k) (hfd : fh'.fd = fh.fd) (hoffd : fh'.offd = fh.offd)
    (hpipe : fh'.is fhIsPipe = fh.is fhIsPipe)
    (hcommand : fh'.is fhIsPipeCommand = fh.is fhIsPipeCommand) (hf : fh'.f.map (·.fds) = fh.f.map (·.fds)) :
    Moves fh k fh' k := by
  have hfds : fh'.fds = fh.fds := by
    unfold FileHandle.fds
    rw [hcommand, hfd]
    cases hf' : fh'.f <;> cases hf'' : fh.f <;> simp_all
  refine ⟨⟨?_, ?_, ?_, ?_⟩, fun fd hmem => .inl ?_, fun _ _ _ => rfl⟩
  · rw [hfds]
    exact h.opened
  · rw [hfds, hfd]
    exact h.mem
  · rw [hpipe, hcommand]
    exact h.command
  · rw [hpipe, hfd, hoffd]
    exact h.agrees
  · rwa [hfds] at hmem

end Moves

/-- All handles are in order, and no two share a descriptor. -/
structure Agree (t : FileTable) (k : Descs) : Prop where
  ok : ∀ (i : Nat) fh, t.handles[i]? = some fh → HandleOk fh k
  apart : ∀ (i j : Nat) fh fh', t.handles[i]? = some fh → t.handles[j]? = some fh' → i ≠ j →
    ∀ fd ∈ fh.fds, fd ∉ fh'.fds

namespace Agree

variable {t : FileTable} {k k' : Descs} {i : Nat} {fh fh' : FileHandle}

/-- What a request does to one handle. -/
theorem put (h : Agree t k) (hi : t.handles[i]? = some fh) (hmoves : Moves fh k fh' k') :
    Agree (t.put i fh') k' := by
  have hother : ∀ j fhj, j ≠ i → t.handles[j]? = some fhj →
      ∀ fd ∈ fhj.fds, fd ∉ fh.fds ∧ k' fd = k fd := by
    intro j fhj hj hget fd hfd
    have hnot := h.apart j i fhj fh hget hi hj fd hfd
    exact ⟨hnot, hmoves.frame fd hnot ((h.ok j fhj hget).opened fd hfd)⟩
  have hnew : ∀ j fhj, j ≠ i → t.handles[j]? = some fhj → ∀ fd ∈ fhj.fds, fd ∉ fh'.fds := by
    intro j fhj hj hget fd hfd hfd'
    rcases hmoves.owned fd hfd' with hmem | hfree
    · exact (hother j fhj hj hget fd hfd).1 hmem
    · exact (h.ok j fhj hget).opened fd hfd hfree
  have hlt : i < t.handles.length := (List.getElem?_eq_some_iff.mp hi).1
  have hsplit : ∀ j fhj, (t.put i fh').handles[j]? = some fhj →
      j = i ∧ fhj = fh' ∨ j ≠ i ∧ t.handles[j]? = some fhj := by
    intro j fhj hget
    rw [FileTable.put, List.getElem?_set] at hget
    by_cases hj : i = j
    · subst hj
      simp only [if_true, hlt, Option.some.injEq] at hget
      exact .inl ⟨rfl, hget.symm⟩
    · rw [if_neg hj] at hget
      exact .inr ⟨Ne.symm hj, hget⟩
  refine ⟨fun j fhj hget => ?_, fun a b fha fhb ha hb hab fd hfd => ?_⟩
  · rcases hsplit j fhj hget with ⟨-, rfl⟩ | ⟨hj, hget⟩
    · exact hmoves.ok
    · have hok := h.ok j fhj hget
      refine ⟨fun fd hfd => ?_, hok.mem, hok.command, fun hpipe pos hpos hfd => ?_⟩
      · rw [(hother j fhj hj hget fd hfd).2]
        exact hok.opened fd hfd
      · rw [(hother j fhj hj hget fhj.fd (hok.mem hfd)).2] at hpos
        exact hok.agrees hpipe pos hpos hfd
  · rcases hsplit a fha ha with ⟨rfl, rfl⟩ | ⟨hne, hgeta⟩
    · rcases hsplit b fhb hb with ⟨rfl, -⟩ | ⟨hne, hgetb⟩
      · exact absurd rfl hab
      · exact fun hmem => hnew b fhb hne hgetb fd hmem hfd
    · rcases hsplit b fhb hb with ⟨rfl, rfl⟩ | ⟨hne', hgetb⟩
      · exact hnew a fha hne hgeta fd hfd
      · exact h.apart a b fha fhb hgeta hgetb hab fd hfd

theorem of_handles (h : Agree t k) {t' : FileTable} (heq : t'.handles = t.handles) : Agree t' k :=
  ⟨by rw [heq]; exact h.ok, by rw [heq]; exact h.apart⟩

theorem of_find (h : Agree t k) {fhandle : Int} (hfind : t.find fhandle = some (i, fh)) :
    t.handles[i]? = some fh ∧ HandleOk fh k := by
  obtain ⟨-, hget⟩ := FileTable.find_eq_some hfind
  exact ⟨hget, h.ok i fh hget⟩

/-- A new handle at the end. -/
theorem append (h : Agree t k) (hok : HandleOk fh k) (hfds : fh.fds = []) :
    Agree { t with handles := t.handles ++ [fh] } k := by
  have hsplit : ∀ (j : Nat) fhj, (t.handles ++ [fh])[j]? = some fhj →
      t.handles[j]? = some fhj ∨ fhj = fh := by
    intro j fhj hget
    rw [List.getElem?_append] at hget
    split at hget
    next => exact .inl hget
    next => exact .inr (List.mem_singleton.mp (List.mem_of_getElem? hget))
  refine ⟨fun j fhj hget => ?_, fun a b fha fhb ha hb hab fd hfd => ?_⟩
  · rcases hsplit j fhj hget with hget | rfl
    · exact h.ok j fhj hget
    · exact hok
  · rcases hsplit a fha ha with hgeta | rfl
    · rcases hsplit b fhb hb with hgetb | rfl
      · exact h.apart a b fha fhb hgeta hgetb hab fd hfd
      · rw [hfds]
        exact List.not_mem_nil
    · rw [hfds] at hfd
      exact absurd hfd List.not_mem_nil

end Agree

/-! ## What the routines do -/

section Routines

variable {cfg : FileConfig} {fh : FileHandle} {k : Descs}

/-- A handle of a command, with the descriptors of the command. -/
theorem HandleOk.of_command (hpipe : fh.is fhIsPipe = true) (hopened : ∀ fd ∈ fh.fds, k fd ≠ none)
    (hmem : -1 < fh.fd → fh.fd ∈ fh.fds) : HandleOk fh k where
  opened := hopened
  mem := hmem
  command _ := hpipe
  agrees hnot := by
    rw [hpipe] at hnot
    contradiction

theorem fds_of_command {f : FilePipe} (hcommand : fh.is fhIsPipeCommand = true)
    (hf : fh.f = some f) :
    fh.fds = [(f.fds.1 : Int), (f.fds.2.1 : Int), (f.fds.2.2 : Int)] := by
  rw [FileHandle.fds, if_pos hcommand, hf]

theorem fds_of_stopped (hcommand : fh.is fhIsPipeCommand = true) (hf : fh.f = none) :
    fh.fds = [] := by
  simp [FileHandle.fds, hcommand, hf]

theorem ensures_startPipe (h : HandleOk fh k) (dowrite : Bool) :
    Ensures posKernel k (startPipe fh dowrite) fun fh' k' =>
      Moves fh k fh' k' ∧ fh'.fhFlags = fh.fhFlags := by
  unfold startPipe
  split
  next hcommand =>
    have hpipe := h.command hcommand
    let started (f : FilePipe) : FileHandle :=
      { fh with f := some f, fd := if dowrite then f.fds.1 else f.fds.2.1 }
    have hfds (f : FilePipe) : (started f).fds = [(f.fds.1 : Int), f.fds.2.1, f.fds.2.2] :=
      fds_of_command hcommand rfl
    -- the command has been started, and its descriptors are open
    have hstarted (f : FilePipe) {k' : Descs} (hopened : ∀ fd ∈ (started f).fds, k' fd ≠ none) :
        HandleOk (started f) k' := by
      refine .of_command hpipe hopened fun _ => ?_
      rw [hfds]
      cases dowrite <;> simp [started]
    unfold openPipeCommand pipeCommand
    rw [ensures_bind]
    cases hf : fh.f with
    | some f =>
        have hold : (started f).fds = fh.fds := (hfds f).trans (fds_of_command hcommand hf).symm
        refine ⟨⟨hstarted f ?_, fun fd hfd => .inl ?_, fun _ _ _ => rfl⟩, rfl⟩
        · rw [hold]
          exact h.opened
        · exact hold ▸ hfd
    | none =>
        rintro (_ | ⟨a, b, c⟩) k' hstep
        · subst hstep
          have hstopped : ({ fh with f := none, fd := -3 } : FileHandle).fds = [] :=
            fds_of_stopped hcommand rfl
          have hnone : ∀ fd, fd ∉ ({ fh with f := none, fd := -3 } : FileHandle).fds := by
            simp [hstopped]
          refine ⟨⟨.of_command hpipe (fun fd hfd => absurd hfd (hnone fd)) ?_,
            fun fd hfd => absurd hfd (hnone fd), fun _ _ _ => rfl⟩, rfl⟩
          exact fun hfd => absurd hfd (by decide : ¬(-1 : Int) < -3)
        · obtain ⟨ha, hb, hc, rfl⟩ := hstep
          have hmem : ∀ fd ∈ (started ⟨(a, b, c), 0⟩).fds, fd = a ∨ fd = b ∨ fd = c := by
            simp [hfds]
          refine ⟨⟨hstarted ⟨(a, b, c), 0⟩ fun fd hfd => ?_, fun fd hfd => .inr ?_,
            fun fd _ hopen => ?_⟩, rfl⟩
          · rcases hmem fd hfd with rfl | rfl | rfl <;> simp [update_apply]
          · rcases hmem fd hfd with rfl | rfl | rfl <;> assumption
          · rw [update_of_ne, update_of_ne, update_of_ne]
            all_goals rintro rfl; contradiction
  next => exact ⟨.refl h, rfl⟩

/-- After the seek the descriptor is thought to stand at the offset, or nowhere. -/
theorem ensures_seekOffset (h : HandleOk fh k) (hfd : -1 < fh.fd) (offset : UInt32) :
    Ensures posKernel k (seekOffset fh offset) fun fh' k' =>
      (∃ offd, fh' = { fh with offd } ∧ (0 ≤ offd → offd = offset.toNat)) ∧ Moves fh k fh' k' := by
  unfold seekOffset
  split
  next =>
    rintro (_ | n) k' hstep
    · subst hstep
      exact ⟨⟨-1, rfl, fun hneg => absurd hneg (by decide)⟩, .forget h (by decide)⟩
    · obtain ⟨-, hn, rfl⟩ := hstep
      obtain rfl := hn _ rfl
      exact ⟨⟨_, rfl, fun _ => rfl⟩, .seek h hfd _ _ fun _ _ => rfl⟩
  next hskip => exact ⟨⟨fh.offd, rfl, fun _ => not_not.mp hskip⟩, .refl h⟩

theorem rwLck_quiet (kind : LockKind) (offset : UInt32) (size : Int32) :
    Calls FileCall.Quiet (rwLck cfg fh kind offset size) := by
  unfold rwLck
  split
  next => trivial
  next => exact ⟨trivial, fun _ => trivial⟩

/-- A transfer, with the offset that is cached after it. -/
theorem Moves.advance (h : HandleOk fh k) (hfd : -1 < fh.fd) {k' : Descs} {r : Option Nat}
    (hstep : Advances k fh.fd r k') {offd : Int}
    (hoffd : ∀ pos, k fh.fd = some (.file pos) → fh.is fhIsPipe = false →
      0 ≤ offd → offd = pos + r.getD 0) :
    Moves fh k { fh with offd } k' := by
  cases r with
  | none =>
      subst hstep
      refine ⟨⟨h.opened, h.mem, h.command, fun hpipe pos hpos _ hnonneg => ?_⟩,
        fun _ hfd => .inl hfd, fun _ _ _ => rfl⟩
      rw [hoffd pos hpos hpipe hnonneg]
      simp
  | some n =>
      rcases hstep with ⟨pos, hpos, rfl⟩ | ⟨hstream, rfl⟩
      · refine .seek h hfd _ _ fun hpipe hnonneg => ?_
        rw [hoffd pos hpos hpipe hnonneg]
        rfl
      · refine ⟨⟨h.opened, h.mem, h.command, fun hpipe pos hpos => ?_⟩,
          fun _ hfd => .inl hfd, fun _ _ _ => rfl⟩
        exact absurd (hstream.symm.trans hpos) (by simp)

theorem ensures_rwLck (kind : LockKind) (offset : UInt32) (size : Int32) {Q : Bool → Descs → Prop}
    (hQ : ∀ ok, Q ok k) : Ensures posKernel k (rwLck cfg fh kind offset size) Q :=
  (ensures_of_quietCalls (rwLck_quiet kind offset size) (Returns.trivial _)).mono
    fun ok _ hk => hk.2 ▸ hQ ok

/-- What a read leaves behind. -/
abbrev Reads (fh : FileHandle) (k : Descs) (out : ReadResult) (k' : Descs) : Prop :=
  Moves fh k out.2.2 k'

theorem ensures_readPipe (h : HandleOk fh k) (hfd : -1 < fh.fd) (hpipe : fh.is fhIsPipe = true)
    (size : Int32) : Ensures posKernel k (readPipe fh size) (Reads fh k) := by
  have hend : ∀ {k'} (out : Int × List UInt8), Moves fh k fh k' →
      Moves fh k (pipeEnd fh out.1 out.2).2.2 k' := by
    intro k' out hmoves
    unfold pipeEnd
    split
    next =>
      cases hf : fh.f with
      | none => exact hmoves
      | some f =>
          dsimp only
          split
          next => exact hmoves
          next => exact hmoves.trans (.same hmoves.ok rfl rfl rfl rfl (by rw [hf]; rfl))
    next => exact hmoves
  rintro ready k' rfl
  change Ensures posKernel k' (readReady fh size ready >>= _) _
  refine ensures_bind.mpr (Ensures.mono ?_ fun out k' (hmoves : Moves fh _ fh k') => hend out hmoves)
  unfold readReady
  split
  next =>
    intro r k'' hstep
    have hmoves : Moves fh k' fh k'' :=
      .advance h hfd hstep fun _ _ hnot => by rw [hpipe] at hnot; contradiction
    cases r <;> exact hmoves
  next => exact .refl h

theorem ensures_copyMapped {fhandle : Int} {size size' : Int32} {offset offset' : UInt32}
    {sigbus sigbus' : Nat} (h : HandleOk fh k) :
    Ensures (bearing (.read fhandle size' offset' sigbus')) k (copyMapped offset sigbus fh size)
      (Reads fh k) := by
  induction sigbus generalizing fh size with
  | zero =>
      unfold copyMapped
      split
      next =>
        rintro data k' ⟨rfl, -⟩
        exact .refl h
      next => exact .refl h
  | succ sigbus ih =>
      unfold copyMapped
      split
      next =>
        rintro data k' ⟨rfl, -⟩ r k'' ⟨hstep, hbears⟩
        have hmapped : ∀ sizeMmap, Moves fh k' { fh with sizeMmap } k' := fun _ =>
          .same h rfl rfl rfl rfl rfl
        have hstay : k'' = k' := by
          cases r with
          | none => exact hstep
          | some n =>
              obtain ⟨-, -, rfl⟩ := hstep
              exact update_eq_self_iff.mpr (hbears n rfl).symm
        subst hstay
        exact (ih (hmapped _).ok).mono fun _ _ hmoves => (hmapped _).trans hmoves
      next => exact .refl h

theorem ensures_readMapped {fhandle : Int} {size : Int32} {offset : UInt32} {sigbus : Nat}
    (h : HandleOk fh k) :
    Ensures (bearing (.read fhandle size offset sigbus)) k (readMapped cfg fh size offset sigbus)
      (Reads fh k) := by
  refine ensures_bind.mpr (Ensures.of_kernel (ensures_rwLck .read offset size fun ok => ?_) bearing_le)
  split
  next => exact ensures_copyMapped h
  next => exact .refl h

theorem ensures_readPlain (h : HandleOk fh k) (hfd : -1 < fh.fd) (size : Int32) (offset : UInt32) :
    Ensures posKernel k (readPlain cfg fh size offset) (Reads fh k) := by
  refine ensures_bind.mpr ((ensures_seekOffset h hfd offset).mono ?_)
  rintro _ k' ⟨⟨offd, rfl, hoffd⟩, hmoves⟩
  split
  next hpos =>
    refine ensures_bind.mpr (ensures_rwLck .write offset size fun ok => ?_)
    split
    next =>
      rintro (_ | l) k'' hstep
      · have hstay : k'' = k' := hstep
        subst hstay
        exact hmoves
      · have hadvances : Advances k' fh.fd (some l.1.length) k'' := hstep
        refine hmoves.trans (.advance hmoves.ok hfd hadvances fun pos hat hpipe _ => ?_)
        rw [hmoves.ok.agrees hpipe pos hat hfd hpos]
        rfl
    next => exact hmoves
  next => exact hmoves

theorem ensures_readOpen {fhandle : Int} {size : Int32} {offset : UInt32} {sigbus : Nat}
    (h : HandleOk fh k) (hfd : -1 < fh.fd) :
    Ensures (bearing (.read fhandle size offset sigbus)) k (readOpen cfg fh size offset sigbus)
      (Reads fh k) := by
  unfold readOpen
  split
  next hpipe => exact (ensures_readPipe h hfd hpipe size).of_kernel bearing_le
  next =>
    split
    next => exact ensures_readMapped h
    next => exact (ensures_readPlain h hfd size offset).of_kernel bearing_le

/-- Only a write that fails at another offset than 0 leaves a wrong offset behind. -/
theorem ensures_writePlain {fhandle : Int} {data : List UInt8} {size : Int32} {offset : UInt32}
    (h : HandleOk fh k) (hfd : -1 < fh.fd) :
    Ensures (bearing (.write fhandle data size offset)) k (writePlain cfg fh data size offset)
      fun out k' => Moves fh k out.2 k' := by
  refine ensures_bind.mpr (((ensures_seekOffset h hfd offset).of_kernel bearing_le).mono ?_)
  rintro _ k' ⟨⟨offd, rfl, hoffd⟩, hmoves⟩
  have hmodified : ∀ {offd : Int} {k''}, Moves fh k { fh with offd } k'' →
      Moves fh k { fh with offd, modified := true } k'' := fun hmoves =>
    hmoves.trans (.same hmoves.ok rfl rfl rfl rfl rfl)
  split
  next =>
    split
    next hpos =>
      refine ensures_bind.mpr ((ensures_rwLck .write offset size fun ok => ?_).of_kernel bearing_le)
      split
      next =>
        rintro r k'' ⟨hstep, hbears⟩
        have hadvances : Advances k' fh.fd (r.map (·.1)) k'' := hstep
        refine hmodified (hmoves.trans (.advance hmoves.ok hfd hadvances ?_))
        intro pos hat hpipe hnonneg
        cases r with
        | some n =>
            rw [hmoves.ok.agrees hpipe pos hat hfd hpos]
            rfl
        | none =>
            -- only at offset 0 does the offset that is cached become negative
            have hzero : offset = 0 := (hbears pos hat).resolve_right (by simp)
            have hneg : 0 ≤ offd + -1 := hnonneg
            rw [hoffd hpos, hzero] at hneg
            exact absurd hneg (by decide)
      next => exact hmoves
    next => exact hmoves
  next =>
    rintro ok k'' ⟨rfl, -⟩
    exact hmodified (hmoves.trans (.forget hmoves.ok (by decide)))

/-! ### Opening and closing -/

/-- A descriptor is opened, or nothing happens. -/
abbrev OpensAs (k : Descs) (r : Option Nat) (k' : Descs) : Prop :=
  OpensFd k (match r with | some n => .fd n | none => .failed) k'

theorem ensures_openWithRootAccess (path : List UInt8) (acm : OpenFlags) :
    Ensures posKernel k (openWithRootAccess path acm) (OpensAs k) := by
  rintro (n | _ | _) k' hstep
  · exact hstep
  · obtain rfl : k' = k := hstep
    rintro (n | _ | _) k'' hstep <;> exact hstep
  · exact hstep

theorem ensures_createAs {path : List UInt8} {create : Bool → UInt32 → FileProg Opened}
    (hcreate : ∀ root mode k, Ensures posKernel k (create root mode) (OpensFd k))
    (mode rootMode : UInt32) :
    Ensures posKernel k (createAs path create mode rootMode) (OpensAs k) := by
  refine ensures_bind.mpr ((hcreate false mode k).mono ?_)
  have hroot : ∀ k', k' = k → Ensures posKernel k' (do
      match ← create true rootMode with
      | .fd n => do
          Sys.chown path
          pure (some n)
      | _ => pure none) (OpensAs k) := by
    rintro k' rfl
    refine ensures_bind.mpr ((hcreate true rootMode k').mono ?_)
    rintro (n | _ | _) k' hstep
    · rintro _ k' rfl
      exact hstep
    · exact hstep
    · exact hstep
  rintro (n | _ | _) k' hstep
  · exact hstep
  · exact hroot k' hstep
  · exact hroot k' hstep

/-- A descriptor that has just been opened is closed again. -/
theorem close_opened {n : Nat} {k' : Descs} (h : OpensFd k (.fd n) k') : update k' n none = k := by
  obtain ⟨hfree, d, -, rfl⟩ := h
  rw [update_idem, ← hfree, update_eq_self]

theorem mkdirAs_quiet (unname : List UInt8) : Calls FileCall.Quiet (mkdirAs unname) := by
  refine ⟨trivial, fun made => ?_⟩
  cases made with
  | true => trivial
  | false =>
      refine ⟨trivial, fun made => ?_⟩
      cases made with
      | true => exact ⟨trivial, fun _ => trivial⟩
      | false => trivial

theorem creatDirNode_quiet (volume : Int) (unname path : List UInt8) (stb : NodeStat) :
    Calls FileCall.Quiet (creatDirNode cfg volume unname path stb) := by
  refine calls_ask_bind.mpr ⟨trivial, fun noright => ?_⟩
  split
  next => trivial
  next =>
    refine (mkdirAs_quiet unname).bind' fun made => ?_
    split
    next =>
      dsimp only
      split
      next => exact ⟨trivial, fun _ => trivial⟩
      next => trivial
    next => trivial

theorem creatNodeDenied_quiet (volume : Int) (unname path : List UInt8) (stb : NodeStat)
    (mode : UInt32) (stbuff : Option NodeStat) :
    Calls FileCall.Quiet (creatNodeDenied volume unname path stb mode stbuff) := by
  unfold creatNodeDenied
  split
  next => trivial
  next =>
    cases stbuff with
    | none => exact ⟨trivial, fun _ => trivial⟩
    | some stbuff =>
        refine calls_ask_bind.mpr ⟨trivial, fun dwattrib => ?_⟩
        split
        next => trivial
        next => exact ⟨trivial, fun _ => trivial⟩

theorem ensures_creatNodeFd (unname : List UInt8) (mode : UInt32) (exist : Bool) :
    Ensures posKernel k (creatNodeFd unname mode exist) (OpensAs k) := by
  unfold creatNodeFd
  split
  next => exact ensures_createAs (by intro _ _ _ _ _ hstep; exact hstep) 0o666 0o600
  next =>
    split
    next => rfl
    next => exact ensures_createAs (by intro _ _ _ _ _ hstep; exact hstep) 0o777 0o751

theorem ensures_nwCreatNode (volume : Int) (unname : List UInt8) (mode : UInt32) :
    Ensures posKernel k (nwCreatNode cfg volume unname mode) fun _ k' => k' = k := by
  unfold nwCreatNode
  split
  next => rfl
  next dir =>
    refine ensures_ask_bind.mpr ?_
    rintro (_ | stb) k' rfl
    · rfl
    · dsimp only
      split
      next =>
        exact (ensures_of_quietCalls (creatDirNode_quiet ..) (Returns.trivial _)).mono
          fun _ _ h => h.2
      next =>
        refine ensures_ask_bind.mpr ?_
        rintro stbuff k'' rfl
        refine ensures_bind.mpr ((ensures_of_quietCalls (creatNodeDenied_quiet ..)
          (Returns.trivial _)).mono ?_)
        rintro (_ | result) k' ⟨-, rfl⟩
        · refine ensures_bind.mpr ((ensures_creatNodeFd ..).mono ?_)
          rintro (_ | fd) k'' hopen
          · exact hopen
          · refine ensures_ask_bind.mpr ?_
            rintro _ k''' rfl
            rw [close_opened hopen]
            split
            next => exact fun _ _ h => h
            next => rfl
        · rfl

/-- A descriptor that a call has given is not the mark of a free slot. -/
theorem minus_one_lt (n : Nat) : (-1 : Int) < n := by omega

theorem is_eq_false_of_plain (h : HandleOk fh k) (hpipe : fh.is fhIsPipe = false) :
    fh.is fhIsPipeCommand = false := by
  by_contra hcommand
  rw [h.command (Bool.not_eq_false _ ▸ hcommand)] at hpipe
  contradiction

theorem Moves.opened (hoffd : fh.offd = 0) {fhFlags : UInt32} {n : Nat}
    {k' : Descs} (hcommand : wants fhFlags fhIsPipeCommand = false) (hopen : OpensFd k (.fd n) k') :
    Moves fh k { fh with fd := n, fhFlags } k' := by
  obtain ⟨hfree, d, hd, rfl⟩ := hopen
  have hfds' : ({ fh with fd := n, fhFlags } : FileHandle).fds = [(n : Int)] := by
    rw [FileHandle.fds, FileHandle.is, if_neg (by simp [hcommand])]
    exact if_pos (Int.lt_of_lt_of_le (by decide) (Int.natCast_nonneg n))
  refine ⟨⟨fun fd hfd => ?_, fun _ => ?_, fun h => ?_, fun _ pos hpos _ _ => ?_⟩, fun fd hfd => ?_,
    fun fd _ hopen => ?_⟩
  · rw [hfds', List.mem_singleton] at hfd
    simp [hfd]
  · rw [hfds']
    exact List.mem_singleton_self _
  · rw [FileHandle.is, hcommand] at h
    contradiction
  · rw [update_self, Option.some.injEq] at hpos
    rcases hd with rfl | rfl
    · obtain rfl := Desc.file.inj hpos
      exact hoffd
    · contradiction
  · rw [hfds', List.mem_singleton] at hfd
    exact .inr (hfd ▸ hfree)
  · refine update_of_ne (fun heq => hopen ?_) _ _
    rw [heq, hfree]

/-- What closing the descriptors of a handle leaves. -/
structure Frees (fh : FileHandle) (k : Descs) (fh' : FileHandle) (k' : Descs) : Prop where
  fhFlags : fh'.fhFlags = fh.fhFlags
  stopped : fh'.is fhIsPipeCommand = true → fh'.f = none
  frame : ∀ fd, fd ∉ fh.fds → k fd ≠ none → k' fd = k fd

theorem Frees.moves {fh' : FileHandle} {k' : Descs} (h : HandleOk fh k) (hfrees : Frees fh k fh' k') :
    Moves fh k { fh' with fd := -1 } k' := by
  have hfds : ({ fh' with fd := -1 } : FileHandle).fds = [] := by
    by_cases hcommand : fh'.is fhIsPipeCommand = true
    · exact fds_of_stopped hcommand (hfrees.stopped hcommand)
    · exact if_neg hcommand
  have hnone : ∀ fd, fd ∉ ({ fh' with fd := -1 } : FileHandle).fds := by simp [hfds]
  refine ⟨⟨fun fd hfd => absurd hfd (hnone fd), fun hfd => absurd hfd (Int.lt_irrefl (-1)), ?_,
    fun _ _ _ hfd => absurd hfd (Int.lt_irrefl (-1))⟩, fun fd hfd => absurd hfd (hnone fd),
    hfrees.frame⟩
  change wants fh'.fhFlags _ = true → wants fh'.fhFlags _ = true
  rw [hfrees.fhFlags]
  exact h.command

/-- A handle without a descriptor loses none. -/
theorem Moves.unopened (h : HandleOk fh k) (hfd : ¬-1 < fh.fd) :
    Moves fh k { fh with fd := -1 } k := by
  have hfds : ({ fh with fd := -1 } : FileHandle).fds = fh.fds := by
    change (if fh.is fhIsPipeCommand then _ else if (-1 : Int) < -1 then _ else _) = _
    rw [FileHandle.fds, if_neg hfd, if_neg (Int.lt_irrefl _)]
  refine ⟨⟨?_, fun hfd => absurd hfd (Int.lt_irrefl (-1)), h.command,
    fun _ _ _ hfd => absurd hfd (Int.lt_irrefl (-1))⟩, fun fd hmem => .inl (hfds ▸ hmem),
    fun _ _ _ => rfl⟩
  rw [hfds]
  exact h.opened

theorem ensures_closeCommand (hcommand : fh.is fhIsPipeCommand = true) :
    Ensures posKernel k (closeCommand fh) fun _ k' =>
      ∀ fd, fd ∉ fh.fds → k fd ≠ none → k' fd = k fd := by
  unfold closeCommand
  cases hf : fh.f with
  | none => exact fun _ _ _ => rfl
  | some f =>
      rintro result k' rfl fd hnot hopen
      simp only [fds_of_command hcommand hf, List.mem_cons, List.not_mem_nil, or_false,
        not_or] at hnot
      rw [update_of_ne hnot.2.2, update_of_ne hnot.2.1, update_of_ne hnot.1]

theorem ensures_closeFile (h : HandleOk fh k) (hfd : -1 < fh.fd)
    (hcommand : fh.is fhIsPipeCommand = false) :
    Ensures posKernel k (closeFile fh) fun out k' => Frees fh k out.2 k' := by
  have hfrees : ∀ modified, Frees fh k { fh with modified } (update k fh.fd none) := by
    refine fun modified => ⟨rfl, fun hpipe => ?_, fun fd hnot _ => update_of_ne (fun heq => ?_) _ _⟩
    · exact absurd (hcommand.symm.trans hpipe) (by decide)
    · exact hnot (heq ▸ h.mem hfd)
  unfold closeFile
  split
  next =>
    refine ensures_ask_bind.mpr ?_
    rintro _ k' rfl
    refine ensures_ask_bind.mpr ?_
    rintro ok k'' rfl
    refine ensures_ask_bind.mpr ?_
    rintro _ k''' rfl
    split
    next =>
      rintro _ k'' rfl
      exact hfrees false
    next => exact hfrees fh.modified
  next =>
    rintro ok k' rfl
    exact hfrees fh.modified

theorem ensures_releaseHandle (h : HandleOk fh k)
    (hfd : -1 < fh.fd ∨ fh.is fhIsPipeCommand = true) :
    Ensures posKernel k (releaseHandle cfg fh) fun out k' => Frees fh k out.2 k' := by
  unfold releaseHandle
  split
  next hcommand =>
    exact ensures_bind.mpr ((ensures_closeCommand hcommand).mono fun _ _ hframe =>
      ⟨rfl, fun _ => rfl, hframe⟩)
  next hcommand =>
    have hplain : fh.is fhIsPipeCommand = false := Bool.eq_false_iff.mpr hcommand
    have hfd := hfd.resolve_right hcommand
    unfold unmapFile
    split
    next =>
      rintro _ k' rfl
      have hmoves : Moves fh k' { fh with pMmap := false, sizeMmap := 0 } k' :=
        .same h rfl rfl rfl rfl rfl
      exact (ensures_closeFile hmoves.ok hfd hplain).mono fun out _ hfrees =>
        ⟨hfrees.fhFlags, hfrees.stopped, hfrees.frame⟩
    next => exact ensures_closeFile h hfd hplain

theorem ensures_writeTime (pipe : UInt32) :
    Ensures posKernel k (writeTime fh pipe) fun fh' k' =>
      (∃ tmodi, fh' = { fh with tmodi }) ∧ k' = k := by
  unfold writeTime
  split
  next => exact fun _ _ hk => ⟨⟨0, rfl⟩, hk⟩
  next => exact ⟨⟨fh.tmodi, rfl⟩, rfl⟩

/-- A handle that has just been taken. -/
structure Fresh (fh : FileHandle) : Prop where
  fd : fh.fd = -2
  offd : fh.offd = 0
  fhFlags : fh.fhFlags = 0
  f : fh.f = none

theorem Fresh.fds (h : Fresh fh) : fh.fds = [] := by
  rw [FileHandle.fds, FileHandle.is, h.fhFlags, h.fd]
  rfl

theorem Fresh.ok (h : Fresh fh) : HandleOk fh k where
  opened := by simp [h.fds]
  mem hfd := by
    rw [h.fd] at hfd
    contradiction
  command hcommand := by
    rw [FileHandle.is, h.fhFlags] at hcommand
    contradiction
  agrees _ _ _ hfd := by
    rw [h.fd] at hfd
    contradiction

theorem statAgain_quiet (path : List UInt8) (changed : Bool) (stb : NodeStat) :
    Calls FileCall.Quiet (statAgain path changed stb) := by
  unfold statAgain
  split
  next =>
    refine calls_ask_bind.mpr ⟨trivial, fun stb' => ?_⟩
    cases stb' <;> trivial
  next => trivial

/-- A handle without descriptors. -/
theorem Moves.idle {fh' : FileHandle} (hfds : fh'.fds = []) (hfd : ¬-1 < fh'.fd)
    (hcommand : fh'.is fhIsPipeCommand = true → fh'.is fhIsPipe = true) : Moves fh k fh' k := by
  have hnone : ∀ fd, fd ∉ fh'.fds := by simp [hfds]
  exact ⟨⟨fun fd hmem => absurd hmem (hnone fd), fun hopen => absurd hopen hfd, hcommand,
    fun _ _ _ hopen => absurd hopen hfd⟩, fun fd hmem => absurd hmem (hnone fd), fun _ _ _ => rfl⟩

theorem Moves.failed {fhFlags : UInt32} (hflags : wants fhFlags fhIsPipeCommand = false) :
    Moves fh k { fh with fhFlags, fd := -1 } k := by
  have hplain : ({ fh with fhFlags, fd := -1 } : FileHandle).is fhIsPipeCommand = false := hflags
  refine .idle ?_ (Int.lt_irrefl (-1)) fun hcommand => ?_
  · exact if_neg (by rw [hplain]; decide)
  · rw [hplain] at hcommand
    contradiction

theorem ensures_openExisting (h : Fresh fh) (stb : NodeStat) (creatmode : UInt32)
    (dowrite : Bool) :
    Ensures posKernel k (openExisting cfg fh stb creatmode dowrite) fun out k' =>
      Moves fh k out.2.1 k' ∧ (out.1 = 0 → out.2.1.is fhIsPipe = false → -1 < out.2.1.fd) := by
  have hflags : ∀ flags, wants flags fhIsPipeCommand = false →
      wants (fh.fhFlags ||| flags) fhIsPipeCommand = false := by
    intro flags hflags
    rw [wants_or, h.fhFlags, hflags]
    rfl
  have hnone : wants fh.fhFlags fhIsPipeCommand = false := by
    rw [h.fhFlags]
    rfl
  unfold openExisting
  dsimp only
  split
  next =>
    refine ensures_bind.mpr ((ensures_openWithRootAccess _ _).mono ?_)
    rintro (_ | n) k' hopen
    · obtain rfl : k' = k := hopen
      exact ⟨.failed (hflags _ rfl), fun hcode => absurd hcode (by decide : ¬(-0x9c : Int) = 0)⟩
    · exact ⟨.opened h.offd (hflags _ rfl) hopen, fun _ _ => minus_one_lt n⟩
  next =>
    split
    next =>
      rintro time k' rfl
      have hpipes : ∀ flag, wants (fh.fhFlags ||| fhIsPipe ||| fhIsPipeCommand) flag =
          (wants fhIsPipe flag || wants fhIsPipeCommand flag) := by
        intro flag
        have hzero : wants 0 flag = false := by simp [wants]
        rw [wants_or, wants_or, h.fhFlags, hzero, Bool.false_or]
      refine ⟨.idle (fds_of_stopped ?_ h.f) (by change ¬(-1 : Int) < -3; decide) fun _ => ?_,
        fun _ hpipe => ?_⟩
      · exact (hpipes _).trans rfl
      · exact (hpipes _).trans rfl
      · exact absurd ((hpipes _).symm.trans hpipe) (by decide)
    next =>
      refine ensures_bind.mpr ((ensures_openWithRootAccess _ _).mono ?_)
      rintro (_ | n) k' hopen
      · obtain rfl : k' = k := hopen
        exact ⟨.failed hnone, fun hcode => absurd hcode (by decide : ¬(-0x9c : Int) = 0)⟩
      · refine ensures_bind.mpr ((ensures_of_quietCalls (statAgain_quiet ..)
          (Returns.trivial _)).mono ?_)
        rintro stb' k'' ⟨-, rfl⟩
        exact ⟨.opened h.offd hnone hopen, fun _ _ => minus_one_lt n⟩

theorem ensures_openNew (h : Fresh fh) (stb : NodeStat) :
    Ensures posKernel k (openNew cfg fh stb) fun out k' =>
      Moves fh k out.2.1 k' ∧ (out.1 = 0 → out.2.1.is fhIsPipe = false → -1 < out.2.1.fd) := by
  have hnone : wants fh.fhFlags fhIsPipeCommand = false := by
    rw [h.fhFlags]
    rfl
  refine ensures_bind.mpr ((ensures_nwCreatNode _ _ _).mono ?_)
  rintro result k' rfl
  split
  next => exact ⟨.refl h.ok, fun hcode => absurd hcode (by decide : ¬(-0x9c : Int) = 0)⟩
  next =>
    refine ensures_bind.mpr ((ensures_openWithRootAccess _ _).mono ?_)
    have hoffd : ∀ fd, ({ fh with fd, offd := 0 } : FileHandle) = { fh with fd } := by
      intro fd
      rw [← h.offd]
    rintro (_ | n) k'' hopen
    · obtain rfl : k'' = k' := hopen
      refine ⟨?_, fun hcode => absurd hcode (by decide : ¬(-0x9c : Int) = 0)⟩
      change Moves fh k'' { fh with fd := -1, offd := 0 } k''
      rw [hoffd]
      exact .failed hnone
    · refine ensures_bind.mpr ((ensures_of_quietCalls (statAgain_quiet ..)
        (Returns.trivial _)).mono ?_)
      rintro stb' k₁ ⟨-, rfl⟩
      refine ⟨?_, fun _ _ => minus_one_lt n⟩
      change Moves fh k' { fh with fd := n, offd := 0 } k₁
      rw [hoffd]
      exact .opened h.offd hnone hopen

theorem ensures_mapFile (h : HandleOk fh k) (dowrite : Bool) :
    Ensures posKernel k (mapFile cfg fh dowrite) fun fh' k' => Moves fh k fh' k' := by
  unfold mapFile
  split
  next hopen =>
    refine ensures_ask_bind.mpr fun r k' hstep => ?_
    have hmoves : Moves fh k { fh with offd := resultOf r } k' := by
      cases r with
      | none =>
          obtain rfl : k' = k := hstep
          exact .forget h (by decide)
      | some n =>
          obtain ⟨-, -, rfl⟩ := hstep
          exact .seek h hopen.2.1 n n fun _ _ => rfl
    have hsame : ∀ sizeMmap pMmap, Moves fh k { fh with offd := resultOf r, sizeMmap, pMmap } k' :=
      fun _ _ => hmoves.trans (.same hmoves.ok rfl rfl rfl rfl rfl)
    dsimp only
    split
    next =>
      refine ensures_ask_bind.mpr fun mapped k'' hquiet => ?_
      obtain rfl : k'' = k' := hquiet
      split
      next => exact hsame _ _
      next => exact hsame _ _
    next => exact hsame _ _
  next => exact .refl h

theorem ensures_registerFile (h : HandleOk fh k)
    (hplain : fh.is fhIsPipe = false → -1 < fh.fd) (stb : NodeStat) (access : UInt32)
    (dowrite : Bool) :
    Ensures posKernel k (registerFile cfg fh stb access dowrite) fun out k' =>
      Moves fh k out.2 k' := by
  unfold registerFile
  split
  next => exact .refl h
  next hpipe =>
    have hpipe : fh.is fhIsPipe = false := Bool.eq_false_iff.mpr hpipe
    have hnamed : Moves fh k { fh with id := stb.id } k := .same h rfl rfl rfl rfl rfl
    refine ensures_ask_bind.mpr ?_
    rintro result k' rfl
    dsimp only
    split
    next =>
      refine ensures_ask_bind.mpr ?_
      rintro ok k'' rfl
      have hfrees : Frees fh k' { fh with id := stb.id } (update k' fh.fd none) := by
        refine ⟨rfl, fun hcommand => ?_, fun fd hnot _ => update_of_ne (fun heq => ?_) _ _⟩
        · exact absurd ((is_eq_false_of_plain h hpipe).symm.trans hcommand) (by decide)
        · exact hnot (heq ▸ h.mem (hplain hpipe))
      exact hfrees.moves h
    next =>
      refine ensures_bind.mpr ((ensures_mapFile hnamed.ok dowrite).mono fun fh' k'' hmoves => ?_)
      exact hnamed.trans hmoves

end Routines

/-! ## Requests -/

section Requests

variable {cfg : FileConfig} {t : FileTable} {k : Descs}

theorem ensures_freeFileHandle (h : Agree t k) (fhandle : Int) :
    Ensures posKernel k (freeFileHandle cfg t fhandle) fun out k' => Agree out.2 k' := by
  unfold freeFileHandle
  cases hfind : t.find fhandle with
  | none => exact h
  | some found =>
      obtain ⟨i, fh⟩ := found
      obtain ⟨hget, hok⟩ := h.of_find hfind
      refine ensures_bind.mpr (Ensures.mono ?_ fun fh' k' (hmoves : Moves fh k { fh' with fd := -1 } k') =>
        h.put hget hmoves)
      unfold releaseOpen
      split
      next hfd =>
        refine ensures_bind.mpr ((ensures_releaseHandle hok (.inl hfd)).mono fun out k' hfrees => ?_)
        refine (ensures_writeTime fhIsPipeCommand).mono ?_
        rintro _ _ ⟨⟨tmodi, rfl⟩, rfl⟩
        exact (hfrees.moves hok).trans (.same (hfrees.moves hok).ok rfl rfl rfl rfl rfl)
      next hfd => exact .unopened hok hfd

theorem ensures_testExisting (volume : Int) (unixname : List UInt8) (stb : NodeStat)
    (access creatmode : UInt32) (dowrite : Bool) :
    Calls FileCall.Quiet (testExisting cfg volume unixname stb access creatmode dowrite) := by
  unfold testExisting
  dsimp only
  split
  next => trivial
  next =>
    refine calls_ask_bind.mpr ⟨trivial, fun effRights => ?_⟩
    refine calls_ask_bind.mpr ⟨trivial, fun dwattrib => ?_⟩
    split
    next => exact ⟨trivial, fun _ => trivial⟩
    next => trivial

theorem testNew_quiet (volume : Int) (unixname : List UInt8) (creatmode : UInt32) :
    Calls FileCall.Quiet (testNew cfg volume unixname creatmode) := by
  unfold testNew
  split
  next => trivial
  next =>
    split
    next =>
      cases parentDir unixname with
      | none => trivial
      | some dir =>
          dsimp only
          split
          next =>
            refine calls_ask_bind.mpr ⟨trivial, fun stb => ?_⟩
            cases stb with
            | none => trivial
            | some stb => exact ⟨trivial, fun _ => ⟨trivial, fun _ => trivial⟩⟩
          next => trivial
    next => trivial

/-- The flags of an open handle tell a pipe from a file as before. -/
theorem openedFlags_pipe {fh : FileHandle} {creatmode flag : UInt32} {dowrite : Bool}
    (hro : wants fhOpenedRo flag = false) (hreadonly : wants fhIsReadonly flag = false)
    (hreuse : wants fhDoNotReuse flag = false) :
    wants (openedFlags cfg fh creatmode dowrite) flag = fh.is flag := by
  have hzero : wants 0 flag = false := by simp [wants]
  have hite : ∀ (b : Bool) {x y : UInt32}, wants x flag = false → wants y flag = false →
      wants (if b then x else y) flag = false := by
    intro b x y hx hy
    split <;> assumption
  unfold openedFlags
  rw [wants_or, wants_or, wants_or, hite _ hzero hro, hite _ hreadonly hzero, hite _ hreuse hzero]
  simp [FileHandle.is]

theorem statAsRoot_quiet (path : List UInt8) : Calls FileCall.Quiet (statAsRoot path) := by
  refine calls_ask_bind.mpr ⟨trivial, fun stb => ?_⟩
  cases stb with
  | none => exact ⟨trivial, fun _ => trivial⟩
  | some stb => trivial

/-- A new slot, with a fresh handle in it. -/
theorem Agree.newFileHandle (h : Agree t k) {volume task : Int} {unixname : List UInt8} {i : Nat}
    {fh : FileHandle} {t' : FileTable}
    (hnew : MarsNwe.newFileHandle cfg t volume unixname task = some (i, fh, t')) :
    Agree t' k ∧ t'.handles[i]? = some fh ∧ Fresh fh := by
  obtain ⟨old, rfl, ⟨hget, -, hhandles⟩ | ⟨rfl, rfl, -, hhandles⟩⟩ := newFileHandle_eq_some hnew
  · have hfresh : Fresh (old.init volume unixname task) := ⟨rfl, rfl, rfl, rfl⟩
    have hmoves : Moves old k (old.init volume unixname task) k :=
      .idle hfresh.fds (show ¬(-1 : Int) < -2 by decide) (hfresh.ok (k := k)).command
    refine ⟨(h.put hget hmoves).of_handles hhandles, ?_, hfresh⟩
    rw [hhandles, List.getElem?_set_self (List.getElem?_eq_some_iff.mp hget).1]
  · have hfresh : Fresh ((t.above.headD .zero).init volume unixname task) := ⟨rfl, rfl, rfl, rfl⟩
    refine ⟨(h.append hfresh.ok hfresh.fds).of_handles hhandles, ?_, hfresh⟩
    rw [hhandles, List.getElem?_concat_length]

theorem ensures_openTested (h : Agree t k) (e : OpenRequest) (exist : Bool) (stb : NodeStat)
    (dowrite : Bool) :
    Ensures posKernel k (openTested cfg t e exist stb dowrite) fun out k' => Agree out.2 k' := by
  unfold openTested
  cases hnew : newFileHandle cfg t e.volume e.unixname e.task with
  | none => exact @Agree.of_handles t k h { t with last := 1 } rfl
  | some new =>
      obtain ⟨i, fh, t'⟩ := new
      obtain ⟨hagree, hget, hfresh⟩ := h.newFileHandle hnew
      dsimp only
      have hopened : Ensures posKernel k
          (if exist then openExisting cfg fh stb e.creatmode dowrite else openNew cfg fh stb)
          fun out k' =>
            Moves fh k out.2.1 k' ∧ (out.1 = 0 → out.2.1.is fhIsPipe = false → -1 < out.2.1.fd) := by
        split
        next => exact ensures_openExisting hfresh stb e.creatmode dowrite
        next => exact ensures_openNew hfresh stb
      refine ensures_bind.mpr (hopened.mono ?_)
      rintro ⟨completition, fh', stb'⟩ k' ⟨hmoves, hfd⟩
      have hregistered : Ensures posKernel k'
          (if completition = 0 then registerFile cfg fh' stb' e.access' dowrite
          else pure (completition, fh')) fun out k'' => Moves fh k out.2 k'' := by
        split
        next hcode =>
          exact (ensures_registerFile hmoves.ok (hfd hcode) ..).mono fun _ _ h => hmoves.trans h
        next => exact hmoves
      refine ensures_bind.mpr (hregistered.mono ?_)
      rintro ⟨completition', fh''⟩ k'' hmoves
      dsimp only
      split
      next =>
        refine hagree.put hget (hmoves.trans (.same hmoves.ok rfl rfl ?_ ?_ rfl))
        · exact openedFlags_pipe rfl rfl rfl
        · exact openedFlags_pipe rfl rfl rfl
      next =>
        refine ensures_bind.mpr ((ensures_freeFileHandle (hagree.put hget hmoves) _).mono ?_)
        exact fun _ _ h => h

theorem ensures_fileCreatOpen (h : Agree t k) (e : OpenRequest) :
    Ensures posKernel k (fileCreatOpen cfg t e) fun out k' => Agree out.2 k' := by
  refine ensures_bind.mpr ((ensures_of_quietCalls (statAsRoot_quiet e.unixname)
    (Returns.trivial _)).mono ?_)
  rintro (_ | stb) k' ⟨-, rfl⟩
  · refine ensures_bind.mpr ((ensures_of_quietCalls (testNew_quiet ..) (Returns.trivial _)).mono ?_)
    rintro ⟨completition, _ | stb⟩ k'' ⟨-, rfl⟩
    · exact h
    · dsimp only
      split
      next => exact ensures_openTested h e false stb e.dowrite
      next => exact h
  · refine ensures_bind.mpr ((ensures_of_quietCalls (ensures_testExisting ..)
      (Returns.trivial _)).mono ?_)
    rintro ⟨completition, dowrite⟩ k'' ⟨-, rfl⟩
    dsimp only
    split
    next => exact ensures_openTested h e true stb dowrite
    next => exact h

theorem Moves.unuse {fh : FileHandle} (h : HandleOk fh k) (resetReuse : Bool) :
    Moves fh k (fh.unuse resetReuse) k := by
  cases resetReuse with
  | false => exact .same h rfl rfl rfl rfl rfl
  | true =>
      refine .same h rfl rfl ?_ ?_ rfl
      · exact wants_and _ _ _
      · exact wants_and _ _ _

theorem ensures_nwCloseFile (h : Agree t k) (fhandle : Int) (resetReuse : Bool) (task : Int) :
    Ensures posKernel k (nwCloseFile cfg t fhandle resetReuse task) fun out k' =>
      Agree out.2 k' := by
  unfold nwCloseFile
  cases hfind : t.find fhandle with
  | none => exact h
  | some found =>
      obtain ⟨i, fh⟩ := found
      obtain ⟨hget, hok⟩ := h.of_find hfind
      dsimp only
      split
      next => exact h
      next =>
        have hunused := Moves.unuse hok resetReuse
        generalize fh.unuse resetReuse = fh' at hunused ⊢
        split
        next => exact h.put hget hunused
        next =>
          split
          next hopen =>
            refine ensures_bind.mpr ((ensures_releaseHandle hunused.ok (hopen.imp_right And.right)).mono ?_)
            rintro ⟨ok, fh''⟩ k' hfrees
            refine ensures_bind.mpr ((ensures_writeTime fhIsPipe).mono ?_)
            rintro _ k'' ⟨⟨tmodi, rfl⟩, rfl⟩
            have hclosed := hunused.trans (hfrees.moves hunused.ok)
            have htimed : Moves fh k { fh'' with fd := -1, tmodi } k'' :=
              hclosed.trans (.same hclosed.ok rfl rfl rfl rfl rfl)
            exact ensures_bind.mpr ((ensures_freeFileHandle (h.put hget htimed) fhandle).mono
              fun _ _ h => h)
          next => exact ensures_freeFileHandle (h.put hget hunused) fhandle

theorem ensures_initFileModule (h : Agree t k) (task : Int) :
    Ensures posKernel k (initFileModule cfg t task) fun t' k' => Agree t' k' := by
  have hloop : ∀ n, Ensures posKernel k (freeTaskFiles cfg task n t) fun t' k' => Agree t' k' := by
    intro n
    induction n with
    | zero => exact h
    | succ n ih =>
        refine ensures_bind.mpr (ih.mono fun t' k' h' => ?_)
        cases t'.at? n with
        | none => exact h'
        | some fh =>
            dsimp only
            split
            next => exact ensures_bind.mpr ((ensures_freeFileHandle h' _).mono fun _ _ h => h)
            next => exact h'
  refine ensures_bind.mpr ((hloop _).mono fun t' k' h' => ?_)
  change Agree (if task < 0 then ⟨[], 0, t'.handles ++ t'.above⟩ else t') k'
  split
  next => exact ⟨by simp, by simp⟩
  next => exact h'

theorem ensures_nwReadFile (h : Agree t k) (fhandle : Int) (size : Int32) (offset : UInt32)
    (sigbus : Nat) :
    Ensures (bearing (.read fhandle size offset sigbus)) k
      (nwReadFile cfg t fhandle size offset sigbus) fun out k' => Agree out.2 k' := by
  unfold nwReadFile
  cases hfind : t.find fhandle with
  | none => exact h
  | some found =>
      obtain ⟨i, fh⟩ := found
      obtain ⟨hget, hok⟩ := h.of_find hfind
      refine ensures_bind.mpr (((ensures_startPipe hok false).of_kernel bearing_le).mono ?_)
      rintro fh' k' ⟨hmoves, -⟩
      split
      next hfd =>
        exact ensures_bind.mpr ((ensures_readOpen hmoves.ok hfd).mono fun out k'' hread =>
          h.put hget (hmoves.trans hread))
      next => exact h.put hget hmoves

theorem ensures_nwWriteFile (h : Agree t k) (fhandle : Int) (data : List UInt8) (size : Int32)
    (offset : UInt32) :
    Ensures (bearing (.write fhandle data size offset)) k
      (nwWriteFile cfg t fhandle data size offset) fun out k' => Agree out.2 k' := by
  unfold nwWriteFile
  cases hfind : t.find fhandle with
  | none => exact h
  | some found =>
      obtain ⟨i, fh⟩ := found
      obtain ⟨hget, hok⟩ := h.of_find hfind
      refine ensures_bind.mpr (((ensures_startPipe hok true).of_kernel bearing_le).mono ?_)
      rintro fh' k' ⟨hmoves, -⟩
      have hput := h.put hget hmoves
      split
      next hfd =>
        split
        next => exact hput
        next =>
          split
          next hpipe =>
            unfold writePipe
            split
            next =>
              rintro r k'' ⟨hstep, -⟩
              have hadvances : Advances k' fh'.fd (r.map (·.1)) k'' := hstep
              exact h.put hget (hmoves.trans (.advance hmoves.ok hfd hadvances fun _ _ hnot =>
                absurd (hpipe.symm.trans hnot) (by decide)))
            next => exact hput
          next =>
            exact ensures_bind.mpr ((ensures_writePlain hmoves.ok hfd).mono fun out k'' hwrite =>
              h.put hget (hmoves.trans hwrite))
      next => exact hput

theorem ensures_nwSeekFile (h : Agree t k) (fhandle modus : Int) (rand : UInt16) :
    Ensures posKernel k (nwSeekFile t fhandle modus rand) fun out k' => Agree out.2 k' := by
  unfold nwSeekFile
  cases hfind : t.find fhandle with
  | none => exact h
  | some found =>
      obtain ⟨i, fh⟩ := found
      obtain ⟨hget, hok⟩ := h.of_find hfind
      dsimp only
      split
      next hfd =>
        split
        next => exact h
        next =>
          split
          next =>
            rintro (_ | n) k' hstep
            · obtain rfl : k' = k := hstep
              exact h.put hget (.forget hok (by decide))
            · obtain ⟨-, -, rfl⟩ := hstep
              exact h.put hget (.seek hok hfd n n fun _ _ => rfl)
          next => exact h
      next => exact h

/-- A copy seeks, reads and writes on two descriptors. -/
def Transfers (q z : Int) : FileCall → Prop
  | .lseek fd _ | .read fd _ | .write fd _ _ => fd = q ∨ fd = z
  | _ => False

theorem copyLoop_calls (q z : Int) (size : Nat) (retsize : Int32) :
    Calls (Transfers q z) (copyLoop q z size retsize) := by
  induction size using Nat.strong_induction_on generalizing retsize with
  | _ size ih =>
      rw [copyLoop]
      split
      next => trivial
      next hsize =>
        refine calls_ask_bind.mpr ⟨.inl rfl, fun r => ?_⟩
        cases r with
        | none => trivial
        | some buff =>
            dsimp only
            split
            next => trivial
            next hbuff =>
              refine calls_ask_bind.mpr ⟨.inr rfl, fun w => ?_⟩
              split
              next => exact ih _ (by omega) _
              next => trivial

theorem seekBoth_calls (q z : Int) (qoffset zoffset : UInt32) :
    Calls (Transfers q z) (seekBoth q qoffset z zoffset) := by
  refine calls_ask_bind.mpr ⟨.inl rfl, fun r => ?_⟩
  cases r with
  | none => trivial
  | some n => exact ⟨.inr rfl, fun _ => trivial⟩

/-- Other descriptors than two stay where they are, and none is closed. -/
def Repositions (q z : Int) (k k' : Descs) : Prop :=
  ∀ fd, (fd ≠ q → fd ≠ z → k' fd = k fd) ∧ (k fd ≠ none → k' fd ≠ none)

theorem Repositions.update {q z fd : Int} {k₀ : Descs} (h : Repositions q z k₀ k)
    (hfd : fd = q ∨ fd = z) (d : Desc) : Repositions q z k₀ (Function.update k fd (some d)) := by
  intro fd'
  by_cases heq : fd' = fd
  · subst heq
    refine ⟨fun hq hz => ?_, fun _ => by simp⟩
    exact (hfd.elim hq hz).elim
  · rw [update_of_ne heq]
    exact h fd'

theorem Repositions.step {q z : Int} {k₀ k' : Descs} {c : FileCall} {r : c.Answer}
    (h : Repositions q z k₀ k) (hc : Transfers q z c) (hstep : posKernel k c r k') :
    Repositions q z k₀ k' := by
  have hadvance : ∀ {fd : Int} {n : Option Nat}, fd = q ∨ fd = z → Advances k fd n k' →
      Repositions q z k₀ k' := by
    intro fd n hfd hadvances
    cases n with
    | none =>
        obtain rfl : k' = k := hadvances
        exact h
    | some n =>
        rcases hadvances with ⟨pos, -, rfl⟩ | ⟨-, rfl⟩
        · exact h.update hfd _
        · exact h
  cases c with
  | lseek fd dest =>
      cases r with
      | none =>
          obtain rfl : k' = k := hstep
          exact h
      | some n =>
          obtain ⟨-, -, rfl⟩ := hstep
          exact h.update hc _
  | read fd count => exact hadvance hc hstep
  | write fd data count => exact hadvance hc hstep
  | _ => exact hc.elim

theorem Agree.modify (h : Agree t k) (i : Nat) {f : FileHandle → FileHandle}
    (hf : ∀ fh, HandleOk fh k → Moves fh k (f fh) k) :
    Agree { t with handles := t.handles.modify i f } k := by
  cases hget : t.handles[i]? with
  | none =>
      rw [List.modify_eq_self (List.getElem?_eq_none_iff.mp hget)]
      exact h
  | some fh =>
      refine (h.put hget (hf fh (h.ok i fh hget))).of_handles ?_
      exact SlotTable.modify_eq_set hget f

/-- Descriptors move under handles whose offset is forgotten. -/
theorem Agree.repositions (h : Agree t k) {q z : Int} {k' : Descs} (hk : Repositions q z k k')
    (hforgot : ∀ (i : Nat) fh, t.handles[i]? = some fh → fh.fd = q ∨ fh.fd = z → -1 < fh.fd →
      fh.offd < 0) : Agree t k' := by
  refine ⟨fun i fh hget => ?_, h.apart⟩
  have hok := h.ok i fh hget
  refine ⟨fun fd hfd => (hk fd).2 (hok.opened fd hfd), hok.mem, hok.command,
    fun hpipe pos hpos hfd hnonneg => ?_⟩
  by_cases hmoved : fh.fd = q ∨ fh.fd = z
  · exact absurd (hforgot i fh hget hmoved hfd) (Int.not_lt.mpr hnonneg)
  · rw [not_or] at hmoved
    rw [(hk fh.fd).1 hmoved.1 hmoved.2] at hpos
    exact hok.agrees hpipe pos hpos hfd hnonneg

theorem ensures_nwServerCopy (h : Agree t k) (qfhandle : Int) (qoffset : UInt32) (zfhandle : Int)
    (zoffset size : UInt32) :
    Ensures posKernel k (nwServerCopy t qfhandle qoffset zfhandle zoffset size) fun out k' =>
      Agree out.2 k' := by
  unfold nwServerCopy
  cases hq : t.find qfhandle with
  | none => exact h
  | some q =>
      cases hz : t.find zfhandle with
      | none => exact h
      | some z =>
          obtain ⟨q, fhq⟩ := q
          obtain ⟨z, fhz⟩ := z
          dsimp only
          split
          next hfd =>
            split
            next => exact h
            next =>
              obtain ⟨hgetq, hokq⟩ := h.of_find hq
              obtain ⟨hgetz, hokz⟩ := h.of_find hz
              have hstep : ∀ k₁ c r k₂, Repositions fhq.fd fhz.fd k k₁ → Transfers fhq.fd fhz.fd c →
                  posKernel k₁ c r k₂ → Repositions fhq.fd fhz.fd k k₂ :=
                fun _ _ _ _ hk hc hstep => hk.step hc hstep
              have hstart : Repositions fhq.fd fhz.fd k k := fun _ => ⟨fun _ _ => rfl, id⟩
              refine ensures_bind.mpr ((ensures_of_calls hstep (seekBoth_calls ..)
                (Returns.trivial _) hstart).mono ?_)
              rintro sought k₁ ⟨-, hk₁⟩
              refine ensures_bind.mpr ((ensures_of_calls hstep (m := if sought then
                copyLoop fhq.fd fhz.fd size.toNat 0 else pure (-1)) ?_
                (Returns.trivial _) hk₁).mono ?_)
              · split
                next => exact copyLoop_calls ..
                next => trivial
              rintro retsize k₂ ⟨-, hk₂⟩
              refine Agree.repositions ?_ hk₂ fun i fh hget hfd hopen => ?_
              · refine Agree.modify (Agree.modify (h.modify z fun fh hok => ?_) q fun fh hok => ?_) z
                  fun fh hok => ?_
                · exact .same hok rfl rfl rfl rfl rfl
                · exact .forget hok (by decide)
                · exact .forget hok (by decide)
              · by_cases hi : z = i ∨ q = i
                · simp only [List.getElem?_modify, Option.map_eq_map, Option.map_eq_some_iff] at hget
                  obtain ⟨_, ⟨fh', -, rfl⟩, rfl⟩ := hget
                  rcases hi with rfl | rfl
                  · simp
                  · by_cases hz : z = q <;> simp [hz]
                · -- a handle besides the two of the copy has descriptors of its own
                  rw [not_or] at hi
                  simp only [List.getElem?_modify, if_neg hi.1, if_neg hi.2, Option.map_eq_map,
                    Option.map_id'] at hget
                  have hmem := (h.ok i fh hget).mem hopen
                  rcases hfd with heq | heq
                  · exact (h.apart i q fh fhq hget hgetq (Ne.symm hi.2) _ hmem
                      (heq ▸ hokq.mem (heq ▸ hopen))).elim
                  · exact (h.apart i z fh fhz hget hgetz (Ne.symm hi.1) _ hmem
                      (heq ▸ hokz.mem (heq ▸ hopen))).elim
          next => exact h

end Requests

/-! ## Runs -/

/-- Every cached offset that is not negative is the position of its descriptor. -/
def OffsetsAgree (t : FileTable) (k : Descs) : Prop :=
  ∀ fh ∈ t.handles, -1 < fh.fd → fh.is fhIsPipe = false → 0 ≤ fh.offd →
    ∀ pos, k fh.fd = some (.file pos) → fh.offd = pos

/-- A transfer through the descriptor of a file starts at an offset. -/
def StartsAt (offset : UInt32) (k : Descs) : FileCall → Prop
  | .read fd _ | .write fd _ _ => ∀ pos, k fd = some (.file pos) → pos = offset.toNat
  | _ => True

/-- Every transfer that a read or a write of a file makes starts at its offset. -/
def TransfersStart (cfg : FileConfig) (t : FileTable) (k : Descs) : Prop :=
  ∀ (i : Nat) fh, t.handles[i]? = some fh → fh.is fhIsPipe = false →
    (∀ size offset sigbus, Guards posKernel (StartsAt offset) k
      (nwReadFile cfg t (i + 1) size offset sigbus)) ∧
    ∀ data size offset, Guards posKernel (StartsAt offset) k
      (nwWriteFile cfg t (i + 1) data size offset)

theorem Agree.offsetsAgree {t : FileTable} {k : Descs} (h : Agree t k) : OffsetsAgree t k := by
  intro fh hmem hfd hpipe hnonneg pos hpos
  obtain ⟨i, hget⟩ := List.mem_iff_getElem?.mp hmem
  exact (h.ok i fh hget).agrees hpipe pos hpos hfd hnonneg

/-- What one request preserves. -/
theorem Agree.step {cfg : FileConfig} {t : FileTable} {k : Descs} (h : Agree t k)
    (e : FileRequest) :
    Ensures (bearing e) k ((fileSession cfg).handle t e) fun out k' => Agree out.2 k' := by
  cases e with
  | creatOpen e =>
      exact ensures_bind.mpr (((ensures_fileCreatOpen h e).of_kernel bearing_le).mono fun _ _ h => h)
  | close fhandle resetReuse task =>
      exact ensures_bind.mpr (((ensures_nwCloseFile h ..).of_kernel bearing_le).mono fun _ _ h => h)
  | freeTask task =>
      exact ensures_bind.mpr (((ensures_initFileModule h task).of_kernel bearing_le).mono
        fun _ _ h => h)
  | read fhandle size offset sigbus =>
      exact ensures_bind.mpr ((ensures_nwReadFile h ..).mono fun _ _ h => h)
  | write fhandle data size offset =>
      exact ensures_bind.mpr ((ensures_nwWriteFile h ..).mono fun _ _ h => h)
  | seek fhandle modus rand =>
      exact ensures_bind.mpr (((ensures_nwSeekFile h ..).of_kernel bearing_le).mono fun _ _ h => h)
  | serverCopy qfhandle qoffset zfhandle zoffset size =>
      exact ensures_bind.mpr (((ensures_nwServerCopy h ..).of_kernel bearing_le).mono
        fun _ _ h => h)

/-- A call that is no transfer. -/
def FileCall.Other : FileCall → Prop
  | .read .. | .write .. => False
  | _ => True

theorem guards_of_other {α : Type} {offset : UInt32} {k : Descs} {m : FileProg α}
    (h : Calls FileCall.Other m) : Guards posKernel (StartsAt offset) k m := by
  refine guards_of_calls (fun k c hc => ?_) h
  cases c <;> trivial

theorem seekOffset_other (fh : FileHandle) (offset : UInt32) :
    Calls FileCall.Other (seekOffset fh offset) := by
  unfold seekOffset
  split
  next => exact ⟨trivial, fun _ => trivial⟩
  next => trivial

theorem rwLck_other (cfg : FileConfig) (fh : FileHandle) (kind : LockKind) (offset : UInt32)
    (size : Int32) : Calls FileCall.Other (rwLck cfg fh kind offset size) :=
  (rwLck_quiet kind offset size).mono fun c hc => by cases c <;> trivial

theorem copyMapped_other (offset : UInt32) (sigbus : Nat) (fh : FileHandle) (size : Int32) :
    Calls FileCall.Other (copyMapped offset sigbus fh size) := by
  induction sigbus generalizing fh size with
  | zero =>
      unfold copyMapped
      split
      next => exact ⟨trivial, fun _ => trivial⟩
      next => trivial
  | succ sigbus ih =>
      unfold copyMapped
      split
      next => exact ⟨trivial, fun _ => ⟨trivial, fun _ => ih _ _⟩⟩
      next => trivial

section Starts

variable {cfg : FileConfig} {fh : FileHandle} {k : Descs}

/-- After the seek, and the look for locks, the descriptor stands at the offset. -/
theorem guards_sought {α : Type} (h : HandleOk fh k) (hfd : -1 < fh.fd)
    (hpipe : fh.is fhIsPipe = false) (offset : UInt32) {f : FileHandle → FileProg α}
    (hf : ∀ fh' k', fh'.fd = fh.fd →
      (-1 < fh'.offd → ∀ pos, k' fh'.fd = some (.file pos) → pos = offset.toNat) →
      Guards posKernel (StartsAt offset) k' (f fh')) :
    Guards posKernel (StartsAt offset) k (seekOffset fh offset >>= f) := by
  refine guards_bind.mpr ⟨guards_of_other (seekOffset_other fh offset), ?_⟩
  refine (ensures_seekOffset h hfd offset).mono ?_
  rintro _ k' ⟨⟨offd, rfl, hoffd⟩, hmoves⟩
  refine hf _ k' rfl fun hnonneg pos hpos => ?_
  have hagrees : offd = pos := hmoves.ok.agrees hpipe pos hpos hfd hnonneg
  exact Int.ofNat.inj (hagrees.symm.trans (hoffd hnonneg))

theorem guards_rwLck {α : Type} {kind : LockKind} {offset offset' : UInt32} {size : Int32}
    {f : Bool → FileProg α} (hf : ∀ ok, Guards posKernel (StartsAt offset) k (f ok)) :
    Guards posKernel (StartsAt offset) k (rwLck cfg fh kind offset' size >>= f) :=
  guards_bind.mpr ⟨guards_of_other (rwLck_other ..), ensures_rwLck kind offset' size hf⟩

theorem guards_readPlain (h : HandleOk fh k) (hfd : -1 < fh.fd) (hpipe : fh.is fhIsPipe = false)
    (size : Int32) (offset : UInt32) :
    Guards posKernel (StartsAt offset) k (readPlain cfg fh size offset) := by
  refine guards_sought h hfd hpipe offset fun fh' k' _ hpos => ?_
  split
  next hnonneg =>
    refine guards_rwLck fun ok => ?_
    split
    next =>
      refine ⟨hpos hnonneg, fun r _ _ => ?_⟩
      cases r <;> trivial
    next => trivial
  next => trivial

theorem guards_writePlain (h : HandleOk fh k) (hfd : -1 < fh.fd) (hpipe : fh.is fhIsPipe = false)
    (data : List UInt8) (size : Int32) (offset : UInt32) :
    Guards posKernel (StartsAt offset) k (writePlain cfg fh data size offset) := by
  refine guards_sought h hfd hpipe offset fun fh' k' _ hpos => ?_
  split
  next =>
    split
    next hnonneg =>
      refine guards_rwLck fun ok => ?_
      split
      next => exact ⟨hpos hnonneg, fun _ _ _ => trivial⟩
      next => trivial
    next => trivial
  next => exact ⟨trivial, fun _ _ _ => trivial⟩

end Starts

theorem Agree.transfersStart {cfg : FileConfig} {t : FileTable} {k : Descs} (h : Agree t k) :
    TransfersStart cfg t k := by
  intro i fh hget hpipe
  have hok := h.ok i fh hget
  have hstart : ∀ dowrite, startPipe fh dowrite = pure fh := fun dowrite =>
    if_neg (by rw [is_eq_false_of_plain hok hpipe]; decide)
  constructor
  · intro size offset sigbus
    simp only [nwReadFile, FileTable.find_succ, hget, Option.map_some, hstart, pure_eq, done_bind]
    split
    next hfd =>
      refine guards_bind.mpr ⟨?_, Ensures.mono (ensures_trivial _) fun _ _ _ => trivial⟩
      unfold readOpen
      rw [if_neg (by rw [hpipe]; decide)]
      split
      next =>
        refine guards_rwLck fun ok => ?_
        split
        next => exact guards_of_other (copyMapped_other ..)
        next => trivial
      next => exact guards_readPlain hok hfd hpipe size offset
    next => trivial
  · intro data size offset
    simp only [nwWriteFile, FileTable.find_succ, hget, Option.map_some, hstart, pure_eq, done_bind]
    split
    next hfd =>
      split
      next => trivial
      next =>
        rw [if_neg (by rw [hpipe]; decide)]
        exact guards_bind.mpr ⟨guards_writePlain hok hfd hpipe data size offset,
          Ensures.mono (ensures_trivial _) fun _ _ _ => trivial⟩
    next => trivial

/-- As long as no write fails at another offset than 0, and the end of a mapped file
is never looked up again while the descriptor stands elsewhere, the cached offsets
are right and every transfer starts where it was asked to. -/
theorem offsets_agree {cfg : FileConfig} {k₀ : Descs} {es : List (FileRequest × FileAnswer)}
    {t : FileTable} {k : Descs} (hrun : (fileSession cfg).Run bearing .init k₀ es t k) :
    OffsetsAgree t k ∧ TransfersStart cfg t k := by
  have hinit : Agree .init k₀ := ⟨by simp [FileTable.init], by simp [FileTable.init]⟩
  have hend : Agree t k := hrun.invariant (fun _ _ e h => h.step e) hinit
  exact ⟨hend.offsetsAgree, hend.transfersStart⟩

/-! ### A kernel that transfers nothing -/

/-- A seek in a file succeeds. -/
def idleSeek (k : Descs) (fd : Int) (n : Nat) : Option Nat × Descs :=
  match k fd with
  | some (.file _) => (some n, update k fd (some (.file n)))
  | _ => (none, k)

/-- A kernel on which every name is a file of 20 bytes: an open gives descriptor 5, and no
byte is transferred. -/
def idleKernel (k : Descs) : (c : FileCall) → c.Answer × Descs
  | .stat _ _ => (some ⟨.file, ⟨1, 1⟩, 0o100644, 20, 0, 0⟩, k)
  | .effRights _ _ _ => (0xff, k)
  | .effRightsExists _ _ _ _ => (0, k)
  | .attribDword _ _ _ => (0, k)
  | .shareFile _ _ _ => (0, k)
  | .open _ _ _ => if k 5 = none then (.fd 5, update k 5 (some (.file 0))) else (.failed, k)
  | .openCreat _ _ _ => (.failed, k)
  | .creat _ _ _ => (.failed, k)
  | .mkdir _ _ _ => (false, k)
  | .close fd => (true, update k fd none)
  | .lseek fd (.set n) => idleSeek k fd n
  | .lseek _ .atEnd => (none, k)
  | .read _ _ => (none, k)
  | .write _ _ _ => (none, k)
  | .ftruncate _ _ => (false, k)
  | .getlk _ _ _ _ => (none, k)
  | .mmap _ _ => (false, k)
  | .memcpy _ _ _ => ([], k)
  | .extPopen _ _ => (none, k)
  | .extPclose (a, b, c) => (0, update (update (update k a none) b none) c none)
  | .select _ => (0, k)
  | .time => (0, k)
  | .shareUnlockAll _ _ => ((), k)
  | .setArchiveBit _ _ _ => ((), k)
  | .chown _ => ((), k)
  | .chmod _ _ _ => ((), k)
  | .utime _ _ => ((), k)
  | .munmap _ => ((), k)

theorem idleKernel_posKernel (k : Descs) (c : FileCall) :
    posKernel k c (idleKernel k c).1 (idleKernel k c).2 := by
  cases c with
  | «open» path acm root =>
      unfold idleKernel
      split
      next hfree => exact ⟨hfree, .file 0, .inl rfl, rfl⟩
      next => rfl
  | lseek fd dest =>
      cases dest with
      | set n =>
          change posKernel k (.lseek fd (.set n)) (idleSeek k fd n).1 (idleSeek k fd n).2
          unfold idleSeek
          split
          next pos hpos => exact ⟨⟨pos, hpos⟩, fun m hm => SeekTo.set.inj hm, rfl⟩
          next => rfl
      | atEnd => rfl
  | _ => rfl

/-- A server that maps no files and does not look for locks. -/
def plainConfig : FileConfig := ⟨80, 0x100, false, fun _ => 0, fun _ => 3, fun _ => 0, fun _ => 0⟩

/-- Opening `/v/f` for reading and writing. -/
def openPlain : FileRequest := .creatOpen ⟨0, [0x2f, 0x76, 0x2f, 0x66], 3, 0, 0⟩

/-- One byte is to be written at an offset. -/
def writePlainAt (offset : UInt32) : FileRequest := .write 1 [0x41] 1 offset

/-- The run of two requests over a kernel that transfers nothing. -/
theorem idleRun {K : FileRequest → Kernel FileCall FileCall.Answer Descs} (e e' : FileRequest)
    (hK : ∀ k c, K e k c (idleKernel k c).1 (idleKernel k c).2)
    (hK' : ∀ k c, K e' k c (idleKernel k c).1 (idleKernel k c).2) :
    let first := exec idleKernel (fun _ => none) ((fileSession plainConfig).handle .init e)
    let second := exec idleKernel first.2 ((fileSession plainConfig).handle first.1.2 e')
    (fileSession plainConfig).Run K .init (fun _ => none) [(e, first.1.1), (e', second.1.1)]
      second.1.2 second.2 :=
  .cons (yields_exec hK _ _) (.cons (yields_exec hK' _ _) (.nil _ _))

theorem offsets_agree_write :
    let first := exec idleKernel (fun _ => none) ((fileSession plainConfig).handle .init openPlain)
    let second := exec idleKernel first.2
      ((fileSession plainConfig).handle first.1.2 (writePlainAt 0))
    OffsetsAgree second.1.2 second.2 ∧ TransfersStart plainConfig second.1.2 second.2 := by
  refine offsets_agree (idleRun openPlain (writePlainAt 0) (fun k c => ?_) fun k c => ?_)
  · exact ⟨idleKernel_posKernel k c, by cases c <;> trivial⟩
  · refine ⟨idleKernel_posKernel k c, ?_⟩
    cases c with
    | write fd data count => exact fun _ _ => .inl rfl
    | _ => trivial

/-- A write that fails at offset 10 leaves 9 as the cached offset of a descriptor
that stands at 10. -/
theorem not_offsets_agree :
    ¬∀ (cfg : FileConfig) (k₀ : Descs) (es : List (FileRequest × FileAnswer)) (t : FileTable)
      (k : Descs), (fileSession cfg).Run (fun _ => posKernel) .init k₀ es t k →
        OffsetsAgree t k ∧ TransfersStart cfg t k := by
  intro hall
  have hagree := (hall _ _ _ _ _ (idleRun openPlain (writePlainAt 10) idleKernel_posKernel
    idleKernel_posKernel)).1
  have hnine := hagree _ List.mem_cons_self (by decide) (by decide) (by decide) 10 (by decide)
  exact absurd hnine (by decide)

end MarsNwe
