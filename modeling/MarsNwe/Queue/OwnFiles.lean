import MarsNwe.Queue.ConnJobs

/-! # Whose file a queue job closes

While no open is handed the slot of a handle that a job in the list names, the slot
holds what was opened for the job, whatever else the connection asks for, and closing
the job closes no other file. A job that is serviced does not keep its slot from being
handed out once the client has closed the handle.
-/

namespace MarsNwe

open Prog Function

variable {cfg : FileConfig} {s s' : ConnQueue}

/-- The handle that is closed is that of a file opened for the job, or it is not open. -/
def JobClose.Own (c : JobClose) : Prop :=
  ∀ i fh, c.table.find c.job.fhandle = some (i, fh) → -1 < fh.fd ∨ fh.fd = -3 →
    c.opener i = some c.job.cell

/-- The open is handed no slot that a job in the list names. -/
def SparesJobs (cfg : FileConfig) (s : ConnQueue) (e : OpenRequest) : Prop :=
  ∀ new, newFileHandle cfg s.table e.volume e.unixname e.task = some new →
    ∀ jo ∈ s.jobs, jo.fhandle ≠ new.1 + 1

/-- The opens of a request are handed no slot that a job in the list names. -/
def OpensSpareJobs (cfg : FileConfig) (s : ConnQueue) : ConnRequest → Prop
  | .ordinary (.file (.creatOpen e)) => SparesJobs cfg s e
  | .creat _ _ _ _ (some (volume, unixname)) =>
      SparesJobs cfg s (QueueOpen.creat.request volume unixname)
  | .service _ _ _ _ (some (volume, unixname)) =>
      SparesJobs cfg s (QueueOpen.ro.request volume unixname)
  | _ => True

/-- Every handle that a job of the list names was opened for the job last. -/
def NamesOwn (jobs : List ConnJob) (opener : Nat → Option Nat) : Prop :=
  ∀ jo ∈ jobs, ∀ i : Nat, jo.fhandle = i + 1 → opener i = some jo.cell

/-- The answer closes files of its own jobs, and the jobs in the list name theirs. -/
def ClosesOwnFiles (out : ConnAnswer × ConnQueue) : Prop :=
  (∀ c ∈ out.1.closes, c.Own) ∧ NamesOwn out.2.jobs out.2.opener

namespace NamesOwn

variable {jobs jobs' : List ConnJob} {opener : Nat → Option Nat}

theorem own (h : NamesOwn jobs opener) {jo : ConnJob} (hmem : jo ∈ jobs) (t : FileTable) :
    JobClose.Own ⟨jo, t, opener⟩ := by
  intro i fh hfind _
  exact h jo hmem i (FileTable.find_eq_some hfind).1

theorem subset (h : NamesOwn jobs opener) (hsub : jobs' ⊆ jobs) : NamesOwn jobs' opener :=
  fun jo hmem => h jo (hsub hmem)

theorem freeQueueJob (h : NamesOwn jobs opener) (queueId : UInt32) (jobId : Int) :
    NamesOwn (MarsNwe.freeQueueJob queueId jobId jobs) opener :=
  h.subset List.eraseP_subset

/-- A handle that no job names is opened for another purpose. -/
theorem update (h : NamesOwn jobs opener) {i : Nat} (hspare : ∀ jo ∈ jobs, jo.fhandle ≠ i + 1)
    (cell : Option Nat) : NamesOwn jobs (update opener i cell) := by
  intro jo hmem j hj
  have hne : j ≠ i := by
    rintro rfl
    exact hspare jo hmem hj
  rw [update_of_ne hne]
  exact h jo hmem j hj

theorem append (h : NamesOwn jobs opener) {jo : ConnJob}
    (hjo : ∀ i : Nat, jo.fhandle = i + 1 → opener i = some jo.cell) :
    NamesOwn (jobs ++ [jo]) opener := by
  intro jo' hmem
  rcases List.mem_append.mp hmem with hold | hnew
  · exact h jo' hold
  · rw [List.mem_singleton.mp hnew]
    exact hjo

/-- A job without a handle is listed. -/
theorem append_zero (h : NamesOwn jobs opener) {jo : ConnJob} (hzero : jo.fhandle = 0) :
    NamesOwn (jobs ++ [jo]) opener := by
  apply h.append
  intro i hi
  omega

end NamesOwn

/-! ## The requests -/

/-- The handle of the slot that an open is handed. -/
def Handed (cfg : FileConfig) (t : FileTable) (e : OpenRequest) (result : Int) : Prop :=
  ∃ new, newFileHandle cfg t e.volume e.unixname e.task = some new ∧ result = (new.1 : Int) + 1

theorem OpensAt.handed {t t' : FileTable} {e : OpenRequest} {result : Int}
    (h : OpensAt cfg t e result t') (hopen : -1 < result) : Handed cfg t e result := by
  apply h.result
  rcases h with ⟨hneg, -⟩ | h
  · omega
  · split at h
    next => omega
    next =>
      obtain ⟨-, -, -, ⟨hneg, -⟩ | hresult⟩ := h
      · omega
      · omega

/-- The result of an open for a job: an error, or the handle of the slot it is handed. -/
theorem returns_openCreatQueueFile {mode : QueueOpen} {volume : Int} {unixname : List UInt8}
    {t : FileTable} :
    Returns (fun out => -1 < out.1 → Handed cfg t (mode.request volume unixname) out.1)
      (openCreatQueueFile cfg t mode (some (volume, unixname))) := by
  unfold openCreatQueueFile
  dsimp only
  rw [returns_bind]
  refine returns_fileCreatOpen.mono fun out hopens => ?_
  refine .ite (fun _ herror => ?_) fun _ => ?_
  · exact absurd (show (-1 : Int) < -0xff from herror) (by decide)
  · exact .ite (fun _ => returns_ask_bind.mpr fun _ => hopens.handed) fun _ => hopens.handed

theorem NamesOwn.openQueueJob (h : NamesOwn s.jobs s.opener) (mode : QueueOpen) (oldCall : Bool)
    (task : Int) (queueId : UInt32) (jobId : Int) {path : Option (Int × List UInt8)}
    (hspare : ∀ volume unixname, path = some (volume, unixname) →
      SparesJobs cfg s (mode.request volume unixname)) :
    Returns ClosesOwnFiles (MarsNwe.openQueueJob cfg s mode oldCall task queueId jobId path) := by
  have hnone : ∀ c ∈ ([] : List JobClose), c.Own := fun _ hc => absurd hc List.not_mem_nil
  have hresult : Returns (fun out => -1 < out.1 → ∃ volume unixname,
      path = some (volume, unixname) ∧ Handed cfg s.table (mode.request volume unixname) out.1)
      (openCreatQueueFile cfg s.table mode path) := by
    cases path with
    | none =>
        intro herror
        exact absurd (show (-1 : Int) < -0xff from herror) (by decide)
    | some at' =>
        refine returns_openCreatQueueFile.mono fun out hout hopen => ?_
        exact ⟨at'.1, at'.2, rfl, hout hopen⟩
  unfold MarsNwe.openQueueJob
  dsimp only
  rw [returns_bind]
  refine hresult.mono fun out hout => ?_
  refine .ite (fun hopen => ⟨hnone, ?_⟩) fun _ => ⟨hnone, ?_⟩
  · obtain ⟨volume, unixname, hpath, new, hnew, hhandle⟩ := hout hopen
    have hindex : (out.1 - 1).toNat = new.1 := by omega
    rw [hindex]
    apply (h.update (hspare volume unixname hpath new hnew) _).append
    intro i hi
    have hi' : i = new.1 := by
      dsimp only at hi
      omega
    rw [hi', update_self]
  · exact (h.append_zero rfl).freeQueueJob queueId jobId

/-- Closing the file of a job leaves the jobs as they are. -/
theorem returns_closeJobFile (jo : ConnJob) (resetReuse : Bool) :
    Returns (fun out => out.1 = ⟨jo, s.table, s.opener⟩ ∧ out.2.jobs = s.jobs ∧
      out.2.opener = s.opener) (closeJobFile cfg s jo resetReuse) := by
  unfold closeJobFile
  rw [returns_bind]
  exact (Returns.trivial _).mono fun _ _ => ⟨rfl, rfl, rfl⟩

theorem NamesOwn.closeJobFile (h : NamesOwn s.jobs s.opener) {jo : ConnJob} (hmem : jo ∈ s.jobs)
    (resetReuse : Bool) {result : Int} {jobs : List ConnJob → List ConnJob}
    (hjobs : ∀ l, jobs l ⊆ l) :
    Returns ClosesOwnFiles (MarsNwe.closeJobFile cfg s jo resetReuse >>= fun out =>
      pure (⟨result, none, 0, [out.1]⟩, { out.2 with jobs := jobs out.2.jobs })) := by
  rw [returns_bind]
  refine (returns_closeJobFile jo resetReuse).mono fun out hout => ?_
  obtain ⟨hclose, hlist, hopener⟩ := hout
  constructor
  · rw [hclose]
    exact List.forall_mem_singleton.mpr (h.own hmem s.table)
  · dsimp only
    rw [hlist, hopener]
    exact h.subset (hjobs s.jobs)

theorem mem_of_findQueueJob {queueId : UInt32} {jobId : Int} {jobs : List ConnJob} {jo : ConnJob}
    (h : findQueueJob queueId jobId jobs = some jo) : jo ∈ jobs :=
  List.mem_of_find?_eq_some h

theorem freeQueueJob_subset (queueId : UInt32) (jobId : Int) (jobs : List ConnJob) :
    freeQueueJob queueId jobId jobs ⊆ jobs :=
  List.eraseP_subset

theorem closesOwnFiles_unchanged (h : NamesOwn s.jobs s.opener) (result : Int) :
    ClosesOwnFiles (⟨result, none, 0, []⟩, s) :=
  ⟨fun _ hc => absurd hc List.not_mem_nil, h⟩

theorem NamesOwn.closeQueueJob (h : NamesOwn s.jobs s.opener) (queueId : UInt32) (jobId : Int) :
    Returns ClosesOwnFiles (MarsNwe.closeQueueJob cfg s queueId jobId) := by
  unfold MarsNwe.closeQueueJob
  split
  next => exact closesOwnFiles_unchanged h _
  next jo hfind =>
    exact h.closeJobFile (mem_of_findQueueJob hfind) false fun l => List.Subset.refl l

theorem NamesOwn.closeQueueJob2 (h : NamesOwn s.jobs s.opener) (queueId : UInt32) (jobId : Int)
    (prcLen : Nat) (printed : Bool) :
    Returns ClosesOwnFiles (MarsNwe.closeQueueJob2 cfg s queueId jobId prcLen printed) := by
  unfold MarsNwe.closeQueueJob2
  split
  next => exact closesOwnFiles_unchanged h _
  next jo hfind =>
    have hmem := mem_of_findQueueJob hfind
    have hfree := freeQueueJob_subset queueId jobId
    refine .ite (fun _ => .ite (fun _ => ?_) fun _ => ?_) fun _ => ?_
    · exact h.closeJobFile hmem true hfree
    · exact ⟨fun _ hc => absurd hc List.not_mem_nil, h.subset (hfree s.jobs)⟩
    · exact h.closeJobFile hmem true hfree

theorem NamesOwn.finishAbortQueueJob (h : NamesOwn s.jobs s.opener) (queueId : UInt32)
    (jobId : Int) : Returns ClosesOwnFiles (MarsNwe.finishAbortQueueJob cfg s queueId jobId) := by
  unfold MarsNwe.finishAbortQueueJob
  split
  next => exact closesOwnFiles_unchanged h _
  next jo hfind =>
    exact h.closeJobFile (mem_of_findQueueJob hfind) false (freeQueueJob_subset queueId jobId)

/-- The jobs of a task close their own files, and the others are left. -/
theorem NamesOwn.freeConnectionTaskJobs (task : Int) {opener : Nat → Option Nat}
    {jobs : List ConnJob} (h : NamesOwn jobs opener) (t : FileTable) :
    Returns (fun out => (∀ c ∈ out.1, c.Own) ∧ out.2.1 ⊆ jobs)
      (MarsNwe.freeConnectionTaskJobs cfg task opener jobs t) := by
  induction jobs generalizing t with
  | nil => exact ⟨fun _ hc => absurd hc List.not_mem_nil, List.Subset.refl _⟩
  | cons jo jobs ih =>
      have hrest : NamesOwn jobs opener := h.subset (List.subset_cons_self jo jobs)
      unfold MarsNwe.freeConnectionTaskJobs
      refine .ite (fun _ => ?_) fun _ => ?_
      · rw [returns_bind]
        refine (Returns.trivial _).mono fun closed _ => ?_
        rw [returns_bind]
        refine (ih hrest closed.2).mono fun out hout => ?_
        constructor
        · exact List.forall_mem_cons.mpr ⟨h.own List.mem_cons_self t, hout.1⟩
        · exact List.Subset.trans hout.2 (List.subset_cons_self jo jobs)
      · rw [returns_bind]
        refine (ih hrest t).mono fun out hout => ?_
        exact ⟨hout.1, List.cons_subset_cons jo hout.2⟩

theorem NamesOwn.endOfJob (h : NamesOwn s.jobs s.opener) (task : Int) :
    Returns ClosesOwnFiles (MarsNwe.endOfJob cfg s task) := by
  have hjobs : Returns (fun out => (∀ c ∈ out.1, c.Own) ∧ out.2.1 ⊆ s.jobs)
      (endTaskJobs cfg s task) := by
    refine .ite (fun _ => ⟨?_, List.Subset.refl _⟩) fun _ => h.freeConnectionTaskJobs task s.table
    exact fun _ hc => absurd hc List.not_mem_nil
  unfold MarsNwe.endOfJob
  rw [returns_bind]
  refine hjobs.mono fun out hout => ?_
  obtain ⟨closes, jobs, table⟩ := out
  dsimp only
  rw [returns_bind]
  exact (Returns.trivial _).mono fun _ _ => ⟨hout.1, h.subset hout.2⟩

theorem closesOwnFiles_logoutJobs : Returns ClosesOwnFiles (logoutJobs cfg s) := by
  unfold logoutJobs
  rw [returns_bind]
  refine (Returns.trivial _).mono fun _ _ => ?_
  exact ⟨fun _ hc => absurd hc List.not_mem_nil, fun jo hmem => absurd hmem List.not_mem_nil⟩

/-- An ordinary request changes what a handle was opened for only where it opens one. -/
theorem NamesOwn.ordinaryRequest (h : NamesOwn s.jobs s.opener) {e : HandleRequest}
    (hspare : OpensSpareJobs cfg s (.ordinary e)) :
    Returns ClosesOwnFiles (MarsNwe.ordinaryRequest cfg s e) := by
  have hnone : ∀ c ∈ ([] : List JobClose), c.Own := fun _ hc => absurd hc List.not_mem_nil
  unfold MarsNwe.ordinaryRequest
  rw [returns_bind]
  cases e with
  | setFdateTime fhandle time => exact ⟨hnone, h⟩
  | file e =>
      cases e with
      | creatOpen e =>
          have hopens : Returns (fun out => -1 < out.1.result → Handed cfg s.table e out.1.result)
              ((handleSession cfg).handle s.table (.file (.creatOpen e))) := by
            change Returns _ (fileCreatOpen cfg s.table e >>= _)
            rw [returns_bind]
            exact returns_fileCreatOpen.mono fun out hopens => hopens.handed
          refine hopens.mono fun out hout => ⟨hnone, ?_⟩
          dsimp only
          split
          next hpos =>
            obtain ⟨new, hnew, hhandle⟩ := hout (by omega)
            have hindex : (out.1.result - 1).toNat = new.1 := by omega
            rw [hindex]
            exact h.update (hspare new hnew) none
          next => exact h
      | _ => exact (Returns.trivial _).mono fun _ _ => ⟨hnone, h⟩

theorem NamesOwn.handle (h : NamesOwn s.jobs s.opener) {e : ConnRequest}
    (hspare : OpensSpareJobs cfg s e) :
    Returns ClosesOwnFiles ((connJobSession cfg).handle s e) := by
  cases e with
  | ordinary e => exact h.ordinaryRequest hspare
  | creat oldCall task queueId jobId path =>
      apply h.openQueueJob
      rintro volume unixname rfl
      exact hspare
  | service oldCall task queueId jobId path =>
      apply h.openQueueJob
      rintro volume unixname rfl
      exact hspare
  | close queueId jobId => exact h.closeQueueJob queueId jobId
  | close2 queueId jobId prcLen printed => exact h.closeQueueJob2 queueId jobId prcLen printed
  | finishAbort queueId jobId => exact h.finishAbortQueueJob queueId jobId
  | endOfJob task => exact h.endOfJob task
  | logout => exact closesOwnFiles_logoutJobs

/-! ## Runs -/

/-- In a run in which no open is handed a slot that a job in the list names, a job closes
the file that was opened for it, or none. -/
theorem job_closes_own {κ : Type} {K : ConnRequest → Kernel FileCall FileCall.Answer κ} {k k' : κ}
    {es : List (ConnRequest × ConnAnswer)}
    (hrun : (connJobSession cfg).RunAlong K (OpensSpareJobs cfg) .init k es s k') :
    ∀ p ∈ es, ∀ c ∈ p.2.closes, c.Own := by
  have hstart : NamesOwn ConnQueue.init.jobs ConnQueue.init.opener :=
    fun _ hmem => absurd hmem List.not_mem_nil
  have hstep (s : ConnQueue) (e : ConnRequest) (h : NamesOwn s.jobs s.opener)
      (hspare : OpensSpareJobs cfg s e) :
      Returns ClosesOwnFiles ((connJobSession cfg).handle s e) :=
    h.handle hspare
  exact (hrun.answers (I := fun s => NamesOwn s.jobs s.opener)
    (Q := fun a => ∀ c ∈ a.closes, c.Own) hstep hstart).1

/-- `/v/f` -/
def jobFile : Option (Int × List UInt8) := some (0, [0x2f, 0x76, 0x2f, 0x66])

/-- Opening `/v/g` and closing it. -/
def openOther : ConnRequest :=
  .ordinary (.file (.creatOpen ⟨0, [0x2f, 0x76, 0x2f, 0x67], 3, 0, 1⟩))

def closeOther (fhandle : Int) : ConnRequest := .ordinary (.file (.close fhandle false 1))

/-- A job is serviced, another file is opened and read, and the job is finished. -/
def finishedRequests : List ConnRequest :=
  [.service false 1 7 1 jobFile, openOther, closeOther 2, .finishAbort 7 1]

/-- The job closes its own file and no other. -/
theorem job_closes_own_finished :
    let run := (connJobSession plainConfig).execRun idleKernel .init (fun _ => none) finishedRequests
    (run.1.map fun p => p.2.closes.map fun c => c.job.fhandle) = [[], [], [], [1]] ∧
      ∀ p ∈ run.1, ∀ c ∈ p.2.closes, c.Own := by
  intro run
  have hspare : ∀ jo ∈ (exec idleKernel (fun _ => none) ((connJobSession plainConfig).handle .init
      (.service false 1 7 1 jobFile))).1.2.jobs, jo.fhandle = 1 := by decide +kernel
  have hsecond : ∀ new ∈ newFileHandle plainConfig (exec idleKernel (fun _ => none)
      ((connJobSession plainConfig).handle .init (.service false 1 7 1 jobFile))).1.2.table 0
      [0x2f, 0x76, 0x2f, 0x67] 1, new.1 = 1 := by decide +kernel
  have hok : (connJobSession plainConfig).ExecAlong idleKernel (OpensSpareJobs plainConfig) .init
      (fun _ => none) finishedRequests := by
    refine ⟨fun _ _ _ hmem => absurd hmem List.not_mem_nil, fun new hnew jo hjo => ?_, trivial,
      trivial, trivial⟩
    rw [hspare jo hjo, hsecond new hnew]
    decide
  exact ⟨by decide +kernel,
    job_closes_own (Session.runAlong_execRun (fun _ => idleKernel_posKernel) hok)⟩

/-- The client of a serviced job closes its file, fills the table and opens another file,
which gets the handle of the job. -/
def reusedRequests : List ConnRequest :=
  .service false 1 7 1 jobFile :: closeOther 1 ::
    (List.range 79).flatMap (fun n => [openOther, closeOther (n + 2)]) ++
      [openOther, .finishAbort 7 1]

instance (c : JobClose) : Decidable c.Own :=
  match h : c.table.find c.job.fhandle with
  | none => .isTrue fun i fh hfind => absurd (h.symm.trans hfind) (Option.some_ne_none _).symm
  | some (i, fh) =>
      decidable_of_iff (-1 < fh.fd ∨ fh.fd = -3 → c.opener i = some c.job.cell) (by
        constructor
        · intro hown i' fh' hfind
          obtain ⟨rfl, rfl⟩ := Prod.mk.inj (Option.some.inj (h.symm.trans hfind))
          exact hown
        · intro hown
          exact hown i fh h)

/-- Finishing the job closes the other file. -/
theorem not_job_closes_own :
    ¬∀ (cfg : FileConfig) (κ : Type) (K : ConnRequest → Kernel FileCall FileCall.Answer κ)
      (k k' : κ) (es : List (ConnRequest × ConnAnswer)) (s : ConnQueue),
      (connJobSession cfg).Run K .init k es s k' → ∀ p ∈ es, ∀ c ∈ p.2.closes, c.Own := by
  intro hall
  have hown := hall plainConfig Descs (fun _ => posKernel) _ _ _ _
    (Session.run_execRun (fun _ => idleKernel_posKernel) ConnQueue.init (fun _ => none)
      reusedRequests)
  revert hown
  decide +kernel

end MarsNwe
