import MarsNwe.Lib.ByteBuf
import MarsNwe.Lib.Calls
import MarsNwe.Lib.RingSearch
import MarsNwe.Tools

/-! # Queues and their jobs

The table of print queues that nwbind holds, and the list of jobs of one queue.
A pointer to a job is the place of the job in the list.
-/

namespace MarsNwe

/-! ## The code -/

/-- `INT_QUEUE_JOB`; the order of the list stands for `next`. -/
structure IntQueueJob where
  clientConnection : Int32
  clientTask : Int32
  clientId : UInt32
  entryTime : Int64
  targetId : UInt32
  executeTime : Int64
  jobId : Int32
  jobTyp : Int32
  jobPosition : Int32
  jobControlFlags : Int32
  serverStation : Int32
  serverTask : Int32
  serverId : UInt32
  jobDescription : ByteBuf 50
  fileEntryTime : Int64
  clientArea : ByteBuf 152
deriving DecidableEq

/-- The job is being filled by its client. -/
def IntQueueJob.actualQueued (qj : IntQueueJob) : Bool := qj.jobControlFlags &&& 0x20 ≠ 0

/-- `QUEUE_SERVER`. -/
structure QueueServer where
  connection : Int32
  userId : UInt32
deriving DecidableEq

/-- `NWE_QUEUE`. The counter `last_job_id` starts at 0 and is only ever moved on
inside 1 .. 999. -/
structure NweQueue where
  id : UInt32
  lastJobId : Fin 1000
  countJobs : Int32
  queueJobs : List IntQueueJob
  status : Int32
  changed : Int32
  queuedir : List UInt8
  queuedirDownshift : Bool
  qserver : Option QueueServer
deriving DecidableEq

/-- `nwe_queues`. -/
abbrev NweQueues := List NweQueue

/-- `new_queue` with the directory that its callers enter. -/
def newQueue (id : UInt32) (queuedir : List UInt8) (downshift : Bool) : NweQueue :=
  ⟨id, 0, 0, [], 0, 0, queuedir, downshift, none⟩

/-- `find_queue`. -/
def findQueue (queues : NweQueues) (id : UInt32) : Option (Fin queues.length) :=
  queues.findFinIdx? fun q => q.id == id

/-- `free_queue`. -/
def freeQueue (queues : NweQueues) (id : UInt32) : NweQueues :=
  queues.eraseP fun q => q.id == id

namespace NweQueue

/-- `verylastjobid`. -/
def verylastjobid (que : NweQueue) : Fin 1000 := if que.lastJobId = 0 then 1 else que.lastJobId

theorem verylastjobid_mem (que : NweQueue) :
    1 ≤ que.verylastjobid.val ∧ que.verylastjobid.val ≤ 999 := by
  have hlt := que.verylastjobid.isLt
  have hne : que.verylastjobid ≠ 0 := by
    unfold verylastjobid
    split
    next => decide
    next h => exact h
  have hpos : que.verylastjobid.val ≠ 0 := fun h => hne (Fin.ext h)
  omega

/-- Whether a job of the list has the number. -/
def jobIdUsed (que : NweQueue) (i : Nat) : Bool :=
  que.queueJobs.any fun qj => qj.jobId == Int32.ofNat i

/-- The search for the next job id. The inner loop passes over the id of the first
job, and the scan of the other jobs sends the outer one round again. -/
def nextJobId (que : NweQueue) : Option { i : Nat // 1 ≤ i ∧ i ≤ 999 } :=
  RingSearch.search 999 que.jobIdUsed que.verylastjobid que.lastJobId que.verylastjobid_mem
    (Nat.le_of_lt_succ que.lastJobId.isLt)

/-- Link a job behind the last one; a job that has no id gets `last_job_id`. -/
def link (que : NweQueue) (p : IntQueueJob) (position : Int32)
    (last : { i : Nat // 1 ≤ i ∧ i ≤ 999 }) : IntQueueJob × NweQueue :=
  let p := { p with
    jobPosition := position
    jobId := if p.jobId = 0 then Int32.ofNat last else p.jobId }
  (p, { que with
    lastJobId := ⟨last, Nat.lt_succ_of_le last.2.2⟩
    queueJobs := que.queueJobs ++ [p]
    changed := que.changed + 1
    countJobs := que.countJobs + 1 })

/-- `add_queue_job`; without a result `p` is freed. -/
def addQueueJob (que : NweQueue) (p : IntQueueJob) : Option IntQueueJob × NweQueue :=
  match que.queueJobs.getLast? with
  | none =>
      let (p, que) := que.link p 1
        ⟨RingSearch.next 999 que.lastJobId, RingSearch.next_mem que.verylastjobid_mem _⟩
      (some p, que)
  | some qj =>
      match que.nextJobId with
      | none => (none, { que with lastJobId := que.verylastjobid })
      | some last =>
          let (p, que) := que.link p (qj.jobPosition + 1) last
          (some p, que)

/-- The jobs behind a freed one move up. -/
def renumber (pos : Int32) : List IntQueueJob → List IntQueueJob
  | [] => []
  | qj :: qjs => { qj with jobPosition := pos } :: renumber (pos + 1) qjs

/-- Free a job that is not the first one. -/
def freeLater (jobId : Int32) : List IntQueueJob → Option (List IntQueueJob)
  | [] => none
  | qj :: qjs =>
      if qj.jobId = jobId then some (renumber qj.jobPosition qjs)
      else (freeLater jobId qjs).map (qj :: ·)

/-- The list without the first job of an id. -/
def freedJobs (jobId : Int32) : List IntQueueJob → Option (List IntQueueJob)
  | [] => none
  | qj :: qjs =>
      if qj.jobId = jobId then some (renumber 1 qjs)
      else (freeLater jobId qjs).map (qj :: ·)

/-- `free_queue_job`. -/
def freeQueueJob (que : NweQueue) (jobId : Int32) : NweQueue :=
  match freedJobs jobId que.queueJobs with
  | none => que
  | some jobs =>
      { que with queueJobs := jobs, changed := que.changed + 1, countJobs := que.countJobs - 1 }

/-- `find_queue_job`. -/
def findQueueJob (que : NweQueue) (jobId : Int32) : Option (Fin que.queueJobs.length) :=
  que.queueJobs.findFinIdx? fun qj => qj.jobId == jobId

/-- Write to a job of the list. -/
def setJob (que : NweQueue) (i : Nat) (qj : IntQueueJob) : NweQueue :=
  { que with queueJobs := que.queueJobs.set i qj }

/-! ## Freeing -/

variable {jobId : Int32} {qjs qjs' : List IntQueueJob} {que : NweQueue} {qj : IntQueueJob}

theorem length_renumber (pos : Int32) (qjs : List IntQueueJob) :
    (renumber pos qjs).length = qjs.length := by
  induction qjs generalizing pos with
  | nil => rfl
  | cons qj qjs ih => rw [renumber, List.length_cons, List.length_cons, ih]

/-- What does not depend on `job_position` is not changed. -/
theorem map_renumber {α : Type} {f : IntQueueJob → α}
    (hf : ∀ qj pos, f { qj with jobPosition := pos } = f qj) (pos : Int32)
    (qjs : List IntQueueJob) : (renumber pos qjs).map f = qjs.map f := by
  induction qjs generalizing pos with
  | nil => rfl
  | cons qj qjs ih => rw [renumber, List.map_cons, List.map_cons, ih, hf]

theorem mem_renumber {pos : Int32} (h : qj ∈ renumber pos qjs) :
    ∃ old ∈ qjs, ∃ pos', qj = { old with jobPosition := pos' } := by
  induction qjs generalizing pos with
  | nil => contradiction
  | cons qj₁ qjs ih =>
      rcases List.mem_cons.mp h with rfl | h
      · exact ⟨qj₁, List.mem_cons_self, pos, rfl⟩
      · obtain ⟨old, hmem, hold⟩ := ih h
        exact ⟨old, List.mem_cons_of_mem _ hmem, hold⟩

theorem freeLater_eq_some (h : freeLater jobId qjs = some qjs') :
    ∃ before qj after, qjs = before ++ qj :: after ∧ qj.jobId = jobId ∧
      (∀ b ∈ before, b.jobId ≠ jobId) ∧ qjs' = before ++ renumber qj.jobPosition after := by
  induction qjs generalizing qjs' with
  | nil => contradiction
  | cons qj qjs ih =>
      unfold freeLater at h
      split at h
      next heq =>
        obtain rfl := Option.some.inj h
        exact ⟨[], qj, qjs, rfl, heq, fun _ hb => (nomatch hb), rfl⟩
      next hne =>
        obtain ⟨rest, hrest, rfl⟩ := Option.map_eq_some_iff.mp h
        obtain ⟨before, qj', after, rfl, heq, hbefore, rfl⟩ := ih hrest
        refine ⟨qj :: before, qj', after, rfl, heq, ?_, rfl⟩
        rintro b (_ | ⟨_, hb⟩)
        · exact hne
        · exact hbefore b hb

theorem freeLater_eq_none (h : freeLater jobId qjs = none) : ∀ qj ∈ qjs, qj.jobId ≠ jobId := by
  induction qjs with
  | nil => exact fun _ hqj => (nomatch hqj)
  | cons qj qjs ih =>
      unfold freeLater at h
      split at h
      next => contradiction
      next hne =>
        rintro b (_ | ⟨_, hb⟩)
        · exact hne
        · exact ih (Option.map_eq_none_iff.mp h) b hb

/-- The first job of the id is taken out, and those behind it are numbered anew from 1
or from the number of that job. -/
theorem freedJobs_eq_some (h : freedJobs jobId qjs = some qjs') :
    ∃ before qj after, qjs = before ++ qj :: after ∧ qj.jobId = jobId ∧
      (∀ b ∈ before, b.jobId ≠ jobId) ∧
      qjs' = before ++ renumber (if before = [] then 1 else qj.jobPosition) after := by
  cases qjs with
  | nil => contradiction
  | cons qj qjs =>
      rw [freedJobs] at h
      split at h
      next heq =>
        obtain rfl := Option.some.inj h
        exact ⟨[], qj, qjs, rfl, heq, fun _ hb => (nomatch hb), rfl⟩
      next hne =>
        obtain ⟨rest, hrest, rfl⟩ := Option.map_eq_some_iff.mp h
        obtain ⟨before, qj', after, rfl, heq, hbefore, rfl⟩ := freeLater_eq_some hrest
        refine ⟨qj :: before, qj', after, rfl, heq, ?_, rfl⟩
        rintro b (_ | ⟨_, hb⟩)
        · exact hne
        · exact hbefore b hb

theorem freedJobs_eq_none (h : freedJobs jobId qjs = none) : ∀ qj ∈ qjs, qj.jobId ≠ jobId := by
  cases qjs with
  | nil => exact fun _ hqj => (nomatch hqj)
  | cons qj qjs =>
      rw [freedJobs] at h
      split at h
      next => contradiction
      next hne =>
        rintro b (_ | ⟨_, hb⟩)
        · exact hne
        · exact freeLater_eq_none (Option.map_eq_none_iff.mp h) b hb

/-- Freeing touches only the list and its counts. -/
theorem freeQueueJob_eq (que : NweQueue) (jobId : Int32) :
    ∃ jobs changed count, que.freeQueueJob jobId =
      { que with queueJobs := jobs, changed := changed, countJobs := count } := by
  unfold freeQueueJob
  split
  next => exact ⟨_, _, _, rfl⟩
  next => exact ⟨_, _, _, rfl⟩

theorem mem_freeQueueJob (h : qj ∈ (que.freeQueueJob jobId).queueJobs) :
    ∃ old ∈ que.queueJobs, ∃ pos, qj = { old with jobPosition := pos } := by
  unfold freeQueueJob at h
  split at h
  next => exact ⟨qj, h, qj.jobPosition, rfl⟩
  next jobs hjobs =>
    obtain ⟨before, freed, after, hlist, -, -, rfl⟩ := freedJobs_eq_some hjobs
    rw [hlist]
    rcases List.mem_append.mp h with hqj | hqj
    · exact ⟨qj, List.mem_append_left _ hqj, qj.jobPosition, rfl⟩
    · obtain ⟨old, hold, hpos⟩ := mem_renumber hqj
      exact ⟨old, List.mem_append_right _ (List.mem_cons_of_mem _ hold), hpos⟩

/-- Freeing a job of the list makes less of every count of jobs. -/
theorem countP_freeQueueJob {p : IntQueueJob → Bool}
    (hp : ∀ qj pos, p { qj with jobPosition := pos } = p qj) (hmem : qj ∈ que.queueJobs) :
    (que.freeQueueJob qj.jobId).queueJobs.length + 1 = que.queueJobs.length ∧
      (que.freeQueueJob qj.jobId).queueJobs.countP p ≤ que.queueJobs.countP p := by
  unfold freeQueueJob
  split
  next hnone => exact absurd rfl (freedJobs_eq_none hnone qj hmem)
  next jobs hjobs =>
    obtain ⟨before, freed, after, hlist, -, -, rfl⟩ := freedJobs_eq_some hjobs
    have hcount : ∀ pos, (renumber pos after).countP p = after.countP p := fun pos => by
      have hmap := congrArg (List.countP fun b => b) (map_renumber hp pos after)
      rwa [List.countP_map, List.countP_map] at hmap
    constructor
    · simp [hlist, length_renumber, Nat.add_assoc]
    · simp [hlist, List.countP_append, List.countP_cons, hcount]

end NweQueue

end MarsNwe
