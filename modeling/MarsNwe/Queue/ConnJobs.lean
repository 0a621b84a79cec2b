import MarsNwe.File.Slots

/-! # The queue jobs of a connection

A connection keeps a list of the jobs it creates or services, each with the number of
the handle under which its file was opened. The number is all a job knows of its file:
which file it names is decided by the handle table when the job is closed.
-/

namespace MarsNwe

open Prog Function

/-! ## The code -/

/-- `INT_QUEUE_JOB` in the list `queue_jobs` of a connection. `cell` tells the jobs of the
list apart, as their places in memory do. -/
structure ConnJob where
  queueId : UInt32
  jobId : Int
  fhandle : Int
  task : Int
  cell : Nat
deriving DecidableEq

/-- The handle table and the jobs of a connection. `opener` is not kept by the code: it
tells for each index of the table the job for which the handle was opened last, if it
was opened for one. -/
structure ConnQueue where
  table : FileTable
  jobs : List ConnJob
  cells : Nat
  opener : Nat → Option Nat

def ConnQueue.init : ConnQueue := ⟨.init, [], 0, fun _ => none⟩

/-- A call of `nw_close_file` for a job: the job, and the handle table before the call. -/
structure JobClose where
  job : ConnJob
  table : FileTable
  opener : Nat → Option Nat

/-- `queue_id` and `job_id` are those of the job. -/
def ConnJob.is (queueId : UInt32) (jobId : Int) (j : ConnJob) : Bool :=
  j.queueId == queueId && j.jobId == jobId

/-- `free_queue_job` -/
def freeQueueJob (queueId : UInt32) (jobId : Int) (jobs : List ConnJob) : List ConnJob :=
  jobs.eraseP (ConnJob.is queueId jobId)

/-- `find_queue_job` -/
def findQueueJob (queueId : UInt32) (jobId : Int) (jobs : List ConnJob) : Option ConnJob :=
  jobs.find? (ConnJob.is queueId jobId)

/-- `mode` of `open_creat_queue_file`. -/
inductive QueueOpen where
  | creat
  | ro
  | rw
deriving DecidableEq

/-- The open that `open_creat_queue_file` makes. Only for reading the handle may be used
again as soon as it is closed. -/
def QueueOpen.request (volume : Int) (unixname : List UInt8) : QueueOpen → OpenRequest
  | .creat => ⟨volume, unixname, 0x6, 0xd, 0⟩
  | .ro => ⟨volume, unixname, 0x9, 0x8, 0⟩
  | .rw => ⟨volume, unixname, 0x6, 0xc, 0⟩

/-- `open_creat_queue_file`. `path` is the volume and the name that the directory and the
file name of the job stand for, if they stand for any. -/
def openCreatQueueFile (cfg : FileConfig) (t : FileTable) (mode : QueueOpen)
    (path : Option (Int × List UInt8)) : FileProg (Int × FileTable) :=
  match path with
  | none => pure (-0xff, t)
  | some (volume, unixname) => do
      let ((result, _), t) ← fileCreatOpen cfg t (mode.request volume unixname)
      if result < 0 then pure (-0xff, t)
      else if mode = .creat then
        Sys.chmod unixname false 0o600
        pure (result, t)
      else pure (result, t)

/-- The answer to a request: a result, the answer of an ordinary request, the handle of a
job, and the calls of `nw_close_file` that were made for jobs. -/
structure ConnAnswer where
  result : Int
  file : Option FileAnswer
  fhandle : Int
  closes : List JobClose

/-- `creat_queue_job` and `service_queue_job`, which differ in the `mode` of the open. The
data of an answer end with the handle and the server. -/
def openQueueJob (cfg : FileConfig) (s : ConnQueue) (mode : QueueOpen) (oldCall : Bool) (task : Int)
    (queueId : UInt32) (jobId : Int) (path : Option (Int × List UInt8)) :
    FileProg (ConnAnswer × ConnQueue) := do
  let jo : ConnJob := ⟨queueId, jobId, 0, task, s.cells⟩
  let (result, table) ← openCreatQueueFile cfg s.table mode path
  if -1 < result then
    pure (⟨if oldCall then 54 else 78, none, result, []⟩,
      { table, jobs := s.jobs ++ [{ jo with fhandle := result }], cells := s.cells + 1
        opener := update s.opener (result - 1).toNat (some jo.cell) })
  else
    pure (⟨result, none, 0, []⟩,
      { s with table, jobs := freeQueueJob queueId jobId (s.jobs ++ [jo]), cells := s.cells + 1 })

/-- `creat_queue_job` -/
def creatQueueJob (cfg : FileConfig) (s : ConnQueue) (oldCall : Bool) (task : Int)
    (queueId : UInt32) (jobId : Int) (path : Option (Int × List UInt8)) :
    FileProg (ConnAnswer × ConnQueue) :=
  openQueueJob cfg s .creat oldCall task queueId jobId path

/-- `service_queue_job` -/
def serviceQueueJob (cfg : FileConfig) (s : ConnQueue) (oldCall : Bool) (task : Int)
    (queueId : UInt32) (jobId : Int) (path : Option (Int × List UInt8)) :
    FileProg (ConnAnswer × ConnQueue) :=
  openQueueJob cfg s .ro oldCall task queueId jobId path

/-- The file of a job is closed. -/
def closeJobFile (cfg : FileConfig) (s : ConnQueue) (jo : ConnJob) (resetReuse : Bool) :
    FileProg (JobClose × ConnQueue) := do
  let (_, table) ← nwCloseFile cfg s.table jo.fhandle resetReuse jo.task
  pure (⟨jo, s.table, s.opener⟩, { s with table })

/-- `close_queue_job`: the job stays in the list. -/
def closeQueueJob (cfg : FileConfig) (s : ConnQueue) (queueId : UInt32) (jobId : Int) :
    FileProg (ConnAnswer × ConnQueue) :=
  match findQueueJob queueId jobId s.jobs with
  | none => pure (⟨-0xff, none, 0, []⟩, s)
  | some jo => do
      let (close, s) ← closeJobFile cfg s jo false
      pure (⟨0, none, 0, [close]⟩, s)

/-- `file_get_unix_name` -/
def fileGetUnixName (t : FileTable) (fhandle : Int) : List UInt8 :=
  match t.find fhandle with
  | some (_, fh) => fh.fname
  | none => []

/-- `close_queue_job2`. `printed` tells whether the file could be read and was taken by the
print command, of `prcLen` bytes. -/
def closeQueueJob2 (cfg : FileConfig) (s : ConnQueue) (queueId : UInt32) (jobId : Int)
    (prcLen : Nat) (printed : Bool) : FileProg (ConnAnswer × ConnQueue) :=
  match findQueueJob queueId jobId s.jobs with
  | none => pure (⟨-0xff, none, 0, []⟩, s)
  | some jo =>
      let free (s : ConnQueue) : ConnQueue :=
        { s with jobs := freeQueueJob queueId jobId s.jobs }
      if prcLen ≠ 0 then
        if (fileGetUnixName s.table jo.fhandle).take 299 ≠ [] then do
          -- the handle that is set to 0 after this is that of the job to be freed
          let (close, s) ← closeJobFile cfg s jo true
          pure (⟨if printed then 0 else -0xff, none, 0, [close]⟩, free s)
        else pure (⟨-0xff, none, 0, []⟩, free s)
      else do
        let (close, s) ← closeJobFile cfg s jo true
        pure (⟨0, none, 0, [close]⟩, free s)

/-- `finish_abort_queue_job` -/
def finishAbortQueueJob (cfg : FileConfig) (s : ConnQueue) (queueId : UInt32) (jobId : Int) :
    FileProg (ConnAnswer × ConnQueue) :=
  match findQueueJob queueId jobId s.jobs with
  | none => pure (⟨-0xff, none, 0, []⟩, s)
  | some jo => do
      let (close, s) ← closeJobFile cfg s jo false
      pure (⟨0, none, 0, [close]⟩, { s with jobs := freeQueueJob queueId jobId s.jobs })

/-- `free_connection_task_jobs`: each time the first job of the task is taken out of the
list, so they are met in the order of the list. -/
def freeConnectionTaskJobs (cfg : FileConfig) (task : Int) (opener : Nat → Option Nat) :
    List ConnJob → FileTable → FileProg (List JobClose × List ConnJob × FileTable)
  | [], t => pure ([], [], t)
  | jo :: jobs, t =>
      if jo.task = task then do
        let (_, t') ← nwCloseFile cfg t jo.fhandle true task
        let (closes, jobs, t') ← freeConnectionTaskJobs cfg task opener jobs t'
        pure (⟨jo, t, opener⟩ :: closes, jobs, t')
      else do
        let (closes, jobs, t) ← freeConnectionTaskJobs cfg task opener jobs t
        pure (closes, jo :: jobs, t)

/-- The jobs of a task at its end, unless the connection is told to keep them. -/
def endTaskJobs (cfg : FileConfig) (s : ConnQueue) (task : Int) :
    FileProg (List JobClose × List ConnJob × FileTable) :=
  if wants cfg.entry8Flags 0x200 then pure ([], s.jobs, s.table)
  else freeConnectionTaskJobs cfg task s.opener s.jobs s.table

/-- End of job: the jobs and the handles of the task. -/
def endOfJob (cfg : FileConfig) (s : ConnQueue) (task : Int) :
    FileProg (ConnAnswer × ConnQueue) := do
  let (closes, jobs, table) ← endTaskJobs cfg s task
  let table ← initFileModule cfg table task
  pure (⟨0, none, 0, closes⟩, { s with jobs, table })

/-- Logout, and a new connection: `free_queue_jobs` and all handles. -/
def logoutJobs (cfg : FileConfig) (s : ConnQueue) : FileProg (ConnAnswer × ConnQueue) := do
  let table ← initFileModule cfg s.table (-1)
  pure (⟨0, none, 0, []⟩, { s with jobs := [], table })

/-- An ordinary request on the handles. A handle that it opens is opened for no job. -/
def ordinaryRequest (cfg : FileConfig) (s : ConnQueue) (e : HandleRequest) :
    FileProg (ConnAnswer × ConnQueue) := do
  let (answer, table) ← (handleSession cfg).handle s.table e
  let opener :=
    match e with
    | .file (.creatOpen _) =>
        if 0 < answer.result then update s.opener (answer.result - 1).toNat none else s.opener
    | _ => s.opener
  pure (⟨answer.result, some answer, 0, []⟩, { s with table, opener })

/-- A request of a client to its connection. -/
inductive ConnRequest where
  | ordinary (e : HandleRequest)
  | creat (oldCall : Bool) (task : Int) (queueId : UInt32) (jobId : Int)
      (path : Option (Int × List UInt8))
  | service (oldCall : Bool) (task : Int) (queueId : UInt32) (jobId : Int)
      (path : Option (Int × List UInt8))
  | close (queueId : UInt32) (jobId : Int)
  | close2 (queueId : UInt32) (jobId : Int) (prcLen : Nat) (printed : Bool)
  | finishAbort (queueId : UInt32) (jobId : Int)
  | endOfJob (task : Int)
  | logout

def connJobSession (cfg : FileConfig) :
    Session FileCall FileCall.Answer ConnQueue ConnRequest ConnAnswer where
  handle s
    | .ordinary e => ordinaryRequest cfg s e
    | .creat oldCall task queueId jobId path =>
        creatQueueJob cfg s oldCall task queueId jobId path
    | .service oldCall task queueId jobId path =>
        serviceQueueJob cfg s oldCall task queueId jobId path
    | .close queueId jobId => closeQueueJob cfg s queueId jobId
    | .close2 queueId jobId prcLen printed => closeQueueJob2 cfg s queueId jobId prcLen printed
    | .finishAbort queueId jobId => finishAbortQueueJob cfg s queueId jobId
    | .endOfJob task => MarsNwe.endOfJob cfg s task
    | .logout => logoutJobs cfg s

end MarsNwe
