import MarsNwe.Queue.Jobs

/-! # Requests on queues

What nwbind does with the queues for its clients and for the queue servers. The
bindery, the files of the jobs and the clock are asked, whatever they answer.
-/

namespace MarsNwe

open Prog

/-! ## Calls -/

inductive QueueCall where
  /-- `nw_get_q_dirname` -/
  | qDirname (qId : UInt32)
  /-- `nw_get_q_prcommand` -/
  | qPrcommand (qId : UInt32)
  /-- `nw_is_member_in_set` with `Q_SERVERS` -/
  | qServer (qId userId : UInt32)
  | stat (path : List UInt8)
  | unlink (path : List UInt8)
  | time

/-- The answers: a string or an error, `st_size` of an existing file, success. -/
@[reducible] def QueueCall.Answer : QueueCall → Type
  | .qDirname _ => Except Int (List UInt8)
  | .qPrcommand _ => Except Int (List UInt8)
  | .qServer _ _ => Int
  | .stat _ => Option Int64
  | .unlink _ => Bool
  | .time => Int64

abbrev QueueProg := Prog QueueCall QueueCall.Answer

/-- `entry18_flags` and the clock's conversions to and from the six bytes of a time. -/
structure QueueConfig where
  entry18Flags : Int32
  localtime : Int64 → ByteBuf 6
  mktime : ByteBuf 6 → Int64

/-- No flags, and a clock that stands still. -/
def QueueConfig.still : QueueConfig := ⟨0, fun _ => .zero 6, fun _ => 0⟩

/-! ## Job entries of the protocol -/

/-- `QUEUE_JOB_OLD`, before 3.11; the file handle is filled by others. -/
structure QueueJobOld where
  clientConnection : UInt8
  clientTask : UInt8
  clientId : UInt32
  targetId : UInt32
  targetExecuteTime : ByteBuf 6
  jobEntryTime : ByteBuf 6
  jobId : UInt16
  jobTyp : UInt16
  jobPosition : UInt8
  jobControlFlags : UInt8
  jobFileName : List UInt8
  serverStation : UInt8
  serverTask : UInt8
  serverId : UInt32
  jobDescription : ByteBuf 50
  clientArea : ByteBuf 152

/-- `QUEUE_JOB`; `record_in_use` and `record_previous` are always the same. -/
structure QueueJob where
  recordNext : UInt32
  clientConnection : UInt32
  clientTask : UInt32
  clientId : UInt32
  targetId : UInt32
  targetExecuteTime : ByteBuf 6
  jobEntryTime : ByteBuf 6
  jobId : UInt16
  jobTyp : UInt16
  jobPosition : UInt16
  jobControlFlags : UInt16
  jobFileName : List UInt8
  serverStation : UInt32
  serverTask : UInt32
  serverId : UInt32
  jobDescription : ByteBuf 50
  clientArea : ByteBuf 152

/-- A job entry of an old call or of a new one. -/
inductive JobEntry where
  | old (job : QueueJobOld)
  | new (job : QueueJob)

/-- `set_time_field`. -/
def setTimeField (cfg : QueueConfig) (ptime : Int64) : ByteBuf 6 :=
  if ptime.toInt32 = -1 then ⟨List.replicate 6 0xff, List.length_replicate⟩ else cfg.localtime ptime

/-- `get_time_field`. -/
def getTimeField (cfg : QueueConfig) (timef : ByteBuf 6) : Int64 :=
  if timef.bytes.head? = some 0xff then -1 else cfg.mktime timef

/-- A number printed with at least `w` digits. -/
def paddedDigits (base w n : Nat) : List UInt8 :=
  let digits := (Nat.toDigits base n).map chr
  (List.replicate (w - digits.length) (chr '0') ++ digits).map upChar

/-- `%03d`. -/
def printJobId (i : Int32) : List UInt8 :=
  if i < 0 then chr '-' :: paddedDigits 10 2 i.toInt.natAbs else paddedDigits 10 3 i.toInt.natAbs

/-- `%08lX.%03d` with the time and the id of a job. -/
def jobFileName (jo : IntQueueJob) : List UInt8 :=
  paddedDigits 16 8 jo.fileEntryTime.toUInt64.toNat ++ chr '.' :: printJobId jo.jobId

/-- `build_queue_file_name`, with the length in front. -/
def buildQueueFileName (jo : IntQueueJob) : List UInt8 :=
  UInt8.ofNat (jobFileName jo).length :: jobFileName jo

/-- `build_unix_queue_file`. -/
def buildUnixQueueFile (q : NweQueue) (jo : IntQueueJob) : List UInt8 :=
  if q.queuedir = [] then []
  else q.queuedir ++ chr '/' ::
    (if q.queuedirDownshift then (jobFileName jo).map downChar else jobFileName jo)

/-- `fill_q_job_entry_old`. -/
def fillQJobEntryOld (cfg : QueueConfig) (jo : IntQueueJob) : QueueJobOld where
  clientConnection := jo.clientConnection.toUInt32.toUInt8
  clientTask := jo.clientTask.toUInt32.toUInt8
  clientId := jo.clientId
  targetId := jo.targetId
  targetExecuteTime := setTimeField cfg jo.executeTime
  jobEntryTime := setTimeField cfg jo.entryTime
  jobId := jo.jobId.toUInt32.toUInt16
  jobTyp := jo.jobTyp.toUInt32.toUInt16
  jobPosition := jo.jobPosition.toUInt32.toUInt8
  jobControlFlags := jo.jobControlFlags.toUInt32.toUInt8
  jobFileName := buildQueueFileName jo
  serverStation := jo.serverStation.toUInt32.toUInt8
  serverTask := jo.serverTask.toUInt32.toUInt8
  serverId := jo.serverId
  jobDescription := jo.jobDescription
  clientArea := jo.clientArea

/-- `fill_q_job_entry`; `next` is the job behind this one. -/
def fillQJobEntry (cfg : QueueConfig) (jo : IntQueueJob) (next : Option IntQueueJob) :
    QueueJob where
  recordNext := (next.map fun n => n.jobId.toUInt32).getD 0
  clientConnection := jo.clientConnection.toUInt32
  clientTask := jo.clientTask.toUInt32
  clientId := jo.clientId
  targetId := jo.targetId
  targetExecuteTime := setTimeField cfg jo.executeTime
  jobEntryTime := setTimeField cfg jo.entryTime
  jobId := jo.jobId.toUInt32.toUInt16
  jobTyp := jo.jobTyp.toUInt32.toUInt16
  jobPosition := jo.jobPosition.toUInt32.toUInt16
  jobControlFlags := jo.jobControlFlags.toUInt32.toUInt16
  jobFileName := buildQueueFileName jo
  serverStation := jo.serverStation.toUInt32
  serverTask := jo.serverTask.toUInt32
  serverId := jo.serverId
  jobDescription := jo.jobDescription
  clientArea := jo.clientArea

/-- The entry in the form of the call. -/
def fillJobEntry (cfg : QueueConfig) (oldCall : Bool) (jo : IntQueueJob)
    (next : Option IntQueueJob) : JobEntry :=
  if oldCall then .old (fillQJobEntryOld cfg jo) else .new (fillQJobEntry cfg jo next)

/-- The data of the replies. -/
inductive QueueReply where
  | empty
  | job (entry : JobEntry) (dirname : List UInt8)
  | closed (clientArea : ByteBuf 152) (prcommand : List UInt8)

/-- A negative completion code or the data of the reply. -/
abbrev QueueResult := Except Int QueueReply

/-! ## The files of jobs -/

/-- `get_qj_file_size`: the size as an `int`. -/
def getQjFileSize (q : NweQueue) (qj : IntQueueJob) : QueueProg Int32 := do
  let stb ← ask (QueueCall.stat (buildUnixQueueFile q qj))
  pure ((stb.map Int64.toInt32).getD 0)

/-- `remove_queue_job_file`; whether it returned 0. -/
def removeQueueJobFile (q : NweQueue) (qj : IntQueueJob) : QueueProg Bool := do
  let stb ← ask (QueueCall.stat (buildUnixQueueFile q qj))
  match stb with
  | none => pure true
  | some _ => ask (QueueCall.unlink (buildUnixQueueFile q qj))

/-! ## Requests on one queue -/

namespace NweQueue

/-- The record that `new_queue_job` links. -/
def newQueueJob (connection task : Int32) (id : UInt32) (entryTime : Int64) : IntQueueJob where
  clientConnection := connection
  clientTask := task
  clientId := id
  entryTime := entryTime
  targetId := 0
  executeTime := 0
  jobId := 0
  jobTyp := 0
  jobPosition := 0
  jobControlFlags := 0
  serverStation := 0
  serverTask := 0
  serverId := 0
  jobDescription := .zero 50
  fileEntryTime := entryTime
  clientArea := .zero 152

/-- What `nw_creat_queue_job` takes over from the entry it is given. -/
def takeOver (cfg : QueueConfig) (jo : IntQueueJob) : JobEntry → IntQueueJob
  | .old job =>
      { jo with
        jobDescription := job.jobDescription
        clientArea := job.clientArea
        targetId := job.targetId
        executeTime := getTimeField cfg job.targetExecuteTime
        jobTyp := job.jobTyp.toUInt32.toInt32
        jobControlFlags := job.jobControlFlags.toUInt32.toInt32 ||| 0x20 }
  | .new job =>
      { jo with
        jobDescription := job.jobDescription
        clientArea := job.clientArea
        targetId := job.targetId
        executeTime := getTimeField cfg job.targetExecuteTime
        jobTyp := job.jobTyp.toUInt32.toInt32
        jobControlFlags := job.jobControlFlags.toUInt32.toInt32 ||| 0x20 }

/-- Whether an entry is one of an old call. -/
def isOldCall : JobEntry → Bool
  | .old _ => true
  | .new _ => false

/-- `nw_creat_queue_job` once the queue and its directory are known. What the entry
gives is filled in before the job is linked, not after. -/
def creatJob (cfg : QueueConfig) (connection task : Int32) (objectId : UInt32) (qJob : JobEntry)
    (dirname : List UInt8) (que : NweQueue) : QueueProg (QueueResult × NweQueue) := do
  let entryTime ← ask QueueCall.time
  match que.addQueueJob (takeOver cfg (newQueueJob connection task objectId entryTime) qJob) with
  | (none, que) => pure (.error (-0xd4), que)
  | (some jo, que) => pure (.ok (.job (fillJobEntry cfg (isOldCall qJob) jo none) dirname), que)

/-- `nw_close_queue_job` for a queue. -/
def closeJob (cfg : QueueConfig) (jobId : Int32) (que : NweQueue) :
    QueueProg (QueueResult × NweQueue) :=
  match que.findQueueJob jobId with
  | none => pure (.error (-0xff), que)
  | some i => do
      let jo := que.queueJobs[i]
      -- `print_flags[1]` of the `QUEUE_PRINT_AREA`
      let clientArea :=
        if cfg.entry18Flags &&& 1 ≠ 0 then
          ByteBuf.ofList 152 (jo.clientArea.bytes.modify 5 (· &&& ~~~0x80))
        else jo.clientArea
      let que := que.setJob i { jo with
        clientArea := clientArea
        jobControlFlags := jo.jobControlFlags &&& ~~~0x20 }
      let prcommand ← ask (QueueCall.qPrcommand que.id)
      match prcommand with
      | .ok command => pure (.ok (.closed clientArea command), que.freeQueueJob jobId)
      | .error _ => pure (.ok (.closed clientArea []), que)

/-- `nw_remove_job_from_queue` for a queue. -/
def removeJob (userId : UInt32) (jobId : Int32) (q : NweQueue) :
    QueueProg (QueueResult × NweQueue) :=
  match q.findQueueJob jobId with
  | none => pure (.error (-0xff), q)
  | some i =>
      if userId = 1 ∨ userId = q.queueJobs[i].clientId then do
        let removed ← removeQueueJobFile q q.queueJobs[i]
        if removed then pure (.ok .empty, q.freeQueueJob jobId) else pure (.error (-0xd6), q)
      else pure (.error (-0xd6), q)

/-- `nw_finish_abort_queue_job` for a queue; mode 0 finishes and 1 aborts. -/
def finishAbortJob (mode : Int32) (userId : UInt32) (connection : Int32) (jobId : Int32)
    (que : NweQueue) : QueueProg (QueueResult × NweQueue) :=
  match que.findQueueJob jobId with
  | none => pure (.error (-0xff), que)
  | some i =>
      let jo := que.queueJobs[i]
      if jo.serverId = userId ∧ jo.serverStation = connection then
        if mode ≠ 0 ∧ jo.jobControlFlags &&& 0x10 ≠ 0 then
          -- restart job
          pure (.ok .empty, que.setJob i { jo with serverId := 0, serverStation := 0 })
        else do
          let removed ← removeQueueJobFile que jo
          if removed then pure (.ok .empty, que.freeQueueJob jobId) else pure (.error (-0xd6), que)
      else pure (.error (-0xff), que)

theorem remaining_lt {q : NweQueue} {i : Nat} {qj : IntQueueJob} (h : q.queueJobs[i]? = some qj) :
    q.queueJobs.length - (i + 1) < q.queueJobs.length - i := by
  have hlt := (List.getElem?_eq_some_iff.mp h).1
  omega

theorem freed_lt {q : NweQueue} {i : Nat} {qj : IntQueueJob} (h : q.queueJobs[i]? = some qj)
    {p : IntQueueJob → Bool} (hp : ∀ qj pos, p { qj with jobPosition := pos } = p qj) :
    (q.freeQueueJob qj.jobId).queueJobs.length + (q.freeQueueJob qj.jobId).queueJobs.countP p <
      q.queueJobs.length + q.queueJobs.countP p := by
  have hcount := countP_freeQueueJob hp (List.mem_of_getElem? h)
  omega

theorem actualQueued_marked (qj : IntQueueJob) :
    { qj with jobControlFlags := qj.jobControlFlags &&& ~~~0x20 }.actualQueued = false := by
  have hzero : qj.jobControlFlags &&& ~~~0x20 &&& 0x20 = 0 := by
    rw [Int32.and_assoc]
    exact Int32.and_zero
  simp [IntQueueJob.actualQueued, hzero]

theorem marked_lt {q : NweQueue} {i : Nat} {qj qj' : IntQueueJob}
    (h : q.queueJobs[i]? = some qj) (hqueued : qj.actualQueued = true)
    (hmarked : qj'.actualQueued = false) :
    (q.setJob i qj').queueJobs.length + (q.setJob i qj').queueJobs.countP IntQueueJob.actualQueued <
      q.queueJobs.length + q.queueJobs.countP IntQueueJob.actualQueued := by
  obtain ⟨hlt, hget⟩ := List.getElem?_eq_some_iff.mp h
  have hpos : 0 < q.queueJobs.countP IntQueueJob.actualQueued :=
    List.countP_pos_iff.mpr ⟨qj, List.mem_of_getElem? h, hqueued⟩
  rw [setJob, List.length_set, List.countP_set hlt, hget, if_pos hqueued, hmarked]
  simpa using hpos

/-- The loop of `nw_close_connection_jobs` over the jobs of a queue, from the job at `i`. -/
def closeConnectionJobs (connection task : Int32) (q : NweQueue) (i : Nat) :
    QueueProg NweQueue :=
  match h : q.queueJobs[i]? with
  | none => pure q
  | some qj =>
      if hcond : qj.clientConnection = connection ∧ (qj.clientTask = task ∨ task = -1) ∧
          qj.actualQueued = true then do
        let size ← getQjFileSize q qj
        if 0 < size then
          -- we mark it as not queued
          closeConnectionJobs connection task
            (q.setJob i { qj with jobControlFlags := qj.jobControlFlags &&& ~~~0x20 }) 0
        else do
          let _ ← removeQueueJobFile q qj
          closeConnectionJobs connection task (q.freeQueueJob qj.jobId) 0
      else closeConnectionJobs connection task q (i + 1)
termination_by (q.queueJobs.length + q.queueJobs.countP IntQueueJob.actualQueued,
  q.queueJobs.length - i)
decreasing_by
  · exact Prod.Lex.left _ _ (marked_lt h hcond.2.2 (actualQueued_marked qj))
  · exact Prod.Lex.left _ _ (freed_lt h fun _ _ => rfl)
  · exact Prod.Lex.right _ (remaining_lt h)

/-- Whether the queue server may get the job, apart from the size of its file. -/
def isServiceable (userId : UInt32) (jobTyp : Int32) (acttime : Int64) (qj : IntQueueJob) : Bool :=
  qj.serverId = 0 ∧ qj.actualQueued = false ∧ qj.executeTime ≤ acttime ∧
    (qj.targetId = 0xffffffff ∨ qj.targetId = userId) ∧
    (qj.jobTyp = 0xffff ∨ jobTyp = 0xffff ∨ qj.jobTyp = jobTyp)

/-- The search of `nw_service_queue_job` for a job, from the job at `i`. -/
def findServiceable (userId : UInt32) (jobTyp : Int32) (acttime : Int64) (q : NweQueue) (i : Nat) :
    QueueProg (NweQueue × Option (Nat × IntQueueJob)) :=
  match h : q.queueJobs[i]? with
  | none => pure (q, none)
  | some qj =>
      if isServiceable userId jobTyp acttime qj then do
        let size ← getQjFileSize q qj
        if 0 < size then pure (q, some (i, qj))
        else do
          let now ← ask QueueCall.time
          if now - qj.entryTime > 60 then do
            let _ ← removeQueueJobFile q qj
            findServiceable userId jobTyp acttime (q.freeQueueJob qj.jobId) 0
          else findServiceable userId jobTyp acttime q (i + 1)
      else findServiceable userId jobTyp acttime q (i + 1)
termination_by (q.queueJobs.length, q.queueJobs.length - i)
decreasing_by
  · have hless := (countP_freeQueueJob (p := fun _ => true) (fun _ _ => rfl)
      (List.mem_of_getElem? h)).1
    exact Prod.Lex.left _ _ (by omega)
  · exact Prod.Lex.right _ (remaining_lt h)
  · exact Prod.Lex.right _ (remaining_lt h)

/-- `nw_service_queue_job` for a queue. -/
def serviceJob (cfg : QueueConfig) (userId : UInt32) (connection task jobTyp : Int32)
    (oldCall : Bool) (q : NweQueue) : QueueProg (QueueResult × NweQueue) :=
  if q.qserver = some ⟨connection, userId⟩ ∧ q.status &&& 4 = 0 then do
    let dirname ← ask (QueueCall.qDirname q.id)
    match dirname with
    | .error _ | .ok [] => pure (.error (-0xd5), q)
    | .ok dirname => do
        let acttime ← ask QueueCall.time
        let (q, fqj) ← findServiceable userId jobTyp acttime q 0
        match fqj with
        | none => pure (.error (-0xd5), q)
        | some (i, qj) =>
            let fqj := { qj with
              serverId := userId, serverStation := connection, serverTask := task }
            pure (.ok (.job (fillJobEntry cfg oldCall fqj q.queueJobs[i + 1]?) dirname),
              q.setJob i fqj)
  else pure (.error (-0xd5), q)

/-- `nw_attach_server_to_queue` for a queue; an earlier server is replaced. -/
def attachServer (userId : UInt32) (connection : Int32) (q : NweQueue) :
    QueueProg (QueueResult × NweQueue) := do
  let result ← ask (QueueCall.qServer q.id userId)
  if result = 0 then pure (.ok .empty, { q with qserver := some ⟨connection, userId⟩ })
  else pure (.error result, q)

/-- `nw_detach_server_from_queue` for a queue. -/
def detachServer (userId : UInt32) (connection : Int32) (q : NweQueue) :
    QueueProg (QueueResult × NweQueue) :=
  if q.qserver = some ⟨connection, userId⟩ then pure (.ok .empty, { q with qserver := none })
  else pure (.error (-0xff), q)

/-- `nw_set_queue_status` for a queue. -/
def setStatus (status : Int32) (q : NweQueue) : QueueProg (QueueResult × NweQueue) :=
  pure (.ok .empty, { q with status := status })

end NweQueue

/-! ## Requests -/

/-- A request on the queues. -/
inductive QueueRequest where
  | creatJob (connection task : Int32) (objectId qId : UInt32) (qJob : JobEntry)
  | closeJob (qId : UInt32) (jobId : Int32)
  | setStatus (qId : UInt32) (status : Int32)
  | removeJob (userId qId : UInt32) (jobId : Int32)
  | closeConnectionJobs (connection task : Int32)
  | attachServer (userId : UInt32) (connection : Int32) (qId : UInt32)
  | detachServer (userId : UInt32) (connection : Int32) (qId : UInt32)
  | serviceJob (userId : UInt32) (connection task : Int32) (qId : UInt32) (jobTyp : Int32)
      (oldCall : Bool)
  | finishAbortJob (mode : Int32) (userId : UInt32) (connection : Int32) (qId : UInt32)
      (jobId : Int32)

/-- Work on the queue of an id; `missing` is the answer when there is none. -/
def withQueue (queues : NweQueues) (qId : UInt32) (missing : Int)
    (f : NweQueue → QueueProg (QueueResult × NweQueue)) : QueueProg (QueueResult × NweQueues) :=
  match findQueue queues qId with
  | none => pure (.error missing, queues)
  | some k => do
      let (result, q) ← f queues[k]
      pure (result, queues.set k q)

/-- `nw_creat_queue_job`. -/
def nwCreatQueueJob (cfg : QueueConfig) (queues : NweQueues) (connection task : Int32)
    (objectId qId : UInt32) (qJob : JobEntry) : QueueProg (QueueResult × NweQueues) := do
  let dirname ← ask (QueueCall.qDirname qId)
  match dirname with
  | .error _ | .ok [] => pure (.error (-0xd3), queues)
  | .ok dirname =>
      withQueue queues qId (-0xd3) (NweQueue.creatJob cfg connection task objectId qJob dirname)

/-- `nw_close_connection_jobs`. -/
def nwCloseConnectionJobs (connection task : Int32) : NweQueues → QueueProg NweQueues
  | [] => pure []
  | q :: queues => do
      let q ← q.closeConnectionJobs connection task 0
      let queues ← nwCloseConnectionJobs connection task queues
      pure (q :: queues)

/-- What nwbind does with its queues. -/
def queueSession (cfg : QueueConfig) :
    Session QueueCall QueueCall.Answer NweQueues QueueRequest QueueResult where
  handle queues
    | .creatJob connection task objectId qId qJob =>
        nwCreatQueueJob cfg queues connection task objectId qId qJob
    | .closeJob qId jobId => withQueue queues qId (-0xd8) (NweQueue.closeJob cfg jobId)
    | .setStatus qId status => withQueue queues qId (-0xd3) (NweQueue.setStatus status)
    | .removeJob userId qId jobId => withQueue queues qId (-0xff) (NweQueue.removeJob userId jobId)
    | .closeConnectionJobs connection task => do
        let queues ← nwCloseConnectionJobs connection task queues
        pure (.ok .empty, queues)
    | .attachServer userId connection qId =>
        withQueue queues qId (-0xff) (NweQueue.attachServer userId connection)
    | .detachServer userId connection qId =>
        withQueue queues qId (-0xff) (NweQueue.detachServer userId connection)
    | .serviceJob userId connection task qId jobTyp oldCall =>
        withQueue queues qId (-0xd5)
          (NweQueue.serviceJob cfg userId connection task jobTyp oldCall)
    | .finishAbortJob mode userId connection qId jobId =>
        withQueue queues qId (-0xd8) (NweQueue.finishAbortJob mode userId connection jobId)

end MarsNwe
