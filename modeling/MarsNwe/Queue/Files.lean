import MarsNwe.Lib.Layout
import Mathlib.Logic.Function.Basic
import MarsNwe.Queue.Jobs

/-! # The files of queues

Each queue has a file with its jobs, which is written when the server goes down
and read when it comes up.
-/

namespace MarsNwe

/-! ## The code -/

/-- The bindery's view of a queue object: its id and the result of
`build_unix_queue_dir`, if that is positive. -/
structure QueueObject where
  id : UInt32
  unixDir : Option (List UInt8)

/-- The job in the memory of a machine with 32 bit `int` and 64 bit `time_t`,
without gaps and without `next`. -/
def IntQueueJob.packed : Layout IntQueueJob :=
  open Layout in
  (int32.pair (int32.pair (uint32.pair (int64.pair (uint32.pair (int64.pair (int32.pair
    (int32.pair (int32.pair (int32.pair (int32.pair (int32.pair (uint32.pair
      ((byteBuf 50 (by decide)).pair (int64.pair (byteBuf 152 (by decide))))))))))))))))).ofInverse
    (fun qj => (qj.clientConnection, qj.clientTask, qj.clientId, qj.entryTime, qj.targetId,
      qj.executeTime, qj.jobId, qj.jobTyp, qj.jobPosition, qj.jobControlFlags, qj.serverStation,
      qj.serverTask, qj.serverId, qj.jobDescription, qj.fileEntryTime, qj.clientArea))
    (fun (a, b, c, d, e, f, g, h, i, j, k, l, m, n, o, p) =>
      ⟨a, b, c, d, e, f, g, h, i, j, k, l, m, n, o, p⟩)
    fun _ => rfl

section

variable (lay : Layout IntQueueJob)

/-- `sizeof(INT_QUEUE_JOB)` as the `int` at the start of a file. -/
def sizeHeader : List UInt8 := Layout.int32.bytes (Int32.ofNat lay.size)

/-- The values that `r_w_queue_jobs` corrects in what it has read. -/
def correctedJob (qj : IntQueueJob) : IntQueueJob :=
  { qj with
    serverStation := 0
    serverId := 0
    jobControlFlags := qj.jobControlFlags &&& ~~~0x20 }

/-- The loop of `r_w_queue_jobs` over the jobs that it reads. -/
def NweQueue.readJobs (q : NweQueue) (qjs : List IntQueueJob) : NweQueue :=
  qjs.foldl (fun q qj => (q.addQueueJob (correctedJob qj)).2) q

/-- `r_w_queue_jobs` with mode 0. -/
def NweQueue.readQueueJobs (q : NweQueue) (file : Option (List UInt8)) : NweQueue :=
  match file with
  | none => { q with changed := 0 }
  | some l =>
      if 4 ≤ l.length ∧ l.take 4 = sizeHeader lay then
        { q.readJobs (lay.records (l.drop 4)) with changed := 0 }
      else { q with changed := 0 }

/-- What `r_w_queue_jobs` with mode 2 leaves in the file. -/
def NweQueue.writtenJobs (q : NweQueue) : List UInt8 :=
  if q.queueJobs = [] then [] else sizeHeader lay ++ lay.blocks q.queueJobs

theorem NweQueue.readQueueJobs_blocks (q : NweQueue) (qjs : List IntQueueJob) :
    q.readQueueJobs lay (some (sizeHeader lay ++ lay.blocks qjs)) =
      { q.readJobs qjs with changed := 0 } := by
  have hlength : (sizeHeader lay).length = 4 := Layout.int32.length_bytes _
  have hle : 4 ≤ (sizeHeader lay ++ lay.blocks qjs).length := by
    rw [List.length_append, hlength]
    exact Nat.le_add_right _ _
  unfold readQueueJobs
  dsimp only
  rw [if_pos ⟨hle, List.take_left' hlength⟩, List.drop_left' hlength, lay.records_blocks]

/-- The files of the queues, by the id of the queue. -/
abbrev QueueFiles := UInt32 → Option (List UInt8)

/-- `exit_queues`: the files that it leaves. -/
def exitQueues (queues : NweQueues) (files : QueueFiles) : QueueFiles :=
  queues.foldl (fun files q => Function.update files q.id (some (q.writtenJobs lay))) files

/-- `init_queues` for the objects in the order of `scan_for_obj`. -/
def initQueues (objects : List QueueObject) (downshift : Bool) (queues : NweQueues)
    (files : QueueFiles) : NweQueues × QueueFiles :=
  let files := exitQueues lay queues files
  (objects.filterMap fun obj => obj.unixDir.map fun dir =>
    (newQueue obj.id dir downshift).readQueueJobs lay (files obj.id), files)

end

end MarsNwe
