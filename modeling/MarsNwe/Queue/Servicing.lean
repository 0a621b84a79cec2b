import Mathlib.Logic.Function.Basic
import MarsNwe.Queue.JobList

/-! # Queue servers

The job that is handed out bears the user and the connection of its queue server,
and the queue bears those of the server that is attached. Neither detaching nor the
end of a connection looks at the jobs. What holds as long as no server goes that
still has a job is proved for all orders of events.
-/

namespace MarsNwe

open Prog

/-! ## The events -/

/-- What queues know of a `CONNECTION`. -/
structure QueueClient where
  active : Bool
  objectId : UInt32

/-- The queues, the connections, and what `nw_is_member_in_set` says of `Q_SERVERS`. -/
structure ServiceState where
  queues : NweQueues
  connections : Int32 → QueueClient
  qServers : UInt32 → UInt32 → Int

/-- The requests of a client, on its connection and with its `object_id`. -/
inductive ClientRequest where
  | creatJob (task : Int32) (qId : UInt32) (qJob : JobEntry)
  | closeJob (qId : UInt32) (jobId : Int32)
  | setStatus (qId : UInt32) (status : Int32)
  | removeJob (qId : UInt32) (jobId : Int32)
  /-- func 0x18 -/
  | endOfJob (task : Int32)
  | attachServer (qId : UInt32)
  | detachServer (qId : UInt32)
  | serviceJob (task : Int32) (qId : UInt32) (jobTyp : Int32) (oldCall : Bool)
  | finishJob (qId : UInt32) (jobId : Int32)
  | abortJob (qId : UInt32) (jobId : Int32)

def ClientRequest.toRequest (connection : Int32) (objectId : UInt32) :
    ClientRequest → QueueRequest
  | creatJob task qId qJob => .creatJob connection task objectId qId qJob
  | closeJob qId jobId => .closeJob qId jobId
  | setStatus qId status => .setStatus qId status
  | removeJob qId jobId => .removeJob objectId qId jobId
  | endOfJob task => .closeConnectionJobs connection task
  | attachServer qId => .attachServer objectId connection qId
  | detachServer qId => .detachServer objectId connection qId
  | serviceJob task qId jobTyp oldCall => .serviceJob objectId connection task qId jobTyp oldCall
  | finishJob qId jobId => .finishAbortJob 0 objectId connection qId jobId
  | abortJob qId jobId => .finishAbortJob 1 objectId connection qId jobId

/-- What happens to the queues and their clients. -/
inductive ServiceEvent where
  | request (connection : Int32) (r : ClientRequest)
  /-- `build_login_response` -/
  | login (connection : Int32) (objectId : UInt32)
  /-- func 0x19 -/
  | logout (connection : Int32)
  /-- `open_clear_connection` -/
  | openClearConnection (connection : Int32) (activate : Bool)
  /-- the bindery changes -/
  | bindery (qServers : UInt32 → UInt32 → Int)

/-- The bindery tells who may serve a queue; all else may be answered anyhow. -/
def serverKernel (qServers : UInt32 → UInt32 → Int) : Kernel QueueCall QueueCall.Answer Unit
  | (), .qServer qId userId, result, _ => result = qServers qId userId
  | (), _, _, _ => True

/-- One event. Requests come from active connections, which have numbers from 1 on. -/
inductive ServiceState.Step (cfg : QueueConfig) (s : ServiceState) :
    ServiceEvent → Option QueueResult → ServiceState → Prop
  | request {connection : Int32} {r : ClientRequest} {result : QueueResult} {queues : NweQueues}
      (hconnection : 0 < connection) (hactive : (s.connections connection).active = true)
      (hyields : Yields (serverKernel s.qServers) ()
        ((queueSession cfg).handle s.queues
          (r.toRequest connection (s.connections connection).objectId)) (result, queues) ()) :
      Step cfg s (.request connection r) (some result) { s with queues := queues }
  | login {connection : Int32} {objectId : UInt32} (hconnection : 0 < connection)
      (hactive : (s.connections connection).active = true) :
      Step cfg s (.login connection objectId) none
        { s with connections := Function.update s.connections connection ⟨true, objectId⟩ }
  | logout {connection : Int32} {queues : NweQueues} (hconnection : 0 < connection)
      (hactive : (s.connections connection).active = true)
      (hyields : Yields anyKernel () (nwCloseConnectionJobs connection (-1) s.queues) queues ()) :
      Step cfg s (.logout connection) none
        { s with
          queues := queues
          connections := Function.update s.connections connection ⟨true, 0⟩ }
  | openClearConnection (connection : Int32) (activate : Bool) :
      Step cfg s (.openClearConnection connection activate) none
        { s with connections := Function.update s.connections connection ⟨activate, 0⟩ }
  | bindery (qServers : UInt32 → UInt32 → Int) :
      Step cfg s (.bindery qServers) none { s with qServers := qServers }

/-! ## What is claimed -/

/-- The server is the one of a live connection. -/
def ServiceState.Live (s : ServiceState) (qs : QueueServer) : Prop :=
  (s.connections qs.connection).active = true ∧ (s.connections qs.connection).objectId = qs.userId

/-- The server that a job was handed to. -/
def IntQueueJob.server (qj : IntQueueJob) : QueueServer := ⟨qj.serverStation, qj.serverId⟩

/-- Every job that is handed out is with the server of its queue, on a live connection. -/
def ServiceState.Attended (s : ServiceState) : Prop :=
  ∀ q ∈ s.queues, ∀ qj ∈ q.queueJobs, qj.serverId ≠ 0 → q.qserver = some qj.server ∧ s.Live qj.server

/-- Jobs that are handed out stay with their servers, or `back` tells how they are given back. -/
def NweQueue.Stays (que : NweQueue) (back : IntQueueJob → Prop) (que' : NweQueue) : Prop :=
  ∀ qj ∈ que.queueJobs, ∀ qj' ∈ que'.queueJobs, qj'.jobId = qj.jobId → qj.serverId ≠ 0 →
    qj'.server = qj.server ∨ back qj ∧ qj'.serverId = 0

/-- What a step does with jobs that are handed out. -/
structure ServiceState.StepOk (s : ServiceState) (e : ServiceEvent) (result : Option QueueResult)
    (s' : ServiceState) : Prop where
  /-- A job stays with its server until that one aborts it with the restart flag set. -/
  stays : List.Forall₂ (fun q q' => q.Stays (fun qj =>
    e = .request qj.serverStation (.abortJob q.id qj.jobId) ∧ s.Live qj.server ∧
      qj.jobControlFlags &&& 0x10 ≠ 0) q') s.queues s'.queues
  /-- A job that is handed out was with no server before. -/
  handedOut {connection task : Int32} {qId : UInt32} {jobTyp : Int32} {oldCall : Bool}
      {reply : QueueReply} : e = .request connection (.serviceJob task qId jobTyp oldCall) →
    result = some (.ok reply) → ∃ (k : Nat) (q q' : NweQueue) (qj' : IntQueueJob),
      s.queues[k]? = some q ∧ s'.queues[k]? = some q' ∧ qj' ∈ q'.queueJobs ∧ qj'.serverId ≠ 0 ∧
      qj'.server = ⟨connection, (s.connections connection).objectId⟩ ∧
      ∀ qj ∈ q.queueJobs, qj.jobId = qj'.jobId → qj.serverId = 0
  /-- Only its server finishes or aborts a job. -/
  finished {connection : Int32} {qId : UInt32} {jobId : Int32} :
    e = .request connection (.finishJob qId jobId) ∨ e = .request connection (.abortJob qId jobId) →
    s'.queues ≠ s.queues → ∃ q ∈ s.queues, q.id = qId ∧ ∃ qj ∈ q.queueJobs, qj.jobId = jobId ∧
      qj.serverId ≠ 0 ∧ qj.server = ⟨connection, (s.connections connection).objectId⟩

/-- No job of the queue is handed out. -/
def NweQueue.Idle (q : NweQueue) : Prop := ∀ qj ∈ q.queueJobs, qj.serverId = 0

/-- No job is handed out to the connection. -/
def ServiceState.Unused (s : ServiceState) (connection : Int32) : Prop :=
  ∀ q ∈ s.queues, ∀ qj ∈ q.queueJobs, qj.serverId ≠ 0 → qj.serverStation ≠ connection

/-- No server goes that still has a job, and only logged in clients become servers. -/
def ServiceState.Allowed (s : ServiceState) : ServiceEvent → Prop
  | .request connection (.attachServer qId) =>
      ∀ k, findQueue s.queues qId = some k →
        s.qServers s.queues[k].id (s.connections connection).objectId = 0 →
        (s.connections connection).objectId ≠ 0 ∧
          (s.queues[k].qserver = some ⟨connection, (s.connections connection).objectId⟩ ∨
            s.queues[k].Idle)
  | .request connection (.detachServer qId) =>
      ∀ k, findQueue s.queues qId = some k →
        s.queues[k].qserver = some ⟨connection, (s.connections connection).objectId⟩ →
        s.queues[k].Idle
  | .login connection objectId =>
      objectId = (s.connections connection).objectId ∨ s.Unused connection
  | .logout connection => s.Unused connection
  | .openClearConnection connection _ => s.Unused connection
  | _ => True

/-- The states that are reached from a start of the server by events that are `ok`. -/
inductive ServiceState.Reach (cfg : QueueConfig) (lay : Layout IntQueueJob)
    (ok : ServiceState → ServiceEvent → Prop) : ServiceState → Prop
  | start {queues : NweQueues} (qServers : UInt32 → UInt32 → Int)
      (hstart : ∀ q ∈ queues, QueueStart lay q)
      (hids : ∀ q ∈ queues, NweQueue.IdsOk q.queueJobs) :
      Reach cfg lay ok ⟨queues, fun _ => ⟨false, 0⟩, qServers⟩
  | step {s s' : ServiceState} {e : ServiceEvent} {result : Option QueueResult}
      (hreach : Reach cfg lay ok s) (hok : ok s e) (hstep : s.Step cfg e result s') :
      Reach cfg lay ok s'

/-! ## One queue -/

namespace NweQueue

variable {que que' : NweQueue} {qj qj' : IntQueueJob} {i : Nat}

/-- What holds of a queue and its server. -/
structure ServiceOk (que : NweQueue) : Prop where
  jobs : que.JobsOk
  unserved : ∀ qj ∈ que.queueJobs, qj.serverId = 0 → qj.serverStation = 0
  attended : ∀ qj ∈ que.queueJobs, qj.serverId ≠ 0 → que.qserver = some qj.server
  server : ∀ qs, que.qserver = some qs → qs.userId ≠ 0

/-- Where the jobs of an edited list come from. -/
theorem Edit.origin (h : Edit que que') : que'.id = que.id ∧ que'.qserver = que.qserver ∧
    ∀ qj' ∈ que'.queueJobs, ∃ qj ∈ que.queueJobs, qj'.jobId = qj.jobId ∧ qj'.server = qj.server := by
  cases h with
  | freed jobId =>
      obtain ⟨_, _, _, heq⟩ := freeQueueJob_eq que jobId
      refine ⟨by rw [heq], by rw [heq], fun qj' hqj' => ?_⟩
      obtain ⟨qj, hqj, pos, rfl⟩ := mem_freeQueueJob hqj'
      exact ⟨qj, hqj, rfl, rfl⟩
  | marked clientArea hqj =>
      refine ⟨rfl, rfl, fun qj' hqj' => ?_⟩
      rcases List.mem_or_eq_of_mem_set hqj' with hmem | rfl
      · exact ⟨qj', hmem, rfl, rfl⟩
      · exact ⟨_, List.mem_of_getElem? hqj, rfl, rfl⟩
  | status status => exact ⟨rfl, rfl, fun qj' hqj' => ⟨qj', hqj', rfl, rfl⟩⟩

theorem Edits.origin (h : Edits que que') : que'.id = que.id ∧ que'.qserver = que.qserver ∧
    ∀ qj' ∈ que'.queueJobs, ∃ qj ∈ que.queueJobs, qj'.jobId = qj.jobId ∧ qj'.server = qj.server := by
  induction h with
  | refl => exact ⟨rfl, rfl, fun qj' hqj' => ⟨qj', hqj', rfl, rfl⟩⟩
  | tail _ hedit ih =>
      obtain ⟨hid, hserver, horigin⟩ := hedit.origin
      refine ⟨hid.trans ih.1, hserver.trans ih.2.1, fun qj' hqj' => ?_⟩
      obtain ⟨qj₁, hqj₁, hid₁, hserver₁⟩ := horigin qj' hqj'
      obtain ⟨qj, hqj, hid₂, hserver₂⟩ := ih.2.2 qj₁ hqj₁
      exact ⟨qj, hqj, hid₁.trans hid₂, hserver₁.trans hserver₂⟩

/-- Two jobs of an id are the same job. -/
theorem IdsOk.eq_of_jobId {qjs : List IntQueueJob} (hids : IdsOk qjs) (hqj : qj ∈ qjs)
    (hqj' : qj' ∈ qjs) (heq : qj.jobId = qj'.jobId) : qj = qj' :=
  List.inj_on_of_nodup_map hids.distinct hqj hqj' heq

theorem ServiceOk.edits (hok : que.ServiceOk) (h : Edits que que') : que'.ServiceOk := by
  obtain ⟨-, hserver, horigin⟩ := h.origin
  refine ⟨hok.jobs.edits h, fun qj' hqj' hzero => ?_, fun qj' hqj' hne => ?_,
    fun qs hqs => hok.server qs (hserver ▸ hqs)⟩
  · obtain ⟨qj, hqj, -, hsame⟩ := horigin qj' hqj'
    obtain ⟨hstation, hid⟩ := QueueServer.mk.inj hsame
    rw [hstation]
    exact hok.unserved qj hqj (hid ▸ hzero)
  · obtain ⟨qj, hqj, -, hsame⟩ := horigin qj' hqj'
    obtain ⟨hstation, hid⟩ := QueueServer.mk.inj hsame
    rw [hserver, hsame]
    exact hok.attended qj hqj (hid ▸ hne)

/-- The jobs after one has been created. -/
theorem addQueueJob_origin (que : NweQueue) (p : IntQueueJob) :
    (que.addQueueJob p).2.id = que.id ∧ (que.addQueueJob p).2.qserver = que.qserver ∧
      (∀ qj ∈ que.queueJobs, qj ∈ (que.addQueueJob p).2.queueJobs) ∧
      ∀ qj' ∈ (que.addQueueJob p).2.queueJobs, qj' ∈ que.queueJobs ∨ qj'.server = p.server := by
  have hlink : ∀ pos last, (que.link p pos last).2.id = que.id ∧
      (que.link p pos last).2.qserver = que.qserver ∧
      (∀ qj ∈ que.queueJobs, qj ∈ (que.link p pos last).2.queueJobs) ∧
      ∀ qj' ∈ (que.link p pos last).2.queueJobs, qj' ∈ que.queueJobs ∨ qj'.server = p.server := by
    refine fun pos last => ⟨rfl, rfl, fun _ => List.mem_append_left _, fun qj' hqj' => ?_⟩
    refine (List.mem_append.mp hqj').imp_right fun h => ?_
    rw [List.mem_singleton.mp h]
    rfl
  unfold addQueueJob
  split
  next => exact hlink _ _
  next =>
    split
    next => exact ⟨rfl, rfl, fun _ h => h, fun _ h => .inl h⟩
    next => exact hlink _ _

theorem ServiceOk.added {p : IntQueueJob} (hok : que.ServiceOk)
    (hp : p.jobId = 0 ∧ p.serverId = 0 ∧ p.serverStation = 0) :
    (que.addQueueJob p).2.ServiceOk := by
  obtain ⟨-, hserver, -, horigin⟩ := addQueueJob_origin que p
  refine ⟨hok.jobs.added hp.1, fun qj' hqj' hzero => ?_, fun qj' hqj' hne => ?_,
    fun qs hqs => hok.server qs (hserver ▸ hqs)⟩
  · rcases horigin qj' hqj' with hqj' | hsame
    · exact hok.unserved qj' hqj' hzero
    · exact (QueueServer.mk.inj hsame).1.trans hp.2.2
  · rcases horigin qj' hqj' with hqj' | hsame
    · rw [hserver]
      exact hok.attended qj' hqj' hne
    · exact absurd ((QueueServer.mk.inj hsame).2.trans hp.2.1) hne

theorem ServiceOk.setJob (hok : que.ServiceOk) (hqj : que.queueJobs[i]? = some qj)
    (hid : qj'.jobId = qj.jobId) (hposition : qj'.jobPosition = qj.jobPosition)
    (hunserved : qj'.serverId = 0 → qj'.serverStation = 0)
    (hattended : qj'.serverId ≠ 0 → que.qserver = some qj'.server) :
    (que.setJob i qj').ServiceOk := by
  refine ⟨hok.jobs.setJob hqj hid hposition, fun qj₁ hqj₁ => ?_, fun qj₁ hqj₁ => ?_, hok.server⟩
  · rcases List.mem_or_eq_of_mem_set hqj₁ with hmem | rfl
    · exact hok.unserved qj₁ hmem
    · exact hunserved
  · rcases List.mem_or_eq_of_mem_set hqj₁ with hmem | rfl
    · exact hok.attended qj₁ hmem
    · exact hattended

theorem ServiceOk.handedOut {userId : UInt32} {connection task : Int32} (hok : que.ServiceOk)
    (hqj : que.queueJobs[i]? = some qj) (hserver : que.qserver = some ⟨connection, userId⟩) :
    (que.setJob i (NweQueue.handedOut userId connection task qj)).ServiceOk :=
  hok.setJob hqj rfl rfl (fun hzero => absurd hzero (hok.server _ hserver)) fun _ => hserver

theorem ServiceOk.givenBack (hok : que.ServiceOk) (hqj : que.queueJobs[i]? = some qj) :
    (que.setJob i (NweQueue.givenBack qj)).ServiceOk :=
  hok.setJob hqj rfl rfl (fun _ => rfl) fun hne => absurd rfl hne

theorem ServiceOk.attach {qs : QueueServer} (hok : que.ServiceOk) (hqs : qs.userId ≠ 0)
    (hidle : que.qserver = some qs ∨ que.Idle) : { que with qserver := some qs }.ServiceOk := by
  refine ⟨hok.jobs.withServer _, hok.unserved, fun qj hqj hne => ?_, fun qs' hqs' => ?_⟩
  · rcases hidle with hsame | hidle
    · exact hsame ▸ hok.attended qj hqj hne
    · exact absurd (hidle qj hqj) hne
  · exact Option.some.inj hqs' ▸ hqs

theorem ServiceOk.detach (hok : que.ServiceOk) (hidle : que.Idle) :
    { que with qserver := none }.ServiceOk :=
  ⟨hok.jobs.withServer _, hok.unserved, fun qj hqj hne => absurd (hidle qj hqj) hne,
    fun _ hqs => (nomatch hqs)⟩

/-- A queue starts with no server, and so do its jobs. -/
theorem unserved_start {lay : Layout IntQueueJob} (hstart : QueueStart lay que) :
    que.qserver = none ∧ ∀ qj ∈ que.queueJobs, qj.server = ⟨0, 0⟩ := by
  have hread : ∀ (qjs : List IntQueueJob) (q : NweQueue),
      (q.qserver = none ∧ ∀ qj ∈ q.queueJobs, qj.server = ⟨0, 0⟩) →
        (q.readJobs qjs).qserver = none ∧ ∀ qj ∈ (q.readJobs qjs).queueJobs, qj.server = ⟨0, 0⟩ := by
    intro qjs
    induction qjs with
    | nil => exact fun _ h => h
    | cons qj qjs ih =>
        intro q hq
        obtain ⟨-, hserver, -, horigin⟩ := addQueueJob_origin q (correctedJob qj)
        refine ih _ ⟨hserver.trans hq.1, fun qj' hqj' => ?_⟩
        exact (horigin qj' hqj').elim (hq.2 qj') fun hsame => hsame
  have hnew : ∀ (id : UInt32) (dir : List UInt8) (downshift : Bool),
      (newQueue id dir downshift).qserver = none ∧
        ∀ qj ∈ (newQueue id dir downshift).queueJobs, qj.server = ⟨0, 0⟩ :=
    fun _ _ _ => ⟨rfl, fun _ hqj => (nomatch hqj)⟩
  cases hstart with
  | empty id dir downshift => exact hnew id dir downshift
  | read id dir downshift file =>
      unfold readQueueJobs
      split
      next => exact hnew id dir downshift
      next =>
        split
        next => exact hread _ _ (hnew id dir downshift)
        next => exact hnew id dir downshift

theorem ServiceOk.start {lay : Layout IntQueueJob} (hstart : QueueStart lay que)
    (hids : IdsOk que.queueJobs) : que.ServiceOk := by
  obtain ⟨hnone, hzero⟩ := unserved_start hstart
  refine ⟨hstart.jobsOk hids, fun qj hqj _ => ?_, fun qj hqj hne => ?_, fun qs hqs => ?_⟩
  · exact (QueueServer.mk.inj (hzero qj hqj)).1
  · exact absurd (QueueServer.mk.inj (hzero qj hqj)).2 hne
  · rw [hnone] at hqs
    contradiction

/-! ## What becomes of the jobs -/

variable {back : IntQueueJob → Prop}

theorem Stays.edits (hids : IdsOk que.queueJobs) (h : Edits que que') : Stays que back que' := by
  intro qj hqj qj' hqj' hid _
  obtain ⟨qj₀, hqj₀, hid₀, hserver⟩ := h.origin.2.2 qj' hqj'
  rw [hids.eq_of_jobId hqj hqj₀ (hid.symm.trans hid₀)]
  exact .inl hserver

theorem Stays.added {p : IntQueueJob} (hids : IdsOk (que.addQueueJob p).2.queueJobs) :
    Stays que back (que.addQueueJob p).2 := by
  intro qj hqj qj' hqj' hid _
  rw [hids.eq_of_jobId ((addQueueJob_origin que p).2.2.1 qj hqj) hqj' hid.symm]
  exact .inl rfl

theorem Stays.handedOut {userId : UInt32} {connection task : Int32} (hids : IdsOk que.queueJobs)
    (h : Edits que que') (hqj : que'.queueJobs[i]? = some qj) (hunserved : qj.serverId = 0) :
    Stays que back (que'.setJob i (NweQueue.handedOut userId connection task qj)) := by
  intro qj₁ hqj₁ qj' hqj' hid hne
  rcases List.mem_or_eq_of_mem_set hqj' with hmem | rfl
  · exact Stays.edits hids h qj₁ hqj₁ qj' hmem hid hne
  · -- the job was with no server before
    obtain ⟨qj₀, hqj₀, hid₀, hserver⟩ := h.origin.2.2 qj (List.mem_of_getElem? hqj)
    have hsame := hids.eq_of_jobId hqj₁ hqj₀ (hid.symm.trans hid₀)
    rw [hsame] at hne
    exact absurd ((QueueServer.mk.inj hserver).2.symm.trans hunserved) hne

theorem Stays.givenBack (hids : IdsOk que.queueJobs) (hqj : que.queueJobs[i]? = some qj)
    (hback : back qj) : Stays que back (que.setJob i (NweQueue.givenBack qj)) := by
  intro qj₁ hqj₁ qj' hqj' hid hne
  rcases List.mem_or_eq_of_mem_set hqj' with hmem | rfl
  · rw [hids.eq_of_jobId hqj₁ hmem hid.symm]
    exact .inl rfl
  · rw [hids.eq_of_jobId hqj₁ (List.mem_of_getElem? hqj) hid.symm]
    exact .inr ⟨hback, rfl⟩

end NweQueue

/-! ## All queues -/

variable {cfg : QueueConfig} {s s' : ServiceState} {e : ServiceEvent} {result : Option QueueResult}

theorem yields_withQueue {K : Kernel QueueCall QueueCall.Answer Unit} {queues queues' : NweQueues}
    {qId : UInt32} {missing : Int} {f : NweQueue → QueueProg (QueueResult × NweQueue)}
    {r : QueueResult} (h : Yields K () (withQueue queues qId missing f) (r, queues') ()) :
    r = .error missing ∧ queues' = queues ∨
      ∃ k q', findQueue queues qId = some k ∧ Yields K () (f (queues.get k)) (r, q') () ∧
        queues' = queues.set k q' := by
  unfold withQueue at h
  split at h
  next =>
    obtain ⟨hr, -⟩ := h
    obtain ⟨rfl, rfl⟩ := Prod.mk.inj hr
    exact .inl ⟨rfl, rfl⟩
  next k hk =>
    obtain ⟨⟨r', q'⟩, _, hf, hr, -⟩ := yields_bind.mp h
    obtain ⟨rfl, rfl⟩ := Prod.mk.inj hr
    exact .inr ⟨k, q', hk, hf, rfl⟩

/-- What holds of the queues in a state. -/
structure ServiceState.Ok (s : ServiceState) : Prop where
  service : ∀ q ∈ s.queues, q.ServiceOk
  live : ∀ q ∈ s.queues, ∀ qj ∈ q.queueJobs, qj.serverId ≠ 0 → s.Live qj.server

theorem ServiceState.Ok.attended (hok : s.Ok) : s.Attended :=
  fun q hq qj hqj hne => ⟨(hok.service q hq).attended qj hqj hne, hok.live q hq qj hqj hne⟩

/-- What a request makes of one queue. -/
structure QueueStep (s : ServiceState) (e : ServiceEvent) (q q' : NweQueue) : Prop where
  service : q'.ServiceOk
  live : ∀ qj' ∈ q'.queueJobs, qj'.serverId ≠ 0 → s.Live qj'.server
  stays : q.Stays (fun qj => e = .request qj.serverStation (.abortJob q.id qj.jobId) ∧
    s.Live qj.server ∧ qj.jobControlFlags &&& 0x10 ≠ 0) q'

section

variable {q q' : NweQueue}

theorem QueueStep.edits (hok : s.Ok) (hq : q ∈ s.queues) (h : NweQueue.Edits q q') :
    QueueStep s e q q' := by
  refine ⟨(hok.service q hq).edits h, fun qj' hqj' hne => ?_, .edits (hok.service q hq).jobs.toIdsOk h⟩
  obtain ⟨qj, hqj, -, hserver⟩ := h.origin.2.2 qj' hqj'
  rw [hserver]
  exact hok.live q hq qj hqj ((QueueServer.mk.inj hserver).2 ▸ hne)

theorem QueueStep.refl (hok : s.Ok) (hq : q ∈ s.queues) : QueueStep s e q q :=
  .edits hok hq .refl

theorem QueueStep.added (hok : s.Ok) (hq : q ∈ s.queues) {p : IntQueueJob}
    (hp : p.jobId = 0 ∧ p.serverId = 0 ∧ p.serverStation = 0) :
    QueueStep s e q (q.addQueueJob p).2 := by
  have hservice := (hok.service q hq).added hp
  refine ⟨hservice, fun qj' hqj' hne => ?_, .added hservice.jobs.toIdsOk⟩
  rcases (NweQueue.addQueueJob_origin q p).2.2.2 qj' hqj' with hqj' | hserver
  · exact hok.live q hq qj' hqj' hne
  · exact absurd ((QueueServer.mk.inj hserver).2.trans hp.2.1) hne

/-- The queue server may change when the jobs stay with it. -/
theorem QueueStep.server (hok : s.Ok) (hq : q ∈ s.queues) {qserver : Option QueueServer}
    (hservice : { q with qserver := qserver }.ServiceOk) :
    QueueStep s e q { q with qserver := qserver } :=
  have hstays : ∀ back, q.Stays back q := fun _ => .edits (hok.service q hq).jobs.toIdsOk .refl
  ⟨hservice, hok.live q hq, hstays _⟩

theorem QueueStep.handedOut {connection task : Int32} {i : Nat} {qj : IntQueueJob} (hok : s.Ok)
    (hq : q ∈ s.queues) (hactive : (s.connections connection).active = true)
    (h : NweQueue.Edits q q')
    (hserver : q.qserver = some ⟨connection, (s.connections connection).objectId⟩)
    (hqj : q'.queueJobs[i]? = some qj) (hunserved : qj.serverId = 0) :
    QueueStep s e q
      (q'.setJob i (NweQueue.handedOut (s.connections connection).objectId connection task qj)) := by
  have hedited : QueueStep s e q q' := .edits hok hq h
  refine ⟨hedited.service.handedOut hqj (h.origin.2.1.trans hserver), fun qj' hqj' hne => ?_,
    .handedOut (hok.service q hq).jobs.toIdsOk h hqj hunserved⟩
  rcases List.mem_or_eq_of_mem_set hqj' with hmem | rfl
  · exact hedited.live qj' hmem hne
  · exact ⟨hactive, rfl⟩

/-- A restart is the one way back. -/
theorem QueueStep.givenBack {connection jobId : Int32} {i : Nat} {qj : IntQueueJob} (hok : s.Ok)
    (hq : q ∈ s.queues) (hactive : (s.connections connection).active = true)
    (hqj : q.queueJobs[i]? = some qj) (hid : qj.jobId = jobId)
    (hserver : qj.server = ⟨connection, (s.connections connection).objectId⟩)
    (hrestart : qj.jobControlFlags &&& 0x10 ≠ 0) :
    QueueStep s (.request connection (.abortJob q.id jobId)) q
      (q.setJob i (NweQueue.givenBack qj)) := by
  obtain ⟨hstation, -⟩ := QueueServer.mk.inj hserver
  refine ⟨(hok.service q hq).givenBack hqj, fun qj' hqj' hne => ?_,
    .givenBack (hok.service q hq).jobs.toIdsOk hqj ⟨?_, ?_, hrestart⟩⟩
  · rcases List.mem_or_eq_of_mem_set hqj' with hmem | rfl
    · exact hok.live q hq qj' hmem hne
    · exact absurd rfl hne
  · rw [hstation, hid]
  · rw [hserver]
    exact ⟨hactive, rfl⟩

/-! ## Requests -/

variable {queues : NweQueues} {answer : QueueResult}

theorem forall₂_withQueue {K : Kernel QueueCall QueueCall.Answer Unit} {qId : UInt32} {missing : Int}
    {f : NweQueue → QueueProg (QueueResult × NweQueue)} (hok : s.Ok)
    (h : Yields K () (withQueue s.queues qId missing f) (answer, queues) ())
    (hf : ∀ k q', findQueue s.queues qId = some k → Yields K () (f s.queues[k]) (answer, q') () →
      QueueStep s e s.queues[k] q') :
    List.Forall₂ (QueueStep s e) s.queues queues := by
  have hrefl : ∀ q ∈ s.queues, QueueStep s e q q := fun _ hq => .refl hok hq
  rcases yields_withQueue h with ⟨-, rfl⟩ | ⟨k, q', hk, hyields, rfl⟩
  · exact List.forall₂_same.mpr hrefl
  · exact forall₂_set hrefl (hf k q' hk hyields)

/-- The jobs of a connection are closed in every queue. -/
theorem forall₂_closeConnectionJobs {connection task : Int32}
    {K : Kernel QueueCall QueueCall.Answer Unit} (hok : s.Ok)
    (h : Yields K () (nwCloseConnectionJobs connection task s.queues) queues ()) :
    List.Forall₂ (QueueStep s e) s.queues queues := by
  have hedits : List.Forall₂ NweQueue.Edits s.queues queues :=
    (returns_nwCloseConnectionJobs connection task fun q =>
      NweQueue.closeConnectionJobs_edits connection task q 0).of_yields h
  have hmem := (List.forall₂_and_left (p := (· ∈ s.queues)) s.queues queues).mpr
    ⟨fun _ hq => hq, hedits⟩
  exact hmem.imp fun q q' h => .edits hok h.1 h.2

/-- The answer about `Q_SERVERS` is that of the bindery. -/
theorem attachServer_server {qServers : UInt32 → UInt32 → Int} {userId : UInt32}
    {connection : Int32} (h : Yields (serverKernel qServers) ()
      (NweQueue.attachServer userId connection q) (answer, q') ()) :
    q' = q ∨ qServers q.id userId = 0 ∧ q' = { q with qserver := some ⟨connection, userId⟩ } := by
  rw [NweQueue.attachServer, ask_bind] at h
  obtain ⟨_, _, rfl, hrest⟩ := h
  dsimp only at hrest
  by_cases hmember : qServers q.id userId = 0
  · rw [if_pos hmember] at hrest
    exact .inr ⟨hmember, (Prod.mk.inj hrest.1).2.symm⟩
  · rw [if_neg hmember] at hrest
    exact .inl (Prod.mk.inj hrest.1).2.symm

/-- What every request does with the queues. -/
theorem ServiceState.Ok.request {connection : Int32} {r : ClientRequest} (hok : s.Ok)
    (hactive : (s.connections connection).active = true)
    (hallowed : s.Allowed (.request connection r))
    (h : Yields (serverKernel s.qServers) () ((queueSession cfg).handle s.queues
      (r.toRequest connection (s.connections connection).objectId)) (answer, queues) ()) :
    List.Forall₂ (QueueStep s (.request connection r)) s.queues queues := by
  have hrefl : ∀ q ∈ s.queues, QueueStep s (.request connection r) q q := fun _ hq => .refl hok hq
  have hmem : ∀ k : Fin s.queues.length, s.queues[k] ∈ s.queues := fun k => List.getElem_mem k.isLt
  cases r with
  | creatJob task qId qJob =>
      obtain ⟨dirname, _, -, hrest⟩ := h
      rcases dirname with code | (_ | ⟨c, dirname⟩)
      · exact (Prod.mk.inj hrest.1).2 ▸ List.forall₂_same.mpr hrefl
      · exact (Prod.mk.inj hrest.1).2 ▸ List.forall₂_same.mpr hrefl
      · refine forall₂_withQueue hok hrest fun k q' _ hyields => ?_
        obtain ⟨p, hp, (rfl : q' = _)⟩ :=
          (NweQueue.creatJob_adds connection task _ qJob _).of_yields hyields
        exact .added hok (hmem k) hp
  | closeJob qId jobId =>
      exact forall₂_withQueue hok h fun k q' _ hyields =>
        .edits hok (hmem k) ((NweQueue.closeJob_edits jobId).of_yields hyields)
  | setStatus qId status =>
      exact forall₂_withQueue hok h fun k q' _ hyields =>
        .edits hok (hmem k) ((NweQueue.setStatus_edits status).of_yields hyields)
  | removeJob qId jobId =>
      exact forall₂_withQueue hok h fun k q' _ hyields =>
        .edits hok (hmem k) ((NweQueue.removeJob_edits _ jobId).of_yields hyields)
  | endOfJob task =>
      obtain ⟨queues', _, hclosed, hanswer, -⟩ := yields_bind.mp h
      exact (Prod.mk.inj hanswer).2 ▸ forall₂_closeConnectionJobs hok hclosed
  | attachServer qId =>
      refine forall₂_withQueue hok h fun k q' hk hyields => ?_
      rcases attachServer_server hyields with rfl | ⟨hmember, rfl⟩
      · exact hrefl _ (hmem k)
      · obtain ⟨hlogged, hidle⟩ := hallowed k hk hmember
        exact .server hok (hmem k) ((hok.service _ (hmem k)).attach hlogged hidle)
  | detachServer qId =>
      refine forall₂_withQueue hok h fun k q' hk hyields => ?_
      rcases (NweQueue.detachServer_edits _ connection).of_yields hyields with
        (rfl : q' = _) | ⟨hserver, (rfl : q' = _)⟩
      · exact hrefl _ (hmem k)
      · exact .server hok (hmem k) ((hok.service _ (hmem k)).detach (hallowed k hk hserver))
  | serviceJob task qId jobTyp oldCall =>
      refine forall₂_withQueue hok h fun k q' _ hyields => ?_
      rcases (NweQueue.serviceJob_edits _ connection task jobTyp oldCall).of_yields hyields with
        ⟨-, hedits⟩ | ⟨q₁, i, qj, hedits, hserver, hqj, hunserved, (rfl : q' = _)⟩
      · exact .edits hok (hmem k) hedits
      · exact .handedOut hok (hmem k) hactive hedits hserver hqj hunserved
  | finishJob qId jobId =>
      refine forall₂_withQueue hok h fun k q' _ hyields => ?_
      rcases (NweQueue.finishAbortJob_edits 0 _ connection jobId).of_yields hyields with
        (rfl : q' = _) | ⟨i, qj, hqj, -, -, -, (rfl : q' = _) | ⟨hmode, -, -⟩⟩
      · exact hrefl _ (hmem k)
      · exact .edits hok (hmem k) (.single (.freed jobId))
      · contradiction
  | abortJob qId jobId =>
      refine forall₂_withQueue hok h fun k q' hk hyields => ?_
      rcases (NweQueue.finishAbortJob_edits 1 _ connection jobId).of_yields hyields with
        (rfl : q' = _) |
          ⟨i, qj, hqj, hid, huser, hstation, (rfl : q' = _) | ⟨-, hrestart, (rfl : q' = _)⟩⟩
      · exact hrefl _ (hmem k)
      · exact .edits hok (hmem k) (.single (.freed jobId))
      · have hserver : qj.server = ⟨connection, (s.connections connection).objectId⟩ :=
          congrArg₂ QueueServer.mk hstation huser
        rw [← findQueue_eq_some hk]
        exact .givenBack hok (hmem k) hactive hqj hid hserver hrestart

/-- A job is handed out to the caller and was with no server before. -/
theorem handedOut_of_yields {connection task : Int32} {qId : UInt32} {jobTyp : Int32}
    {oldCall : Bool} {reply : QueueReply} (hok : s.Ok)
    (h : Yields (serverKernel s.qServers) () ((queueSession cfg).handle s.queues
      ((ClientRequest.serviceJob task qId jobTyp oldCall).toRequest connection
        (s.connections connection).objectId)) (.ok reply, queues) ()) :
    ∃ (k : Nat) (q q' : NweQueue) (qj' : IntQueueJob),
      s.queues[k]? = some q ∧ queues[k]? = some q' ∧ qj' ∈ q'.queueJobs ∧ qj'.serverId ≠ 0 ∧
      qj'.server = ⟨connection, (s.connections connection).objectId⟩ ∧
      ∀ qj ∈ q.queueJobs, qj.jobId = qj'.jobId → qj.serverId = 0 := by
  rcases yields_withQueue h with ⟨heq, -⟩ | ⟨k, q', -, hyields, rfl⟩
  · contradiction
  · rcases (NweQueue.serviceJob_edits _ connection task jobTyp oldCall).of_yields hyields with
      ⟨heq, -⟩ | ⟨q₁, i, qj, hedits, hserver, hqj, hunserved, (rfl : q' = _)⟩
    · contradiction
    · have hservice := hok.service _ (List.getElem_mem k.isLt)
      refine ⟨k, s.queues[k], _, NweQueue.handedOut _ connection task qj,
        List.getElem?_eq_getElem k.isLt, List.getElem?_set_self k.isLt,
        List.mem_set (List.getElem?_eq_some_iff.mp hqj).1 _, hservice.server _ hserver, rfl, ?_⟩
      intro qj₁ hqj₁ hid
      obtain ⟨qj₀, hqj₀, hid₀, hserver₀⟩ := hedits.origin.2.2 qj (List.mem_of_getElem? hqj)
      rw [hservice.jobs.toIdsOk.eq_of_jobId hqj₁ hqj₀ (hid.trans hid₀)]
      exact (QueueServer.mk.inj hserver₀).2.symm.trans hunserved

/-- A job that is finished or aborted was with the caller. -/
theorem finished_of_yields {mode : Int32} {connection : Int32} {qId : UInt32} {jobId : Int32}
    {userId : UInt32} (hok : s.Ok) (hconnection : 0 < connection)
    (h : Yields (serverKernel s.qServers) () ((queueSession cfg).handle s.queues
      (.finishAbortJob mode userId connection qId jobId)) (answer, queues) ())
    (hchanged : queues ≠ s.queues) : ∃ q ∈ s.queues, q.id = qId ∧ ∃ qj ∈ q.queueJobs,
      qj.jobId = jobId ∧ qj.serverId ≠ 0 ∧ qj.server = ⟨connection, userId⟩ := by
  rcases yields_withQueue h with ⟨-, heq⟩ | ⟨k, q', hk, hyields, rfl⟩
  · contradiction
  · have hmem := List.getElem_mem k.isLt
    rcases (NweQueue.finishAbortJob_edits mode userId connection jobId).of_yields hyields with
      (rfl : q' = _) | ⟨i, qj, hqj, hid, huser, hstation, -⟩
    · exact absurd (List.set_getElem_self k.isLt) hchanged
    · have hqj := List.mem_of_getElem? hqj
      refine ⟨s.queues[k], hmem, findQueue_eq_some hk, qj, hqj, hid, fun hzero => ?_,
        congrArg₂ QueueServer.mk hstation huser⟩
      -- a job that is with no server bears no connection
      rw [(hok.service _ hmem).unserved qj hqj hzero] at hstation
      exact absurd hconnection (hstation ▸ (by decide : ¬(0 : Int32) < 0))

/-! ## Connections -/

theorem ServiceState.withQueues_ok (h : List.Forall₂ (QueueStep s e) s.queues queues) :
    { s with queues := queues }.Ok := by
  refine ⟨fun q' hq' => ?_, fun q' hq' => ?_⟩
  · obtain ⟨q, -, hstep⟩ := exists_of_forall₂ h hq'
    exact hstep.service
  · obtain ⟨q, -, hstep⟩ := exists_of_forall₂ h hq'
    exact hstep.live

/-- A connection that has no job may change. -/
theorem ServiceState.Ok.update {connection : Int32} {client : QueueClient} (hok : s.Ok)
    (h : client = s.connections connection ∨ s.Unused connection) :
    { s with connections := Function.update s.connections connection client }.Ok := by
  refine ⟨hok.service, fun q hq qj hqj hne => ?_⟩
  rcases h with rfl | hunused
  · rw [Function.update_eq_self]
    exact hok.live q hq qj hqj hne
  · have hother := hunused q hq qj hqj hne
    have hlive := hok.live q hq qj hqj hne
    have hsame : Function.update s.connections connection client qj.serverStation =
        s.connections qj.serverStation := Function.update_of_ne hother ..
    exact ⟨(congrArg QueueClient.active hsame).trans hlive.1,
      (congrArg QueueClient.objectId hsame).trans hlive.2⟩

theorem ServiceState.Unused.closed {connection task : Int32}
    {K : Kernel QueueCall QueueCall.Answer Unit} (hunused : s.Unused connection)
    (h : Yields K () (nwCloseConnectionJobs connection task s.queues) queues ()) :
    { s with queues := queues }.Unused connection := by
  have hedits : List.Forall₂ NweQueue.Edits s.queues queues :=
    (returns_nwCloseConnectionJobs connection task fun q =>
      NweQueue.closeConnectionJobs_edits connection task q 0).of_yields h
  intro q' hq' qj' hqj' hne
  obtain ⟨q, hq, hedits⟩ := exists_of_forall₂ hedits hq'
  obtain ⟨qj, hqj, -, hserver⟩ := hedits.origin.2.2 qj' hqj'
  obtain ⟨hstation, hid⟩ := QueueServer.mk.inj hserver
  exact hstation ▸ hunused q hq qj hqj (hid ▸ hne)

/-! ## Steps and runs -/

theorem ServiceState.Ok.step (hok : s.Ok) (hallowed : s.Allowed e)
    (hstep : s.Step cfg e result s') : s'.Ok := by
  cases hstep with
  | request hconnection hactive hyields => exact withQueues_ok (hok.request hactive hallowed hyields)
  | login hconnection hactive =>
      refine hok.update (hallowed.imp_left fun heq => ?_)
      rw [heq, ← hactive]
  | @logout connection queues hconnection hactive hyields =>
      have hqueues : List.Forall₂ (QueueStep s (.logout connection)) s.queues queues :=
        forall₂_closeConnectionJobs hok hyields
      exact (withQueues_ok hqueues).update (.inr (hallowed.closed hyields))
  | openClearConnection connection activate => exact hok.update (.inr hallowed)
  | bindery qServers => exact ⟨hok.service, hok.live⟩

theorem ServiceState.Ok.stays (hok : s.Ok) (hallowed : s.Allowed e)
    (hstep : s.Step cfg e result s') : List.Forall₂ (fun q q' => q.Stays (fun qj =>
      e = .request qj.serverStation (.abortJob q.id qj.jobId) ∧ s.Live qj.server ∧
        qj.jobControlFlags &&& 0x10 ≠ 0) q') s.queues s'.queues := by
  have hqueues : List.Forall₂ (QueueStep s e) s.queues s'.queues := by
    cases hstep with
    | request hconnection hactive hyields => exact hok.request hactive hallowed hyields
    | logout hconnection hactive hyields => exact forall₂_closeConnectionJobs hok hyields
    | login | openClearConnection | bindery =>
        exact List.forall₂_same.mpr fun _ hq => .refl hok hq
  exact hqueues.imp fun _ _ => QueueStep.stays

theorem ServiceState.Ok.stepOk (hok : s.Ok) (hallowed : s.Allowed e)
    (hstep : s.Step cfg e result s') : s.StepOk e result s' := by
  refine ⟨hok.stays hallowed hstep, ?_, ?_⟩
  · rintro connection task qId jobTyp oldCall reply rfl rfl
    cases hstep with
    | request hconnection hactive hyields => exact handedOut_of_yields hok hyields
  · rintro connection qId jobId (rfl | rfl) hchanged
    · cases hstep with
      | request hconnection hactive hyields =>
          exact finished_of_yields hok hconnection hyields hchanged
    · cases hstep with
      | request hconnection hactive hyields =>
          exact finished_of_yields hok hconnection hyields hchanged

theorem ServiceState.Reach.ok {lay : Layout IntQueueJob}
    (h : Reach cfg lay Allowed s) : s.Ok := by
  induction h with
  | start qServers hstart hids =>
      refine ⟨fun q hq => .start (hstart q hq) (hids q hq), fun q hq qj hqj hne => ?_⟩
      have hzero := (NweQueue.unserved_start (hstart q hq)).2 qj hqj
      exact absurd (QueueServer.mk.inj hzero).2 hne
  | step _ hallowed hstep ih => exact ih.step hallowed hstep

/-- As long as no server goes that still has a job, every job that is handed out is
with the server of its queue on a live connection, and a job goes from one server to
another only when that one has aborted it. -/
theorem jobs_attended (cfg : QueueConfig) (lay : Layout IntQueueJob)
    (h : ServiceState.Reach cfg lay ServiceState.Allowed s) :
    s.Attended ∧ ∀ e result s', s.Allowed e → s.Step cfg e result s' → s.StepOk e result s' :=
  ⟨h.ok.attended, fun _ _ _ hallowed hstep => h.ok.stepOk hallowed hstep⟩

end

/-! ## A job that is left behind -/

theorem ServiceState.Reach.mono {lay : Layout IntQueueJob} {ok ok' : ServiceState → ServiceEvent → Prop}
    (h : Reach cfg lay ok s) (hok : ∀ s e, ok s e → ok' s e) : Reach cfg lay ok' s := by
  induction h with
  | start qServers hstart hids => exact .start qServers hstart hids
  | step _ hallowed hstep ih => exact ih.step (hok _ _ hallowed) hstep

/-- A job for any server, of any type. -/
def readyJob : IntQueueJob :=
  { NweQueue.newQueueJob 1 0 5 0 with targetId := 0xffffffff, jobTyp := 0xffff }

/-- A queue that has one job to be served. -/
def readyQueue : NweQueue :=
  { (newQueue 9 [chr 'q'] false).readJobs [readyJob] with changed := 0 }

theorem readyQueue_start : QueueStart IntQueueJob.packed readyQueue := by
  have hread : readyQueue = (newQueue 9 [chr 'q'] false).readQueueJobs IntQueueJob.packed
      (some (sizeHeader IntQueueJob.packed ++ IntQueueJob.packed.blocks [readyJob])) :=
    (NweQueue.readQueueJobs_blocks _ _ _).symm
  rw [hread]
  exact .read ..

theorem readyQueue_ids : NweQueue.IdsOk readyQueue.queueJobs where
  distinct := List.nodup_singleton _
  range qj hqj := by
    rw [List.mem_singleton.mp hqj]
    decide

/-- The queue with its server. -/
def servedQueue : NweQueue := { readyQueue with qserver := some ⟨2, 7⟩ }

/-- The job as it stands in the queue. -/
def firstJob : IntQueueJob := { correctedJob readyJob with jobId := 1, jobPosition := 1 }

/-- The queue when its server has the job. -/
def busyQueue : NweQueue := servedQueue.setJob 0 (NweQueue.handedOut 7 2 0 firstJob)

/-- The connections when only user 7 is there, on connection 2. -/
def onlyServer : Int32 → QueueClient := Function.update (fun _ => ⟨false, 0⟩) 2 ⟨true, 7⟩

theorem yields_findServiceable {K : Kernel QueueCall QueueCall.Answer Unit} {que : NweQueue}
    {qj : IntQueueJob} {userId : UInt32} {jobTyp : Int32} {acttime : Int64}
    (hK : ∀ path, K () (.stat path) (some 1) ()) (hqj : que.queueJobs[0]? = some qj)
    (hserviceable : NweQueue.isServiceable userId jobTyp acttime qj = true) :
    Yields K () (que.findServiceable userId jobTyp acttime 0) (que, some (0, qj)) () := by
  unfold NweQueue.findServiceable
  split
  next hnone => cases hnone.symm.trans hqj
  next hsome =>
    obtain rfl := Option.some.inj (hsome.symm.trans hqj)
    rw [if_pos hserviceable]
    exact ⟨some 1, (), hK _, rfl, rfl⟩

theorem yields_serviceJob (cfg : QueueConfig) :
    Yields (serverKernel fun _ _ => 0) () ((queueSession cfg).handle [servedQueue]
        (.serviceJob 7 2 0 9 0xffff false))
      (.ok (.job (fillJobEntry cfg false (NweQueue.handedOut 7 2 0 firstJob) none) [chr 'q']),
        [busyQueue]) () := by
  have hfound : Yields (serverKernel fun _ _ => 0) ()
      (servedQueue.findServiceable 7 0xffff 0 0) (servedQueue, some (0, firstJob)) () :=
    yields_findServiceable (fun _ => trivial) rfl (by decide)
  have hjob : Yields (serverKernel fun _ _ => 0) ()
      (servedQueue.serviceJob cfg 7 2 0 0xffff false)
      (.ok (.job (fillJobEntry cfg false (NweQueue.handedOut 7 2 0 firstJob) none) [chr 'q']),
        busyQueue) () := by
    rw [NweQueue.serviceJob, if_pos (by decide)]
    exact ⟨.ok [chr 'q'], (), trivial, 0, (), trivial, hfound.bind ⟨rfl, rfl⟩⟩
  exact hjob.bind ⟨rfl, rfl⟩

/-- The server attaches and gets the job. -/
theorem reach_busy (cfg : QueueConfig) :
    ServiceState.Reach cfg IntQueueJob.packed ServiceState.Allowed
      ⟨[busyQueue], onlyServer, fun _ _ => 0⟩ := by
  have hstart : ServiceState.Reach cfg IntQueueJob.packed ServiceState.Allowed
      ⟨[readyQueue], fun _ => ⟨false, 0⟩, fun _ _ => 0⟩ :=
    .start _ (fun _ hq => List.mem_singleton.mp hq ▸ readyQueue_start)
      fun _ hq => List.mem_singleton.mp hq ▸ readyQueue_ids
  have hidle : ∀ qj ∈ readyQueue.queueJobs, qj.serverId = 0 :=
    fun _ hqj => List.mem_singleton.mp hqj ▸ rfl
  have hunused : ∀ connections, ServiceState.Unused ⟨[readyQueue], connections, fun _ _ => 0⟩ 2 := by
    intro connections q hq qj hqj hne
    rw [List.mem_singleton.mp hq] at hqj
    exact absurd (hidle qj hqj) hne
  have hopened := hstart.step (e := .openClearConnection 2 true) (hunused _)
    (.openClearConnection 2 true)
  have hlogged : ServiceState.Reach cfg IntQueueJob.packed ServiceState.Allowed
      ⟨[readyQueue], onlyServer, fun _ _ => 0⟩ := by
    have hstep := hopened.step (e := .login 2 7) (.inr (hunused _)) (.login (by decide) rfl)
    rwa [Function.update_idem] at hstep
  have hallowed : ServiceState.Allowed ⟨[readyQueue], onlyServer, fun _ _ => 0⟩
      (.request 2 (.attachServer 9)) := by
    refine fun k _ _ => ⟨by decide, .inr ?_⟩
    have hqueue : [readyQueue][k] = readyQueue := List.mem_singleton.mp (List.getElem_mem k.isLt)
    exact (congrArg NweQueue.Idle hqueue).mpr hidle
  have hyields : Yields (serverKernel fun _ _ => 0) ()
      ((queueSession cfg).handle [readyQueue] (.attachServer 7 2 9)) (.ok .empty, [servedQueue]) () :=
    ⟨0, (), rfl, rfl, rfl⟩
  have hattached : ServiceState.Reach cfg IntQueueJob.packed ServiceState.Allowed
      ⟨[servedQueue], onlyServer, fun _ _ => 0⟩ :=
    hlogged.step hallowed (.request (by decide) rfl hyields)
  exact hattached.step (e := .request 2 (.serviceJob 0 9 0xffff false)) trivial
    (.request (by decide) rfl (yields_serviceJob cfg))

theorem jobs_attended_busy :
    ServiceState.Attended ⟨[busyQueue], onlyServer, fun _ _ => 0⟩ ∧
      ∀ e result s', ServiceState.Allowed ⟨[busyQueue], onlyServer, fun _ _ => 0⟩ e →
        ServiceState.Step .still ⟨[busyQueue], onlyServer, fun _ _ => 0⟩ e result s' →
        ServiceState.StepOk ⟨[busyQueue], onlyServer, fun _ _ => 0⟩ e result s' :=
  jobs_attended .still IntQueueJob.packed (reach_busy .still)

/-- The connection of a queue server goes, and its job stays with it. -/
theorem not_jobs_attended :
    ¬∀ (cfg : QueueConfig) (lay : Layout IntQueueJob) (s : ServiceState),
      ServiceState.Reach cfg lay (fun _ _ => True) s →
        s.Attended ∧ ∀ e result s', s.Step cfg e result s' → s.StepOk e result s' := by
  intro h
  let cfg := QueueConfig.still
  have hbusy : ServiceState.Reach cfg IntQueueJob.packed (fun _ _ => True)
      ⟨[busyQueue], onlyServer, fun _ _ => 0⟩ := (reach_busy cfg).mono fun _ _ _ => trivial
  have hcleared := hbusy.step trivial (.openClearConnection 2 false)
  have hattended := (h cfg _ _ hcleared).1 busyQueue (List.mem_singleton_self _)
    (NweQueue.handedOut 7 2 0 firstJob) (List.mem_singleton_self _) (by decide)
  exact absurd hattended.2.1 (by decide)

end MarsNwe
