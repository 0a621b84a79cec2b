import Mathlib.Logic.Relation
import MarsNwe.Queue.Requests

/-! # What a request does to a queue

Whatever the bindery, the files and the clock answer, a request edits the list of
jobs in a few ways, hands a job out, takes it back or changes the queue server.
-/

namespace MarsNwe

open Prog

namespace NweQueue

/-- The edits that add no job, hand out none and leave the queue server alone. -/
inductive Edit (que : NweQueue) : NweQueue → Prop
  | freed (jobId : Int32) : Edit que (que.freeQueueJob jobId)
  | marked {i : Nat} {qj : IntQueueJob} (clientArea : ByteBuf 152)
      (hqj : que.queueJobs[i]? = some qj) :
      Edit que (que.setJob i { qj with
        clientArea := clientArea
        jobControlFlags := qj.jobControlFlags &&& ~~~0x20 })
  | status (status : Int32) : Edit que { que with status := status }

/-- Any number of edits. -/
abbrev Edits : NweQueue → NweQueue → Prop := Relation.ReflTransGen Edit

variable {cfg : QueueConfig} {que : NweQueue}

theorem findQueueJob_eq_some {jobId : Int32} {i : Fin que.queueJobs.length}
    (h : que.findQueueJob jobId = some i) :
    que.queueJobs[i.val]? = some (que.queueJobs.get i) ∧ (que.queueJobs.get i).jobId = jobId :=
  ⟨List.getElem?_eq_getElem i.isLt,
    of_decide_eq_true (List.findFinIdx?_eq_some_iff.mp h).1⟩

/-- A job that is created has no id yet and no queue server. -/
theorem creatJob_adds (connection task : Int32) (objectId : UInt32) (qJob : JobEntry)
    (dirname : List UInt8) :
    Returns (fun r => ∃ p : IntQueueJob, (p.jobId = 0 ∧ p.serverId = 0 ∧ p.serverStation = 0) ∧
        r.2 = (que.addQueueJob p).2)
      (creatJob cfg connection task objectId qJob dirname que) := by
  refine returns_ask_bind.mpr fun entryTime => ?_
  have hp : ∀ p : IntQueueJob, p = takeOver cfg (newQueueJob connection task objectId entryTime) qJob →
      p.jobId = 0 ∧ p.serverId = 0 ∧ p.serverStation = 0 := by
    rintro p rfl
    cases qJob <;> exact ⟨rfl, rfl, rfl⟩
  split
  next heq => exact ⟨_, hp _ rfl, by rw [heq]⟩
  next heq => exact ⟨_, hp _ rfl, by rw [heq]⟩

theorem closeJob_edits (jobId : Int32) :
    Returns (fun r => Edits que r.2) (closeJob cfg jobId que) := by
  unfold closeJob
  split
  next => exact .refl
  next i hi =>
    have hmarked : Edits que _ := .single (.marked
      (if cfg.entry18Flags &&& 1 ≠ 0 then
        ByteBuf.ofList 152 (que.queueJobs[i].clientArea.bytes.modify 5 (· &&& ~~~0x80))
      else que.queueJobs[i].clientArea) (findQueueJob_eq_some hi).1)
    refine returns_ask_bind.mpr ?_
    rintro (_ | command)
    · exact hmarked
    · exact hmarked.tail (.freed jobId)

theorem removeJob_edits (userId : UInt32) (jobId : Int32) :
    Returns (fun r => Edits que r.2) (removeJob userId jobId que) := by
  unfold removeJob
  split
  next => exact .refl
  next i _ =>
    split
    next =>
      refine (returns_bind).mpr ((Returns.trivial _).mono ?_)
      rintro (_ | _) -
      · exact .refl
      · exact .single (.freed jobId)
    next => exact .refl

theorem closeConnectionJobs_edits (connection task : Int32) (que : NweQueue) (i : Nat) :
    Returns (fun q => Edits que q) (closeConnectionJobs connection task que i) := by
  fun_induction closeConnectionJobs with
  | case1 => exact .refl
  | case2 que i qj hqj hcond ihmarked ihfreed =>
      refine returns_bind.mpr ((Returns.trivial _).mono fun size _ => ?_)
      split
      next => exact ihmarked.mono fun q hq => .head (.marked qj.clientArea hqj) hq
      next =>
        refine returns_bind.mpr ((Returns.trivial _).mono fun _ _ => ?_)
        exact ihfreed.mono fun q hq => .head (.freed qj.jobId) hq
  | case3 _ _ _ _ _ ih => exact ih

/-- The search of a queue server frees jobs and ends with a job that it may get. -/
theorem findServiceable_edits (userId : UInt32) (jobTyp : Int32) (acttime : Int64)
    (que : NweQueue) (i : Nat) :
    Returns (fun r => Edits que r.1 ∧ ∀ k qj, r.2 = some (k, qj) →
        r.1.queueJobs[k]? = some qj ∧ isServiceable userId jobTyp acttime qj = true)
      (findServiceable userId jobTyp acttime que i) := by
  fun_induction findServiceable with
  | case1 => exact ⟨.refl, fun _ _ h => (nomatch h)⟩
  | case2 que i qj hqj hserviceable ihfreed ihnext =>
      refine returns_bind.mpr ((Returns.trivial _).mono fun size _ => ?_)
      split
      next =>
        refine ⟨.refl, fun k qj' h => ?_⟩
        obtain ⟨rfl, rfl⟩ := Prod.mk.inj (Option.some.inj h)
        exact ⟨hqj, hserviceable⟩
      next =>
        refine returns_ask_bind.mpr fun now => ?_
        split
        next =>
          refine returns_bind.mpr ((Returns.trivial _).mono fun _ _ => ?_)
          exact ihfreed.mono fun r ⟨hedits, hfound⟩ => ⟨.head (.freed qj.jobId) hedits, hfound⟩
        next => exact ihnext
  | case3 _ _ _ _ _ ih => exact ih

/-- The job as the queue server has it. -/
def handedOut (userId : UInt32) (connection task : Int32) (qj : IntQueueJob) : IntQueueJob :=
  { qj with serverId := userId, serverStation := connection, serverTask := task }

/-- Servicing frees jobs, and if the caller is the queue server, it may then hand out
a job that is not served. -/
theorem serviceJob_edits (userId : UInt32) (connection task jobTyp : Int32) (oldCall : Bool) :
    Returns (fun r => (r.1 = .error (-0xd5) ∧ Edits que r.2) ∨ ∃ q i qj, Edits que q ∧
        que.qserver = some ⟨connection, userId⟩ ∧ q.queueJobs[i]? = some qj ∧ qj.serverId = 0 ∧
        r.2 = q.setJob i (handedOut userId connection task qj))
      (serviceJob cfg userId connection task jobTyp oldCall que) := by
  unfold serviceJob
  split
  next hserver =>
    refine returns_ask_bind.mpr fun dirname => ?_
    split
    next => exact .inl ⟨rfl, .refl⟩
    next => exact .inl ⟨rfl, .refl⟩
    next =>
      refine returns_ask_bind.mpr fun acttime => ?_
      refine returns_bind.mpr ((findServiceable_edits userId jobTyp acttime que 0).mono ?_)
      rintro ⟨q, _ | ⟨i, qj⟩⟩ ⟨hedits, hfound⟩
      · exact .inl ⟨rfl, hedits⟩
      · obtain ⟨hqj, hserviceable⟩ := hfound i qj rfl
        simp only [isServiceable, decide_eq_true_eq] at hserviceable
        exact .inr ⟨q, i, qj, hedits, hserver.1, hqj, hserviceable.1, rfl⟩
  next => exact .inl ⟨rfl, .refl⟩

/-- The job as it is given back. -/
def givenBack (qj : IntQueueJob) : IntQueueJob := { qj with serverId := 0, serverStation := 0 }

/-- A job is finished or aborted only by the queue server that it was handed to;
aborting a job with the restart flag gives it back. -/
theorem finishAbortJob_edits (mode : Int32) (userId : UInt32) (connection jobId : Int32) :
    Returns (fun r => r.2 = que ∨ ∃ i qj, que.queueJobs[i]? = some qj ∧ qj.jobId = jobId ∧
        qj.serverId = userId ∧ qj.serverStation = connection ∧
        (r.2 = que.freeQueueJob jobId ∨
          mode ≠ 0 ∧ qj.jobControlFlags &&& 0x10 ≠ 0 ∧ r.2 = que.setJob i (givenBack qj)))
      (finishAbortJob mode userId connection jobId que) := by
  unfold finishAbortJob
  split
  next => exact .inl rfl
  next i hi =>
    obtain ⟨hqj, hid⟩ := findQueueJob_eq_some hi
    dsimp only
    split
    next hserver =>
      split
      next hrestart =>
        exact .inr ⟨i, _, hqj, hid, hserver.1, hserver.2, .inr ⟨hrestart.1, hrestart.2, rfl⟩⟩
      next =>
        refine returns_bind.mpr ((Returns.trivial _).mono ?_)
        rintro (_ | _) -
        · exact .inl rfl
        · exact .inr ⟨i, _, hqj, hid, hserver.1, hserver.2, .inl rfl⟩
    next => exact .inl rfl

theorem attachServer_edits (userId : UInt32) (connection : Int32) :
    Returns (fun r => r.2 = que ∨ r.2 = { que with qserver := some ⟨connection, userId⟩ })
      (attachServer userId connection que) := by
  refine returns_ask_bind.mpr fun result => ?_
  split
  next => exact .inr rfl
  next => exact .inl rfl

theorem detachServer_edits (userId : UInt32) (connection : Int32) :
    Returns (fun r => r.2 = que ∨ que.qserver = some ⟨connection, userId⟩ ∧
        r.2 = { que with qserver := none }) (detachServer userId connection que) := by
  unfold detachServer
  split
  next hserver => exact .inr ⟨hserver, rfl⟩
  next => exact .inl rfl

theorem setStatus_edits (status : Int32) :
    Returns (fun r => Edits que r.2) (setStatus status que) :=
  .single (.status status)

end NweQueue

/-! ## All queues -/

variable {cfg : QueueConfig} {queues : NweQueues}

theorem findQueue_eq_some {qId : UInt32} {k : Fin queues.length}
    (h : findQueue queues qId = some k) : (queues.get k).id = qId :=
  of_decide_eq_true (List.findFinIdx?_eq_some_iff.mp h).1

/-- A relation between a queue and what it has become that goes on over all changes. -/
structure GoesOn (R : NweQueue → NweQueue → Prop) : Prop where
  refl (q : NweQueue) : R q q
  edit {q q' q'' : NweQueue} : R q q' → NweQueue.Edit q' q'' → R q q''
  added {q q' : NweQueue} {p : IntQueueJob} : R q q' → p.jobId = 0 → R q (q'.addQueueJob p).2
  server {q q' : NweQueue} {qserver : Option QueueServer} :
    R q q' → R q { q' with qserver := qserver }
  handedOut {q q' : NweQueue} {i : Nat} {qj : IntQueueJob} {userId : UInt32}
    {connection task : Int32} : R q q' → q'.queueJobs[i]? = some qj →
      R q (q'.setJob i (NweQueue.handedOut userId connection task qj))
  givenBack {q q' : NweQueue} {i : Nat} {qj : IntQueueJob} : R q q' →
    q'.queueJobs[i]? = some qj → R q (q'.setJob i (NweQueue.givenBack qj))

section

variable {R : NweQueue → NweQueue → Prop}

theorem GoesOn.edits (hR : GoesOn R) {q q' : NweQueue} (hedits : NweQueue.Edits q q') :
    R q q' := by
  induction hedits with
  | refl => exact hR.refl q
  | tail _ hedit ih => exact hR.edit ih hedit

theorem forall₂_set (hrefl : ∀ q ∈ queues, R q q) {k : Fin queues.length} {q : NweQueue}
    (hq : R (queues.get k) q) : List.Forall₂ R queues (queues.set k q) := by
  refine List.forall₂_iff_get.mpr ⟨List.length_set.symm, fun i hi hi' => ?_⟩
  rw [List.get_eq_getElem, List.get_eq_getElem, List.getElem_set]
  split
  next heq =>
    subst heq
    exact hq
  next => exact hrefl _ (List.getElem_mem hi)

theorem exists_of_forall₂ {queues' : NweQueues} (h : List.Forall₂ R queues queues') {q' : NweQueue}
    (hq' : q' ∈ queues') : ∃ q ∈ queues, R q q' := by
  induction h with
  | nil => contradiction
  | cons hhead _ ih =>
      rcases List.mem_cons.mp hq' with rfl | hq'
      · exact ⟨_, List.mem_cons_self, hhead⟩
      · obtain ⟨q, hq, hR⟩ := ih hq'
        exact ⟨q, List.mem_cons_of_mem _ hq, hR⟩

/-- What a request makes of one queue, it makes of the table. -/
theorem returns_withQueue (hrefl : ∀ q, R q q) {qId : UInt32} {missing : Int}
    {f : NweQueue → QueueProg (QueueResult × NweQueue)} (hf : ∀ q, Returns (fun r => R q r.2) (f q)) :
    Returns (fun r => List.Forall₂ R queues r.2) (withQueue queues qId missing f) := by
  unfold withQueue
  split
  next => exact List.forall₂_same.mpr fun q _ => hrefl q
  next k _ => exact returns_bind.mpr ((hf queues[k]).mono fun r hr =>
      forall₂_set (fun q _ => hrefl q) hr)

theorem returns_nwCloseConnectionJobs (connection task : Int32)
    (hf : ∀ q, Returns (R q) (NweQueue.closeConnectionJobs connection task q 0)) :
    Returns (List.Forall₂ R queues) (nwCloseConnectionJobs connection task queues) := by
  induction queues with
  | nil => exact .nil
  | cons q queues ih =>
      refine returns_bind.mpr ((hf q).mono fun q' hq' => ?_)
      exact returns_bind.mpr (ih.mono fun queues' hqueues' => .cons hq' hqueues')

/-- Every request takes each queue on along the relation. -/
theorem GoesOn.returns_request (hR : GoesOn R) (e : QueueRequest) :
    Returns (fun r => List.Forall₂ R queues r.2) ((queueSession cfg).handle queues e) := by
  cases e with
  | creatJob connection task objectId qId qJob =>
      refine returns_ask_bind.mpr fun dirname => ?_
      split
      next => exact List.forall₂_same.mpr fun q _ => hR.refl q
      next => exact List.forall₂_same.mpr fun q _ => hR.refl q
      next dirname _ =>
        refine returns_withQueue hR.refl fun q =>
          (NweQueue.creatJob_adds connection task objectId qJob dirname).mono fun r hr => ?_
        obtain ⟨p, hp, hr⟩ := hr
        rw [hr]
        exact hR.added (hR.refl q) hp.1
  | closeJob qId jobId =>
      exact returns_withQueue hR.refl fun q =>
        (NweQueue.closeJob_edits jobId).mono fun _ => hR.edits
  | setStatus qId status =>
      exact returns_withQueue hR.refl fun q =>
        (NweQueue.setStatus_edits status).mono fun _ => hR.edits
  | removeJob userId qId jobId =>
      exact returns_withQueue hR.refl fun q =>
        (NweQueue.removeJob_edits userId jobId).mono fun _ => hR.edits
  | closeConnectionJobs connection task =>
      exact returns_bind.mpr (returns_nwCloseConnectionJobs connection task fun q =>
        (NweQueue.closeConnectionJobs_edits connection task q 0).mono fun _ => hR.edits)
  | attachServer userId connection qId =>
      refine returns_withQueue hR.refl fun q =>
        (NweQueue.attachServer_edits userId connection).mono fun r hr => ?_
      rcases hr with hr | hr <;> rw [hr]
      · exact hR.refl q
      · exact hR.server (hR.refl q)
  | detachServer userId connection qId =>
      refine returns_withQueue hR.refl fun q =>
        (NweQueue.detachServer_edits userId connection).mono fun r hr => ?_
      rcases hr with hr | ⟨-, hr⟩ <;> rw [hr]
      · exact hR.refl q
      · exact hR.server (hR.refl q)
  | serviceJob userId connection task qId jobTyp oldCall =>
      refine returns_withQueue hR.refl fun q =>
        (NweQueue.serviceJob_edits userId connection task jobTyp oldCall).mono fun r hr => ?_
      rcases hr with ⟨-, hr⟩ | ⟨q', i, qj, hedits, -, hqj, -, hr⟩
      · exact hR.edits hr
      · rw [hr]
        exact hR.handedOut (hR.edits hedits) hqj
  | finishAbortJob mode userId connection qId jobId =>
      refine returns_withQueue hR.refl fun q =>
        (NweQueue.finishAbortJob_edits mode userId connection jobId).mono fun r hr => ?_
      rcases hr with hr | ⟨i, qj, hqj, -, -, -, hr | ⟨-, -, hr⟩⟩ <;> rw [hr]
      · exact hR.refl q
      · exact hR.edit (hR.refl q) (.freed jobId)
      · exact hR.givenBack (hR.refl q) hqj

end

/-- What the changes of requests keep of a queue. -/
abbrev KeptAlong (I : NweQueue → Prop) : Prop := GoesOn fun q q' => I q → I q'

/-- The queues over any bindery, files and clock. -/
abbrev QueueRun (cfg : QueueConfig) (start : NweQueues) (es : List (QueueRequest × QueueResult))
    (queues : NweQueues) : Prop :=
  (queueSession cfg).Run (fun _ => anyKernel) start () es queues ()

theorem KeptAlong.request {I : NweQueue → Prop} (hkept : KeptAlong I) (e : QueueRequest)
    (hqueues : ∀ q ∈ queues, I q) :
    Returns (fun r => ∀ q ∈ r.2, I q) ((queueSession cfg).handle queues e) := by
  refine (hkept.returns_request e).mono fun r hr q' hq' => ?_
  obtain ⟨q, hq, hI⟩ := exists_of_forall₂ hr hq'
  exact hI (hqueues q hq)

/-- What the changes keep of a queue holds at the end of every run. -/
theorem KeptAlong.run {I : NweQueue → Prop} (hkept : KeptAlong I) {start : NweQueues}
    {es : List (QueueRequest × QueueResult)} (hstart : ∀ q ∈ start, I q)
    (hrun : QueueRun cfg start es queues) : ∀ q ∈ queues, I q :=
  Session.Run.invariant (I := fun queues _ => ∀ q ∈ queues, I q)
    (fun _ _ e hqueues => ensures_anyKernel.mpr (hkept.request e hqueues)) hrun hstart

end MarsNwe
