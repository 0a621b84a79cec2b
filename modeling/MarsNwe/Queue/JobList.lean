import MarsNwe.Queue.Changes
import MarsNwe.Queue.Files

/-! # The list of jobs of a queue

The jobs have distinct ids in 1 .. 999 and are numbered in the order of the list.
The search for an id never tries the one that it starts from, so that the last
free id may be overlooked; what that takes is stated exactly.
-/

namespace MarsNwe

open Prog

/-! ## Small numbers as `int` -/

theorem toInt_ofNat_small {n : Nat} (h : n ≤ 999) : (Int32.ofNat n).toInt = n :=
  Int32.toInt_ofNat_of_lt (by omega)

theorem ofNat_small_inj {m n : Nat} (hm : m ≤ 999) (hn : n ≤ 999)
    (h : Int32.ofNat m = Int32.ofNat n) : m = n := by
  have hint := congrArg Int32.toInt h
  rw [toInt_ofNat_small hm, toInt_ofNat_small hn] at hint
  omega

theorem small_iff {i : Int32} :
    1 ≤ i ∧ i ≤ 999 ↔ ∃ n : Nat, (1 ≤ n ∧ n ≤ 999) ∧ i = Int32.ofNat n := by
  have hone : (1 : Int32).toInt = 1 := by decide
  have htop : (999 : Int32).toInt = 999 := by decide
  rw [Int32.le_iff_toInt_le, Int32.le_iff_toInt_le, hone, htop]
  constructor
  · intro ⟨hpos, hle⟩
    refine ⟨i.toInt.toNat, by omega, Int32.toInt_inj.mp ?_⟩
    rw [toInt_ofNat_small (by omega)]
    omega
  · rintro ⟨n, hn, rfl⟩
    rw [toInt_ofNat_small hn.2]
    omega

namespace NweQueue

variable {que que' : NweQueue} {qj p : IntQueueJob} {qjs qjs' : List IntQueueJob} {pos : Int32}
  {jobId : Int32}

/-! ## The invariant -/

/-- The `job_position` fields count on from `pos`. -/
def Numbered (pos : Int32) : List IntQueueJob → Prop
  | [] => True
  | qj :: qjs => qj.jobPosition = pos ∧ Numbered (pos + 1) qjs

/-- The ids are distinct and in 1 .. 999. -/
structure IdsOk (qjs : List IntQueueJob) : Prop where
  distinct : (qjs.map IntQueueJob.jobId).Nodup
  range : ∀ qj ∈ qjs, 1 ≤ qj.jobId ∧ qj.jobId ≤ 999

/-- The fields that count the jobs are right. -/
structure Counted (que : NweQueue) : Prop where
  numbered : Numbered 1 que.queueJobs
  count : que.countJobs = Int32.ofNat que.queueJobs.length
  counter : que.queueJobs ≠ [] → que.lastJobId ≠ 0

/-- What holds of the jobs of a queue. -/
structure JobsOk (que : NweQueue) : Prop extends IdsOk que.queueJobs, Counted que

/-- Every id is the id of a job. -/
def AllIdsUsed (que : NweQueue) : Prop :=
  ∀ i : Int32, 1 ≤ i → i ≤ 999 → ∃ qj ∈ que.queueJobs, qj.jobId = i

/-- The id that was given last is free, and it is the only free one. -/
def OnlyLastFree (que : NweQueue) : Prop :=
  (∀ qj ∈ que.queueJobs, qj.jobId ≠ Int32.ofNat que.lastJobId) ∧
    ∀ i : Int32, 1 ≤ i → i ≤ 999 → i ≠ Int32.ofNat que.lastJobId →
      ∃ qj ∈ que.queueJobs, qj.jobId = i

theorem numbered_append (qjs qjs' : List IntQueueJob) :
    Numbered pos (qjs ++ qjs') ↔
      Numbered pos qjs ∧ Numbered (pos + Int32.ofNat qjs.length) qjs' := by
  induction qjs generalizing pos with
  | nil => simp [Numbered]
  | cons qj qjs ih =>
      have hlength : pos + Int32.ofNat (qj :: qjs).length = pos + 1 + Int32.ofNat qjs.length := by
        rw [List.length_cons, Int32.ofNat_add, Int32.add_comm (Int32.ofNat _), Int32.add_assoc]
        rfl
      rw [List.cons_append, Numbered, Numbered, ih, hlength, and_assoc]

theorem numbered_renumber (pos : Int32) (qjs : List IntQueueJob) :
    Numbered pos (renumber pos qjs) := by
  induction qjs generalizing pos with
  | nil => trivial
  | cons qj qjs ih => exact ⟨rfl, ih _⟩

theorem numbered_getLast (h : Numbered pos qjs) (hlast : qjs.getLast? = some qj) :
    qj.jobPosition + 1 = pos + Int32.ofNat qjs.length := by
  obtain ⟨before, rfl⟩ := List.getLast?_eq_some_iff.mp hlast
  obtain ⟨-, hqj, -⟩ := (numbered_append before [qj]).mp h
  rw [hqj, List.length_append, Int32.ofNat_add, Int32.add_assoc]
  rfl

theorem counted_newQueue (id : UInt32) (dir : List UInt8) (downshift : Bool) :
    Counted (newQueue id dir downshift) := ⟨trivial, rfl, fun h => absurd rfl h⟩

/-! ## Adding -/

theorem jobIdUsed_iff (i : Nat) :
    que.jobIdUsed i = true ↔ ∃ qj ∈ que.queueJobs, qj.jobId = Int32.ofNat i := by
  simp [jobIdUsed]

theorem verylastjobid_eq (hcounted : que.Counted) (hne : que.queueJobs ≠ []) :
    que.verylastjobid = que.lastJobId :=
  if_neg (hcounted.counter hne)

/-- A job is refused when the list is not empty and has all ids apart from the one
that was given last; else it is linked with an id that is not used. -/
theorem addQueueJob_cases (hcounted : que.Counted) (p : IntQueueJob) :
    (que.addQueueJob p = (none, que) ∧ que.queueJobs ≠ [] ∧ ∀ i : Int32, 1 ≤ i → i ≤ 999 →
      i ≠ Int32.ofNat que.lastJobId → ∃ qj ∈ que.queueJobs, qj.jobId = i) ∨
    ∃ last : { i : Nat // 1 ≤ i ∧ i ≤ 999 }, que.jobIdUsed last = false ∧
      (que.queueJobs ≠ [] → last.val ≠ que.lastJobId) ∧
      que.addQueueJob p = (some (que.link p (1 + Int32.ofNat que.queueJobs.length) last).1,
        (que.link p (1 + Int32.ofNat que.queueJobs.length) last).2) := by
  cases hlast : que.queueJobs.getLast? with
  | none =>
      have hnil := List.getLast?_eq_none_iff.mp hlast
      refine .inr ⟨⟨RingSearch.next 999 que.lastJobId, RingSearch.next_mem que.verylastjobid_mem _⟩,
        ?_, fun hne => absurd hnil hne, ?_⟩
      · rw [jobIdUsed, hnil]
        rfl
      · rw [addQueueJob, hlast, hnil]
        rfl
  | some qj =>
      have hne : que.queueJobs ≠ [] := fun hnil => by simp [hnil] at hlast
      have hvery := verylastjobid_eq hcounted hne
      have hstart : que.nextJobId = RingSearch.search 999 que.jobIdUsed que.verylastjobid
          que.verylastjobid que.verylastjobid_mem que.verylastjobid_mem.2 := by
        unfold nextJobId
        congr 1
        exact congrArg Fin.val hvery.symm
      cases hsearch : que.nextJobId with
      | none =>
          refine .inl ⟨?_, hne, fun i hpos hle hi => ?_⟩
          · rw [addQueueJob, hlast]
            simp only [hsearch, hvery]
          · obtain ⟨n, hn, rfl⟩ := small_iff.mp ⟨hpos, hle⟩
            rw [hstart, RingSearch.search_stop_eq_none] at hsearch
            refine jobIdUsed_iff n |>.mp (hsearch n hn.1 hn.2 ?_)
            rintro rfl
            exact hi (by rw [hvery])
      | some last =>
          obtain ⟨hstop, hfree⟩ := RingSearch.search_eq_some hsearch
          refine .inr ⟨last, hfree, fun _ => by rwa [hvery] at hstop, ?_⟩
          rw [addQueueJob, hlast]
          simp only [hsearch, numbered_getLast hcounted.numbered hlast]

theorem addQueueJob_eq_none (hcounted : que.Counted) :
    (que.addQueueJob p).1 = none ↔ que.queueJobs ≠ [] ∧ ∀ i : Int32, 1 ≤ i → i ≤ 999 →
      i ≠ Int32.ofNat que.lastJobId → ∃ qj ∈ que.queueJobs, qj.jobId = i := by
  rcases addQueueJob_cases hcounted p with ⟨heq, hrefused⟩ | ⟨last, hfree, hother, heq⟩
  · exact iff_of_true (by rw [heq]) hrefused
  · refine iff_of_false (by rw [heq]; exact Option.some_ne_none _) fun ⟨hne, hused⟩ => ?_
    obtain ⟨hpos, hle⟩ := small_iff.mpr ⟨last.val, last.2, rfl⟩
    have hlt := que.lastJobId.isLt
    have hused := hused _ hpos hle fun h =>
      hother hne (ofNat_small_inj last.2.2 (by omega) h)
    rw [← jobIdUsed_iff, hfree] at hused
    contradiction

theorem addQueueJob_refused (hcounted : que.Counted) (hne : que.queueJobs ≠ [])
    (hothers : ∀ i : Int32, 1 ≤ i → i ≤ 999 → i ≠ Int32.ofNat que.lastJobId →
      ∃ qj ∈ que.queueJobs, qj.jobId = i) : que.addQueueJob p = (none, que) := by
  have hnone := (addQueueJob_eq_none (p := p) hcounted).mpr ⟨hne, hothers⟩
  rcases addQueueJob_cases hcounted p with ⟨heq, -⟩ | ⟨last, -, -, heq⟩
  · exact heq
  · rw [heq] at hnone
    contradiction

/-- What is linked is counted. -/
theorem Counted.link (hcounted : que.Counted) (p : IntQueueJob)
    (last : { i : Nat // 1 ≤ i ∧ i ≤ 999 }) :
    (que.link p (1 + Int32.ofNat que.queueJobs.length) last).2.Counted where
  numbered := (numbered_append _ _).mpr ⟨hcounted.numbered, rfl, trivial⟩
  count := by
    simp only [NweQueue.link, hcounted.count, List.length_append, List.length_singleton,
      Int32.ofNat_add]
    rfl
  counter _ hzero := by
    have hval := congrArg Fin.val hzero
    have hpos := last.2.1
    simp only [NweQueue.link, Fin.val_zero] at hval
    omega

theorem Counted.addQueueJob (hcounted : que.Counted) (p : IntQueueJob) :
    (que.addQueueJob p).2.Counted := by
  rcases addQueueJob_cases hcounted p with ⟨heq, -⟩ | ⟨last, -, -, heq⟩
  · rw [heq]
    exact hcounted
  · rw [heq]
    exact hcounted.link p last

theorem Counted.readJobs (hcounted : que.Counted) (qjs : List IntQueueJob) :
    (que.readJobs qjs).Counted := by
  induction qjs generalizing que with
  | nil => exact hcounted
  | cons qj qjs ih => exact ih (hcounted.addQueueJob _)

theorem Counted.readQueueJobs (hcounted : que.Counted) (lay : Layout IntQueueJob)
    (file : Option (List UInt8)) : (que.readQueueJobs lay file).Counted := by
  have hchanged : ∀ {q : NweQueue}, q.Counted → { q with changed := 0 }.Counted :=
    fun h => ⟨h.numbered, h.count, h.counter⟩
  unfold NweQueue.readQueueJobs
  split
  next => exact hchanged hcounted
  next =>
    split
    next => exact hchanged (hcounted.readJobs _)
    next => exact hchanged hcounted

/-- A job without an id gets one that no other job has. -/
theorem IdsOk.addQueueJob (hids : IdsOk que.queueJobs) (hcounted : que.Counted)
    (hp : p.jobId = 0) : IdsOk (que.addQueueJob p).2.queueJobs := by
  rcases addQueueJob_cases hcounted p with ⟨heq, -⟩ | ⟨last, hfree, -, heq⟩
  · rw [heq]
    exact hids
  · have hunused : ∀ qj ∈ que.queueJobs, qj.jobId ≠ Int32.ofNat last := fun qj hqj hid => by
      have hused := (jobIdUsed_iff last.val).mpr ⟨qj, hqj, hid⟩
      rw [hfree] at hused
      contradiction
    rw [heq]
    simp only [NweQueue.link, if_pos hp]
    constructor
    · rw [List.map_append, List.map_singleton]
      refine List.Nodup.append hids.distinct (List.nodup_singleton _) ?_
      intro i hi hlast
      obtain ⟨qj, hqj, rfl⟩ := List.mem_map.mp hi
      exact hunused qj hqj (List.mem_singleton.mp hlast)
    · intro qj hqj
      rcases List.mem_append.mp hqj with hqj | hqj
      · exact hids.range qj hqj
      · obtain rfl := List.mem_singleton.mp hqj
        exact small_iff.mpr ⟨last.val, last.2, rfl⟩

/-! ## Freeing and writing -/

theorem IdsOk.sublist (hids : IdsOk qjs)
    (hsub : (qjs'.map IntQueueJob.jobId).Sublist (qjs.map IntQueueJob.jobId)) : IdsOk qjs' where
  distinct := hids.distinct.sublist hsub
  range qj' hqj' := by
    obtain ⟨qj, hqj, hid⟩ := List.mem_map.mp (hsub.subset (List.mem_map_of_mem hqj'))
    rw [← hid]
    exact hids.range qj hqj

theorem map_jobId_freeQueueJob (que : NweQueue) (jobId : Int32) :
    ((que.freeQueueJob jobId).queueJobs.map IntQueueJob.jobId).Sublist
      (que.queueJobs.map IntQueueJob.jobId) := by
  unfold freeQueueJob
  split
  next => exact List.Sublist.refl _
  next jobs hjobs =>
    obtain ⟨before, freed, after, hlist, -, -, rfl⟩ := freedJobs_eq_some hjobs
    rw [hlist, List.map_append, List.map_append, map_renumber fun _ _ => rfl]
    exact List.Sublist.append_left (List.sublist_cons_self _ _) _

theorem Counted.freeQueueJob (hcounted : que.Counted) (jobId : Int32) :
    (que.freeQueueJob jobId).Counted := by
  unfold NweQueue.freeQueueJob
  split
  next => exact hcounted
  next jobs hjobs =>
    obtain ⟨before, freed, after, hlist, -, -, rfl⟩ := freedJobs_eq_some hjobs
    obtain ⟨hbefore, hfreed, -⟩ := (numbered_append _ _).mp (hlist ▸ hcounted.numbered)
    refine ⟨(numbered_append _ _).mpr ⟨hbefore, ?_⟩, ?_, fun _ => hcounted.counter ?_⟩
    · have hpos : (if before = [] then 1 else freed.jobPosition) =
          1 + Int32.ofNat before.length := by
        split
        next hnil =>
          rw [hnil]
          rfl
        next => exact hfreed
      rw [hpos]
      exact numbered_renumber _ _
    · show que.countJobs - 1 = _
      rw [hcounted.count, hlist]
      simp only [List.length_append, length_renumber, List.length_cons, Int32.ofNat_add]
      rw [← Int32.add_assoc]
      exact Int32.add_sub_cancel _ _
    · rw [hlist]
      exact List.append_ne_nil_of_right_ne_nil _ (List.cons_ne_nil _ _)

theorem numbered_congr (h : qjs.map IntQueueJob.jobPosition = qjs'.map IntQueueJob.jobPosition) :
    Numbered pos qjs ↔ Numbered pos qjs' := by
  induction qjs generalizing qjs' pos with
  | nil =>
      obtain rfl := List.map_eq_nil_iff.mp h.symm
      exact Iff.rfl
  | cons qj qjs ih =>
      cases qjs' with
      | nil => contradiction
      | cons qj' qjs' =>
          obtain ⟨hhead, htail⟩ := List.cons.inj h
          rw [Numbered, Numbered, hhead, ih htail]

theorem map_setJob {α : Type} {i : Nat} {qj' : IntQueueJob} (f : IntQueueJob → α)
    (hqj : que.queueJobs[i]? = some qj) (hf : f qj' = f qj) :
    (que.setJob i qj').queueJobs.map f = que.queueJobs.map f := by
  obtain ⟨hlt, rfl⟩ := List.getElem?_eq_some_iff.mp hqj
  rw [setJob, List.map_set, hf, ← List.getElem_map f (h := by simpa using hlt), List.set_getElem_self]

/-- Writing to a job keeps the list in order when the id and the position stay. -/
theorem JobsOk.setJob {i : Nat} {qj' : IntQueueJob} (hok : que.JobsOk)
    (hqj : que.queueJobs[i]? = some qj) (hid : qj'.jobId = qj.jobId)
    (hposition : qj'.jobPosition = qj.jobPosition) : (que.setJob i qj').JobsOk where
  toIdsOk := hok.toIdsOk.sublist (map_setJob _ hqj hid ▸ List.Sublist.refl _)
  numbered := (numbered_congr (map_setJob _ hqj hposition)).mpr hok.numbered
  count := by
    rw [NweQueue.setJob, List.length_set]
    exact hok.count
  counter _ := hok.counter (List.ne_nil_of_mem (List.mem_of_getElem? hqj))

/-! ## Requests -/

theorem JobsOk.edit (hok : que.JobsOk) (hedit : Edit que que') : que'.JobsOk := by
  cases hedit with
  | freed jobId =>
      exact ⟨hok.toIdsOk.sublist (map_jobId_freeQueueJob que jobId),
        hok.toCounted.freeQueueJob jobId⟩
  | marked clientArea hqj => exact hok.setJob hqj rfl rfl
  | status status => exact ⟨hok.toIdsOk, hok.numbered, hok.count, hok.counter⟩

theorem JobsOk.added (hok : que.JobsOk) (hid : p.jobId = 0) : (que.addQueueJob p).2.JobsOk :=
  ⟨hok.toIdsOk.addQueueJob hok.toCounted hid, hok.toCounted.addQueueJob p⟩

theorem JobsOk.edits (hok : que.JobsOk) (hedits : Edits que que') : que'.JobsOk := by
  induction hedits with
  | refl => exact hok
  | tail _ hedit ih => exact ih.edit hedit

theorem JobsOk.withServer (hok : que.JobsOk) (qserver : Option QueueServer) :
    { que with qserver := qserver }.JobsOk :=
  ⟨hok.toIdsOk, hok.numbered, hok.count, hok.counter⟩

end NweQueue

/-- Every request keeps the lists of jobs in order. -/
theorem NweQueue.JobsOk.kept : KeptAlong NweQueue.JobsOk where
  refl _ hok := hok
  edit ih hedit hok := (ih hok).edit hedit
  added ih hid hok := (ih hok).added hid
  server ih hok := (ih hok).withServer _
  handedOut ih hqj hok := (ih hok).setJob hqj rfl rfl
  givenBack ih hqj hok := (ih hok).setJob hqj rfl rfl

/-! ## Refused jobs -/

/-- A job is refused only when all ids are in use, and then nothing has changed. -/
def RefusedOnlyWhenFull (cfg : QueueConfig) (queues : NweQueues) (qId : UInt32) : Prop :=
  ∀ connection task objectId qJob,
    Returns (fun r => r.1 = .error (-0xd4) →
        (∀ k, findQueue queues qId = some k → (queues.get k).AllIdsUsed) ∧ r.2 = queues)
      ((queueSession cfg).handle queues (.creatJob connection task objectId qId qJob))

variable {cfg : QueueConfig} {queues : NweQueues} {qId : UInt32}

theorem NweQueue.OnlyLastFree.ne_nil {que : NweQueue} (h : que.OnlyLastFree) :
    que.queueJobs ≠ [] := by
  have hused : ∃ i : Int32, (1 ≤ i ∧ i ≤ 999) ∧ i ≠ Int32.ofNat que.lastJobId := by
    by_cases hone : (1 : Int32) = Int32.ofNat que.lastJobId
    · exact ⟨2, by decide, hone ▸ by decide⟩
    · exact ⟨1, by decide, hone⟩
  obtain ⟨i, ⟨hpos, hle⟩, hi⟩ := hused
  obtain ⟨qj, hqj, -⟩ := h.2 i hpos hle hi
  exact List.ne_nil_of_mem hqj

/-- Jobs are refused too early exactly when the id given last is the only free one. -/
theorem refusedOnlyWhenFull_iff (hqueues : ∀ q ∈ queues, q.JobsOk) :
    RefusedOnlyWhenFull cfg queues qId ↔
      ∀ k, findQueue queues qId = some k → ¬(queues.get k).OnlyLastFree := by
  constructor
  · intro h k hk hfree
    have hok := hqueues (queues.get k) (List.get_mem queues k)
    let qJob : JobEntry := .old ⟨0, 0, 0, 0, .zero 6, .zero 6, 0, 0, 0, 0, [], 0, 0, 0, .zero 50, .zero 152⟩
    -- with a directory and any time the job is refused
    have hanswer := returns_ask_bind.mp (h 0 0 0 qJob) (.ok [47])
    simp only [withQueue, hk] at hanswer
    replace hanswer := returns_ask_bind.mp (returns_bind.mp hanswer) 0
    rw [show queues[k] = queues.get k from rfl,
      NweQueue.addQueueJob_refused hok.toCounted hfree.ne_nil hfree.2] at hanswer
    have hall := (hanswer rfl).1 k rfl
    have hlast : ((queues.get k).lastJobId : Nat) ≠ 0 := fun hzero =>
      hok.counter hfree.ne_nil (Fin.ext hzero)
    obtain ⟨hpos, hle⟩ := small_iff.mpr ⟨(queues.get k).lastJobId.val, by omega, rfl⟩
    obtain ⟨qj, hqj, hid⟩ := hall _ hpos hle
    exact hfree.1 qj hqj hid
  · intro h connection task objectId qJob
    refine returns_ask_bind.mpr fun dirname => ?_
    split
    next => exact fun heq => by cases heq
    next => exact fun heq => by cases heq
    next dirname _ =>
      unfold withQueue
      split
      next => exact fun heq => by cases heq
      next k hk =>
        have hok := hqueues (queues.get k) (List.get_mem queues k)
        refine returns_bind.mpr (returns_ask_bind.mpr fun entryTime => ?_)
        rw [show queues[k] = queues.get k from rfl]
        rcases NweQueue.addQueueJob_cases hok.toCounted (NweQueue.takeOver cfg
          (NweQueue.newQueueJob connection task objectId entryTime) qJob) with
          ⟨heq, -, hothers⟩ | ⟨last, -, -, heq⟩
        · rw [heq]
          refine fun _ => ⟨fun k' hk' => ?_, List.set_getElem_self _⟩
          obtain rfl := Option.some.inj (hk.symm.trans hk')
          -- the id given last is used, too
          intro i hpos hle
          by_cases hi : i = Int32.ofNat (queues.get k).lastJobId
          · by_contra hunused
            exact h k hk ⟨fun qj hqj hid => hunused ⟨qj, hqj, hid.trans hi.symm⟩, hothers⟩
          · exact hothers i hpos hle hi
        · rw [heq]
          exact fun heq => by cases heq

/-! ## Reading ids in their order -/

namespace NweQueue

/-- The id behind the one given last is taken when it is free. -/
theorem addQueueJob_next {que : NweQueue} (hcounted : que.Counted) (p : IntQueueJob)
    (hle : que.lastJobId.val + 1 ≤ 999) (hfree : que.jobIdUsed (que.lastJobId + 1) = false) :
    ∃ pos, (que.addQueueJob p).2 =
      (que.link p pos ⟨que.lastJobId + 1, Nat.le_add_left 1 _, hle⟩).2 := by
  have hnext : RingSearch.next 999 que.lastJobId = que.lastJobId + 1 := if_neg (by omega)
  cases hlast : que.queueJobs.getLast? with
  | none =>
      rw [addQueueJob, hlast]
      exact ⟨1, by simp only [hnext]⟩
  | some qj =>
      have hne : que.queueJobs ≠ [] := fun hnil => by simp [hnil] at hlast
      have hsearch : que.nextJobId = some ⟨que.lastJobId + 1, Nat.le_add_left 1 _, hle⟩ := by
        rw [nextJobId, RingSearch.search_next]
        · simp only [hnext]
        · rw [hnext, verylastjobid_eq hcounted hne]
          omega
        · rwa [hnext]
      rw [addQueueJob, hlast]
      exact ⟨qj.jobPosition + 1, by simp only [hsearch]⟩

/-- Reading jobs with the ids 1, …, `n` in this order leaves the counter at `n`. -/
theorem readJobs_inOrder (id : UInt32) (dir : List UInt8) (downshift : Bool) {n : Nat}
    (hn : n ≤ 999) {qjs : List IntQueueJob}
    (hids : qjs.map IntQueueJob.jobId = (List.range n).map fun i => Int32.ofNat (i + 1)) :
    ((newQueue id dir downshift).readJobs qjs).lastJobId.val = n ∧
      ((newQueue id dir downshift).readJobs qjs).queueJobs.map IntQueueJob.jobId =
        qjs.map IntQueueJob.jobId := by
  induction n generalizing qjs with
  | zero =>
      obtain rfl := List.map_eq_nil_iff.mp hids
      exact ⟨rfl, rfl⟩
  | succ n ih =>
      rw [List.range_succ, List.map_append, List.map_singleton] at hids
      obtain ⟨front, back, rfl, hfront, hback⟩ := List.map_eq_append_iff.mp hids
      obtain ⟨qj, rfl, hqj⟩ := List.map_eq_singleton_iff.mp hback
      obtain ⟨hlast, hmap⟩ := ih (by omega) hfront
      have hcounted := (counted_newQueue id dir downshift).readJobs front
      have hfree : ((newQueue id dir downshift).readJobs front).jobIdUsed
          (((newQueue id dir downshift).readJobs front).lastJobId + 1) = false := by
        rw [hlast, Bool.eq_false_iff, ne_eq, jobIdUsed_iff]
        rintro ⟨used, hmem, hused⟩
        have hid := List.mem_map_of_mem (f := IntQueueJob.jobId) hmem
        rw [hmap, hfront] at hid
        obtain ⟨i, hi, heq⟩ := List.mem_map.mp hid
        have hlt := List.mem_range.mp hi
        have hsame := ofNat_small_inj (by omega) hn (heq.trans hused)
        omega
      obtain ⟨pos, hadd⟩ := addQueueJob_next hcounted (correctedJob qj) (by omega) hfree
      have hread : (newQueue id dir downshift).readJobs (front ++ [qj]) =
          (((newQueue id dir downshift).readJobs front).addQueueJob (correctedJob qj)).2 := by
        rw [readJobs, List.foldl_append]
        rfl
      rw [hread, hadd]
      refine ⟨by simp only [link, hlast], ?_⟩
      have hid : (correctedJob qj).jobId = Int32.ofNat (n + 1) := hqj
      simp only [link, List.map_append, List.map_singleton, hmap, hid, hqj, hlast, ite_self]

end NweQueue

/-- How a queue starts: empty, or with the list that is read from its file. -/
inductive QueueStart (lay : Layout IntQueueJob) : NweQueue → Prop
  | empty (id : UInt32) (dir : List UInt8) (downshift : Bool) :
      QueueStart lay (newQueue id dir downshift)
  | read (id : UInt32) (dir : List UInt8) (downshift : Bool) (file : Option (List UInt8)) :
      QueueStart lay ((newQueue id dir downshift).readQueueJobs lay file)

theorem QueueStart.jobsOk {lay : Layout IntQueueJob} {q : NweQueue} (h : QueueStart lay q)
    (hids : NweQueue.IdsOk q.queueJobs) : q.JobsOk := by
  refine ⟨hids, ?_⟩
  cases h with
  | empty id dir downshift => exact NweQueue.counted_newQueue id dir downshift
  | read id dir downshift file =>
      exact (NweQueue.counted_newQueue id dir downshift).readQueueJobs lay file

/-- In all runs from lists with distinct ids of 1 .. 999 the lists stay in order, and
jobs are refused only when all ids are in use, unless the id given last is the only
free one. -/
theorem queueJobs_inOrder {lay : Layout IntQueueJob} {start : NweQueues}
    (hstart : ∀ q ∈ start, QueueStart lay q) (hids : ∀ q ∈ start, NweQueue.IdsOk q.queueJobs)
    {es : List (QueueRequest × QueueResult)} (hrun : QueueRun cfg start es queues) :
    (∀ q ∈ queues, q.JobsOk) ∧ ∀ qId, RefusedOnlyWhenFull cfg queues qId ↔
      ∀ k, findQueue queues qId = some k → ¬(queues.get k).OnlyLastFree := by
  have hok := NweQueue.JobsOk.kept.run (fun q hq => (hstart q hq).jobsOk (hids q hq)) hrun
  exact ⟨hok, fun qId => refusedOnlyWhenFull_iff hok⟩

/-- An entry that any queue server may get at once. -/
def plainEntry : JobEntry :=
  .old ⟨0, 0, 0, 0xffffffff, .ones 6, .zero 6, 0, 0xffff, 0, 0, [], 0, 0, 0, .zero 50, .zero 152⟩

/-- A directory for every queue, no queue servers, no files, and a clock that stands still. -/
def idleQueueKernel (_ : Unit) : (c : QueueCall) → QueueCall.Answer c × Unit
  | .qDirname _ => (.ok [47], ())
  | .qPrcommand _ => (.ok [], ())
  | .qServer _ _ => (0, ())
  | .stat _ => (none, ())
  | .unlink _ => (true, ())
  | .time => (0, ())

/-- Three jobs are created, the second is removed, and one more created. -/
def gapRequests : List QueueRequest :=
  [.creatJob 1 1 1 7 plainEntry, .creatJob 1 1 1 7 plainEntry, .creatJob 1 1 1 7 plainEntry,
    .removeJob 1 7 2, .creatJob 1 1 1 7 plainEntry]

/-- The jobs of the list are in the order in which they were created. -/
theorem queueJobs_inOrder_gap :
    let queues := ((queueSession .still).execRun idleQueueKernel [newQueue 7 [47] false] ()
      gapRequests).2.1
    (queues.map fun q => q.queueJobs.map IntQueueJob.jobId) = [[1, 3, 4]] ∧
      (∀ q ∈ queues, q.JobsOk) ∧ ∀ qId, RefusedOnlyWhenFull .still queues qId ↔
        ∀ k, findQueue queues qId = some k → ¬(queues.get k).OnlyLastFree := by
  intro queues
  have hstart : ∀ q ∈ [newQueue 7 [47] false], QueueStart IntQueueJob.packed q :=
    fun _ hq => List.mem_singleton.mp hq ▸ .empty 7 [47] false
  have hids : ∀ q ∈ [newQueue 7 [47] false], NweQueue.IdsOk q.queueJobs :=
    fun _ hq => List.mem_singleton.mp hq ▸ ⟨List.nodup_nil, fun _ hqj => absurd hqj List.not_mem_nil⟩
  have hrun := Session.run_execRun (m := queueSession .still) (K := fun _ => anyKernel)
    (h := idleQueueKernel) (fun _ _ _ => trivial) [newQueue 7 [47] false] () gapRequests
  exact ⟨by decide +kernel, queueJobs_inOrder hstart hids hrun⟩

/-- A job with an id. -/
def jobWithId (i : Nat) : IntQueueJob :=
  { NweQueue.newQueueJob 1 1 1 0 with jobId := Int32.ofNat i }

/-- The jobs 1, …, `n` and `n + 2`, as they are left when `n + 2` jobs were created and
the last but one removed. -/
def jobsWithGap (n : Nat) : List IntQueueJob :=
  ((List.range n).map fun i => jobWithId (i + 1)) ++ [jobWithId (n + 2)]

/-- The queue that is read from a file with these jobs. -/
def queueWithGap (n : Nat) : NweQueue :=
  (newQueue 1 [47] false).readQueueJobs IntQueueJob.packed
    (some (sizeHeader IntQueueJob.packed ++ IntQueueJob.packed.blocks (jobsWithGap n)))

theorem queueWithGap_start (n : Nat) : QueueStart IntQueueJob.packed (queueWithGap n) :=
  .read _ _ _ _

section

variable {n : Nat}

/-- The gap becomes the id given last. -/
theorem queueWithGap_spec (hn : n + 2 ≤ 999) : (queueWithGap n).lastJobId.val = n + 1 ∧
    (queueWithGap n).queueJobs.map IntQueueJob.jobId =
      ((List.range n).map fun i => Int32.ofNat (i + 1)) ++ [Int32.ofNat (n + 2)] := by
  have hids : ((List.range n).map fun i => jobWithId (i + 1)).map IntQueueJob.jobId =
      (List.range n).map fun i => Int32.ofNat (i + 1) := by
    rw [List.map_map]
    rfl
  have hread := NweQueue.readJobs_inOrder 1 [47] false (by omega) hids
  generalize hq : (newQueue 1 [47] false).readJobs
    ((List.range n).map fun i => jobWithId (i + 1)) = q at hread
  have hcounted : q.Counted := hq ▸ (NweQueue.counted_newQueue _ _ _).readJobs _
  have hfree : q.jobIdUsed (q.lastJobId + 1) = false := by
    rw [hread.1, Bool.eq_false_iff, ne_eq, NweQueue.jobIdUsed_iff]
    rintro ⟨used, hmem, hused⟩
    have hid := List.mem_map_of_mem (f := IntQueueJob.jobId) hmem
    rw [hread.2, hids] at hid
    obtain ⟨i, hi, heq⟩ := List.mem_map.mp hid
    have hlt := List.mem_range.mp hi
    have hsame := ofNat_small_inj (by omega) (by omega) (heq.trans hused)
    omega
  obtain ⟨pos, hadd⟩ := NweQueue.addQueueJob_next hcounted (correctedJob (jobWithId (n + 2)))
    (by omega) hfree
  have hgap : queueWithGap n =
      { (q.addQueueJob (correctedJob (jobWithId (n + 2)))).2 with changed := 0 } := by
    rw [queueWithGap, NweQueue.readQueueJobs_blocks, jobsWithGap, NweQueue.readJobs,
      List.foldl_append, ← hq]
    rfl
  have hid : (correctedJob (jobWithId (n + 2))).jobId = Int32.ofNat (n + 2) := rfl
  have hne : Int32.ofNat (n + 2) ≠ 0 := fun h => by
    have hsame := ofNat_small_inj (n := 0) hn (by omega) h
    omega
  rw [hgap, hadd]
  refine ⟨by simp only [NweQueue.link, hread.1], ?_⟩
  simp only [NweQueue.link, List.map_append, List.map_singleton, hread.2, hids, hid, if_neg hne]

theorem mem_queueWithGap (hn : n + 2 ≤ 999) {i : Nat} (hi : 1 ≤ i ∧ i ≤ n + 2) :
    (∃ qj ∈ (queueWithGap n).queueJobs, qj.jobId = Int32.ofNat i) ↔ i ≠ n + 1 := by
  have hmem : (∃ qj ∈ (queueWithGap n).queueJobs, qj.jobId = Int32.ofNat i) ↔
      Int32.ofNat i ∈ (queueWithGap n).queueJobs.map IntQueueJob.jobId := List.mem_map.symm
  rw [hmem, (queueWithGap_spec hn).2, List.mem_append, List.mem_singleton, List.mem_map]
  constructor
  · rintro (⟨k, hk, heq⟩ | heq)
    · have hlt := List.mem_range.mp hk
      have hsame := ofNat_small_inj (by omega) (by omega) heq
      omega
    · have hsame := ofNat_small_inj (by omega) hn heq
      omega
  · intro hne
    by_cases hlast : i = n + 2
    · exact .inr (by rw [hlast])
    · exact .inl ⟨i - 1, List.mem_range.mpr (by omega), by rw [Nat.sub_add_cancel hi.1]⟩

theorem queueWithGap_ids (hn : n + 2 ≤ 999) : NweQueue.IdsOk (queueWithGap n).queueJobs where
  distinct := by
    rw [(queueWithGap_spec hn).2]
    refine List.Nodup.append (List.Nodup.map_on ?_ List.nodup_range) (List.nodup_singleton _) ?_
    · intro i hi j hj heq
      have hi := List.mem_range.mp hi
      have hj := List.mem_range.mp hj
      have hsame := ofNat_small_inj (by omega) (by omega) heq
      omega
    · intro i hi hlast
      obtain ⟨k, hk, rfl⟩ := List.mem_map.mp hi
      have hlt := List.mem_range.mp hk
      have hsame := ofNat_small_inj (by omega) hn (List.mem_singleton.mp hlast)
      omega
  range qj hqj := by
    have hid := List.mem_map_of_mem (f := IntQueueJob.jobId) hqj
    rw [(queueWithGap_spec hn).2] at hid
    rcases List.mem_append.mp hid with hid | hid
    · obtain ⟨k, hk, heq⟩ := List.mem_map.mp hid
      have hlt := List.mem_range.mp hk
      exact small_iff.mpr ⟨k + 1, by omega, heq.symm⟩
    · exact small_iff.mpr ⟨n + 2, by omega, List.mem_singleton.mp hid⟩

/-- When the list is that long, nothing is free but the id given last. -/
theorem queueWithGap_onlyLastFree (hn : n + 2 = 999) : (queueWithGap n).OnlyLastFree := by
  rw [NweQueue.OnlyLastFree, (queueWithGap_spec hn.le).1]
  refine ⟨fun qj hqj hid => ?_, fun i hpos hle hi => ?_⟩
  · exact (mem_queueWithGap hn.le (i := n + 1) (by omega)).mp ⟨qj, hqj, hid⟩ rfl
  · obtain ⟨k, hk, rfl⟩ := small_iff.mp ⟨hpos, hle⟩
    exact (mem_queueWithGap hn.le (by omega)).mpr fun h => hi (by rw [h])

end

/-- A job is refused although the id 998 is free. -/
theorem not_queueJobs_inOrder :
    ¬∀ (cfg : QueueConfig) (lay : Layout IntQueueJob) (start queues : NweQueues)
      (es : List (QueueRequest × QueueResult)), (∀ q ∈ start, QueueStart lay q) →
      (∀ q ∈ start, NweQueue.IdsOk q.queueJobs) → QueueRun cfg start es queues →
      (∀ q ∈ queues, q.JobsOk) ∧ ∀ qId, RefusedOnlyWhenFull cfg queues qId := by
  intro h
  have hstart : ∀ q ∈ [queueWithGap 997], QueueStart IntQueueJob.packed q :=
    fun _ hq => List.mem_singleton.mp hq ▸ queueWithGap_start 997
  have hids : ∀ q ∈ [queueWithGap 997], NweQueue.IdsOk q.queueJobs :=
    fun _ hq => List.mem_singleton.mp hq ▸ queueWithGap_ids (by decide)
  have hall := h .still IntQueueJob.packed _ _ [] hstart hids (.nil _ _)
  have hfree := queueWithGap_onlyLastFree (n := 997) rfl
  generalize queueWithGap 997 = q at hall hfree
  obtain ⟨k, hk⟩ : ∃ k, findQueue [q] q.id = some k := by
    refine Option.isSome_iff_exists.mp ?_
    simp [findQueue]
  have hqueue : [q][k] = q := List.mem_singleton.mp (List.getElem_mem k.isLt)
  exact (refusedOnlyWhenFull_iff hall.1).mp (hall.2 _) k hk
    ((congrArg NweQueue.OnlyLastFree hqueue).mpr hfree)

end MarsNwe
