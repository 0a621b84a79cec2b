import Mathlib.Data.Finset.Card
import Mathlib.Order.Interval.Finset.Nat
import MarsNwe.Queue.JobList

/-! # Queues over a restart

Going down writes the jobs of all queues, and coming up reads them through the
routine that adds new jobs. That routine looks for a free id even for a job that
has one, so that the last job of a full list may be refused and lost.
-/

namespace MarsNwe

open Prog

/-! ## How many ids there are -/

namespace NweQueue

variable {que : NweQueue} {qjs front : List IntQueueJob} {x : IntQueueJob}

/-- The numbers that are ids of jobs. -/
def idNumbers (qjs : List IntQueueJob) : Finset Nat :=
  (Finset.Icc 1 999).filter fun n => ∃ qj ∈ qjs, qj.jobId = Int32.ofNat n

theorem mem_idNumbers {n : Nat} :
    n ∈ idNumbers qjs ↔ (1 ≤ n ∧ n ≤ 999) ∧ ∃ qj ∈ qjs, qj.jobId = Int32.ofNat n := by
  rw [idNumbers, Finset.mem_filter, Finset.mem_Icc]

theorem card_idNumbers (hids : IdsOk qjs) : (idNumbers qjs).card = qjs.length := by
  have himage : (qjs.map IntQueueJob.jobId).toFinset = (idNumbers qjs).image Int32.ofNat := by
    ext i
    rw [List.mem_toFinset, List.mem_map, Finset.mem_image]
    constructor
    · rintro ⟨qj, hqj, rfl⟩
      obtain ⟨n, hn, heq⟩ := small_iff.mp (hids.range qj hqj)
      exact ⟨n, mem_idNumbers.mpr ⟨hn, qj, hqj, heq⟩, heq.symm⟩
    · rintro ⟨n, hn, rfl⟩
      exact (mem_idNumbers.mp hn).2
  have hinj : Set.InjOn Int32.ofNat (idNumbers qjs : Set Nat) := fun m hm n hn heq =>
    ofNat_small_inj (mem_idNumbers.mp hm).1.2 (mem_idNumbers.mp hn).1.2 heq
  rw [← Finset.card_image_of_injOn hinj, ← himage, List.toFinset_card_of_nodup hids.distinct,
    List.length_map]

theorem length_le (hids : IdsOk qjs) : qjs.length ≤ 999 := by
  rw [← card_idNumbers hids]
  exact (Finset.card_filter_le _ _).trans (by rw [Nat.card_Icc])

/-- Without one id there are still 998. -/
theorem le_length_of_others (hids : IdsOk qjs) {c : Nat} (hc : c ≤ 999)
    (hothers : ∀ i : Int32, 1 ≤ i → i ≤ 999 → i ≠ Int32.ofNat c → ∃ qj ∈ qjs, qj.jobId = i) :
    998 ≤ qjs.length := by
  have hsub : (Finset.Icc 1 999).erase c ⊆ idNumbers qjs := fun n hn => by
    obtain ⟨hne, hn⟩ := Finset.mem_erase.mp hn
    have hrange := Finset.mem_Icc.mp hn
    obtain ⟨hpos, hle⟩ := small_iff.mpr ⟨n, hrange, rfl⟩
    exact mem_idNumbers.mpr
      ⟨hrange, hothers _ hpos hle fun heq => hne (ofNat_small_inj hrange.2 hc heq)⟩
  have hcard := Finset.card_le_card hsub
  rw [card_idNumbers hids] at hcard
  have herase := Finset.pred_card_le_card_erase (s := Finset.Icc 1 999) (a := c)
  rw [Nat.card_Icc] at herase
  omega

/-- With 998 jobs a single id is free. -/
theorem others_of_length (hids : IdsOk qjs) (hlength : qjs.length = 998) {c : Nat}
    (hc : 1 ≤ c ∧ c ≤ 999) (hfree : ∀ qj ∈ qjs, qj.jobId ≠ Int32.ofNat c) :
    ∀ i : Int32, 1 ≤ i → i ≤ 999 → i ≠ Int32.ofNat c → ∃ qj ∈ qjs, qj.jobId = i := by
  have hsub : idNumbers qjs ⊆ (Finset.Icc 1 999).erase c := fun n hn => by
    obtain ⟨hrange, qj, hqj, hid⟩ := mem_idNumbers.mp hn
    exact Finset.mem_erase.mpr ⟨fun heq => hfree qj hqj (heq ▸ hid), Finset.mem_Icc.mpr hrange⟩
  have hall := Finset.eq_of_subset_of_card_le hsub (by
    rw [card_idNumbers hids, hlength, Finset.card_erase_of_mem (Finset.mem_Icc.mpr hc),
      Nat.card_Icc])
  intro i hpos hle hne
  obtain ⟨n, hn, rfl⟩ := small_iff.mp ⟨hpos, hle⟩
  refine (mem_idNumbers.mp (?_ : n ∈ idNumbers qjs)).2
  rw [hall]
  exact Finset.mem_erase.mpr ⟨fun heq => hne (by rw [heq]), Finset.mem_Icc.mpr hn⟩

/-! ## The counter while jobs are read -/

/-- The ids in the order they are tried when `c` was given last. -/
def idsBehind (c : Nat) : List Nat := List.range' (c + 1) (999 - c) ++ List.range' 1 (c - 1)

/-- The id given to a job behind the ones with the ids `used`. -/
def idBehind (used : List Int32) (c : Nat) : Nat :=
  if used = [] then 1 else ((idsBehind c).find? fun i => Int32.ofNat i ∉ used).getD c

/-- One more id is in use, and the counter goes on. -/
def countId (s : List Int32 × Nat) (i : Int32) : List Int32 × Nat := (s.1 ++ [i], idBehind s.1 s.2)

/-- The counter when jobs that keep their ids are added in turn: it goes to 1 and then
on to the next id that is not in use. -/
def idCounter (ids : List Int32) : Nat := (ids.foldl countId ([], 0)).2

/-- The last of 999 jobs has the very id that the counter got to before it. -/
def LosesLast (qjs : List IntQueueJob) : Prop :=
  qjs.length = 999 ∧ ∃ front x, qjs = front ++ [x] ∧
    x.jobId = Int32.ofNat (idCounter (front.map IntQueueJob.jobId))

theorem idCounter_concat (ids : List Int32) (i : Int32) :
    idCounter (ids ++ [i]) = idBehind ids (idCounter ids) := by
  have hused : ∀ (ids : List Int32) (s : List Int32 × Nat),
      (ids.foldl countId s).1 = s.1 ++ ids := by
    intro ids
    induction ids with
    | nil => exact fun s => (List.append_nil s.1).symm
    | cons i ids ih => exact fun s => (ih _).trans (List.append_cons s.1 i ids).symm
  rw [idCounter, List.foldl_append, List.foldl_cons, List.foldl_nil, countId, hused,
    List.nil_append, idCounter]

/-- The counter after a job has been added. -/
theorem lastJobId_addQueueJob (hcounted : que.Counted) (hne : que.queueJobs ≠ [])
    (p : IntQueueJob) : (que.addQueueJob p).2.lastJobId.val =
      idBehind (que.queueJobs.map IntQueueJob.jobId) que.lastJobId := by
  have hvery := verylastjobid_eq hcounted hne
  have hused : (fun i => !que.jobIdUsed i) =
      fun i => decide (Int32.ofNat i ∉ que.queueJobs.map IntQueueJob.jobId) := by
    funext i
    rw [Bool.eq_iff_iff, Bool.not_eq_true', Bool.eq_false_iff, ne_eq, jobIdUsed_iff,
      decide_eq_true_eq, List.mem_map]
  have hfind : que.nextJobId.map Subtype.val =
      (idsBehind que.lastJobId).find? fun i =>
        decide (Int32.ofNat i ∉ que.queueJobs.map IntQueueJob.jobId) := by
    rw [nextJobId, RingSearch.search_eq_find, hused, hvery, RingSearch.path,
      if_neg (Nat.lt_irrefl _), idsBehind]
  rw [idBehind, if_neg fun hnil => hne (List.map_eq_nil_iff.mp hnil), ← hfind]
  cases hlast : que.queueJobs.getLast? with
  | none => exact absurd (List.getLast?_eq_none_iff.mp hlast) hne
  | some qj =>
      rw [addQueueJob, hlast]
      cases hsearch : que.nextJobId with
      | none => simp [hvery]
      | some last => rfl

theorem correctedJob_link {pos : Int32} (hposition : x.jobPosition = pos) (hid : x.jobId ≠ 0)
    (last : { i : Nat // 1 ≤ i ∧ i ≤ 999 }) :
    (que.link (correctedJob x) pos last).2.queueJobs = que.queueJobs ++ [correctedJob x] := by
  subst hposition
  have hcorrected : (correctedJob x).jobId ≠ 0 := hid
  rw [link]
  dsimp only
  rw [if_neg hcorrected]
  rfl

variable (id : UInt32) (dir : List UInt8) (downshift : Bool)

/-- What reading some jobs of a list leaves. -/
structure ReadSoFar (que : NweQueue) (front : List IntQueueJob) : Prop where
  jobs : que.queueJobs = front.map correctedJob
  counter : que.lastJobId.val = idCounter (front.map IntQueueJob.jobId)

theorem map_jobId_corrected (qjs : List IntQueueJob) :
    (qjs.map correctedJob).map IntQueueJob.jobId = qjs.map IntQueueJob.jobId := by
  rw [List.map_map]
  rfl

theorem IdsOk.corrected (hids : IdsOk qjs) : IdsOk (qjs.map correctedJob) :=
  hids.sublist (by rw [map_jobId_corrected])

/-- One more job is read, unless 998 other jobs are there and the counter has got to
the free id. -/
theorem ReadSoFar.concat (hread : ReadSoFar que front) (hcounted : que.Counted)
    (hids : IdsOk (front ++ [x])) (hnumbered : Numbered 1 (front ++ [x])) :
    (ReadSoFar (que.addQueueJob (correctedJob x)).2 (front ++ [x]) ∧
        ¬(front.length = 998 ∧ x.jobId = Int32.ofNat que.lastJobId)) ∨
      (que.addQueueJob (correctedJob x)).2 = que ∧ front.length = 998 ∧
        x.jobId = Int32.ofNat que.lastJobId := by
  have hfront : IdsOk front := hids.sublist (by
    rw [List.map_append]
    exact List.sublist_append_left _ _)
  have hlt := que.lastJobId.isLt
  have hx := hids.range x (by simp)
  obtain ⟨c, hc, hxc⟩ := small_iff.mp hx
  have hunused : ∀ qj ∈ front, qj.jobId ≠ x.jobId := fun qj hqj heq => by
    have hnodup := hids.distinct
    rw [List.map_append, List.nodup_append] at hnodup
    exact hnodup.2.2 _ (List.mem_map_of_mem hqj) _ (List.mem_singleton.mpr rfl) heq
  have hmem : ∀ i, (∃ qj ∈ que.queueJobs, qj.jobId = i) ↔ ∃ qj ∈ front, qj.jobId = i := fun i => by
    rw [← List.mem_map, ← List.mem_map, hread.jobs, map_jobId_corrected]
  rcases addQueueJob_cases hcounted (correctedJob x) with
    ⟨heq, hne, hothers⟩ | ⟨last, hfree, hlast, heq⟩
  · refine .inr ⟨by rw [heq], ?_⟩
    have hothers' := fun i hpos hle hi => (hmem i).mp (hothers i hpos hle hi)
    have hge := le_length_of_others hfront (by omega) hothers'
    have hle := length_le hids
    rw [List.length_append, List.length_singleton] at hle
    refine ⟨by omega, ?_⟩
    by_contra hxlast
    obtain ⟨qj, hqj, hid⟩ := hothers' x.jobId hx.1 hx.2 hxlast
    exact hunused qj hqj hid
  · obtain ⟨-, hposition, -⟩ := (numbered_append _ _).mp hnumbered
    have hlength : que.queueJobs.length = front.length := by rw [hread.jobs, List.length_map]
    have hne0 : x.jobId ≠ 0 := fun h0 => by
      rw [h0] at hx
      exact absurd hx.1 (by decide)
    refine .inl ⟨⟨?_, ?_⟩, ?_⟩
    · rw [heq, correctedJob_link (by rw [hposition, hlength]) hne0, hread.jobs, List.map_append,
        List.map_singleton]
    · rw [List.map_append, List.map_singleton, idCounter_concat, ← hread.counter]
      by_cases hnil : que.queueJobs = []
      · have hzero : que.lastJobId.val = 0 := by
          rw [hread.counter, ← map_jobId_corrected, ← hread.jobs, hnil]
          rfl
        rw [addQueueJob, hnil]
        rw [hread.jobs, List.map_eq_nil_iff] at hnil
        rw [hnil, List.map_nil, idBehind, if_pos rfl]
        show RingSearch.next 999 que.lastJobId = 1
        rw [hzero]
        rfl
      · rw [lastJobId_addQueueJob hcounted hnil, hread.jobs, map_jobId_corrected]
    · rintro ⟨h998, hxlast⟩
      have hcl := ofNat_small_inj hc.2 (by omega) (hxc.symm.trans hxlast)
      have hothers := others_of_length hfront h998 hc (fun qj hqj => hxc ▸ hunused qj hqj)
      have hne : que.queueJobs ≠ [] := fun hnil => by simp [hnil, h998] at hlength
      have hrefused := addQueueJob_refused (p := correctedJob x) hcounted hne
        fun i hpos hle hi => (hmem i).mpr (hothers i hpos hle (hcl ▸ hi))
      rw [heq] at hrefused
      cases congrArg Prod.fst hrefused

theorem readSoFar (hids : IdsOk qjs) (hnumbered : Numbered 1 qjs) (hlength : qjs.length ≤ 998) :
    ReadSoFar ((newQueue id dir downshift).readJobs qjs) qjs := by
  induction qjs using List.reverseRecOn with
  | nil => exact ⟨rfl, rfl⟩
  | append_singleton front x ih =>
      rw [List.length_append, List.length_singleton] at hlength
      have hfront : IdsOk front := hids.sublist (by
        rw [List.map_append]
        exact List.sublist_append_left _ _)
      have hread := ih hfront ((numbered_append _ _).mp hnumbered).1 (by omega)
      have hcounted := (counted_newQueue id dir downshift).readJobs front
      rw [readJobs, List.foldl_append]
      rcases hread.concat hcounted hids hnumbered with ⟨hnext, -⟩ | ⟨-, h998, -⟩
      · exact hnext
      · omega

/-- All jobs are read, or all but the last one. -/
theorem readJobs_cases (hids : IdsOk qjs) (hnumbered : Numbered 1 qjs) :
    (((newQueue id dir downshift).readJobs qjs).queueJobs = qjs.map correctedJob ∧
        ¬LosesLast qjs) ∨
      LosesLast qjs ∧ ∃ front x, qjs = front ++ [x] ∧
        ((newQueue id dir downshift).readJobs qjs).queueJobs = front.map correctedJob := by
  by_cases hlength : qjs.length ≤ 998
  · refine .inl ⟨(readSoFar id dir downshift hids hnumbered hlength).jobs, fun hloses => ?_⟩
    have h999 := hloses.1
    omega
  · have hle := length_le hids
    obtain ⟨front, x, rfl⟩ := List.eq_nil_or_concat' qjs |>.resolve_left fun hnil => by
      simp [hnil] at hlength
    rw [List.length_append, List.length_singleton] at hle hlength
    have hfront : IdsOk front := hids.sublist (by
      rw [List.map_append]
      exact List.sublist_append_left _ _)
    have hread := readSoFar id dir downshift hfront ((numbered_append _ _).mp hnumbered).1
      (by omega)
    have hcounted := (counted_newQueue id dir downshift).readJobs front
    have hstep : (newQueue id dir downshift).readJobs (front ++ [x]) =
        (((newQueue id dir downshift).readJobs front).addQueueJob (correctedJob x)).2 := by
      rw [readJobs, List.foldl_append]
      rfl
    rw [hstep]
    rcases hread.concat hcounted hids hnumbered with ⟨hnext, hkept⟩ | ⟨hsame, h998, hlast⟩
    · refine .inl ⟨hnext.jobs, ?_⟩
      rintro ⟨-, front', x', heq, hlast⟩
      obtain ⟨rfl, hx⟩ := List.append_inj' heq rfl
      obtain rfl := List.singleton_inj.mp hx
      exact hkept ⟨by omega, by rw [hlast, hread.counter]⟩
    · refine .inr ⟨⟨by simp [h998], front, x, rfl, by rw [hlast, hread.counter]⟩, front, x, rfl, ?_⟩
      rw [hsame, hread.jobs]

theorem IdsOk.readJobs (hids : IdsOk qjs) (hnumbered : Numbered 1 qjs) :
    IdsOk ((newQueue id dir downshift).readJobs qjs).queueJobs := by
  rcases readJobs_cases id dir downshift hids hnumbered with ⟨hjobs, -⟩ | ⟨-, front, x, rfl, hjobs⟩
  · rw [hjobs]
    exact hids.corrected
  · rw [hjobs]
    refine IdsOk.corrected (hids.sublist ?_)
    rw [List.map_append]
    exact List.sublist_append_left _ _

theorem addQueueJob_id (que : NweQueue) (p : IntQueueJob) :
    (que.addQueueJob p).2.id = que.id ∧ (que.addQueueJob p).2.queuedir = que.queuedir := by
  unfold addQueueJob
  split
  next => exact ⟨rfl, rfl⟩
  next => split <;> exact ⟨rfl, rfl⟩

theorem readJobs_id (que : NweQueue) (qjs : List IntQueueJob) :
    (que.readJobs qjs).id = que.id ∧ (que.readJobs qjs).queuedir = que.queuedir := by
  induction qjs generalizing que with
  | nil => exact ⟨rfl, rfl⟩
  | cons qj qjs ih =>
      obtain ⟨hid, hdir⟩ := addQueueJob_id que (correctedJob qj)
      exact ⟨(ih _).1.trans hid, (ih _).2.trans hdir⟩

/-- The file of a queue is read as its jobs. -/
theorem readQueueJobs_written (lay : Layout IntQueueJob) (que q : NweQueue) :
    que.readQueueJobs lay (some (q.writtenJobs lay)) =
      { que.readJobs q.queueJobs with changed := 0 } := by
  unfold writtenJobs
  split
  next hnil =>
    rw [hnil]
    rfl
  next => exact readQueueJobs_blocks lay que q.queueJobs

end NweQueue

/-! ## Runs with restarts -/

/-- The queues of nwbind, the queue objects of the bindery in the order that
`scan_for_obj` gives, and the files of the queues. -/
structure QueueWorld where
  queues : NweQueues
  objects : List QueueObject
  files : QueueFiles

section

variable (cfg : QueueConfig) (lay : Layout IntQueueJob) (downshift : Bool)

/-- `exit_queues` and then `init_queues` on the same bindery. -/
def QueueWorld.restart (w : QueueWorld) : QueueWorld :=
  let (queues, files) := initQueues lay w.objects downshift [] (exitQueues lay w.queues w.files)
  ⟨queues, w.objects, files⟩

/-- What happens to the queues. -/
inductive QueueWorld.Step (w : QueueWorld) : QueueWorld → Prop
  | request (e : QueueRequest) {result : QueueResult} {queues : NweQueues}
      (hyields : Yields anyKernel () ((queueSession cfg).handle w.queues e) (result, queues) ()) :
      Step w { w with queues := queues }
  /-- `nw_creat_queue`: the new object has a new id and comes anywhere in the order. -/
  | creatQueue (id : UInt32) (unixDir : Option (List UInt8)) {before after : List QueueObject}
      (hobjects : w.objects = before ++ after) (hnew : ∀ obj ∈ w.objects, obj.id ≠ id) :
      Step w
        { w with
          queues := w.queues ++ (unixDir.map fun dir =>
            (newQueue id dir downshift).readQueueJobs lay (w.files id)).toList
          objects := before ++ ⟨id, unixDir⟩ :: after }
  /-- `nw_destroy_queue` -/
  | destroyQueue {id : UInt32} {dir : List UInt8} (hobject : ⟨id, some dir⟩ ∈ w.objects) :
      Step w
        { queues := freeQueue w.queues id
          objects := w.objects.filter fun obj => obj.id != id
          files := Function.update w.files id none }
  | restart : Step w (w.restart lay downshift)

/-- The worlds that are reached from one without queues. -/
inductive QueueWorld.Reach : QueueWorld → Prop
  | start : Reach ⟨[], [], fun _ => none⟩
  | step {w w' : QueueWorld} (hreach : Reach w) (hstep : w.Step cfg lay downshift w') : Reach w'

end

/-- A file that the server has written, if there is one. -/
def FileOk (lay : Layout IntQueueJob) (file : Option (List UInt8)) : Prop :=
  ∀ l, file = some l → ∃ q : NweQueue, q.JobsOk ∧ l = q.writtenJobs lay

/-- The queues agree with the bindery, and files are those of lists in order. -/
structure QueueWorld.Ok (lay : Layout IntQueueJob) (w : QueueWorld) : Prop where
  jobs : ∀ q ∈ w.queues, q.JobsOk
  ids : (w.queues.map NweQueue.id).Nodup
  objects : (w.objects.map QueueObject.id).Nodup
  hasObject : ∀ q ∈ w.queues, ⟨q.id, some q.queuedir⟩ ∈ w.objects
  files : ∀ id, FileOk lay (w.files id)

variable {cfg : QueueConfig} {lay : Layout IntQueueJob} {downshift : Bool} {w w' : QueueWorld}

/-- The queue that is read for an object. -/
theorem NweQueue.JobsOk.read {file : Option (List UInt8)} (hfile : FileOk lay file) (id : UInt32)
    (dir : List UInt8) : ((newQueue id dir downshift).readQueueJobs lay file).JobsOk := by
  refine ⟨?_, (NweQueue.counted_newQueue id dir downshift).readQueueJobs lay file⟩
  cases file with
  | none => exact ⟨List.nodup_nil, fun _ hqj => (nomatch hqj)⟩
  | some l =>
      obtain ⟨q, hq, rfl⟩ := hfile l rfl
      rw [NweQueue.readQueueJobs_written]
      exact hq.toIdsOk.readJobs id dir downshift hq.numbered

theorem NweQueue.readQueueJobs_id (lay : Layout IntQueueJob) (que : NweQueue) (file : Option (List UInt8)) :
    (que.readQueueJobs lay file).id = que.id ∧
      (que.readQueueJobs lay file).queuedir = que.queuedir := by
  unfold readQueueJobs
  split
  next => exact ⟨rfl, rfl⟩
  next l =>
    split
    next => exact readJobs_id que _
    next => exact ⟨rfl, rfl⟩

/-- Each queue has its file after `exit_queues`, and no other file is written. -/
theorem exitQueues_apply {queues : NweQueues} (hids : (queues.map NweQueue.id).Nodup)
    (files : QueueFiles) :
    (∀ q ∈ queues, exitQueues lay queues files q.id = some (q.writtenJobs lay)) ∧
      ∀ id, (∀ q ∈ queues, q.id ≠ id) → exitQueues lay queues files id = files id := by
  induction queues generalizing files with
  | nil => exact ⟨fun _ hq => (nomatch hq), fun _ _ => rfl⟩
  | cons q queues ih =>
      obtain ⟨hnew, hids⟩ := List.nodup_cons.mp hids
      obtain ⟨hwritten, hother⟩ :=
        ih hids (Function.update files q.id (some (q.writtenJobs lay)))
      constructor
      · rintro q' (_ | ⟨_, hq'⟩)
        · refine (hother q.id fun q' hq' heq => hnew ?_).trans (Function.update_self ..)
          exact heq ▸ List.mem_map_of_mem hq'
        · exact hwritten q' hq'
      · intro id hid
        refine (hother id fun q' hq' => hid q' (List.mem_cons_of_mem _ hq')).trans ?_
        exact Function.update_of_ne (hid q List.mem_cons_self).symm _ _

/-- Requests leave the id and the directory of a queue alone. -/
theorem sameObject : GoesOn fun q q' => q'.id = q.id ∧ q'.queuedir = q.queuedir where
  refl _ := ⟨rfl, rfl⟩
  edit {q q' q''} h hedit := by
    cases hedit with
    | freed jobId =>
        obtain ⟨_, _, _, heq⟩ := NweQueue.freeQueueJob_eq q' jobId
        rw [heq]
        exact h
    | marked clientArea _ => exact h
    | status status => exact h
  added {q q' p} h _ := by
    obtain ⟨hid, hdir⟩ := NweQueue.addQueueJob_id q' p
    exact ⟨hid.trans h.1, hdir.trans h.2⟩
  server h := h
  handedOut h _ := h
  givenBack h _ := h

theorem fileOk_exitQueues (hok : w.Ok lay) (id : UInt32) :
    FileOk lay (exitQueues lay w.queues w.files id) := by
  obtain ⟨hwritten, hother⟩ := exitQueues_apply hok.ids w.files
  by_cases h : ∃ q ∈ w.queues, q.id = id
  · obtain ⟨q, hq, rfl⟩ := h
    rintro l hl
    rw [hwritten q hq] at hl
    exact ⟨q, hok.jobs q hq, (Option.some.inj hl).symm⟩
  · rw [hother id fun q hq heq => h ⟨q, hq, heq⟩]
    exact hok.files id

/-- The queues that come up are those of the objects with a directory. -/
theorem mem_restart {q' : NweQueue} : q' ∈ (w.restart lay downshift).queues ↔
    ∃ obj ∈ w.objects, ∃ dir, obj.unixDir = some dir ∧
      q' = (newQueue obj.id dir downshift).readQueueJobs lay
        (exitQueues lay w.queues w.files obj.id) := by
  simp only [QueueWorld.restart, initQueues, List.mem_filterMap, Option.map_eq_some_iff]
  refine exists_congr fun obj => and_congr_right fun _ => exists_congr fun dir => ?_
  exact and_congr_right fun _ => eq_comm

theorem QueueWorld.Ok.restart (hok : w.Ok lay) : (w.restart lay downshift).Ok lay where
  jobs q' hq' := by
    obtain ⟨obj, -, dir, -, rfl⟩ := mem_restart.mp hq'
    exact NweQueue.JobsOk.read (fileOk_exitQueues hok obj.id) obj.id dir
  ids := by
    refine hok.objects.sublist ?_
    show (List.map _ (List.filterMap _ w.objects)).Sublist _
    generalize w.objects = objects
    induction objects with
    | nil => exact List.Sublist.slnil
    | cons obj objects ih =>
        cases hdir : obj.unixDir with
        | none =>
            rw [List.filterMap_cons_none (by rw [hdir]; rfl)]
            exact ih.cons _
        | some dir =>
            rw [List.filterMap_cons_some (by rw [hdir]; rfl), List.map_cons,
              (NweQueue.readQueueJobs_id _ _ _).1]
            exact ih.cons_cons _
  objects := hok.objects
  hasObject q' hq' := by
    obtain ⟨obj, hobj, dir, hdir, rfl⟩ := mem_restart.mp hq'
    obtain ⟨hid, hqdir⟩ := NweQueue.readQueueJobs_id lay (newQueue obj.id dir downshift)
      (exitQueues lay w.queues w.files obj.id)
    have hobject : obj = ⟨obj.id, some dir⟩ := by rw [← hdir]
    rw [hid, hqdir]
    exact hobject ▸ hobj
  files id := fileOk_exitQueues hok id

theorem QueueWorld.Ok.step (hok : w.Ok lay) (hstep : w.Step cfg lay downshift w') :
    w'.Ok lay := by
  cases hstep with
  | request e hyields =>
      have hsame := (sameObject.returns_request e).of_yields hyields
      refine ⟨(NweQueue.JobsOk.kept.request e hok.jobs).of_yields hyields, ?_, hok.objects, ?_,
        hok.files⟩
      · have hmap := List.forall₂_map_left_iff.mpr (List.forall₂_map_right_iff.mpr
          (hsame.imp fun q q' h => h.1.symm))
        have heq : w.queues.map NweQueue.id = _ := List.forall₂_eq_eq_eq ▸ hmap
        exact heq ▸ hok.ids
      · intro q' hq'
        obtain ⟨q, hq, hid, hdir⟩ := exists_of_forall₂ hsame hq'
        rw [hid, hdir]
        exact hok.hasObject q hq
  | @creatQueue id unixDir before after hobjects hnew =>
      have hnewId : ∀ q ∈ w.queues, q.id ≠ id := fun q hq => hnew _ (hok.hasObject q hq)
      have hread : ∀ q ∈ (unixDir.map fun dir =>
          (newQueue id dir downshift).readQueueJobs lay (w.files id)).toList,
          q.JobsOk ∧ q.id = id ∧ unixDir = some q.queuedir := by
        intro q hq
        obtain ⟨dir, hdir, rfl⟩ := Option.map_eq_some_iff.mp (Option.mem_toList.mp hq)
        obtain ⟨hid, hqdir⟩ := NweQueue.readQueueJobs_id lay (newQueue id dir downshift) (w.files id)
        exact ⟨.read (hok.files id) id dir, hid, by rw [hqdir, hdir]; rfl⟩
      refine ⟨?_, ?_, ?_, ?_, hok.files⟩
      · intro q hq
        rcases List.mem_append.mp hq with hq | hq
        · exact hok.jobs q hq
        · exact (hread q hq).1
      · rw [List.map_append]
        refine List.Nodup.append hok.ids ?_ ?_
        · cases unixDir <;> simp
        · intro i hi hi'
          obtain ⟨q, hq, rfl⟩ := List.mem_map.mp hi
          obtain ⟨q', hq', heq⟩ := List.mem_map.mp hi'
          exact hnewId q hq (heq.symm.trans (hread q' hq').2.1)
      · have hnodup := hok.objects
        rw [hobjects, List.map_append] at hnodup
        rw [List.map_append, List.map_cons, List.nodup_middle, List.nodup_cons]
        refine ⟨fun hmem => ?_, hnodup⟩
        rw [← List.map_append, ← hobjects] at hmem
        obtain ⟨obj, hobj, heq⟩ := List.mem_map.mp hmem
        exact hnew obj hobj heq
      · intro q hq
        rcases List.mem_append.mp hq with hq | hq
        · have hobj := hok.hasObject q hq
          rw [hobjects] at hobj
          exact (List.mem_append.mp hobj).elim (List.mem_append_left _)
            fun h => List.mem_append_right _ (List.mem_cons_of_mem _ h)
        · obtain ⟨-, hid, hdir⟩ := hread q hq
          exact List.mem_append_right _ (by rw [hid, ← hdir]; exact List.mem_cons_self)
  | @destroyQueue id dir hobject =>
      have hsub : (freeQueue w.queues id).Sublist w.queues := List.eraseP_sublist
      have hother : ∀ q ∈ freeQueue w.queues id, q.id ≠ id := by
        intro q hq heq
        obtain ⟨a, before, after, -, ha, hlist, herase⟩ := List.exists_of_eraseP
          (p := fun q => q.id == id) (hsub.subset hq) (beq_iff_eq.mpr heq)
        have hids := hok.ids
        rw [hlist, List.map_append, List.map_cons, List.nodup_middle, List.nodup_cons,
          ← List.map_append, ← herase] at hids
        have hmem := List.mem_map_of_mem (f := NweQueue.id) hq
        rw [heq.trans (beq_iff_eq.mp ha).symm] at hmem
        exact hids.1 hmem
      refine ⟨fun q hq => hok.jobs q (hsub.subset hq), hok.ids.sublist (hsub.map _),
        hok.objects.sublist (List.filter_sublist.map _), fun q hq => ?_, fun i => ?_⟩
      · exact List.mem_filter.mpr ⟨hok.hasObject q (hsub.subset hq), by simpa using hother q hq⟩
      · show FileOk lay (Function.update w.files id none i)
        by_cases hi : i = id
        · rw [hi, Function.update_self]
          exact fun l hl => nomatch hl
        · rw [Function.update_of_ne hi]
          exact hok.files i
  | restart => exact hok.restart

theorem QueueWorld.Reach.ok (hreach : QueueWorld.Reach cfg lay downshift w) : w.Ok lay := by
  induction hreach with
  | start =>
      exact ⟨fun _ hq => (nomatch hq), List.nodup_nil, List.nodup_nil, fun _ hq => (nomatch hq),
        fun _ _ h => (nomatch h)⟩
  | step _ hstep ih => exact ih.step hstep

/-- The queue as it comes up again: the same jobs in the same order, of which only
what `r_w_queue_jobs` corrects is reset. -/
structure Restored (q q' : NweQueue) : Prop where
  id : q'.id = q.id
  queuedir : q'.queuedir = q.queuedir
  jobs : q'.queueJobs = q.queueJobs.map correctedJob

theorem restored_iff (hok : w.Ok lay) :
    (∀ q ∈ w.queues, ∃ q' ∈ (w.restart lay downshift).queues, Restored q q') ↔
      ∀ q ∈ w.queues, ¬NweQueue.LosesLast q.queueJobs := by
  have hread : ∀ q ∈ w.queues, ∀ dir, ((newQueue q.id dir downshift).readQueueJobs lay
      (exitQueues lay w.queues w.files q.id)).queueJobs =
        ((newQueue q.id dir downshift).readJobs q.queueJobs).queueJobs := fun q hq dir => by
    rw [(exitQueues_apply hok.ids w.files).1 q hq, NweQueue.readQueueJobs_written]
  constructor
  · intro hall q hq hloses
    obtain ⟨q', hq', hrestored⟩ := hall q hq
    obtain ⟨obj, -, dir, -, rfl⟩ := mem_restart.mp hq'
    have hid : obj.id = q.id := (NweQueue.readQueueJobs_id lay _ _).1.symm.trans hrestored.id
    have hjobs := hrestored.jobs
    rw [hid, hread q hq] at hjobs
    -- all but the last job are read
    rcases NweQueue.readJobs_cases q.id dir downshift (hok.jobs q hq).toIdsOk
      (hok.jobs q hq).numbered with ⟨-, hkept⟩ | ⟨-, front, x, hlist, hfront⟩
    · exact hkept hloses
    · have hlength := congrArg List.length (hfront.symm.trans hjobs)
      rw [hlist] at hlength
      simp at hlength
  · intro hkept q hq
    refine ⟨_, mem_restart.mpr ⟨_, hok.hasObject q hq, q.queuedir, rfl, rfl⟩, ?_⟩
    obtain ⟨hid, hdir⟩ := NweQueue.readQueueJobs_id lay (newQueue q.id q.queuedir downshift)
      (exitQueues lay w.queues w.files q.id)
    refine ⟨hid, hdir, ?_⟩
    rw [hread q hq]
    rcases NweQueue.readJobs_cases q.id q.queuedir downshift (hok.jobs q hq).toIdsOk
      (hok.jobs q hq).numbered with ⟨hjobs, -⟩ | ⟨hloses, -⟩
    · exact hjobs
    · exact absurd hloses (hkept q hq)

/-! ## A full list -/

section

open NweQueue

variable {q : NweQueue} {n : Nat}

theorem findQueue_singleton (q : NweQueue) : ∃ k, findQueue [q] q.id = some k ∧ [q][k] = q := by
  obtain ⟨k, hk⟩ : ∃ k, findQueue [q] q.id = some k :=
    Option.isSome_iff_exists.mp (by simp [findQueue])
  exact ⟨k, hk, List.mem_singleton.mp (List.getElem_mem k.isLt)⟩

theorem withQueue_singleton {missing : Int} {f : NweQueue → QueueProg (QueueResult × NweQueue)}
    {r : QueueResult} {q' : NweQueue} (h : Yields anyKernel () (f q) (r, q') ()) :
    Yields anyKernel () (withQueue [q] q.id missing f) (r, [q']) () := by
  obtain ⟨k, hk, hq⟩ := findQueue_singleton q
  have hzero : k.val = 0 := Nat.lt_one_iff.mp k.isLt
  rw [withQueue, hk]
  refine Yields.bind (a := (r, q')) (by rw [hq]; exact h) ⟨?_, rfl⟩
  rw [hzero]
  rfl

/-- A job can always be asked for. -/
theorem reach_creat (hreach : QueueWorld.Reach cfg lay downshift w) (hw : w.queues = [q]) :
    ∃ p, p.jobId = 0 ∧
      QueueWorld.Reach cfg lay downshift { w with queues := [(q.addQueueJob p).2] } := by
  have hcreat : ∃ r, Yields anyKernel () (creatJob cfg 1 1 1 plainEntry [47] q)
      (r, (q.addQueueJob (takeOver cfg (newQueueJob 1 1 1 0) plainEntry)).2) () := by
    have htime : Yields anyKernel () (ask (R := QueueCall.Answer) QueueCall.time) 0 () :=
      ⟨0, (), trivial, rfl, rfl⟩
    cases h : q.addQueueJob (takeOver cfg (newQueueJob 1 1 1 0) plainEntry) with
    | mk jo que =>
        cases jo with
        | none => exact ⟨_, htime.bind (by rw [h]; exact ⟨rfl, rfl⟩)⟩
        | some jo => exact ⟨_, htime.bind (by rw [h]; exact ⟨rfl, rfl⟩)⟩
  obtain ⟨r, hcreat⟩ := hcreat
  have hyields : Yields anyKernel () ((queueSession cfg).handle w.queues
      (.creatJob 1 1 1 q.id plainEntry))
      (r, [(q.addQueueJob (takeOver cfg (newQueueJob 1 1 1 0) plainEntry)).2]) () := by
    rw [hw]
    exact ⟨.ok [47], (), trivial, withQueue_singleton hcreat⟩
  exact ⟨_, rfl, hreach.step (.request _ hyields)⟩

/-- A job whose file is gone can be removed by the supervisor. -/
theorem reach_remove (hreach : QueueWorld.Reach cfg lay downshift w) (hw : w.queues = [q])
    {jobId : Int32} (hjob : ∃ qj ∈ q.queueJobs, qj.jobId = jobId) :
    QueueWorld.Reach cfg lay downshift { w with queues := [q.freeQueueJob jobId] } := by
  obtain ⟨i, hi⟩ : ∃ i, q.findQueueJob jobId = some i := by
    refine Option.isSome_iff_exists.mp ?_
    simpa [findQueueJob] using hjob
  have hremove : Yields anyKernel () (removeJob 1 jobId q) (.ok .empty, q.freeQueueJob jobId) () := by
    rw [removeJob, hi]
    dsimp only
    rw [if_pos (Or.inl rfl)]
    exact ⟨none, (), trivial, rfl, rfl⟩
  have hyields : Yields anyKernel () ((queueSession cfg).handle w.queues
      (.removeJob 1 q.id jobId)) (.ok .empty, [q.freeQueueJob jobId]) () := by
    rw [hw]
    exact withQueue_singleton hremove
  exact hreach.step (.request _ hyields)

/-- A job that is removed goes out of the list, and the last id given stays. -/
theorem freeQueueJob_jobIds {jobId : Int32} {before after : List Int32}
    (hids : q.queueJobs.map IntQueueJob.jobId = before ++ jobId :: after)
    (hbefore : jobId ∉ before) (hafter : jobId ∉ after) :
    (q.freeQueueJob jobId).queueJobs.map IntQueueJob.jobId = before ++ after ∧
      (q.freeQueueJob jobId).lastJobId = q.lastJobId := by
  unfold freeQueueJob
  split
  next hnone =>
    have hmem : jobId ∈ q.queueJobs.map IntQueueJob.jobId := by
      rw [hids]
      exact List.mem_append_right _ List.mem_cons_self
    obtain ⟨qj, hqj, hid⟩ := List.mem_map.mp hmem
    exact absurd hid (freedJobs_eq_none hnone qj hqj)
  next jobs hjobs =>
    obtain ⟨front, freed, back, hlist, hfreed, -, rfl⟩ := freedJobs_eq_some hjobs
    rw [hlist, List.map_append, List.map_cons, hfreed] at hids
    obtain ⟨hfront, -, hback⟩ := (List.append_cons_inj_of_notMem hbefore hafter).mp hids.symm
    exact ⟨by rw [List.map_append, map_renumber fun _ _ => rfl, hfront, hback], rfl⟩

variable (cfg lay downshift)

/-- The world in which one queue has been created. -/
def oneQueue (downshift : Bool) : QueueWorld :=
  ⟨[newQueue 1 [47] downshift], [⟨1, some [47]⟩], fun _ => none⟩

theorem reach_oneQueue : QueueWorld.Reach cfg lay downshift (oneQueue downshift) := by
  have hcreat : QueueWorld.Step cfg lay downshift ⟨[], [], fun _ => none⟩ (oneQueue downshift) :=
    @QueueWorld.Step.creatQueue cfg lay downshift ⟨[], [], fun _ => none⟩ 1 (some [47]) [] [] rfl
      fun _ hobj => (nomatch hobj)
  exact .step .start hcreat

/-- A queue can be filled with the jobs 1, …, `n`. -/
theorem reach_jobs (hn : n ≤ 999) : ∃ w q, QueueWorld.Reach cfg lay downshift w ∧ w.queues = [q] ∧
    q.lastJobId.val = n ∧
      q.queueJobs.map IntQueueJob.jobId = (List.range n).map fun i => Int32.ofNat (i + 1) := by
  induction n with
  | zero =>
      exact ⟨_, _, reach_oneQueue cfg lay downshift, rfl, rfl, rfl⟩
  | succ n ih =>
      obtain ⟨w, q, hreach, hw, hlast, hids⟩ := ih (by omega)
      obtain ⟨p, hp, hreach'⟩ := reach_creat hreach hw
      have hok : q.JobsOk := hreach.ok.jobs q (hw ▸ List.mem_singleton.mpr rfl)
      have hfree : q.jobIdUsed (q.lastJobId + 1) = false := by
        rw [hlast, Bool.eq_false_iff, ne_eq, jobIdUsed_iff]
        rintro ⟨used, hmem, hused⟩
        have hid := List.mem_map_of_mem (f := IntQueueJob.jobId) hmem
        rw [hids] at hid
        obtain ⟨i, hi, heq⟩ := List.mem_map.mp hid
        have hlt := List.mem_range.mp hi
        have hsame := ofNat_small_inj (by omega) hn (heq.trans hused)
        omega
      obtain ⟨pos, hadd⟩ := addQueueJob_next hok.toCounted p (by omega) hfree
      refine ⟨_, _, hreach', rfl, ?_, ?_⟩
      · simp only [hadd, link, hlast]
      · simp only [hadd, link, hlast, List.map_append, hids, hp, List.range_succ, if_true,
          List.map_singleton]

/-- The ids 1, …, `n`. -/
def firstIds (n : Nat) : List Int32 := (List.range n).map fun i => Int32.ofNat (i + 1)

theorem firstIds_succ (n : Nat) : firstIds (n + 1) = firstIds n ++ [Int32.ofNat (n + 1)] := by
  rw [firstIds, List.range_succ, List.map_append]
  rfl

theorem mem_firstIds {i : Nat} (hi : 1 ≤ i ∧ i ≤ 999) (hn : n ≤ 999) :
    Int32.ofNat i ∈ firstIds n ↔ i ≤ n := by
  constructor
  · intro hmem
    obtain ⟨k, hk, heq⟩ := List.mem_map.mp hmem
    have hlt := List.mem_range.mp hk
    have hsame := ofNat_small_inj (by omega) hi.2 heq
    omega
  · intro hle
    exact List.mem_map.mpr ⟨i - 1, List.mem_range.mpr (by omega), by rw [Nat.sub_add_cancel hi.1]⟩

/-- Behind the first ids comes the next one. -/
theorem idBehind_firstIds (hn : n < 999) : idBehind (firstIds n) n = n + 1 := by
  cases n with
  | zero => rfl
  | succ n =>
      have hne : firstIds (n + 1) ≠ [] := by
        rw [firstIds_succ]
        exact List.append_ne_nil_of_right_ne_nil _ (List.cons_ne_nil _ _)
      rw [idBehind, if_neg hne, idsBehind, show 999 - (n + 1) = 999 - (n + 1) - 1 + 1 by omega,
        List.range'_succ, List.cons_append, List.find?_cons_of_pos]
      · rfl
      · have hfree := mem_firstIds (i := n + 1 + 1) (n := n + 1) (by omega) (by omega)
        exact decide_eq_true (fun hmem => by have hle := hfree.mp hmem; omega)

theorem idCounter_firstIds (hn : n ≤ 999) : idCounter (firstIds n) = n := by
  induction n with
  | zero => rfl
  | succ n ih => rw [firstIds_succ, idCounter_concat, ih (by omega), idBehind_firstIds hn]

/-- A list of all jobs but the last but one; creating that job again fills the list. -/
theorem reach_full (hn : n + 2 = 999) : ∃ w q, QueueWorld.Reach cfg lay downshift w ∧
    w.queues = [q] ∧ q.queueJobs.map IntQueueJob.jobId =
      (firstIds n ++ [Int32.ofNat (n + 2)]) ++ [Int32.ofNat (n + 1)] := by
  obtain ⟨w, q, hreach, hw, hlast, hids⟩ := reach_jobs cfg lay downshift (n := n + 2) (by omega)
  change _ = firstIds (n + 2) at hids
  rw [firstIds_succ, firstIds_succ, List.append_assoc, List.singleton_append] at hids
  have hmem : ∃ qj ∈ q.queueJobs, qj.jobId = Int32.ofNat (n + 1) := by
    rw [← List.mem_map, hids]
    exact List.mem_append_right _ List.mem_cons_self
  have hremoved := reach_remove hreach hw hmem
  have hfront : Int32.ofNat (n + 1) ∉ firstIds n := fun h => by
    have hle := (mem_firstIds (by omega) (by omega)).mp h
    omega
  have hback : Int32.ofNat (n + 1) ∉ [Int32.ofNat (n + 2)] := fun h => by
    have hsame := ofNat_small_inj (by omega) (by omega) (List.mem_singleton.mp h)
    omega
  have hids' := freeQueueJob_jobIds hids hfront hback
  generalize q.freeQueueJob (Int32.ofNat (n + 1)) = q' at hremoved hids'
  obtain ⟨p, hp, hreach'⟩ := reach_creat hremoved rfl
  have hok : q'.JobsOk := hremoved.ok.jobs q' (List.mem_singleton.mpr rfl)
  have hused : ∀ i, 1 ≤ i ∧ i ≤ 999 →
      ((∃ qj ∈ q'.queueJobs, qj.jobId = Int32.ofNat i) ↔ i ≠ n + 1) := by
    intro i hi
    rw [← List.mem_map, hids'.1, List.mem_append, List.mem_singleton, mem_firstIds hi (by omega)]
    constructor
    · rintro (hle | heq)
      · omega
      · have hsame := ofNat_small_inj hi.2 (by omega) heq
        omega
    · intro hne
      by_cases htop : i = n + 2
      · exact .inr (by rw [htop])
      · exact .inl (by omega)
  refine ⟨_, _, hreach', rfl, ?_⟩
  rcases addQueueJob_cases hok.toCounted p with ⟨-, -, hothers⟩ | ⟨last, hfree, -, heq⟩
  · -- the id `n + 1` is free and is not the one given last
    obtain ⟨hpos, hle⟩ := small_iff.mpr ⟨n + 1, by omega, rfl⟩
    have hmissing := hothers _ hpos hle fun heq => by
      rw [hids'.2, hlast] at heq
      have hsame := ofNat_small_inj (by omega) (by omega) heq
      omega
    exact absurd rfl ((hused (n + 1) (by omega)).mp hmissing)
  · have hlast' : last.val = n + 1 := by
      by_contra hne
      have hmem := (jobIdUsed_iff last.val).mpr ((hused last.val last.2).mpr hne)
      rw [hfree] at hmem
      contradiction
    rw [heq]
    simp only [link, List.map_append, List.map_singleton, hp, if_true, hids'.1, hlast']

/-- Then the job 1 can be removed. -/
theorem reach_withoutFirst (hn : n + 3 = 999) : ∃ w q, QueueWorld.Reach cfg lay downshift w ∧
    w.queues = [q] ∧ q.queueJobs.map IntQueueJob.jobId =
      ((List.range n).map fun i => Int32.ofNat (i + 2)) ++
        [Int32.ofNat (n + 3), Int32.ofNat (n + 2)] := by
  obtain ⟨w, q, hreach, hw, hids⟩ := reach_full cfg lay downshift (n := n + 1) hn
  have hfirst : firstIds (n + 1) = 1 :: (List.range n).map fun i => Int32.ofNat (i + 2) := by
    rw [firstIds, List.range_succ_eq_map, List.map_cons, List.map_map]
    rfl
  rw [hfirst, List.append_assoc, List.singleton_append, List.cons_append] at hids
  have hafter : (1 : Int32) ∉ ((List.range n).map fun i => Int32.ofNat (i + 2)) ++
      [Int32.ofNat (n + 3), Int32.ofNat (n + 2)] := by
    have hother : ∀ k, 2 ≤ k ∧ k ≤ 999 → Int32.ofNat k ≠ 1 := fun k hk heq => by
      have hsame := ofNat_small_inj hk.2 (by omega : 1 ≤ 999) heq
      omega
    intro hmem
    rcases List.mem_append.mp hmem with hmem | hmem
    · obtain ⟨i, hi, heq⟩ := List.mem_map.mp hmem
      have hlt := List.mem_range.mp hi
      exact hother _ (by omega) heq
    · rcases List.mem_cons.mp hmem with heq | hmem
      · exact hother _ (by omega) heq.symm
      · exact hother _ (by omega) (List.mem_singleton.mp hmem).symm
  obtain ⟨hids', -⟩ := freeQueueJob_jobIds (q := q) hids List.not_mem_nil hafter
  have hmem : ∃ qj ∈ q.queueJobs, qj.jobId = 1 := by
    rw [← List.mem_map, hids]
    exact List.mem_cons_self
  exact ⟨_, _, reach_remove hreach hw hmem, rfl, hids'⟩

/-- A queue can be full in an order in which its last job is lost. -/
theorem reach_losesLast (hn : n + 2 = 999) : ∃ w q, QueueWorld.Reach cfg lay downshift w ∧
    w.queues = [q] ∧ LosesLast q.queueJobs := by
  obtain ⟨w, q, hreach, hw, hids⟩ :=
    reach_full cfg lay downshift hn
  refine ⟨w, q, hreach, hw, ?_, ?_⟩
  · have hlength := congrArg List.length hids
    simp only [List.length_map, List.length_append, List.length_singleton, firstIds,
      List.length_range] at hlength
    omega
  · obtain ⟨front, back, heq, hfront, hback⟩ := List.map_eq_append_iff.mp hids
    obtain ⟨x, rfl, hx⟩ := List.map_eq_singleton_iff.mp hback
    refine ⟨front, x, heq, ?_⟩
    rw [hx, hfront, idCounter_concat, idCounter_firstIds (by omega), idBehind_firstIds (by omega)]

end

/-- From every state that is reached, all queues come up with their jobs, unless one has
999 jobs of which the last is lost; and later jobs get ids of their own. -/
theorem queues_restored (hreach : QueueWorld.Reach cfg lay downshift w) :
    ((∀ q ∈ w.queues, ∃ q' ∈ (w.restart lay downshift).queues, Restored q q') ↔
        ∀ q ∈ w.queues, ¬NweQueue.LosesLast q.queueJobs) ∧
      ∀ es queues, QueueRun cfg (w.restart lay downshift).queues es queues →
        ∀ q ∈ queues, q.JobsOk := by
  have hrestart : (w.restart lay downshift).Ok lay := hreach.ok.restart
  exact ⟨restored_iff hreach.ok, fun _ _ hrun => NweQueue.JobsOk.kept.run hrestart.jobs hrun⟩

/-- A list of 998 jobs that is not in the order of its ids comes up as it was. -/
theorem queues_restored_unordered :
    ∃ (w : QueueWorld) (q q' : NweQueue), w.queues = [q] ∧
      q.queueJobs.map IntQueueJob.jobId =
        ((List.range 996).map fun i => Int32.ofNat (i + 2)) ++ [999, 998] ∧
      q' ∈ (w.restart IntQueueJob.packed false).queues ∧ Restored q q' ∧
      ∀ es queues, QueueRun .still (w.restart IntQueueJob.packed false).queues es queues →
        ∀ q ∈ queues, q.JobsOk := by
  obtain ⟨w, q, hreach, hw, hids⟩ := reach_withoutFirst .still IntQueueJob.packed false
    (n := 996) rfl
  obtain ⟨hrestored, hlater⟩ := queues_restored hreach
  have hshort : ¬NweQueue.LosesLast q.queueJobs := by
    rintro ⟨hlength, -⟩
    have hmap := congrArg List.length hids
    simp only [List.length_map, hlength, List.length_append, List.length_range, List.length_cons,
      List.length_nil] at hmap
    omega
  obtain ⟨q', hq', hsame⟩ := hrestored.mpr
    (fun q' hq' => by
      rw [hw] at hq'
      exact List.mem_singleton.mp hq' ▸ hshort)
    q (hw ▸ List.mem_singleton_self q)
  exact ⟨w, q, q', hw, hids, hq', hsame, hlater⟩

/-- A full queue of 999 jobs may come up with 998. -/
theorem not_queues_restored :
    ¬∀ (cfg : QueueConfig) (lay : Layout IntQueueJob) (downshift : Bool) (w : QueueWorld),
      QueueWorld.Reach cfg lay downshift w →
      (∀ q ∈ w.queues, ∃ q' ∈ (w.restart lay downshift).queues, Restored q q') ∧
        ∀ es queues, QueueRun cfg (w.restart lay downshift).queues es queues →
          ∀ q ∈ queues, q.JobsOk := by
  intro h
  obtain ⟨w, q, hreach, hw, hloses⟩ := reach_losesLast .still IntQueueJob.packed false
    (n := 997) rfl
  have hall := (h _ _ _ w hreach).1
  exact (restored_iff hreach.ok).mp hall q (hw ▸ List.mem_singleton.mpr rfl) hloses

end MarsNwe
