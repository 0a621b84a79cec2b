import MarsNwe.Nwbind.Dispatch

/-! # The connections of nwbind do not disturb each other

A request may leave messages in the records of other connections. It changes nothing else
of them, sends no signal to their processes, and looks at no record that is none.
-/

namespace MarsNwe

/-- A record without its message text. -/
def ConnRecord.untold (c : ConnRecord) : ConnRecord := { c with message := CText.copy 59 [] }

/-- What a request of the connection `sender` may come to. -/
structure Isolated (sender : Nat) (before : List ConnRecord) (trace : List FxxEffect)
    (after : List ConnRecord) : Prop where
  records : ∀ j, j ≠ sender → (after[j]?).map ConnRecord.untold = (before[j]?).map ConnRecord.untold
  length : after.length = before.length
  signals : ∀ (index : Int) pid, .kill index pid ∈ trace → index = sender
  indices : ∀ index : Int, .use index ∈ trace → 0 ≤ index ∧ index < before.length

namespace Isolated

variable {sender : Nat} {before middle after : List ConnRecord} {trace trace' : List FxxEffect}

theorem refl (cs : List ConnRecord) : Isolated sender cs [] cs :=
  ⟨fun _ _ => rfl, rfl, nofun, nofun⟩

theorem trans (h : Isolated sender before trace middle) (h' : Isolated sender middle trace' after) :
    Isolated sender before (trace ++ trace') after where
  records j hj := (h'.records j hj).trans (h.records j hj)
  length := h'.length.trans h.length
  signals index pid hmem := (List.mem_append.mp hmem).elim (h.signals index pid) (h'.signals index pid)
  indices index hmem := (List.mem_append.mp hmem).elim (h.indices index) fun hnew =>
    h.length ▸ h'.indices index hnew

theorem of_subset (h : Isolated sender before trace' after) (hsub : trace ⊆ trace') :
    Isolated sender before trace after :=
  ⟨h.records, h.length, fun index pid hmem => h.signals index pid (hsub hmem),
    fun index hmem => h.indices index (hsub hmem)⟩

/-- Effects that are neither signals nor uses of records. -/
theorem quiet {cs : List ConnRecord} (hkill : ∀ (index : Int) pid, .kill index pid ∉ trace)
    (huse : ∀ index : Int, .use index ∉ trace) : Isolated sender cs trace cs :=
  ⟨fun _ _ => rfl, rfl, fun index pid hmem => absurd hmem (hkill index pid),
    fun index hmem => absurd hmem (huse index)⟩

/-- A record of the table is looked at. -/
theorem use {cs : List ConnRecord} {k : Nat} (hk : k < cs.length) :
    Isolated sender cs [.use k] cs where
  records _ _ := rfl
  length := rfl
  signals _ _ hmem := nomatch List.mem_singleton.mp hmem
  indices index hmem := by
    rw [FxxEffect.use.inj (List.mem_singleton.mp hmem)]
    exact ⟨Int.natCast_nonneg k, Int.ofNat_lt.mpr hk⟩

/-- The sender's own process gets a signal. -/
theorem signal {cs : List ConnRecord} {pid : Int32} :
    Isolated sender cs [.kill sender pid] cs where
  records _ _ := rfl
  length := rfl
  signals _ _ hmem := (FxxEffect.kill.inj (List.mem_singleton.mp hmem)).1
  indices _ hmem := nomatch List.mem_singleton.mp hmem

/-- The sender's own record changes. -/
theorem own {cs : List ConnRecord} (change : ConnRecord → ConnRecord) :
    Isolated sender cs [] (cs.modify sender change) where
  records j hj := by rw [List.getElem?_modify_ne change cs (Ne.symm hj)]
  length := List.length_modify change cs sender
  signals := nofun
  indices := nofun

/-- A message is left in a record. -/
theorem message {cs : List ConnRecord} (k : Nat) (text : CText 60) :
    Isolated sender cs [] (cs.modify k fun c => { c with message := text }) where
  records j _ := by
    rw [List.getElem?_modify]
    cases cs[j]? with
    | none => rfl
    | some c =>
        refine congrArg some ?_
        dsimp only
        split
        next => rfl
        next => rfl
  length := List.length_modify _ cs k
  signals := nofun
  indices := nofun

end Isolated

/-! ## The functions of nwbind -/

namespace NwbindTable

variable {β : Type} {f : NwbindFuncs β} {env : FxxEnv} {s : NwbindTable β} {sender : Nat}

/-- What a function does to the table, from a state on. -/
def Keeps {α : Type} (sender : Nat) (s : NwbindTable β) (m : Traced FxxEffect (α × NwbindTable β)) :
    Prop :=
  Isolated sender s.connections m.trace m.value.2.connections

theorem Keeps.bind {α γ : Type} {m : Traced FxxEffect α}
    {g : α → Traced FxxEffect (γ × NwbindTable β)} {middle : List ConnRecord}
    (hm : Isolated sender s.connections m.trace middle)
    (hg : Isolated sender middle (g m.value).trace (g m.value).value.2.connections) :
    Keeps sender s (m >>= g) :=
  hm.trans hg

theorem Keeps.pure {α : Type} (a : α) : Keeps sender s (Pure.pure (a, s)) := .refl _

theorem scan_isolated {α : Type} (step : α → Nat → ConnRecord → α) (start : α) :
    Isolated sender s.connections (s.scan step start).trace s.connections := by
  have hgoesOn : Traced.GoesOn fun (_ : α) trace (_ : α) =>
      Isolated sender s.connections trace s.connections :=
    ⟨fun _ => .refl _, fun h h' => h.trans h'⟩
  refine hgoesOn.foldlM_of_mem (fun a k hk => ?_) start
  exact (Isolated.use (List.mem_range.mp hk)).trans (.refl _)

/-! ### Messages -/

theorem broadcastTo_isolated (text : CText 60) (acc : NwbindTable β × List UInt8 × Bool)
    (connr : UInt8) :
    Isolated sender acc.1.connections (broadcastTo text acc connr).trace
      (broadcastTo text acc connr).value.1.connections := by
  obtain ⟨s, results, oneFound⟩ := acc
  unfold broadcastTo
  dsimp only
  split
  next hk =>
    refine (Isolated.use hk.2).trans ?_
    split
    next =>
      refine (Isolated.quiet (by simp) (by simp)).trans ?_
      split
      next => exact .message _ text
      next => exact .refl _
    next => exact .refl _
  next => exact .refl _

theorem handleFxx15_keeps (hs : sender < s.connections.length) (ufunc : UInt8)
    (rdata : List UInt8) : Keeps sender s (s.handleFxx15 sender ufunc rdata) := by
  unfold handleFxx15
  split
  next =>
    have hgoesOn : Traced.GoesOn fun (acc : NwbindTable β × List UInt8 × Bool) trace
        (acc' : NwbindTable β × List UInt8 × Bool) =>
        Isolated sender acc.1.connections trace acc'.1.connections :=
      ⟨fun _ => .refl _, fun h h' => h.trans h'⟩
    exact Keeps.bind (hgoesOn.foldlM (broadcastTo_isolated _) (s, [], false) _) (.refl _)
  next =>
    split
    next => exact (Isolated.use hs).trans (.message _ _)
    next =>
      split
      next => exact .refl _
      next =>
        split
        next => exact (Isolated.quiet (by simp) (by simp)).trans (.refl _)
        next => exact .refl _

/-! ### The file server environment -/

theorem getServerInfo_keeps : Keeps sender s (s.getServerInfo f) :=
  (scan_isolated _ _).trans (.refl _)

theorem record_index {conn : Int} (hpos : conn > 0) (hle : conn ≤ s.connections.length) :
    Isolated sender s.connections [.use (conn - 1)] s.connections := by
  obtain ⟨k, hk⟩ := Int.eq_ofNat_of_zero_le (show 0 ≤ conn - 1 by omega)
  rw [hk]
  exact Isolated.use (by omega)

theorem getInternetAddress_keeps (old : Bool) (rdata : List UInt8) :
    Keeps sender s (s.getInternetAddress sender old rdata) := by
  unfold getInternetAddress
  dsimp only
  split
  next hconn =>
    refine (record_index hconn.1 hconn.2).trans ?_
    split
    next => exact .refl _
    next => exact .refl _
  next => exact .refl _

theorem buildLoginResponse_keeps (hs : sender < s.connections.length) (objId : UInt32) :
    Keeps sender s (s.buildLoginResponse f env sender objId) := by
  refine (Isolated.use hs).trans ?_
  exact (Isolated.quiet (by simp) (by simp)).trans (.own _)

theorem testAdrTime_keeps (passed : Int → Bool) (type : UInt16) (objId : UInt32) (result : Int) :
    Isolated sender s.connections (s.testAdrTime f sender passed type objId result).trace
        s.connections ∧
      (s.testAdrTime f sender passed type objId result).value.2.connections = s.connections := by
  unfold testAdrTime
  split
  next =>
    split
    next => exact ⟨.refl _, rfl⟩
    next => exact ⟨(scan_isolated _ _).trans (.refl _), rfl⟩
  next => exact ⟨.refl _, rfl⟩

theorem loginReply_keeps (hs : sender < s.connections.length) (passed : Int → Bool)
    (objId : UInt32) (result : Int) :
    Keeps sender s (s.loginReply f env sender passed objId result) := by
  unfold loginReply
  dsimp only
  split
  next => exact Keeps.bind (buildLoginResponse_keeps hs objId) (.refl _)
  next => exact .refl _

theorem finishLogin_keeps (hs : sender < s.connections.length) (passed : Int → Bool)
    (type : UInt16) (objId : UInt32) (result : Int) :
    Keeps sender s (s.finishLogin f env sender passed type objId result) := by
  obtain ⟨htest, hsame⟩ := @testAdrTime_keeps β f s sender passed type objId result
  refine Keeps.bind (Isolated.use hs) (Keeps.bind htest ?_)
  have hreply := @loginReply_keeps β f env (s.testAdrTime f sender passed type objId result).value.2
    sender (hsame ▸ hs) passed objId (s.testAdrTime f sender passed type objId result).value.1
  unfold Keeps at hreply
  rw [hsame] at hreply
  exact hreply

theorem login_keeps (hs : sender < s.connections.length) (rdata : List UInt8) :
    Keeps sender s (s.login f env sender rdata) := by
  unfold login
  dsimp only
  split
  next => exact .refl _
  next => exact finishLogin_keeps hs _ _ _ _

theorem cryptLogin_keeps (hs : sender < s.connections.length) (rdata : List UInt8) :
    Keeps sender s (s.cryptLogin f env sender rdata) := by
  unfold cryptLogin
  dsimp only
  split
  next => exact .refl _
  next => exact finishLogin_keeps hs _ _ _ _

/-- The loop over some indices looks at indices of the table when they all are. -/
theorem listConnections_isolated {objId : UInt32} {indices : List Int}
    (hin : ∀ k ∈ indices, 0 ≤ k ∧ k < s.connections.length) (count : Nat) :
    Isolated sender s.connections (s.listConnections objId indices count).trace s.connections := by
  induction indices generalizing count with
  | nil => exact .refl _
  | cons k ks ih =>
      have hks := fun j hj => hin j (List.mem_cons_of_mem k hj)
      obtain ⟨hpos, hlt⟩ := hin k List.mem_cons_self
      have huse : Isolated sender s.connections [.use k] s.connections := by
        have hk := @record_index β s sender (k + 1) (by omega) (by omega)
        rwa [Int.add_sub_cancel] at hk
      unfold listConnections
      split
      next =>
        refine huse.trans ?_
        dsimp only
        split
        next => exact (ih hks _).trans (.refl _)
        next => exact ih hks _
      next => exact .refl _

theorem mem_indicesFrom {first k : Int} :
    k ∈ s.indicesFrom first ↔ first ≤ k ∧ k < s.connections.length := by
  unfold indicesFrom
  rw [List.mem_map]
  constructor
  · rintro ⟨n, hn, rfl⟩
    have := List.mem_range.mp hn
    omega
  · intro hk
    exact ⟨(k - first).toNat, List.mem_range.mpr (by omega), by omega⟩

theorem getConnListOld_keeps (rdata : List UInt8) : Keeps sender s (s.getConnListOld f rdata) := by
  unfold getConnListOld
  split
  next => exact .refl _
  next => exact (listConnections_isolated (fun k hk => mem_indicesFrom.mp hk) 0).trans (.refl _)

theorem getCryptKey_keeps (hs : sender < s.connections.length) :
    Keeps sender s (s.getCryptKey env sender) :=
  (Isolated.use hs).trans (.own _)

theorem consoleBroadcastTo_isolated (hs : sender < s.connections.length) (text : CText 60)
    (acc : NwbindTable β × UInt8) (hacc : acc.1.connections.length = s.connections.length)
    (conn : UInt8) :
    Isolated sender acc.1.connections (consoleBroadcastTo sender text acc conn).trace
      (consoleBroadcastTo sender text acc conn).value.1.connections := by
  obtain ⟨s', connectStatus⟩ := acc
  unfold consoleBroadcastTo
  dsimp only
  split
  next => exact (Isolated.use (hacc ▸ hs)).trans (.message _ _)
  next =>
    split
    next hk =>
      refine (Isolated.use hk.2).trans ?_
      split
      next => exact (Isolated.quiet (by simp) (by simp)).trans (.message _ _)
      next => exact .refl _
    next => exact .refl _

theorem consoleBroadcast_keeps (hs : sender < s.connections.length) (rdata : List UInt8) :
    Keeps sender s (s.consoleBroadcast sender rdata) := by
  unfold consoleBroadcast
  dsimp only
  split
  next =>
    have hgoesOn : Traced.GoesOn fun (acc : NwbindTable β × UInt8) trace
        (acc' : NwbindTable β × UInt8) => acc.1.connections.length = s.connections.length →
          Isolated sender acc.1.connections trace acc'.1.connections :=
      ⟨fun _ _ => .refl _, fun h h' hlength => (h hlength).trans (h' ((h hlength).length.trans hlength))⟩
    exact Keeps.bind (hgoesOn.foldlM (fun acc conn hacc =>
      consoleBroadcastTo_isolated hs _ acc hacc conn) (s, 0) _ rfl) (.refl _)
  next => exact (Isolated.use hs).trans (.message _ _)

theorem downFileServer_keeps (hs : sender < s.connections.length) :
    Keeps sender s (s.downFileServer f sender) := by
  unfold downFileServer
  refine Keeps.bind (Isolated.use hs) ?_
  split
  next => exact (Isolated.quiet (by simp) (by simp)).trans (.refl _)
  next => exact .refl _

theorem otherFunc_keeps (hs : sender < s.connections.length) (func ufunc : UInt8)
    (rdata : List UInt8) : Keeps sender s (s.otherFunc f sender func ufunc rdata) :=
  (Isolated.use hs).trans (.refl _)

/-- 'Clear Connection Number' asks for no rights. -/
theorem clearConnNumber_keeps_iff (rdata : List UInt8) :
    Keeps sender s (s.clearConnNumber rdata) ↔
      (dataByte rdata 0 - 1).toNat < s.connections.length ∧
        ((s.record (dataByte rdata 0 - 1).toNat).active = true →
          (s.record (dataByte rdata 0 - 1).toNat).pidNwconn > -1 →
            (dataByte rdata 0 - 1).toNat = sender) := by
  unfold clearConnNumber
  generalize (dataByte rdata 0 - 1).toNat = k
  dsimp only
  constructor
  · intro h
    have hk := (h.indices k (List.mem_append_left _ (List.mem_singleton_self _))).2
    refine ⟨Int.ofNat_lt.mp hk, fun hactive hpid => ?_⟩
    unfold Keeps at h
    rw [if_pos hactive, if_pos hpid] at h
    exact Int.ofNat_inj.mp (h.signals k (s.record k).pidNwconn (by simp))
  · intro ⟨hk, hown⟩
    refine Keeps.bind (Isolated.use hk) ?_
    split
    next hactive =>
      refine (Isolated.quiet (by simp) (by simp)).trans ?_
      split
      next hpid =>
        rw [hown hactive hpid]
        exact Isolated.signal.trans (.message _ _)
      next => exact .message _ _
    next => exact .refl _

/-- 'Get Connection Info' looks at what lies before the table for a negative number. -/
theorem getConnInfo_keeps_iff (old : Bool) (rdata : List UInt8) :
    Keeps sender s (s.getConnInfo f sender old rdata) ↔ 0 ≤ s.connNumber sender old rdata := by
  unfold getConnInfo
  generalize s.connNumber sender old rdata = conn
  dsimp only
  constructor
  · intro h
    by_contra hneg
    rw [if_pos (by omega)] at h
    have hindex := (h.indices (conn - 1) (List.mem_append_left _ (List.mem_singleton_self _))).1
    omega
  · intro hpos
    split
    next hconn =>
      refine Keeps.bind (record_index (by omega) hconn.2) ?_
      split
      next => exact .refl _
      next => exact .refl _
    next => exact .refl _

theorem connNumber_old (rdata : List UInt8) : 0 ≤ s.connNumber sender true rdata := by
  unfold connNumber
  rw [if_pos rfl]
  split
  next => exact Int.natCast_nonneg _
  next => omega

theorem connNumber_new (rdata : List UInt8) :
    s.connNumber sender false rdata = (le32At rdata 0).toInt32.toInt := by
  unfold connNumber
  rw [if_neg Bool.false_ne_true]

/-- The loop of 'Get Object Connection List' starts in the table, but for the least number. -/
theorem firstOf_nonneg_iff (searchnr : Int32) : 0 ≤ firstOf searchnr ↔ searchnr ≠ Int32.minValue := by
  have hlo := Int32.le_toInt searchnr
  have hhi := Int32.toInt_lt searchnr
  have hmin : Int32.minValue.toInt = -2147483648 := by decide
  have hone : (1 : Int32).toInt = 1 := by decide
  have hneg : (-1 : Int32).toInt = -1 := by decide
  rw [Ne, ← Int32.toInt_inj, hmin]
  unfold firstOf
  split
  next hlt =>
    have hless := Int32.lt_iff_toInt_lt.mp hlt
    rw [Int32.toInt_sub, hone, hneg, Int.bmod_def] at hless
    rw [Int32.toInt_add, hone, hneg, Int.bmod_def]
    omega
  next hle =>
    have hless := mt Int32.lt_iff_toInt_lt.mpr hle
    rw [Int32.toInt_sub, hone, hneg, Int.bmod_def] at hless
    rw [Int32.toInt_add, Int32.toInt_sub, hone, Int.bmod_def, Int.bmod_def]
    omega

theorem getConnList_keeps_iff (rdata : List UInt8) :
    Keeps sender s (s.getConnList f rdata) ↔
      ∀ objId, f.findObjId s.state (be16At rdata 4) (upstr (textAt 47 rdata 6)) = .ok objId →
        (be32At rdata 0).toInt32 ≠ Int32.minValue := by
  unfold getConnList
  split
  next hnone =>
    rw [hnone]
    exact ⟨fun _ => nofun, fun _ => .refl _⟩
  next objId hobj =>
    rw [hobj]
    constructor
    · intro h _ _
      apply (firstOf_nonneg_iff _).mp
      by_contra hneg
      generalize firstOf (be32At rdata 0).toInt32 = first at h hneg
      obtain ⟨n, hn⟩ : ∃ n, (s.connections.length - first).toNat = n + 1 :=
        Nat.exists_eq_succ_of_ne_zero (by omega)
      have hfirst : s.indicesFrom first =
          first :: ((List.range n).map Nat.succ).map fun k : Nat => first + k := by
        unfold indicesFrom
        rw [hn, List.range_succ_eq_map, List.map_cons]
        exact congrArg (· :: _) (Int.add_zero first)
      dsimp only at h
      rw [hfirst, listConnections] at h
      exact hneg (h.indices first (List.mem_append_left _ (List.mem_append_left _
        (List.mem_singleton_self _)))).1
    · intro hmin
      have hfirst := (firstOf_nonneg_iff _).mpr (hmin objId rfl)
      refine Keeps.bind (listConnections_isolated (fun k hk => ?_) 0) (.refl _)
      have hk' := mem_indicesFrom.mp hk
      omega

theorem logout_keeps (hs : sender < s.connections.length) : Keeps sender s (s.logout f sender) := by
  refine Keeps.bind (Isolated.use hs) ?_
  exact (Isolated.quiet (by simp) (by simp)).trans (.own _)

theorem handleSemaphores_keeps (hs : sender < s.connections.length) (ufunc : UInt8)
    (rdata : List UInt8) : Keeps sender s (s.handleSemaphores f sender ufunc rdata) :=
  (Isolated.use hs).trans (.own _)

/-- A request does no harm: 'Clear Connection Number' is for the connection itself, or one
that is not active or has no process; 'Get Connection Info' is for no negative number; and
'Get Object Connection List', of an object that there is, does not start at the least. -/
def Harmless (f : NwbindFuncs β) (s : NwbindTable β) (sender : Nat) (func : UInt8)
    (requestdata : List UInt8) : Prop :=
  func = 0x17 →
    let ufunc := dataByte requestdata 2
    let rdata := requestdata.drop 3
    (ufunc = 0xd2 → (dataByte rdata 0 - 1).toNat < s.connections.length ∧
      ((s.record (dataByte rdata 0 - 1).toNat).active = true →
        (s.record (dataByte rdata 0 - 1).toNat).pidNwconn > -1 →
          (dataByte rdata 0 - 1).toNat = sender)) ∧
    (ufunc = 0x1c → 0 ≤ (le32At rdata 0).toInt32.toInt) ∧
    (ufunc = 0x1b → ∀ objId,
      f.findObjId s.state (be16At rdata 4) (upstr (textAt 47 rdata 6)) = .ok objId →
        (be32At rdata 0).toInt32 ≠ Int32.minValue)

theorem handleFxx17_keeps_iff (hs : sender < s.connections.length) (ufunc : UInt8)
    (rdata : List UInt8) :
    Keeps sender s (s.handleFxx17 f env sender ufunc rdata) ↔
      (ufunc = 0xd2 → (dataByte rdata 0 - 1).toNat < s.connections.length ∧
        ((s.record (dataByte rdata 0 - 1).toNat).active = true →
          (s.record (dataByte rdata 0 - 1).toNat).pidNwconn > -1 →
            (dataByte rdata 0 - 1).toNat = sender)) ∧
      (ufunc = 0x1c → 0 ≤ (le32At rdata 0).toInt32.toInt) ∧
      (ufunc = 0x1b → ∀ objId,
        f.findObjId s.state (be16At rdata 4) (upstr (textAt 47 rdata 6)) = .ok objId →
          (be32At rdata 0).toInt32 ≠ Int32.minValue) := by
  by_cases hclear : ufunc = 0xd2
  · subst hclear
    have hcase : s.handleFxx17 f env sender 0xd2 rdata = s.clearConnNumber rdata := by
      simp [handleFxx17]
    rw [hcase]
    refine (clearConnNumber_keeps_iff rdata).trans ?_
    exact ⟨fun h => ⟨fun _ => h, by simp, by simp⟩, fun h => h.1 rfl⟩
  by_cases hinfo : ufunc = 0x1c
  · subst hinfo
    have hcase : s.handleFxx17 f env sender 0x1c rdata = s.getConnInfo f sender false rdata := by
      simp [handleFxx17]
    rw [hcase, getConnInfo_keeps_iff, connNumber_new]
    exact ⟨fun h => ⟨by simp, fun _ => h, by simp⟩, fun h => h.2.1 rfl⟩
  by_cases hlist : ufunc = 0x1b
  · subst hlist
    have hcase : s.handleFxx17 f env sender 0x1b rdata = s.getConnList f rdata := by
      simp [handleFxx17]
    rw [hcase]
    refine (getConnList_keeps_iff rdata).trans ?_
    exact ⟨fun h => ⟨by simp, by simp, fun _ => h⟩, fun h => h.2.2 rfl⟩
  refine iff_of_true ?_ ⟨fun h => absurd h hclear, fun h => absurd h hinfo, fun h => absurd h hlist⟩
  unfold handleFxx17
  rw [if_neg hclear, if_neg hinfo, if_neg hlist]
  split
  next => exact getServerInfo_keeps
  split
  next => exact getInternetAddress_keeps true rdata
  split
  next => exact getInternetAddress_keeps false rdata
  split
  next => exact login_keeps hs rdata
  split
  next => exact getConnListOld_keeps rdata
  split
  next => exact (getConnInfo_keeps_iff true rdata).mpr (connNumber_old rdata)
  split
  next => exact getCryptKey_keeps hs
  split
  next => exact cryptLogin_keeps hs rdata
  split
  next => exact consoleBroadcast_keeps hs rdata
  split
  next => exact downFileServer_keeps hs
  next => exact otherFunc_keeps hs _ _ _

theorem dispatch_keeps_iff (hs : sender < s.connections.length) (func : UInt8)
    (requestdata : List UInt8) :
    Keeps sender s (s.dispatch f env sender func requestdata) ↔
      Harmless f s sender func requestdata := by
  by_cases hfunc : func = 0x17
  · subst hfunc
    refine (handleFxx17_keeps_iff hs _ _).trans ?_
    exact ⟨fun h _ => h, fun h => h rfl⟩
  · refine iff_of_true ?_ fun h => absurd h hfunc
    unfold dispatch
    dsimp only
    rw [if_neg hfunc]
    split
    next => exact handleFxx15_keeps hs _ _
    split
    next => exact otherFunc_keeps hs _ _ _
    split
    next => exact otherFunc_keeps hs _ _ _
    split
    next => exact logout_keeps hs
    split
    next => exact handleSemaphores_keeps hs _ _
    next => exact .refl _

/-- What `handle_fxx` does to the table is what the function does. -/
theorem handleFxx_keeps_iff (hs : sender < s.connections.length) (func : UInt8)
    (requestdata : List UInt8) :
    Keeps sender s (s.handleFxx f env sender func requestdata) ↔
      Harmless f s sender func requestdata := by
  rw [← @dispatch_keeps_iff β f env s sender hs func requestdata]
  constructor
  · intro h
    exact h.of_subset (List.subset_append_left _ _)
  · intro h
    exact Keeps.bind h ((Isolated.use (h.length.symm ▸ hs)).trans (.refl _))

end NwbindTable

open NwbindTable

/-- For every state and every request: what nwbind does for a connection leaves the records
of the others but for messages, signals no other process and looks at no record that is
none, just when the request does no harm. -/
theorem connections_isolated {β : Type} (f : NwbindFuncs β) (env : FxxEnv) (s : NwbindTable β)
    (fromNwconn : Bool) (packet : List UInt8) :
    (∀ sender, s.senderOf packet = some sender →
        Isolated sender s.connections (s.handleRequest f env fromNwconn packet).trace
          (s.handleRequest f env fromNwconn packet).value.2.connections) ↔
      ∀ sender, s.senderOf packet = some sender → (s.record sender).active = true →
        fromNwconn = true → NcpBuf.function packet ≠ 0 →
          Harmless f s sender (NcpBuf.function packet) (packet.drop NcpBuf.requestSize) := by
  refine forall_congr' fun sender => forall_congr' fun hsender => ?_
  have hs : sender < s.connections.length := by
    unfold senderOf at hsender
    dsimp only at hsender
    split at hsender
    next hrange =>
      have := Option.some.inj hsender
      omega
    next => contradiction
  unfold NwbindTable.handleRequest
  rw [hsender]
  dsimp only
  by_cases hactive : (s.record sender).active = true ∧ fromNwconn = true
  · rw [if_pos hactive]
    by_cases hwdog : NcpBuf.function packet = 0
    · rw [if_pos hwdog]
      refine iff_of_true ?_ fun _ _ hne => absurd hwdog hne
      exact (Isolated.use hs).trans ((Isolated.quiet (by simp) (by simp)).trans (.refl _))
    · rw [if_neg hwdog]
      have hfxx := @handleFxx_keeps_iff β f env s sender hs (NcpBuf.function packet)
        (packet.drop NcpBuf.requestSize)
      constructor
      · intro h _ _ _
        refine hfxx.mp (h.of_subset ?_)
        exact List.Subset.trans (List.subset_append_left _ _) (List.subset_append_right _ _)
      · intro h
        exact Keeps.bind (Isolated.use hs)
          (Keeps.bind (hfxx.mpr (h hactive.1 hactive.2 hwdog)) (.refl _))
  · rw [if_neg hactive]
    refine iff_of_true ((Isolated.use hs).trans (.refl _)) fun hone htwo => ?_
    exact absurd ⟨hone, htwo⟩ hactive

/-- A table of two connections, of which the first one sends and is no supervisor. -/
def twoConnections : NwbindTable Unit where
  connections := [
    ⟨⟨.zero 4, .zero 6, .zero 2⟩, 0x10001, 0, .zero 8, 0, CText.copy 59 [], true, 101, []⟩,
    ⟨⟨.zero 4, .zero 6, .zero 2⟩, 0x20001, 0, .zero 8, 0, CText.copy 59 [], true, 102, []⟩]
  beyond _ := ⟨⟨.zero 4, .zero 6, .zero 2⟩, 0, 0, .zero 8, 0, CText.copy 59 [], false, 0, []⟩
  state := ()

def noFuncs : NwbindFuncs Unit where
  findObjId _ _ _ := .ok 0x10001
  testLogin _ _ _ := -0xff
  testCryptLogin _ _ _ _ := -0xff
  testAdrTimeAccess _ _ _ := .inl (0, ())
  haveSuRights _ _ := false
  loginData _ _ _ := []
  serverInfo _ _ _ := []
  connectionInfo _ _ _ := []
  semaphores _ semas _ _ := (.error (-0xfb), semas, ())
  closeJobs _ _ := ()
  other _ _ _ _ _ _ := (.error 0xfb, ())

/-- Whoever asks for 'Clear Connection Number' ends the process of another connection, or
looks behind the table; and 'Get Connection Info' looks before it. -/
theorem not_connections_isolated :
    (twoConnections.record 0).idFlags &&& 1 = 0 ∧
      ∀ packet ∈ ([[0x22, 0x22, 1, 1, 1, 0, 0x17, 0, 2, 0xd2, 2], [0x22, 0x22, 1, 1, 1, 0, 0x17, 0, 2, 0xd2, 0],
          [0x22, 0x22, 1, 1, 1, 0, 0x17, 0, 5, 0x1c, 0xff, 0xff, 0xff, 0xff]] : List (List UInt8)),
        twoConnections.senderOf packet = some 0 ∧
          ¬Isolated 0 twoConnections.connections
            (twoConnections.handleRequest noFuncs ⟨0, .zero 8, false⟩ true packet).trace
            (twoConnections.handleRequest noFuncs ⟨0, .zero 8, false⟩ true packet).value.2.connections := by
  refine ⟨rfl, fun packet hpacket => ?_⟩
  simp only [List.mem_cons, List.not_mem_nil, or_false] at hpacket
  rcases hpacket with rfl | rfl | rfl
  · exact ⟨by decide, fun h => absurd (h.signals 1 102 (by decide)) (by decide)⟩
  · exact ⟨by decide, fun h => absurd (h.indices 255 (by decide)).2 (by decide)⟩
  · exact ⟨by decide, fun h => absurd (h.indices (-2) (by decide)).1 (by decide)⟩

end MarsNwe
