import MarsNwe.Ncpserv.Requests

/-! # Clients and children of ncpserv

No two entries serve one client, and an entry is given only when nothing of its last
client is left. `kill_connections` looks for the children that `waitpid` has reaped
in the table and kills them: nothing that is reaped is killed only as long as no
child whose pid is in the table exits.
-/

namespace MarsNwe

variable {limit : ℕ+}

/-! ## Entries -/

/-- The entry keeps its client, or `fd` and then `pid` are reset. -/
def NcpConnection.Kept (c c' : NcpConnection) : Prop :=
  c'.clientAdr = c.clientAdr ∧
    (c'.fd = c.fd ∧ c'.pid = c.pid ∨ c'.fd < 0 ∧ (c'.pid = c.pid ∨ c'.pid < 0))

theorem NcpConnection.Kept.refl (c : NcpConnection) : c.Kept c := ⟨rfl, .inl ⟨rfl, rfl⟩⟩

theorem NcpConnection.Kept.trans {c c' c'' : NcpConnection} (h : c.Kept c') (h' : c'.Kept c'') :
    c.Kept c'' := by
  refine ⟨h'.1.trans h.1, ?_⟩
  have hfirst := h.2
  have hsecond := h'.2
  omega

theorem NcpConnection.Unused.kept {c c' : NcpConnection} (hunused : c.Unused) (h : c.Kept c') :
    c'.Unused := by
  obtain ⟨hfd, hpid⟩ := hunused
  have hkept := h.2
  exact ⟨by omega, by omega⟩

namespace ConnTable

/-- What holds of the entries. -/
structure Sound (t : ConnTable limit) : Prop where
  distinct {i j : Nat} {c d : NcpConnection} : t.connections[i]? = some c →
    t.connections[j]? = some d → 0 ≤ c.fd → 0 ≤ d.fd → c.clientAdr = d.clientAdr → i = j
  counted {i : Nat} {c : NcpConnection} : t.connections[i]? = some c → 0 ≤ c.fd ∨ 0 ≤ c.pid →
    i < t.countConnections

/-- An entry in use is that of the client it had, or it had none and no child. -/
def Given (t t' : ConnTable limit) : Prop :=
  ∀ (i : Nat) (c' : NcpConnection), t'.connections[i]? = some c' → 0 ≤ c'.fd →
    (∃ c : NcpConnection, t.connections[i]? = some c ∧ c.Kept c') ∨
      ∀ c : NcpConnection, t.connections[i]? = some c → c.fd < 0 ∧ c.pid < 0

/-- No entry is given; the count does not shrink. -/
structure Released (t t' : ConnTable limit) : Prop where
  entry {i : Nat} {c' : NcpConnection} : t'.connections[i]? = some c' →
    c'.Unused ∨ ∃ c : NcpConnection, t.connections[i]? = some c ∧ c.Kept c'
  count : t.countConnections ≤ t'.countConnections

variable {t t' t'' : ConnTable limit} {c c' : NcpConnection} {i j : Nat}

theorem getElem?_set (h : (t.set i c).connections[j]? = some c') :
    j = i ∧ c' = c ∨ t.connections[j]? = some c' := by
  by_cases heq : i = j
  · subst heq
    have hlt : i < (t.connections.set i c).length := (List.getElem?_eq_some_iff.mp h).1
    rw [List.length_set] at hlt
    exact .inl ⟨rfl, Option.some.inj (h.symm.trans (List.getElem?_set_self hlt))⟩
  · exact .inr ((List.getElem?_set_ne heq).symm.trans h)

theorem Released.refl (t : ConnTable limit) : Released t t :=
  ⟨fun h => .inr ⟨_, h, .refl _⟩, Nat.le_refl _⟩

theorem Released.trans (h : Released t t') (h' : Released t' t'') : Released t t'' := by
  refine ⟨fun hc'' => ?_, h.count.trans h'.count⟩
  rcases h'.entry hc'' with hunused | ⟨c', hc', hkept'⟩
  · exact .inl hunused
  · rcases h.entry hc' with hunused | ⟨c, hc, hkept⟩
    · exact .inl (hunused.kept hkept')
    · exact .inr ⟨c, hc, hkept.trans hkept'⟩

theorem Released.set (hc : t.connections[i]? = some c) (h : c'.Unused ∨ c.Kept c') :
    Released t (t.set i c') := by
  refine ⟨fun hd => ?_, Nat.le_refl _⟩
  rcases getElem?_set hd with ⟨rfl, rfl⟩ | hd
  · exact h.imp_right fun h => ⟨c, hc, h⟩
  · exact .inr ⟨_, hd, .refl _⟩

/-- An entry that is still in use was so before. -/
theorem Released.used (h : Released t t') (hc' : t'.connections[i]? = some c')
    (hused : 0 ≤ c'.fd ∨ 0 ≤ c'.pid) :
    ∃ c : NcpConnection, t.connections[i]? = some c ∧ c.Kept c' := by
  refine (h.entry hc').resolve_left fun hunused => ?_
  obtain ⟨hfd, hpid⟩ := hunused
  omega

theorem Released.given (h : Released t t') : Given t t' :=
  fun _ _ hc' hfd => .inl (h.used hc' (.inl hfd))

theorem Given.released (h : Given t t') (h' : Released t' t'') : Given t t'' := by
  intro i c'' hc'' hfd
  obtain ⟨c', hc', hkept⟩ := h'.used hc'' (.inl hfd)
  have hfd' : 0 ≤ c'.fd := by
    have hfds := hkept.2
    omega
  refine (h i c' hc' hfd').imp_left ?_
  rintro ⟨c, hc, hkept'⟩
  exact ⟨c, hc, hkept'.trans hkept⟩

theorem Sound.released (hs : t.Sound) (h : Released t t') : t'.Sound := by
  refine ⟨fun hc' hd' hcfd hdfd hadr => ?_, fun hc' hused => ?_⟩
  · obtain ⟨c, hc, hkeptc⟩ := h.used hc' (.inl hcfd)
    obtain ⟨d, hd, hkeptd⟩ := h.used hd' (.inl hdfd)
    have hfdc := hkeptc.2
    have hfdd := hkeptd.2
    exact hs.distinct hc hd (by omega) (by omega) (hkeptc.1.symm.trans (hadr.trans hkeptd.1))
  · obtain ⟨c, hc, hkept⟩ := h.used hc' hused
    have hfd := hkept.2
    exact (hs.counted hc (by omega)).trans_le h.count

theorem Sound.empty : (ConnTable.empty : ConnTable limit).Sound :=
  ⟨fun hc => (nomatch hc), fun hc => (nomatch hc)⟩

theorem trimmed_unused {connections : List NcpConnection} {n : Nat}
    (hlt : i < n) (hle : trimmed connections n ≤ i) (hc : connections[i]? = some c) : c.Unused := by
  induction n with
  | zero => contradiction
  | succ n ih =>
      unfold trimmed at hle
      split at hle
      next d hd =>
        split at hle
        next hunused =>
          rcases Nat.lt_succ_iff_lt_or_eq.mp hlt with hlt | rfl
          · exact ih hlt hle
          · exact Option.some.inj (hd.symm.trans hc) ▸ hunused
        next => omega
      next hnone => omega

theorem Sound.trim (hs : t.Sound) : t.trim.Sound := by
  refine ⟨hs.distinct, fun {i} {c} hc hused => ?_⟩
  by_contra hge
  obtain ⟨hfd, hpid⟩ := trimmed_unused (hs.counted hc hused) (Nat.le_of_not_lt hge) hc
  omega

/-- A new client gets an entry; no other one serves it. -/
theorem Sound.give (hs : t.Sound) (hi : i < t.countConnections)
    (hnew : ∀ (j : Nat) (d : NcpConnection), t.connections[j]? = some d → 0 ≤ d.fd →
      d.clientAdr ≠ c.clientAdr) :
    (t.set i c).Sound := by
  refine ⟨fun hc' hd' hcfd hdfd hadr => ?_, fun hc' hused => ?_⟩
  · rcases getElem?_set hc' with ⟨rfl, rfl⟩ | hc
    · rcases getElem?_set hd' with ⟨rfl, rfl⟩ | hd
      · rfl
      · exact absurd hadr.symm (hnew _ _ hd hdfd)
    · rcases getElem?_set hd' with ⟨rfl, rfl⟩ | hd
      · exact absurd hadr (hnew _ _ hc hcfd)
      · exact hs.distinct hc hd hcfd hdfd hadr
  · rcases getElem?_set hc' with ⟨rfl, rfl⟩ | hc
    · exact hi
    · exact hs.counted hc hused

/-- An entry that was free may be written. -/
theorem Given.set (h : Given t t')
    (hfree : ∀ c : NcpConnection, t.connections[i]? = some c → c.Unused) :
    Given t (t'.set i c') := by
  intro j d hd hfd
  rcases getElem?_set hd with ⟨rfl, rfl⟩ | hd
  · exact .inr hfree
  · exact h j d hd hfd

end ConnTable

/-! ## Children -/

/-- What an effect does with a child. -/
def NcpEffect.act : NcpEffect → Option (Held.Act Int)
  | fork pid => some (.get pid)
  | kill pid _ => some (.use pid)
  | waitpid pid => some (.drop pid)
  | _ => none

/-- What the effects do with children. -/
def childActs (effects : List NcpEffect) : List (Held.Act Int) := effects.filterMap NcpEffect.act

theorem childActs_append (effects effects' : List NcpEffect) :
    childActs (effects ++ effects') = childActs effects ++ childActs effects' :=
  List.filterMap_append ..

namespace ConnTable

variable {t t' t'' : ConnTable limit} {c c' : NcpConnection} {i : Nat} {children : Set Int}

/-- The children in the table are not yet reaped. -/
def Served (t : ConnTable limit) (children : Set Int) : Prop :=
  ∀ c ∈ t.connections, 0 ≤ c.pid → c.pid ∈ children

/-- No reaped child is killed, and none is in the table afterwards. -/
def ChildrenOk (children : Set Int) (effects : List NcpEffect) (t' : ConnTable limit) : Prop :=
  Held.Proper children (childActs effects) ∧
    t'.Served (Held.after children (childActs effects))

/-- Entries are released, and children are killed that are in the table. -/
structure Kills (t : ConnTable limit) (effects : List NcpEffect) (t' : ConnTable limit) : Prop where
  released : Released t t'
  effect : ∀ e ∈ effects, e.act = none ∨
    ∃ c ∈ t.connections, 0 ≤ c.pid ∧ e.act = some (.use c.pid)

theorem Kills.refl (t : ConnTable limit) : Kills t [] t := ⟨.refl t, fun _ he => (nomatch he)⟩

theorem Kills.trans {effects effects' : List NcpEffect} (h : Kills t effects t')
    (h' : Kills t' effects' t'') : Kills t (effects ++ effects') t'' := by
  refine ⟨h.released.trans h'.released, fun e he => ?_⟩
  rcases List.mem_append.mp he with he | he
  · exact h.effect e he
  · refine (h'.effect e he).imp_right ?_
    rintro ⟨c', hc', hpid, hact⟩
    obtain ⟨i, hi⟩ := List.mem_iff_getElem?.mp hc'
    obtain ⟨c, hc, hkept⟩ := h.released.used hi (.inr hpid)
    have hsame : c'.pid = c.pid := by
      have hpids := hkept.2
      omega
    exact ⟨c, List.mem_of_getElem? hc, hsame ▸ hpid, hsame ▸ hact⟩

theorem Kills.goesOn : Traced.GoesOn (@Kills limit) := ⟨.refl, .trans⟩

theorem Served.released (hserved : t.Served children) (h : Released t t') :
    t'.Served children := by
  intro c' hc' hpid
  obtain ⟨i, hi⟩ := List.mem_iff_getElem?.mp hc'
  obtain ⟨c, hc, hkept⟩ := h.used hi (.inr hpid)
  have hsame : c'.pid = c.pid := by
    have hpids := hkept.2
    omega
  rw [hsame] at hpid ⊢
  exact hserved c (List.mem_of_getElem? hc) hpid

theorem Kills.proper {effects : List NcpEffect} (h : Kills t effects t')
    (hserved : t.Served children) : Held.after children (childActs effects) = children ∧
      Held.Proper children (childActs effects) := by
  refine Held.after_uses fun act hact => ?_
  obtain ⟨e, he, hact⟩ := List.mem_filterMap.mp hact
  rcases h.effect e he with hnone | ⟨c, hc, hpid, huse⟩
  · exact nomatch hnone.symm.trans hact
  · exact ⟨c.pid, hserved c hc hpid, Option.some.inj (hact.symm.trans huse)⟩

/-- Effects that have nothing to do with children. -/
theorem Kills.quiet {effects : List NcpEffect} (h : Released t t')
    (heffects : ∀ e ∈ effects, e.act = none) : Kills t effects t' :=
  ⟨h, fun e he => .inl (heffects e he)⟩

theorem Kills.childrenOk {effects : List NcpEffect} (h : Kills t effects t')
    (hserved : t.Served children) : ChildrenOk children effects t' := by
  obtain ⟨hafter, hproper⟩ := h.proper hserved
  exact ⟨hproper, (congrArg t'.Served hafter).mpr (hserved.released h.released)⟩

theorem clearConnection_kills (t : ConnTable limit) (conn : Int) :
    Kills t (t.clearConnection conn).trace (t.clearConnection conn).value := by
  unfold clearConnection
  rw [Traced.value_bind, Traced.trace_bind]
  have hclose : Kills t (Traced.emit (NcpEffect.nwservCloseConn conn)).trace t :=
    .quiet (.refl t) fun e he => List.mem_singleton.mp he ▸ rfl
  refine hclose.trans ?_
  split
  next => exact .refl t
  next c hc =>
    split
    next hused =>
      have hreset : Released t (t.set (conn - 1).toNat { c with fd := -1 }) :=
        .set hc (.inr ⟨rfl, .inr ⟨(by decide : (-1 : Int) < 0), .inl rfl⟩⟩)
      by_cases hpid : c.pid > -1
      · refine ⟨?_, fun e he => ?_⟩
        · simpa [hpid] using hreset
        · simp [hpid] at he
          rcases he with rfl | rfl
          · exact .inl rfl
          · exact .inr ⟨c, List.mem_of_getElem? hc, by omega, rfl⟩
      · refine ⟨?_, fun e he => .inl ?_⟩
        · simpa [hpid] using hreset
        · simp [hpid] at he
          exact he ▸ rfl
    next => exact .refl t

theorem killCleared_kills (t : ConnTable limit) (conn : Nat) :
    Kills t (t.killCleared conn).trace (t.killCleared conn).value := by
  unfold killCleared
  split
  next c hc =>
    split
    next hcleared =>
      refine ⟨.set hc (.inl ⟨hcleared.1, (by decide : (-1 : Int) < 0)⟩), fun e he => .inr ?_⟩
      obtain rfl := List.mem_singleton.mp he
      exact ⟨c, List.mem_of_getElem? hc, by omega, rfl⟩
    next => exact .refl t
  next => exact .refl t

theorem clearReaped_kills (t : ConnTable limit) (pid : Int) (conn : Nat) :
    Kills t (t.clearReaped pid conn).trace (t.clearReaped pid conn).value := by
  unfold clearReaped
  split
  next =>
    split
    next => exact t.clearConnection_kills _
    next => exact .refl t
  next => exact .refl t

theorem reap_released (t : ConnTable limit) (pid : Int) : Released t (t.reap pid).value :=
  (Kills.goesOn.foldlM (fun t conn => t.clearReaped_kills pid conn) t t.downwards).released

/-- A child that is not in the table is reaped and nothing else is done. -/
theorem reap_spared {pid : Int} (h : ∀ c ∈ t.connections, c.pid ≠ pid) :
    t.reap pid = ⟨t, [.waitpid pid]⟩ := by
  have hstill : t.downwards.foldlM (clearReaped pid) t =
      ⟨t, t.downwards.flatMap fun _ => []⟩ := by
    refine Traced.foldlM_still fun conn _ => ?_
    unfold clearReaped
    split
    next c hc => exact if_neg (h c (List.mem_of_getElem? hc))
    next => rfl
  have hnone : (t.downwards.flatMap fun _ => ([] : List NcpEffect)) = [] :=
    List.flatMap_eq_nil_iff.mpr fun _ _ => rfl
  unfold reap
  rw [hstill, hnone]
  rfl

theorem reaped_released (t : ConnTable limit) (reaped : List Int) :
    Released t (reaped.foldlM reap t).value := by
  have hgoes : Traced.GoesOn fun (t : ConnTable limit) (_ : List NcpEffect) t' => Released t t' :=
    ⟨.refl, .trans⟩
  exact hgoes.foldlM reap_released t reaped

theorem cleared_kills (t : ConnTable limit) :
    Kills t (t.downwards.foldlM killCleared t).trace (t.downwards.foldlM killCleared t).value :=
  Kills.goesOn.foldlM killCleared_kills t t.downwards

theorem killConnections_released (t : ConnTable limit) (reaped : List Int) :
    ∃ t', Released t t' ∧ (t.killConnections reaped).value = t'.trim :=
  ⟨_, (t.reaped_released reaped).trans (cleared_kills _).released, rfl⟩

/-- Of the children in the table none is killed that has been reaped. -/
theorem killConnections_proper {reaped : List Int} (hserved : t.Served children)
    (hspared : ∀ pid ∈ reaped, ∀ c ∈ t.connections, c.pid ≠ pid) :
    ChildrenOk children (t.killConnections reaped).trace (t.killConnections reaped).value := by
  have hreaped : reaped.foldlM reap t = ⟨t, reaped.flatMap fun pid => [.waitpid pid]⟩ :=
    Traced.foldlM_still fun pid hpid => reap_spared (hspared pid hpid)
  have hleft : t.Served (children \ {pid | pid ∈ reaped}) :=
    fun c hc hpid => ⟨hserved c hc hpid, fun hmem => hspared c.pid hmem c hc rfl⟩
  obtain ⟨hafter, hproper⟩ := (cleared_kills t).proper hleft
  have hdrops : childActs (reaped.flatMap fun pid => [NcpEffect.waitpid pid]) =
      reaped.map Held.Act.drop := by
    unfold childActs
    rw [List.filterMap_flatMap]
    exact List.map_eq_flatMap.symm
  have heffects : t.killConnections reaped =
      ⟨(t.downwards.foldlM killCleared t).value.trim,
        reaped.flatMap (fun pid => [NcpEffect.waitpid pid]) ++
          ((t.downwards.foldlM killCleared t).trace ++ [])⟩ := by
    unfold killConnections
    rw [hreaped]
    rfl
  obtain ⟨hafter', hproper'⟩ := Held.after_drops children reaped
  unfold ChildrenOk
  rw [heffects, List.append_nil, childActs_append, hdrops, Held.proper_append, Held.after_append,
    hafter', hafter]
  have hcleared := hleft.released (cleared_kills t).released
  exact ⟨⟨hproper', hproper⟩, hcleared⟩

/-! ## New connections -/

theorem initAll_released (hzero : t.countConnections = 0) :
    Released t t.initAll ∧ ∀ c ∈ t.initAll.connections, c.Unused := by
  have hunused : ∀ c ∈ t.initAll.connections, c.Unused := by
    intro c hc
    unfold initAll at hc
    dsimp only at hc
    split at hc
    next => exact List.eq_of_mem_replicate hc ▸ (by decide : freshEntry.Unused)
    next =>
      obtain ⟨d, -, rfl⟩ := List.mem_map.mp hc
      exact ⟨(by decide : (-1 : Int) < 0), (by decide : (-1 : Int) < 0)⟩
  refine ⟨⟨fun hc => .inl (hunused _ (List.mem_of_getElem? hc)), ?_⟩, hunused⟩
  rw [hzero]
  exact Nat.zero_le _

/-- `new_conn_nr` finds an entry that is not in use, and was not. -/
theorem newConnNr_spec (hs : t.Sound) :
    (∀ e ∈ t.newConnNr.trace, e.act = none) ∧ Released t t.newConnNr.value.2 ∧
      ∀ i, t.newConnNr.value.1 = i + 1 → i < t.newConnNr.value.2.countConnections ∧
        (∀ c, t.connections[i]? = some c → c.Unused) ∧
        ∀ c, t.newConnNr.value.2.connections[i]? = some c → c.Unused := by
  unfold newConnNr
  split
  next hzero =>
    obtain ⟨hreleased, hunused⟩ := initAll_released hzero
    refine ⟨fun e he => (nomatch he), hreleased, fun i hi => ?_⟩
    obtain rfl : i = 0 := (Nat.succ.inj hi).symm
    refine ⟨Nat.one_pos, fun c hc => ?_, fun c hc => hunused c (List.mem_of_getElem? hc)⟩
    by_contra hused
    have hlt := hs.counted hc (by unfold NcpConnection.Unused at hused; omega)
    omega
  next =>
    split
    next j hj =>
      refine ⟨fun e he => (nomatch he), ⟨fun hc => .inr ⟨_, hc, .refl _⟩, Nat.le_max_left ..⟩,
        fun i hi => ?_⟩
      obtain rfl : j.val = i := Nat.succ.inj hi
      have hfree : t.connections[j].Unused :=
        of_decide_eq_true (List.findFinIdx?_eq_some_iff.mp hj).1
      have hsame : ∀ c, t.connections[j.val]? = some c → c.Unused := fun c hc =>
        Option.some.inj ((List.getElem?_eq_getElem j.isLt).symm.trans hc) ▸ hfree
      exact ⟨Nat.lt_of_succ_le (Nat.le_max_right ..), hsame, hsame⟩
    next =>
      refine ⟨fun e he => List.mem_singleton.mp he ▸ rfl, .refl t, fun i hi => ?_⟩
      exact nomatch hi

/-- No entry serves the client. -/
theorem findConnNr_eq_zero {addr : IpxAddr} (hs : t.Sound) (h : t.findConnNr addr = 0)
    (hc : t.connections[i]? = some c) (hfd : 0 ≤ c.fd) : c.clientAdr ≠ addr := by
  intro hadr
  have hlt := hs.counted hc (.inl hfd)
  unfold findConnNr at h
  split at h
  next => contradiction
  next hnone =>
    have hmem : c ∈ t.connections.take t.countConnections :=
      List.mem_of_getElem? ((List.getElem?_take_of_lt hlt).trans hc)
    have hfalse := List.findIdx?_eq_none_iff.mp hnone c hmem
    simp [hadr] at hfalse
    omega

/-- What giving a connection makes of a table. -/
structure Opens (t : ConnTable limit) (effects : List NcpEffect) (t' : ConnTable limit) : Prop where
  sound : t'.Sound
  given : Given t t'
  children {children : Set Int} : t.Served children → ChildrenOk children effects t'

theorem Kills.opens {effects : List NcpEffect} (h : Kills t effects t') (hs : t.Sound) :
    Opens t effects t' :=
  ⟨hs.released h.released, h.released.given, h.childrenOk⟩

theorem Opens.kills {effects effects' : List NcpEffect} (h : Opens t effects t')
    (h' : Kills t' effects' t'') : Opens t (effects ++ effects') t'' := by
  refine ⟨h.sound.released h'.released, h.given.released h'.released, fun hserved => ?_⟩
  obtain ⟨hproper, hserved'⟩ := h.children hserved
  obtain ⟨hproper', hserved''⟩ := h'.childrenOk hserved'
  unfold ChildrenOk
  rw [childActs_append, Held.proper_append, Held.after_append]
  exact ⟨⟨hproper, hproper'⟩, hserved''⟩

theorem freeConnNr_released (t : ConnTable limit) (nr : Nat) : Released t (t.freeConnNr nr) := by
  unfold freeConnNr
  split
  next c hc =>
    split
    next => exact .set hc (.inl ⟨(by decide : (-1 : Int) < 0), (by decide : (-1 : Int) < 0)⟩)
    next => exact .refl t
  next => exact .refl t

theorem getConnNr_opens {addr : IpxAddr} (spawned : Spawned) (hs : t.Sound)
    (hnew : t.findConnNr addr = 0) :
    Opens t (t.getConnNr addr spawned).trace (t.getConnNr addr spawned).value.2 := by
  obtain ⟨hquiet, hreleased, hentry⟩ := newConnNr_spec hs
  unfold getConnNr
  rw [Traced.value_bind, Traced.trace_bind]
  generalize t.newConnNr = m at *
  obtain ⟨⟨connection, t₁⟩, effects⟩ := m
  have hopens : Opens t effects t₁ := (Kills.quiet hreleased hquiet).opens hs
  dsimp only at hentry ⊢
  split
  next => exact hopens.kills (.refl t₁)
  next => exact hopens.kills (.refl t₁)
  next _ c hne hc =>
    obtain ⟨i, rfl⟩ := Nat.exists_eq_succ_of_ne_zero hne
    obtain ⟨hi, hfree, hfree₁⟩ := hentry i rfl
    have hunused := hfree₁ c hc
    have hadr : Released t₁ (t₁.set i { c with clientAdr := addr }) := .set hc (.inl hunused)
    have hfreed : Released t₁ ((t₁.set i { c with clientAdr := addr }).freeConnNr (i + 1)) :=
      hadr.trans (freeConnNr_released _ _)
    dsimp only [Nat.succ_eq_add_one, Nat.add_sub_cancel]
    split
    next => exact hopens.kills (.quiet hfreed fun _ he => (nomatch he))
    next fds _ =>
      split
      next =>
        refine hopens.kills (.quiet hfreed fun e he => ?_)
        simp at he
        rcases he with rfl | rfl | rfl <;> rfl
      next pid _ =>
        rw [set_set]
        refine ⟨hopens.sound.give hi fun j d hd hfd => ?_, hopens.given.set hfree,
          fun hserved => ?_⟩
        · obtain ⟨e, he, hkept⟩ := hreleased.used hd (.inl hfd)
          have hfds := hkept.2
          exact hkept.1 ▸ findConnNr_eq_zero hs hnew he (by omega)
        · obtain ⟨hproper, hserved₁⟩ := hopens.children hserved
          unfold ChildrenOk
          rw [childActs_append, Held.proper_append, Held.after_append]
          refine ⟨⟨hproper, trivial⟩, fun d hd hpid => ?_⟩
          rcases List.mem_or_eq_of_mem_set hd with hd | rfl
          · exact Set.mem_insert_of_mem _ (hserved₁ d hd hpid)
          · exact Set.mem_insert ..

theorem findGetConnNr_opens (addr : IpxAddr) (spawned : Spawned) (hs : t.Sound) :
    Opens t (t.findGetConnNr addr spawned).trace (t.findGetConnNr addr spawned).value.2 := by
  have hget : Opens t (t.connNrFor addr spawned).trace (t.connNrFor addr spawned).value.2 := by
    unfold connNrFor
    split
    next hnew => exact getConnNr_opens spawned hs hnew
    next => exact (Kills.refl t).opens hs
  refine hget.kills (.quiet (.refl _) fun e he => ?_)
  rw [Traced.trace_bind, Traced.trace_pure, List.append_nil] at he
  unfold nwservInsertConn at he
  split at he
  next =>
    split at he
    next => exact List.mem_singleton.mp he ▸ rfl
    next => contradiction
  next => contradiction

end ConnTable

/-! ## Packets -/

namespace Ncpserv

open ConnTable

variable (s : Ncpserv limit) (p : IpxPacket) (a : PacketAnswers)

theorem handleCtrl_kills :
    Kills s.table (s.handleCtrl p a).trace (s.handleCtrl p a).value.table := by
  have hreply : Kills s.table (Traced.emit (NcpEffect.sendOwnReply p.request.sequence)).trace
      s.table := .quiet (.refl _) fun e he => List.mem_singleton.mp he ▸ rfl
  unfold handleCtrl
  split
  next =>
    rw [Traced.value_bind, Traced.trace_bind]
    refine hreply.trans ?_
    split
    next =>
      split
      next =>
        have hcleared := s.table.clearConnection_kills p.own.conn
        exact hcleared.trans (.refl _)
      next => exact .refl _
    next =>
      split
      next => exact .refl _
      next => split <;> exact .refl _
  next => exact .refl _

theorem refuseRequest_kills :
    Kills s.table (s.refuseRequest p).trace (s.refuseRequest p).value.table :=
  .quiet (.refl _) fun _ he => List.mem_singleton.mp he ▸ rfl

theorem serveRequest_kills {c : NcpConnection}
    (hc : s.table.connections[p.request.connectionNr - 1]? = some c) :
    Kills s.table (s.serveRequest p a c).trace (s.serveRequest p a c).value.table := by
  have hwdog : Kills s.table (resetWdog p a c).trace s.table := by
    unfold resetWdog
    split
    next => exact .quiet (.refl _) fun e he => List.mem_singleton.mp he ▸ rfl
    next => exact .refl _
  unfold serveRequest
  rw [Traced.value_bind, Traced.trace_bind]
  refine hwdog.trans ?_
  split
  next =>
    exact .quiet (.set hc (.inr ⟨rfl, .inl ⟨rfl, rfl⟩⟩)) fun e he =>
      List.mem_singleton.mp he ▸ rfl
  next =>
    exact .quiet (.set hc (.inr ⟨rfl, .inl ⟨rfl, rfl⟩⟩)) fun e he =>
      List.mem_singleton.mp he ▸ rfl

theorem closeRequest_kills (c : NcpConnection) :
    Kills s.table (s.closeRequest p c).trace (s.closeRequest p c).value.table := by
  unfold closeRequest
  split
  next =>
    rw [Traced.value_bind, Traced.trace_bind]
    have hcleared := s.table.clearConnection_kills p.request.connectionNr
    exact hcleared.trans (.quiet (.refl _) fun e he => List.mem_singleton.mp he ▸ rfl)
  next => exact s.refuseRequest_kills p

theorem handleRequest_kills :
    Kills s.table (s.handleRequest p a).trace (s.handleRequest p a).value.table := by
  unfold handleRequest
  dsimp only
  split
  next => exact s.refuseRequest_kills p
  next c hc =>
    split
    next =>
      split
      next => exact s.serveRequest_kills p a hc
      next => exact s.closeRequest_kills p c
    next => exact s.refuseRequest_kills p

theorem handleNwbind_kills :
    Kills s.table (s.handleNwbind p).trace (s.handleNwbind p).value.table := by
  unfold handleNwbind
  dsimp only
  split
  next =>
    split
    next => exact .quiet (.refl _) fun e he => List.mem_singleton.mp he ▸ rfl
    next => exact .refl _
  next => exact .refl _

theorem handleCreate_opens (hs : s.table.Sound) :
    Opens s.table (s.handleCreate p a).trace (s.handleCreate p a).value.table := by
  have hgiven : Opens s.table (s.giveConnection p a).trace (s.giveConnection p a).value.2 := by
    unfold giveConnection
    split
    next => exact findGetConnNr_opens p.fromAddr a.spawned hs
    next => exact (Kills.refl _).opens hs
  unfold handleCreate
  rw [Traced.value_bind, Traced.trace_bind]
  generalize s.giveConnection p a = m at *
  obtain ⟨⟨connection, t⟩, effects⟩ := m
  dsimp only at hgiven ⊢
  split
  next => exact hgiven.kills (.quiet (.refl _) fun e he => List.mem_singleton.mp he ▸ rfl)
  next => exact hgiven.kills (.quiet (.refl _) fun e he => List.mem_singleton.mp he ▸ rfl)
  next _ c _ hc =>
    exact hgiven.kills (.quiet (.set hc (.inr ⟨rfl, .inl ⟨rfl, rfl⟩⟩)) fun e he =>
      List.mem_singleton.mp he ▸ rfl)

theorem handleNcpRequest_opens (myAddr : IpxAddr) (hs : s.table.Sound) :
    Opens s.table (s.handleNcpRequest p a myAddr).trace (s.handleNcpRequest p a myAddr).value.table := by
  unfold handleNcpRequest
  split
  next => exact (s.handleRequest_kills p a).opens hs
  next =>
    split
    next => exact (s.handleNwbind_kills p).opens hs
    next =>
      split
      next => exact s.handleCreate_opens p a hs
      next =>
        split
        next => exact (s.handleCtrl_kills p a).opens hs
        next =>
          have hresponse : Kills s.table
              [.ncpResponse 0x3333 p.request.sequence p.request.connectionNr 1 0xfb 0] s.table :=
            .quiet (.refl _) fun e he => List.mem_singleton.mp he ▸ rfl
          exact hresponse.opens hs

end Ncpserv

/-! ## Runs -/

/-- ncpserv and its children that are not yet reaped. -/
structure NcpWorld (limit : ℕ+) where
  server : Ncpserv limit
  children : Set Int

inductive NcpEvent where
  | packet (p : IpxPacket) (a : PacketAnswers)
  /-- children have exited -/
  | sigChild (reaped : List Int)

namespace NcpWorld

/-- What ncpserv does in one round of its loop: a packet comes in, or after a signal
the children are looked after. -/
def react (myAddr : IpxAddr) (w : NcpWorld limit) : NcpEvent → Traced NcpEffect (Ncpserv limit)
  | .packet p a => w.server.handleNcpRequest p a myAddr
  | .sigChild reaped =>
      let m := w.server.table.killConnections reaped
      ⟨{ w.server with table := m.value }, m.trace⟩

/-- A new child has a pid that no child has, and only children are reaped. -/
def Possible (w : NcpWorld limit) : NcpEvent → Prop
  | .packet _ a =>
      (∀ fds, a.spawned.pipe = some fds → 0 ≤ fds.1 ∧ 0 ≤ fds.2) ∧
        ∀ pid, a.spawned.fork = some pid → 0 < pid ∧ pid ∉ w.children
  | .sigChild reaped => reaped.Nodup ∧ ∀ pid ∈ reaped, pid ∈ w.children

def next (myAddr : IpxAddr) (w : NcpWorld limit) (e : NcpEvent) : NcpWorld limit :=
  ⟨(w.react myAddr e).value, Held.after w.children (childActs (w.react myAddr e).trace)⟩

/-- No child exits while its pid is in the table. -/
def Spared (w : NcpWorld limit) : NcpEvent → Prop
  | .packet _ _ => True
  | .sigChild reaped => ∀ pid ∈ reaped, ∀ c ∈ w.server.table.connections, c.pid ≠ pid

/-- The worlds that are reached by events that are `ok`. -/
inductive Reach (myAddr : IpxAddr) (ok : NcpWorld limit → NcpEvent → Prop) :
    NcpWorld limit → Prop
  | start (stationRestrictions : Int) :
      Reach myAddr ok ⟨⟨ConnTable.empty, stationRestrictions, 0⟩, ∅⟩
  | step {w : NcpWorld limit} {e : NcpEvent} (hreach : Reach myAddr ok w)
      (hpossible : w.Possible e) (hok : ok w e) : Reach myAddr ok (w.next myAddr e)

variable {myAddr : IpxAddr} {w : NcpWorld limit}

theorem next_sound (hs : w.server.table.Sound) (e : NcpEvent) :
    (w.next myAddr e).server.table.Sound ∧
      ConnTable.Given w.server.table (w.next myAddr e).server.table := by
  cases e with
  | packet p a =>
      have hopens := w.server.handleNcpRequest_opens p a myAddr hs
      exact ⟨hopens.sound, hopens.given⟩
  | sigChild reaped =>
      obtain ⟨t', hreleased, heq⟩ := w.server.table.killConnections_released reaped
      have hgiven : ConnTable.Given w.server.table t'.trim := hreleased.given
      have hkilled : (w.next myAddr (.sigChild reaped)).server.table = t'.trim := heq
      rw [hkilled]
      exact ⟨(hs.released hreleased).trim, hgiven⟩

theorem next_childrenOk {e : NcpEvent} (hs : w.server.table.Sound)
    (hserved : w.server.table.Served w.children) (hspared : w.Spared e) :
    Held.Proper w.children (childActs (w.react myAddr e).trace) ∧
      (w.next myAddr e).server.table.Served (w.next myAddr e).children := by
  cases e with
  | packet p a => exact (w.server.handleNcpRequest_opens p a myAddr hs).children hserved
  | sigChild reaped => exact ConnTable.killConnections_proper hserved hspared

theorem Reach.sound {ok : NcpWorld limit → NcpEvent → Prop} (h : Reach myAddr ok w) :
    w.server.table.Sound := by
  induction h with
  | start => exact .empty
  | step _ _ _ ih => exact (next_sound ih _).1

theorem Reach.served (h : Reach myAddr Spared w) : w.server.table.Served w.children := by
  induction h with
  | start => exact fun c hc => (nomatch hc)
  | step hreach _ hspared ih => exact (next_childrenOk hreach.sound ih hspared).2

end NcpWorld

/-- In every run entries serve different clients, are within the count and are given
when they are free. A child is killed only before it is reaped, as long as no child
exits while its pid is in the table. -/
theorem connections_sound {myAddr : IpxAddr} {ok : NcpWorld limit → NcpEvent → Prop}
    {w : NcpWorld limit} (h : NcpWorld.Reach myAddr ok w) :
    w.server.table.Sound ∧
      (∀ e, ConnTable.Given w.server.table (w.next myAddr e).server.table) ∧
      (NcpWorld.Reach myAddr NcpWorld.Spared w → ∀ e, w.Possible e → w.Spared e →
        Held.Proper w.children (childActs (w.react myAddr e).trace)) :=
  ⟨h.sound, fun e => (NcpWorld.next_sound h.sound e).2, fun hreach _ _ hspared =>
    (NcpWorld.next_childrenOk hreach.sound hreach.served hspared).1⟩

/-! ## A child that is killed after its end -/

def anyHost : IpxAddr := ⟨.zero 4, .zero 6, .zero 2⟩

/-- A client asks for its first connection. -/
def firstPacket : IpxPacket := ⟨anyHost, ⟨0x1111, 0, 0, 0, 0, 0⟩, ⟨0, 0, 0⟩⟩

/-- The new nwconn gets the pid 100. -/
def firstAnswers : PacketAnswers := ⟨0, fun _ => 0, false, none, ⟨some (11, 12), some 100⟩⟩

/-- The world with one client. -/
def oneClient : NcpWorld 1 :=
  NcpWorld.next anyHost ⟨⟨.empty, 0, 0⟩, ∅⟩ (.packet firstPacket firstAnswers)

theorem oneClient_reach : NcpWorld.Reach anyHost NcpWorld.Spared oneClient :=
  .step (.start 0) ⟨by decide, by simp [firstAnswers]⟩ trivial

theorem connections_sound_oneClient :
    oneClient.server.table.Sound ∧
      (∀ e, ConnTable.Given oneClient.server.table (oneClient.next anyHost e).server.table) ∧
      (NcpWorld.Reach anyHost NcpWorld.Spared oneClient → ∀ e, oneClient.Possible e →
        oneClient.Spared e →
        Held.Proper oneClient.children (childActs (oneClient.react anyHost e).trace)) :=
  connections_sound oneClient_reach

theorem not_connections_sound : ¬∀ (w : NcpWorld 1), NcpWorld.Reach anyHost (fun _ _ => True) w →
    w.server.table.Sound ∧ ∀ e, w.Possible e →
      ConnTable.Given w.server.table (w.next anyHost e).server.table ∧
        Held.Proper w.children (childActs (w.react anyHost e).trace) := by
  intro h
  have hreach : NcpWorld.Reach anyHost (fun _ _ => True) oneClient :=
    .step (.start 0) ⟨by decide, by simp [firstAnswers]⟩ trivial
  have hchildren : oneClient.children = insert 100 ∅ := rfl
  have hpossible : oneClient.Possible (.sigChild [100]) := by
    refine ⟨by decide, fun pid hpid => ?_⟩
    rw [List.mem_singleton.mp hpid, hchildren]
    exact Set.mem_insert ..
  have hacts : childActs (oneClient.react anyHost (.sigChild [100])).trace =
      [.drop 100, .use 100, .use 100] := rfl
  have hproper := ((h oneClient hreach).2 _ hpossible).2
  rw [hacts] at hproper
  exact hproper.1.2 rfl

end MarsNwe
