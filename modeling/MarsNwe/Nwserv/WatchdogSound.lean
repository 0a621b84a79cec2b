import MarsNwe.Nwserv.Watchdog

/-! # What the watchdog may do

Seen from outside, a connection has a station while it is inserted, and packets have
been sent to it since it was heard of last. The watchdog is sound while no reset,
activation or answer reaches a connection that is not inserted, and no activation one
that has just been sent the last packet.
-/

namespace MarsNwe

/-! ## Seen from outside -/

/-- The address of a connection that is inserted, and the times of the packets that have
been sent to it since it was inserted, reset or heard of, the last one first. -/
structure Watched where
  station : Option IpxAddr
  probes : List Nat

/-- A packet answers for a connection: it comes from its station, with its number and `Y`. -/
def Watched.answers (w : Watched) (conn : Nat) (source : IpxAddr) (data : List UInt8) : Bool :=
  data = [UInt8.ofNat conn, 0x59] ∧
    w.station.any fun addr => addr.node = source.node ∧ addr.net = source.net

/-- What an event tells of a connection. -/
def Watched.told (maxConnections conn : Nat) (w : Watched) : WdogEvent → Watched
  | .insertConn conn' adr => if conn' = conn ∧ conn ≤ maxConnections then ⟨some adr, []⟩ else w
  | .wdogConn conn' what => if what = 0 ∧ conn' = conn then { w with probes := [] } else w
  | .closeConn conn' => if conn' = conn then ⟨none, []⟩ else w
  | .wdogPacket source data => if w.answers conn source data then { w with probes := [] } else w
  | .sendWdogs _ => w

def WdogOut.isPacket (conn : Nat) : WdogOut → Bool
  | .packet conn' _ _ => conn' = conn
  | .clear _ => false

/-- What has been sent to a connection. -/
def Watched.sent (conn now : Nat) (out : List WdogOut) (w : Watched) : Watched :=
  if out.any (·.isPacket conn) then { w with probes := now :: w.probes } else w

/-- The table, what is seen of the connection of each slot, and the time. -/
structure WdogRun where
  table : WdogTable
  watched : Nat → Watched
  now : Nat

/-- The watchdog, with the time that passes before each event. -/
def wdogMachine : Machine WdogRun (Nat × WdogEvent) (List WdogOut) where
  step s e :=
    let now := s.now + e.1
    let (out, table) := handleWdogEvent s.table now e.2
    (out, ⟨table, fun k => ((s.watched k).told s.table.maxConnections (k + 1) e.2).sent (k + 1) now out,
      now⟩)

/-- The server when it starts. -/
def wdogStart (maxConnections start : Nat) : WdogRun :=
  ⟨⟨maxConnections, fun _ => .zero, 0, Nat.zero_le _⟩, fun _ => ⟨none, []⟩, start⟩

/-- A packet may be sent to the station of a connection that is inserted; one may be
cleared if it is inserted and two packets have been sent to it, the last one more than 50
seconds ago. -/
def WdogOut.May (watched : Nat → Watched) (now : Nat) : WdogOut → Prop
  | .packet conn toAddr data => ∃ k addr, conn = k + 1 ∧ (watched k).station = some addr ∧
      toAddr = wdogAddr addr ∧ data = [UInt8.ofNat conn, 0x3f]
  | .clear conn => ∃ k, conn = k + 1 ∧ (watched k).station.isSome ∧
      ∃ last before probes, (watched k).probes = last :: before :: probes ∧ 50 < now - last

/-- What is sent may be sent, and an answer resets the counter. -/
structure WdogSound (s : WdogRun) (e : Nat × WdogEvent) : Prop where
  out : ∀ o ∈ (wdogMachine.step s e).1, o.May s.watched (s.now + e.1)
  answer : ∀ k source data, e.2 = .wdogPacket source data →
    (s.watched k).answers (k + 1) source data = true →
    ((wdogMachine.step s e).2.table.connections k).counter = 0

/-! ## What must not happen -/

/-- The slot that an answer resets. -/
def answerSlot (t : WdogTable) (source : IpxAddr) (connid : UInt8) : Option Nat :=
  if t.maxConnections < 256 then
    if 0 < connid.toNat ∧ connid.toNat ≤ t.hiConn then some (connid.toNat - 1) else none
  else (List.range t.hiConn).find? fun k => (t.connections k).addr.node = source.node

/-- A reset, an activation or an answer changes slots of inserted connections only; an
activation none that has been sent its last packet within 50 seconds; and in a large
table the first slot with the node of an answer is that of the connection. -/
def WdogFits (s : WdogRun) (e : Nat × WdogEvent) : Prop :=
  match e.2 with
  | .wdogConn conn what =>
      (what = 0 → ∀ k : Nat, conn = k + 1 → k < s.table.hiConn → (s.watched k).station.isSome) ∧
      (what = 1 → ∀ k : Nat, conn ≤ k → k < s.table.hiConn → (s.watched k).station.isSome ∧
        (maxWdogTries < (s.table.connections k).counter →
          50 < s.now + e.1 - (s.table.connections k).lastTime))
  | .wdogPacket source data =>
      ∀ connid, data = [connid, 0x59] →
        (∀ k, answerSlot s.table source connid = some k → (s.watched k).station.isSome) ∧
        (256 ≤ s.table.maxConnections → ∀ k, (s.watched k).answers (k + 1) source data = true →
          ∀ j < k, (s.table.connections j).addr.node ≠ source.node)
  | _ => True

/-! ## A slot -/

/-- A slot is in use while its connection is inserted, with the address of the station.
From the third try on a packet has been sent, from the fourth on two, the last one when
the slot says or long ago. -/
structure SlotOk (now : Nat) (w : Watched) (c : WdogConn) : Prop where
  addr : ∀ addr, w.station = some addr → c.addr = addr
  used : c.lastTime ≠ 0 ↔ w.station.isSome
  first : 3 ≤ c.counter → ∃ last probes, w.probes = last :: probes
  second : 4 ≤ c.counter → ∃ last before probes, w.probes = last :: before :: probes ∧
    (last ≤ c.lastTime ∨ 50 < now - last)

section

variable {now now' : Nat} {w : Watched} {c : WdogConn}

theorem SlotOk.mono (h : SlotOk now w c) (hle : now ≤ now') : SlotOk now' w c where
  addr := h.addr
  used := h.used
  first := h.first
  second hcounter := by
    obtain ⟨last, before, probes, hprobes, hlast⟩ := h.second hcounter
    exact ⟨last, before, probes, hprobes, hlast.imp_right fun h => by omega⟩

/-- A slot that is not in use. -/
theorem SlotOk.zero (now : Nat) (hnone : w.station = none) : SlotOk now w .zero where
  addr _ hsome := by rw [hnone] at hsome; contradiction
  used := by
    rw [hnone]
    exact ⟨fun h => absurd rfl h, fun h => absurd h Bool.false_ne_true⟩
  first hcounter := absurd hcounter (by decide)
  second hcounter := absurd hcounter (by decide)

theorem SlotOk.insert (hnow : 0 < now) (adr : IpxAddr) :
    SlotOk now ⟨some adr, []⟩ ⟨adr, now, 0⟩ where
  addr _ hsome := Option.some.inj hsome
  used := ⟨fun _ => rfl, fun _ => hnow.ne'⟩
  first hcounter := absurd hcounter (by simp)
  second hcounter := absurd hcounter (by simp)

theorem SlotOk.reset (h : SlotOk now w c) (hnow : 0 < now) (hstation : w.station.isSome)
    (probes : List Nat) :
    SlotOk now { w with probes := probes } { c with counter := 0, lastTime := now } where
  addr := h.addr
  used := ⟨fun _ => hstation, fun _ => hnow.ne'⟩
  first hcounter := absurd hcounter (by simp)
  second hcounter := absurd hcounter (by simp)

/-- What `modify_wdog_conn` makes of a slot that it activates. -/
def WdogConn.activate (c : WdogConn) : WdogConn :=
  { c with
    counter := max (if c.counter = 0 then 1 else c.counter) (maxWdogTries - 1)
    lastTime := 1 }

theorem SlotOk.activate (h : SlotOk now w c) (hstation : w.station.isSome)
    (hlong : maxWdogTries < c.counter → 50 < now - c.lastTime) : SlotOk now w c.activate where
  addr := h.addr
  used := ⟨fun _ => hstation, fun _ => Nat.one_ne_zero⟩
  first hcounter := by
    refine h.first ?_
    unfold WdogConn.activate maxWdogTries at hcounter
    dsimp only at hcounter
    split at hcounter <;> omega
  second hcounter := by
    have hmany : 4 ≤ c.counter := by
      unfold WdogConn.activate maxWdogTries at hcounter
      dsimp only at hcounter
      split at hcounter <;> omega
    obtain ⟨last, before, probes, hprobes, hlast⟩ := h.second hmany
    have hlong := hlong hmany
    exact ⟨last, before, probes, hprobes, .inr (by omega)⟩

/-- What `send_wdogs` sends for a slot, and makes of it. -/
def wdogSlot (nets : WdogNets) (now k : Nat) (c : WdogConn) : List WdogOut × WdogConn :=
  if c.lastTime ≠ 0 ∧ ((c.counter ≠ 0 ∧ now - c.lastTime > 50) ∨
      now - c.lastTime > wdogTrieAfterSec) then
    if c.counter > maxWdogTries then ([.clear (k + 1)], { c with counter := c.counter + 1 })
    else if dontSendWdog nets (wdogAddr c.addr) then
      ([], { c with counter := 1, lastTime := now })
    else ([.packet (k + 1) (wdogAddr c.addr) [UInt8.ofNat (k + 1), 0x3f]],
      { c with counter := c.counter + 1, lastTime := now })
  else ([], c)

theorem SlotOk.send (h : SlotOk now w c) (nets : WdogNets) (k : Nat) (watched : Nat → Watched)
    (hw : watched k = w) :
    (∀ o ∈ (wdogSlot nets now k c).1, o.May watched now) ∧
      SlotOk now (w.sent (k + 1) now (wdogSlot nets now k c).1) (wdogSlot nets now k c).2 := by
  unfold wdogSlot
  split
  next hdue =>
    obtain ⟨hused, hdue⟩ := hdue
    have hstation := h.used.mp hused
    obtain ⟨addr, haddr⟩ := Option.isSome_iff_exists.mp hstation
    have hnow : 0 < now := by
      unfold wdogTrieAfterSec at hdue
      omega
    split
    next hmany =>
      obtain ⟨last, before, probes, hprobes, hlast⟩ := h.second hmany
      have hlong : 50 < now - last := by
        unfold wdogTrieAfterSec at hdue
        omega
      refine ⟨fun o ho => ?_, h.addr, h.used, fun _ => ⟨_, _, hprobes⟩, fun _ =>
        ⟨last, before, probes, hprobes, .inr hlong⟩⟩
      obtain rfl := List.mem_singleton.mp ho
      exact ⟨k, rfl, by rw [hw]; exact hstation, last, before, probes, by rw [hw]; exact hprobes, hlong⟩
    next hfew =>
      split
      next =>
        exact ⟨fun o ho => (nomatch ho), h.addr, ⟨fun _ => hstation, fun _ => hnow.ne'⟩,
          fun hcounter => absurd hcounter (by simp), fun hcounter => absurd hcounter (by simp)⟩
      next =>
        have hsent : w.sent (k + 1) now
            [.packet (k + 1) (wdogAddr c.addr) [UInt8.ofNat (k + 1), 0x3f]] =
            { w with probes := now :: w.probes } :=
          if_pos (by simp [WdogOut.isPacket])
        rw [hsent]
        refine ⟨fun o ho => ?_, h.addr, ⟨fun _ => hstation, fun _ => hnow.ne'⟩,
          fun _ => ⟨_, _, rfl⟩, fun hcounter => ?_⟩
        · obtain rfl := List.mem_singleton.mp ho
          exact ⟨k, addr, rfl, by rw [hw]; exact haddr, by rw [h.addr addr haddr], rfl⟩
        · obtain ⟨last, probes, hprobes⟩ := h.first (Nat.le_of_succ_le_succ hcounter)
          exact ⟨now, last, probes, by rw [hprobes], .inl (Nat.le_refl _)⟩
  next => exact ⟨fun o ho => (nomatch ho), h⟩

end

/-! ## The table -/

section

variable {t t' : WdogTable} {watched watched' : Nat → Watched} {now : Nat}

/-- The slots below `hi_conn` are in order, and no connection of a slot above is inserted. -/
structure TableOk (now : Nat) (t : WdogTable) (watched : Nat → Watched) : Prop where
  slots : ∀ k < t.hiConn, SlotOk now (watched k) (t.connections k)
  above : ∀ k, t.hiConn ≤ k → (watched k).station = none

/-- A change of slots that leaves each of them in order. -/
theorem TableOk.slotwise (h : TableOk now t watched) (hhi : t'.hiConn = t.hiConn)
    (hslots : ∀ k < t.hiConn, SlotOk now (watched k) (t.connections k) →
      SlotOk now (watched' k) (t'.connections k))
    (habove : ∀ k, t.hiConn ≤ k → (watched k).station = none → (watched' k).station = none) :
    TableOk now t' watched' where
  slots k hk := hslots k (hhi ▸ hk) (h.slots k (hhi ▸ hk))
  above k hk := habove k (hhi ▸ hk) (h.above k (hhi ▸ hk))

theorem TableOk.mono {now' : Nat} (h : TableOk now t watched) (hle : now ≤ now') :
    TableOk now' t watched where
  slots k hk := (h.slots k hk).mono hle
  above := h.above

/-- The slot of an inserted connection is below `hi_conn`. -/
theorem TableOk.lt_hiConn (h : TableOk now t watched) {k : Nat}
    (hstation : (watched k).station.isSome) : k < t.hiConn := by
  by_contra hk
  rw [h.above k (Nat.not_lt.mp hk)] at hstation
  contradiction

theorem TableOk.insert (h : TableOk now t watched) (hnow : 0 < now) (conn : Int) (adr : IpxAddr) :
    TableOk now (insertWdogConn t conn adr now) fun k =>
      (watched k).told t.maxConnections (k + 1) (.insertConn conn adr) := by
  unfold insertWdogConn Watched.told
  dsimp only
  split
  next hconn =>
    constructor
    · intro k hk
      dsimp only at hk ⊢
      by_cases hhere : k = (conn - 1).toNat
      · rw [if_pos (by omega), hhere, Function.update_self]
        exact .insert hnow adr
      · rw [if_neg (by omega), Function.update_of_ne hhere]
        split
        next hnew => exact .zero now (h.above k hnew.1)
        next hold => exact h.slots k (by omega)
    · intro k hk
      dsimp only at hk ⊢
      rw [if_neg (by omega)]
      exact h.above k (by omega)
  next hconn =>
    have hsame : ∀ k : Nat, ¬(conn = (k + 1 : Nat) ∧ k + 1 ≤ t.maxConnections) := by
      intro k
      omega
    simp only [hsame, if_false]
    exact h

theorem modifyWdogConn_reset (t : WdogTable) (conn : Int) (now : Nat) :
    modifyWdogConn t conn 0 now =
      if 0 < conn ∧ conn - 1 < t.hiConn then
        t.put (conn - 1).toNat { t.connections (conn - 1).toNat with counter := 0, lastTime := now }
      else t := rfl

theorem modifyWdogConn_activate (t : WdogTable) (conn : Int) (now : Nat) :
    modifyWdogConn t conn 1 now =
      if 0 < conn ∧ conn - 1 < t.hiConn then
        t.put (conn - 1).toNat (t.connections (conn - 1).toNat).activate
      else t := rfl

/-- The slot that is reset, if it is below `hi_conn`. -/
theorem connections_reset {j : Nat} (hj : j < t.hiConn) (k : Nat) :
    (modifyWdogConn t (j + 1) 0 now).connections k =
      if k = j then { t.connections k with counter := 0, lastTime := now } else t.connections k := by
  have hslot : ((j : Int) + 1 - 1).toNat = j := by omega
  rw [modifyWdogConn_reset, if_pos (by omega), hslot]
  by_cases hk : k = j
  · rw [hk, WdogTable.connections_put_self, if_pos rfl]
  · rw [t.connections_put_of_ne _ hk, if_neg hk]

theorem hiConn_reset (t : WdogTable) (conn : Int) (now : Nat) :
    (modifyWdogConn t conn 0 now).hiConn = t.hiConn := by
  rw [modifyWdogConn_reset]
  split <;> rfl

/-- A reset of a slot of an inserted connection. -/
theorem TableOk.reset (h : TableOk now t watched) (hnow : 0 < now) {j : Nat}
    (hstation : (watched j).station.isSome) (hother : ∀ k, k ≠ j → watched' k = watched k)
    (hthis : ∃ probes, watched' j = { watched j with probes := probes }) :
    TableOk now (modifyWdogConn t (j + 1) 0 now) watched' := by
  have hj := h.lt_hiConn hstation
  obtain ⟨probes, hthis⟩ := hthis
  refine h.slotwise (hiConn_reset _ _ _) (fun k hk hslot => ?_) fun k hk hnone => ?_
  · rw [connections_reset hj]
    by_cases hkj : k = j
    · subst hkj
      rw [if_pos rfl, hthis]
      exact hslot.reset hnow hstation probes
    · rw [if_neg hkj, hother k hkj]
      exact hslot
  · rw [hother k (by omega)]
    exact hnone

/-- The slots from `conn` on are activated. -/
theorem activate_fold (t : WdogTable) (conn : Int) (now n : Nat) (hn : n ≤ t.hiConn) :
    let t' := (List.range n).foldl
      (fun t (k : Nat) => if conn ≤ k then modifyWdogConn t (k + 1) 1 now else t) t
    t'.hiConn = t.hiConn ∧ ∀ k, t'.connections k =
      if k < n ∧ conn ≤ k then (t.connections k).activate else t.connections k := by
  induction n with
  | zero => exact ⟨rfl, fun k => (if_neg fun h => Nat.not_lt_zero k h.1).symm⟩
  | succ n ih =>
      obtain ⟨hhi, hslots⟩ := ih (by omega)
      rw [List.range_succ, List.foldl_append]
      generalize (List.range n).foldl _ t = t' at *
      dsimp only [List.foldl_cons, List.foldl_nil]
      have hslot : ((n : Int) + 1 - 1).toNat = n := by omega
      split
      next hconn =>
        rw [modifyWdogConn_activate, if_pos (by omega), hslot]
        refine ⟨hhi, fun k => ?_⟩
        by_cases hk : k = n
        · rw [hk, WdogTable.connections_put_self, hslots, if_neg (by omega),
            if_pos ⟨by omega, hconn⟩]
        · have hlt : k < n + 1 ↔ k < n := by omega
          rw [t'.connections_put_of_ne _ hk, hslots]
          simp only [hlt]
      next hconn =>
        refine ⟨hhi, fun k => ?_⟩
        have hlt : k < n + 1 ∧ conn ≤ k ↔ k < n ∧ conn ≤ k := by omega
        rw [hslots]
        simp only [hlt]

theorem TableOk.activate (h : TableOk now t watched) (conn : Int)
    (hfits : ∀ k : Nat, conn ≤ k → k < t.hiConn → (watched k).station.isSome ∧
      (maxWdogTries < (t.connections k).counter → 50 < now - (t.connections k).lastTime)) :
    TableOk now ((List.range t.hiConn).foldl
      (fun t (k : Nat) => if conn ≤ k then modifyWdogConn t (k + 1) 1 now else t) t) watched := by
  obtain ⟨hhi, hslots⟩ := activate_fold t conn now t.hiConn (Nat.le_refl _)
  refine h.slotwise hhi (fun k hk hslot => ?_) fun k _ hnone => hnone
  rw [hslots]
  split
  next hconn =>
    obtain ⟨hstation, hlong⟩ := hfits k hconn.2 hk
    exact hslot.activate hstation hlong
  next => exact hslot

theorem dropUnused_spec (connections : Nat → WdogConn) (hi k : Nat)
    (hk : dropUnused connections hi ≤ k) (hlt : k < hi) : (connections k).lastTime = 0 := by
  induction hi with
  | zero => exact absurd hlt (Nat.not_lt_zero k)
  | succ hi ih =>
      unfold dropUnused at hk
      split at hk
      next hunused =>
        by_cases heq : k = hi
        · exact heq ▸ hunused
        · exact ih hk (by omega)
      next => omega

theorem TableOk.close (h : TableOk now t watched) (conn : Int) :
    TableOk now (modifyWdogConn t conn 99 now) fun k =>
      (watched k).told t.maxConnections (k + 1) (.closeConn conn) := by
  unfold modifyWdogConn Watched.told
  dsimp only
  by_cases hconn : 0 < conn ∧ conn - 1 < t.hiConn
  swap
  · -- the connection is not inserted
    rw [if_neg hconn]
    refine h.slotwise rfl (fun k hk hslot => ?_) fun k _ hnone => ?_
    · rw [if_neg (by omega)]
      exact hslot
    · split
      next => rfl
      next => exact hnone
  rw [if_pos hconn, if_neg (by decide), if_pos rfl]
  generalize hj : (conn - 1).toNat = j
  have heq : ∀ k : Nat, conn = (k + 1 : Nat) ↔ k = j := by
    intro k
    omega
  simp only [heq]
  unfold WdogTable.remove
  dsimp only
  have hput : TableOk now (t.put j .zero) fun k => if k = j then ⟨none, []⟩ else watched k := by
    refine h.slotwise rfl (fun k hk hslot => ?_) fun k _ hnone => ?_
    · by_cases hkj : k = j
      · rw [hkj, WdogTable.connections_put_self, if_pos rfl]
        exact .zero now rfl
      · rw [t.connections_put_of_ne _ hkj, if_neg hkj]
        exact hslot
    · split
      next => rfl
      next => exact hnone
  split
  next =>
    -- the slots given up are those of no connection
    constructor
    · intro k hk
      exact hput.slots k (lt_of_lt_of_le hk (dropUnused_le _ _))
    · intro k hk
      by_cases hlt : k < t.hiConn
      · have hunused := dropUnused_spec _ _ k hk hlt
        have hstation := (hput.slots k hlt).used.not.mp (not_not.mpr hunused)
        exact Option.not_isSome_iff_eq_none.mp hstation
      · exact hput.above k (Nat.not_lt.mp hlt)
  next => exact hput

/-- `send_wdogs` does for a slot what `wdogSlot` says. -/
theorem sendWdog_eq (nets : WdogNets) {k : Nat} (hk : k < t.hiConn) :
    sendWdog nets now t k = ((wdogSlot nets now k (t.connections k)).1,
      t.put k (wdogSlot nets now k (t.connections k)).2) := by
  have hsame := (t.put_self k).symm
  have hslot : ((k : Int) + 1 - 1).toNat = k := by omega
  unfold sendWdog wdogSlot
  dsimp only
  by_cases hused : (t.connections k).lastTime ≠ 0
  swap
  · rw [if_neg hused, if_neg fun h => hused h.1]
    exact congrArg (Prod.mk []) hsame
  rw [if_pos hused]
  by_cases hdue : ((t.connections k).counter ≠ 0 ∧ now - (t.connections k).lastTime > 50) ∨
      now - (t.connections k).lastTime > wdogTrieAfterSec
  swap
  · rw [if_neg hdue, if_neg fun h => hdue h.2]
    exact congrArg (Prod.mk []) hsame
  have hboth : (t.connections k).lastTime ≠ 0 ∧ ((t.connections k).counter ≠ 0 ∧
      now - (t.connections k).lastTime > 50 ∨
      now - (t.connections k).lastTime > wdogTrieAfterSec) := ⟨hused, hdue⟩
  rw [if_pos hdue, if_pos hboth]
  by_cases hmany : (t.connections k).counter > maxWdogTries
  · rw [if_pos hmany, if_pos hmany]
  rw [if_neg hmany, if_neg hmany]
  by_cases hdont : dontSendWdog nets (wdogAddr (t.connections k).addr) = true
  · have hhi : (k : Int) + 1 - 1 < (t.put k { t.connections k with lastTime := now }).hiConn := by
      rw [WdogTable.hiConn_put]
      omega
    rw [if_pos hdont, if_pos hdont, modifyWdogConn_reset, if_pos ⟨by omega, hhi⟩, hslot]
    simp only [WdogTable.put_put, WdogTable.connections_put_self]
  · rw [if_neg hdont, if_neg hdont]
    simp only [WdogTable.put_put, WdogTable.connections_put_self]

/-- The slots one after the other. -/
theorem sendWdogs_eq (nets : WdogNets) (n : Nat) (hn : n ≤ t.hiConn) :
    (sendWdogs nets now n t).1 =
        (List.range n).reverse.flatMap (fun k => (wdogSlot nets now k (t.connections k)).1) ∧
      (sendWdogs nets now n t).2.hiConn = t.hiConn ∧
      ∀ k, (sendWdogs nets now n t).2.connections k =
        if k < n then (wdogSlot nets now k (t.connections k)).2 else t.connections k := by
  induction n generalizing t with
  | zero => exact ⟨rfl, rfl, fun k => (if_neg (Nat.not_lt_zero k)).symm⟩
  | succ n ih =>
      unfold sendWdogs
      rw [sendWdog_eq nets hn]
      dsimp only
      generalize hc : (wdogSlot nets now n (t.connections n)).2 = c
      obtain ⟨hout, hhi, hslots⟩ := @ih (t.put n c) (Nat.le_of_succ_le hn)
      have hother : ∀ k, k ≠ n → (t.put n c).connections k = t.connections k :=
        fun k hk => t.connections_put_of_ne c hk
      refine ⟨?_, hhi, fun k => ?_⟩
      · rw [hout, List.range_succ, List.reverse_append, List.reverse_singleton,
          List.singleton_append, List.flatMap_cons]
        refine congrArg _ (List.flatMap_congr fun k hk => ?_)
        have hlt : k < n := List.mem_range.mp (List.mem_reverse.mp hk)
        rw [hother k hlt.ne]
      · rw [hslots]
        by_cases hk : k = n
        · subst hk
          rw [if_neg (Nat.lt_irrefl k), if_pos (Nat.lt_succ_self k), hc]
          exact t.connections_put_self k c
        · have hlt : k < n + 1 ↔ k < n := by omega
          rw [hother k hk]
          simp only [hlt]

/-- What is sent for a slot is for its connection. -/
theorem isPacket_wdogSlot (nets : WdogNets) (k : Nat) (c : WdogConn) {o : WdogOut} {conn : Nat}
    (ho : o ∈ (wdogSlot nets now k c).1) (hpacket : o.isPacket conn = true) : conn = k + 1 := by
  unfold wdogSlot at ho
  split at ho
  next =>
    split at ho
    next =>
      obtain rfl := List.mem_singleton.mp ho
      contradiction
    next =>
      split at ho
      next => contradiction
      next =>
        obtain rfl := List.mem_singleton.mp ho
        exact (of_decide_eq_true hpacket).symm
  next => contradiction

theorem TableOk.send (h : TableOk now t watched) (nets : WdogNets) :
    (∀ o ∈ (sendWdogs nets now t.hiConn t).1, o.May watched now) ∧
      TableOk now (sendWdogs nets now t.hiConn t).2 fun k =>
        (watched k).sent (k + 1) now (sendWdogs nets now t.hiConn t).1 := by
  obtain ⟨hout, hhi, hslots⟩ := @sendWdogs_eq t now nets t.hiConn (Nat.le_refl _)
  have hmem : ∀ o, o ∈ (sendWdogs nets now t.hiConn t).1 ↔
      ∃ k < t.hiConn, o ∈ (wdogSlot nets now k (t.connections k)).1 := by
    intro o
    rw [hout]
    simp
  have hpackets : ∀ k < t.hiConn, (sendWdogs nets now t.hiConn t).1.any (·.isPacket (k + 1)) =
      (wdogSlot nets now k (t.connections k)).1.any (·.isPacket (k + 1)) := by
    intro k hk
    rw [Bool.eq_iff_iff, List.any_eq_true, List.any_eq_true]
    constructor
    · intro ⟨o, ho, hpacket⟩
      obtain ⟨j, -, hj⟩ := (hmem o).mp ho
      have hjk : k + 1 = j + 1 := isPacket_wdogSlot nets j _ hj hpacket
      obtain rfl := Nat.succ.inj hjk
      exact ⟨o, hj, hpacket⟩
    · intro ⟨o, ho, hpacket⟩
      exact ⟨o, (hmem o).mpr ⟨k, hk, ho⟩, hpacket⟩
  constructor
  · intro o ho
    obtain ⟨k, hk, hslot⟩ := (hmem o).mp ho
    exact ((h.slots k hk).send nets k watched rfl).1 o hslot
  · refine h.slotwise hhi (fun k hk hslot => ?_) fun k _ hnone => ?_
    · rw [hslots, if_pos hk]
      unfold Watched.sent
      rw [hpackets k hk]
      exact (hslot.send nets k watched rfl).2
    · unfold Watched.sent
      split
      next => exact hnone
      next => exact hnone

theorem Watched.answers_iff {w : Watched} {conn : Nat} {source : IpxAddr} {data : List UInt8} :
    w.answers conn source data = true ↔ data = [UInt8.ofNat conn, 0x59] ∧
      ∃ addr, w.station = some addr ∧ addr.node = source.node ∧ addr.net = source.net := by
  unfold Watched.answers
  simp [Option.any_eq_true]

/-- The answer of a connection finds its slot. -/
theorem answerSlot_eq (h : TableOk now t watched) {source : IpxAddr} {connid : UInt8} {k : Nat}
    (hanswers : (watched k).answers (k + 1) source [connid, 0x59] = true)
    (hfirst : 256 ≤ t.maxConnections → ∀ j < k, (t.connections j).addr.node ≠ source.node) :
    answerSlot t source connid = some k := by
  obtain ⟨hdata, addr, haddr, hnode, -⟩ := Watched.answers_iff.mp hanswers
  have hk := h.lt_hiConn (Option.isSome_of_eq_some haddr)
  have hmax := t.hiConn_le
  unfold answerSlot
  split
  next hsmall =>
    have hnumber : connid.toNat = k + 1 := by
      rw [(List.cons.inj hdata).1, UInt8.toNat_ofNat']
      omega
    rw [if_pos (by omega), hnumber]
    rfl
  next hlarge =>
    refine List.find?_range_eq_some.mpr ⟨?_, List.mem_range.mpr hk, fun j hj => ?_⟩
    · rw [(h.slots k hk).addr addr haddr]
      exact decide_eq_true hnode
    · have hne := hfirst (Nat.not_lt.mp hlarge) j hj
      simpa using hne

/-- The answer to a packet resets the slot that it finds. -/
theorem wdogAnswer_eq (t : WdogTable) (source : IpxAddr) (connid : UInt8) (now : Nat) :
    wdogAnswer t source connid now =
      match answerSlot t source connid with
      | some k => modifyWdogConn t (k + 1) 0 now
      | none => t := by
  unfold wdogAnswer answerSlot
  by_cases hsmall : t.maxConnections < 256
  swap
  · rewrite [if_neg hsmall, if_neg hsmall]
    rfl
  rw [if_pos hsmall, if_pos hsmall]
  by_cases hconn : 0 < connid.toNat ∧ connid.toNat ≤ t.hiConn
  · have heq : (connid.toNat : Int) = ((connid.toNat - 1 : Nat) : Int) + 1 := by omega
    rw [if_pos hconn, heq]
  · rw [if_neg hconn, modifyWdogConn_reset, if_neg (by omega)]

end

/-- Only `send_wdogs` sends. -/
theorem handleWdogEvent_fst (t : WdogTable) (now : Nat) {e : WdogEvent}
    (hquiet : ∀ nets, e ≠ .sendWdogs nets) : (handleWdogEvent t now e).1 = [] := by
  unfold handleWdogEvent
  split
  next => rfl
  next =>
    split
    next => rfl
    next => split <;> rfl
  next => rfl
  next => split <;> rfl
  next nets => exact absurd rfl (hquiet nets)

/-- What an event that sends nothing does. -/
theorem step_quiet (s : WdogRun) (elapsed : Nat) {e : WdogEvent}
    (hquiet : ∀ nets, e ≠ .sendWdogs nets) :
    wdogMachine.step s (elapsed, e) = ([], ⟨(handleWdogEvent s.table (s.now + elapsed) e).2,
      fun k => (s.watched k).told s.table.maxConnections (k + 1) e, s.now + elapsed⟩) := by
  unfold wdogMachine
  dsimp only
  rw [handleWdogEvent_fst _ _ hquiet]
  rfl

section

variable {s : WdogRun}

/-- A reset or an activation. -/
theorem TableOk.wdogConn {now : Nat} (h : TableOk now s.table s.watched) (hnow : 0 < now)
    {conn what : Int}
    (hreset : what = 0 → ∀ k : Nat, conn = k + 1 → k < s.table.hiConn →
      (s.watched k).station.isSome)
    (hactivate : what = 1 → ∀ k : Nat, conn ≤ k → k < s.table.hiConn →
      (s.watched k).station.isSome ∧ (maxWdogTries < (s.table.connections k).counter →
        50 < now - (s.table.connections k).lastTime)) :
    TableOk now (handleWdogEvent s.table now (.wdogConn conn what)).2 fun k =>
      (s.watched k).told s.table.maxConnections (k + 1) (.wdogConn conn what) := by
  unfold handleWdogEvent Watched.told
  dsimp only
  split
  next hone =>
    simp only [hone, one_ne_zero, false_and, if_false]
    exact h.activate conn (hactivate hone)
  next =>
    split
    next hzero =>
      simp only [hzero, true_and]
      by_cases hconn : 0 < conn ∧ conn - 1 < s.table.hiConn
      · obtain ⟨j, rfl⟩ : ∃ j : Nat, conn = j + 1 := ⟨(conn - 1).toNat, by omega⟩
        refine h.reset hnow (hreset hzero j rfl (by omega)) (fun k hk => ?_) ⟨[], ?_⟩
        · exact if_neg (by omega)
        · exact if_pos rfl
      · rw [modifyWdogConn_reset, if_neg hconn]
        refine h.slotwise rfl (fun k hk hslot => ?_) fun k _ hnone => ?_
        · rw [if_neg (by omega)]
          exact hslot
        · split
          next => exact hnone
          next => exact hnone
    next hzero =>
      simp only [hzero, false_and, if_false]
      exact h

/-- An answer, or another packet. -/
theorem TableOk.wdogPacket {now : Nat} (h : TableOk now s.table s.watched) (hnow : 0 < now)
    {source : IpxAddr} {data : List UInt8}
    (hfits : ∀ connid, data = [connid, 0x59] →
      (∀ k, answerSlot s.table source connid = some k → (s.watched k).station.isSome) ∧
      (256 ≤ s.table.maxConnections → ∀ k, (s.watched k).answers (k + 1) source data = true →
        ∀ j < k, (s.table.connections j).addr.node ≠ source.node)) :
    TableOk now (handleWdogEvent s.table now (.wdogPacket source data)).2 (fun k =>
        (s.watched k).told s.table.maxConnections (k + 1) (.wdogPacket source data)) ∧
      ∀ k, (s.watched k).answers (k + 1) source data = true →
        ((handleWdogEvent s.table now (.wdogPacket source data)).2.connections k).counter = 0 := by
  unfold Watched.told
  dsimp only
  have hunanswered : (∀ k, ¬(s.watched k).answers (k + 1) source data = true) →
      (handleWdogEvent s.table now (.wdogPacket source data)).2 = s.table →
      TableOk now (handleWdogEvent s.table now (.wdogPacket source data)).2 (fun k =>
          if (s.watched k).answers (k + 1) source data = true then
            { s.watched k with probes := [] } else s.watched k) ∧
        ∀ k, (s.watched k).answers (k + 1) source data = true →
          ((handleWdogEvent s.table now (.wdogPacket source data)).2.connections k).counter = 0 := by
    intro hnone hsame
    rw [hsame]
    simp only [hnone]
    exact ⟨h, fun k hanswers => absurd hanswers Bool.false_ne_true⟩
  by_cases hdata : ∃ connid, data = [connid, 0x59]
  swap
  · refine hunanswered (fun k hanswers => hdata ⟨_, (Watched.answers_iff.mp hanswers).1⟩) ?_
    unfold handleWdogEvent
    dsimp only
    split
    next connid status =>
      exact if_neg fun hstatus => hdata ⟨connid, by rw [hstatus]⟩
    next => rfl
  obtain ⟨connid, rfl⟩ := hdata
  obtain ⟨hinserted, hfirst⟩ := hfits connid rfl
  have hslot : ∀ k, (s.watched k).answers (k + 1) source [connid, 0x59] = true →
      answerSlot s.table source connid = some k :=
    fun k hanswers => answerSlot_eq h hanswers fun hlarge => hfirst hlarge k hanswers
  have htable : (handleWdogEvent s.table now (.wdogPacket source [connid, 0x59])).2 =
      wdogAnswer s.table source connid now := by
    unfold handleWdogEvent
    dsimp only
    exact if_pos rfl
  rw [wdogAnswer_eq] at htable
  cases hfound : answerSlot s.table source connid with
  | none =>
      rw [hfound] at htable
      refine hunanswered (fun k hanswers => ?_) htable
      rw [hslot k hanswers] at hfound
      contradiction
  | some j =>
      rw [hfound] at htable
      dsimp only at htable
      have hj := hinserted j hfound
      have hthis : ∀ k, (s.watched k).answers (k + 1) source [connid, 0x59] = true → k = j :=
        fun k hanswers => Option.some.inj ((hslot k hanswers).symm.trans hfound)
      rw [htable]
      refine ⟨h.reset hnow hj (fun k hk => if_neg fun hanswers => hk (hthis k hanswers)) ?_,
        fun k hanswers => ?_⟩
      · split
        next => exact ⟨[], rfl⟩
        next => exact ⟨_, rfl⟩
      · rw [connections_reset (h.lt_hiConn hj), if_pos (hthis k hanswers)]

/-- Steps that fit keep the slots in order, and send only what may be sent. -/
theorem TableOk.step (h : TableOk s.now s.table s.watched) (hnow : 0 < s.now)
    {e : Nat × WdogEvent} (hfits : WdogFits s e) :
    WdogSound s e ∧ TableOk (s.now + e.1) (wdogMachine.step s e).2.table
      (wdogMachine.step s e).2.watched := by
  obtain ⟨elapsed, e⟩ := e
  have h := h.mono (Nat.le_add_right s.now elapsed)
  have hnow : 0 < s.now + elapsed := by omega
  cases e with
  | insertConn conn adr =>
      exact ⟨⟨fun o ho => (nomatch ho), fun k source data heq => (nomatch heq)⟩,
        h.insert hnow conn adr⟩
  | closeConn conn =>
      exact ⟨⟨fun o ho => (nomatch ho), fun k source data heq => (nomatch heq)⟩, h.close conn⟩
  | sendWdogs nets =>
      obtain ⟨hmay, hsent⟩ := h.send nets
      exact ⟨⟨hmay, fun k source data heq => (nomatch heq)⟩, hsent⟩
  | wdogConn conn what =>
      have hstep := step_quiet s elapsed (e := .wdogConn conn what) nofun
      refine ⟨⟨fun o ho => ?_, fun k source data heq => (nomatch heq)⟩, ?_⟩
      · rw [hstep] at ho
        contradiction
      · rw [hstep]
        exact h.wdogConn hnow hfits.1 hfits.2
  | wdogPacket source data =>
      have hstep := step_quiet s elapsed (e := .wdogPacket source data) nofun
      obtain ⟨htable, hanswer⟩ := h.wdogPacket hnow hfits
      refine ⟨⟨fun o ho => ?_, fun k source' data' heq hanswers => ?_⟩, ?_⟩
      · rw [hstep] at ho
        contradiction
      · rw [hstep]
        cases heq
        exact hanswer k hanswers
      · rw [hstep]
        exact htable

end

/-- In runs whose steps fit, the watchdog sends only what it may, and is reset by answers. -/
theorem watchdog_sound (maxConnections start : Nat) (hstart : 0 < start)
    (es : List (Nat × WdogEvent))
    (hfits : wdogMachine.Along WdogFits (wdogStart maxConnections start) es) :
    wdogMachine.Along WdogSound (wdogStart maxConnections start) es := by
  have hstep : ∀ s e, 0 < s.now ∧ TableOk s.now s.table s.watched → WdogFits s e →
      WdogSound s e ∧ 0 < (wdogMachine.step s e).2.now ∧ TableOk (wdogMachine.step s e).2.now
        (wdogMachine.step s e).2.table (wdogMachine.step s e).2.watched := by
    intro s e ⟨hnow, htable⟩ hfit
    obtain ⟨hsound, hnext⟩ := htable.step hnow hfit
    exact ⟨hsound, Nat.add_pos_left hnow e.1, hnext⟩
  have hempty : TableOk start (wdogStart maxConnections start).table
      (wdogStart maxConnections start).watched :=
    ⟨fun k hk => absurd hk (Nat.not_lt_zero k), fun _ _ => rfl⟩
  exact wdogMachine.along_of_invariant hstep ⟨hstart, hempty⟩ hfits

/-- A station. -/
def wdogStation : IpxAddr :=
  ⟨⟨[0, 0, 0, 1], rfl⟩, ⟨[0, 0, 0, 0, 0, 1], rfl⟩, ⟨[0x40, 0x03], rfl⟩⟩

/-- Watchdog packets are sent to all nets. -/
def everyNet : WdogNets := ⟨[], [], 0⟩

/-- A client that does not answer is cleared after the last of its packets. -/
theorem watchdog_sound_silent :
    wdogMachine.Along WdogSound (wdogStart 5 1000) [(0, .insertConn 1 wdogStation),
      (61, .sendWdogs everyNet), (1, .wdogPacket wdogStation [1, 0x59]),
      (1, .wdogConn 0 1), (0, .sendWdogs everyNet), (51, .sendWdogs everyNet),
      (51, .sendWdogs everyNet)] := by
  refine watchdog_sound 5 1000 (by decide) _
    ⟨trivial, trivial, fun connid hdata => ⟨fun k hk => ?_, fun hlarge => ?_⟩,
      ⟨fun hzero => ?_, fun _ k _ hk => ?_⟩, trivial, trivial, trivial, trivial⟩
  · obtain rfl : 1 = connid := (List.cons.inj hdata).1
    obtain rfl := Option.some.inj hk
    rfl
  · exact absurd hlarge (by decide)
  · exact absurd hzero (by decide)
  · obtain rfl : k = 0 := Nat.lt_one_iff.mp hk
    exact ⟨rfl, fun hmany => absurd hmany (by decide)⟩

/-- A reset of a connection that is not inserted has a packet sent for it; a connection
that is activated after its last packet is cleared at once; and an answer resets the first
connection of the node only. -/
theorem not_watchdog_sound :
    ¬wdogMachine.Along WdogSound (wdogStart 5 1000) [(0, .insertConn 2 wdogStation),
        (0, .wdogConn 1 0), (61, .sendWdogs everyNet)] ∧
      ¬wdogMachine.Along WdogSound (wdogStart 5 1000) [(0, .insertConn 1 wdogStation),
        (0, .wdogConn 0 1), (0, .sendWdogs everyNet), (51, .sendWdogs everyNet),
        (1, .wdogConn 0 1), (0, .sendWdogs everyNet)] ∧
      ¬wdogMachine.Along WdogSound (wdogStart 300 1000) [(0, .insertConn 1 wdogStation),
        (0, .insertConn 2 wdogStation), (61, .sendWdogs everyNet),
        (1, .wdogPacket wdogStation [2, 0x59])] := by
  refine ⟨fun h => ?_, fun h => ?_, fun h => ?_⟩
  · obtain ⟨k, addr, hk, hstation, -⟩ := h.2.2.1.out (.packet 1 _ _) (List.mem_cons_of_mem _ List.mem_cons_self)
    obtain rfl : k = 0 := Nat.succ.inj hk.symm
    contradiction
  · obtain ⟨k, hk, -, last, before, probes, hprobes, hlong⟩ :=
      h.2.2.2.2.2.1.out (.clear 1) List.mem_cons_self
    obtain rfl : k = 0 := Nat.succ.inj hk.symm
    obtain rfl : 1051 = last := (List.cons.inj hprobes).1
    exact absurd hlong (by decide)
  · have hcounter := h.2.2.2.1.answer 1 wdogStation [2, 0x59] rfl (by decide)
    exact absurd hcounter (by decide)

end MarsNwe
