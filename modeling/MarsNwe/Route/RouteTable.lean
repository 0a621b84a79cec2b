import MarsNwe.Lib.Machine
import MarsNwe.Route.Rip

/-! # The table of routes over runs of responses

The table keeps one route per net, the cheapest one offered, until its router
takes it back. The cost of a route is a sum that the table holds in 16 bits.
-/

namespace MarsNwe

/-! ## One response -/

theorem isSome_ndDev (devices : List NwNetDevice) (destnet : UInt32) :
    (ndDev devices destnet).isSome ↔ ∃ nd ∈ devices, nd.isUp ∧ nd.net = destnet := by
  have hfold : ∀ (devices : List NwNetDevice) (dev : Option NwNetDevice),
      (devices.foldl (fun dev nd => if nd.isUp ∧ nd.net = destnet then some nd else dev)
        dev).isSome ↔ dev.isSome ∨ ∃ nd ∈ devices, nd.isUp ∧ nd.net = destnet := by
    intro devices
    induction devices with
    | nil => simp
    | cons nd devices ih =>
        intro dev
        rw [List.foldl_cons, ih]
        by_cases hnd : nd.isUp ∧ nd.net = destnet
        · simp [hnd]
        · simp [hnd]
  unfold ndDev
  rw [hfold]
  simp

theorem toNat_ofInt (cost : Int) : ((UInt16.ofInt cost).toNat : Int) = cost % 65536 := by
  unfold UInt16.ofInt
  rw [UInt16.toNat_ofNat']
  omega

theorem le_ffff (x : UInt16) : x ≤ 0xffff := by
  have hlt := x.toNat_lt
  rw [UInt16.le_iff_toNat_le]
  change x.toNat ≤ 65535
  omega

/-- The slot `k` holds `new` and the others what they held. -/
def Places (routes : List NwRoute) (k : Nat) (new : NwRoute) (routes' : List NwRoute) : Prop :=
  ∀ i, routes'[i]? = if i = k then some new else routes[i]?

theorem places_set {routes : List NwRoute} {k : Nat} (hk : k < routes.length) (new : NwRoute) :
    Places routes k new (routes.set k new) := by
  intro i
  split
  next heq => rw [heq, List.getElem?_set_self hk]
  next hne => rw [List.getElem?_set_ne (Ne.symm hne)]

theorem Places.set {routes routes' : List NwRoute} {k : Nat} {nr : NwRoute}
    (h : Places routes k nr routes') (new : NwRoute) : Places routes k new (routes'.set k new) := by
  have hk : k < routes'.length := by
    have hget := h k
    rw [if_pos rfl] at hget
    exact (List.getElem?_eq_some_iff.mp hget).1
  intro i
  rw [places_set hk new i]
  split
  next => rfl
  next hne => rw [h i, if_neg hne]

theorem places_append (routes : List NwRoute) (new : NwRoute) :
    Places routes routes.length new (routes ++ [new]) := by
  intro i
  split
  next heq =>
    rw [heq, List.getElem?_append_right (Nat.le_refl _), Nat.sub_self]
    rfl
  next hne =>
    by_cases hlt : i < routes.length
    · rw [List.getElem?_append_left hlt]
    · rw [List.getElem?_eq_none (by rw [List.length_append, List.length_singleton]; omega),
        List.getElem?_eq_none (by omega)]

/-- What a response that offers a route does: nothing when the table has a better
one; else the route gets a slot, that of the old route to the net if there is one. -/
theorem offered_cases (nets : Nets) (routes : List NwRoute) {destnet : UInt32} (rnet : UInt32)
    (rnode : ByteBuf 6) (hops ticks : UInt16) (hzero : destnet ≠ 0)
    (hinternal : destnet ≠ nets.internalNet)
    (hdev : ¬∃ nd ∈ nets.netDevices, nd.isUp ∧ nd.net = destnet) :
    let sum := UInt16.ofInt (ticks.toNat + ndTicks nets.netDevices rnet)
    let r := insertDeleteNet nets routes destnet rnet rnode hops ticks false
    (r = ([], routes) ∧ ∃ (i : Nat) (nr : NwRoute), routes[i]? = some nr ∧ nr.net = destnet ∧
      (nr.ticks < sum ∨ nr.ticks = sum ∧ nr.hops < hops)) ∨
    ∃ k, r.1 = [.ipxRouteAdd destnet rnet rnode] ∧
      Places routes k ⟨destnet, hops, sum, rnet, rnode⟩ r.2 ∧
      (∀ nr : NwRoute, routes[k]? = some nr → nr.net = 0 ∨ nr.net = destnet ∧ sum ≤ nr.ticks ∧
        ¬(sum = nr.ticks ∧ nr.hops < hops)) ∧
      ((∀ (i : Nat) (nr : NwRoute), routes[i]? = some nr → nr.net ≠ destnet) ∨
        ∃ nr : NwRoute, routes[k]? = some nr ∧ nr.net = destnet) := by
  have hdev' : (ndDev nets.netDevices destnet).isSome = false := by
    rw [Bool.eq_false_iff]
    exact fun hsome => hdev ((isSome_ndDev _ _).mp hsome)
  dsimp only
  generalize hsum : UInt16.ofInt (ticks.toNat + ndTicks nets.netDevices rnet) = sum
  unfold insertDeleteNet
  rw [if_neg (by simp [hzero, hinternal])]
  simp only [hdev', Bool.and_false, Bool.false_eq_true, if_false, hsum]
  cases hfind : routes.findIdx? fun nr => nr.net = destnet with
  | some k =>
      obtain ⟨hlt, hnet, -⟩ := List.findIdx?_eq_some_iff_getElem.mp hfind
      have hnet : routes[k].net = destnet := by simpa using hnet
      have hget : routes[k]? = some routes[k] := List.getElem?_eq_getElem hlt
      simp only [hget]
      unfold offerRoute
      split
      next hle =>
        split
        next hhops => exact .inl ⟨rfl, k, routes[k], hget, hnet, .inr ⟨hhops.1.symm, hhops.2⟩⟩
        next hhops =>
          rw [hnet]
          refine .inr ⟨k, rfl, places_set hlt _, fun nr hnr => ?_, .inr ⟨routes[k], hget, hnet⟩⟩
          rw [← Option.some.inj (hget.symm.trans hnr)]
          exact .inr ⟨hnet, hle, hhops⟩
      next hgt =>
        exact .inl ⟨rfl, k, routes[k], hget, hnet, .inl (UInt16.not_le.mp hgt)⟩
  | none =>
      have hnone : ∀ (i : Nat) (nr : NwRoute), routes[i]? = some nr → nr.net ≠ destnet := by
        intro i nr hnr
        have hne := List.findIdx?_eq_none_iff.mp hfind nr (List.mem_of_getElem? hnr)
        simpa using hne
      -- the new route is offered against one of the highest cost
      have hoffer : ∀ (routes : List NwRoute) k,
          offerRoute routes k ⟨destnet, 0xffff, 0xffff, 0, .zero 6⟩ rnet rnode hops sum =
            ([.ipxRouteAdd destnet rnet rnode], routes.set k ⟨destnet, hops, sum, rnet, rnode⟩) := by
        intro routes k
        unfold offerRoute
        rw [if_pos (le_ffff sum), if_neg fun hcond => UInt16.not_lt.mpr (le_ffff hops) hcond.2]
      apply Or.inr
      dsimp only
      cases hfree : routes.findIdx? fun nr => nr.net = 0 with
      | some freeslot =>
          obtain ⟨hlt, hnet, -⟩ := List.findIdx?_eq_some_iff_getElem.mp hfree
          have hget : routes[freeslot]? = some routes[freeslot] := List.getElem?_eq_getElem hlt
          simp only [hoffer]
          refine ⟨freeslot, trivial, (places_set hlt _).set _, fun nr hnr => ?_, .inl hnone⟩
          rw [← Option.some.inj (hget.symm.trans hnr)]
          exact .inl (by simpa using hnet)
      | none =>
          simp only [hoffer]
          refine ⟨routes.length, trivial, (places_append routes _).set _, fun nr hnr => ?_, .inl hnone⟩
          rw [List.getElem?_eq_none (Nat.le_refl _)] at hnr
          contradiction

/-- What a response that takes a net back does: the route to it is deleted when the
response comes from its router. -/
theorem deleted_cases (nets : Nets) (routes : List NwRoute) (destnet rnet : UInt32)
    (rnode : ByteBuf 6) (hops ticks : UInt16) :
    let r := insertDeleteNet nets routes destnet rnet rnode hops ticks true
    r = ([], routes) ∨
    ∃ (k : Nat) (nr : NwRoute), routes[k]? = some nr ∧ nr.net = destnet ∧ nr.rnet = rnet ∧
      nr.rnode = rnode ∧ (∀ net rnode', .ipxRouteAdd net rnet rnode' ∉ r.1) ∧
      Places routes k { nr with net := 0 } r.2 := by
  dsimp only
  unfold insertDeleteNet
  split
  next => exact .inl rfl
  next =>
  simp only [Bool.not_true, Bool.false_and, Bool.false_eq_true, if_false, if_true]
  cases hfind : routes.findIdx? fun nr => nr.net = destnet with
  | none => exact .inl rfl
  | some k =>
      obtain ⟨hlt, hnet, -⟩ := List.findIdx?_eq_some_iff_getElem.mp hfind
      have hget : routes[k]? = some routes[k] := List.getElem?_eq_getElem hlt
      simp only [hget]
      split
      next hrouter =>
        refine .inr ⟨k, routes[k], hget, by simpa using hnet, hrouter.1, hrouter.2, ?_,
          places_set hlt _⟩
        intro net rnode' hmem
        unfold deleteCalls at hmem
        split at hmem <;> simp at hmem
      next => exact .inl rfl

/-! ## Runs of responses -/

/-- An entry of a response with the router that sent it. -/
structure RouteEvent where
  rnet : UInt32
  rnode : ByteBuf 6
  entry : RipEntry

/-- The entries of response packets, in the order in which they are handled. -/
def routeEvents (packets : List (IpxAddr × List RipEntry)) : List RouteEvent :=
  packets.flatMap fun p => p.2.map fun e => ⟨getBE32 p.1.net, p.1.node, e⟩

/-- The table, and which response installed the route to a net last. -/
structure TrackedRoutes where
  routes : List NwRoute
  installer : UInt32 → Option RouteEvent

/-- Each entry of a response is handled by `insert_delete_net`; more than 15 hops
take a net back. A route is installed when the host is told so. -/
def routeMachine (nets : Nets) : Machine TrackedRoutes RouteEvent (List RouteCall) where
  step s e :=
    let (calls, routes) := insertDeleteNet nets s.routes e.entry.net e.rnet e.rnode
      e.entry.hops e.entry.ticks (15 < e.entry.hops)
    (calls, ⟨routes, fun net =>
      if RouteCall.ipxRouteAdd net e.rnet e.rnode ∈ calls then some e else s.installer net⟩)

/-- No routes. -/
def TrackedRoutes.init : TrackedRoutes := ⟨[], fun _ => none⟩

/-- `handle_rip` on response packets, one after the other. -/
def handleResponses (nets : Nets) (s : RipState) (packets : List (IpxAddr × List RipEntry)) :
    RipState :=
  packets.foldl (fun s p => (handleRip nets s 2 p.2 p.1).2.2) s

theorem handleResponse_eq (nets : Nets) (fromAddr : IpxAddr) (s : TrackedRoutes)
    (entries : List RipEntry) :
    (handleResponse nets fromAddr s.routes entries).2 = ((routeMachine nets).exec s
      (entries.map fun e => ⟨getBE32 fromAddr.net, fromAddr.node, e⟩)).routes := by
  induction entries generalizing s with
  | nil => rfl
  | cons e entries ih =>
      have hstep := ih ((routeMachine nets).step s ⟨getBE32 fromAddr.net, fromAddr.node, e⟩).2
      rw [List.map_cons, Machine.exec_cons, ← hstep]
      rfl

/-- The table of `handle_rip` is that of the entries handled one by one. -/
theorem handleResponses_eq (nets : Nets) (s : RipState) (t : TrackedRoutes)
    (hroutes : t.routes = s.nwRoutes) (packets : List (IpxAddr × List RipEntry)) :
    (handleResponses nets s packets).nwRoutes =
      ((routeMachine nets).exec t (routeEvents packets)).routes := by
  induction packets generalizing s t with
  | nil => exact hroutes.symm
  | cons p packets ih =>
      have hstep : ((routeMachine nets).exec t
          (p.2.map fun e => ⟨getBE32 p.1.net, p.1.node, e⟩)).routes =
          (handleRip nets s 2 p.2 p.1).2.2.nwRoutes := by
        rw [← handleResponse_eq, hroutes]
        rfl
      have htail := ih _ _ hstep
      rw [← Machine.exec_append] at htail
      exact htail

/-- The cost of a route, as an integer: the ticks told and those of the device. -/
def RouteEvent.cost (nets : Nets) (e : RouteEvent) : Int :=
  e.entry.ticks.toNat + ndTicks nets.netDevices e.rnet

/-- The law of the table. -/
structure RouteLaw (nets : Nets) (s : TrackedRoutes) : Prop where
  /-- A route is as the response told it that installed it, and has its exact cost. -/
  installed : ∀ (i : Nat) (nr : NwRoute), s.routes[i]? = some nr → nr.net ≠ 0 →
    ∃ e, s.installer nr.net = some e ∧ nr.hops = e.entry.hops ∧ nr.rnet = e.rnet ∧
      nr.rnode = e.rnode ∧ (nr.ticks.toNat : Int) = e.cost nets
  /-- No net has two routes. -/
  unique : ∀ (i j : Nat) (nr nr' : NwRoute), s.routes[i]? = some nr → s.routes[j]? = some nr' →
    nr.net ≠ 0 → nr.net = nr'.net → i = j
  /-- No route leads to the internal net or to a net of a device. -/
  foreign : ∀ (i : Nat) (nr : NwRoute), s.routes[i]? = some nr → nr.net ≠ 0 →
    nr.net ≠ nets.internalNet ∧ ¬∃ nd ∈ nets.netDevices, nd.isUp ∧ nd.net = nr.net

/-- The law of a step: no route is replaced by one of a higher cost, and only its
router takes a route back. -/
structure RouteStepLaw (nets : Nets) (s : TrackedRoutes) (e : RouteEvent) : Prop where
  cheaper : ∀ (i : Nat) (nr : NwRoute) (old new : RouteEvent), s.routes[i]? = some nr →
    nr.net ≠ 0 → s.installer nr.net = some old →
    ((routeMachine nets).step s e).2.installer nr.net = some new → new.cost nets ≤ old.cost nets
  removed : ∀ (i : Nat) (nr : NwRoute), s.routes[i]? = some nr → nr.net ≠ 0 →
    (∀ (j : Nat) (nr' : NwRoute), ((routeMachine nets).step s e).2.routes[j]? = some nr' →
      nr'.net ≠ nr.net) →
    15 < e.entry.hops ∧ e.entry.net = nr.net ∧
      ∃ old, s.installer nr.net = some old ∧ old.rnet = e.rnet ∧ old.rnode = e.rnode

/-- The condition: the cost of a route that is offered fits in 16 bits, unless the
table has a route to the net that is better than the cost modulo 65536. -/
def CostFits (nets : Nets) (s : TrackedRoutes) (e : RouteEvent) : Prop :=
  e.entry.hops ≤ 15 → e.entry.net ≠ 0 → e.entry.net ≠ nets.internalNet →
    (¬∃ nd ∈ nets.netDevices, nd.isUp ∧ nd.net = e.entry.net) →
    0 ≤ e.cost nets ∧ e.cost nets ≤ 65535 ∨
      ∃ (i : Nat) (nr : NwRoute), s.routes[i]? = some nr ∧ nr.net = e.entry.net ∧
        ((nr.ticks.toNat : Int) < e.cost nets % 65536 ∨
          (nr.ticks.toNat : Int) = e.cost nets % 65536 ∧ nr.hops < e.entry.hops)

theorem RouteLaw.init (nets : Nets) : RouteLaw nets .init := by
  constructor <;> simp [TrackedRoutes.init]

/-- The law is kept when nothing happens. -/
theorem RouteLaw.ignored {nets : Nets} {s : TrackedRoutes} (h : RouteLaw nets s) {e : RouteEvent}
    (hsame : ((routeMachine nets).step s e).2 = s) :
    RouteLaw nets ((routeMachine nets).step s e).2 ∧ RouteStepLaw nets s e := by
  refine ⟨by rwa [hsame], fun i nr old new _ _ hold hnew => ?_, fun i nr hget _ hgone => ?_⟩
  · rw [hsame, hold] at hnew
    rw [Option.some.inj hnew]
  · rw [hsame] at hgone
    exact absurd rfl (hgone i nr hget)

section Installed

variable {nets : Nets} {s : TrackedRoutes} {e : RouteEvent} {k : Nat} {sum : UInt16}

/-- The route of a response stands in the slot `k`. -/
structure InstalledAt (nets : Nets) (s : TrackedRoutes) (e : RouteEvent) (k : Nat)
    (sum : UInt16) : Prop where
  places : Places s.routes k ⟨e.entry.net, e.entry.hops, sum, e.rnet, e.rnode⟩
    ((routeMachine nets).step s e).2.routes
  installer : ∀ net, ((routeMachine nets).step s e).2.installer net =
    if net = e.entry.net then some e else s.installer net
  slot : ∀ nr : NwRoute, s.routes[k]? = some nr →
    nr.net = 0 ∨ nr.net = e.entry.net ∧ sum ≤ nr.ticks ∧
      ¬(sum = nr.ticks ∧ nr.hops < e.entry.hops)
  old : (∀ (i : Nat) (nr : NwRoute), s.routes[i]? = some nr → nr.net ≠ e.entry.net) ∨
    ∃ nr : NwRoute, s.routes[k]? = some nr ∧ nr.net = e.entry.net

/-- No other slot has a route to the net. -/
theorem InstalledAt.other (hin : InstalledAt nets s e k sum) (h : RouteLaw nets s)
    (hzero : e.entry.net ≠ 0) {i : Nat} {nr : NwRoute} (hget : s.routes[i]? = some nr)
    (hik : i ≠ k) : nr.net ≠ e.entry.net := by
  rcases hin.old with hnone | ⟨nr₀, hslot, hnet⟩
  · exact hnone i nr hget
  · intro heq
    exact hik (h.unique i k nr nr₀ hget hslot (heq ▸ hzero) (heq.trans hnet.symm))

theorem InstalledAt.law (hin : InstalledAt nets s e k sum) (h : RouteLaw nets s)
    (hzero : e.entry.net ≠ 0) (hinternal : e.entry.net ≠ nets.internalNet)
    (hdev : ¬∃ nd ∈ nets.netDevices, nd.isUp ∧ nd.net = e.entry.net)
    (hsum : (sum.toNat : Int) = e.cost nets) :
    RouteLaw nets ((routeMachine nets).step s e).2 where
  installed i nr hget hlive := by
    rw [hin.places i] at hget
    split at hget
    next hik =>
      obtain rfl := Option.some.inj hget
      exact ⟨e, by rw [hin.installer, if_pos rfl], rfl, rfl, rfl, hsum⟩
    next hik =>
      rw [hin.installer, if_neg (hin.other h hzero hget hik)]
      exact h.installed i nr hget hlive
  unique i j nr nr' hi hj hlive heq := by
    rw [hin.places] at hi hj
    split at hi <;> split at hj
    next hik hjk => rw [hik, hjk]
    next hik hjk =>
      obtain rfl := Option.some.inj hi
      exact absurd heq.symm (hin.other h hzero hj hjk)
    next hik hjk =>
      obtain rfl := Option.some.inj hj
      exact absurd heq (hin.other h hzero hi hik)
    next => exact h.unique i j nr nr' hi hj hlive heq
  foreign i nr hget hlive := by
    rw [hin.places i] at hget
    split at hget
    next hik =>
      obtain rfl := Option.some.inj hget
      exact ⟨hinternal, hdev⟩
    next hik => exact h.foreign i nr hget hlive

theorem InstalledAt.stepLaw (hin : InstalledAt nets s e k sum) (h : RouteLaw nets s)
    (hzero : e.entry.net ≠ 0) (hsum : (sum.toNat : Int) = e.cost nets) :
    RouteStepLaw nets s e where
  cheaper i nr old new hget hlive hold hnew := by
    rw [hin.installer] at hnew
    split at hnew
    next hnet =>
      -- the old route stood in the slot, and its ticks are its cost
      obtain rfl := Option.some.inj hnew
      have hik : i = k := by
        by_contra hik
        exact hin.other h hzero hget hik hnet
      rw [hik] at hget
      obtain ⟨e₀, hinstaller, _, _, _, hexact⟩ := h.installed k nr hget hlive
      obtain rfl := Option.some.inj (hold.symm.trans hinstaller)
      rcases hin.slot nr hget with hfree | ⟨-, hle, -⟩
      · exact absurd hfree hlive
      · have hle := UInt16.le_iff_toNat_le.mp hle
        omega
    next =>
      rw [hold] at hnew
      rw [Option.some.inj hnew]
  removed i nr hget hlive hgone := by
    have hstays := hgone i
    rw [hin.places i] at hstays
    split at hstays
    next hik =>
      rcases hin.slot nr (hik ▸ hget) with hfree | ⟨hnet, -⟩
      · exact absurd hfree hlive
      · exact absurd hnet.symm (hstays _ rfl)
    next => exact absurd rfl (hstays nr hget)

/-- A route whose ticks are not its cost breaks the law. -/
theorem InstalledAt.not_law (hin : InstalledAt nets s e k sum) (hzero : e.entry.net ≠ 0)
    (hsum : (sum.toNat : Int) ≠ e.cost nets) :
    ¬RouteLaw nets ((routeMachine nets).step s e).2 := by
  intro hlaw
  have hget := hin.places k
  rw [if_pos rfl] at hget
  obtain ⟨e₀, hinstaller, _, _, _, hexact⟩ := hlaw.installed k _ hget hzero
  rw [hin.installer, if_pos rfl] at hinstaller
  obtain rfl := Option.some.inj hinstaller
  exact hsum hexact

end Installed

/-- The law is kept when the router of a route takes it back. -/
theorem RouteLaw.deleted {nets : Nets} {s : TrackedRoutes} (h : RouteLaw nets s) {e : RouteEvent}
    (hhops : 15 < e.entry.hops) {k : Nat} {nr₀ : NwRoute} (hslot : s.routes[k]? = some nr₀)
    (hnet : nr₀.net = e.entry.net) (hrnet : nr₀.rnet = e.rnet) (hrnode : nr₀.rnode = e.rnode)
    (hplaces : Places s.routes k { nr₀ with net := 0 } ((routeMachine nets).step s e).2.routes)
    (hinstaller : ((routeMachine nets).step s e).2.installer = s.installer) :
    RouteLaw nets ((routeMachine nets).step s e).2 ∧ RouteStepLaw nets s e := by
  have hkeep : ∀ (i : Nat) (nr : NwRoute), ((routeMachine nets).step s e).2.routes[i]? = some nr →
      nr.net ≠ 0 → s.routes[i]? = some nr := by
    intro i nr hget hlive
    rw [hplaces i] at hget
    split at hget
    · obtain rfl := Option.some.inj hget
      exact absurd rfl hlive
    · exact hget
  refine ⟨⟨fun i nr hget hlive => ?_, fun i j nr nr' hi hj hlive heq => ?_,
    fun i nr hget hlive => ?_⟩, fun i nr old new _ _ hold hnew => ?_,
    fun i nr hget hlive hgone => ?_⟩
  · rw [hinstaller]
    exact h.installed i nr (hkeep i nr hget hlive) hlive
  · exact h.unique i j nr nr' (hkeep i nr hi hlive) (hkeep j nr' hj (heq ▸ hlive)) hlive heq
  · exact h.foreign i nr (hkeep i nr hget hlive) hlive
  · rw [hinstaller, hold] at hnew
    rw [Option.some.inj hnew]
  · have hik : i = k := by
      by_contra hik
      have hstays := hgone i nr
      rw [hplaces i, if_neg hik] at hstays
      exact hstays hget rfl
    rw [hik] at hget
    obtain rfl := Option.some.inj (hslot.symm.trans hget)
    obtain ⟨e₀, hby, _, hby_rnet, hby_rnode, _⟩ := h.installed k nr₀ hslot hlive
    exact ⟨hhops, hnet.symm, e₀, hby, hby_rnet.symm.trans hrnet, hby_rnode.symm.trans hrnode⟩

/-- What a step does to the law, by the condition. -/
theorem routeMachine_step {nets : Nets} {s : TrackedRoutes} (h : RouteLaw nets s) (e : RouteEvent) :
    (RouteLaw nets ((routeMachine nets).step s e).2 ∧ RouteStepLaw nets s e) ∧ CostFits nets s e ∨
      ¬RouteLaw nets ((routeMachine nets).step s e).2 ∧ ¬CostFits nets s e := by
  have hignored : ∀ {del : Bool}, decide (15 < e.entry.hops) = del →
      insertDeleteNet nets s.routes e.entry.net e.rnet e.rnode e.entry.hops e.entry.ticks del =
        ([], s.routes) → ((routeMachine nets).step s e).2 = s := by
    intro del hdel hnone
    simp only [routeMachine, hdel, hnone, List.not_mem_nil, if_false]
  by_cases hhops : 15 < e.entry.hops
  · have hdel : decide (15 < e.entry.hops) = true := decide_eq_true hhops
    have hfits : CostFits nets s e := fun hle => absurd hhops (UInt16.not_lt.mpr hle)
    rcases deleted_cases nets s.routes e.entry.net e.rnet e.rnode e.entry.hops e.entry.ticks with
      hnone | ⟨k, nr, hslot, hnet, hrnet, hrnode, hcalls, hplaces⟩
    · exact .inl ⟨h.ignored (hignored hdel hnone), hfits⟩
    · refine .inl ⟨h.deleted hhops hslot hnet hrnet hrnode ?_ ?_, hfits⟩
      · simp only [routeMachine, hdel]
        exact hplaces
      · funext net
        simp only [routeMachine, hdel]
        rw [if_neg (hcalls net e.rnode)]
  · have hdel : decide (15 < e.entry.hops) = false := decide_eq_false hhops
    have hvacuous : ¬(e.entry.net ≠ 0 ∧ e.entry.net ≠ nets.internalNet ∧
        ¬∃ nd ∈ nets.netDevices, nd.isUp ∧ nd.net = e.entry.net) → CostFits nets s e :=
      fun hnot _ hzero hinternal hdev => absurd ⟨hzero, hinternal, hdev⟩ hnot
    by_cases hnet : e.entry.net ≠ 0 ∧ e.entry.net ≠ nets.internalNet
    · by_cases hdev : ∃ nd ∈ nets.netDevices, nd.isUp ∧ nd.net = e.entry.net
      · refine .inl ⟨h.ignored (hignored hdel ?_), hvacuous fun hcond => hcond.2.2 hdev⟩
        unfold insertDeleteNet
        rw [if_neg (by simp [hnet.1, hnet.2])]
        simp [(isSome_ndDev _ _).mpr hdev]
      · have hmod := toNat_ofInt (e.cost nets)
        rcases offered_cases nets s.routes e.rnet e.rnode e.entry.hops e.entry.ticks hnet.1 hnet.2
          hdev with ⟨hnone, i, nr, hget, hto, hbetter⟩ | ⟨k, hcalls, hplaces, hslot, hold⟩
        · refine .inl ⟨h.ignored (hignored hdel hnone), fun _ _ _ _ => .inr ⟨i, nr, hget, hto, ?_⟩⟩
          rw [← hmod]
          rcases hbetter with hlt | ⟨heq, hless⟩
          · exact .inl (Int.ofNat_lt.mpr (UInt16.lt_iff_toNat_lt.mp hlt))
          · exact .inr ⟨congrArg (fun t : UInt16 => (t.toNat : Int)) heq, hless⟩
        · have hin : InstalledAt nets s e k (UInt16.ofInt (e.cost nets)) := by
            refine ⟨?_, fun net => ?_, hslot, hold⟩
            · simp only [routeMachine, hdel]
              exact hplaces
            · simp only [routeMachine, hdel, hcalls, List.mem_singleton, RouteCall.ipxRouteAdd.injEq,
                and_true]
          by_cases hcost : 0 ≤ e.cost nets ∧ e.cost nets ≤ 65535
          · have hsum : ((UInt16.ofInt (e.cost nets)).toNat : Int) = e.cost nets := by omega
            exact .inl ⟨⟨hin.law h hnet.1 hnet.2 hdev hsum, hin.stepLaw h hnet.1 hsum⟩,
              fun _ _ _ _ => .inl hcost⟩
          · refine .inr ⟨hin.not_law hnet.1 (by omega), fun hfits => ?_⟩
            rcases hfits (UInt16.not_lt.mp hhops) hnet.1 hnet.2 hdev with
              hrange | ⟨i, nr, hget, hto, hbetter⟩
            · exact hcost hrange
            · have hik : i = k := by
                by_contra hik
                exact hin.other h hnet.1 hget hik hto
              rcases hslot nr (hik ▸ hget) with hfree | ⟨-, hle, hnot⟩
              · exact hnet.1 (hto.symm.trans hfree)
              · have hle := UInt16.le_iff_toNat_le.mp hle
                change (UInt16.ofInt (e.cost nets)).toNat ≤ nr.ticks.toNat at hle
                rcases hbetter with hlt | ⟨heq, hless⟩
                · omega
                · refine hnot ⟨?_, hless⟩
                  apply UInt16.toNat_inj.mp
                  change (UInt16.ofInt (e.cost nets)).toNat = nr.ticks.toNat
                  omega
    · refine .inl ⟨h.ignored (hignored hdel ?_), hvacuous fun hcond => hnet ⟨hcond.1, hcond.2.1⟩⟩
      unfold insertDeleteNet
      have hown : e.entry.net = 0 ∨ e.entry.net = nets.internalNet := by
        by_contra hneither
        exact hnet (not_or.mp hneither)
      rw [if_pos hown]

/-- The law of the table holds after every response, and that of the step for it,
just when every cost that counts fits in 16 bits. The table is the one of `handle_rip`. -/
theorem routes_lawful_iff (nets : Nets) (packets : List (IpxAddr × List RipEntry)) :
    ((routeMachine nets).Along (fun s e =>
        RouteLaw nets ((routeMachine nets).step s e).2 ∧ RouteStepLaw nets s e)
        .init (routeEvents packets) ↔
      (routeMachine nets).Along (CostFits nets) .init (routeEvents packets)) ∧
    ∀ b, (handleResponses nets ⟨[], b⟩ packets).nwRoutes =
      ((routeMachine nets).exec .init (routeEvents packets)).routes := by
  refine ⟨?_, fun b => handleResponses_eq nets ⟨[], b⟩ .init rfl packets⟩
  have hstep : ∀ s e, RouteLaw nets s →
      RouteLaw nets ((routeMachine nets).step s e).2 ∧ RouteStepLaw nets s e →
      RouteLaw nets ((routeMachine nets).step s e).2 := fun s e _ hlaw => hlaw.1
  apply (routeMachine nets).along_iff hstep _ _ (RouteLaw.init nets)
  intro s e h
  rcases routeMachine_step h e with ⟨hlaw, hfits⟩ | ⟨hbroken, hwraps⟩
  · exact iff_of_true hlaw hfits
  · exact iff_of_false (fun hlaw => hbroken hlaw.1) hwraps

/-- A route of 65535 ticks over a device of one tick is stored with none. -/
theorem routes_unlawful :
    ¬∀ nets packets, (routeMachine nets).Along (fun s e =>
        RouteLaw nets ((routeMachine nets).step s e).2 ∧ RouteStepLaw nets s e)
        .init (routeEvents packets) := by
  intro h
  obtain ⟨⟨hlaw, -⟩, -⟩ := h ⟨2, [⟨[], 0, 1, 1, true⟩]⟩
    [(⟨u32ToBE32 1, .zero 6, sockRip⟩, [⟨10, 1, 0xffff⟩])]
  obtain ⟨e, -, -, hrnet, -, hexact⟩ :=
    hlaw.installed 0 ⟨10, 1, 0, 1, .zero 6⟩ (by decide) (by decide)
  have hticks : ndTicks [⟨[], 0, 1, 1, true⟩] e.rnet = 1 := by
    rw [← hrnet]
    decide
  unfold RouteEvent.cost at hexact
  rw [hticks] at hexact
  change (0 : Int) = _ at hexact
  omega

end MarsNwe
