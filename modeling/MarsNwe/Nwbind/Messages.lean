import MarsNwe.Lib.Balance
import MarsNwe.Tools

/-! # Messages to the users

nwbind holds one message for each connection. A user sends his to a list of connections
and is told for each of them whether it was taken; what a client fetches is gone then.
-/

namespace MarsNwe.Messages

/-! ## The code -/

/-- `CONNECTION`, as far as messages go. -/
structure Mailbox where
  active : Bool
  objectId : UInt32
  message : CText 59
deriving DecidableEq

def noMessage : CText 59 := ⟨[], by decide, List.not_mem_nil⟩

/-- Bytes of a request. -/
def bytesAt (rdata : Nat → UInt8) (i n : Nat) : List UInt8 :=
  (List.range n).map fun j => rdata (i + j)

/-- The numbers of the connections that a message is for. -/
def connsOf (rdata : Nat → UInt8) : List UInt8 := bytesAt rdata 1 (rdata 0).toNat

/-- What `strmaxcpy(message, msg, min(58, msglen))` leaves. -/
def textOf (rdata : Nat → UInt8) : CText 59 :=
  let count := (rdata 0).toNat
  let msglen := (rdata (count + 1)).toNat
  ⟨CText.visible (bytesAt rdata (count + 2) (min 58 msglen)), by
    have hlen := (List.takeWhile_prefix (· ≠ (0 : UInt8))
      (l := bytesAt rdata (count + 2) (min 58 msglen))).length_le
    unfold CText.visible
    simp only [bytesAt, List.length_map, List.length_range] at hlen ⊢
    omega, CText.noNul_visible _⟩

/-- A message is put, whatever was there. -/
def put (k : Nat) (msg : CText 59) (s : List Mailbox) : List Mailbox :=
  s.modify k fun c => { c with message := msg }

/-- `open_clear_connection` -/
def openClearConnection (conn : Nat) (activate : Bool) (s : List Mailbox) : List Mailbox :=
  if conn = 0 then s else s.set (conn - 1) ⟨activate, 0, noMessage⟩

/-- A number in the list of a message: the result for it. -/
def sendTo (msg : CText 59) (connr : UInt8) (s : List Mailbox) : UInt8 × List Mailbox :=
  if connr = 0 then (0xff, s)
  else
    match s[connr.toNat - 1]? with
    | none => (0xff, s)
    | some cn =>
        if cn.active then
          if cn.message.bytes = [] then (0, put (connr.toNat - 1) msg s) else (0xfc, s)
        else (0xff, s)

/-- The loop over the list: the results. -/
def sendLoop (msg : CText 59) : List UInt8 → List Mailbox → List UInt8 × List Mailbox
  | [], s => ([], s)
  | connr :: conns, s =>
      let out := sendTo msg connr s
      let rest := sendLoop msg conns out.2
      (out.1 :: rest.1, rest.2)

/-- A number in the list of a console broadcast. -/
def consoleTo (act : Nat) (msg : CText 59) (s : List Mailbox) (conn : UInt8) : List Mailbox :=
  if conn.toNat = act + 1 then put act msg s
  else if conn = 0 then s
  else
    match s[conn.toNat - 1]? with
    | none => s
    | some cc => if cc.objectId ≠ 0 then put (conn.toNat - 1) msg s else s

def killedText : CText 59 :=
  ⟨asciiBytes "MARS_NWE has killed your connection".toList, by decide, by decide⟩

def dieingText : CText 59 := ⟨asciiBytes "MARS_NWE IS DIEING".toList, by decide, by decide⟩

/-- `sent_down_message` -/
def sentDownMessage (s : List Mailbox) : List Mailbox :=
  s.map fun cn => if cn.active then { cn with message := dieingText } else cn

/-- What comes in, a request with the place of its connection. `other` is any request that
leaves messages and users alone. -/
inductive Event
  | openClear (conn : Nat) (activate : Bool)
  | login (act : Nat) (objectId : UInt32)
  | logout (act : Nat)
  | sendMessage (act : Nat) (rdata : Nat → UInt8)
  | getMessage (act : Nat)
  | consoleBroadcast (act : Nat) (rdata : Nat → UInt8)
  | clearConnection (act : Nat) (number : UInt8)
  | other (act : Nat)
  | goesDown

/-- A reply, with its data if they are about messages. -/
structure Reply where
  completition : UInt8
  connectStatus : UInt8
  data : List UInt8
deriving DecidableEq

/-- A reply, and the connections that nwserv is asked to inform by `nwserv_handle_msg`. -/
structure Answer where
  reply : Option Reply
  informed : List Nat
deriving DecidableEq

/-- The end of `handle_fxx`. -/
def respond (act : Nat) (completition connectStatus : UInt8) (data : List UInt8)
    (informed : List Nat) (s : List Mailbox) : Answer × List Mailbox :=
  let holds := s[act]?.any fun c => c.message.bytes ≠ []
  (⟨some ⟨completition, if holds then connectStatus ||| 0x40 else connectStatus, data⟩,
    informed⟩, s)

/-- The connections of a message that were found. -/
def foundConns (conns results : List UInt8) : List Nat :=
  (conns.zip results).filterMap fun x => if x.2 ≠ 0xff then some x.1.toNat else none

/-- The connections besides its own that a console broadcast is for. -/
def loggedConns (act : Nat) (conns : List UInt8) (s : List Mailbox) : List Nat :=
  conns.filterMap fun conn =>
    if conn.toNat ≠ act + 1 ∧ conn ≠ 0 ∧ s[conn.toNat - 1]?.any (fun cc => cc.objectId ≠ 0) then
      some conn.toNat
    else none

/-- The cases of `handle_fxx` with messages, for an active connection `c`. -/
def request (act : Nat) (c : Mailbox) (s : List Mailbox) : Event → Answer × List Mailbox
  | .login _ objectId => respond act 0 0 [] [] (s.set act { c with objectId := objectId })
  | .logout _ => respond act 0 0 [] [] (s.set act { c with objectId := 0 })
  | .sendMessage _ rdata =>
      let out := sendLoop (textOf rdata) (connsOf rdata) s
      let found := foundConns (connsOf rdata) out.1
      if found ≠ [] then respond act 0 0 (rdata 0 :: out.1) found out.2
      else respond act 0xff 0 [] [] out.2
  | .getMessage _ =>
      let text := c.message.bytes.take 58
      respond act 0 0 (UInt8.ofNat text.length :: text) [] (put act noMessage s)
  | .consoleBroadcast _ rdata =>
      if connsOf rdata = [] then respond act 0 0x40 [] [] (put act (textOf rdata) s)
      else
        respond act 0 (if ∃ conn ∈ connsOf rdata, conn.toNat = act + 1 then 0x40 else 0) []
          (loggedConns act (connsOf rdata) s)
          ((connsOf rdata).foldl (consoleTo act (textOf rdata)) s)
  | .clearConnection _ number =>
      let conxnumber := (number - 1).toNat
      if s[conxnumber]?.any Mailbox.active then
        respond act 0 0 [] [conxnumber + 1] (put conxnumber killedText s)
      else respond act 0 0 [] [] s
  | _ => respond act 0 0 [] [] s

/-- The connection of a request. -/
def Event.act? : Event → Option Nat
  | .login act _ | .logout act | .sendMessage act _ | .getMessage act
  | .consoleBroadcast act _ | .clearConnection act _ | .other act => some act
  | .openClear .. | .goesDown => none

/-- What is no request comes from nwserv. -/
def control (s : List Mailbox) : Event → Answer × List Mailbox
  | .openClear conn activate => (⟨none, []⟩, openClearConnection conn activate s)
  | .goesDown =>
      (⟨none, (List.range s.length).filterMap fun k =>
        if s[k]?.any Mailbox.active then some (k + 1) else none⟩, sentDownMessage s)
  | _ => (⟨none, []⟩, s)

/-- Requests of connections that are not active are ignored. -/
def machine : Machine (List Mailbox) Event Answer where
  step s e :=
    match e.act? with
    | none => control s e
    | some act =>
        match s[act]? with
        | none => (⟨none, []⟩, s)
        | some c => if c.active then request act c s e else (⟨none, []⟩, s)

/-! ## What is taken in and what is fetched -/

/-- The message that is held for a connection, if there is one. -/
def held (k : Nat) (s : List Mailbox) : List (List UInt8) :=
  ((s[k]?.map fun c => c.message.bytes).filter (· ≠ [])).toList

/-- What was taken for the connection `k`, as the sender is told. -/
def taken (k : Nat) (e : Event) (a : Answer) : List (List UInt8) :=
  match e, a.reply with
  | .sendMessage _ rdata, some r =>
      ((connsOf rdata).zip r.data.tail).flatMap fun x =>
        if x.1.toNat = k + 1 ∧ x.2 = 0 ∧ (textOf rdata).bytes ≠ [] then [(textOf rdata).bytes]
        else []
  | _, _ => []

/-- What the connection `k` gets. -/
def fetched (k : Nat) (e : Event) (a : Answer) : List (List UInt8) :=
  match e, a.reply with
  | .getMessage act, some r => if act = k ∧ r.data.tail ≠ [] then [r.data.tail] else []
  | _, _ => []

/-- No message of the server takes the place of one for the connection `k`, and the
connection is not given to somebody else. A connection that is cleared is one of the array. -/
def Undisturbed (k : Nat) (s : List Mailbox) : Event → Prop
  | .openClear conn _ => conn ≠ k + 1
  | .consoleBroadcast act rdata =>
      (connsOf rdata = [] → act ≠ k) ∧ ∀ conn ∈ connsOf rdata, conn.toNat ≠ k + 1
  | .clearConnection _ number => (number - 1).toNat ≠ k ∧ (number - 1).toNat < s.length
  | .goesDown => s[k]?.any Mailbox.active = false
  | _ => True

/-! ## The places -/

theorem held_congr {k : Nat} {s s' : List Mailbox}
    (h : (s'[k]?).map Mailbox.message = (s[k]?).map Mailbox.message) : held k s' = held k s := by
  have hbytes := congrArg (fun m => ((m.map CText.bytes).filter (· ≠ [])).toList) h
  simpa only [held, Option.map_map, Function.comp_def] using hbytes

theorem held_put_ne {j k : Nat} (hne : j ≠ k) (msg : CText 59) (s : List Mailbox) :
    held k (put j msg s) = held k s := by
  apply held_congr
  rw [put, List.getElem?_modify]
  simp [hne]

theorem held_put {k : Nat} {s : List Mailbox} {c : Mailbox} (hc : s[k]? = some c)
    (msg : CText 59) : held k (put k msg s) = if msg.bytes ≠ [] then [msg.bytes] else [] := by
  unfold held put
  rw [List.getElem?_modify, hc]
  by_cases hmsg : msg.bytes = [] <;> simp [hmsg, Option.filter]

theorem held_of_some {k : Nat} {s : List Mailbox} {c : Mailbox} (hc : s[k]? = some c) :
    held k s = if c.message.bytes ≠ [] then [c.message.bytes] else [] := by
  unfold held
  rw [hc]
  by_cases hmsg : c.message.bytes = [] <;> simp [hmsg, Option.filter]

theorem held_set {act k : Nat} {s : List Mailbox} {c c' : Mailbox} (hc : s[act]? = some c)
    (hmsg : c'.message = c.message) : held k (s.set act c') = held k s := by
  apply held_congr
  by_cases hk : act = k
  · subst hk
    have hlt : act < s.length := by
      by_contra hge
      rw [List.getElem?_eq_none (not_lt.mp hge)] at hc
      cases hc
    simp [List.getElem?_set_self hlt, hc, hmsg]
  · rw [List.getElem?_set_ne hk]

/-! ## Sending -/

/-- What a number of the list comes to for the connection `k`. -/
theorem held_sendTo (k : Nat) (msg : CText 59) (connr : UInt8) (s : List Mailbox) :
    held k s ++ (if connr.toNat = k + 1 ∧ (sendTo msg connr s).1 = 0 ∧ msg.bytes ≠ [] then
      [msg.bytes] else []) = held k (sendTo msg connr s).2 := by
  have hrefused : ∀ result : UInt8, result ≠ 0 →
      held k s ++ (if connr.toNat = k + 1 ∧ result = 0 ∧ msg.bytes ≠ [] then
        [msg.bytes] else []) = held k s := by
    intro result hresult
    rw [if_neg fun h => hresult h.2.1, List.append_nil]
  unfold sendTo
  split
  · exact hrefused 0xff (by decide)
  next hpos =>
    split
    · exact hrefused 0xff (by decide)
    next cn hcn =>
      split
      · split
        next hempty =>
          by_cases hk : connr.toNat - 1 = k
          · -- the place was empty, and is taken by the message
            have hconnr : connr.toNat = k + 1 := by
              have hne : connr.toNat ≠ 0 := fun h => hpos (UInt8.toNat_inj.mp h)
              omega
            rw [hk] at hcn ⊢
            rw [held_put hcn, held_of_some hcn, if_neg (not_not.mpr hempty), List.nil_append]
            simp only [hconnr, true_and]
          · rw [held_put_ne hk, if_neg fun h => hk (by omega), List.append_nil]
        · exact hrefused 0xfc (by decide)
      · exact hrefused 0xff (by decide)

theorem held_sendLoop (k : Nat) (msg : CText 59) (conns : List UInt8) (s : List Mailbox) :
    held k s ++ ((conns.zip (sendLoop msg conns s).1).flatMap fun x =>
      if x.1.toNat = k + 1 ∧ x.2 = 0 ∧ msg.bytes ≠ [] then [msg.bytes] else []) =
    held k (sendLoop msg conns s).2 := by
  induction conns generalizing s with
  | nil => simp [sendLoop]
  | cons connr conns ih =>
      rw [sendLoop]
      dsimp only
      rw [List.zip_cons_cons, List.flatMap_cons, ← List.append_assoc, held_sendTo, ih]

/-! ## One step -/

theorem held_foldl_consoleTo {act k : Nat} (msg : CText 59) {conns : List UInt8}
    (hconns : ∀ conn ∈ conns, conn.toNat ≠ k + 1) (s : List Mailbox) :
    held k (conns.foldl (consoleTo act msg) s) = held k s := by
  induction conns generalizing s with
  | nil => rfl
  | cons conn conns ih =>
      obtain ⟨hconn, hrest⟩ := List.forall_mem_cons.mp hconns
      rw [List.foldl_cons, ih hrest]
      unfold consoleTo
      split
      · exact held_put_ne (by omega) _ _
      split
      · rfl
      next hpos =>
        have hne : conn.toNat ≠ 0 := fun h => hpos (UInt8.toNat_inj.mp h)
        split
        · rfl
        · split
          · exact held_put_ne (by omega) _ _
          · rfl

theorem held_openClearConnection {k conn : Nat} (hne : conn ≠ k + 1) (activate : Bool)
    (s : List Mailbox) : held k (openClearConnection conn activate s) = held k s := by
  unfold openClearConnection
  split
  · rfl
  · apply held_congr
    rw [List.getElem?_set_ne (by omega)]

theorem held_sentDownMessage {k : Nat} {s : List Mailbox}
    (h : s[k]?.any Mailbox.active = false) : held k (sentDownMessage s) = held k s := by
  apply held_congr
  rw [sentDownMessage, List.getElem?_map]
  cases hk : s[k]? with
  | none => rfl
  | some c =>
      have hidle : c.active = false := by simpa [hk] using h
      simp [hidle]

/-- A list of which no number was found changes nothing. -/
theorem held_sendLoop_unfound {k : Nat} {msg : CText 59} {conns : List UInt8} {s : List Mailbox}
    (h : foundConns conns (sendLoop msg conns s).1 = []) :
    held k (sendLoop msg conns s).2 = held k s := by
  have hnone : ((conns.zip (sendLoop msg conns s).1).flatMap fun x =>
      if x.1.toNat = k + 1 ∧ x.2 = 0 ∧ msg.bytes ≠ [] then [msg.bytes] else []) = [] := by
    refine List.flatMap_eq_nil_iff.mpr fun x hx => if_neg ?_
    rintro ⟨-, hzero, -⟩
    have hfound := List.filterMap_eq_nil_iff.mp h x hx
    rw [hzero, if_pos (by decide)] at hfound
    cases hfound
  rw [← held_sendLoop, hnone, List.append_nil]

theorem fetched_getMessage (act k : Nat) (c : Mailbox) (s : List Mailbox) :
    fetched k (.getMessage act) (request act c s (.getMessage act)).1 =
      if act = k ∧ c.message.bytes ≠ [] then [c.message.bytes] else [] := by
  have hall : c.message.bytes.take 58 = c.message.bytes :=
    List.take_of_length_le (Nat.le_of_lt_succ c.message.length_lt)
  simp only [fetched, request, respond, hall, List.tail_cons]
  rfl

theorem getMessage_balance {act k : Nat} {c : Mailbox} {s : List Mailbox} (hc : s[act]? = some c) :
    held k s = fetched k (.getMessage act) (request act c s (.getMessage act)).1 ++
      held k (put act noMessage s) := by
  rw [fetched_getMessage]
  by_cases hk : act = k
  · subst hk
    rw [held_put hc, held_of_some hc]
    simp [noMessage]
  · rw [held_put_ne hk, if_neg fun h => hk h.1, List.nil_append]

/-- A request of the connection `act` accounts for what is held for `k`. -/
theorem request_balance {act k : Nat} {c : Mailbox} {s : List Mailbox} (hc : s[act]? = some c)
    {e : Event} (hact : e.act? = some act) (he : Undisturbed k s e) :
    held k s ++ taken k e (request act c s e).1 =
      fetched k e (request act c s e).1 ++ held k (request act c s e).2 := by
  -- requests that take nothing in and give nothing out
  have hkept : ∀ {s' : List Mailbox}, held k s' = held k s →
      held k s ++ [] = [] ++ held k s' := fun h => by rw [List.append_nil, List.nil_append, h]
  cases e with
  | openClear conn activate => cases hact
  | goesDown => cases hact
  | login _ objectId => exact hkept (held_set hc rfl)
  | logout _ => exact hkept (held_set hc rfl)
  | sendMessage _ rdata =>
      simp only [request]
      split
      · exact held_sendLoop k _ _ s
      next hfound =>
        simp only [respond, taken, fetched, List.tail_nil, List.zip_nil_right, List.flatMap_nil]
        exact hkept (held_sendLoop_unfound (not_not.mp hfound))
  | getMessage _ =>
      obtain rfl := Option.some.inj hact
      exact (List.append_nil _).trans (getMessage_balance hc)
  | consoleBroadcast _ rdata =>
      obtain rfl := Option.some.inj hact
      simp only [request]
      split
      next hall => exact hkept (held_put_ne (he.1 hall) _ _)
      · exact hkept (held_foldl_consoleTo _ he.2 _)
  | clearConnection _ number =>
      simp only [request]
      split
      · exact hkept (held_put_ne he.1 _ _)
      · exact hkept rfl
  | other _ => exact hkept rfl

theorem control_balance {k : Nat} {s : List Mailbox} {e : Event} (hact : e.act? = none)
    (he : Undisturbed k s e) :
    held k s ++ taken k e (control s e).1 =
      fetched k e (control s e).1 ++ held k (control s e).2 := by
  cases e with
  | openClear conn activate =>
      simpa [taken, fetched, control] using (held_openClearConnection he activate s).symm
  | goesDown => simpa [taken, fetched, control] using (held_sentDownMessage he).symm
  | _ => cases hact

theorem machine_balance {k : Nat} {s : List Mailbox} {e : Event} (he : Undisturbed k s e) :
    held k s ++ taken k e (machine.step s e).1 =
      fetched k e (machine.step s e).1 ++ held k (machine.step s e).2 := by
  have hignored : held k s ++ taken k e ⟨none, []⟩ = fetched k e ⟨none, []⟩ ++ held k s := by
    cases e <;> simp [taken, fetched]
  simp only [machine]
  split
  next hact => exact control_balance hact he
  next act hact =>
    split
    · exact hignored
    next c hc =>
      split
      · exact request_balance hc hact he
      · exact hignored

theorem request_informed {act k : Nat} {c : Mailbox} {s : List Mailbox} {e : Event}
    (h : taken k e (request act c s e).1 ≠ []) : k + 1 ∈ (request act c s e).1.informed := by
  cases e with
  | sendMessage _ rdata =>
      simp only [request] at h ⊢
      by_cases hfound : foundConns (connsOf rdata)
          (sendLoop (textOf rdata) (connsOf rdata) s).1 ≠ []
      · rw [if_pos hfound] at h ⊢
        obtain ⟨text, htext⟩ := List.exists_mem_of_ne_nil _ h
        obtain ⟨x, hx, hmem⟩ := List.mem_flatMap.mp htext
        have hcond : x.1.toNat = k + 1 ∧ x.2 = 0 ∧ (textOf rdata).bytes ≠ [] := by
          by_contra hnot
          rw [if_neg hnot] at hmem
          exact List.not_mem_nil hmem
        refine List.mem_filterMap.mpr ⟨x, hx, ?_⟩
        rw [hcond.2.1, if_pos (by decide), hcond.1]
      · rw [if_neg hfound] at h
        exact absurd (by simp [respond, taken]) h
  | _ => exact absurd rfl h

/-- A client is informed of a message that was taken for it. -/
theorem informed_of_taken {k : Nat} {s : List Mailbox} {e : Event}
    (h : taken k e (machine.step s e).1 ≠ []) : k + 1 ∈ (machine.step s e).1.informed := by
  have hignored : taken k e ⟨none, []⟩ = [] := by cases e <;> rfl
  simp only [machine] at h ⊢
  split at h
  next hact =>
    cases e with
    | openClear conn activate => exact absurd rfl h
    | goesDown => exact absurd rfl h
    | _ => cases hact
  next act hact =>
    split at h
    · exact absurd hignored h
    next c hc =>
      split at h
      next hactive =>
        rw [if_pos hactive]
        exact request_informed h
      · exact absurd hignored h

/-- No message is lost and none comes twice: what was held for a connection and what was
taken for it since is fetched, in this order, or still held; and the client is informed
of everything that is taken. -/
theorem messages_fetched_once (k : Nat) {s : List Mailbox} {events : List Event}
    (h : machine.Along (Undisturbed k) s events) :
    held k s ++ machine.gather (taken k) s events =
        machine.gather (fetched k) s events ++ held k (machine.exec s events) ∧
      machine.Along (fun s e => taken k e (machine.step s e).1 ≠ [] →
        k + 1 ∈ (machine.step s e).1.informed) s events := by
  have hinformed : ∀ (s : List Mailbox) (e : Event), True → Undisturbed k s e →
      (taken k e (machine.step s e).1 ≠ [] → k + 1 ∈ (machine.step s e).1.informed) ∧ True :=
    fun _ _ _ _ => ⟨informed_of_taken, trivial⟩
  exact ⟨machine.gather_balance (fun _ _ => machine_balance) h,
    machine.along_of_invariant hinformed trivial h⟩

/-- Two connections with their users. -/
def twoUsers : List Mailbox := [⟨true, 1, noMessage⟩, ⟨true, 2, noMessage⟩]

/-- The message `A` to the second of them. -/
def letterA (i : Nat) : UInt8 := [1, 2, 1, 0x41].getD i 0

/-- It is taken once, and fetched once. -/
theorem messages_fetched_once_pair :
    let events := [.sendMessage 0 letterA, .sendMessage 0 letterA, .getMessage 1, .getMessage 1]
    machine.gather (taken 1) twoUsers events = [[0x41]] ∧
      machine.gather (fetched 1) twoUsers events = [[0x41]] := by
  intro events
  have hundisturbed : machine.Along (Undisturbed 1) twoUsers events :=
    ⟨trivial, trivial, trivial, trivial, trivial⟩
  have h := (messages_fetched_once 1 hundisturbed).1
  have htaken : machine.gather (taken 1) twoUsers events = [[0x41]] := by decide +kernel
  have hheld : held 1 (machine.exec twoUsers events) = [] := by decide +kernel
  rw [htaken, hheld, List.append_nil] at h
  exact ⟨htaken, h.symm⟩

end MarsNwe.Messages
