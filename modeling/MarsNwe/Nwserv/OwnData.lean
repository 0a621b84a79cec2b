import Mathlib.Data.List.Perm.Basic
import MarsNwe.Lib.Machine
import MarsNwe.Net

/-! # Control messages between the processes

`nwserv` sends control messages to `ncpserv` and `nwbind` as packets with a sequence number
of eight bits. It sends a packet again, up to five times, when no reply comes in time. The
receivers reply to every packet and do what it says.
-/

namespace MarsNwe

/-- `MAX_SEND_TRIES` -/
def maxSendTries : Nat := 5

/-- The receivers of control messages. -/
inductive Son where
  | ncpserv
  | nwbind
deriving DecidableEq

/-- What `write_to_sons` sends. -/
inductive CtrlMsg where
  /-- 0x2222: insert connection -/
  | insertConnection (connection : Int) (data : ByteBuf 18)
  /-- 0x3333: 'bindery' calls -/
  | binderyCall (data : List UInt8)
  /-- 0x5555: kill connection -/
  | killConnection (connection : Int)
  /-- 0xeeee: hup, read init -/
  | hup
  /-- 0xffff: 'down server' -/
  | down
deriving DecidableEq

/-- What `handle_ctrl` of a receiver does. -/
inductive CtrlEffect where
  /-- `open_clear_connection` of `nwbind` -/
  | openClearConnection (conn : Int) (activate : Bool) (addr : Option (ByteBuf 18))
  /-- `handle_bind_calls` of `nwbind` -/
  | handleBindCalls (data : List UInt8)
  /-- `clear_connection` of `ncpserv` -/
  | clearConnection (conn : Int)
  | readInit
  | goDown
deriving DecidableEq

/-- The switch of `handle_ctrl`, of `nwbind` and of `ncpserv`. -/
def handleCtrl : Son → CtrlMsg → Option CtrlEffect
  | .nwbind, .insertConnection conn data => some (.openClearConnection conn true (some data))
  | .nwbind, .binderyCall data => some (.handleBindCalls data)
  | .nwbind, .killConnection conn => some (.openClearConnection conn false none)
  | .ncpserv, .killConnection conn => some (.clearConnection conn)
  | .ncpserv, .insertConnection _ _ | .ncpserv, .binderyCall _ => none
  | _, .hup => some .readInit
  | _, .down => some .goDown

/-- The connection that is logged out or closed by what a receiver does. -/
def CtrlEffect.closes : CtrlEffect → Option Int
  | .openClearConnection conn _ _ | .clearConnection conn => some conn
  | _ => none

/-- The connection that is given to a client by what a receiver does. -/
def CtrlEffect.gives : CtrlEffect → Option Int
  | .openClearConnection conn true _ => some conn
  | _ => none

/-! ## The processes and the packets between them -/

/-- A call of `send_own_data`: how often the number of its connection had been given to a
client before it. -/
structure OwnCall where
  son : Son
  msg : CtrlMsg
  sequence : UInt8
  givenBefore : Nat
deriving DecidableEq

/-- A packet of a call, or the reply to one; the calls are numbered. -/
structure OwnPacket where
  call : Nat
  sequence : UInt8
deriving DecidableEq

/-- A receiver has handled a packet of a call. `current`, if the number of its connection
has not been given to another client since the call. -/
structure Applied where
  call : Nat
  current : Bool
deriving DecidableEq

/-- The call that `nwserv` is in: how many packets it has tried to send, and whether it
waits for a reply. -/
structure Sending where
  call : Nat
  tries : Nat
  waits : Bool
deriving DecidableEq

structure OwnState where
  calls : List OwnCall
  lastsequence : UInt8
  sending : Option Sending
  /-- What the calls have returned. -/
  returned : List (Nat × Int)
  packets : List OwnPacket
  replies : List OwnPacket
  applied : List Applied
  /-- How often a receiver has given a number to a client. -/
  given : Son → Int → Nat

/-- Before the first call. -/
def OwnState.start : OwnState := ⟨[], 0, none, [], [], [], [], fun _ _ => 0⟩

/-- What happens: in `nwserv`, on the way, and in `ncpserv`. -/
inductive OwnEvent where
  /-- `send_own_data` is called. -/
  | call (son : Son) (msg : CtrlMsg)
  /-- The head of its loop; `send_ipx_data` may fail. -/
  | attempt (sent : Bool)
  /-- `receive_ipx_data` ends without a packet. -/
  | waitEnds
  /-- `receive_ipx_data` gets a reply. -/
  | receive (i : Nat)
  /-- The receiver gets a packet. -/
  | deliver (i : Nat)
  | losePacket (i : Nat)
  | loseReply (i : Nat)
  /-- `ncpserv` gives a connection to a client. -/
  | giveConnection (conn : Int)

/-- The connection that the message of a call closes, if it does. -/
def OwnCall.conn (c : OwnCall) : Option Int := (handleCtrl c.son c.msg).bind CtrlEffect.closes

/-- How often the number of a call's connection has been given. -/
def OwnState.givenTo (s : OwnState) (son : Son) (msg : CtrlMsg) : Nat :=
  match (handleCtrl son msg).bind CtrlEffect.closes with
  | some conn => s.given son conn
  | none => 0

/-- A receiver gives a number to a client. -/
def OwnState.give (s : OwnState) (son : Son) (conn : Int) : OwnState :=
  { s with given := fun son' conn' =>
      if son' = son ∧ conn' = conn then s.given son' conn' + 1 else s.given son' conn' }

/-- `handle_ctrl`: the receiver replies and does what the packet says. -/
def OwnState.handleCtrl (s : OwnState) (p : OwnPacket) : OwnState :=
  match s.calls[p.call]? with
  | none => s
  | some c =>
      let s := { s with
        replies := s.replies ++ [p]
        applied := s.applied ++ [⟨p.call, s.givenTo c.son c.msg = c.givenBefore⟩] }
      match (MarsNwe.handleCtrl c.son c.msg).bind CtrlEffect.gives with
      | some conn => s.give c.son conn
      | none => s

/-- `nwserv`, the receivers and the packets on the way. -/
def ownMachine : Machine OwnState OwnEvent Unit where
  step s e := ((), match e with
    | .call son msg =>
        match s.sending with
        | some _ => s
        | none =>
            { s with
              lastsequence := s.lastsequence + 1
              calls := s.calls ++ [⟨son, msg, s.lastsequence + 1, s.givenTo son msg⟩]
              sending := some ⟨s.calls.length, 0, false⟩ }
    | .attempt sent =>
        match s.sending with
        | some ⟨call, tries, false⟩ =>
            if tries < maxSendTries then
              { s with
                sending := some ⟨call, tries + 1, sent⟩
                packets := if sent then s.packets ++ [⟨call, s.lastsequence⟩] else s.packets }
            else { s with sending := none, returned := s.returned ++ [(call, -1)] }
        | _ => s
    | .waitEnds =>
        match s.sending with
        | some ⟨call, tries, true⟩ => { s with sending := some ⟨call, tries, false⟩ }
        | _ => s
    | .receive i =>
        match s.sending, s.replies[i]? with
        | some ⟨call, _, true⟩, some reply =>
            let s := { s with replies := s.replies.eraseIdx i }
            if reply.sequence = s.lastsequence then
              -- the receivers reply with the result 0
              { s with sending := none, returned := s.returned ++ [(call, 0)] }
            else s
        | _, _ => s
    | .deliver i =>
        match s.packets[i]? with
        | some p => { s with packets := s.packets.eraseIdx i }.handleCtrl p
        | none => s
    | .losePacket i => { s with packets := s.packets.eraseIdx i }
    | .loseReply i => { s with replies := s.replies.eraseIdx i }
    | .giveConnection conn => s.give .ncpserv conn)

/-! ## Once -/

/-- Each message is applied at most once, and then to the connection it was meant for; it
has been applied when the call returns a result that is no error. -/
structure AppliedOnce (s : OwnState) : Prop where
  once : ∀ call, s.applied.countP (·.call = call) ≤ 1
  current : ∀ a ∈ s.applied, a.current = true
  returned : ∀ call result, (call, result) ∈ s.returned → 0 ≤ result → ∃ a ∈ s.applied, a.call = call

/-- A call closes or gives a connection of a receiver. -/
def OwnState.About (s : OwnState) (son : Son) (conn : Int) (call : Nat) : Prop :=
  ∃ c, s.calls[call]? = some c ∧ c.son = son ∧ c.conn = some conn

/-- A packet of a call may still get to its receiver: it is on the way, or `nwserv` is in
the call and the receiver has not got one. -/
def OwnState.Underway (s : OwnState) (call : Nat) : Prop :=
  (∃ p ∈ s.packets, p.call = call) ∨
    (∃ tries waits, s.sending = some ⟨call, tries, waits⟩) ∧ ∀ a ∈ s.applied, a.call ≠ call

/-- A packet is sent again only when those before it are lost; a reply that is taken is
one to the call; and a number is given to a client only when no other message for it is
underway. -/
def OwnFits (s : OwnState) : OwnEvent → Prop
  | .attempt sent => ∀ call tries, s.sending = some ⟨call, tries, false⟩ →
      tries < maxSendTries → sent = true → (∀ p ∈ s.packets, p.call ≠ call) ∧ ∀ a ∈ s.applied, a.call ≠ call
  | .receive i => ∀ call tries reply, s.sending = some ⟨call, tries, true⟩ →
      s.replies[i]? = some reply → reply.sequence = s.lastsequence → reply.call = call
  | .deliver i => ∀ p c conn, s.packets[i]? = some p → s.calls[p.call]? = some c →
      (handleCtrl c.son c.msg).bind CtrlEffect.gives = some conn →
      ∀ call, call ≠ p.call → s.Underway call → ¬s.About c.son conn call
  | .giveConnection conn => ∀ call, s.Underway call → ¬s.About .ncpserv conn call
  | _ => True

/-- What holds between calls, packets, replies and receivers. -/
structure OwnOk (s : OwnState) : Prop where
  packets : ∀ p ∈ s.packets, p.call < s.calls.length
  replies : ∀ r ∈ s.replies, ∃ a ∈ s.applied, a.call = r.call
  applied : ∀ a ∈ s.applied, a.call < s.calls.length
  sending : ∀ sending, s.sending = some sending → sending.call < s.calls.length
  once : ∀ call, s.packets.countP (·.call = call) + s.applied.countP (·.call = call) ≤ 1
  current : ∀ a ∈ s.applied, a.current = true
  returned : ∀ call result, (call, result) ∈ s.returned → 0 ≤ result → ∃ a ∈ s.applied, a.call = call
  given : ∀ call c, s.calls[call]? = some c → s.Underway call → s.givenTo c.son c.msg = c.givenBefore

section

variable {s : OwnState}

theorem OwnOk.appliedOnce (h : OwnOk s) : AppliedOnce s where
  once call := (Nat.le_add_left _ _).trans (h.once call)
  current := h.current
  returned := h.returned

/-- Nothing changes but what is underway, of which there is less. -/
theorem OwnOk.fewer {s' : OwnState} (h : OwnOk s) (hcalls : s'.calls = s.calls)
    (happlied : s'.applied = s.applied) (hgiven : s'.given = s.given)
    (hpackets : s'.packets.Sublist s.packets) (hreplies : s'.replies.Sublist s.replies)
    (hsending : ∀ call tries waits, s'.sending = some ⟨call, tries, waits⟩ →
      ∃ tries' waits', s.sending = some ⟨call, tries', waits'⟩)
    (hreturned : ∀ call result, (call, result) ∈ s'.returned → 0 ≤ result →
      (call, result) ∈ s.returned ∨ ∃ a ∈ s.applied, a.call = call) : OwnOk s' where
  packets p hp := hcalls ▸ h.packets p (hpackets.subset hp)
  replies r hr := happlied ▸ h.replies r (hreplies.subset hr)
  applied a ha := hcalls ▸ h.applied a (happlied ▸ ha)
  sending sending hs := by
    obtain ⟨call, tries, waits⟩ := sending
    obtain ⟨tries', waits', hold⟩ := hsending call tries waits hs
    rw [hcalls]
    exact h.sending ⟨call, tries', waits'⟩ hold
  once call := by
    rw [happlied]
    exact (Nat.add_le_add_right hpackets.countP_le _).trans (h.once call)
  current a ha := h.current a (happlied ▸ ha)
  returned call result hmem hresult := by
    rw [happlied]
    rcases hreturned call result hmem hresult with hold | hnew
    · exact h.returned call result hold hresult
    · exact hnew
  given call c hc hunderway := by
    have hold : s.Underway call := by
      rcases hunderway with ⟨p, hp, hcall⟩ | ⟨⟨tries, waits, hs⟩, hnone⟩
      · exact .inl ⟨p, hpackets.subset hp, hcall⟩
      · exact .inr ⟨hsending call tries waits hs, happlied ▸ hnone⟩
    have heq := h.given call c (hcalls ▸ hc) hold
    unfold OwnState.givenTo at heq ⊢
    rw [hgiven]
    exact heq

/-- A call begins. -/
theorem OwnOk.call (h : OwnOk s) (son : Son) (msg : CtrlMsg) :
    OwnOk { s with
      lastsequence := s.lastsequence + 1
      calls := s.calls ++ [⟨son, msg, s.lastsequence + 1, s.givenTo son msg⟩]
      sending := some ⟨s.calls.length, 0, false⟩ } where
  packets p hp := by
    rw [List.length_append]
    exact Nat.lt_add_right 1 (h.packets p hp)
  replies := h.replies
  applied a ha := by
    rw [List.length_append]
    exact Nat.lt_add_right 1 (h.applied a ha)
  sending sending hs := by
    rw [← Option.some.inj hs, List.length_append]
    exact Nat.lt_succ_self _
  once := h.once
  current := h.current
  returned := h.returned
  given call c hc hunderway := by
    dsimp only at hc
    by_cases hold : call < s.calls.length
    · rw [List.getElem?_append_left hold] at hc
      refine h.given call c hc (hunderway.imp_right fun hsending => ?_)
      obtain ⟨⟨tries, waits, hs⟩, -⟩ := hsending
      have hnew : s.calls.length = call := congrArg Sending.call (Option.some.inj hs)
      exact absurd hold (by omega)
    · rw [List.getElem?_append_right (Nat.not_lt.mp hold)] at hc
      obtain rfl := List.mem_singleton.mp (List.mem_of_getElem? hc)
      rfl

/-- A packet is sent, when those before it are lost. -/
theorem OwnOk.send (h : OwnOk s) {call tries : Nat} (hs : s.sending = some ⟨call, tries, false⟩)
    (hpackets : ∀ p ∈ s.packets, p.call ≠ call) (happlied : ∀ a ∈ s.applied, a.call ≠ call) :
    OwnOk { s with
      sending := some ⟨call, tries + 1, true⟩
      packets := s.packets ++ [⟨call, s.lastsequence⟩] } where
  packets p hp := by
    rcases List.mem_append.mp hp with hold | hnew
    · exact h.packets p hold
    · rw [List.mem_singleton.mp hnew]
      exact h.sending _ hs
  replies := h.replies
  applied := h.applied
  sending sending hs' := by
    rw [← Option.some.inj hs']
    exact h.sending ⟨call, tries, false⟩ hs
  once call' := by
    have hold := h.once call'
    dsimp only
    rw [List.countP_append, List.countP_singleton]
    by_cases hcall : call = call'
    · subst hcall
      have hnone : s.packets.countP (·.call = call) = 0 := List.countP_eq_zero.mpr (by simpa using hpackets)
      have hnone' : s.applied.countP (·.call = call) = 0 := List.countP_eq_zero.mpr (by simpa using happlied)
      simp [hnone, hnone']
    · simpa [hcall] using hold
  current := h.current
  returned := h.returned
  given call' c hc hunderway := by
    refine h.given call' c hc ?_
    rcases hunderway with ⟨p, hp, hcall⟩ | ⟨⟨tries', waits', hs'⟩, hnone⟩
    · rcases List.mem_append.mp hp with hold | hnew
      · exact .inl ⟨p, hold, hcall⟩
      · obtain rfl := List.mem_singleton.mp hnew
        exact .inr ⟨⟨tries, false, hcall ▸ hs⟩, hcall ▸ happlied⟩
    · have hsame : call = call' := congrArg Sending.call (Option.some.inj hs')
      exact .inr ⟨⟨tries, false, hsame ▸ hs⟩, hnone⟩

/-- A number that is given changes nothing for the calls that are not about it. -/
theorem givenTo_give {son : Son} {conn : Int} {call : Nat} {c : OwnCall}
    (hc : s.calls[call]? = some c) (hother : ¬s.About son conn call) :
    (s.give son conn).givenTo c.son c.msg = s.givenTo c.son c.msg := by
  unfold OwnState.givenTo OwnState.give
  dsimp only
  split
  next conn' hconn =>
    rw [if_neg]
    rintro ⟨hson, rfl⟩
    exact hother ⟨c, hc, hson, hconn⟩
  next => rfl

/-- A number is given to a client while no message for it is underway. -/
theorem OwnOk.give (h : OwnOk s) {son : Son} {conn : Int}
    (hother : ∀ call, s.Underway call → ¬s.About son conn call) : OwnOk (s.give son conn) where
  packets := h.packets
  replies := h.replies
  applied := h.applied
  sending := h.sending
  once := h.once
  current := h.current
  returned := h.returned
  given call c hc hunderway := by
    rw [@givenTo_give s son conn call c hc (hother call hunderway)]
    exact h.given call c hc hunderway

/-- A receiver replies to a packet and notes that it does what it says. -/
theorem OwnOk.apply (h : OwnOk s) {i : Nat} {p : OwnPacket} {c : OwnCall}
    (hp : s.packets[i]? = some p) (hc : s.calls[p.call]? = some c) :
    OwnOk { s with
      packets := s.packets.eraseIdx i
      replies := s.replies ++ [p]
      applied := s.applied ++ [⟨p.call, s.givenTo c.son c.msg = c.givenBefore⟩] } ∧
      ∀ call, OwnState.Underway { s with
        packets := s.packets.eraseIdx i
        replies := s.replies ++ [p]
        applied := s.applied ++ [⟨p.call, s.givenTo c.son c.msg = c.givenBefore⟩] } call →
        call ≠ p.call ∧ s.Underway call := by
  obtain ⟨hlt, hget⟩ := List.getElem?_eq_some_iff.mp hp
  have hmem : p ∈ s.packets := List.mem_of_getElem? hp
  have hcount : ∀ call, s.packets.countP (·.call = call) =
      (s.packets.eraseIdx i).countP (·.call = call) + if p.call = call then 1 else 0 := by
    intro call
    rw [← (List.getElem_cons_eraseIdx_perm hlt).countP_eq, hget, List.countP_cons]
    simp
  have hsub : (s.packets.eraseIdx i).Sublist s.packets := List.eraseIdx_sublist _ _
  have hunder : ∀ call, OwnState.Underway { s with
      packets := s.packets.eraseIdx i
      replies := s.replies ++ [p]
      applied := s.applied ++ [⟨p.call, s.givenTo c.son c.msg = c.givenBefore⟩] } call →
      call ≠ p.call ∧ s.Underway call := by
    rintro call (⟨q, hq, rfl⟩ | ⟨hsending, hnone⟩)
    · refine ⟨fun heq => ?_, .inl ⟨q, hsub.subset hq, rfl⟩⟩
      -- two packets of the call
      have hpos : 0 < (s.packets.eraseIdx i).countP (·.call = q.call) :=
        List.countP_pos_iff.mpr ⟨q, hq, decide_eq_true rfl⟩
      have honce := h.once q.call
      rw [hcount, if_pos heq.symm] at honce
      omega
    · refine ⟨fun heq => ?_, .inr ⟨hsending, fun a ha => hnone a (List.mem_append_left _ ha)⟩⟩
      exact hnone _ (List.mem_append_right _ (List.mem_singleton.mpr rfl)) heq.symm
  refine ⟨?_, hunder⟩
  constructor
  · exact fun q hq => h.packets q (hsub.subset hq)
  · intro r hr
    rcases List.mem_append.mp hr with hold | hnew
    · obtain ⟨a, ha, heq⟩ := h.replies r hold
      exact ⟨a, List.mem_append_left _ ha, heq⟩
    · rw [List.mem_singleton.mp hnew]
      exact ⟨_, List.mem_append_right _ (List.mem_singleton.mpr rfl), rfl⟩
  · intro a ha
    rcases List.mem_append.mp ha with hold | hnew
    · exact h.applied a hold
    · rw [List.mem_singleton.mp hnew]
      exact h.packets p hmem
  · exact h.sending
  · intro call
    have honce := h.once call
    dsimp only
    rw [hcount] at honce
    rw [List.countP_append, List.countP_singleton]
    by_cases hcall : p.call = call
    · simp only [hcall, decide_true, if_true] at honce ⊢
      omega
    · simp only [hcall, decide_false, Bool.false_eq_true, if_false] at honce ⊢
      omega
  · intro a ha
    rcases List.mem_append.mp ha with hold | hnew
    · exact h.current a hold
    · rw [List.mem_singleton.mp hnew]
      exact decide_eq_true (h.given p.call c hc (.inl ⟨p, hmem, rfl⟩))
  · intro call result hmem hresult
    obtain ⟨a, ha, heq⟩ := h.returned call result hmem hresult
    exact ⟨a, List.mem_append_left _ ha, heq⟩
  · intro call c' hc' hunderway
    exact h.given call c' hc' (hunder call hunderway).2

/-- Steps that fit keep what holds. -/
theorem OwnOk.step (h : OwnOk s) {e : OwnEvent} (hfits : OwnFits s e) :
    OwnOk (ownMachine.step s e).2 := by
  unfold ownMachine
  cases e with
  | call son msg =>
      dsimp only
      split
      next => exact h
      next => exact h.call son msg
  | attempt sent =>
      dsimp only
      split
      next call tries hs =>
        split
        next htries =>
          cases sent with
          | true =>
              obtain ⟨hpackets, happlied⟩ := hfits call tries hs htries rfl
              exact h.send hs hpackets happlied
          | false =>
              refine h.fewer rfl rfl rfl (List.Sublist.refl _) (List.Sublist.refl _)
                (fun call' tries' waits' hs' => ?_) fun _ _ hmem _ => .inl hmem
              have hsame : call = call' := congrArg Sending.call (Option.some.inj hs')
              exact ⟨tries, false, hsame ▸ hs⟩
        next =>
          refine h.fewer rfl rfl rfl (List.Sublist.refl _) (List.Sublist.refl _)
            (fun _ _ _ hs' => (nomatch hs')) fun call' result hmem hresult => ?_
          rcases List.mem_append.mp hmem with hold | hnew
          · exact .inl hold
          · have hfailed : result = -1 := congrArg Prod.snd (List.mem_singleton.mp hnew)
            omega
      next => exact h
  | waitEnds =>
      dsimp only
      split
      next call tries hs =>
        refine h.fewer rfl rfl rfl (List.Sublist.refl _) (List.Sublist.refl _)
          (fun call' tries' waits' hs' => ?_) fun _ _ hmem _ => .inl hmem
        have hsame : call = call' := congrArg Sending.call (Option.some.inj hs')
        exact ⟨tries, true, hsame ▸ hs⟩
      next => exact h
  | receive i =>
      dsimp only
      split
      next call tries reply hs hreply =>
        have hsub : (s.replies.eraseIdx i).Sublist s.replies := List.eraseIdx_sublist _ _
        split
        next hsequence =>
          refine h.fewer rfl rfl rfl (List.Sublist.refl _) hsub (fun _ _ _ hs' => (nomatch hs'))
            fun call' result hmem _ => ?_
          rcases List.mem_append.mp hmem with hold | hnew
          · exact .inl hold
          · have hcall : call' = call := congrArg Prod.fst (List.mem_singleton.mp hnew)
            rw [hcall, ← hfits call tries reply hs hreply hsequence]
            exact .inr (h.replies reply (List.mem_of_getElem? hreply))
        next =>
          exact h.fewer rfl rfl rfl (List.Sublist.refl _) hsub
            (fun _ tries waits hs' => ⟨tries, waits, hs'⟩) fun _ _ hmem _ => .inl hmem
      next => exact h
  | deliver i =>
      dsimp only
      split
      next p hp =>
        have hlt := h.packets p (List.mem_of_getElem? hp)
        have hc : s.calls[p.call]? = some s.calls[p.call] := List.getElem?_eq_getElem hlt
        obtain ⟨happly, hunder⟩ := h.apply hp hc
        unfold OwnState.handleCtrl
        dsimp only
        rw [hc]
        dsimp only
        split
        next conn hgives =>
          refine happly.give fun call hunderway => ?_
          obtain ⟨hne, hold⟩ := hunder call hunderway
          exact hfits p _ conn hp hc hgives call hne hold
        next => exact happly
      next => exact h
  | losePacket i =>
      exact h.fewer rfl rfl rfl (List.eraseIdx_sublist _ _) (List.Sublist.refl _)
        (fun _ tries waits hs => ⟨tries, waits, hs⟩) fun _ _ hmem _ => .inl hmem
  | loseReply i =>
      exact h.fewer rfl rfl rfl (List.Sublist.refl _) (List.eraseIdx_sublist _ _)
        (fun _ tries waits hs => ⟨tries, waits, hs⟩) fun _ _ hmem _ => .inl hmem
  | giveConnection conn => exact h.give hfits

end

/-- In every state of a run whose steps fit, messages are applied once. -/
theorem messages_applied_once (es : List OwnEvent) (hfits : ownMachine.Along OwnFits .start es) :
    AppliedOnce (ownMachine.exec .start es) := by
  have hstart : OwnOk .start := by
    constructor
    case given => exact fun call c hc _ => (nomatch hc)
    case sending => exact fun _ hs => (nomatch hs)
    case once => exact fun _ => Nat.zero_le _
    all_goals exact fun _ => nofun
  have hrun : OwnOk (ownMachine.exec .start es) :=
    ownMachine.exec_invariant (fun s e hs hok => hs.step hok) hstart hfits
  exact hrun.appliedOnce

/-- A packet that is lost is sent again, and answered. -/
theorem messages_applied_once_lost :
    AppliedOnce (ownMachine.exec .start [.call .nwbind (.insertConnection 1 (.zero 18)),
      .attempt true, .losePacket 0, .waitEnds, .attempt true, .deliver 0, .receive 0,
      .giveConnection 2]) := by
  refine messages_applied_once _ ⟨trivial, ?_, trivial, trivial, ?_, ?_, ?_, ?_, trivial⟩
  · exact fun _ _ _ _ _ => ⟨nofun, nofun⟩
  · exact fun _ _ _ _ _ => ⟨nofun, nofun⟩
  · rintro p c conn hp - - call hne (⟨q, hq, rfl⟩ | ⟨⟨tries, waits, hs⟩, -⟩)
    · obtain rfl := Option.some.inj hp
      rw [List.mem_singleton.mp hq] at hne
      exact absurd rfl hne
    · obtain rfl := Option.some.inj hp
      exact absurd (congrArg Sending.call (Option.some.inj hs)).symm hne
  · intro call tries reply hs hreply _
    obtain rfl := Option.some.inj hreply
    exact congrArg Sending.call (Option.some.inj hs)
  · rintro call (⟨q, hq, -⟩ | ⟨⟨tries, waits, hs⟩, -⟩)
    · contradiction
    · contradiction

/-- A message whose receiver is slow is applied twice; and one that is delayed until its
call has failed closes the connection of another client. -/
theorem not_messages_applied_once :
    ¬AppliedOnce (ownMachine.exec .start [.call .nwbind (.insertConnection 1 (.zero 18)),
        .attempt true, .waitEnds, .attempt true, .deliver 0, .deliver 0]) ∧
      ¬AppliedOnce (ownMachine.exec .start [.call .nwbind (.killConnection 1),
        .attempt true, .waitEnds, .attempt true, .losePacket 1, .waitEnds, .attempt true,
        .losePacket 1, .waitEnds, .attempt true, .losePacket 1, .waitEnds, .attempt true,
        .losePacket 1, .waitEnds, .attempt true,
        .call .nwbind (.insertConnection 1 (.zero 18)), .attempt true, .deliver 1, .deliver 0]) := by
  constructor
  · intro h
    exact absurd (h.once 0) (by decide)
  · intro h
    exact absurd (h.current ⟨0, false⟩ (by decide)) Bool.false_ne_true

end MarsNwe
