import Mathlib.Data.List.GetD
import Mathlib.Data.List.Sort
import MarsNwe.Lib.Machine
import MarsNwe.Nwconn.Packets

/-! # Requests are handled once

A client, ncpserv, the nwconn of the client's connection and nwbind. The client sends a
request again until it sees the reply. ncpserv looks whether nwconn is busy, nwconn at the
sequence number it answered last, nwbind at nothing.
-/

namespace MarsNwe

/-! ## The parties -/

/-- The types of packets that ncpserv writes for a client. -/
inductive ClientType where
  /-- 0x1111: get a connection -/
  | create
  /-- 0x2222 -/
  | request
deriving DecidableEq

structure ClientPacket where
  typ : ClientType
  sequence : UInt8
  connection : UInt8
  task : UInt8
  highConnection : UInt8
  function : UInt8
  data : List UInt8
  fits : NcpBuf.requestSize + data.length ≤ ipxMaxData

def ClientType.bytes : ClientType → List UInt8
  | .create => [0x11, 0x11]
  | .request => [0x22, 0x22]

def ClientPacket.bytes (r : ClientPacket) : List UInt8 :=
  r.typ.bytes ++ [r.sequence, r.connection, r.task, r.highConnection, r.function] ++ r.data

/-- What nwbind answers to a request. -/
structure BindAnswer where
  completition : UInt8
  connectStatus : UInt8
  data : List UInt8
  fits : NcpBuf.responseSize + data.length ≤ ipxMaxData

/-- The reply of nwbind to a packet. -/
def BindAnswer.bytes (a : BindAnswer) (request : List UInt8) : List UInt8 :=
  [0x33, 0x33, NcpBuf.sequence request, NcpBuf.connection request, NcpBuf.task request,
    NcpBuf.highConnection request, a.completition, a.connectStatus] ++ a.data

/-- Where a packet in the pipe comes from; the requests of the client are numbered. -/
inductive Origin where
  | client (id : Nat)
  /-- the reply of nwbind to the packet with a request -/
  | nwbind (id : Nat)
deriving DecidableEq

def Origin.id : Origin → Nat
  | .client id | .nwbind id => id

structure PipePacket where
  origin : Origin
  bytes : List UInt8

/-- A packet for nwbind, made for a request. -/
structure BindPacket where
  id : Nat
  bytes : List UInt8

/-- nwconn is busy with a packet, of which `read` returned `dataLen` bytes. -/
structure Reading where
  packet : PipePacket
  dataLen : Nat

structure OnceState (σ : Type) where
  /-- What the client has asked for. -/
  requests : List ClientPacket
  /-- The client has seen the reply to its last request. -/
  seen : Bool
  /-- Copies of requests on the way to ncpserv. -/
  net : List Nat
  /-- What nwconn sent since the client made its last request. -/
  inbox : List (List UInt8)
  /-- `sequence` of the `CONNECTION` of ncpserv. -/
  sequence : UInt8
  pipe : List PipePacket
  reading : Option Reading
  nwconn : Nwconn σ
  toBind : List BindPacket
  /-- The request in `saved_readbuff`. -/
  savedId : Nat
  /-- The last reply, as it was sent. -/
  lastReply : List UInt8
  /-- The requests that nwconn executed or sent on to nwbind. -/
  handled : List Nat
  /-- The requests that nwbind executed. -/
  bound : List Nat
  /-- The packets that nwconn read and did nothing about. -/
  dropped : List Origin
  /-- For each copy of the last reply, the reply and the copy. -/
  copies : List (List UInt8 × List UInt8)
  /-- For each saved request that was completed, the request and the one replied to. -/
  completed : List (Nat × Nat)

inductive OnceEvent where
  /-- The client makes its next request. -/
  | request (r : ClientPacket)
  /-- The client sends its last request again. -/
  | retransmit
  | lose (i : Nat)
  /-- ncpserv gets a packet of the client. -/
  | arrive
  /-- `read` of nwconn returns. -/
  | read
  /-- nwconn handles what it has read, at a time. -/
  | handle (now : Int)
  /-- nwbind handles a packet. -/
  | bind (i : Nat) (answer : BindAnswer)
  | loseReply (i : Nat)
  /-- The client gets a packet of nwconn. -/
  | receive (i : Nat)

/-! ## The pipe -/

/-- What is left of the packets in a pipe when some bytes are read. -/
def unread : Nat → List PipePacket → List PipePacket
  | _, [] => []
  | n, p :: rest =>
      if p.bytes.length ≤ n then unread (n - p.bytes.length) rest
      else ⟨p.origin, p.bytes.drop n⟩ :: rest

/-- The packets in a pipe of which bytes are read. -/
def touched : Nat → List PipePacket → List PipePacket
  | 0, _ | _, [] => []
  | n + 1, p :: rest => p :: touched (n + 1 - p.bytes.length) rest

/-- What `read` returns: the bytes of the packets have no marks between them. -/
def readBytes (pipe : List PipePacket) : List UInt8 :=
  (pipe.flatMap PipePacket.bytes).take ipxMaxData

/-! ## Steps -/

namespace OnceState

variable {σ : Type} (f : NwconnFuncs σ) (s : OnceState σ)

/-- The client makes a request, when it has seen the reply to the one before. Its
sequence number is the next one, that of the first request is free. -/
def request (r : ClientPacket) : OnceState σ :=
  if s.seen then
    { s with
      requests := s.requests ++ [{ r with
        sequence := match s.requests.getLast? with
          | some last => last.sequence + 1
          | none => r.sequence }]
      seen := false
      net := s.net ++ [s.requests.length]
      inbox := [] }
  else s

/-- `handle_ncp_request`, for a packet of the client. -/
def arrive : OnceState σ :=
  match s.net with
  | [] => s
  | id :: net =>
      let s := { s with net := net }
      match s.requests[id]? with
      | none => s
      | some r =>
          -- the request is being serviced
          if r.typ = .request ∧ r.sequence = s.sequence ∧ s.reading.isSome then s
          else
            { s with
              pipe := s.pipe ++ [⟨.client id, r.bytes⟩]
              sequence := if r.typ = .create then 0 else r.sequence }

/-- nwconn is free, and reads. -/
def read : OnceState σ :=
  match s.reading, s.pipe with
  | none, p :: rest =>
      let bytes := readBytes s.pipe
      { s with
        reading := some ⟨p, bytes.length⟩
        pipe := unread bytes.length s.pipe
        dropped := s.dropped ++ (touched (bytes.length - p.bytes.length) rest).map (·.origin)
        nwconn := { s.nwconn with readbuff := bytes ++ s.nwconn.readbuff.drop bytes.length } }
  | _, _ => s

/-- nwconn sends a packet to the client. -/
def send (sent : List UInt8) : OnceState σ := { s with inbox := s.inbox ++ [sent] }

/-- What comes of the handling of a packet. -/
def note (origin : Origin) : NwconnDid → OnceState σ
  | .resent sent => { s.send sent with copies := s.copies ++ [(s.lastReply, sent)] }
  | .answered sent => { s.send sent with lastReply := sent, handled := s.handled ++ [origin.id] }
  | .forwarded request saved =>
      { s with
        toBind := s.toBind ++ [⟨origin.id, request⟩]
        handled := s.handled ++ [origin.id]
        savedId := if saved then origin.id else s.savedId }
  | .completed sent =>
      { s.send sent with lastReply := sent, completed := s.completed ++ [(s.savedId, origin.id)] }
  | .passedOn sent => { s.send sent with lastReply := sent }
  | .wdogReset packet =>
      { s with
        toBind := s.toBind ++ [⟨origin.id, packet⟩]
        dropped := s.dropped ++ [origin] }
  | .toldNwbind _ => s

def handle (now : Int) : OnceState σ :=
  match s.reading with
  | none => s
  | some r =>
      let (did, nwconn) := s.nwconn.mainLoop f r.dataLen now
      { s.note r.packet.origin did with reading := none, nwconn := nwconn }

/-- The loop of `main` of nwbind. -/
def bind (i : Nat) (answer : BindAnswer) : OnceState σ :=
  match s.toBind[i]? with
  | none => s
  | some p =>
      let s := { s with toBind := s.toBind.eraseIdx i }
      -- function 0 is the reset of the watchdog
      if NcpBuf.function p.bytes = 0 then s
      else
        { s with
          bound := s.bound ++ [p.id]
          pipe := s.pipe ++ [⟨.nwbind p.id, answer.bytes p.bytes⟩] }

/-- The client sees the reply when the sequence number is the one of its request. -/
def receive (i : Nat) : OnceState σ :=
  match s.inbox[i]?, s.requests.getLast? with
  | some reply, some r =>
      { s with
        inbox := s.inbox.eraseIdx i
        seen := s.seen || NcpBuf.sequence reply = r.sequence }
  | _, _ => s

end OnceState

def onceMachine {σ : Type} (f : NwconnFuncs σ) : Machine (OnceState σ) OnceEvent Unit where
  step s e := ((), match e with
    | .request r => s.request r
    | .retransmit => if s.seen then s else { s with net := s.net ++ [s.requests.length - 1] }
    | .lose i => { s with net := s.net.eraseIdx i }
    | .arrive => s.arrive
    | .read => s.read
    | .handle now => s.handle f now
    | .bind i answer => s.bind i answer
    | .loseReply i => { s with inbox := s.inbox.eraseIdx i }
    | .receive i => s.receive i)

/-- The start of nwconn for a connection, at a time. -/
def OnceState.start {σ : Type} (connection highConnection : UInt8) (time : Int) (state : σ) :
    OnceState σ where
  requests := []
  seen := true
  net := []
  inbox := []
  sequence := 0
  pipe := []
  reading := none
  nwconn := {
    readbuff := []
    savedReadbuff := List.replicate ipxMaxData 0
    savedSequence := -1
    lastSequence := -9999
    lastTime := time
    reply := ⟨0, connection, 1, highConnection, 0, 0, List.replicate (ipxMaxData - 8) 0⟩
    len := 0
    state := state }
  toBind := []
  savedId := 0
  lastReply := []
  handled := []
  bound := []
  dropped := []
  copies := []
  completed := []

/-! ## Once -/

/-- Nothing that nwconn reads is dropped, nothing is executed twice, copies of replies are
copies, and a saved request is completed with the reply to it. -/
structure HandledOnce {σ : Type} (s : OnceState σ) : Prop where
  kept : s.dropped = []
  once : s.handled.Nodup
  onceBound : s.bound.Nodup
  copies : ∀ copy ∈ s.copies, copy.2 = copy.1
  completed : ∀ done ∈ s.completed, done.2 = done.1

/-- A packet with a sequence number is at nwbind, or a reply of nwbind with it is in the pipe. -/
def OnceState.Awaits {σ : Type} (s : OnceState σ) (sequence : UInt8) : Prop :=
  (∃ p ∈ s.toBind, NcpBuf.sequence p.bytes = sequence) ∨
    ∃ p ∈ s.pipe, NcpBuf.typ p.bytes = 0x3333 ∧ NcpBuf.sequence p.bytes = sequence

/-- A `read` gets one packet and no byte of the next. When nwconn handles a packet of its
client, no watchdog reset is due; the last request that was answered comes again only when
it does not ask for a connection, and when the reply has no connect status; and any other
request comes only when nwconn waits for no reply with its sequence number. -/
def HandlesOnce {σ : Type} (s : OnceState σ) : OnceEvent → Prop
  | .read => ∀ p rest, s.reading = none → s.pipe = p :: rest →
      (readBytes s.pipe).length ≤ p.bytes.length
  | .handle now => s.reading ≠ none → NcpBuf.typ s.nwconn.readbuff ≠ 0x3333 →
      ¬s.nwconn.ResetDue now ∧
        if s.nwconn.lastSequence = (NcpBuf.sequence s.nwconn.readbuff).toNat then
          NcpBuf.typ s.nwconn.readbuff ≠ 0x1111 ∧ s.nwconn.reply.connectStatus = 0
        else ¬s.Awaits (NcpBuf.sequence s.nwconn.readbuff)
  | _ => True

/-! ### The fields of buffers -/

section

theorem NcpBuf.typ_cons (a b : UInt8) (rest : List UInt8) :
    NcpBuf.typ (a :: b :: rest) = a.toNat * 256 + b.toNat := rfl

theorem ClientPacket.length_bytes (r : ClientPacket) :
    r.bytes.length = NcpBuf.requestSize + r.data.length := by
  obtain ⟨typ, _, _, _, _, _, _, _⟩ := r
  unfold ClientPacket.bytes
  cases typ with
  | create => rw [List.length_append]; rfl
  | request => rw [List.length_append]; rfl

theorem BindAnswer.length_bytes (a : BindAnswer) (request : List UInt8) :
    (a.bytes request).length = NcpBuf.responseSize + a.data.length := by
  unfold BindAnswer.bytes
  rw [List.length_append]
  rfl

theorem ClientPacket.typ_append (r : ClientPacket) (rest : List UInt8) :
    NcpBuf.typ (r.bytes ++ rest) = match r.typ with
      | .create => 0x1111
      | .request => 0x2222 := by
  obtain ⟨typ, _, _, _, _, _, _, _⟩ := r
  unfold ClientPacket.bytes
  cases typ with
  | create => exact NcpBuf.typ_cons _ _ _
  | request => exact NcpBuf.typ_cons _ _ _

theorem ClientPacket.sequence_append (r : ClientPacket) (rest : List UInt8) :
    NcpBuf.sequence (r.bytes ++ rest) = r.sequence := by
  obtain ⟨typ, _, _, _, _, _, _, _⟩ := r
  cases typ with
  | create => rfl
  | request => rfl

theorem ClientPacket.task_append (r : ClientPacket) (rest : List UInt8) :
    NcpBuf.task (r.bytes ++ rest) = r.task := by
  obtain ⟨typ, _, _, _, _, _, _, _⟩ := r
  cases typ with
  | create => rfl
  | request => rfl

theorem ClientPacket.typ_append_ne (r : ClientPacket) (rest : List UInt8) :
    NcpBuf.typ (r.bytes ++ rest) ≠ 0x3333 ∧ NcpBuf.typ (r.bytes ++ rest) ≠ 0x2121 := by
  rw [r.typ_append]
  cases r.typ with
  | create => decide
  | request => decide

theorem ClientPacket.requestSize_le (r : ClientPacket) (rest : List UInt8) :
    NcpBuf.requestSize ≤ (r.bytes ++ rest).length := by
  rw [List.length_append, r.length_bytes]
  exact (Nat.le_add_right _ _).trans (Nat.le_add_right _ _)

/-- A packet of the client is handled as a request, unless a watchdog reset is due. -/
theorem ClientPacket.mainLoop_eq {σ : Type} (r : ClientPacket) (f : NwconnFuncs σ) {s : Nwconn σ}
    {rest : List UInt8} (hread : s.readbuff = r.bytes ++ rest) (dataLen : Nat) {now : Int}
    (hreset : ¬s.ResetDue now) :
    s.mainLoop f dataLen now = s.presetReply.handleNcpServ f dataLen := by
  obtain ⟨hreply, hnwbind⟩ := r.typ_append_ne rest
  rw [← hread] at hreply hnwbind
  exact Nwconn.mainLoop_request f hreply hreset hnwbind

theorem ReplyBuf.take_bytes (b : ReplyBuf) (n : Nat) :
    b.bytes.take (NcpBuf.responseSize + n) = b.header ++ b.responsedata.take n :=
  @List.take_length_add_append _ b.header b.responsedata n

end

/-! ### What holds between the parties -/

def Origin.client? : Origin → Option Nat
  | .client id => some id
  | .nwbind _ => none

def Origin.nwbind? : Origin → Option Nat
  | .client _ => none
  | .nwbind id => some id

namespace OnceState

variable {σ : Type} (s : OnceState σ)

/-- The packets that ncpserv has written and nwconn has not handled. -/
def queue : List PipePacket := (s.reading.map (·.packet)).toList ++ s.pipe

/-- The copies of requests that nwconn has not handled, in their order. -/
def underway : List Nat := s.queue.filterMap (·.origin.client?) ++ s.net

/-- The requests whose replies nwconn waits for. -/
def awaited : List Nat := s.toBind.map (·.id) ++ s.queue.filterMap (·.origin.nwbind?)

/-- A packet is what its origin says. -/
def Genuine (p : PipePacket) : Prop :=
  ∃ r, s.requests[p.origin.id]? = some r ∧ match p.origin with
    | .client _ => p.bytes = r.bytes
    | .nwbind _ => NcpBuf.typ p.bytes = 0x3333 ∧ NcpBuf.sequence p.bytes = r.sequence ∧
        NcpBuf.task p.bytes = r.task ∧ NcpBuf.responseSize ≤ p.bytes.length ∧
        p.bytes.length ≤ ipxMaxData

/-- nwconn reads the request that follows those it has handled, and waits for no reply. -/
structure IsNext (id : Nat) (q : ClientPacket) : Prop where
  handled : s.handled.length = id
  asked : s.requests[id]? = some q
  sequence : NcpBuf.sequence s.nwconn.readbuff = q.sequence
  task : NcpBuf.task s.nwconn.readbuff = q.task
  toBind : s.toBind = []
  pipe : s.pipe.filterMap (·.origin.nwbind?) = []
  ordered : (s.pipe.filterMap (·.origin.client?) ++ s.net).Pairwise (· ≤ ·)
  recent : ∀ id' ∈ s.pipe.filterMap (·.origin.client?) ++ s.net,
    id ≤ id' ∧ id' < s.requests.length

end OnceState

/-- What holds while requests are handled once and `answered` of them are answered. -/
structure OnceOk {σ : Type} (s : OnceState σ) (answered : Nat) : Prop where
  increasing : ∀ i r r', s.requests[i]? = some r → s.requests[i + 1]? = some r' →
    r'.sequence = r.sequence + 1
  handled : s.handled = List.range s.handled.length
  answered_le : answered ≤ s.handled.length
  handled_le : s.handled.length ≤ s.requests.length
  atOnce : s.requests.length ≤ answered + 1
  seen : s.seen = true → s.requests.length ≤ answered
  asked : s.seen = false → 0 < s.requests.length
  awaited : s.awaited = if s.handled.length = answered then [] else [answered]
  ordered : s.underway.Pairwise (· ≤ ·)
  recent : ∀ id ∈ s.underway, s.handled.length ≤ id + 1 ∧ id < s.requests.length
  genuine : ∀ p ∈ s.queue, s.Genuine p
  toBind : ∀ p ∈ s.toBind, ∃ r, s.requests[p.id]? = some r ∧ NcpBuf.sequence p.bytes = r.sequence ∧
    NcpBuf.task p.bytes = r.task ∧ NcpBuf.function p.bytes ≠ 0
  reading : ∀ r, s.reading = some r → r.dataLen = r.packet.bytes.length ∧
    ∃ rest, s.nwconn.readbuff = r.packet.bytes ++ rest
  last : if answered = 0 then s.nwconn.lastSequence = -9999 else
    ∃ r, s.requests[answered - 1]? = some r ∧ s.nwconn.lastSequence = r.sequence.toNat
  reply : s.handled.length = answered → answered ≠ 0 → ∃ r, s.requests[answered - 1]? = some r ∧
    s.nwconn.reply.sequence = r.sequence ∧ s.nwconn.reply.task = r.task ∧
    s.lastReply = s.nwconn.sent ∧ ∃ n, s.nwconn.len = NcpBuf.responseSize + n
  saved : s.nwconn.savedSequence = -1 ∨ s.handled.length = answered + 1 ∧ s.savedId = answered ∧
    ∃ r, s.requests[answered]? = some r ∧ s.nwconn.savedSequence = r.sequence.toNat ∧
      NcpBuf.sequence s.nwconn.savedReadbuff = r.sequence ∧ NcpBuf.task s.nwconn.savedReadbuff = r.task
  bound : ∀ id ∈ s.bound, id < s.handled.length ∧ ∀ p ∈ s.toBind, id < p.id
  inbox : ∀ reply ∈ s.inbox, ∀ r, s.requests.getLast? = some r → NcpBuf.sequence reply = r.sequence →
    s.requests.length ≤ answered
  once : HandledOnce s

namespace OnceOk

variable {σ : Type} {s : OnceState σ} {answered : Nat} (h : OnceOk s answered)

include h

theorem handled_le_succ : s.handled.length ≤ answered + 1 := h.handled_le.trans h.atOnce

/-- The requests that may come are the last one that was answered and the next. -/
theorem underway_cases {id : Nat} (hid : id ∈ s.underway) : id = answered ∨ id + 1 = answered := by
  have hrecent := h.recent id hid
  have hle := h.answered_le
  have hlast := h.atOnce
  omega

/-- A request has the sequence number of the last one that was answered just when it is it. -/
theorem sequence_eq_iff {id : Nat} {r : ClientPacket} (hid : id ∈ s.underway)
    (hr : s.requests[id]? = some r) :
    s.nwconn.lastSequence = r.sequence.toNat ↔ id + 1 = answered := by
  have hlast := h.last
  split at hlast
  next hzero =>
    rw [hlast, hzero]
    constructor
    · intro heq
      omega
    · intro heq
      omega
  next hpos =>
    obtain ⟨last, hget, hsequence⟩ := hlast
    rw [hsequence]
    constructor
    · intro heq
      rcases h.underway_cases hid with rfl | hdone
      · have hnext := h.increasing (id - 1) last r hget (by rwa [Nat.sub_add_cancel (by omega)])
        have hsame : last.sequence = r.sequence := UInt8.toNat_inj.mp (by exact_mod_cast heq)
        rw [hsame] at hnext
        exact absurd hnext (by simp)
      · exact hdone
    · intro hdone
      have hidx : answered - 1 = id := by omega
      rw [hidx, hr] at hget
      rw [Option.some.inj hget]

/-- Copies of requests are lost. -/
theorem fewerCopies {net : List Nat} (hnet : net.Sublist s.net) :
    OnceOk { s with net := net } answered := by
  have hsub : (s.queue.filterMap (·.origin.client?) ++ net).Sublist s.underway :=
    List.Sublist.append (List.Sublist.refl _) hnet
  exact { h with
    ordered := h.ordered.sublist hsub
    recent := fun id hid => h.recent id (hsub.subset hid)
    once := ⟨h.once.kept, h.once.once, h.once.onceBound, h.once.copies, h.once.completed⟩ }

omit h in
/-- What the client has asked for stays. -/
theorem getElem?_requests {requests : List ClientPacket} {i : Nat} {r : ClientPacket}
    (hr : requests[i]? = some r) (more : List ClientPacket) : (requests ++ more)[i]? = some r := by
  rw [List.getElem?_append_left (List.getElem?_eq_some_iff.mp hr).1, hr]

omit h in
theorem genuine_append {s' : OnceState σ} {more : List ClientPacket}
    (hrequests : s'.requests = s.requests ++ more) {p : PipePacket} (hp : s.Genuine p) :
    s'.Genuine p := by
  obtain ⟨r, hr, hbytes⟩ := hp
  exact ⟨r, hrequests ▸ getElem?_requests hr more, hbytes⟩

/-- The client makes a request. -/
theorem request (r : ClientPacket) : OnceOk (s.request r) answered := by
  unfold OnceState.request
  split
  next hseen =>
    have hall : s.requests.length = answered :=
      Nat.le_antisymm (h.seen hseen) (h.answered_le.trans h.handled_le)
    have hhandled : s.handled.length = answered :=
      Nat.le_antisymm (hall ▸ h.handled_le) h.answered_le
    have hlast := h.last
    generalize hr' : ({ r with sequence := _ } : ClientPacket) = r'
    have hunderway : OnceState.underway { s with
        requests := s.requests ++ [r']
        seen := false
        net := s.net ++ [s.requests.length]
        inbox := [] } = s.underway ++ [s.requests.length] := (List.append_assoc _ _ _).symm
    exact {
      increasing := by
        intro i x y hx hy
        dsimp only at hx hy
        by_cases hi : i + 1 < s.requests.length
        · rw [List.getElem?_append_left hi] at hy
          rw [List.getElem?_append_left (Nat.lt_of_succ_lt hi)] at hx
          exact h.increasing i x y hx hy
        · obtain ⟨hlt, -⟩ := List.getElem?_eq_some_iff.mp hy
          rw [List.length_append, List.length_singleton] at hlt
          have hi' : i + 1 = s.requests.length := by omega
          rw [List.getElem?_append_left (by omega)] at hx
          rw [hi', List.getElem?_concat_length] at hy
          have hlastRequest : s.requests.getLast? = some x := by
            rw [List.getLast?_eq_getElem?, ← hi']
            exact hx
          rw [← Option.some.inj hy, ← hr', hlastRequest]
      handled := h.handled
      answered_le := h.answered_le
      handled_le := by
        dsimp only
        rw [List.length_append]
        exact h.handled_le.trans (Nat.le_add_right _ _)
      atOnce := by
        dsimp only
        rw [List.length_append, hall]
        exact Nat.le_refl _
      seen := nofun
      asked := fun _ => by
        dsimp only
        rw [List.length_append]
        exact Nat.lt_add_left _ Nat.zero_lt_one
      awaited := h.awaited
      ordered := by
        rw [hunderway]
        refine List.pairwise_append.mpr ⟨h.ordered, List.pairwise_singleton _ _, ?_⟩
        intro id hid new hnew
        rw [List.mem_singleton.mp hnew]
        exact Nat.le_of_lt (h.recent id hid).2
      recent := by
        intro id hid
        rw [hunderway] at hid
        dsimp only
        rw [List.length_append, List.length_singleton]
        rcases List.mem_append.mp hid with hold | hnew
        · exact ⟨(h.recent id hold).1, Nat.lt_succ_of_lt (h.recent id hold).2⟩
        · rw [List.mem_singleton.mp hnew]
          exact ⟨Nat.le_succ_of_le h.handled_le, Nat.lt_succ_self _⟩
      genuine := fun p hp => genuine_append rfl (h.genuine p hp)
      toBind := fun p hp => by
        obtain ⟨x, hx, hfields⟩ := h.toBind p hp
        exact ⟨x, getElem?_requests hx _, hfields⟩
      reading := h.reading
      last := by
        dsimp only
        split at hlast
        next hzero => rwa [if_pos hzero]
        next hpos =>
          rw [if_neg hpos]
          obtain ⟨x, hx, hsequence⟩ := hlast
          exact ⟨x, getElem?_requests hx _, hsequence⟩
      reply := fun hnone hpos => by
        obtain ⟨x, hx, hreply⟩ := h.reply hnone hpos
        exact ⟨x, getElem?_requests hx _, hreply⟩
      saved := by
        rcases h.saved with hnone | ⟨hwaits, -⟩
        · exact .inl hnone
        · omega
      bound := h.bound
      inbox := nofun
      once := ⟨h.once.kept, h.once.once, h.once.onceBound, h.once.copies, h.once.completed⟩ }
  next => exact h

/-- The client sends its last request again. -/
theorem retransmit (hseen : s.seen = false) :
    OnceOk { s with net := s.net ++ [s.requests.length - 1] } answered := by
  have hpos := h.asked hseen
  have hunderway : OnceState.underway { s with net := s.net ++ [s.requests.length - 1] } =
      s.underway ++ [s.requests.length - 1] := (List.append_assoc _ _ _).symm
  exact { h with
    ordered := by
      rw [hunderway]
      refine List.pairwise_append.mpr ⟨h.ordered, List.pairwise_singleton _ _, ?_⟩
      intro id hid new hnew
      rw [List.mem_singleton.mp hnew]
      exact Nat.le_sub_one_of_lt (h.recent id hid).2
    recent := by
      intro id hid
      rw [hunderway] at hid
      rcases List.mem_append.mp hid with hold | hnew
      · exact h.recent id hold
      · rw [List.mem_singleton.mp hnew, Nat.sub_add_cancel hpos]
        exact ⟨h.handled_le, Nat.sub_one_lt_of_lt hpos⟩
    once := ⟨h.once.kept, h.once.once, h.once.onceBound, h.once.copies, h.once.completed⟩ }

/-- ncpserv writes a request to the pipe, or answers that it is being serviced. -/
theorem arrive : OnceOk s.arrive answered := by
  unfold OnceState.arrive
  split
  next => exact h
  next id net hnet =>
    dsimp only
    have hfewer : OnceOk { s with net := net } answered :=
      h.fewerCopies (hnet ▸ List.sublist_cons_self id net)
    split
    next => exact hfewer
    next r hr =>
      split
      next => exact hfewer
      next =>
        -- the copy is moved from one place to the other
        have hqueue : ∀ q, OnceState.queue { s with pipe := s.pipe ++ [q] } = s.queue ++ [q] :=
          fun q => (List.append_assoc _ _ _).symm
        generalize hq : (⟨.client id, r.bytes⟩ : PipePacket) = q
        have hunderway : (s.queue ++ [q]).filterMap (·.origin.client?) ++ net = s.underway := by
          unfold OnceState.underway
          rw [List.filterMap_append, hnet, ← hq, List.append_assoc]
          rfl
        exact { h with
          awaited := by
            refine Eq.trans ?_ h.awaited
            change s.toBind.map (·.id) ++ (OnceState.queue { s with pipe := s.pipe ++ [q] }).filterMap _ = _
            rw [hqueue, List.filterMap_append, ← hq]
            exact congrArg _ (List.append_nil _)
          ordered := by
            change ((OnceState.queue { s with pipe := s.pipe ++ [q] }).filterMap _ ++ net).Pairwise _
            rw [hqueue, hunderway]
            exact h.ordered
          recent := by
            intro id' hid
            change id' ∈ (OnceState.queue { s with pipe := s.pipe ++ [q] }).filterMap _ ++ net at hid
            rw [hqueue, hunderway] at hid
            exact h.recent id' hid
          genuine := by
            intro p hp
            change p ∈ OnceState.queue { s with pipe := s.pipe ++ [q] } at hp
            rw [hqueue] at hp
            rcases List.mem_append.mp hp with hold | hnew
            · exact h.genuine p hold
            · rw [List.mem_singleton.mp hnew, ← hq]
              exact ⟨r, hr, rfl⟩
          once := ⟨h.once.kept, h.once.once, h.once.onceBound, h.once.copies, h.once.completed⟩ }

/-- The client gets a packet. -/
theorem receive (i : Nat) : OnceOk (s.receive i) answered := by
  unfold OnceState.receive
  split
  next reply r hreply hr =>
    exact { h with
      seen := by
        intro hseen
        rcases (Bool.or_eq_true _ _).mp hseen with hold | hnew
        · exact h.seen hold
        · exact h.inbox reply (List.mem_of_getElem? hreply) r hr (of_decide_eq_true hnew)
      asked := fun hseen => h.asked ((Bool.or_eq_false_iff.mp hseen).1)
      inbox := fun reply' hmem => h.inbox reply' (List.mem_of_mem_eraseIdx hmem)
      once := ⟨h.once.kept, h.once.once, h.once.onceBound, h.once.copies, h.once.completed⟩ }
  next => exact h

theorem loseReply (i : Nat) : OnceOk { s with inbox := s.inbox.eraseIdx i } answered :=
  { h with
    inbox := fun reply' hmem => h.inbox reply' (List.mem_of_mem_eraseIdx hmem)
    once := ⟨h.once.kept, h.once.once, h.once.onceBound, h.once.copies, h.once.completed⟩ }

omit h in
theorem Genuine.length_le {p : PipePacket} (hp : s.Genuine p) : p.bytes.length ≤ ipxMaxData := by
  obtain ⟨r, -, hbytes⟩ := hp
  split at hbytes
  next =>
    rw [hbytes, r.length_bytes]
    exact r.fits
  next => exact hbytes.2.2.2.2

omit h in
theorem readBytes_cons {p : PipePacket} (hp : p.bytes.length ≤ ipxMaxData) (rest : List PipePacket) :
    readBytes (p :: rest) =
      p.bytes ++ (rest.flatMap PipePacket.bytes).take (ipxMaxData - p.bytes.length) := by
  unfold readBytes
  rw [List.flatMap_cons, List.take_append, List.take_of_length_le hp]

omit h in
theorem unread_zero (pipe : List PipePacket) (hpipe : ∀ p ∈ pipe, p.bytes ≠ []) :
    unread 0 pipe = pipe := by
  cases pipe with
  | nil => rfl
  | cons p rest =>
      have hp := List.length_pos_iff.mpr (hpipe p List.mem_cons_self)
      unfold unread
      rw [if_neg (Nat.not_le.mpr hp)]
      rfl

omit h in
theorem Genuine.ne_nil {p : PipePacket} (hp : s.Genuine p) : p.bytes ≠ [] := by
  obtain ⟨r, -, hbytes⟩ := hp
  apply List.ne_nil_of_length_pos
  split at hbytes
  next =>
    rw [hbytes, r.length_bytes]
    exact Nat.lt_of_lt_of_le (by decide) (Nat.le_add_right _ _)
  next => exact Nat.lt_of_lt_of_le (by decide) hbytes.2.2.2.1

/-- nwconn reads one packet. -/
theorem read (hone : HandlesOnce s .read) : OnceOk s.read answered := by
  unfold OnceState.read
  split
  next p rest hreading hpipe =>
    have hqueue : s.queue = p :: rest := by
      unfold OnceState.queue
      rw [hreading, hpipe]
      rfl
    have hgenuine : ∀ q ∈ p :: rest, s.Genuine q := fun q hq => h.genuine q (hqueue ▸ hq)
    have hp := hgenuine p List.mem_cons_self
    have hle := hone p rest hreading hpipe
    have hbytes : readBytes s.pipe = p.bytes := by
      rw [hpipe, readBytes_cons (Genuine.length_le hp)] at hle ⊢
      rw [List.length_append] at hle
      have hnil := List.length_eq_zero_iff.mp (Nat.le_zero.mp (Nat.le_of_add_le_add_left hle))
      rw [hnil, List.append_nil]
    have hunread : unread p.bytes.length s.pipe = rest := by
      rw [hpipe, unread, if_pos (Nat.le_refl _), Nat.sub_self]
      exact unread_zero rest fun q hq => Genuine.ne_nil (hgenuine q (List.mem_cons_of_mem _ hq))
    dsimp only
    rw [hbytes, hunread, Nat.sub_self]
    exact { h with
      awaited := by
        refine Eq.trans ?_ h.awaited
        unfold OnceState.awaited
        rw [hqueue]
        rfl
      ordered := by
        have hordered := h.ordered
        unfold OnceState.underway at hordered
        rw [hqueue] at hordered
        exact hordered
      recent := by
        have hrecent := h.recent
        unfold OnceState.underway at hrecent
        rw [hqueue] at hrecent
        exact hrecent
      genuine := hgenuine
      reading := fun r hr => by
        rw [← Option.some.inj hr]
        exact ⟨rfl, _, rfl⟩
      once := ⟨by simpa [touched] using h.once.kept, h.once.once, h.once.onceBound, h.once.copies,
        h.once.completed⟩ }
  next => exact h

/-- A read that gets bytes of a second packet drops it. -/
theorem not_read (hmore : ¬HandlesOnce s .read) : ¬HandledOnce s.read := by
  intro hnext
  apply hmore
  intro p rest hreading hpipe
  have hqueue : s.queue = p :: rest := by
    unfold OnceState.queue
    rw [hreading, hpipe]
    rfl
  have hp := h.genuine p (hqueue ▸ List.mem_cons_self)
  have hkept := hnext.kept
  unfold OnceState.read at hkept
  rw [hreading, hpipe] at hkept
  have hnone := List.map_eq_nil_iff.mp (List.append_eq_nil_iff.mp hkept).2
  rw [hpipe]
  by_contra hlt
  cases rest with
  | nil =>
      rw [readBytes_cons (Genuine.length_le hp)] at hlt
      simp at hlt
  | cons q rest =>
      obtain ⟨n, hn⟩ := Nat.exists_eq_add_of_lt (Nat.not_le.mp hlt)
      rw [hn, Nat.add_assoc, Nat.add_sub_cancel_left, touched] at hnone
      contradiction

/-- nwconn waits for one reply at most. -/
theorem awaited_cases {before after : List Nat} {id : Nat} (heq : s.awaited = before ++ id :: after) :
    before = [] ∧ after = [] ∧ id = answered ∧ s.handled.length = answered + 1 := by
  have hawaited := h.awaited
  have hle := h.handled_le_succ
  have hge := h.answered_le
  rw [heq] at hawaited
  split at hawaited
  next => exact absurd hawaited (by simp)
  next =>
    have hlen := congrArg List.length hawaited
    simp only [List.length_append, List.length_cons, List.length_nil] at hlen
    obtain rfl := List.length_eq_zero_iff.mp (show before.length = 0 by omega)
    obtain rfl := List.length_eq_zero_iff.mp (show after.length = 0 by omega)
    exact ⟨rfl, rfl, List.head_eq_of_cons_eq hawaited, by omega⟩

/-- nwbind handles a packet. -/
theorem bind (i : Nat) (answer : BindAnswer) : OnceOk (s.bind i answer) answered := by
  unfold OnceState.bind
  split
  next => exact h
  next p hp =>
    obtain ⟨r, hr, hsequence, htask, hfunction⟩ := h.toBind p (List.mem_of_getElem? hp)
    dsimp only
    rw [if_neg hfunction]
    obtain ⟨hlt, hget⟩ := List.getElem?_eq_some_iff.mp hp
    have hsplit : s.toBind = s.toBind.take i ++ p :: s.toBind.drop (i + 1) := by
      rw [← hget, List.getElem_cons_drop, List.take_append_drop]
    have heq : s.awaited = (s.toBind.take i).map (·.id) ++
        p.id :: ((s.toBind.drop (i + 1)).map (·.id) ++ s.queue.filterMap (·.origin.nwbind?)) := by
      refine (congrArg (fun l => l.map BindPacket.id ++ s.queue.filterMap (·.origin.nwbind?)) hsplit).trans ?_
      rw [List.map_append, List.map_cons, List.append_assoc, List.cons_append]
    obtain ⟨hbefore, hafter, hid, hhandled⟩ := h.awaited_cases heq
    obtain ⟨hafter, hqueue⟩ := List.append_eq_nil_iff.mp hafter
    have herase : s.toBind.eraseIdx i = [] := by
      rw [List.eraseIdx_eq_take_drop_succ, List.map_eq_nil_iff.mp hbefore,
        List.map_eq_nil_iff.mp hafter]
      rfl
    have hnew : OnceState.queue { s with
        toBind := s.toBind.eraseIdx i
        bound := s.bound ++ [p.id]
        pipe := s.pipe ++ [⟨.nwbind p.id, answer.bytes p.bytes⟩] } =
        s.queue ++ [⟨.nwbind p.id, answer.bytes p.bytes⟩] := (List.append_assoc _ _ _).symm
    have hfresh : ∀ id ∈ s.bound, id < answered :=
      fun id hmem => hid ▸ (h.bound id hmem).2 p (List.mem_of_getElem? hp)
    exact { h with
      awaited := by
        unfold OnceState.awaited
        rw [hnew, List.filterMap_append, hqueue]
        dsimp only
        rw [herase, if_neg (by omega), hid]
        rfl
      ordered := by
        unfold OnceState.underway
        rw [hnew, List.filterMap_append]
        exact (List.append_nil (s.queue.filterMap (·.origin.client?))).symm ▸ h.ordered
      recent := by
        unfold OnceState.underway
        rw [hnew, List.filterMap_append]
        exact (List.append_nil (s.queue.filterMap (·.origin.client?))).symm ▸ h.recent
      genuine := by
        intro q hq
        rw [hnew] at hq
        rcases List.mem_append.mp hq with hold | hlast
        · exact h.genuine q hold
        · rw [List.mem_singleton.mp hlast]
          have hlen := answer.length_bytes p.bytes
          exact ⟨r, hr, NcpBuf.typ_cons 0x33 0x33 _, hsequence, htask, hlen ▸ Nat.le_add_right _ _, hlen ▸ answer.fits⟩
      toBind := fun q hq => absurd (herase ▸ hq) List.not_mem_nil
      bound := by
        intro id hmem
        refine ⟨?_, fun q hq => absurd (herase ▸ hq) List.not_mem_nil⟩
        rcases List.mem_append.mp hmem with hold | hlast
        · exact (h.bound id hold).1
        · rw [List.mem_singleton.mp hlast, hid, hhandled]
          exact Nat.lt_succ_self _
      once := by
        refine ⟨h.once.kept, h.once.once, ?_, h.once.copies, h.once.completed⟩
        refine List.nodup_append.mpr ⟨h.once.onceBound, List.nodup_singleton _, ?_⟩
        intro id hmem id' hlast heq'
        rw [List.mem_singleton.mp hlast, hid] at heq'
        exact absurd (hfresh id hmem) (by omega) }

omit h in
theorem queue_of_reading {r : Reading} (hr : s.reading = some r) : s.queue = r.packet :: s.pipe := by
  unfold OnceState.queue
  rw [hr]
  rfl

omit h in
theorem underway_of_reading {r : Reading} (hr : s.reading = some r) :
    s.underway =
      r.packet.origin.client?.toList ++ (s.pipe.filterMap (·.origin.client?) ++ s.net) := by
  unfold OnceState.underway
  rw [queue_of_reading hr, List.filterMap_cons]
  cases r.packet.origin with
  | client id => rfl
  | nwbind id => rfl

omit h in
theorem awaited_of_reading {r : Reading} (hr : s.reading = some r) :
    s.awaited = s.toBind.map (·.id) ++
      (r.packet.origin.nwbind?.toList ++ s.pipe.filterMap (·.origin.nwbind?)) := by
  unfold OnceState.awaited
  rw [queue_of_reading hr, List.filterMap_cons]
  cases r.packet.origin with
  | client id => rfl
  | nwbind id => rfl

/-- What nwconn sends when it reads a response of nwbind is the reply to the request. -/
theorem handle_response (f : NwconnFuncs σ) (now : Int) {r : Reading} {id : Nat}
    {q : ClientPacket} (hreading : s.reading = some r) (horigin : r.packet.origin = .nwbind id)
    (hid : id = answered) (hrequest : s.requests[answered]? = some q)
    (htyp : NcpBuf.typ s.nwconn.readbuff = 0x3333)
    (hsequence : NcpBuf.sequence s.nwconn.readbuff = q.sequence)
    (htask : NcpBuf.task s.nwconn.readbuff = q.task) :
    ∃ nwconn completed, s.handle f now = { s with
        reading := none
        nwconn := nwconn
        inbox := s.inbox ++ [nwconn.sent]
        lastReply := nwconn.sent
        completed := s.completed ++ completed } ∧ (∀ done ∈ completed, done.2 = done.1) ∧
      nwconn.lastSequence = q.sequence.toNat ∧ nwconn.reply.sequence = q.sequence ∧
      nwconn.reply.task = q.task ∧ nwconn.savedSequence = -1 ∧
      ∃ n, nwconn.len = NcpBuf.responseSize + n := by
  obtain ⟨nwconn, hsaved, hnlen, hdid⟩ := Nwconn.mainLoop_reply f r.dataLen now htyp
  unfold OnceState.handle
  rw [hreading]
  dsimp only
  rcases hdid with ⟨hcompletes, hmain, hlast, hreply, hreplyTask⟩ | ⟨hmain, hlast, hreply, hreplyTask⟩
  · -- the packet that was saved when the request went to nwbind
    rw [hmain, horigin]
    obtain ⟨hpos, -, -⟩ := hcompletes
    rcases h.saved with hnone | ⟨-, hsavedId, q', hq', -, hsequence', htask'⟩
    · omega
    · obtain rfl := Option.some.inj (hrequest.symm.trans hq')
      refine ⟨nwconn, [(s.savedId, id)], rfl, ?_, ?_, hreply.trans hsequence',
        hreplyTask.trans htask', hsaved, hnlen⟩
      · intro done hdone
        rw [List.mem_singleton.mp hdone]
        exact hid.trans hsavedId.symm
      · rw [hlast, hsequence']
  · rw [hmain]
    refine ⟨nwconn, [], ?_, nofun, ?_, hreply.trans hsequence, hreplyTask.trans htask, hsaved,
      hnlen⟩
    · rw [List.append_nil]
      rfl
    · rw [hlast, hsequence]

/-- A reply of nwbind is handled: the request is answered. -/
theorem handleReply (f : NwconnFuncs σ) (now : Int) {r : Reading} {id : Nat}
    (hreading : s.reading = some r) (horigin : r.packet.origin = .nwbind id) :
    OnceOk (s.handle f now) (answered + 1) := by
  have hqueue := queue_of_reading hreading
  obtain ⟨q, hq, hbytes⟩ := h.genuine r.packet (hqueue ▸ List.mem_cons_self)
  obtain ⟨hlen, rest, hread⟩ := h.reading r hreading
  rw [horigin] at hbytes hq
  obtain ⟨htyp, hsequence, htask, hlong, -⟩ := hbytes
  -- it is the only reply that nwconn waits for
  have heq : s.awaited = s.toBind.map (·.id) ++ id :: s.pipe.filterMap (·.origin.nwbind?) := by
    rw [awaited_of_reading hreading, horigin]
    rfl
  obtain ⟨hbefore, hafter, hid, hhandled⟩ := h.awaited_cases heq
  have hfield : ∀ i, i < NcpBuf.requestSize →
      s.nwconn.readbuff.getD i 0 = r.packet.bytes.getD i 0 := by
    intro i hi
    rw [hread]
    exact List.getD_append _ _ _ _ (Nat.lt_of_lt_of_le hi (Nat.le_trans (by decide) hlong))
  have htyp' : NcpBuf.typ s.nwconn.readbuff = 0x3333 := by
    rw [← htyp]
    unfold NcpBuf.typ
    rw [hfield 0 (by decide), hfield 1 (by decide)]
  have hsequence' : NcpBuf.sequence s.nwconn.readbuff = q.sequence :=
    (hfield 2 (by decide)).trans hsequence
  have htask' : NcpBuf.task s.nwconn.readbuff = q.task := (hfield 4 (by decide)).trans htask
  have hrequest : s.requests[answered]? = some q := hid ▸ hq
  obtain ⟨nwconn, completed, hnext, hcompleted, hlast, hreply, hreplyTask, hsaved, hnlen⟩ :=
    h.handle_response f now hreading horigin hid hrequest htyp' hsequence' htask'
  rw [hnext]
  have hunderway : s.underway = s.pipe.filterMap (·.origin.client?) ++ s.net := by
    rw [underway_of_reading hreading, horigin]
    rfl
  exact { h with
    answered_le := hhandled.ge
    atOnce := h.atOnce.trans (Nat.le_succ _)
    seen := fun _ => h.atOnce
    awaited := by
      refine Eq.trans ?_ (if_pos hhandled).symm
      change s.toBind.map (·.id) ++ s.pipe.filterMap (·.origin.nwbind?) = []
      rw [hbefore, hafter]
      rfl
    ordered := by
      have hordered := h.ordered
      rw [hunderway] at hordered
      exact hordered
    recent := by
      have hrecent := h.recent
      rw [hunderway] at hrecent
      exact hrecent
    genuine := fun p hp => h.genuine p (hqueue ▸ List.mem_cons_of_mem _ hp)
    reading := nofun
    last := by
      rw [if_neg (Nat.succ_ne_zero _)]
      exact ⟨q, hrequest, hlast⟩
    reply := fun _ _ => ⟨q, hrequest, hreply, hreplyTask, rfl, hnlen⟩
    saved := .inl hsaved
    inbox := fun _ _ _ _ _ => h.atOnce
    once := by
      refine ⟨h.once.kept, h.once.once, h.once.onceBound, h.once.copies, fun done hdone => ?_⟩
      rcases List.mem_append.mp hdone with hold | hnew
      · exact h.once.completed done hold
      · exact hcompleted done hnew }

/-- A packet of the client that nwconn has read. -/
theorem of_client {r : Reading} {id : Nat} (hreading : s.reading = some r)
    (horigin : r.packet.origin = .client id) :
    s.underway = id :: (s.pipe.filterMap (·.origin.client?) ++ s.net) ∧
      s.awaited = s.toBind.map (·.id) ++ s.pipe.filterMap (·.origin.nwbind?) ∧
      ∃ q, s.requests[id]? = some q ∧ NcpBuf.requestSize ≤ r.dataLen ∧
        ∃ rest, s.nwconn.readbuff = q.bytes ++ rest := by
  have hqueue := queue_of_reading hreading
  obtain ⟨q, hq, hbytes⟩ := h.genuine r.packet (hqueue ▸ List.mem_cons_self)
  obtain ⟨hlen, rest, hread⟩ := h.reading r hreading
  rw [horigin] at hbytes hq
  refine ⟨?_, ?_, q, hq, ?_, rest, hbytes ▸ hread⟩
  · rw [underway_of_reading hreading, horigin]
    rfl
  · rw [awaited_of_reading hreading, horigin]
    rfl
  · rw [hlen, hbytes, q.length_bytes]
    exact Nat.le_add_right _ _

/-- A packet of another type than 0x3333 is one of the client. -/
theorem client_of_typ {r : Reading} (hreading : s.reading = some r)
    (htyp : NcpBuf.typ s.nwconn.readbuff ≠ 0x3333) : ∃ id, r.packet.origin = .client id := by
  obtain ⟨q, -, hbytes⟩ := h.genuine r.packet (queue_of_reading hreading ▸ List.mem_cons_self)
  obtain ⟨-, rest, hread⟩ := h.reading r hreading
  cases horigin : r.packet.origin with
  | client id => exact ⟨id, rfl⟩
  | nwbind id =>
      rw [horigin] at hbytes
      obtain ⟨htyp', -, -, hlong, -⟩ := hbytes
      refine absurd ?_ htyp
      rw [← htyp', hread]
      unfold NcpBuf.typ
      rw [List.getD_append _ _ _ _ (Nat.lt_of_lt_of_le (by decide) hlong),
        List.getD_append _ _ _ _ (Nat.lt_of_lt_of_le (by decide) hlong)]

/-- While nwconn waits for a reply, a packet with the sequence number of the request is at
nwbind or comes from there. -/
theorem awaits_iff {id : Nat} {q : ClientPacket} (hid : id ∈ s.underway)
    (hq : s.requests[id]? = some q) (hnew : s.nwconn.lastSequence ≠ q.sequence.toNat)
    (hawaited : s.awaited = s.toBind.map (·.id) ++ s.pipe.filterMap (·.origin.nwbind?)) :
    s.Awaits q.sequence ↔ s.handled.length = answered + 1 := by
  have hid' : id = answered :=
    (h.underway_cases hid).resolve_right fun hdone => hnew ((h.sequence_eq_iff hid hq).mpr hdone)
  have hqueue : ∀ p ∈ s.pipe, s.Genuine p :=
    fun p hp => h.genuine p (List.mem_append_right _ hp)
  constructor
  · intro hawaits
    have hne : s.awaited ≠ [] := by
      rw [hawaited]
      intro hnil
      obtain ⟨hbind, hpipe⟩ := List.append_eq_nil_iff.mp hnil
      rcases hawaits with ⟨p, hp, -⟩ | ⟨p, hp, htyp, -⟩
      · rw [List.map_eq_nil_iff.mp hbind] at hp
        contradiction
      · have hclient := List.filterMap_eq_nil_iff.mp hpipe p hp
        obtain ⟨r, -, hbytes⟩ := hqueue p hp
        cases horigin : p.origin with
        | nwbind id => exact absurd hclient (by rw [horigin]; nofun)
        | client id =>
            rw [horigin] at hbytes
            have htyp' := r.typ_append []
            rw [List.append_nil, ← hbytes, htyp] at htyp'
            cases hr : r.typ with
            | create => rw [hr] at htyp'; contradiction
            | request => rw [hr] at htyp'; contradiction
    have hnone := h.awaited
    have hle := h.handled_le_succ
    have hge := h.answered_le
    by_contra hneq
    rw [if_pos (by omega)] at hnone
    exact hne hnone
  · intro hpending
    have hone : answered ∈ s.awaited := by
      rw [h.awaited, if_neg (by omega)]
      exact List.mem_singleton_self _
    rw [hawaited] at hone
    subst hid'
    rcases List.mem_append.mp hone with hbind | hpipe
    · obtain ⟨p, hp, heq⟩ := List.mem_map.mp hbind
      obtain ⟨r, hr, hsequence, -⟩ := h.toBind p hp
      rw [heq, hq] at hr
      exact .inl ⟨p, hp, Option.some.inj hr ▸ hsequence⟩
    · obtain ⟨p, hp, heq⟩ := List.mem_filterMap.mp hpipe
      obtain ⟨r, hr, hbytes⟩ := hqueue p hp
      cases horigin : p.origin with
      | client id => rw [horigin] at heq; contradiction
      | nwbind id' =>
          rw [horigin] at heq hbytes hr
          obtain rfl : id' = id := Option.some.inj heq
          obtain rfl := Option.some.inj (hr.symm.trans hq)
          exact .inr ⟨p, hp, hbytes.1, hbytes.2.1⟩

/-- The last request that was answered comes again. -/
theorem handleCopy (f : NwconnFuncs σ) (now : Int) {r : Reading} {id : Nat} {q : ClientPacket}
    (hreading : s.reading = some r) (horigin : r.packet.origin = .client id)
    (hq : s.requests[id]? = some q) {rest : List UInt8} (hread : s.nwconn.readbuff = q.bytes ++ rest)
    (hlast : s.nwconn.lastSequence = q.sequence.toNat) (htyp : q.typ = .request)
    (hstatus : s.nwconn.reply.connectStatus = 0) (hreset : ¬s.nwconn.ResetDue now) :
    OnceOk (s.handle f now) answered := by
  obtain ⟨hunderway, hawaited, -⟩ := h.of_client hreading horigin
  have hid : id ∈ s.underway := hunderway ▸ List.mem_cons_self
  have hdone : id + 1 = answered := (h.sequence_eq_iff hid hq).mp hlast
  have hhandled : s.handled.length = answered :=
    Nat.le_antisymm (hdone ▸ (h.recent id hid).1) h.answered_le
  obtain ⟨q', hq', hsequence, htask, hcopy, n, hn⟩ := h.reply hhandled (by omega)
  rw [← hdone, Nat.add_sub_cancel, hq] at hq'
  obtain rfl := Option.some.inj hq'
  have htyp' : NcpBuf.typ s.nwconn.readbuff = 0x2222 := by
    rw [hread, q.typ_append, htyp]
  have htask' : NcpBuf.task s.nwconn.readbuff = s.nwconn.reply.task := by
    rw [hread, q.task_append, htask]
  have hpreset : s.nwconn.presetReply = s.nwconn := by
    unfold Nwconn.presetReply
    rw [htask', ← hstatus]
  have hmain : s.nwconn.mainLoop f r.dataLen now = (.resent s.nwconn.sent, s.nwconn) := by
    rw [q.mainLoop_eq f hread r.dataLen hreset, hpreset]
    unfold Nwconn.handleNcpServ
    dsimp only
    rw [if_pos ⟨by rw [hlast, hread, q.sequence_append], by rw [htyp']; decide⟩]
  have hnext : s.handle f now = { s with
      reading := none
      inbox := s.inbox ++ [s.nwconn.sent]
      copies := s.copies ++ [(s.lastReply, s.nwconn.sent)] } := by
    unfold OnceState.handle
    rw [hreading]
    dsimp only
    rw [hmain]
    rfl
  rw [hnext]
  exact { h with
    awaited := by
      have hsame := h.awaited
      rw [hawaited] at hsame
      exact hsame
    ordered := by
      have hordered := h.ordered
      rw [hunderway] at hordered
      exact hordered.of_cons
    recent := fun id' hid' => h.recent id' (hunderway ▸ List.mem_cons_of_mem _ hid')
    genuine := fun p hp => h.genuine p (List.mem_append_right _ hp)
    reading := nofun
    inbox := by
      intro reply hreply last hgetLast heq
      rcases List.mem_append.mp hreply with hold | hnew
      · exact h.inbox reply hold last hgetLast heq
      · rw [List.mem_singleton.mp hnew] at heq
        by_contra hmore
        -- the client has made the next request, with another sequence number
        have hnumber : s.requests.length - 1 = id + 1 := by
          have hle := h.atOnce
          dsimp only at hmore
          omega
        dsimp only at hgetLast
        rw [List.getLast?_eq_getElem?, hnumber] at hgetLast
        have hincreasing := h.increasing id q last hq hgetLast
        unfold Nwconn.sent at heq
        rw [hn, ReplyBuf.take_bytes] at heq
        have hsame : q.sequence = last.sequence := hsequence.symm.trans heq
        rw [← hsame] at hincreasing
        exact absurd hincreasing (by simp)
    once := by
      refine ⟨h.once.kept, h.once.once, h.once.onceBound, fun copy hcopy' => ?_, h.once.completed⟩
      rcases List.mem_append.mp hcopy' with hold | hnew
      · exact h.once.copies copy hold
      · rw [List.mem_singleton.mp hnew]
        exact hcopy.symm }

/-- A request that nwconn reads, that is not the last one it has answered, while it waits for
no reply. -/
theorem isNext {r : Reading} {id : Nat} {q : ClientPacket} (hreading : s.reading = some r)
    (horigin : r.packet.origin = .client id) (hq : s.requests[id]? = some q) {rest : List UInt8}
    (hread : s.nwconn.readbuff = q.bytes ++ rest)
    (hlast : s.nwconn.lastSequence ≠ q.sequence.toNat) (hnone : ¬s.Awaits q.sequence) :
    answered = id ∧ s.IsNext id q := by
  obtain ⟨hunderway, hawaited, -⟩ := h.of_client hreading horigin
  have hid : id ∈ s.underway := hunderway ▸ List.mem_cons_self
  have hid' : id = answered :=
    (h.underway_cases hid).resolve_right fun hdone => hlast ((h.sequence_eq_iff hid hq).mpr hdone)
  have hhandled : s.handled.length = answered := by
    have hle := h.handled_le_succ
    have hge := h.answered_le
    have hnot := mt (h.awaits_iff hid hq hlast hawaited).mpr hnone
    omega
  have hnothing := h.awaited
  rw [if_pos hhandled, hawaited] at hnothing
  obtain ⟨hbind, hpipe⟩ := List.append_eq_nil_iff.mp hnothing
  -- the packets that come after it are not older
  have hordered := h.ordered
  rw [hunderway] at hordered
  obtain ⟨holder, hrest⟩ := List.pairwise_cons.mp hordered
  exact ⟨hid'.symm, {
    handled := hhandled.trans hid'.symm
    asked := hq
    sequence := by rw [hread, q.sequence_append]
    task := by rw [hread, q.task_append]
    toBind := List.map_eq_nil_iff.mp hbind
    pipe := hpipe
    ordered := hrest
    recent := fun id' hmem =>
      ⟨holder id' hmem, (h.recent id' (hunderway ▸ List.mem_cons_of_mem _ hmem)).2⟩ }⟩

omit h in
theorem length_concat {id : Nat} {q : ClientPacket} (hnext : s.IsNext id q) :
    (s.handled ++ [id]).length = id + 1 := by
  rw [List.length_append, List.length_singleton, hnext.handled]

theorem handled_concat {id : Nat} {q : ClientPacket} (hnext : s.IsNext id q) :
    s.handled ++ [id] = List.range (s.handled ++ [id]).length := by
  rw [List.length_append, List.length_singleton, List.range_succ, ← h.handled, hnext.handled]

theorem once_concat {id : Nat} {q : ClientPacket} (hnext : s.IsNext id q) :
    (s.handled ++ [id]).Nodup := by
  rw [h.handled_concat hnext]
  exact List.nodup_range

/-- nwconn answers the next request itself. -/
theorem answerNext {id : Nat} {q : ClientPacket} (hid : answered = id) (hnext : s.IsNext id q)
    {nwconn : Nwconn σ}
    (hlast : nwconn.lastSequence = (NcpBuf.sequence s.nwconn.readbuff).toNat)
    (hreply : nwconn.reply.sequence = NcpBuf.sequence s.nwconn.readbuff)
    (htask : nwconn.reply.task = NcpBuf.task s.nwconn.readbuff)
    (hlen : ∃ n, nwconn.len = NcpBuf.responseSize + n)
    (hsaved : nwconn.savedSequence = s.nwconn.savedSequence) :
    OnceOk { s with
      reading := none
      nwconn := nwconn
      inbox := s.inbox ++ [nwconn.sent]
      lastReply := nwconn.sent
      handled := s.handled ++ [id] } (id + 1) := by
  subst hid
  have hcount := length_concat hnext
  have hnone := h.saved.resolve_right fun hpending => by
    have hhandled := hnext.handled
    omega
  exact { h with
    handled := h.handled_concat hnext
    answered_le := hcount.ge
    handled_le := hcount.trans_le (List.getElem?_eq_some_iff.mp hnext.asked).1
    atOnce := h.atOnce.trans (Nat.le_succ _)
    seen := fun _ => h.atOnce
    awaited := by
      refine Eq.trans ?_ (if_pos hcount).symm
      change s.toBind.map (·.id) ++ s.pipe.filterMap (·.origin.nwbind?) = []
      rw [hnext.toBind, hnext.pipe]
      rfl
    ordered := hnext.ordered
    recent := fun id' hmem => by
      rw [hcount]
      exact (hnext.recent id' hmem).imp_left Nat.succ_le_succ
    genuine := fun p hp => h.genuine p (List.mem_append_right _ hp)
    reading := nofun
    last := by
      rw [if_neg (Nat.succ_ne_zero _)]
      exact ⟨q, hnext.asked, by rw [hlast, hnext.sequence]⟩
    reply := fun _ _ =>
      ⟨q, hnext.asked, hreply.trans hnext.sequence, htask.trans hnext.task, rfl, hlen⟩
    saved := .inl (hsaved.trans hnone)
    bound := fun id' hmem => by
      rw [hcount]
      exact ⟨Nat.lt_succ_of_lt (hnext.handled ▸ (h.bound id' hmem).1), (h.bound id' hmem).2⟩
    inbox := fun _ _ _ _ _ => h.atOnce
    once := ⟨h.once.kept, h.once_concat hnext, h.once.onceBound, h.once.copies, h.once.completed⟩ }

/-- nwconn gives the next request to nwbind. -/
theorem forwardNext {id : Nat} {q : ClientPacket} (hid : answered = id) (hnext : s.IsNext id q)
    {nwconn : Nwconn σ} {request : List UInt8} {saved : Bool}
    (hfunction : NcpBuf.function s.nwconn.readbuff ≠ 0)
    (hheader : request.take NcpBuf.requestSize = s.nwconn.readbuff.take NcpBuf.requestSize)
    (hlast : nwconn.lastSequence = s.nwconn.lastSequence)
    (hsaved : if saved then
      nwconn.savedSequence = (NcpBuf.sequence s.nwconn.readbuff).toNat ∧
        nwconn.savedReadbuff.take NcpBuf.requestSize = s.nwconn.readbuff.take NcpBuf.requestSize
      else nwconn.savedSequence = -1) :
    OnceOk { s with
      reading := none
      nwconn := nwconn
      toBind := s.toBind ++ [⟨id, request⟩]
      handled := s.handled ++ [id]
      savedId := if saved then id else s.savedId } id := by
  subst hid
  have hcount := length_concat hnext
  have hfield : ∀ i, i < NcpBuf.requestSize → request.getD i 0 = s.nwconn.readbuff.getD i 0 :=
    fun i hi => NcpBuf.getD_eq_of_take hheader hi
  exact { h with
    handled := h.handled_concat hnext
    answered_le := hcount.ge.trans' (Nat.le_succ _)
    handled_le := hcount.trans_le (List.getElem?_eq_some_iff.mp hnext.asked).1
    awaited := by
      refine Eq.trans ?_ (if_neg (hcount.trans_ne (Nat.succ_ne_self _))).symm
      change (s.toBind ++ [BindPacket.mk answered request]).map (·.id) ++
        s.pipe.filterMap (·.origin.nwbind?) = [answered]
      rw [hnext.toBind, hnext.pipe]
      rfl
    ordered := hnext.ordered
    recent := fun id' hmem => by
      rw [hcount]
      exact (hnext.recent id' hmem).imp_left Nat.succ_le_succ
    genuine := fun p hp => h.genuine p (List.mem_append_right _ hp)
    toBind := fun p hp => by
      dsimp only at hp
      rw [hnext.toBind] at hp
      rw [List.mem_singleton.mp hp]
      exact ⟨q, hnext.asked, (hfield 2 (by decide)).trans hnext.sequence,
        (hfield 4 (by decide)).trans hnext.task,
        fun hzero => hfunction ((hfield 6 (by decide)).symm.trans hzero)⟩
    reading := nofun
    last := by
      rw [hlast]
      exact h.last
    reply := fun heq => absurd (hcount.symm.trans heq) (by omega)
    saved := by
      split at hsaved
      next hs =>
        obtain ⟨hsaved, hbuff⟩ := hsaved
        refine .inr ⟨hcount, if_pos hs, q, hnext.asked, ?_, ?_, ?_⟩
        · rw [hsaved, hnext.sequence]
        · exact (NcpBuf.getD_eq_of_take hbuff (by decide)).trans hnext.sequence
        · exact (NcpBuf.getD_eq_of_take hbuff (by decide)).trans hnext.task
      next => exact .inl hsaved
    bound := fun id' hmem => by
      have hold := (h.bound id' hmem).1
      rw [hnext.handled] at hold
      refine ⟨(Nat.lt_succ_of_lt hold).trans_eq hcount.symm, fun p hp => ?_⟩
      dsimp only at hp
      rw [hnext.toBind] at hp
      rw [List.mem_singleton.mp hp]
      exact hold
    once := ⟨h.once.kept, h.once_concat hnext, h.once.onceBound, h.once.copies, h.once.completed⟩ }

/-- Any other request is handled, when nwconn waits for no reply. -/
theorem handleNew (f : NwconnFuncs σ) (now : Int) {r : Reading} {id : Nat} {q : ClientPacket}
    (hreading : s.reading = some r) (horigin : r.packet.origin = .client id)
    (hq : s.requests[id]? = some q) (hlen : NcpBuf.requestSize ≤ r.dataLen) {rest : List UInt8}
    (hread : s.nwconn.readbuff = q.bytes ++ rest)
    (hlast : s.nwconn.lastSequence ≠ q.sequence.toNat) (hnone : ¬s.Awaits q.sequence)
    (hreset : ¬s.nwconn.ResetDue now) : ∃ answered', OnceOk (s.handle f now) answered' := by
  obtain ⟨hid, hisNext⟩ := h.isNext hreading horigin hq hread hlast hnone
  have hlong : NcpBuf.requestSize ≤ s.nwconn.readbuff.length := hread ▸ q.requestSize_le rest
  have hmain := q.mainLoop_eq f hread r.dataLen hreset
  have hnew : s.nwconn.lastSequence ≠ (NcpBuf.sequence s.nwconn.readbuff).toNat := by
    rw [hisNext.sequence]
    exact hlast
  rcases Nwconn.handleNcpServ_new f (s := s.nwconn.presetReply) hlen hlong
      (fun hsame => hnew hsame.1) with
    ⟨nwconn, hserv, hlast', hreply, hreplyTask, hn, hsaved⟩ |
    ⟨request, saved, nwconn, hserv, hfunction, hheader, hlast', hsaved⟩
  · refine ⟨id + 1, ?_⟩
    unfold OnceState.handle
    rw [hreading]
    dsimp only
    rw [hmain, hserv, horigin]
    exact h.answerNext hid hisNext hlast' hreply hreplyTask hn hsaved
  · refine ⟨id, ?_⟩
    unfold OnceState.handle
    rw [hreading]
    dsimp only
    rw [hmain, hserv, horigin]
    exact h.forwardNext hid hisNext hfunction hheader hlast' hsaved

/-- A step that fits. -/
theorem handle (f : NwconnFuncs σ) (now : Int) (hfits : HandlesOnce s (.handle now)) :
    ∃ answered', OnceOk (s.handle f now) answered' := by
  cases hreading : s.reading with
  | none =>
      refine ⟨answered, ?_⟩
      unfold OnceState.handle
      rw [hreading]
      exact h
  | some r =>
      cases horigin : r.packet.origin with
      | nwbind id => exact ⟨answered + 1, h.handleReply f now hreading horigin⟩
      | client id =>
          obtain ⟨-, -, q, hq, hlen, rest, hread⟩ := h.of_client hreading horigin
          have htyp : NcpBuf.typ s.nwconn.readbuff ≠ 0x3333 := hread ▸ (q.typ_append_ne rest).1
          obtain ⟨hreset, hcases⟩ := hfits (by rw [hreading]; nofun) htyp
          rw [hread, q.sequence_append, q.typ_append] at hcases
          split at hcases
          next hlast =>
            refine ⟨answered, h.handleCopy f now hreading horigin hq hread hlast ?_ hcases.2 hreset⟩
            cases hq' : q.typ with
            | create => exact absurd (by rw [hq']) hcases.1
            | request => rfl
          next hlast => exact h.handleNew f now hreading horigin hq hlen hread hlast hcases hreset

/-- A step that does not fit. -/
theorem not_handle (f : NwconnFuncs σ) (now : Int) (hnot : ¬HandlesOnce s (.handle now)) :
    ¬HandledOnce (s.handle f now) := by
  intro hnext
  apply hnot
  intro hbusy htyp
  obtain ⟨r, hreading⟩ := Option.ne_none_iff_exists'.mp hbusy
  obtain ⟨id, horigin⟩ := h.client_of_typ hreading htyp
  obtain ⟨hunderway, hawaited, q, hq, hlen, rest, hread⟩ := h.of_client hreading horigin
  have hid : id ∈ s.underway := hunderway ▸ List.mem_cons_self
  have hsequence : NcpBuf.sequence s.nwconn.readbuff = q.sequence := by
    rw [hread, q.sequence_append]
  have hreset : ¬s.nwconn.ResetDue now := by
    intro hdue
    have hkept := hnext.kept
    unfold OnceState.handle at hkept
    rw [hreading] at hkept
    dsimp only at hkept
    rw [Nwconn.mainLoop_reset f htyp hdue] at hkept
    exact absurd (List.append_eq_nil_iff.mp hkept).2 (by simp)
  have hmain := q.mainLoop_eq f hread r.dataLen hreset
  have hlong : NcpBuf.requestSize ≤ s.nwconn.readbuff.length := hread ▸ q.requestSize_le rest
  -- a request that is handled again
  have hagain : id < s.handled.length →
      s.nwconn.lastSequence = (NcpBuf.sequence s.nwconn.readbuff).toNat ∧
        NcpBuf.typ s.nwconn.readbuff ≠ 0x1111 := by
    intro hdone
    by_contra hnew
    have hhandled : (s.handle f now).handled = s.handled ++ [id] := by
      unfold OnceState.handle
      rw [hreading]
      dsimp only
      rw [hmain]
      rcases Nwconn.handleNcpServ_new f (s := s.nwconn.presetReply) hlen hlong hnew with
        ⟨nwconn, hserv, -⟩ | ⟨request, saved, nwconn, hserv, -⟩
      · rw [hserv, horigin]
        rfl
      · rw [hserv, horigin]
        rfl
    have honce := hnext.once
    rw [hhandled, h.handled] at honce
    exact (List.nodup_append.mp honce).2.2 id (List.mem_range.mpr hdone) id
      (List.mem_singleton_self id) rfl
  refine ⟨hreset, ?_⟩
  split
  next hlast =>
    have hdone : id + 1 = answered :=
      (h.sequence_eq_iff hid hq).mp (by rw [hlast, hsequence])
    have hle := h.answered_le
    obtain ⟨-, htyp''⟩ := hagain (by omega)
    refine ⟨htyp'', ?_⟩
    have hhandled : s.handled.length = answered :=
      Nat.le_antisymm (hdone ▸ (h.recent id hid).1) hle
    obtain ⟨-, -, -, -, hcopy, n, hn⟩ := h.reply hhandled (by omega)
    have hcopies : (s.handle f now).copies = s.copies ++ [(s.lastReply, s.nwconn.presetReply.sent)] := by
      unfold OnceState.handle
      rw [hreading]
      dsimp only
      rw [hmain]
      unfold Nwconn.handleNcpServ
      dsimp only
      rw [if_pos ⟨hlast, htyp''⟩]
      rfl
    have hsame := hnext.copies _ (hcopies ▸ List.mem_append_right _ (List.mem_singleton_self _))
    -- the connect status is the byte in which the copy differs
    have hbyte := congrArg (fun l : List UInt8 => l.getD 7 0) hsame
    dsimp only at hbyte
    rw [hcopy] at hbyte
    unfold Nwconn.sent at hbyte
    rw [show s.nwconn.presetReply.len = s.nwconn.len from rfl, hn, ReplyBuf.take_bytes,
      ReplyBuf.take_bytes] at hbyte
    exact hbyte.symm
  next hlast =>
    rw [hsequence] at hlast ⊢
    intro hawaits
    have hpending := (h.awaits_iff hid hq hlast hawaited).mp hawaits
    have hid' := (h.underway_cases hid).resolve_right fun hdone =>
      hlast ((h.sequence_eq_iff hid hq).mpr hdone)
    exact hlast (hsequence ▸ (hagain (by omega)).1)

end OnceOk

/-! ### Runs -/

section

variable {σ : Type} (f : NwconnFuncs σ) {s : OnceState σ}

theorem OnceOk.step {answered : Nat} (h : OnceOk s answered) {e : OnceEvent} (hfits : HandlesOnce s e) :
    ∃ answered', OnceOk ((onceMachine f).step s e).2 answered' := by
  unfold onceMachine
  cases e with
  | request r => exact ⟨answered, h.request r⟩
  | retransmit =>
      dsimp only
      split
      next => exact ⟨answered, h⟩
      next hseen => exact ⟨answered, h.retransmit (Bool.not_eq_true _ ▸ hseen)⟩
  | lose i => exact ⟨answered, h.fewerCopies (List.eraseIdx_sublist _ _)⟩
  | arrive => exact ⟨answered, h.arrive⟩
  | read => exact ⟨answered, h.read hfits⟩
  | handle now => exact h.handle f now hfits
  | bind i answer => exact ⟨answered, h.bind i answer⟩
  | loseReply i => exact ⟨answered, h.loseReply i⟩
  | receive i => exact ⟨answered, h.receive i⟩

theorem OnceOk.not_step {answered : Nat} (h : OnceOk s answered) {e : OnceEvent}
    (hnot : ¬HandlesOnce s e) : ¬HandledOnce ((onceMachine f).step s e).2 := by
  cases e with
  | read => exact h.not_read hnot
  | handle now => exact h.not_handle f now hnot
  | _ => exact absurd trivial hnot

theorem onceOk_start (connection highConnection : UInt8) (time : Int) (state : σ) :
    OnceOk (OnceState.start connection highConnection time state) 0 where
  increasing := nofun
  handled := rfl
  answered_le := Nat.le_refl 0
  handled_le := Nat.le_refl 0
  atOnce := Nat.zero_le 1
  seen := fun _ => Nat.le_refl 0
  asked := nofun
  awaited := rfl
  ordered := List.Pairwise.nil
  recent := nofun
  genuine := nofun
  toBind := nofun
  reading := nofun
  last := rfl
  reply := fun _ hpos => absurd rfl hpos
  saved := .inl rfl
  bound := nofun
  inbox := nofun
  once := ⟨rfl, List.nodup_nil, List.nodup_nil, nofun, nofun⟩

/-- Requests are handled once in all states of a run just when every step of it fits. -/
theorem requests_handled_once (connection highConnection : UInt8) (time : Int) (state : σ)
    (es : List OnceEvent) :
    (∀ before, before <+: es →
        HandledOnce ((onceMachine f).exec (.start connection highConnection time state) before)) ↔
      (onceMachine f).Along HandlesOnce (.start connection highConnection time state) es :=
  @Machine.forall_prefix_iff_along_of_invariant _ _ _ (onceMachine f) HandlesOnce
    (fun s => ∃ answered, OnceOk s answered) HandledOnce
    (fun _ ⟨_, h⟩ => h.once) (fun _ _ ⟨_, h⟩ hfits => h.step f hfits)
    (fun _ _ ⟨_, h⟩ hnot => h.not_step f hnot) _
    ⟨0, onceOk_start connection highConnection time state⟩ es

end

/-- The switch of `handle_ncp_serv` for messages, which are for nwbind. -/
def messageFuncs : NwconnFuncs Unit where
  serve _ readbuff requestlen responsedata :=
    ⟨if NcpBuf.function readbuff = 0x15 then .toNwbind else .answer 0xfb 0,
      readbuff.drop NcpBuf.requestSize, requestlen, responsedata, ()⟩
  initConnect _ := ()
  afterBind _ _ _ responsedata := ⟨0, 0, responsedata, ()⟩
  countOpenFiles _ _ := [0, 0, 0, 0]

/-- 'Get Broadcast Message' -/
def messageRequest : ClientPacket := ⟨.request, 1, 1, 1, 0, 0x15, [0, 1, 1], by decide⟩

def noMessage : BindAnswer := ⟨0, 0, [0], by decide⟩

/-- A request is lost, when it comes more than a minute after the last watchdog reset. One
that comes again while nwbind is slow is executed twice there. A reply that tells of a
message is not sent again as it was. -/
theorem not_requests_handled_once :
    ¬HandledOnce ((onceMachine messageFuncs).exec (.start 1 0 0 ())
        [.request messageRequest, .arrive, .read, .handle 61]) ∧
      ¬HandledOnce ((onceMachine messageFuncs).exec (.start 1 0 0 ())
        [.request messageRequest, .arrive, .read, .handle 1, .retransmit, .arrive, .read,
          .handle 1, .bind 0 noMessage, .bind 0 noMessage]) ∧
      ¬HandledOnce ((onceMachine messageFuncs).exec (.start 1 0 0 ())
        [.request messageRequest, .arrive, .read, .handle 1, .bind 0 ⟨0, 0x40, [0], by decide⟩,
          .read, .handle 1, .retransmit, .arrive, .read, .handle 1]) := by
  refine ⟨fun h => ?_, fun h => ?_, fun h => ?_⟩
  · exact absurd h.kept (by decide)
  · exact absurd h.onceBound (by decide)
  · exact absurd h.copies (by decide)

end MarsNwe
