import Mathlib.Data.List.Basic

/-! # The packets that nwconn reads

nwconn gets the requests of its client and the replies of nwbind out of one pipe. It
answers a request itself, or sends it on to nwbind. A request whose sequence number is
the last one it answered is answered with what is still in the reply buffer.
-/

namespace MarsNwe

/-- `IPX_MAX_DATA` -/
def ipxMaxData : Nat := 1470

/-! ## Buffers

The fields of an `NCPREQUEST` at the start of a buffer; the function of a request is the
completition of a reply, which has one byte more.
-/

namespace NcpBuf

def typ (b : List UInt8) : Nat := (b.getD 0 0).toNat * 256 + (b.getD 1 0).toNat

def sequence (b : List UInt8) : UInt8 := b.getD 2 0

def connection (b : List UInt8) : UInt8 := b.getD 3 0

def task (b : List UInt8) : UInt8 := b.getD 4 0

def highConnection (b : List UInt8) : UInt8 := b.getD 5 0

def function (b : List UInt8) : UInt8 := b.getD 6 0

def connectStatus (b : List UInt8) : UInt8 := b.getD 7 0

/-- `sizeof(NCPREQUEST)` -/
def requestSize : Nat := 7

/-- `sizeof(NCPRESPONSE)` -/
def responseSize : Nat := 8

/-- Buffers that begin alike have the same fields. -/
theorem getD_eq_of_take {a b : List UInt8} (h : a.take requestSize = b.take requestSize) {i : Nat}
    (hi : i < requestSize) : a.getD i 0 = b.getD i 0 := by
  have hfield : ∀ l : List UInt8, (l.take requestSize).getD i 0 = l.getD i 0 := by
    intro l
    rw [List.getD_eq_getElem?_getD, List.getD_eq_getElem?_getD, List.getElem?_take_of_lt hi]
  rw [← hfield a, h, hfield b]

end NcpBuf

/-- `ipxdata`, the reply buffer: an `NCPRESPONSE` of type 0x3333 and `responsedata`. -/
structure ReplyBuf where
  sequence : UInt8
  connection : UInt8
  task : UInt8
  highConnection : UInt8
  completition : UInt8
  connectStatus : UInt8
  responsedata : List UInt8

def ReplyBuf.header (b : ReplyBuf) : List UInt8 :=
  [0x33, 0x33, b.sequence, b.connection, b.task, b.highConnection, b.completition, b.connectStatus]

def ReplyBuf.bytes (b : ReplyBuf) : List UInt8 := b.header ++ b.responsedata

/-! ## nwconn -/

/-- What the switch of `handle_ncp_serv` comes to. -/
inductive ServResult where
  /-- to the end, with a completition and a `data_len` -/
  | answer (completition : UInt8) (dataLen : Nat)
  /-- `return(-1)` -/
  | toNwbind
  /-- `return(-2)` -/
  | prehandled

/-- A case of the switch may also write to the request, and make it longer. -/
structure Served (σ : Type) where
  result : ServResult
  requestdata : List UInt8
  requestlen : Nat
  responsedata : List UInt8
  state : σ

structure BindCompleted (σ : Type) where
  completition : UInt8
  dataLen : Nat
  responsedata : List UInt8
  state : σ

/-- What nwconn does for the single functions, to files, locks and handles: `σ`. -/
structure NwconnFuncs (σ : Type) where
  /-- the switch of `handle_ncp_serv`, for a function other than 0 -/
  serve : σ → (readbuff : List UInt8) → (requestlen : Nat) → (responsedata : List UInt8) → Served σ
  /-- `free_queue_jobs` and `nw_init_connect` -/
  initConnect : σ → σ
  /-- the switch of `handle_after_bind` -/
  afterBind : σ → (savedReadbuff readbuff responsedata : List UInt8) → BindCompleted σ
  /-- the number and the handles of `nw_get_count_open_files`, as bytes -/
  countOpenFiles : σ → (readbuff : List UInt8) → List UInt8

/-- The memory of nwconn; `len` is `ud.udata.len`. -/
structure Nwconn (σ : Type) where
  readbuff : List UInt8
  savedReadbuff : List UInt8
  savedSequence : Int
  lastSequence : Int
  lastTime : Int
  reply : ReplyBuf
  len : Nat
  state : σ

/-- What nwconn does with a packet. -/
inductive NwconnDid where
  /-- the last reply is sent again -/
  | resent (sent : List UInt8)
  /-- the request is executed and answered -/
  | answered (sent : List UInt8)
  /-- the request goes to nwbind, and may be saved -/
  | forwarded (request : List UInt8) (saved : Bool)
  /-- a reply of nwbind completes the saved request -/
  | completed (sent : List UInt8)
  /-- a reply of nwbind goes to the client -/
  | passedOn (sent : List UInt8)
  /-- nwbind is told to reset the watchdog -/
  | wdogReset (packet : List UInt8)
  /-- a request of nwbind is answered -/
  | toldNwbind (packet : List UInt8)

namespace Nwconn

variable {σ : Type} (f : NwconnFuncs σ) (s : Nwconn σ)

/-- What `t_sndudata` sends of the reply buffer. -/
def sent : List UInt8 := s.reply.bytes.take s.len

/-- `ncp_response` -/
def ncpResponse (sequence task completition : UInt8) (dataLen : Nat) : Nwconn σ :=
  { s with
    reply := { s.reply with sequence := sequence, task := task, completition := completition }
    lastSequence := sequence.toNat
    len := NcpBuf.responseSize + dataLen }

/-- `ncp_response` to the request in `readbuff`. -/
def answer (completition : UInt8) (dataLen : Nat) : NwconnDid × Nwconn σ :=
  let s := s.ncpResponse (NcpBuf.sequence s.readbuff) (NcpBuf.task s.readbuff) completition dataLen
  (.answered s.sent, s)

/-- `call_nwbind(0)`, after `memcpy` to `saved_readbuff` when the request is saved. -/
def callNwbind (dataLen requestlen : Nat) (saved : Bool) : NwconnDid × Nwconn σ :=
  let request := s.readbuff.take (NcpBuf.requestSize + requestlen)
  (.forwarded request saved,
    { s with
      savedReadbuff := if saved then s.readbuff.take dataLen ++ s.savedReadbuff.drop dataLen
        else s.savedReadbuff
      savedSequence := if saved then (NcpBuf.sequence s.readbuff).toNat else -1
      len := NcpBuf.requestSize + requestlen })

/-- `handle_ncp_serv`, and what `main` does with its result. -/
def handleNcpServ (dataLen : Nat) : NwconnDid × Nwconn σ :=
  let ncpType := NcpBuf.typ s.readbuff
  if s.lastSequence = (NcpBuf.sequence s.readbuff).toNat ∧ ncpType ≠ 0x1111 then
    -- send the same again
    (.resent s.sent, s)
  else if ncpType = 0x2222 then
    if NcpBuf.function s.readbuff = 0 then s.answer 0xfb 0
    else
      let served := f.serve s.state s.readbuff (dataLen - NcpBuf.requestSize) s.reply.responsedata
      let s := { s with
        readbuff := s.readbuff.take NcpBuf.requestSize ++ served.requestdata
        reply := { s.reply with responsedata := served.responsedata }
        state := served.state }
      match served.result with
      | .answer completition dataLen => s.answer completition dataLen
      | .toNwbind => s.callNwbind dataLen served.requestlen false
      | .prehandled => s.callNwbind dataLen served.requestlen true
  else if ncpType = 0x1111 then
    { s with state := f.initConnect s.state, lastSequence := -9999 }.answer 0 0
  else s.answer 0xfb 0

/-- `handle_after_bind` -/
def handleAfterBind : NwconnDid × Nwconn σ :=
  let done := f.afterBind s.state s.savedReadbuff s.readbuff s.reply.responsedata
  let s := { s with
    reply := { s.reply with responsedata := done.responsedata }
    state := done.state }
  let s := s.ncpResponse (NcpBuf.sequence s.savedReadbuff) (NcpBuf.task s.savedReadbuff)
    done.completition done.dataLen
  (.completed s.sent, s)

/-- 'direct sending' of a reply of nwbind -/
def sendDirect (dataLen : Nat) : NwconnDid × Nwconn σ :=
  let data := (s.readbuff.take dataLen).drop NcpBuf.responseSize
  let s := { s with
    reply := { s.reply with
      responsedata := data ++ s.reply.responsedata.drop data.length
      connectStatus := NcpBuf.connectStatus s.readbuff } }
  let s := s.ncpResponse (NcpBuf.sequence s.readbuff) (NcpBuf.task s.readbuff)
    (NcpBuf.function s.readbuff) (dataLen - NcpBuf.responseSize)
  (.passedOn s.sent, s)

/-- `call_nwbind(1)` -/
def resetWdog (now : Int) : NwconnDid × Nwconn σ :=
  (.wdogReset [0x22, 0x22, NcpBuf.sequence s.readbuff, NcpBuf.connection s.readbuff,
      NcpBuf.task s.readbuff, NcpBuf.highConnection s.readbuff, 0],
    { s with len := NcpBuf.requestSize, lastTime := now })

/-- `handle_nwbind_request` -/
def handleNwbindRequest : NwconnDid × Nwconn σ :=
  let known := NcpBuf.function s.readbuff = 1
  let data := if known then f.countOpenFiles s.state s.readbuff else []
  (.toldNwbind ([0x32, 0x32, NcpBuf.sequence s.readbuff, NcpBuf.connection s.readbuff,
      NcpBuf.task s.readbuff, NcpBuf.highConnection s.readbuff, if known then 0 else 0xfb, 0] ++ data),
    { s with len := NcpBuf.responseSize + data.length })

/-- A watchdog reset is due. -/
def ResetDue (now : Int) : Prop := now > s.lastTime + 60 ∧ s.savedSequence = -1

instance (now : Int) : Decidable (s.ResetDue now) := inferInstanceAs (Decidable (_ ∧ _))

/-- The reply in `readbuff` is the one to the saved request. -/
def CompletesSaved : Prop :=
  s.savedSequence > -1 ∧ (NcpBuf.sequence s.readbuff).toNat = s.savedSequence ∧
    NcpBuf.function s.readbuff = 0

instance : Decidable s.CompletesSaved := inferInstanceAs (Decidable (_ ∧ _))

/-- What `main` writes to the reply buffer before it looks at a packet. -/
def presetReply : Nwconn σ :=
  { s with reply := { s.reply with connectStatus := 0, task := NcpBuf.task s.readbuff } }

/-- The loop of `main`, for a packet of `dataLen` bytes in `readbuff`. -/
def mainLoop (dataLen : Nat) (now : Int) : NwconnDid × Nwconn σ :=
  let s := s.presetReply
  if NcpBuf.typ s.readbuff = 0x3333 then
    let (did, s) := if s.CompletesSaved then s.handleAfterBind f else s.sendDirect dataLen
    (did, { s with savedSequence := -1 })
  else if s.ResetDue now then s.resetWdog now
  -- an else that belonged to the burst packets
  else if NcpBuf.typ s.readbuff = 0x2121 then s.handleNwbindRequest f
  else s.handleNcpServ f dataLen

/-! ### What a packet comes to -/

variable {s}

/-- A request that is not the last one answered is answered, or goes to nwbind with the
header that it has. -/
theorem handleNcpServ_new {dataLen : Nat} (hlen : NcpBuf.requestSize ≤ dataLen)
    (hread : NcpBuf.requestSize ≤ s.readbuff.length)
    (hnew : ¬(s.lastSequence = (NcpBuf.sequence s.readbuff).toNat ∧ NcpBuf.typ s.readbuff ≠ 0x1111)) :
    (∃ s', s.handleNcpServ f dataLen = (.answered s'.sent, s') ∧
      s'.lastSequence = (NcpBuf.sequence s.readbuff).toNat ∧
      s'.reply.sequence = NcpBuf.sequence s.readbuff ∧ s'.reply.task = NcpBuf.task s.readbuff ∧
      (∃ n, s'.len = NcpBuf.responseSize + n) ∧ s'.savedSequence = s.savedSequence) ∨
    ∃ request saved s', s.handleNcpServ f dataLen = (.forwarded request saved, s') ∧
      NcpBuf.function s.readbuff ≠ 0 ∧
      request.take NcpBuf.requestSize = s.readbuff.take NcpBuf.requestSize ∧
      s'.lastSequence = s.lastSequence ∧
      if saved then s'.savedSequence = (NcpBuf.sequence s.readbuff).toNat ∧
        s'.savedReadbuff.take NcpBuf.requestSize = s.readbuff.take NcpBuf.requestSize
      else s'.savedSequence = -1 := by
  unfold handleNcpServ
  dsimp only
  rw [if_neg hnew]
  have hsame : ∀ data : List UInt8,
      (s.readbuff.take NcpBuf.requestSize ++ data).take NcpBuf.requestSize =
        s.readbuff.take NcpBuf.requestSize := fun data =>
    List.take_left' (by rw [List.length_take, Nat.min_eq_left hread])
  have hheader : ∀ data n, NcpBuf.requestSize ≤ n →
      ((s.readbuff.take NcpBuf.requestSize ++ data).take n).take NcpBuf.requestSize =
        s.readbuff.take NcpBuf.requestSize := by
    intro data n hn
    rw [List.take_take, Nat.min_eq_left hn, hsame data]
  have hfield : ∀ data i, i < NcpBuf.requestSize →
      (s.readbuff.take NcpBuf.requestSize ++ data).getD i 0 = s.readbuff.getD i 0 :=
    fun data i hi => NcpBuf.getD_eq_of_take (hsame data) hi
  split
  next =>
    split
    next => exact .inl ⟨_, rfl, rfl, rfl, rfl, ⟨_, rfl⟩, rfl⟩
    next hfunction =>
      split
      next served completition dataLen' hserved =>
        refine .inl ⟨_, rfl, ?_, hfield _ 2 (by decide), hfield _ 4 (by decide), ⟨_, rfl⟩, rfl⟩
        exact congrArg (fun b : UInt8 => (b.toNat : Int)) (hfield _ 2 (by decide))
      next =>
        exact .inr ⟨_, _, _, rfl, hfunction, hheader _ _ (Nat.le_add_right _ _), rfl, rfl⟩
      next =>
        refine .inr ⟨_, _, _, rfl, hfunction, hheader _ _ (Nat.le_add_right _ _), rfl, ?_, ?_⟩
        · exact congrArg (fun b : UInt8 => (b.toNat : Int)) (hfield _ 2 (by decide))
        · rw [if_pos rfl, List.take_append_of_le_length (by simp; omega)]
          exact hheader _ _ hlen
  next =>
    split
    next => exact .inl ⟨_, rfl, rfl, rfl, rfl, ⟨_, rfl⟩, rfl⟩
    next => exact .inl ⟨_, rfl, rfl, rfl, rfl, ⟨_, rfl⟩, rfl⟩

/-- A request, when no watchdog reset is due. -/
theorem mainLoop_request {dataLen : Nat} {now : Int} (hreply : NcpBuf.typ s.readbuff ≠ 0x3333)
    (hreset : ¬s.ResetDue now) (hnwbind : NcpBuf.typ s.readbuff ≠ 0x2121) :
    s.mainLoop f dataLen now = s.presetReply.handleNcpServ f dataLen := by
  unfold mainLoop
  dsimp only
  rw [if_neg (show ¬NcpBuf.typ s.presetReply.readbuff = 0x3333 from hreply),
    if_neg (show ¬s.presetReply.ResetDue now from hreset),
    if_neg (show ¬NcpBuf.typ s.presetReply.readbuff = 0x2121 from hnwbind)]

/-- A request, when a watchdog reset is due. -/
theorem mainLoop_reset {dataLen : Nat} {now : Int} (hreply : NcpBuf.typ s.readbuff ≠ 0x3333)
    (hreset : s.ResetDue now) : s.mainLoop f dataLen now = s.presetReply.resetWdog now := by
  unfold mainLoop
  dsimp only
  rw [if_neg (show ¬NcpBuf.typ s.presetReply.readbuff = 0x3333 from hreply),
    if_pos (show s.presetReply.ResetDue now from hreset)]

/-- A reply of nwbind completes the saved request with its sequence number, or goes on to
the client; the saved request is forgotten. -/
theorem mainLoop_reply (dataLen : Nat) (now : Int) (hreply : NcpBuf.typ s.readbuff = 0x3333) :
    ∃ s', s'.savedSequence = -1 ∧ (∃ n, s'.len = NcpBuf.responseSize + n) ∧
      (s.CompletesSaved ∧ s.mainLoop f dataLen now = (.completed s'.sent, s') ∧
          s'.lastSequence = (NcpBuf.sequence s.savedReadbuff).toNat ∧
          s'.reply.sequence = NcpBuf.sequence s.savedReadbuff ∧
          s'.reply.task = NcpBuf.task s.savedReadbuff ∨
        s.mainLoop f dataLen now = (.passedOn s'.sent, s') ∧
          s'.lastSequence = (NcpBuf.sequence s.readbuff).toNat ∧
          s'.reply.sequence = NcpBuf.sequence s.readbuff ∧
          s'.reply.task = NcpBuf.task s.readbuff) := by
  unfold mainLoop
  dsimp only
  rw [if_pos (show NcpBuf.typ s.presetReply.readbuff = 0x3333 from hreply)]
  by_cases hsaved : s.presetReply.CompletesSaved
  · rw [if_pos hsaved]
    exact ⟨{ (s.presetReply.handleAfterBind f).2 with savedSequence := -1 }, rfl, ⟨_, rfl⟩,
      .inl ⟨hsaved, rfl, rfl, rfl, rfl⟩⟩
  · rw [if_neg hsaved]
    exact ⟨{ (s.presetReply.sendDirect dataLen).2 with savedSequence := -1 }, rfl, ⟨_, rfl⟩,
      .inr ⟨rfl, rfl, rfl, rfl⟩⟩

end Nwconn

end MarsNwe
