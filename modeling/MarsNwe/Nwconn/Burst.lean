import MarsNwe.Lib.ByteBuf
import MarsNwe.Lib.Machine
import MarsNwe.Lib.Window

/-! # Packet bursts

A packet burst connection request lays out three buffers, of sizes that the client asks
for. The packets of a burst put a request together in the first of them. The packet that
ends the burst has the request handled, and the reply goes out in pieces, out of the
second buffer and through the third.
-/

namespace MarsNwe

namespace Burst

open Window

/-! ## The code -/

/-- The `uint32` that an `int` becomes. -/
def uint32Of (x : Int) : Nat := (x % 2 ^ 32).toNat

/-- The `int` that a `uint32` becomes. -/
def intOf (x : Nat) : Int := if x < 2 ^ 31 then x else (x : Int) - 2 ^ 32

/-- `n` bytes from `start` on lie in a buffer of `size` bytes. -/
def InBuf (start n : Int) (size : Nat) : Prop := n = 0 ∨ 0 ≤ start ∧ 0 ≤ n ∧ start + n ≤ size

instance (start n : Int) (size : Nat) : Decidable (InBuf start n size) :=
  inferInstanceAs (Decidable (_ ∨ _))

/-- What `nwserv.conf` says about bursts. -/
structure BurstConfig where
  serverVersionFlags : Nat
  maxBurstSendSize : Int
  maxBurstRecvSize : Int

/-- A `BURSTPACKET` in `readbuff`: the fields that are read, the bytes behind the header,
also those beyond the packet's end, and how many bytes were received. -/
structure BurstPacket where
  flags : UInt8
  burstSeq : UInt16
  burstoffset : UInt32
  datasize : UInt16
  missing : UInt16
  behind : Nat → UInt8
  len : Nat

/-- A byte of `recv_buf`, with the number of the burst going on if it was received in it. -/
structure RecvByte where
  val : UInt8
  burst : Option UInt16
deriving DecidableEq

/-- `sizeof(BURSTPACKET)` -/
def headerSize : Nat := 36

/-- `sizeof(IPX_DATA)` -/
def ipxDataSize : Nat := 1472

/-- `BURST_W`. The size of `sendburst` stands for it, since nothing reads it but the
sending. The packets that brought data since the last burst ended come along, the newest
first. -/
structure BurstW where
  sendburst : Nat
  maxBurstDataSize : Int
  sendBuf : List UInt8
  maxRecvSize : Int
  recvBuf : List RecvByte
  packetSequence : UInt32
  burstSequence : UInt16
  parts : List BurstPacket

/-- What `nw_read_file` puts into the buffer, or that it fails, and what `nw_write_file`
returns. -/
structure FileCalls where
  read : (fhandle size offset : UInt32) → Option (List UInt8)
  write : (fhandle size offset : UInt32) → Int

/-- A packet that `send_burst` sends. -/
structure SentPacket where
  packetSequence : UInt32
  burstSeq : UInt16
  ackSeq : UInt16
  burstsize : UInt32
  burstoffset : Nat
  datasize : UInt16
  flags : UInt8
  data : List UInt8
deriving DecidableEq

/-- The bytes that a write request stores, and the number of its burst. -/
structure BurstWrite where
  burstSeq : UInt16
  stored : List RecvByte
deriving DecidableEq

/-- The sizes in the answer to a connection request. -/
structure ConnectReply where
  maxPacketSize : Nat
  maxSendSize : Int
  maxRecvSize : Int
deriving DecidableEq

/-- `max_packet_size` -/
def packetSize (maxPacketSize : UInt32) : Nat :=
  min ipxDataSize (uint32Of ((maxPacketSize.toNat : Int) - 30))

/-- The case 0x65 of `handle_ncp_serv`. `none` is an access outside `sendburst`: the
fields filled in beforehand end with `delaytime`. -/
def connect (cfg : BurstConfig) (old : Option BurstW)
    (maxPacketSize maxSendSize maxRecvSize : UInt32) : Option (ConnectReply × BurstW) :=
  let sendburst := packetSize maxPacketSize
  if 20 ≤ sendburst then
    let dataSize : Int := (sendburst : Int) - headerSize
    let sendSize := intOf (min (uint32Of cfg.maxBurstSendSize) maxRecvSize.toNat)
    let recvSize := intOf (min (uint32Of cfg.maxBurstRecvSize) maxSendSize.toNat)
    -- no fragmented receive packets
    let recvSize := if recvSize > dataSize - 24 then dataSize - 24 else recvSize
    some (⟨sendburst + 30, sendSize, recvSize⟩,
      { sendburst := sendburst
        maxBurstDataSize := dataSize
        sendBuf := List.replicate (uint32Of (sendSize + 8)) 0
        maxRecvSize := recvSize
        recvBuf := List.replicate (uint32Of (recvSize + 24)) ⟨0, none⟩
        packetSequence := (old.map (·.packetSequence)).getD 0
        burstSequence := (old.map (·.burstSequence)).getD 0
        parts := [] })
  else none

/-- `send_burst`. An offset and the `int` that it becomes lead to the same address. -/
def sendBurst (burstsize : Int) (w : BurstW) (offset : Nat) (datasize : Int) (flags : UInt8) :
    Option (SentPacket × BurstW) :=
  if headerSize ≤ w.sendburst ∧ InBuf offset datasize w.sendBuf.length ∧
      InBuf headerSize datasize w.sendburst then
    some (⟨w.packetSequence, w.burstSequence, w.burstSequence + 1, UInt32.ofInt burstsize, offset,
        UInt16.ofInt datasize, flags, readAt w.sendBuf offset datasize.toNat⟩,
      { w with packetSequence := w.packetSequence + 1 })
  else none

/-- The loop of `handle_burst_response`, of at most so many rounds. -/
def responseLoop (burstsize : Int) : (rounds : Nat) → BurstW → (offset : Nat) → (size : Int) →
    Option (List SentPacket × BurstW)
  | 0, _, _, _ => none
  | rounds + 1, w, offset, size =>
      if size = 0 then some ([], w)
      else
        let sendsize := min size w.maxBurstDataSize
        let flags := if size - sendsize = 0 then 0x10 else 0
        match sendBurst burstsize w offset sendsize flags with
        | none => none
        | some (packet, w) =>
            (responseLoop burstsize rounds w (uint32Of (offset + sendsize)) (size - sendsize)).map
              fun (packets, w) => (packet :: packets, w)

/-- `handle_burst_response`, which fills in the header up to `burstsize` first. `none` is
an access outside the buffers, or a loop that does not end. -/
def handleBurstResponse (w : BurstW) (offset : Nat) (size : Int) :
    Option (List SentPacket × BurstW) :=
  if 28 ≤ w.sendburst then responseLoop size (size.toNat + 1) w offset size else none

/-- `GET_32` in the request. -/
def get32 (recvBuf : List RecvByte) (pos : Nat) : Option UInt32 :=
  match readAt recvBuf pos 4 with
  | [a, b, c, d] => some (be32 d.val c.val b.val a.val)
  | _ => none

/-- `GET_BE32` in the request. -/
def getBE32 (recvBuf : List RecvByte) (pos : Nat) : Option UInt32 :=
  match readAt recvBuf pos 4 with
  | [a, b, c, d] => some (be32 a.val b.val c.val d.val)
  | _ => none

/-- A `REQ` to read or to write. -/
structure BurstRequest where
  writes : Bool
  fhandle : UInt32
  fileOffset : UInt32
  fileSize : UInt32
deriving DecidableEq

/-- What `recv_buf` asks for. The outer `none` is an access behind its end, the inner one
an unknown function. -/
def requestOf (recvBuf : List RecvByte) : Option (Option BurstRequest) :=
  match get32 recvBuf 0 with
  | none => none
  | some function =>
      if function = 1 ∨ function = 2 then do
        let fhandle ← get32 recvBuf 4
        let fileOffset ← getBE32 recvBuf 16
        let fileSize ← getBE32 recvBuf 20
        some (some ⟨function = 2, fhandle, fileOffset, fileSize⟩)
      else some none

/-- What `nw_read_file` delivers: no more than was asked for, or than it can return. -/
def delivered (f : FileCalls) (r : BurstRequest) : Option (List UInt8) :=
  (f.read r.fhandle r.fileSize r.fileOffset).map
    fun data => data.take (min r.fileSize.toNat (2 ^ 31 - 1))

/-- `send_buf` with the data of a read behind the `XDATA`, which is filled in afterwards. -/
def readReply (sendBuf : List UInt8) (answer : Option (List UInt8)) : List UInt8 :=
  let data := answer.getD []
  let resultcode : UInt8 := if answer.isSome then 0 else 3
  writeAt 0 (writeAt 0 sendBuf 8 data) 0
    ([resultcode, 0, 0, 0] ++ be32Bytes (UInt32.ofNat data.length))

/-- The read request. -/
def readRequest (w : BurstW) (p : BurstPacket) (f : FileCalls) (r : BurstRequest) :
    Option (List SentPacket × BurstW) :=
  let size := ((delivered f r).getD []).length
  if InBuf 8 size w.sendBuf.length ∧ 8 ≤ w.sendBuf.length then
    handleBurstResponse
      { w with sendBuf := readReply w.sendBuf (delivered f r), burstSequence := p.burstSeq } 0
      (intOf (size + 8))
  else none

/-- How many bytes `nw_write_file` takes: no more than it was told to. -/
def taken (f : FileCalls) (r : BurstRequest) : Nat :=
  min (f.write r.fhandle r.fileSize r.fileOffset).toNat r.fileSize.toNat

/-- `send_buf` with the `XDATA` of a write. -/
def writeReply (sendBuf : List UInt8) (size : Int) (fileSize : UInt32) : List UInt8 :=
  let resultcode : UInt8 := if uint32Of size = fileSize.toNat then 0 else 4
  writeAt 0 sendBuf 0 [resultcode, 0, 0, 0]

/-- The write request. The data stands behind the other fields of the `REQ`. -/
def writeRequest (w : BurstW) (p : BurstPacket) (f : FileCalls) (r : BurstRequest) :
    Option (List SentPacket × BurstWrite × BurstW) :=
  if InBuf 24 (taken f r) w.recvBuf.length ∧ 4 ≤ w.sendBuf.length then
    let size := f.write r.fhandle r.fileSize r.fileOffset
    (handleBurstResponse
      { w with sendBuf := writeReply w.sendBuf size r.fileSize, burstSequence := p.burstSeq } 0
      4).map
        fun (packets, w') => (packets, ⟨p.burstSeq, readAt w.recvBuf 24 (taken f r)⟩, w')
  else none

/-- The burst is over: what comes from now on belongs to another one. -/
def endBurst (w : BurstW) : BurstW :=
  { w with recvBuf := w.recvBuf.map fun b => { b with burst := none }, parts := [] }

/-- What a handled packet leaves: the packets sent, the data stored, and `burst_w`. -/
structure Handled where
  sent : List SentPacket
  write : Option BurstWrite
  burstW : BurstW

/-- `req->function[0]=0`, at the end of a burst -/
def finishRequest (w : BurstW) : BurstW :=
  endBurst { w with recvBuf := writeAt ⟨0, none⟩ w.recvBuf 0 [⟨0, none⟩] }

/-- The action that the last packet of a burst brings about. -/
def handleRequest (w : BurstW) (p : BurstPacket) (f : FileCalls) : Option Handled :=
  match requestOf w.recvBuf with
  | none => none
  | some none => some ⟨[], none, finishRequest w⟩
  | some (some r) =>
      if r.writes then
        (writeRequest w p f r).map fun (sent, write, w) => ⟨sent, some write, finishRequest w⟩
      else (readRequest w p f r).map fun (sent, w) => ⟨sent, none, finishRequest w⟩

/-- The offsets and sizes in the list of missing fragments. -/
def BurstPacket.fragments (p : BurstPacket) : List (UInt32 × Nat) :=
  (List.range p.missing.toNat).map fun k =>
    (be32 (p.behind (6 * k)) (p.behind (6 * k + 1)) (p.behind (6 * k + 2)) (p.behind (6 * k + 3)),
      (p.behind (6 * k + 4)).toNat * 256 + (p.behind (6 * k + 5)).toNat)

/-- The loop over the missing fragments. -/
def resend (w : BurstW) : List (UInt32 × Nat) → Option (List SentPacket × BurstW)
  | [] => some ([], w)
  | (offs, size) :: rest =>
      match handleBurstResponse w offs.toNat size with
      | none => none
      | some (packets, w) => (resend w rest).map fun (more, w) => (packets ++ more, w)

/-- `bp->flags & 0x10`, the end of a burst -/
def BurstPacket.eob (p : BurstPacket) : Bool := p.flags &&& 0x10 ≠ 0

/-- `bp->flags & 0x80`, a system packet -/
def BurstPacket.sys (p : BurstPacket) : Bool := p.flags &&& 0x80 ≠ 0

/-- The bytes that the packet is copied from. Those behind what was received are old. -/
def BurstPacket.data (p : BurstPacket) : List RecvByte :=
  (List.range p.datasize.toNat).map fun i =>
    ⟨p.behind i, if headerSize + i < p.len then some p.burstSeq else none⟩

/-- `recv_buf` with the data of a packet. -/
def withData (w : BurstW) (p : BurstPacket) : BurstW :=
  { w with recvBuf := writeAt ⟨0, none⟩ w.recvBuf p.burstoffset.toNat p.data
           parts := p :: w.parts }

def handleFlags (w : BurstW) (p : BurstPacket) (f : FileCalls) : Option Handled :=
  if p.eob then handleRequest w p f
  else if p.sys then
    (resend { w with burstSequence := p.burstSeq } p.fragments).map
      fun (sent, w) => ⟨sent, none, w⟩
  else some ⟨[], none, w⟩

/-- `datasize+burstoffset > burst_w->max_recv_size+24`, between values of `uint32` -/
def tooLong (w : BurstW) (p : BurstPacket) : Bool :=
  uint32Of (w.maxRecvSize + 24) < (p.datasize.toNat + p.burstoffset.toNat) % 2 ^ 32

/-- `handle_burst`, with a `burst_w`. -/
def handleBurst (w : BurstW) (p : BurstPacket) (f : FileCalls) : Option Handled :=
  if p.datasize ≠ 0 ∧ ¬p.sys then
    if tooLong w p then some ⟨[], none, if p.eob then endBurst w else w⟩
    else if InBuf p.burstoffset.toNat p.datasize.toNat w.recvBuf.length then
      handleFlags (withData w p) p f
    else none
  else handleFlags w p f

/-! ## Runs -/

/-- What comes in: a packet burst connection request, with the sizes in it, or a burst
packet, with what the file routines answer if they are called. -/
inductive BurstEvent where
  | connect (maxPacketSize maxSendSize maxRecvSize : UInt32)
  | packet (p : BurstPacket) (f : FileCalls)

inductive BurstReply where
  /-- completition 0xfb -/
  | unknownRequest
  | connected (reply : ConnectReply)
  | sent (packets : List SentPacket)
deriving DecidableEq

/-- `burst_w`, and the data that write requests have stored, the newest first. -/
structure BurstState where
  burstW : Option BurstW
  writes : List BurstWrite

/-- One request or packet. -/
def serve (cfg : BurstConfig) (s : BurstState) : BurstEvent → Option (BurstReply × BurstState)
  | .connect maxPacketSize maxSendSize maxRecvSize =>
      if cfg.serverVersionFlags % 2 = 1 then
        (connect cfg s.burstW maxPacketSize maxSendSize maxRecvSize).map
          fun (reply, w) => (.connected reply, { s with burstW := some w })
      else some (.unknownRequest, s)
  | .packet p f =>
      match s.burstW with
      | none => some (.sent [], s)
      | some w => (handleBurst w p f).map
          fun h => (.sent h.sent, ⟨some h.burstW, h.write.toList ++ s.writes⟩)

/-- The process. After an access outside a buffer, and in a loop that does not end, it has
no state any more. -/
def machine (cfg : BurstConfig) : Machine (Option BurstState) BurstEvent (Option BurstReply) where
  step s e :=
    match s.bind fun s => serve cfg s e with
    | none => (none, none)
    | some (reply, s) => (some reply, some s)

/-- A process that has no burst connection yet. -/
def fresh : Option BurstState := some ⟨none, []⟩

/-! ## What bursts should do -/

/-- All bytes were received in the burst of the request. -/
def BurstWrite.Received (x : BurstWrite) : Prop := ∀ b ∈ x.stored, b.burst = some x.burstSeq

/-- All accesses were inside the buffers, all loops ended, and what was stored had been
received in the burst. -/
def Sound (s : Option BurstState) : Prop :=
  ∃ b, s = some b ∧ ∀ x ∈ b.writes, x.Received

/-! ## When they do -/

/-- A reply that is sent: one piece of it has a byte at least, and all of it is in
`send_buf`. -/
def ResponseOk (w : BurstW) (offset : Nat) (size : Int) : Prop :=
  28 ≤ w.sendburst ∧
    (size = 0 ∨ 1 ≤ w.maxBurstDataSize ∧ 0 < size ∧ offset + size ≤ w.sendBuf.length)

/-- Where the byte at a position of `recv_buf` comes from: the newest packet that covers
it carried it, with the number of its burst, or nobody sent it. -/
def origin : List BurstPacket → Nat → Option UInt16
  | [], _ => none
  | p :: parts, pos =>
      if p.burstoffset.toNat ≤ pos ∧ pos < p.burstoffset.toNat + p.datasize.toNat then
        if headerSize + (pos - p.burstoffset.toNat) < p.len then some p.burstSeq else none
      else origin parts pos

/-- `recv_buf` has room for the fields of a request that are read. What a read request
delivers fits `send_buf`, and what a write request stores was sent in its burst. -/
def RequestOk (w : BurstW) (p : BurstPacket) (f : FileCalls) : Prop :=
  match requestOf w.recvBuf with
  | none => False
  | some none => True
  | some (some r) =>
      if r.writes then
        4 ≤ w.sendBuf.length ∧ 24 + taken f r ≤ w.recvBuf.length ∧ ResponseOk w 0 4 ∧
          ∀ pos, 24 ≤ pos → pos < 24 + taken f r → origin w.parts pos = some p.burstSeq
      else
        ((delivered f r).getD []).length + 8 ≤ w.sendBuf.length ∧
          ResponseOk w 0 (intOf (((delivered f r).getD []).length + 8))

def FlagsOk (w : BurstW) (p : BurstPacket) (f : FileCalls) : Prop :=
  if p.eob then RequestOk w p f
  else if p.sys then ∀ x ∈ p.fragments, ResponseOk w x.1.toNat x.2
  else True

/-- The offset and the size of the data do not overflow when they are added, and what the
packet brings about can be done. -/
def PacketOk (w : BurstW) (p : BurstPacket) (f : FileCalls) : Prop :=
  if p.datasize ≠ 0 ∧ ¬p.sys then
    tooLong w p ∨
      p.burstoffset.toNat + p.datasize.toNat < 2 ^ 32 ∧ FlagsOk (withData w p) p f
  else FlagsOk w p f

/-- A connection request leaves room for the fields filled in beforehand. -/
def EventOk (cfg : BurstConfig) (s : Option BurstState) : BurstEvent → Prop
  | .connect maxPacketSize _ _ =>
      cfg.serverVersionFlags % 2 = 1 → 20 ≤ packetSize maxPacketSize
  | .packet p f => ∀ b w, s = some b → b.burstW = some w → PacketOk w p f

/-! ## Replies -/

theorem uint32Of_lt (x : Int) : uint32Of x < 2 ^ 32 := by
  unfold uint32Of
  omega

/-- The buffers have the sizes that go with the other fields. -/
structure Laid (w : BurstW) : Prop where
  sendburst : (w.sendburst : Int) = w.maxBurstDataSize + headerSize
  sendBuf : w.sendBuf.length < 2 ^ 32
  recvBuf : w.recvBuf.length = uint32Of (w.maxRecvSize + 24)

/-- Sending moves the number of the next packet on, and nothing else. -/
def SentFrom (w w' : BurstW) : Prop := ∃ n, w' = { w with packetSequence := n }

theorem SentFrom.refl (w : BurstW) : SentFrom w w := ⟨w.packetSequence, rfl⟩

theorem SentFrom.trans {w w' w'' : BurstW} (h : SentFrom w w') (h' : SentFrom w' w'') :
    SentFrom w w'' := by
  obtain ⟨n, rfl⟩ := h
  obtain ⟨m, rfl⟩ := h'
  exact ⟨m, rfl⟩

theorem SentFrom.laid {w w' : BurstW} (h : SentFrom w w') (hw : Laid w) : Laid w' := by
  obtain ⟨n, rfl⟩ := h
  exact ⟨hw.sendburst, hw.sendBuf, hw.recvBuf⟩

theorem sendBurst_eq_some {burstsize : Int} {w w' : BurstW} {offset : Nat} {datasize : Int}
    {flags : UInt8} {packet : SentPacket}
    (h : sendBurst burstsize w offset datasize flags = some (packet, w')) :
    InBuf offset datasize w.sendBuf.length ∧ SentFrom w w' := by
  unfold sendBurst at h
  split at h
  next hin =>
    cases h
    exact ⟨hin.2.1, w.packetSequence + 1, rfl⟩
  next => cases h

theorem sendBurst_isSome {w : BurstW} (hw : Laid w) {offset : Nat} {datasize : Int}
    (hpos : 0 ≤ datasize) (hdata : datasize ≤ w.maxBurstDataSize)
    (hin : offset + datasize ≤ w.sendBuf.length) (burstsize : Int) (flags : UInt8) :
    ∃ packet w', sendBurst burstsize w offset datasize flags = some (packet, w') := by
  have hsize := hw.sendburst
  unfold sendBurst
  rw [if_pos ⟨by omega, .inr ⟨by omega, hpos, hin⟩, .inr ⟨by omega, hpos, by omega⟩⟩]
  exact ⟨_, _, rfl⟩

/-- A round of the loop that has something to send. -/
theorem responseLoop_succ {burstsize : Int} {w : BurstW} {rounds offset : Nat} {size : Int}
    (hsize : size ≠ 0) :
    responseLoop burstsize (rounds + 1) w offset size =
      (sendBurst burstsize w offset (min size w.maxBurstDataSize)
          (if size - min size w.maxBurstDataSize = 0 then 0x10 else 0)).bind fun sent =>
        (responseLoop burstsize rounds sent.2 (uint32Of (offset + min size w.maxBurstDataSize))
          (size - min size w.maxBurstDataSize)).map fun rest => (sent.1 :: rest.1, rest.2) := by
  conv => lhs; unfold responseLoop
  rw [if_neg hsize]
  dsimp only
  split
  next hnone => rw [hnone]; rfl
  next hsome => rw [hsome]; rfl

/-- Without room for data no number of rounds is enough. -/
theorem responseLoop_eq_none {burstsize : Int} {w : BurstW} (hdata : w.maxBurstDataSize ≤ 0)
    {size : Int} (hsize : 0 < size) (rounds offset : Nat) :
    responseLoop burstsize rounds w offset size = none := by
  induction rounds generalizing w offset size with
  | zero => rfl
  | succ rounds ih =>
      rw [responseLoop_succ (by omega), Option.bind_eq_none_iff]
      intro sent hsent
      obtain ⟨n, hnext⟩ := (sendBurst_eq_some hsent).2
      have hdata' : sent.2.maxBurstDataSize ≤ 0 := by
        rw [hnext]
        exact hdata
      rw [ih hdata' (by omega)]
      rfl

/-- What has been sent in the end lay in `send_buf`. -/
theorem responseLoop_eq_some {burstsize : Int} {w w' : BurstW} (hw : Laid w) {rounds offset : Nat}
    {size : Int} {packets : List SentPacket}
    (h : responseLoop burstsize rounds w offset size = some (packets, w')) :
    SentFrom w w' ∧
      (size = 0 ∨ 1 ≤ w.maxBurstDataSize ∧ 0 < size ∧ offset + size ≤ w.sendBuf.length) := by
  induction rounds generalizing w offset size packets with
  | zero => cases h
  | succ rounds ih =>
      by_cases hsize : size = 0
      · subst hsize
        cases h
        exact ⟨.refl _, .inl rfl⟩
      have hdata : 0 < size → 1 ≤ w.maxBurstDataSize := fun hpos =>
        Int.not_lt.mp fun hlt => by
          rw [responseLoop_eq_none (by omega) hpos] at h
          cases h
      rw [responseLoop_succ hsize] at h
      obtain ⟨sent, hsent, hrest⟩ := Option.bind_eq_some_iff.mp h
      obtain ⟨rest, hloop, hrest⟩ := Option.map_eq_some_iff.mp hrest
      cases hrest
      obtain ⟨hin, hfrom⟩ := sendBurst_eq_some hsent
      obtain ⟨hlast, hnext⟩ := ih (hfrom.laid hw) hloop
      refine ⟨hfrom.trans hlast, .inr ?_⟩
      obtain ⟨n, hn⟩ := hfrom
      rw [hn] at hnext
      have hlen := hw.sendBuf
      unfold uint32Of at hnext
      dsimp only at hnext
      rcases hin with hzero | ⟨-, hpos, hend⟩
      · omega
      · omega

/-- What lies in `send_buf` is sent, in rounds that all bring the loop forward. -/
theorem responseLoop_isSome {burstsize : Int} {w : BurstW} (hw : Laid w) {rounds offset : Nat}
    {size : Int} (hrounds : size.toNat < rounds)
    (hok : size = 0 ∨ 1 ≤ w.maxBurstDataSize ∧ 0 < size ∧ offset + size ≤ w.sendBuf.length) :
    ∃ packets w', responseLoop burstsize rounds w offset size = some (packets, w') := by
  induction rounds generalizing w offset size with
  | zero => omega
  | succ rounds ih =>
      rcases hok with rfl | ⟨hdata, hpos, hend⟩
      · exact ⟨[], w, rfl⟩
      have hlen := hw.sendBuf
      have hround : (offset : Int) + min size w.maxBurstDataSize ≤ w.sendBuf.length := by omega
      obtain ⟨packet, next, hsent⟩ := sendBurst_isSome hw (by omega) (by omega) hround burstsize
        (if size - min size w.maxBurstDataSize = 0 then 0x10 else 0)
      have hfrom := (sendBurst_eq_some hsent).2
      have hnext : size - min size w.maxBurstDataSize = 0 ∨ 1 ≤ next.maxBurstDataSize ∧
          0 < size - min size w.maxBurstDataSize ∧
          (uint32Of (offset + min size w.maxBurstDataSize) : Int) +
            (size - min size w.maxBurstDataSize) ≤ next.sendBuf.length := by
        obtain ⟨n, rfl⟩ := hfrom
        unfold uint32Of
        dsimp only
        omega
      obtain ⟨packets, w', hrest⟩ := ih (hfrom.laid hw) (by omega) hnext
      refine ⟨packet :: packets, w', ?_⟩
      rw [responseLoop_succ (by omega), hsent, Option.bind_some, hrest]
      rfl

theorem handleBurstResponse_eq_some {w w' : BurstW} (hw : Laid w) {offset : Nat} {size : Int}
    {packets : List SentPacket} (h : handleBurstResponse w offset size = some (packets, w')) :
    SentFrom w w' ∧ ResponseOk w offset size := by
  unfold handleBurstResponse at h
  split at h
  next hheader =>
    obtain ⟨hfrom, hok⟩ := responseLoop_eq_some hw h
    exact ⟨hfrom, hheader, hok⟩
  next => cases h

/-- A response comes to an end inside the buffers just when it is one that can be sent. -/
theorem handleBurstResponse_isSome {w : BurstW} (hw : Laid w) {offset : Nat} {size : Int}
    (hok : ResponseOk w offset size) :
    ∃ packets w', handleBurstResponse w offset size = some (packets, w') := by
  unfold handleBurstResponse
  rw [if_pos hok.1]
  exact responseLoop_isSome hw (Nat.lt_succ_self _) hok.2

theorem SentFrom.responseOk_iff {w w' : BurstW} (h : SentFrom w w') {offset : Nat} {size : Int} :
    ResponseOk w' offset size ↔ ResponseOk w offset size := by
  obtain ⟨n, rfl⟩ := h
  exact Iff.rfl

/-- The missing fragments are sent again just when each of them can be. -/
theorem resend_isSome_iff {w : BurstW} (hw : Laid w) (fragments : List (UInt32 × Nat)) :
    (∃ sent w', resend w fragments = some (sent, w')) ↔
      ∀ x ∈ fragments, ResponseOk w x.1.toNat x.2 := by
  induction fragments generalizing w with
  | nil => exact ⟨fun _ x hx => absurd hx List.not_mem_nil, fun _ => ⟨[], w, rfl⟩⟩
  | cons x rest ih =>
      obtain ⟨offs, size⟩ := x
      unfold resend
      split
      next hnone =>
        constructor
        · intro ⟨_, _, h⟩
          cases h
        · intro hok
          obtain ⟨packets, w', hsome⟩ := handleBurstResponse_isSome hw (hok _ List.mem_cons_self)
          rw [hnone] at hsome
          cases hsome
      next packets next hsome =>
        obtain ⟨hfrom, hfirst⟩ := handleBurstResponse_eq_some hw hsome
        have hrest := ih (hfrom.laid hw)
        constructor
        · intro ⟨_, _, h⟩
          obtain ⟨more, hmore, -⟩ := Option.map_eq_some_iff.mp h
          intro x hx
          rcases List.mem_cons.mp hx with rfl | hx
          · exact hfirst
          · exact hfrom.responseOk_iff.mp (hrest.mp ⟨more.1, more.2, hmore⟩ x hx)
        · intro hok
          obtain ⟨more, w', hmore⟩ := hrest.mpr fun x hx =>
            hfrom.responseOk_iff.mpr (hok x (List.mem_cons_of_mem _ hx))
          rw [hmore]
          exact ⟨_, _, rfl⟩

theorem resend_sent {w w' : BurstW} (hw : Laid w) {fragments : List (UInt32 × Nat)}
    {sent : List SentPacket} (h : resend w fragments = some (sent, w')) : SentFrom w w' := by
  induction fragments generalizing w sent with
  | nil =>
      cases h
      exact .refl _
  | cons x rest ih =>
      unfold resend at h
      split at h
      · cases h
      next packets next hsome =>
        obtain ⟨more, hmore, heq⟩ := Option.map_eq_some_iff.mp h
        cases heq
        have hfrom := (handleBurstResponse_eq_some hw hsome).1
        exact hfrom.trans (ih (hfrom.laid hw) hmore)

/-! ## Where the bytes come from -/

/-- A byte of `recv_buf` is marked with the burst that its origin tells. -/
def Traced (w : BurstW) : Prop :=
  ∀ pos : Nat, w.recvBuf[pos]?.bind (·.burst) = origin w.parts pos

theorem length_data (p : BurstPacket) : p.data.length = p.datasize.toNat := by
  simp [BurstPacket.data]

theorem getElem?_data {p : BurstPacket} {i : Nat} (h : i < p.datasize.toNat) :
    p.data[i]? = some ⟨p.behind i, if headerSize + i < p.len then some p.burstSeq else none⟩ := by
  unfold BurstPacket.data
  rw [List.getElem?_map, List.getElem?_range h]
  rfl

theorem data_ne_nil {p : BurstPacket} (h : p.datasize ≠ 0) : p.data ≠ [] := by
  rw [← List.length_pos_iff, length_data]
  exact Nat.pos_of_ne_zero fun hzero => h (UInt16.toNat_inj.mp hzero)

theorem withData_laid {w : BurstW} (hw : Laid w) {p : BurstPacket} (hdata : p.datasize ≠ 0)
    (hin : p.burstoffset.toNat + p.datasize.toNat ≤ w.recvBuf.length) : Laid (withData w p) := by
  refine ⟨hw.sendburst, hw.sendBuf, ?_⟩
  show (writeAt _ w.recvBuf _ p.data).length = _
  rw [length_writeAt (data_ne_nil hdata), length_data, Nat.max_eq_left hin]
  exact hw.recvBuf

theorem withData_traced {w : BurstW} (hw : Traced w) {p : BurstPacket}
    (hin : p.burstoffset.toNat + p.datasize.toNat ≤ w.recvBuf.length) : Traced (withData w p) := by
  intro pos
  show (writeAt _ w.recvBuf _ p.data)[pos]?.bind _ = origin (p :: w.parts) pos
  unfold origin
  rw [getElem?_writeAt, length_data]
  split
  next hcovered =>
    rw [getElem?_data (by omega)]
    rfl
  next hnot =>
    rw [if_neg (by omega)]
    exact hw pos

theorem endBurst_traced (w : BurstW) : Traced (endBurst w) := by
  intro pos
  show (w.recvBuf.map _)[pos]?.bind _ = none
  rw [List.getElem?_map]
  cases w.recvBuf[pos]? <;> rfl

theorem endBurst_laid {w : BurstW} (hw : Laid w) : Laid (endBurst w) :=
  ⟨hw.sendburst, hw.sendBuf, (List.length_map _).trans hw.recvBuf⟩

theorem finishRequest_laid {w : BurstW} (hw : Laid w) (hlen : 0 < w.recvBuf.length) :
    Laid (finishRequest w) := by
  refine endBurst_laid ⟨hw.sendburst, hw.sendBuf, ?_⟩
  show (writeAt _ w.recvBuf 0 [_]).length = _
  rw [length_writeAt (List.cons_ne_nil _ _), List.length_singleton, Nat.max_eq_left hlen]
  exact hw.recvBuf

/-- The stored bytes were received in the burst just when their origins tell so. -/
theorem received_iff {w : BurstW} (hw : Traced w) {n : Nat} (hin : 24 + n ≤ w.recvBuf.length)
    (seq : UInt16) : (BurstWrite.mk seq (readAt w.recvBuf 24 n)).Received ↔
      ∀ pos, 24 ≤ pos → pos < 24 + n → origin w.parts pos = some seq := by
  constructor
  · intro h pos hfrom hto
    have hlt : pos < w.recvBuf.length := by omega
    have hget : (readAt w.recvBuf 24 n)[pos - 24]? = some w.recvBuf[pos] := by
      rw [getElem?_readAt, if_pos (by omega), Nat.add_sub_cancel' hfrom]
      exact List.getElem?_eq_getElem _
    rw [← hw pos, List.getElem?_eq_getElem (by omega)]
    exact h _ (List.mem_of_getElem? hget)
  · intro h b hb
    obtain ⟨i, hi⟩ := List.mem_iff_getElem?.mp hb
    rw [getElem?_readAt] at hi
    split at hi
    next hlt =>
      rw [← h (24 + i) (by omega) (by omega), ← hw, hi]
      rfl
    next => cases hi

/-! ## One packet -/

structure Inv (w : BurstW) : Prop where
  laid : Laid w
  traced : Traced w

/-- The packet was handled inside the buffers, and what it stored had been received. -/
def SoundHandled (r : Option Handled) : Prop :=
  ∃ h, r = some h ∧ ∀ x, h.write = some x → x.Received

theorem not_soundHandled_none : ¬SoundHandled none := by
  intro ⟨_, h, _⟩
  cases h

theorem soundHandled_of_no_write {h : Handled} (hwrite : h.write = none) :
    SoundHandled (some h) := by
  refine ⟨h, rfl, fun x hx => ?_⟩
  rw [hwrite] at hx
  cases hx

theorem length_of_get32 {recvBuf : List RecvByte} {pos : Nat} {value : UInt32}
    (h : get32 recvBuf pos = some value) : pos + 4 ≤ recvBuf.length := by
  unfold get32 at h
  split at h
  next hread =>
    have hlen := congrArg List.length hread
    simp only [length_readAt, List.length_cons, List.length_nil] at hlen
    omega
  next => cases h

theorem length_of_getBE32 {recvBuf : List RecvByte} {pos : Nat} {value : UInt32}
    (h : getBE32 recvBuf pos = some value) : pos + 4 ≤ recvBuf.length := by
  unfold getBE32 at h
  split at h
  next hread =>
    have hlen := congrArg List.length hread
    simp only [length_readAt, List.length_cons, List.length_nil] at hlen
    omega
  next => cases h

/-- A request that is looked at has room in `recv_buf`: its function, or all fields. -/
theorem length_of_requestOf {recvBuf : List RecvByte} {r : Option BurstRequest}
    (h : requestOf recvBuf = some r) :
    0 < recvBuf.length ∧ (r.isSome → 24 ≤ recvBuf.length) := by
  unfold requestOf at h
  split at h
  · cases h
  next function hfunction =>
    have hlen := length_of_get32 hfunction
    refine ⟨by omega, fun hsome => ?_⟩
    split at h
    · simp only [Option.bind_eq_bind, Option.bind_eq_some_iff] at h
      obtain ⟨_, _, _, _, _, hsize, _⟩ := h
      exact length_of_getBE32 hsize
    · cases h
      cases hsome

/-- A reply put into `send_buf` leaves the layout as it is. -/
theorem Laid.reply {w : BurstW} (hw : Laid w) {sendBuf : List UInt8}
    (hlen : sendBuf.length = w.sendBuf.length) (seq : UInt16) :
    Laid { w with sendBuf := sendBuf, burstSequence := seq } :=
  ⟨hw.sendburst, hlen ▸ hw.sendBuf, hw.recvBuf⟩

theorem responseOk_reply {w : BurstW} {sendBuf : List UInt8}
    (hlen : sendBuf.length = w.sendBuf.length) (seq : UInt16) {offset : Nat} {size : Int} :
    ResponseOk { w with sendBuf := sendBuf, burstSequence := seq } offset size ↔
      ResponseOk w offset size := by
  unfold ResponseOk
  dsimp only
  rw [hlen]

theorem length_readReply {sendBuf : List UInt8} {answer : Option (List UInt8)}
    (h : (answer.getD []).length + 8 ≤ sendBuf.length) :
    (readReply sendBuf answer).length = sendBuf.length := by
  have hdata : (writeAt 0 sendBuf 8 (answer.getD [])).length = sendBuf.length :=
    length_writeAt_inside (by omega)
  unfold readReply
  rw [length_writeAt_inside, hdata]
  simp only [hdata, List.cons_append, List.nil_append, List.length_cons, length_be32Bytes]
  omega

theorem length_writeReply {sendBuf : List UInt8} (h : 4 ≤ sendBuf.length) (size : Int)
    (fileSize : UInt32) : (writeReply sendBuf size fileSize).length = sendBuf.length := by
  unfold writeReply
  rw [length_writeAt_inside]
  exact h

theorem fits_of_inBuf {size len : Nat} (h : InBuf 8 size len ∧ 8 ≤ len) : size + 8 ≤ len := by
  rcases h.1 with hzero | ⟨-, -, hend⟩ <;> omega

/-- What a read request leaves: laid out as before, with the same `recv_buf`. -/
theorem readRequest_eq_some {w w' : BurstW} (hw : Laid w) {p : BurstPacket} {f : FileCalls}
    {r : BurstRequest} {sent : List SentPacket} (h : readRequest w p f r = some (sent, w')) :
    (Laid w' ∧ w'.recvBuf.length = w.recvBuf.length) ∧
      ((delivered f r).getD []).length + 8 ≤ w.sendBuf.length ∧
        ResponseOk w 0 (intOf (((delivered f r).getD []).length + 8)) := by
  unfold readRequest at h
  dsimp only at h
  split at h
  next hin =>
    have hfits := length_readReply (fits_of_inBuf hin)
    have hlaid := hw.reply hfits p.burstSeq
    obtain ⟨hfrom, hok⟩ := handleBurstResponse_eq_some hlaid h
    refine ⟨⟨hfrom.laid hlaid, ?_⟩, fits_of_inBuf hin, (responseOk_reply hfits _).mp hok⟩
    obtain ⟨n, rfl⟩ := hfrom
    rfl
  next => cases h

/-- What a read delivers is sent, if it fits and can be sent. -/
theorem readRequest_isSome {w : BurstW} (hw : Laid w) {p : BurstPacket} {f : FileCalls}
    {r : BurstRequest} (hin : ((delivered f r).getD []).length + 8 ≤ w.sendBuf.length)
    (hok : ResponseOk w 0 (intOf (((delivered f r).getD []).length + 8))) :
    ∃ sent w', readRequest w p f r = some (sent, w') := by
  have hfits := length_readReply hin
  unfold readRequest
  dsimp only
  rw [if_pos ⟨.inr ⟨by omega, by omega, by omega⟩, by omega⟩]
  exact handleBurstResponse_isSome (hw.reply hfits _) ((responseOk_reply hfits _).mpr hok)

theorem writeRequest_eq_some {w w' : BurstW} (hw : Laid w) {p : BurstPacket} {f : FileCalls}
    {r : BurstRequest} {sent : List SentPacket} {x : BurstWrite}
    (h : writeRequest w p f r = some (sent, x, w')) :
    (Laid w' ∧ w'.recvBuf.length = w.recvBuf.length) ∧
      (4 ≤ w.sendBuf.length ∧ InBuf 24 (taken f r) w.recvBuf.length ∧ ResponseOk w 0 4) ∧
        x = ⟨p.burstSeq, readAt w.recvBuf 24 (taken f r)⟩ := by
  unfold writeRequest at h
  dsimp only at h
  split at h
  next hin =>
    obtain ⟨⟨sent', w''⟩, hresponse, heq⟩ := Option.map_eq_some_iff.mp h
    cases heq
    have hfits := length_writeReply hin.2 (f.write r.fhandle r.fileSize r.fileOffset) r.fileSize
    have hlaid := hw.reply hfits p.burstSeq
    obtain ⟨hfrom, hok⟩ := handleBurstResponse_eq_some hlaid hresponse
    refine ⟨⟨hfrom.laid hlaid, ?_⟩, ⟨hin.2, hin.1, (responseOk_reply hfits _).mp hok⟩, rfl⟩
    obtain ⟨n, rfl⟩ := hfrom
    rfl
  next => cases h

theorem writeRequest_isSome {w : BurstW} (hw : Laid w) {p : BurstPacket} {f : FileCalls}
    {r : BurstRequest} (hlen : 4 ≤ w.sendBuf.length)
    (hin : 24 + taken f r ≤ w.recvBuf.length) (hok : ResponseOk w 0 4) :
    ∃ sent x w', writeRequest w p f r = some (sent, x, w') := by
  have hfits := length_writeReply hlen (f.write r.fhandle r.fileSize r.fileOffset) r.fileSize
  unfold writeRequest
  dsimp only
  rw [if_pos ⟨.inr ⟨by omega, by omega, by omega⟩, hlen⟩]
  obtain ⟨sent, w', hsome⟩ := handleBurstResponse_isSome (hw.reply hfits p.burstSeq)
    ((responseOk_reply hfits p.burstSeq).mpr hok)
  rw [hsome]
  exact ⟨_, _, _, rfl⟩

/-- The action at the end of a burst is sound just when its request meets the condition. -/
theorem handleRequest_sound_iff {w : BurstW} (hw : Inv w) (p : BurstPacket) (f : FileCalls) :
    SoundHandled (handleRequest w p f) ↔ RequestOk w p f := by
  unfold handleRequest RequestOk
  split
  next hnone =>
    exact iff_of_false not_soundHandled_none id
  next hunknown =>
    exact iff_of_true (soundHandled_of_no_write rfl) trivial
  next r hrequest =>
    split
    next hwrites =>
      have hroom : 24 ≤ w.recvBuf.length := (length_of_requestOf hrequest).2 rfl
      constructor
      · intro ⟨h, hsome, hreceived⟩
        obtain ⟨⟨sent, x, w'⟩, hwrite, heq⟩ := Option.map_eq_some_iff.mp hsome
        cases heq
        obtain ⟨-, ⟨hlen, hin, hok⟩, rfl⟩ := writeRequest_eq_some hw.laid hwrite
        have hend : 24 + taken f r ≤ w.recvBuf.length := by
          rcases hin with hzero | ⟨-, -, hend⟩ <;> omega
        exact ⟨hlen, hend, hok, (received_iff hw.traced hend _).mp (hreceived _ rfl)⟩
      · intro ⟨hlen, hend, hok, horigin⟩
        obtain ⟨sent, x, w', hwrite⟩ := writeRequest_isSome hw.laid (p := p) hlen hend hok
        obtain ⟨-, -, rfl⟩ := writeRequest_eq_some hw.laid hwrite
        rw [hwrite]
        refine ⟨_, rfl, fun x hx => ?_⟩
        cases hx
        exact (received_iff hw.traced hend _).mpr horigin
    next hreads =>
      constructor
      · intro ⟨h, hsome, _⟩
        obtain ⟨⟨sent, w'⟩, hread, -⟩ := Option.map_eq_some_iff.mp hsome
        exact (readRequest_eq_some hw.laid hread).2
      · intro ⟨hin, hok⟩
        obtain ⟨sent, w', hread⟩ := readRequest_isSome hw.laid (p := p) hin hok
        rw [hread]
        exact soundHandled_of_no_write rfl

theorem handleRequest_inv {w : BurstW} (hw : Inv w) {p : BurstPacket} {f : FileCalls} {h : Handled}
    (hsome : handleRequest w p f = some h) : Inv h.burstW := by
  unfold handleRequest at hsome
  split at hsome
  · cases hsome
  next hunknown =>
    cases hsome
    exact ⟨finishRequest_laid hw.laid (length_of_requestOf hunknown).1, endBurst_traced _⟩
  next r hrequest =>
    have hpos := (length_of_requestOf hrequest).1
    split at hsome
    · obtain ⟨⟨sent, x, w'⟩, hwrite, rfl⟩ := Option.map_eq_some_iff.mp hsome
      obtain ⟨⟨hlaid, hlen⟩, -, -⟩ := writeRequest_eq_some hw.laid hwrite
      exact ⟨finishRequest_laid hlaid (hlen ▸ hpos), endBurst_traced _⟩
    · obtain ⟨⟨sent, w'⟩, hread, rfl⟩ := Option.map_eq_some_iff.mp hsome
      obtain ⟨⟨hlaid, hlen⟩, -, -⟩ := readRequest_eq_some hw.laid hread
      exact ⟨finishRequest_laid hlaid (hlen ▸ hpos), endBurst_traced _⟩

theorem handleFlags_sound_iff {w : BurstW} (hw : Inv w) (p : BurstPacket) (f : FileCalls) :
    SoundHandled (handleFlags w p f) ↔ FlagsOk w p f := by
  unfold handleFlags FlagsOk
  split
  · exact handleRequest_sound_iff hw p f
  split
  · have hresend := resend_isSome_iff (w := { w with burstSequence := p.burstSeq })
      ⟨hw.laid.sendburst, hw.laid.sendBuf, hw.laid.recvBuf⟩ p.fragments
    constructor
    · intro ⟨h, hsome, _⟩
      obtain ⟨⟨sent, w'⟩, hsent, -⟩ := Option.map_eq_some_iff.mp hsome
      exact hresend.mp ⟨sent, w', hsent⟩
    · intro hok
      obtain ⟨sent, w', hsent⟩ := hresend.mpr hok
      rw [hsent]
      exact soundHandled_of_no_write rfl
  · exact iff_of_true (soundHandled_of_no_write rfl) trivial

theorem handleFlags_inv {w : BurstW} (hw : Inv w) {p : BurstPacket} {f : FileCalls} {h : Handled}
    (hsome : handleFlags w p f = some h) : Inv h.burstW := by
  unfold handleFlags at hsome
  split at hsome
  · exact handleRequest_inv hw hsome
  split at hsome
  · obtain ⟨⟨sent, w'⟩, hsent, rfl⟩ := Option.map_eq_some_iff.mp hsome
    have hlaid : Laid { w with burstSequence := p.burstSeq } :=
      ⟨hw.laid.sendburst, hw.laid.sendBuf, hw.laid.recvBuf⟩
    have hfrom := resend_sent hlaid hsent
    refine ⟨hfrom.laid hlaid, ?_⟩
    obtain ⟨n, rfl⟩ := hfrom
    exact hw.traced
  · cases hsome
    exact hw

/-- With the check before it, a copy stays inside `recv_buf` just when its end does not
overflow. -/
theorem inBuf_iff {w : BurstW} (hw : Laid w) {p : BurstPacket} (hdata : p.datasize ≠ 0)
    (hlong : ¬tooLong w p) :
    InBuf p.burstoffset.toNat p.datasize.toNat w.recvBuf.length ↔
      p.burstoffset.toNat + p.datasize.toNat < 2 ^ 32 := by
  have hpos : 0 < p.datasize.toNat := by
    rw [← length_data]
    exact List.length_pos_iff.mpr (data_ne_nil hdata)
  have hlt := uint32Of_lt (w.maxRecvSize + 24)
  have hlen := hw.recvBuf
  simp only [tooLong, decide_eq_true_eq] at hlong
  constructor
  · intro hin
    rcases hin with hzero | ⟨-, -, hend⟩ <;> omega
  · intro hsum
    rw [Nat.mod_eq_of_lt (by omega)] at hlong
    exact .inr ⟨by omega, by omega, by omega⟩

theorem withData_inv {w : BurstW} (hw : Inv w) {p : BurstPacket} (hdata : p.datasize ≠ 0)
    (hin : InBuf p.burstoffset.toNat p.datasize.toNat w.recvBuf.length) : Inv (withData w p) := by
  have hend : p.burstoffset.toNat + p.datasize.toNat ≤ w.recvBuf.length := by
    rcases hin with hzero | ⟨-, -, hend⟩
    · exact absurd (UInt16.toNat_inj.mp (Int.ofNat.inj hzero)) hdata
    · omega
  exact ⟨withData_laid hw.laid hdata hend, withData_traced hw.traced hend⟩

theorem handleBurst_sound_iff {w : BurstW} (hw : Inv w) (p : BurstPacket) (f : FileCalls) :
    SoundHandled (handleBurst w p f) ↔ PacketOk w p f := by
  unfold handleBurst PacketOk
  split
  next hcopies =>
    split
    next hlong => exact iff_of_true (soundHandled_of_no_write rfl) (.inl hlong)
    next hlong =>
      rw [← inBuf_iff hw.laid hcopies.1 hlong]
      split
      next hin =>
        rw [handleFlags_sound_iff (withData_inv hw hcopies.1 hin)]
        exact ⟨fun hok => .inr ⟨hin, hok⟩, fun hok => (hok.resolve_left hlong).2⟩
      next hout =>
        exact iff_of_false not_soundHandled_none fun hok => hout (hok.resolve_left hlong).1
  next => exact handleFlags_sound_iff hw p f

theorem handleBurst_inv {w : BurstW} (hw : Inv w) {p : BurstPacket} {f : FileCalls} {h : Handled}
    (hsome : handleBurst w p f = some h) : Inv h.burstW := by
  unfold handleBurst at hsome
  split at hsome
  next hcopies =>
    split at hsome
    · cases hsome
      split
      · exact ⟨endBurst_laid hw.laid, endBurst_traced w⟩
      · exact hw
    split at hsome
    next hin => exact handleFlags_inv (withData_inv hw hcopies.1 hin) hsome
    next => cases hsome
  next => exact handleFlags_inv hw hsome

/-! ## Runs of requests and packets -/

theorem burst_replicate (n pos : Nat) :
    (List.replicate n (⟨0, none⟩ : RecvByte))[pos]?.bind (·.burst) = none := by
  rw [List.getElem?_replicate]
  split <;> rfl

theorem connect_inv {cfg : BurstConfig} {old : Option BurstW}
    {maxPacketSize maxSendSize maxRecvSize : UInt32} {reply : ConnectReply} {w : BurstW}
    (h : connect cfg old maxPacketSize maxSendSize maxRecvSize = some (reply, w)) : Inv w := by
  unfold connect at h
  dsimp only at h
  split at h
  next hroom =>
    cases h
    refine ⟨⟨?_, ?_, List.length_replicate⟩, fun pos => ?_⟩
    · dsimp only
      omega
    · rw [List.length_replicate]
      exact uint32Of_lt _
    · exact burst_replicate _ pos
  next => cases h

/-- A process that is sound, with a `burst_w` that is laid out and traced. -/
def StateInv (s : Option BurstState) : Prop :=
  ∃ b, s = some b ∧ (∀ x ∈ b.writes, x.Received) ∧ ∀ w, b.burstW = some w → Inv w

theorem StateInv.sound {s : Option BurstState} (h : StateInv s) : Sound s :=
  h.imp fun _ hb => ⟨hb.1, hb.2.1⟩

theorem not_sound_none : ¬Sound none := by
  intro ⟨_, h, _⟩
  cases h

theorem step_some (cfg : BurstConfig) (b : BurstState) (e : BurstEvent) :
    ((machine cfg).step (some b) e).2 = (serve cfg b e).map (·.2) := by
  show (match serve cfg b e with
    | none => ((none, none) : Option BurstReply × Option BurstState)
    | some (reply, s) => (some reply, some s)).2 = _
  cases serve cfg b e <;> rfl

theorem step_inv (cfg : BurstConfig) {s : Option BurstState} {e : BurstEvent} (hs : StateInv s)
    (hok : EventOk cfg s e) : StateInv ((machine cfg).step s e).2 := by
  obtain ⟨b, rfl, hwrites, hinv⟩ := hs
  rw [step_some]
  unfold serve
  cases e with
  | connect maxPacketSize maxSendSize maxRecvSize =>
      dsimp only
      split
      next henabled =>
        cases hconnect : connect cfg b.burstW maxPacketSize maxSendSize maxRecvSize with
        | none =>
            unfold connect at hconnect
            rw [if_pos (hok henabled)] at hconnect
            cases hconnect
        | some result =>
            refine ⟨_, rfl, hwrites, fun w hw => ?_⟩
            cases hw
            exact connect_inv hconnect
      next => exact ⟨b, rfl, hwrites, hinv⟩
  | packet p f =>
      dsimp only
      split
      next => exact ⟨b, rfl, hwrites, hinv⟩
      next w hw =>
        obtain ⟨h, hsome, hreceived⟩ :=
          (handleBurst_sound_iff (hinv w hw) p f).mpr (hok b w rfl hw)
        rw [hsome]
        refine ⟨_, rfl, fun x hx => ?_, fun w' hw' => ?_⟩
        · rcases List.mem_append.mp hx with hnew | hold
          · exact hreceived x (Option.mem_toList.mp hnew)
          · exact hwrites x hold
        · cases hw'
          exact handleBurst_inv (hinv w hw) hsome

theorem step_breaks (cfg : BurstConfig) {s : Option BurstState} {e : BurstEvent} (hs : StateInv s)
    (hnot : ¬EventOk cfg s e) : ¬Sound ((machine cfg).step s e).2 := by
  obtain ⟨b, rfl, hwrites, hinv⟩ := hs
  rw [step_some]
  unfold serve
  cases e with
  | connect maxPacketSize maxSendSize maxRecvSize =>
      simp only [EventOk, Classical.not_imp] at hnot
      dsimp only
      rw [if_pos hnot.1]
      unfold connect
      rw [if_neg hnot.2]
      exact not_sound_none
  | packet p f =>
      simp only [EventOk, Option.some.injEq, not_forall] at hnot
      obtain ⟨_, w, rfl, hw, hpacket⟩ := hnot
      dsimp only
      rw [hw]
      dsimp only
      intro ⟨b', hsome, hreceived⟩
      simp only [Option.map_map, Option.map_eq_some_iff, Function.comp_apply] at hsome
      obtain ⟨h, hsome, rfl⟩ := hsome
      refine hpacket ((handleBurst_sound_iff (hinv w hw) p f).mp ⟨h, hsome, fun x hx => ?_⟩)
      exact hreceived x (List.mem_append_left _ (Option.mem_toList.mpr hx))

/-- The buffers hold what a run of requests and packets does, its loops end and its write
requests store what was received in their bursts, just when every connection request and
every packet of the run meets its condition. -/
theorem burst_sound_iff (cfg : BurstConfig) (es : List BurstEvent) :
    (∀ before, before <+: es → Sound ((machine cfg).exec fresh before)) ↔
      (machine cfg).Along (EventOk cfg) fresh es :=
  (machine cfg).forall_prefix_iff_along_of_invariant (fun _ hs => hs.sound)
    (fun _ _ hs hok => step_inv cfg hs hok) (fun _ _ hs hnot => step_breaks cfg hs hnot)
    ⟨_, rfl, fun x hx => absurd hx List.not_mem_nil, fun w hw => by cases hw⟩ es

/-- The sizes that bursts have if nothing else is configured. -/
def defaultSizes : BurstConfig := ⟨1, 0x2000, 0x2000⟩

/-- A request to read 32 bytes, in one packet that ends its burst. -/
def readPacket : BurstPacket where
  flags := 0x10
  burstSeq := 1
  burstoffset := 0
  datasize := 24
  missing := 0
  behind := fun i => if i = 0 ∨ i = 4 then 1 else if i = 23 then 32 else 0
  len := 60

/-- A file with more than 32 bytes in it. -/
def longFile : FileCalls := ⟨fun _ _ _ => some (List.replicate 40 0x61), fun _ _ _ => 0⟩

/-- A client that takes 16 bytes at a time and reads 32 has them put behind the end of
`send_buf`. -/
theorem not_sound_longRead :
    ¬∀ (cfg : BurstConfig) (es before : List BurstEvent), before <+: es →
      Sound ((machine cfg).exec fresh before) := by
  intro h
  have hnone : ((machine defaultSizes).exec fresh
      [.connect 1500 64 16, .packet readPacket longFile]).isNone := by
    decide +kernel
  obtain ⟨b, hsome, _⟩ := h defaultSizes _ _ (List.prefix_refl _)
  rw [hsome] at hnone
  cases hnone

end Burst

end MarsNwe
