/-
**The WebSocket client: a connection and its read loop.**

A model of `SocketClientBase` (`websocket/client_ws.hpp`) from `connection_open` on, in the manner
of `SimpleWeb.Server`.  Three things are done differently here.  Bytes read along with the
handshake response stay in the buffer of `in_message`, and their number is passed from one read to
the next; each read asks for that much less.  A frame is read into `in_message` itself and moved to
`fragmented_in_message` afterwards.  And every frame sent is masked, with a mask drawn from
`std::random_device`: `rd` is what the device is going to return.

Main definitions:

* `SimpleWeb.Client.Conn`, `SimpleWeb.Client.ReadOp` — a connection, and its outstanding read;
* `SimpleWeb.Client.readMessageContent`, `SimpleWeb.Client.onContent`,
  `SimpleWeb.Client.handleFrame` — the size check, and what is done with a frame;
* `SimpleWeb.Client.act`, `SimpleWeb.Client.Reachable` — everything that can happen to a
  connection, and the states it can be in;
* `SimpleWeb.Client.reader` — the connection as a reader of the bytes its server sends.

Main results:

* `SimpleWeb.Client.Reachable.run` — a run of the reader stays among the reachable states.
-/

import SimpleWeb.Machine
import SimpleWeb.Message

set_option relaxedAutoImplicit false
set_option autoImplicit false

namespace SimpleWeb.Client

/-! ### Connections -/

structure Config where
  maxMessageSize : UInt64 := sizeMax
  header : CaseInsensitiveMultimap := []
  proxyServer : Bytes := []

/-- The outstanding read, with the values captured by its handler. -/
inductive ReadOp
  | firstBytes (numAdditionalBytes : ℕ)
  | lengthBytes (numBytes updatedNumAdditionalBytes : ℕ)
  | content (numAdditionalBytes : ℕ)
  deriving DecidableEq, Repr

/-- `InMessage()`.  The constructor leaves the header byte as it is; it is written before it is
read. -/
def InMessage.empty : InMessage := ⟨0, 0, []⟩

/-- The part of `Connection` that the read loop works on. -/
structure Conn where
  inMessage : InMessage := InMessage.empty
  fragmentedInMessage : Option InMessage := none
  closed : Bool := false
  reading : Option ReadOp := none
  rd : ℕ → Mask
  log : List Event := []

namespace Conn

/-- The argument of `asio::transfer_exactly`. -/
def transferExactly (c : Conn) : ReadOp → ℕ
  | .firstBytes numAdditionalBytes => if numAdditionalBytes > 2 then 0 else 2 - numAdditionalBytes
  | .lengthBytes numBytes updatedNumAdditionalBytes =>
      if updatedNumAdditionalBytes > numBytes then 0 else numBytes - updatedNumAdditionalBytes
  | .content numAdditionalBytes =>
      if numAdditionalBytes > c.inMessage.length.toNat then 0
      else c.inMessage.length.toNat - numAdditionalBytes

/-- A callback is called if it is set. -/
def call (c : Conn) (set : Bool) (e : Event) : Conn :=
  { c with log := c.log ++ if set then [e] else [] }

/-- The length of the fragments received so far, zero when there are none. -/
def fragmentedLength (c : Conn) : UInt64 :=
  match c.fragmentedInMessage with
  | some m => m.length
  | none => 0

end Conn

/-! ### Sending -/

/-- The header written by `send`, up to the mask. -/
def outHeader (length : UInt64) (finRsvOpcode : UInt8) : Bytes :=
  finRsvOpcode ::
    if length ≥ 126 then
      if length > 0xffff then (127 + 128) :: putLength length 8
      else (126 + 128) :: putLength length 2
    else [(length + 128).toUInt8]

/-- The bytes `send` puts on the queue: header, mask and masked message. -/
def outData (mask : Mask) (outMessage : Bytes) (finRsvOpcode : UInt8) : Bytes :=
  outHeader (UInt64.ofNat outMessage.length) finRsvOpcode ++ List.ofFn mask ++
    (unmask mask outMessage.length outMessage).1

namespace Conn

def send (c : Conn) (outMessage : Bytes) (finRsvOpcode : UInt8) : Conn :=
  { c with
    rd := fun i => c.rd (i + 1)
    log := c.log ++ [.enqueue (outData (c.rd 0) outMessage finRsvOpcode)] }

/-- Send close only once. -/
def sendClose (c : Conn) (status : ℤ) (reason : Bytes) : Conn :=
  if c.closed then c
  else { c with closed := true }.send (closePayload status reason) 136

/-! ### The end of a connection -/

variable (callbacks : Callbacks)

def connectionOpen (c : Conn) : Conn := c.call callbacks.onOpen .onOpen

def connectionClose (c : Conn) (status : ℤ) (reason : Bytes) : Conn :=
  c.call callbacks.onClose (.onClose status reason)

def connectionError (c : Conn) (ec : ErrorCode) : Conn := c.call callbacks.onError (.onError ec)

/-! ### The read loop -/

def readMessage (c : Conn) (numAdditionalBytes : ℕ) : Conn :=
  { c with reading := some (.firstBytes numAdditionalBytes) }

variable (config : Config)

/-- The branch of `read_message_content` for a message that is too big. -/
def messageTooBig (c : Conn) : Conn :=
  ((c.connectionError callbacks .messageSize).sendClose 1009
    (ascii "message too big")).connectionClose callbacks 1009 (ascii "message too big")

def readMessageContent (c : Conn) (numAdditionalBytes : ℕ) : Conn :=
  if c.inMessage.length + c.fragmentedLength > config.maxMessageSize then c.messageTooBig callbacks
  else { c with reading := some (.content numAdditionalBytes) }

/-- The handler of the read of the first two bytes. -/
def onFirstBytes (c : Conn) (numAdditionalBytes bytesTransferred : ℕ) : Conn :=
  if bytesTransferred = 0 ∧ c.inMessage.streambuf.length = 0 then c.readMessage 0
  else
    let updatedNumAdditionalBytes := if numAdditionalBytes > 2 then numAdditionalBytes - 2 else 0
    let firstByte := c.inMessage.streambuf.getD 0 0
    let lengthByte := c.inMessage.streambuf.getD 1 0
    let inMessage := { c.inMessage with
      finRsvOpcode := firstByte, streambuf := c.inMessage.streambuf.drop 2 }
    -- Close connection if masked message from server
    if lengthByte ≥ 128 then
      ({ c with inMessage := inMessage }.sendClose 1002
        (ascii "message from server masked")).connectionClose callbacks 1002
        (ascii "message from server masked")
    else
      let length := (lengthByte &&& 127).toUInt64
      if length = 126 then
        { c with
          inMessage := inMessage, reading := some (.lengthBytes 2 updatedNumAdditionalBytes) }
      else if length = 127 then
        { c with
          inMessage := inMessage, reading := some (.lengthBytes 8 updatedNumAdditionalBytes) }
      else
        { c with inMessage := { inMessage with length := length } }.readMessageContent callbacks
          config updatedNumAdditionalBytes

/-- The handler of the read of an extended length. -/
def onLengthBytes (c : Conn) (numBytes updatedNumAdditionalBytes : ℕ) : Conn :=
  let length := readLength numBytes (c.inMessage.streambuf.take numBytes)
  let inMessage := { c.inMessage with
    length := length, streambuf := c.inMessage.streambuf.drop numBytes }
  { c with inMessage := inMessage }.readMessageContent callbacks config
    (if updatedNumAdditionalBytes > numBytes then updatedNumAdditionalBytes - numBytes else 0)

/-- The record, for the specifications, of a frame that has been decoded. -/
def frameDecoded (c : Conn) : Conn :=
  { c with log := c.log ++ [.frame c.inMessage.finRsvOpcode c.inMessage.streambuf] }

/-- What the handler of the content read does with the frame in `in_message`. -/
def handleFrame (c : Conn) (nextInMessage : InMessage) (updatedNumAdditionalBytes : ℕ) : Conn :=
  let m := c.inMessage
  let c := c.frameDecoded
  -- If connection close
  if opcode m.finRsvOpcode = 8 then
    let (status, reason) := closeStatus m.length m.streambuf
    let c := { c with inMessage := { m with streambuf := reason } }
    (c.sendClose status reason).connectionClose callbacks status reason
  -- If ping
  else if opcode m.finRsvOpcode = 9 then
    { (c.send m.string (m.finRsvOpcode + 1)).call callbacks.onPing .onPing with
      inMessage := nextInMessage }.readMessage updatedNumAdditionalBytes
  -- If pong
  else if opcode m.finRsvOpcode = 10 then
    { c.call callbacks.onPong .onPong with
      inMessage := nextInMessage }.readMessage updatedNumAdditionalBytes
  -- If fragmented message and not final fragment
  else if !fin m.finRsvOpcode then
    let fragmentedInMessage :=
      match c.fragmentedInMessage with
      | none => { m with finRsvOpcode := m.finRsvOpcode ||| 0x80 }
      | some f => f.append m
    { c with
      fragmentedInMessage := some fragmentedInMessage
      inMessage := nextInMessage }.readMessage updatedNumAdditionalBytes
  else
    let message :=
      match c.fragmentedInMessage with
      | none => m
      | some f => f.append m
    { c.call callbacks.onMessage (.onMessage message) with
      fragmentedInMessage := none
      inMessage := nextInMessage }.readMessage updatedNumAdditionalBytes

section handleFrame

variable {callbacks : Callbacks} {c : Conn} {next : InMessage} {k : ℕ}

theorem handleFrame_close (h : opcode c.inMessage.finRsvOpcode = 8) :
    c.handleFrame callbacks next k =
      let r := closeStatus c.inMessage.length c.inMessage.streambuf
      ({ c.frameDecoded with inMessage := { c.inMessage with streambuf := r.2 } }.sendClose r.1
        r.2).connectionClose callbacks r.1 r.2 := by
  simp only [handleFrame, if_pos h]

theorem handleFrame_ping (h : opcode c.inMessage.finRsvOpcode = 9) :
    c.handleFrame callbacks next k =
      { (c.frameDecoded.send c.inMessage.string (c.inMessage.finRsvOpcode + 1)).call
          callbacks.onPing .onPing with inMessage := next }.readMessage k := by
  simp only [handleFrame, h]
  rfl

theorem handleFrame_pong (h : opcode c.inMessage.finRsvOpcode = 10) :
    c.handleFrame callbacks next k =
      { c.frameDecoded.call callbacks.onPong .onPong with inMessage := next }.readMessage k := by
  simp only [handleFrame, h]
  rfl

/-- A data frame that is not final. -/
theorem handleFrame_fragment (h8 : opcode c.inMessage.finRsvOpcode ≠ 8)
    (h9 : opcode c.inMessage.finRsvOpcode ≠ 9) (h10 : opcode c.inMessage.finRsvOpcode ≠ 10)
    (hfin : fin c.inMessage.finRsvOpcode = false) :
    c.handleFrame callbacks next k =
      { c.frameDecoded with
        fragmentedInMessage := some (match c.fragmentedInMessage with
          | none => { c.inMessage with finRsvOpcode := c.inMessage.finRsvOpcode ||| 0x80 }
          | some f => f.append c.inMessage)
        inMessage := next }.readMessage k := by
  simp only [handleFrame, if_neg h8, if_neg h9, if_neg h10, hfin]
  rfl

/-- A final data frame. -/
theorem handleFrame_final (h8 : opcode c.inMessage.finRsvOpcode ≠ 8)
    (h9 : opcode c.inMessage.finRsvOpcode ≠ 9) (h10 : opcode c.inMessage.finRsvOpcode ≠ 10)
    (hfin : fin c.inMessage.finRsvOpcode = true) :
    c.handleFrame callbacks next k =
      { c.frameDecoded.call callbacks.onMessage (.onMessage (match c.fragmentedInMessage with
          | none => c.inMessage
          | some f => f.append c.inMessage)) with
        fragmentedInMessage := none
        inMessage := next }.readMessage k := by
  simp only [handleFrame, if_neg h8, if_neg h9, if_neg h10, hfin]
  rfl

end handleFrame

/-- The handler of the content read.  When more bytes were buffered than the frame has, the frame
is moved to a message of its own and the rest is kept for the next one. -/
def onContent (c : Conn) (numAdditionalBytes : ℕ) : Conn :=
  let m := c.inMessage
  let length := m.length.toNat
  if numAdditionalBytes > length then
    { c with inMessage := { m with streambuf := m.streambuf.take length } }.handleFrame callbacks
      { m with streambuf := m.streambuf.drop length } (numAdditionalBytes - length)
  else c.handleFrame callbacks InMessage.empty 0

/-- The completion of the outstanding read: its bytes are in the buffer, and its handler runs. -/
def complete (c : Conn) (lock : Bool) (k : Completion UInt8 ErrorCode) : Conn :=
  match c.reading with
  | none => c
  | some op =>
      let inMessage := { c.inMessage with streambuf := c.inMessage.streambuf ++ k.data }
      let c := { c with reading := none, inMessage := inMessage }
      if !lock then c
      else
        match k.ec with
        | some ec => c.connectionError callbacks ec
        | none =>
            match op with
            | .firstBytes numAdditionalBytes =>
                c.onFirstBytes callbacks config numAdditionalBytes k.data.length
            | .lengthBytes numBytes updatedNumAdditionalBytes =>
                c.onLengthBytes callbacks config numBytes updatedNumAdditionalBytes
            | .content numAdditionalBytes => c.onContent callbacks numAdditionalBytes

end Conn

/-! ### Runs -/

/-- What can happen to a connection: its outstanding read completes, or the program sends. -/
inductive Act
  | complete (lock : Bool) (k : Completion UInt8 ErrorCode)
  | send (outMessage : Bytes) (finRsvOpcode : UInt8)
  | sendClose (status : ℤ) (reason : Bytes)

variable (callbacks : Callbacks) (config : Config)

def act (c : Conn) : Act → Conn
  | .complete lock k => c.complete callbacks config lock k
  | .send outMessage finRsvOpcode => c.send outMessage finRsvOpcode
  | .sendClose status reason => c.sendClose status reason

/-- A read is completed once, with as many bytes as were asked for or with an error. -/
def Allowed (c : Conn) : Act → Prop
  | .complete _ k => ∃ op, c.reading = some op ∧ k.Obeys (c.transferExactly op)
  | .send _ _ => True
  | .sendClose _ _ => True

/-- The connection when its handshake is done: `connection_open`, then `read_message`.  `streambuf`
is what was read behind the response, `numAdditionalBytes` how much of it there should be. -/
def opened (rd : ℕ → Mask) (streambuf : Bytes) (numAdditionalBytes : ℕ) : Conn :=
  (Conn.connectionOpen callbacks
    { inMessage := { InMessage.empty with streambuf := streambuf }, rd := rd }).readMessage
    numAdditionalBytes

/-- The states of a connection after any completions, errors and calls to `send` and
`send_close`, when the bytes read behind the response were counted correctly. -/
def Reachable : Conn → Prop :=
  Machine.Reach (act callbacks config) Allowed
    fun c => ∃ rd streambuf, c = opened callbacks rd streambuf streambuf.length

/-- The connection reading the bytes its server sends. -/
def reader : Reader Conn UInt8 ErrorCode where
  request c := c.reading.map c.transferExactly
  complete c k := c.complete callbacks config true k

@[simp] theorem reader_request (c : Conn) :
    (reader callbacks config).request c = c.reading.map c.transferExactly := rfl

@[simp] theorem reader_complete (c : Conn) (k : Completion UInt8 ErrorCode) :
    (reader callbacks config).complete c k = c.complete callbacks config true k := rfl

variable {callbacks config}

/-- Reading the bytes of its server, a connection stays among the reachable ones. -/
theorem Reachable.run {c : Conn} (h : Reachable callbacks config c) (n : ℕ)
    (src : Source UInt8 ErrorCode) :
    Reachable callbacks config ((reader callbacks config).run n (c, src)).1 := by
  refine Reader.run_invariant ?_ n (c, src) h
  intro s size k hs hrequest hk
  obtain ⟨op, hop, rfl⟩ := Option.map_eq_some_iff.1 hrequest
  have hallowed : Allowed s (.complete true k) := ⟨op, hop, hk⟩
  exact Machine.Reach.step hs hallowed

end SimpleWeb.Client
