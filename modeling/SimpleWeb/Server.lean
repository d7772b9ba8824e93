/-
**The WebSocket server: a connection and its read loop.**

A model of `SocketServerBase` (`websocket/server_ws.hpp`) from `connection_open` on: `send`,
`send_close`, `read_message`, `read_message_content`, `connection_open`, `connection_close`,
`connection_error`.  The handlers that the source passes to `asio::async_read` are the functions
`onFirstBytes`, `onLengthBytes` and `onContent`; which of them the outstanding read will call, with
the values it captures, is the connection's `reading`.  One read is completed by `complete`.

Timers do nothing to the data of a connection and are left out; what a timeout or `stop` does, the
end of the outstanding read with an error, is one of the completions.  `lock` is the answer of
`handler_runner->continue_lock()`.

Main definitions:

* `SimpleWeb.Server.Conn`, `SimpleWeb.Server.ReadOp` — a connection, and its outstanding read;
* `SimpleWeb.Server.readMessageContent`, `SimpleWeb.Server.onContent`,
  `SimpleWeb.Server.handleFrame` — the size check, and what is done with a frame;
* `SimpleWeb.Server.act`, `SimpleWeb.Server.Reachable` — everything that can happen to a
  connection, and the states it can be in;
* `SimpleWeb.Server.reader` — the connection as a reader of the bytes its client sends.

Main results:

* `SimpleWeb.Server.Reachable.run` — a run of the reader stays among the reachable states.
-/

import SimpleWeb.Machine
import SimpleWeb.Message

set_option relaxedAutoImplicit false
set_option autoImplicit false

namespace SimpleWeb.Server

/-! ### Connections -/

structure Config where
  maxMessageSize : UInt64 := sizeMax
  header : CaseInsensitiveMultimap := []

/-- The outstanding read, with the values captured by its handler. -/
inductive ReadOp
  | firstBytes
  | lengthBytes (numBytes : ℕ) (finRsvOpcode : UInt8)
  | content (length : UInt64) (finRsvOpcode : UInt8)
  deriving DecidableEq, Repr

/-- The argument of `asio::transfer_exactly`. -/
def ReadOp.size : ReadOp → UInt64
  | .firstBytes => 2
  | .lengthBytes numBytes _ => UInt64.ofNat numBytes
  | .content length _ => 4 + length

/-- The part of `Connection` that the read loop works on.  `inConnections` says whether the
connection is in `endpoint.connections`. -/
structure Conn where
  streambuf : Bytes := []
  fragmentedInMessage : Option InMessage := none
  closed : Bool := false
  reading : Option ReadOp := none
  inConnections : Bool := false
  log : List Event := []
  deriving DecidableEq, Repr

namespace Conn

/-- A callback is called if it is set. -/
def call (c : Conn) (set : Bool) (e : Event) : Conn :=
  { c with log := c.log ++ if set then [e] else [] }

/-- The length of the fragments received so far, zero when there are none. -/
def fragmentedLength (c : Conn) : UInt64 :=
  match c.fragmentedInMessage with
  | some m => m.length
  | none => 0

end Conn

/-! ### Sending -/

/-- The header written by `send`. -/
def outHeader (length : UInt64) (finRsvOpcode : UInt8) : Bytes :=
  finRsvOpcode ::
    if length ≥ 126 then
      if length > 0xffff then 127 :: putLength length 8
      else 126 :: putLength length 2
    else [length.toUInt8]

/-- The bytes `send` puts on the queue: header and message. -/
def outData (outMessage : Bytes) (finRsvOpcode : UInt8) : Bytes :=
  outHeader (UInt64.ofNat outMessage.length) finRsvOpcode ++ outMessage

namespace Conn

def send (c : Conn) (outMessage : Bytes) (finRsvOpcode : UInt8) : Conn :=
  { c with log := c.log ++ [.enqueue (outData outMessage finRsvOpcode)] }

/-- Send close only once. -/
def sendClose (c : Conn) (status : ℤ) (reason : Bytes) : Conn :=
  if c.closed then c
  else { c with closed := true }.send (closePayload status reason) 136

/-! ### The end of a connection -/

variable (endpoint : Callbacks)

def connectionOpen (c : Conn) : Conn :=
  { c with inConnections := true }.call endpoint.onOpen .onOpen

def connectionClose (c : Conn) (status : ℤ) (reason : Bytes) : Conn :=
  { c with inConnections := false }.call endpoint.onClose (.onClose status reason)

def connectionError (c : Conn) (ec : ErrorCode) : Conn :=
  { c with inConnections := false }.call endpoint.onError (.onError ec)

/-! ### The read loop -/

def readMessage (c : Conn) : Conn := { c with reading := some .firstBytes }

variable (config : Config)

/-- The branch of `read_message_content` for a message that is too big. -/
def messageTooBig (c : Conn) : Conn :=
  ((c.connectionError endpoint .messageSize).sendClose 1009
    (ascii "message too big")).connectionClose endpoint 1009 (ascii "message too big")

def readMessageContent (c : Conn) (length : UInt64) (finRsvOpcode : UInt8) : Conn :=
  if length + c.fragmentedLength > config.maxMessageSize then c.messageTooBig endpoint
  else { c with reading := some (.content length finRsvOpcode) }

/-- The handler of the read of the first two bytes. -/
def onFirstBytes (c : Conn) (bytesTransferred : ℕ) : Conn :=
  if bytesTransferred = 0 then c.readMessage
  else
    let finRsvOpcode := c.streambuf.getD 0 0
    let lengthByte := c.streambuf.getD 1 0
    let c := { c with streambuf := c.streambuf.drop 2 }
    -- Close connection if unmasked message from client
    if lengthByte < 128 then
      (c.sendClose 1002 (ascii "message from client not masked")).connectionClose endpoint 1002
        (ascii "message from client not masked")
    else
      let length := (lengthByte &&& 127).toUInt64
      if length = 126 then { c with reading := some (.lengthBytes 2 finRsvOpcode) }
      else if length = 127 then { c with reading := some (.lengthBytes 8 finRsvOpcode) }
      else c.readMessageContent endpoint config length finRsvOpcode

/-- The handler of the read of an extended length. -/
def onLengthBytes (c : Conn) (numBytes : ℕ) (finRsvOpcode : UInt8) : Conn :=
  let length := readLength numBytes (c.streambuf.take numBytes)
  { c with streambuf := c.streambuf.drop numBytes }.readMessageContent endpoint config length
    finRsvOpcode

end Conn

/-- A frame goes into the fragmented message unless it is final and has an opcode. -/
def isFragment (finRsvOpcode : UInt8) : Bool := !fin finRsvOpcode || opcode finRsvOpcode == 0

namespace Conn

variable (endpoint : Callbacks) (config : Config)

/-- `in_message` after the payload loop: the fragmented message with the payload added to it, or a
message of its own. -/
def inMessage (c : Conn) (length : UInt64) (finRsvOpcode : UInt8) (payload : Bytes) : InMessage :=
  if isFragment finRsvOpcode then
    match c.fragmentedInMessage with
    | none => ⟨finRsvOpcode ||| 0x80, length, payload⟩
    | some m => ⟨m.finRsvOpcode, m.length + length, m.streambuf ++ payload⟩
  else ⟨finRsvOpcode, length, payload⟩

/-- `in_message` is shared with `fragmented_in_message` when the frame is a fragment. -/
def storeFragment (c : Conn) (finRsvOpcode : UInt8) (m : InMessage) : Conn :=
  { c with
    fragmentedInMessage := if isFragment finRsvOpcode then some m else c.fragmentedInMessage }

/-- The record, for the specifications, of a frame that has been decoded. -/
def frameDecoded (c : Conn) (finRsvOpcode : UInt8) (payload : Bytes) : Conn :=
  { c with log := c.log ++ [.frame finRsvOpcode payload] }

/-- What the handler of the content read does with a frame whose payload it has decoded. -/
def handleFrame (c : Conn) (length : UInt64) (finRsvOpcode : UInt8) (payload : Bytes) : Conn :=
  let m := c.inMessage length finRsvOpcode payload
  let c := (c.frameDecoded finRsvOpcode payload).storeFragment finRsvOpcode m
  -- If connection close
  if opcode finRsvOpcode = 8 then
    let (status, reason) := closeStatus length m.streambuf
    let c := c.storeFragment finRsvOpcode { m with streambuf := reason }
    (c.sendClose status reason).connectionClose endpoint status reason
  -- If ping
  else if opcode finRsvOpcode = 9 then
    ((c.send m.string (finRsvOpcode + 1)).call endpoint.onPing .onPing).readMessage
  -- If pong
  else if opcode finRsvOpcode = 10 then
    (c.call endpoint.onPong .onPong).readMessage
  -- If fragmented message and not final fragment
  else if !fin finRsvOpcode then c.readMessage
  else
    { c.call endpoint.onMessage (.onMessage m) with fragmentedInMessage := none }.readMessage

section handleFrame

variable {endpoint : Callbacks} {c : Conn} {length : UInt64} {b : UInt8} {payload : Bytes}

theorem handleFrame_close (h : opcode b = 8) :
    c.handleFrame endpoint length b payload =
      let m := c.inMessage length b payload
      let r := closeStatus length m.streambuf
      ((((c.frameDecoded b payload).storeFragment b m).storeFragment b
        { m with streambuf := r.2 }).sendClose r.1 r.2).connectionClose endpoint r.1 r.2 := by
  simp only [handleFrame, if_pos h]

theorem handleFrame_ping (h : opcode b = 9) :
    c.handleFrame endpoint length b payload =
      let m := c.inMessage length b payload
      ((((c.frameDecoded b payload).storeFragment b m).send m.string (b + 1)).call endpoint.onPing
        .onPing).readMessage := by
  simp only [handleFrame, h]
  rfl

theorem handleFrame_pong (h : opcode b = 10) :
    c.handleFrame endpoint length b payload =
      (((c.frameDecoded b payload).storeFragment b (c.inMessage length b payload)).call
        endpoint.onPong .onPong).readMessage := by
  simp only [handleFrame, h]
  rfl

/-- A data frame that is not final. -/
theorem handleFrame_fragment (h8 : opcode b ≠ 8) (h9 : opcode b ≠ 9) (h10 : opcode b ≠ 10)
    (hfin : fin b = false) :
    c.handleFrame endpoint length b payload =
      ((c.frameDecoded b payload).storeFragment b (c.inMessage length b payload)).readMessage := by
  simp only [handleFrame, if_neg h8, if_neg h9, if_neg h10, hfin]
  rfl

/-- A final data frame. -/
theorem handleFrame_final (h8 : opcode b ≠ 8) (h9 : opcode b ≠ 9) (h10 : opcode b ≠ 10)
    (hfin : fin b = true) :
    c.handleFrame endpoint length b payload =
      { (c.frameDecoded b payload).call endpoint.onMessage
          (.onMessage (c.inMessage length b payload)) with
        fragmentedInMessage := none }.readMessage := by
  simp only [handleFrame, if_neg h8, if_neg h9, if_neg h10, hfin]
  rfl

end handleFrame

/-- The handler of the content read. -/
def onContent (c : Conn) (length : UInt64) (finRsvOpcode : UInt8) : Conn :=
  let mask := Mask.ofBytes (c.streambuf.take 4)
  let r := unmask mask length.toNat (c.streambuf.drop 4)
  { c with streambuf := r.2 }.handleFrame endpoint length finRsvOpcode r.1

/-- The completion of the outstanding read: its bytes are in the buffer, and its handler runs. -/
def complete (c : Conn) (lock : Bool) (k : Completion UInt8 ErrorCode) : Conn :=
  match c.reading with
  | none => c
  | some op =>
      let c := { c with reading := none, streambuf := c.streambuf ++ k.data }
      if !lock then c
      else
        match k.ec with
        | some ec => c.connectionError endpoint ec
        | none =>
            match op with
            | .firstBytes => c.onFirstBytes endpoint config k.data.length
            | .lengthBytes numBytes finRsvOpcode =>
                c.onLengthBytes endpoint config numBytes finRsvOpcode
            | .content length finRsvOpcode => c.onContent endpoint length finRsvOpcode

end Conn

/-! ### Runs -/

/-- What can happen to a connection: its outstanding read completes, or the program sends. -/
inductive Act
  | complete (lock : Bool) (k : Completion UInt8 ErrorCode)
  | send (outMessage : Bytes) (finRsvOpcode : UInt8)
  | sendClose (status : ℤ) (reason : Bytes)

variable (endpoint : Callbacks) (config : Config)

def act (c : Conn) : Act → Conn
  | .complete lock k => c.complete endpoint config lock k
  | .send outMessage finRsvOpcode => c.send outMessage finRsvOpcode
  | .sendClose status reason => c.sendClose status reason

/-- A read is completed once, with as many bytes as were asked for or with an error. -/
def Allowed (c : Conn) : Act → Prop
  | .complete _ k => ∃ op, c.reading = some op ∧ k.Obeys op.size.toNat
  | .send _ _ => True
  | .sendClose _ _ => True

/-- The connection when its handshake has been written: `connection_open`, then `read_message`.
`streambuf` is what was read behind the request. -/
def opened (streambuf : Bytes) : Conn :=
  (Conn.connectionOpen endpoint { streambuf := streambuf }).readMessage

/-- The states of a connection after any completions, errors and calls to `send` and
`send_close`. -/
def Reachable : Conn → Prop :=
  Machine.Reach (act endpoint config) Allowed fun c => ∃ streambuf, c = opened endpoint streambuf

/-- The connection reading the bytes its client sends. -/
def reader : Reader Conn UInt8 ErrorCode where
  request c := c.reading.map fun op => op.size.toNat
  complete c k := c.complete endpoint config true k

@[simp] theorem reader_request (c : Conn) :
    (reader endpoint config).request c = c.reading.map fun op => op.size.toNat := rfl

@[simp] theorem reader_complete (c : Conn) (k : Completion UInt8 ErrorCode) :
    (reader endpoint config).complete c k = c.complete endpoint config true k := rfl

variable {endpoint config}

/-- Reading the bytes of its client, a connection stays among the reachable ones. -/
theorem Reachable.run {c : Conn} (h : Reachable endpoint config c) (n : ℕ)
    (src : Source UInt8 ErrorCode) :
    Reachable endpoint config ((reader endpoint config).run n (c, src)).1 := by
  refine Reader.run_invariant ?_ n (c, src) h
  intro s size k hs hrequest hk
  obtain ⟨op, hop, rfl⟩ := Option.map_eq_some_iff.1 hrequest
  have hallowed : Allowed s (.complete true k) := ⟨op, hop, hk⟩
  exact Machine.Reach.step hs hallowed

end SimpleWeb.Server
