/-
**The life of a server's connection.**

A connection of `websocket/server_ws.hpp` is accepted and reads a request, or is handed to `upgrade`
with one; it writes an answer, and if that has been written it is open and runs its read loop.  The
handlers call callbacks as `SimpleWeb.Turn` says.  A callback that is not set leaves out its calls,
and changes nothing else.

Main definitions:

* `SimpleWeb.Server.Conn.standing`, `SimpleWeb.Server.Conn.OverSize` — what has been called, and when
  a message is too big;
* `SimpleWeb.Server.Stage` — a connection from its beginning;
* `SimpleWeb.Server.Conn.heardBy`, `SimpleWeb.Server.Stage.Hears` — with only some callbacks set.

Main results:

* `SimpleWeb.Server.Stage.turn_act` — **what one step does to the calls**;
* `SimpleWeb.Server.Stage.hears_run` — **callbacks that are not set only leave out their calls**.
-/

import SimpleWeb.Handshake
import SimpleWeb.Standing

set_option relaxedAutoImplicit false
set_option autoImplicit false

namespace SimpleWeb.Server

/-! ### The read loop -/

def Conn.standing (c : Conn) : Standing := ⟨c.reading.isSome, c.inConnections, callsOf c.log⟩

variable {endpoint : Callbacks} {config : Config}

namespace Conn

/-- The length announced by a frame header, of which the last part is read now: what
`read_message_content` is called with. -/
def announced (c : Conn) (k : Completion UInt8 ErrorCode) : Option UInt64 :=
  let streambuf := c.streambuf ++ k.data
  match c.reading with
  | some .firstBytes =>
      let lengthByte := streambuf.getD 1 0
      let length := (lengthByte &&& 127).toUInt64
      if lengthByte < 128 ∨ length = 126 ∨ length = 127 then none else some length
  | some (.lengthBytes numBytes _) => some (readLength numBytes (streambuf.take numBytes))
  | some (.content _ _) => none
  | none => none

/-- The message is too big: with the fragments received so far it exceeds `max_message_size`. -/
def OverSize (config : Config) (c : Conn) (k : Completion UInt8 ErrorCode) : Prop :=
  ∃ length, c.announced k = some length ∧ config.maxMessageSize < length + c.fragmentedLength

theorem standing_call (c : Conn) {e : Event} (he : e.IsCall) :
    (c.call (endpoint.isSet e) e).standing =
      { c.standing with calls := c.standing.calls ++ [e].filter endpoint.isSet } := by
  simp only [standing, call, callsOf_append, callsOf_call he]

theorem standing_send (c : Conn) (outMessage : Bytes) (b : UInt8) :
    (c.send outMessage b).standing = c.standing := by
  simp [standing, send]

theorem standing_sendClose (c : Conn) (status : ℤ) (reason : Bytes) :
    (c.sendClose status reason).standing = c.standing := by
  unfold sendClose
  split
  · rfl
  · rw [standing_send]
    rfl

theorem standing_connectionClose (c : Conn) (status : ℤ) (reason : Bytes) :
    (c.connectionClose endpoint status reason).standing =
      ⟨c.standing.reading, false,
        c.standing.calls ++ [.onClose status reason].filter endpoint.isSet⟩ :=
  @standing_call endpoint { c with inConnections := false } (.onClose status reason) trivial

theorem standing_connectionError (c : Conn) (ec : ErrorCode) :
    (c.connectionError endpoint ec).standing =
      ⟨c.standing.reading, false, c.standing.calls ++ [.onError ec].filter endpoint.isSet⟩ :=
  @standing_call endpoint { c with inConnections := false } (.onError ec) trivial

section handled

variable {big : Prop} {c : Conn} {reading member : Bool} {calls : List Event}

/-- The read loop goes on, and nothing has been called. -/
theorem handled_quiet (hs : c.standing = ⟨reading, member, calls⟩) :
    Handled endpoint big member calls c.standing := by
  have hgoesOn : Handled endpoint big member calls ⟨reading, member, calls ++ []⟩ :=
    .goesOn reading (by simp)
  rw [List.append_nil] at hgoesOn
  rwa [hs]

/-- The read loop goes on after a call. -/
theorem handled_call (hs : c.standing = ⟨false, member, calls⟩) {e : Event} (he : e.Ordinary)
    (hcall : e.IsCall) {set : Bool} (hset : endpoint.isSet e = set) {c' : Conn}
    (hc' : c'.standing = { (c.call set e).standing with reading := true }) :
    Handled endpoint big member calls c'.standing := by
  rw [← hset, standing_call c hcall, hs] at hc'
  rw [hc']
  refine .goesOn true ?_
  intro e' he'
  rw [List.mem_singleton.1 (List.mem_of_mem_filter he')]
  exact he

theorem handled_connectionClose (hs : c.standing = ⟨false, member, calls⟩) (status : ℤ)
    (reason reason' : Bytes) :
    Handled endpoint big member calls
      ((c.sendClose status reason').connectionClose endpoint status reason).standing := by
  rw [standing_connectionClose, standing_sendClose, hs]
  exact .ends (.close status reason)

theorem handled_readMessageContent (hs : c.standing = ⟨false, member, calls⟩) (length : UInt64)
    (b : UInt8) :
    Handled endpoint (config.maxMessageSize < length + c.fragmentedLength) member calls
      (c.readMessageContent endpoint config length b).standing := by
  unfold readMessageContent
  split
  · next hbig =>
      rw [messageTooBig, standing_connectionClose, standing_sendClose, standing_connectionError, hs]
      dsimp only
      rw [List.append_assoc, ← List.filter_append]
      exact .ends (.tooBig hbig)
  · refine @handled_quiet _ _ _ true _ _ ?_
    rw [standing, Standing.mk.injEq] at hs ⊢
    exact ⟨rfl, hs.2⟩

/-- The handler of the read of the first two bytes. -/
theorem handled_onFirstBytes (hreading : c.reading = some .firstBytes)
    (k : Completion UInt8 ErrorCode) (n : ℕ) :
    Handled endpoint (c.OverSize config k) c.inConnections (callsOf c.log)
      ({ c with reading := none, streambuf := c.streambuf ++ k.data }.onFirstBytes endpoint config
        n).standing := by
  simp only [onFirstBytes]
  split
  · exact handled_quiet rfl
  split
  · exact handled_connectionClose rfl _ _ _
  split
  · exact handled_quiet rfl
  split
  · exact handled_quiet rfl
  · next hmasked h126 h127 =>
      refine Handled.mono ?_ (handled_readMessageContent rfl _ _)
      intro hbig
      refine ⟨_, ?_, hbig⟩
      simp only [announced, hreading]
      rw [if_neg]
      rintro (h | h | h)
      · exact hmasked h
      · exact h126 h
      · exact h127 h

/-- What is done with a frame. -/
theorem handled_handleFrame (hs : c.standing = ⟨false, member, calls⟩) (length : UInt64)
    (b : UInt8) (payload : Bytes) :
    Handled endpoint big member calls (c.handleFrame endpoint length b payload).standing := by
  have hdecoded : (c.frameDecoded b payload).standing = ⟨false, member, calls⟩ := by
    rw [← hs]
    simp [standing, frameDecoded]
  have hframe : ∀ m, ((c.frameDecoded b payload).storeFragment b m).standing =
      ⟨false, member, calls⟩ := fun _ => hdecoded
  by_cases h8 : opcode b = 8
  · rw [handleFrame_close h8]
    refine handled_connectionClose ?_ _ _ _
    exact hdecoded
  by_cases h9 : opcode b = 9
  · rw [handleFrame_ping h9]
    refine handled_call (e := .onPing) ?_ trivial trivial rfl rfl
    exact (standing_send _ _ _).trans (hframe _)
  by_cases h10 : opcode b = 10
  · rw [handleFrame_pong h10]
    exact handled_call (e := .onPong) (hframe _) trivial trivial rfl rfl
  cases hfin : fin b with
  | false =>
      rw [handleFrame_fragment h8 h9 h10 hfin]
      have hread := congrArg (fun s : Standing => { s with reading := true })
        (hframe (c.inMessage length b payload))
      exact handled_quiet hread
  | true =>
      rw [handleFrame_final h8 h9 h10 hfin]
      exact handled_call (e := .onMessage _) hdecoded trivial trivial rfl rfl

end handled

/-- **What the completion of a read does to the calls.** -/
theorem turn_complete (c : Conn) (lock : Bool) (k : Completion UInt8 ErrorCode) :
    Turn endpoint true (lock = true ∧ k.ec = none ∧ c.OverSize config k) c.standing
      (c.complete endpoint config lock k).standing := by
  unfold complete
  cases hreading : c.reading with
  | none => exact .idle
  | some op =>
      have hout : c.standing.reading = true := by simp [standing, hreading]
      refine .handled hout ?_
      cases lock with
      | false => exact handled_quiet rfl
      | true =>
          simp only [Bool.not_true, Bool.false_eq_true, if_false]
          cases hec : k.ec with
          | some ec =>
              dsimp only
              rw [standing_connectionError]
              exact .ends (.error ec)
          | none =>
              refine Handled.mono (fun h : c.OverSize config k => ⟨trivial, rfl, h⟩) ?_
              cases op with
              | firstBytes => exact handled_onFirstBytes hreading k _
              | lengthBytes numBytes b =>
                  refine Handled.mono ?_ (handled_readMessageContent rfl _ _)
                  intro hbig
                  refine ⟨_, ?_, hbig⟩
                  simp only [announced, hreading]
              | content length b => exact handled_handleFrame rfl _ _ _

end Conn

/-! ### From its beginning -/

/-- A connection from its beginning: its request is read, its answer is written, and it runs its read
loop. -/
inductive Stage
  | handshake
  | answering (a : Answer) (streambuf : Bytes)
  | connected (endpoint : Callbacks) (c : Conn)
  | ended

/-- What can happen to a connection: the read of its request ends, or the write of its answer; it
runs its read loop, and the program sends; or `stop` is called.  `acceptor` is what `stop` looks at:
whether the server has been started, which it need not be for connections handed to `upgrade`. -/
inductive Stage.Act
  | requestRead (lock : Bool) (ec : Option ErrorCode) (streambuf : Bytes)
  | answerWritten (lock : Bool) (ec : Option ErrorCode)
  | act (a : Server.Act)
  | stop (acceptor : Bool)

namespace Stage

variable (config : Config) (sha1 : Bytes → Digest) (beyond : Bytes) (order : Order)
  (endpoints : List Endpoint)

/-- The answer is written, if there is one. -/
def write : Option Answer × Bytes → Stage
  | (some a, streambuf) => .answering a streambuf
  | (none, _) => .ended

/-- A connection is accepted, or handed to `upgrade` with its request. -/
def start : Option RequestMessage → Stage
  | none => .handshake
  | some request => write (writeHandshake config sha1 beyond order endpoints request, [])

/-- One step.  `stop` closes the sockets of the connections in the set, which ends their reads and
writes with an error, and empties the set; it does nothing on a server that has not been started. -/
def act : Stage → Stage.Act → Stage
  | .handshake, .requestRead lock ec streambuf =>
      match onRequest config sha1 beyond order endpoints lock ec streambuf with
      | .ok r => write r
      | .error _ => .ended
  | .answering a streambuf, .answerWritten lock ec =>
      .connected a.endpoint.callbacks (onWritten a streambuf lock ec)
  | .connected endpoint c, .act a => .connected endpoint (Server.act endpoint config c a)
  | .connected endpoint c, .stop acceptor =>
      .connected endpoint (if acceptor then { c with inConnections := false } else c)
  | s, _ => s

/-- Whether a read is outstanding, whether the connection is in the set, and what it has called. -/
def standing : Stage → Standing
  | .connected _ c => c.standing
  | _ => ⟨false, false, []⟩

/-- The callbacks of the endpoint. -/
def callbacks : Stage → Callbacks
  | .connected endpoint _ => endpoint
  | .answering a _ => a.endpoint.callbacks
  | _ => {}

/-- A frame header is read whose message is too big. -/
def OverSize : Stage → Stage.Act → Prop
  | .connected _ c, .act (.complete lock k) => lock = true ∧ k.ec = none ∧ c.OverSize config k
  | _, _ => False

variable {config sha1 beyond order endpoints}

theorem standing_write (r : Option Answer × Bytes) : (write r).standing = ⟨false, false, []⟩ := by
  obtain ⟨a, streambuf⟩ := r
  cases a <;> rfl

theorem standing_start (upgraded : Option RequestMessage) :
    (start config sha1 beyond order endpoints upgraded).standing = ⟨false, false, []⟩ := by
  cases upgraded with
  | none => rfl
  | some request => exact standing_write _

theorem standing_stop (s : Stage) :
    (s.act config sha1 beyond order endpoints (.stop true)).standing =
      { s.standing with member := false } := by
  cases s <;> rfl

/-- The end of the handshake. -/
theorem turn_onWritten {big : Prop} (a : Answer) (streambuf : Bytes) (lock : Bool)
    (ec : Option ErrorCode) :
    Turn a.endpoint.callbacks true big ⟨false, false, []⟩
      (onWritten a streambuf lock ec).standing := by
  simp only [onWritten]
  split
  · exact .idle
  split
  · exact .idle
  · cases ec with
    | none =>
        have hopen := @Conn.standing_call a.endpoint.callbacks
          { streambuf := streambuf, inConnections := true } .onOpen trivial
        have hread := congrArg (fun s : Standing => { s with reading := true }) hopen
        refine Eq.subst hread.symm ?_
        exact .opens rfl
    | some ec =>
        rw [Conn.standing_connectionError]
        exact .fails rfl

/-- **What one step does to the calls.** -/
theorem turn_act (s : Stage) (a : Stage.Act) (ha : a ≠ .stop true) :
    Turn s.callbacks true (s.OverSize config a) s.standing
      (s.act config sha1 beyond order endpoints a).standing := by
  cases s with
  | handshake =>
      cases a with
      | requestRead lock ec streambuf =>
          have hstanding : (act config sha1 beyond order endpoints .handshake
              (.requestRead lock ec streambuf)).standing = ⟨false, false, []⟩ := by
            simp only [act]
            split
            · exact standing_write _
            · rfl
          rw [hstanding]
          exact .idle
      | answerWritten | act | stop => exact .idle
  | answering answer streambuf =>
      cases a with
      | answerWritten lock ec => exact turn_onWritten answer streambuf lock ec
      | requestRead | act | stop => exact .idle
  | connected endpoint c =>
      cases a with
      | act a =>
          cases a with
          | complete lock k => exact Conn.turn_complete c lock k
          | send outMessage b =>
              have hsend := Conn.standing_send c outMessage b
              exact Eq.subst (motive := Turn endpoint true _ c.standing) hsend.symm .idle
          | sendClose status reason =>
              have hclose := Conn.standing_sendClose c status reason
              exact Eq.subst (motive := Turn endpoint true _ c.standing) hclose.symm .idle
      | stop acceptor =>
          cases acceptor with
          | false => exact .idle
          | true => exact absurd rfl ha
      | requestRead | answerWritten => exact .idle
  | ended => cases a <;> exact .idle

end Stage

/-! ### Callbacks that are not set -/

/-- The connection, if only the calls to callbacks that are set had been made. -/
def Conn.heardBy (callbacks : Callbacks) (c : Conn) : Conn :=
  { c with log := c.log.filter callbacks.isSet }

namespace Conn

variable (c : Conn)

theorem heardBy_call (endpoint : Callbacks) (e : Event) :
    (c.heardBy endpoint).call (endpoint.isSet e) e = (c.call true e).heardBy endpoint := by
  cases hset : endpoint.isSet e with
  | true => simp [heardBy, call, List.filter_append, hset]
  | false => simp [heardBy, call, List.filter_append, hset]

theorem heardBy_send (outMessage : Bytes) (b : UInt8) :
    (c.heardBy endpoint).send outMessage b = (c.send outMessage b).heardBy endpoint := by
  simp only [heardBy, send, List.filter_append]
  rfl

theorem heardBy_sendClose (status : ℤ) (reason : Bytes) :
    (c.heardBy endpoint).sendClose status reason =
      (c.sendClose status reason).heardBy endpoint := by
  unfold sendClose
  cases hclosed : c.closed with
  | true => simp [heardBy, hclosed]
  | false =>
      simp only [heardBy, hclosed, Bool.false_eq_true, if_false]
      exact heardBy_send { c with closed := true } _ _

theorem heardBy_connectionClose (status : ℤ) (reason : Bytes) :
    (c.heardBy endpoint).connectionClose endpoint status reason =
      (c.connectionClose {} status reason).heardBy endpoint :=
  heardBy_call { c with inConnections := false } endpoint (.onClose status reason)

theorem heardBy_connectionError (ec : ErrorCode) :
    (c.heardBy endpoint).connectionError endpoint ec =
      (c.connectionError {} ec).heardBy endpoint :=
  heardBy_call { c with inConnections := false } endpoint (.onError ec)

theorem heardBy_readMessageContent (length : UInt64) (b : UInt8) :
    (c.heardBy endpoint).readMessageContent endpoint config length b =
      (c.readMessageContent {} config length b).heardBy endpoint := by
  have hlength : (c.heardBy endpoint).fragmentedLength = c.fragmentedLength := rfl
  unfold readMessageContent
  rw [hlength]
  split
  · rw [messageTooBig, messageTooBig, heardBy_connectionError, heardBy_sendClose,
      heardBy_connectionClose]
  · rfl

theorem heardBy_onFirstBytes (n : ℕ) :
    (c.heardBy endpoint).onFirstBytes endpoint config n =
      (c.onFirstBytes {} config n).heardBy endpoint := by
  have hstreambuf : (c.heardBy endpoint).streambuf = c.streambuf := rfl
  simp only [onFirstBytes, apply_ite (heardBy endpoint), hstreambuf]
  split_ifs
  · rfl
  · rw [← heardBy_connectionClose, ← heardBy_sendClose]
    rfl
  · rfl
  · rfl
  · exact heardBy_readMessageContent { c with streambuf := c.streambuf.drop 2 } _ _

theorem heardBy_handleFrame (length : UInt64) (b : UInt8) (payload : Bytes) :
    (c.heardBy endpoint).handleFrame endpoint length b payload =
      (c.handleFrame {} length b payload).heardBy endpoint := by
  have hdecoded : (c.heardBy endpoint).frameDecoded b payload =
      (c.frameDecoded b payload).heardBy endpoint := by
    simp only [heardBy, frameDecoded, List.filter_append]
    rfl
  have hframe : ∀ m, ((c.heardBy endpoint).frameDecoded b payload).storeFragment b m =
      ((c.frameDecoded b payload).storeFragment b m).heardBy endpoint := by
    intro m
    rw [hdecoded]
    rfl
  have hmessage : (c.heardBy endpoint).inMessage length b payload = c.inMessage length b payload :=
    rfl
  by_cases h8 : opcode b = 8
  · rw [handleFrame_close h8, handleFrame_close h8]
    dsimp only
    rw [← heardBy_connectionClose, ← heardBy_sendClose, hmessage, hframe]
    rfl
  by_cases h9 : opcode b = 9
  · rw [handleFrame_ping h9, handleFrame_ping h9]
    dsimp only
    rw [hmessage, hframe, heardBy_send]
    exact congrArg readMessage (heardBy_call _ _ .onPing)
  by_cases h10 : opcode b = 10
  · rw [handleFrame_pong h10, handleFrame_pong h10, hmessage, hframe]
    exact congrArg readMessage (heardBy_call _ _ .onPong)
  cases hfin : fin b with
  | false =>
      rw [handleFrame_fragment h8 h9 h10 hfin, handleFrame_fragment h8 h9 h10 hfin, hmessage, hframe]
      rfl
  | true =>
      rw [handleFrame_final h8 h9 h10 hfin, handleFrame_final h8 h9 h10 hfin, hmessage]
      have hcall := heardBy_call (c.frameDecoded b payload) endpoint
        (.onMessage (c.inMessage length b payload))
      rw [hdecoded, show endpoint.onMessage = endpoint.isSet
        (.onMessage (c.inMessage length b payload)) from rfl, hcall]
      rfl

theorem heardBy_complete (lock : Bool) (k : Completion UInt8 ErrorCode) :
    (c.heardBy endpoint).complete endpoint config lock k =
      (c.complete {} config lock k).heardBy endpoint := by
  have hreading : (c.heardBy endpoint).reading = c.reading := rfl
  unfold complete
  rw [hreading]
  cases c.reading with
  | none => rfl
  | some op =>
      cases lock with
      | false => rfl
      | true =>
          simp only [Bool.not_true, Bool.false_eq_true, if_false]
          cases k.ec with
          | some ec => exact heardBy_connectionError { c with reading := none, streambuf := _ } ec
          | none =>
              cases op with
              | firstBytes => exact heardBy_onFirstBytes { c with reading := none, streambuf := _ } _
              | lengthBytes numBytes b =>
                  exact heardBy_readMessageContent { c with reading := none, streambuf := _ } _ _
              | content length b =>
                  exact heardBy_handleFrame { c with reading := none, streambuf := _ } _ _ _

end Conn

/-- A callback that is not set is left out of the log, and nothing else is changed. -/
theorem heardBy_act (c : Conn) (a : Act) :
    act endpoint config (c.heardBy endpoint) a = (act {} config c a).heardBy endpoint := by
  cases a with
  | complete lock k => exact c.heardBy_complete lock k
  | send outMessage b => exact c.heardBy_send outMessage b
  | sendClose status reason => exact c.heardBy_sendClose status reason

/-- The endpoint with every callback set. -/
def Endpoint.listening (e : Endpoint) : Endpoint := { e with callbacks := {} }

def Answer.listening (a : Answer) : Answer := { a with endpoint := a.endpoint.listening }

section listening

variable {sha1 : Bytes → Digest} {beyond : Bytes} {order : Order} (endpoints : List Endpoint)

theorem answer_listening (e : Endpoint) (request : RequestMessage) :
    answer config sha1 beyond order e.listening request =
      (answer config sha1 beyond order e request).listening := by
  simp only [answer]
  cases findField order request.header (ascii "Sec-WebSocket-Key") with
  | none => rfl
  | some keyIt =>
      dsimp only
      rw [apply_ite Answer.listening]
      rfl

theorem writeHandshake_listening (request : RequestMessage) :
    writeHandshake config sha1 beyond order (endpoints.map Endpoint.listening) request =
      (writeHandshake config sha1 beyond order endpoints request).map Answer.listening := by
  have hmatch : (fun e : Endpoint => e.regexMatch request.path) ∘ Endpoint.listening =
      fun e => e.regexMatch request.path := rfl
  rw [writeHandshake, writeHandshake, List.find?_map, hmatch, Option.map_map, Option.map_map]
  congr 1
  funext e
  exact answer_listening e request

theorem onRequest_listening (lock : Bool) (ec : Option ErrorCode) (streambuf : Bytes) :
    onRequest config sha1 beyond order (endpoints.map Endpoint.listening) lock ec streambuf =
      (onRequest config sha1 beyond order endpoints lock ec streambuf).map
        fun r => (r.1.map Answer.listening, r.2) := by
  cases lock with
  | false => rfl
  | true =>
      cases ec with
      | some ec => rfl
      | none =>
          cases hparse : RequestMessage.parse streambuf {} with
          | error fault => simp [onRequest, hparse, Except.map]
          | ok r =>
              obtain ⟨success, request, rest⟩ := r
              cases success with
              | false => simp [onRequest, hparse, Except.map]
              | true => simp [onRequest, hparse, Except.map, writeHandshake_listening]

theorem heardBy_onWritten (a : Answer) (streambuf : Bytes) (lock : Bool) (ec : Option ErrorCode) :
    (onWritten a.listening streambuf lock ec).heardBy a.endpoint.callbacks =
      onWritten a streambuf lock ec := by
  have hstatus : a.listening.statusCode = a.statusCode := rfl
  simp only [onWritten, hstatus, apply_ite (Conn.heardBy a.endpoint.callbacks)]
  split_ifs
  · rfl
  · rfl
  · cases ec with
    | none =>
        have hcall := Conn.heardBy_call
          { streambuf := streambuf, inConnections := true } a.endpoint.callbacks .onOpen
        exact congrArg Conn.readMessage hcall.symm
    | some ec => exact (Conn.heardBy_connectionError { streambuf := streambuf } ec).symm

end listening

/-- A run with every callback set beside one in which only some are. -/
inductive Stage.Hears : Stage → Stage → Prop
  | handshake : Hears .handshake .handshake
  | answering (a : Answer) (streambuf : Bytes) :
      Hears (.answering a.listening streambuf) (.answering a streambuf)
  | connected (endpoint : Callbacks) (c : Conn) :
      Hears (.connected {} c) (.connected endpoint (c.heardBy endpoint))
  | ended : Hears .ended .ended

namespace Stage

variable {sha1 : Bytes → Digest} {beyond : Bytes} {order : Order} {endpoints : List Endpoint}

theorem Hears.callbacks {s s' : Stage} (h : Hears s s') : s.callbacks = {} := by
  cases h <;> rfl

theorem hears_write (r : Option Answer × Bytes) :
    Hears (write (r.1.map Answer.listening, r.2)) (write r) := by
  obtain ⟨a, streambuf⟩ := r
  cases a with
  | none => exact .ended
  | some a => exact .answering a streambuf

theorem hears_start (upgraded : Option RequestMessage) :
    Hears (start config sha1 beyond order (endpoints.map Endpoint.listening) upgraded)
      (start config sha1 beyond order endpoints upgraded) := by
  cases upgraded with
  | none => exact .handshake
  | some request =>
      simp only [start]
      rw [writeHandshake_listening]
      exact hears_write (_, [])

theorem hears_act {s s' : Stage} (h : Hears s s') (a : Stage.Act) :
    Hears (s.act config sha1 beyond order (endpoints.map Endpoint.listening) a)
      (s'.act config sha1 beyond order endpoints a) := by
  cases h with
  | handshake =>
      cases a with
      | requestRead lock ec streambuf =>
          simp only [act]
          rw [onRequest_listening]
          cases onRequest config sha1 beyond order endpoints lock ec streambuf with
          | error fault => exact .ended
          | ok r => exact hears_write r
      | answerWritten | act | stop => exact .handshake
  | answering answer streambuf =>
      cases a with
      | answerWritten lock ec =>
          simp only [act]
          have hwritten := Hears.connected answer.endpoint.callbacks
            (onWritten answer.listening streambuf lock ec)
          rw [heardBy_onWritten] at hwritten
          exact hwritten
      | requestRead | act | stop => exact .answering answer streambuf
  | connected endpoint c =>
      cases a with
      | act a =>
          simp only [act]
          rw [heardBy_act]
          exact .connected endpoint _
      | stop acceptor =>
          cases acceptor with
          | false => exact .connected endpoint c
          | true => exact .connected endpoint { c with inConnections := false }
      | requestRead | answerWritten => exact .connected endpoint c
  | ended => cases a <;> exact .ended

/-- **Callbacks that are not set only leave out their calls**: in every run. -/
theorem hears_run (upgraded : Option RequestMessage) (acts : List Stage.Act) :
    Hears
      (acts.foldl (act config sha1 beyond order (endpoints.map Endpoint.listening))
        (start config sha1 beyond order (endpoints.map Endpoint.listening) upgraded))
      (acts.foldl (act config sha1 beyond order endpoints)
        (start config sha1 beyond order endpoints upgraded)) := by
  induction acts using List.reverseRecOn with
  | nil => exact hears_start upgraded
  | append_singleton acts a ih =>
      rw [List.foldl_append, List.foldl_append]
      exact hears_act ih a

theorem Hears.calls {s s' : Stage} (h : Hears s s') :
    s'.standing.calls = s.standing.calls.filter s'.callbacks.isSet := by
  cases h with
  | handshake => rfl
  | answering a streambuf => rfl
  | connected endpoint c => exact List.filter_comm _ _ _
  | ended => rfl

theorem Hears.member {s s' : Stage} (h : Hears s s') : s'.standing.member = s.standing.member := by
  cases h <;> rfl

end Stage

end SimpleWeb.Server
