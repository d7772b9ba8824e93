/-
**A WebSocket server with its connections.**

`SimpleWebSocketServer` is handed connections by its HTTP server, and tells its listeners of each of
them: that it has been opened, what it has received, and how it has ended.  The program sends to all of
the connections, to one of them or to all but some, by the ids that the listeners have been told.

Here the connections are those of `SimpleWeb.Server.Stage`, any number of them, each at its own point
of its life; the calls that a handler makes are the callbacks of `SimpleWebSocketServer`, which change
its map and call the listeners; and the program calls it between any two handlers.

Main definitions:

* `SimpleWeb.messagesOut` — the messages on the send queue of a connection;
* `SimpleWeb.SimpleWebSocketServer.Hub`, `SimpleWeb.SimpleWebSocketServer.Hub.act` — the server with
  its connections;
* `SimpleWeb.SimpleWebSocketServer.Hub.room` — the room of which its listeners know.

Main results:

* `SimpleWeb.Server.Stage.messagesOut_act` — only the program puts messages on a send queue.
-/

import SimpleWeb.Closing
import SimpleWeb.ConnectionMap
import SimpleWeb.Lifecycle
import SimpleWeb.MessageCallbacks
import SimpleWeb.Room
import SimpleWeb.Steps

set_option relaxedAutoImplicit false
set_option autoImplicit false

namespace SimpleWeb

/-! ### Messages on a send queue -/

/-- The frames of texts and of binary data, by their first byte. -/
def isMessageFrame (frame : Bytes) : Bool := frame.head? == some 129 || frame.head? == some 130

/-- The frames of texts and of binary data that have been put on the send queue. -/
def messagesOut (log : List Event) : List Bytes :=
  (log.filterMap Event.enqueued?).filter isMessageFrame

@[simp] theorem messagesOut_append (log log' : List Event) :
    messagesOut (log ++ log') = messagesOut log ++ messagesOut log' := by
  simp [messagesOut]

/-- The first byte of such a frame is among those of the frames with data. -/
theorem messagesOut_eq_nil {log : List Event} (h : ∀ b ∈ dataHeaders log, b = 136) :
    messagesOut log = [] := by
  rw [messagesOut, List.filter_eq_nil_iff]
  intro frame hframe hmessage
  have hheader : ∀ b : UInt8, frame.head? = some b → IsDataOrClose b → b = 136 := by
    intro b hb hdata
    refine h b (List.mem_filter.2 ⟨List.mem_filterMap.2 ⟨frame, hframe, hb⟩, ?_⟩)
    simpa using hdata
  rw [isMessageFrame, Bool.or_eq_true, beq_iff_eq, beq_iff_eq] at hmessage
  rcases hmessage with hb | hb
  · exact absurd (hheader 129 hb (by decide)) (by decide)
  · exact absurd (hheader 130 hb (by decide)) (by decide)

namespace Server

variable {endpoint : Callbacks} {config : Config}

/-- The events of a completed read come behind those before it. -/
theorem Conn.exists_log_complete (c : Conn) (lock : Bool) (k : Completion UInt8 ErrorCode) :
    ∃ es, (c.complete endpoint config lock k).log = c.log ++ es := by
  cases hr : c.reading with
  | none => exact ⟨[], by simp [complete, hr]⟩
  | some op =>
      rcases complete_cases hr lock k with ⟨-, es, hlog, -⟩ | ⟨length, b, payload, s, -, -, -, -, h⟩
      · exact ⟨es, hlog⟩
      · rw [h]
        rcases @handleFrame_cases endpoint { c with reading := none, streambuf := s } length b
          payload with ⟨-, -, es, hlog, -⟩ | ⟨-, -, es, hlog, -⟩ | ⟨-, -, -, hlog⟩ | ⟨-, -, -, hlog⟩
        · exact ⟨_, hlog.trans (List.append_assoc _ _ _)⟩
        · exact ⟨_, hlog.trans (List.append_assoc _ _ _)⟩
        · exact ⟨_, hlog⟩
        · exact ⟨_, hlog.trans (List.append_assoc _ _ _)⟩

/-- **A read puts no message on the send queue.** -/
theorem Conn.messagesOut_complete (c : Conn) (lock : Bool) (k : Completion UInt8 ErrorCode) :
    messagesOut (c.complete endpoint config lock k).log = messagesOut c.log := by
  obtain ⟨es, hlog⟩ := @exists_log_complete endpoint config c lock k
  have hclosing := @closing_complete endpoint config c lock k
  rw [Closing, closing, closing, hlog, dataHeaders_append] at hclosing
  have hnothing : messagesOut es = [] := by
    refine messagesOut_eq_nil ?_
    rcases hclosing with h | ⟨-, h⟩
    · have heq : dataHeaders c.log ++ dataHeaders es = dataHeaders c.log := congrArg Prod.snd h
      have hnone : dataHeaders es = [] := by simpa using heq
      simp [hnone]
    · have heq : dataHeaders c.log ++ dataHeaders es = dataHeaders c.log ++ [136] :=
        congrArg Prod.snd h
      simp [List.append_cancel_left heq]
  rw [hlog, messagesOut_append, hnothing, List.append_nil]

theorem Conn.messagesOut_sendClose (c : Conn) (status : ℤ) (reason : Bytes) :
    messagesOut (c.sendClose status reason).log = messagesOut c.log := by
  unfold sendClose
  split
  · rfl
  · rw [Conn.send, messagesOut_append]
    exact List.append_nil _

namespace Stage

/-- The messages that have been put on the send queue. -/
def messagesOut : Stage → List Bytes
  | .connected _ c => SimpleWeb.messagesOut c.log
  | _ => []

variable {sha1 : Bytes → Digest} {beyond : Bytes} {order : Order} {endpoints : List Endpoint}

theorem messagesOut_write (r : Option Answer × Bytes) : (write r).messagesOut = [] := by
  obtain ⟨a, streambuf⟩ := r
  cases a <;> rfl

/-- The program sends a message. -/
theorem messagesOut_send {s : Stage} (hs : s.standing.calls ≠ []) (outMessage : Bytes) (b : UInt8) :
    (s.act config sha1 beyond order endpoints (.act (.send outMessage b))).messagesOut =
      s.messagesOut ++ [outData outMessage b].filter isMessageFrame := by
  cases s with
  | connected callbacks c =>
      show SimpleWeb.messagesOut (c.log ++ [.enqueue (outData outMessage b)]) = _
      rw [messagesOut_append]
      rfl
  | handshake | answering | ended => exact absurd rfl hs

/-- Nothing else puts a message on the send queue. -/
theorem messagesOut_act (s : Stage) {a : Stage.Act} (ha : ∀ outMessage b, a ≠ .act (.send outMessage b)) :
    (s.act config sha1 beyond order endpoints a).messagesOut = s.messagesOut := by
  cases s with
  | handshake =>
      cases a with
      | requestRead lock ec streambuf =>
          simp only [act]
          split
          · exact messagesOut_write _
          · rfl
      | answerWritten | act | stop => rfl
  | answering answer streambuf =>
      cases a with
      | answerWritten lock ec =>
          show SimpleWeb.messagesOut (onWritten answer streambuf lock ec).log = []
          have hcall : ∀ (c : Conn) (set : Bool) (e : Event), e.enqueued? = none →
              SimpleWeb.messagesOut (c.call set e).log = SimpleWeb.messagesOut c.log := by
            intro c set e he
            cases set <;> simp [Conn.call, SimpleWeb.messagesOut, he]
          simp only [onWritten]
          split
          · rfl
          split
          · rfl
          · cases ec with
            | none => exact hcall _ _ .onOpen rfl
            | some ec => exact hcall _ _ (.onError ec) rfl
      | requestRead | act | stop => rfl
  | connected callbacks c =>
      cases a with
      | act a =>
          cases a with
          | complete lock k => exact c.messagesOut_complete lock k
          | send outMessage b => exact absurd rfl (ha outMessage b)
          | sendClose status reason => exact c.messagesOut_sendClose status reason
      | requestRead | answerWritten => rfl
      | stop acceptor => cases acceptor <;> rfl
  | ended => cases a <;> rfl

end Stage

end Server

/-! ### The server with its connections -/

namespace SimpleWebSocketServer

/-- What the program calls, with the two kinds of messages. -/
inductive Call
  | send (message : Bytes)
  | sendData (data : Bytes)
  | sendTo (message : Bytes) (id : Bytes)
  | sendDataTo (data : Bytes) (id : Bytes)
  | sendExclude (message : Bytes) (excludeIds : List Bytes)
  | sendDataExclude (data : Bytes) (excludeIds : List Bytes)
  | closeConnection (id : Bytes) (code : ℤ) (reason : Bytes)

/-- What can be seen from outside: the calls of the listeners, with the connection they are about,
and those of the program. -/
inductive Visible (ι : Type)
  | listener (connection : ι) (call : ListenerCall)
  | received (connection : ι) (call : Received Bytes)
  | program (call : Call)
  | stop

/-- What the server is set up with, and what it takes from elsewhere: whether the expression for the
suffix matches a path, what a `String` is made of, and the texts of the errors. -/
structure Setup where
  config : Server.Config := {}
  sha1 : Bytes → Digest
  beyond : Bytes := []
  order : Order
  regexMatch : Bytes → Bool
  string : Bytes → Bytes
  errorMessage : ErrorCode → Bytes

namespace Setup

/-- The endpoint of `initServer`. -/
def endpoints (setup : Setup) : List Server.Endpoint :=
  [{ regexMatch := setup.regexMatch, callbacks := { onPing := false, onPong := false } }]

/-- A connection is handed to `upgrade`. -/
def start (setup : Setup) (request : RequestMessage) : Server.Stage :=
  Server.Stage.start setup.config setup.sha1 setup.beyond setup.order setup.endpoints (some request)

def step (setup : Setup) (s : Server.Stage) (a : Server.Stage.Act) : Server.Stage :=
  s.act setup.config setup.sha1 setup.beyond setup.order setup.endpoints a

end Setup

/-- The server, its connections, and what has been seen from outside. -/
structure Hub (ι : Type) where
  state : State ι := {}
  stage : ι → Option Server.Stage := fun _ => none
  stopped : Bool := false
  history : List (Visible ι) := []

namespace Hub

variable {ι : Type}

def see (h : Hub ι) (v : Visible ι) : Hub ι := { h with history := h.history ++ [v] }

/-- The callbacks that a handler of the connection calls. -/
def newCalls (setup : Setup) (h : Hub ι) (connection : ι) (a : Server.Stage.Act) : List Event :=
  match h.stage connection with
  | none => []
  | some s => (setup.step s a).standing.calls.drop s.standing.calls.length

variable [DecidableEq ι] (setup : Setup)

/-- The callbacks set by `initServer`: what the socket layer does to its set, then
`onNewConnectionCallback`, `onMessageCallback`, `onConnectionCloseCallback` or `onErrorCallback`. -/
def callback (connection : ι) (h : Hub ι) : Event → Hub ι
  | .onOpen =>
      { h with state := h.state.connectionOpen connection }.see
        (.listener connection (.connectionOpened (h.state.getConnectionString connection)))
  | .onMessage m =>
      let id := h.state.getConnectionString connection
      let calls : List (Unit × Received Bytes) := onMessageCallback setup.string [()] id m []
      { h with history := h.history ++ calls.map fun r => .received connection r.2 }
  | .onClose status reason =>
      { h with state := h.state.connectionClose connection status reason }.see
        (.listener connection
          (.connectionClosed (h.state.getConnectionString connection) status reason))
  | .onError ec =>
      { h with state := h.state.connectionError connection (setup.errorMessage ec) }.see
        (.listener connection
          (.connectionError (h.state.getConnectionString connection) (setup.errorMessage ec)))
  | _ => h

/-- The connection goes on. -/
def advance (h : Hub ι) (connection : ι) (a : Server.Stage.Act) : Hub ι :=
  { h with
    stage := Function.update h.stage connection ((h.stage connection).map (setup.step · a)) }

/-- A handler of the connection runs. -/
def perform (h : Hub ι) (connection : ι) (a : Server.Stage.Act) : Hub ι :=
  (h.newCalls setup connection a).foldl (callback setup connection) (h.advance setup connection a)

/-- `onHTTPUpgrade` makes a connection of the socket and hands it to `upgrade`. -/
def onHTTPUpgrade (h : Hub ι) (connection : ι) (request : RequestMessage)
    (remoteEndpoint : Option Endpoint) : Hub ι :=
  { h with
    state := h.state.writeHandshake connection remoteEndpoint
    stage := Function.update h.stage connection (some (setup.start request)) }

/-! #### What the program calls -/

/-- The same is done with some connections, one after the other. -/
def advanceAll (h : Hub ι) (connections : List ι) (a : Server.Stage.Act) : Hub ι :=
  connections.foldl (fun h c => h.advance setup c a) h

/-- `send` of some connections. -/
def sendAll (h : Hub ι) (connections : List ι) (outMessage : Bytes) (finRsvOpcode : UInt8) : Hub ι :=
  h.advanceAll setup connections (.act (.send outMessage finRsvOpcode))

def send (h : Hub ι) (message : Bytes) : Hub ι :=
  h.sendAll setup h.state.send message 129

def sendData (h : Hub ι) (data : Bytes) : Hub ι :=
  h.sendAll setup h.state.send data 130

/-- The connection with the id, if the map has one. -/
def connectionOf (h : Hub ι) (id : Bytes) : List ι := (h.state.connectionMap.lookup id).toList

def sendTo (h : Hub ι) (message id : Bytes) : Hub ι :=
  h.sendAll setup (h.connectionOf id) message 129

def sendDataTo (h : Hub ι) (data id : Bytes) : Hub ι :=
  h.sendAll setup (h.connectionOf id) data 130

/-- The connections that are not excluded. -/
def connectionsExcept (h : Hub ι) (excludeIds : List Bytes) : List ι :=
  (h.state.connectionMap.entries.filter fun e => !excludeIds.contains e.1).map Sigma.snd

def sendExclude (h : Hub ι) (message : Bytes) (excludeIds : List Bytes) : Hub ι :=
  h.sendAll setup (h.connectionsExcept excludeIds) message 129

def sendDataExclude (h : Hub ι) (data : Bytes) (excludeIds : List Bytes) : Hub ι :=
  h.sendAll setup (h.connectionsExcept excludeIds) data 130

def closeConnectionInternal (h : Hub ι) (id : Bytes) (code : ℤ) (reason : Bytes) : Hub ι :=
  h.advanceAll setup (h.connectionOf id) (.act (.sendClose code reason))

def call (h : Hub ι) : Call → Hub ι
  | .send message => h.send setup message
  | .sendData data => h.sendData setup data
  | .sendTo message id => h.sendTo setup message id
  | .sendDataTo data id => h.sendDataTo setup data id
  | .sendExclude message excludeIds => h.sendExclude setup message excludeIds
  | .sendDataExclude data excludeIds => h.sendDataExclude setup data excludeIds
  | .closeConnection id code reason => h.closeConnectionInternal setup id code reason

/-- `stopInternal`: the service is stopped, so that no handler runs any more; the connections of the
socket layer are sent a close frame, and both collections are given up. -/
def stopInternal (h : Hub ι) : Hub ι :=
  { h with
    state := { h.state with connections := ∅, connectionMap := ∅ }
    stage := fun c =>
      if c ∈ h.state.connections then
        (h.stage c).map (setup.step · (.act (.sendClose 1000 (ascii "Server destroyed"))))
      else h.stage c
    stopped := true
    history := h.history ++ [.stop] }

/-- What can happen: a connection is upgraded; the write of its answer, or its outstanding read, is
completed; the program calls something, or stops the server. -/
inductive Act (ι : Type)
  | onHTTPUpgrade (connection : ι) (request : RequestMessage) (remoteEndpoint : Option Endpoint)
  | answerWritten (connection : ι) (lock : Bool) (ec : Option ErrorCode)
  | readCompleted (connection : ι) (lock : Bool) (k : Completion UInt8 ErrorCode)
  | call (call : Call)
  | stopInternal

/-- What runs on the service runs until it is stopped. -/
def whileRunning (h h' : Hub ι) : Hub ι := if h.stopped then h else h'

def act (h : Hub ι) : Act ι → Hub ι
  | .onHTTPUpgrade connection request remoteEndpoint =>
      h.whileRunning (h.onHTTPUpgrade setup connection request remoteEndpoint)
  | .answerWritten connection lock ec =>
      h.whileRunning (h.perform setup connection (.answerWritten lock ec))
  | .readCompleted connection lock k =>
      h.whileRunning (h.perform setup connection (.act (.complete lock k)))
  | .call call => (h.call setup call).see (.program call)
  | .stopInternal => h.stopInternal setup

/-- A connection is made once. -/
def Allowed (h : Hub ι) : Act ι → Prop
  | .onHTTPUpgrade connection _ _ => h.stage connection = none
  | _ => True

/-- When a connection is opened, closed or fails, no other open connection has its address and
port. -/
def Distinct (h : Hub ι) : Act ι → Prop
  | .answerWritten connection lock ec => separate connection (.answerWritten lock ec)
  | .readCompleted connection lock k => separate connection (.act (.complete lock k))
  | _ => True
where
  /-- Of the step of one connection. -/
  separate (connection : ι) (a : Server.Stage.Act) : Prop :=
    (∃ e ∈ h.newCalls setup connection a, ¬ e.Ordinary) →
      ∀ other ∈ h.state.connections, other ≠ connection →
        h.state.endpoint other ≠ h.state.endpoint connection

/-! #### The room of which the listeners know -/

end Hub

/-- The message of a call, and whom it is for. -/
def Call.tells? : Call → Option (Room.Event Bytes Bytes)
  | .send message => some (.tells (fun _ => true) (Server.outData message 129))
  | .sendData data => some (.tells (fun _ => true) (Server.outData data 130))
  | .sendTo message id => some (.tells (fun k => k == id) (Server.outData message 129))
  | .sendDataTo data id => some (.tells (fun k => k == id) (Server.outData data 130))
  | .sendExclude message excludeIds =>
      some (.tells (fun k => !excludeIds.contains k) (Server.outData message 129))
  | .sendDataExclude data excludeIds =>
      some (.tells (fun k => !excludeIds.contains k) (Server.outData data 130))
  | .closeConnection _ _ _ => none

/-- What it means in the room: ids join when their connection is opened, and leave when it is closed
or fails. -/
def Visible.roomEvent? {ι : Type} : Visible ι → Option (Room.Event Bytes Bytes)
  | .listener _ (.connectionOpened id) => some (.joins id)
  | .listener _ (.connectionClosed id _ _) => some (.leaves id)
  | .listener _ (.connectionError id _) => some (.leaves id)
  | .received _ _ => none
  | .program call => call.tells?
  | .stop => some .closes

namespace Hub

variable {ι : Type}

/-- The room that one has seen from outside. -/
def room (h : Hub ι) : Room Bytes Bytes := Room.after (h.history.filterMap Visible.roomEvent?)

/-- The messages on the send queue of a connection. -/
def messagesTo (h : Hub ι) (connection : ι) : List Bytes :=
  ((h.stage connection).map Server.Stage.messagesOut).getD []

end Hub

end SimpleWebSocketServer

end SimpleWeb
