/-
**The two ways into a WebSocket connection.**

A WebSocket server may read the request head itself, in `read_handshake`.  In this program it is an HTTP
server that reads it; a request with an `Upgrade` field is handed over by `onHTTPUpgrade`, which moves
the parts of the request to a connection, one by one, and passes it to `upgrade`.  The query string is
not among the parts that are moved.  And the buffer of the HTTP server has a greatest size, which the
other one has not.

Main definitions:

* `SimpleWeb.SocketServerBase.Connection` — what `write_handshake` is called with;
* `SimpleWeb.SocketServerBase.upgrade`, `SimpleWeb.SocketServerBase.readHandshake`,
  `SimpleWeb.SimpleWebSocketServer.onHTTPUpgrade` — the functions on the two ways;
* `SimpleWeb.SameConnection` — both ways give the same connection.

Main results:

* `SimpleWeb.ServerBase.upgraded_readStep` — the request that the HTTP server hands over;
* `SimpleWeb.same_connection_iff` — **for which requests the connections are the same**.
-/

import SimpleWeb.HeadEnd
import SimpleWeb.RequestHead
import SimpleWeb.StartLine

set_option relaxedAutoImplicit false
set_option autoImplicit false

namespace SimpleWeb

/-! ### The functions -/

namespace SocketServerBase

structure Config where
  timeoutIdle : ℤ := 0

/-- A connection, as far as the two ways fill it. -/
structure Connection where
  method : Bytes := []
  path : Bytes := []
  queryString : Bytes := []
  httpVersion : Bytes := []
  header : CaseInsensitiveMultimap := []
  timeoutIdle : ℤ := 0
  deriving DecidableEq

/-- `upgrade`: the connection that `write_handshake` is called with. -/
def upgrade (config : Config) (connection : Connection) : Connection :=
  { connection with timeoutIdle := config.timeoutIdle }

/-- The handler of `read_handshake`: the connection that `write_handshake` is called with, if it is.
`accept` has made it with the timeout. -/
def onHandshake (config : Config) (streambuf : Bytes) : Option Connection :=
  let connection : Connection := { timeoutIdle := config.timeoutIdle }
  match RequestMessage.parse streambuf {} with
  | .ok (true, request, _) =>
      some { connection with
        method := request.method
        path := request.path
        queryString := request.queryString
        httpVersion := request.version
        header := request.header }
  | _ => none

/-- `read_handshake`, from a stream that arrives in pieces.  The buffer has no limit of its own. -/
def readHandshake (config : Config) (pieces : List Bytes) : Option Connection :=
  match readUntil (crlf ++ crlf) sizeMax.toNat ServerBase.ErrorCode.notFound [] pieces with
  | some (⟨none, data⟩, _) => onHandshake config data
  | _ => none

end SocketServerBase

open SocketServerBase

/-- The parts of the request are moved to a new connection, which is upgraded. -/
def onUpgradeRequest (config : SocketServerBase.Config) (request : RequestMessage) : Connection :=
  let connection : Connection := {}
  let connection := { connection with method := request.method }
  let connection := { connection with path := request.path }
  let connection := { connection with httpVersion := request.version }
  let connection := { connection with header := request.header }
  upgrade config connection

/-- `onHTTPUpgrade` of the plain server. -/
def SimpleWebSocketServer.onHTTPUpgrade :
    SocketServerBase.Config → RequestMessage → Connection := onUpgradeRequest

/-- `onHTTPUpgrade` of the secure server. -/
def SecureWebSocketServer.onHTTPUpgrade :
    SocketServerBase.Config → RequestMessage → Connection := onUpgradeRequest

namespace ServerBase

/-- The request that `on_upgrade` is called with. -/
def Event.upgraded? : Event → Option RequestMessage
  | .onUpgrade request _ => some request
  | _ => none

/-- The requests that have been handed over. -/
def Session.upgraded (s : Session) : List RequestMessage := s.log.filterMap Event.upgraded?

end ServerBase

/-- When a head is to be read and the stream arrives in the given pieces, the HTTP server hands over one
connection, and it is the one that the WebSocket server would make of the same pieces. -/
def SameConnection (onHTTPUpgrade : RequestMessage → Connection) (members : ServerBase.Members)
    (httpConfig : ServerBase.Config) (config : SocketServerBase.Config) (order : Order)
    (log : List ServerBase.Event) (pieces : List Bytes) : Prop :=
  ∃ connection, readHandshake config pieces = some connection ∧
    ∃ m, ∀ n, m ≤ n →
      (Machine.iterate (ServerBase.readStep members httpConfig order) n
          (({ log } : ServerBase.Session).read, pieces)).1.upgraded.map onHTTPUpgrade =
        ({ log } : ServerBase.Session).upgraded.map onHTTPUpgrade ++ [connection]

/-! ### The two connections -/

variable {members : ServerBase.Members} {httpConfig : ServerBase.Config} {order : Order}
  {log : List ServerBase.Event} {data line stream rest method target version : Bytes}
  {header : CaseInsensitiveMultimap}

theorem findField_isSome (order : Order) {name : Bytes} (h : ∃ f ∈ header, Named name f) :
    (findField order header name).isSome = true := by
  obtain ⟨f, hf, hname⟩ := h
  rw [findField, List.find?_isSome]
  exact ⟨f, order.mem_elements.2 hf, by simpa using hname⟩

namespace ServerBase

/-- The request is handed over when its resource is looked for. -/
theorem upgraded_findResource {s : Session} (hon : members.onUpgrade = true)
    (hupgrade : ∃ f ∈ s.request.header, Named (ascii "Upgrade") f) :
    (s.findResource members order).upgraded = s.upgraded ++ [s.request] := by
  have hcond : members.onUpgrade = true ∧ (findField order
      (s.emit (.findResource s.request s.streambuf)).request.header (ascii "Upgrade")).isSome :=
    ⟨hon, findField_isSome order hupgrade⟩
  unfold Session.findResource
  dsimp only
  rw [if_pos hcond]
  simp only [Session.upgraded, Session.emit, List.filterMap_append, List.append_assoc]
  rfl

variable {pieces left : List Bytes} {request : RequestMessage}

/-- **A request with an `Upgrade` field and no body is handed over** when its head has been read, and
nothing else is read. -/
theorem upgraded_readStep
    (hread : readUntil (crlf ++ crlf) httpConfig.maxRequestStreambufSize.toNat ErrorCode.notFound []
      pieces = some (⟨none, data⟩, left))
    (hparse : RequestMessage.parse data {} = .ok (true, request, rest))
    (hon : members.onUpgrade = true)
    (hupgrade : ∃ f ∈ request.header, Named (ascii "Upgrade") f)
    (hlength : ∀ f ∈ request.header, ¬ Named (ascii "Content-Length") f)
    (hencoding : ∀ f ∈ request.header, ¬ Named (ascii "Transfer-Encoding") f) :
    ∃ s, readStep members httpConfig order (({ log } : Session).read, pieces) = some (s, left) ∧
      s.reading = none ∧ s.upgraded = ({ log } : Session).upgraded ++ [request] := by
  have hdeliver : ({ log } : Session).read.deliver httpConfig pieces .head =
      some (⟨none, data⟩, left) := hread
  have hcomplete : ({ log } : Session).read.complete members httpConfig order true ⟨none, data⟩ =
      ({ log, request, streambuf := rest } : Session).findResource members order := by
    unfold Session.complete
    dsimp only [Session.read, Session.receive, Session.onRead]
    rw [if_neg (by decide), List.nil_append]
    unfold Session.onHead
    dsimp only
    rw [hparse]
    dsimp only
    rw [if_neg (by decide)]
    unfold Session.onParsed
    dsimp only
    rw [findField_eq_none order hlength, findField_eq_none order hencoding]
  refine ⟨_, readStep_eq rfl hdeliver, ?_, ?_⟩
  · rw [hcomplete]
    exact (Session.logs_findResource _).reading
  · rw [hcomplete]
    exact upgraded_findResource hon hupgrade

/-- Nothing is handed over when the head does not fit into the buffer. -/
theorem upgraded_readStep_long
    {ec : ErrorCode} (hread : readUntil (crlf ++ crlf) httpConfig.maxRequestStreambufSize.toNat
      ErrorCode.notFound [] pieces = some (⟨some ec, data⟩, left)) :
    ∃ s, readStep members httpConfig order (({ log } : Session).read, pieces) = some (s, left) ∧
      s.reading = none ∧ s.upgraded = ({ log } : Session).upgraded := by
  have hdeliver : ({ log } : Session).read.deliver httpConfig pieces .head =
      some (⟨some ec, data⟩, left) := hread
  have hcomplete : ({ log } : Session).read.complete members httpConfig order true ⟨some ec, data⟩ =
      ({ log, streambuf := data } : Session).onError members ec := rfl
  refine ⟨_, readStep_eq rfl hdeliver, ?_, ?_⟩
  · rw [hcomplete]
    exact (Session.logs_onError _ ec).reading
  · rw [hcomplete]
    unfold Session.onError
    split
    · simp [Session.upgraded, Session.emit, Event.upgraded?]
    · rfl

end ServerBase

/-- The connections differ in the query string, if there is one. -/
theorem onUpgradeRequest_iff (config : SocketServerBase.Config) {request : RequestMessage}
    (hparse : RequestMessage.parse data {} = .ok (true, request, rest)) :
    onHandshake config data = some (onUpgradeRequest config request) ↔ request.queryString = [] := by
  rw [onHandshake, hparse]
  simp [onUpgradeRequest, upgrade]

section

variable {head behind : Bytes} {pieces : List Bytes}

theorem sameConnection_iff (config : SocketServerBase.Config) {request : RequestMessage}
    (hend : endOfHead head = some head.length)
    (hparse : RequestMessage.parse head {} = .ok (true, request, rest))
    (hon : members.onUpgrade = true)
    (hupgrade : ∃ f ∈ request.header, Named (ascii "Upgrade") f)
    (hlength : ∀ f ∈ request.header, ¬ Named (ascii "Content-Length") f)
    (hencoding : ∀ f ∈ request.header, ¬ Named (ascii "Transfer-Encoding") f)
    (hpieces : pieces.flatten = head ++ behind) :
    SameConnection (onUpgradeRequest config) members httpConfig config order log pieces ↔
      request.queryString = [] ∧ head.length ≤ httpConfig.maxRequestStreambufSize.toNat := by
  by_cases hfits : head.length ≤ httpConfig.maxRequestStreambufSize.toNat
  · rw [and_iff_left hfits]
    -- the HTTP server reads the head, and so does the other one
    obtain ⟨surplus, left, hread, -, -⟩ := ServerBase.readUntil_whole hend hfits hpieces
    obtain ⟨rest', hbehind⟩ := RequestMessage.parse_behind hend hparse surplus
    obtain ⟨s, hstep, hreading, hupgraded⟩ := @ServerBase.upgraded_readStep members httpConfig order
      log _ rest' pieces left request hread hbehind hon hupgrade hlength hencoding
    obtain ⟨m, hm⟩ := (Machine.Leads.one hstep).eventually
      (ServerBase.readStep_of_none hreading left)
    have hmax : httpConfig.maxRequestStreambufSize.toNat ≤ sizeMax.toNat :=
      Nat.le_of_lt_succ httpConfig.maxRequestStreambufSize.toNat_lt
    obtain ⟨surplus', left', hread', -, -⟩ := ServerBase.readUntil_whole hend
      (hfits.trans hmax) hpieces
    obtain ⟨rest'', hbehind'⟩ := RequestMessage.parse_behind hend hparse surplus'
    have hhandshake : readHandshake config pieces = onHandshake config (head ++ surplus') := by
      rw [readHandshake, hread']
    rw [SameConnection, hhandshake, ← onUpgradeRequest_iff config hbehind']
    constructor
    · -- the one connection that was handed over is the one of the handshake
      rintro ⟨connection, hsome, m', hm'⟩
      have heq := hm' (max m m') (le_max_right _ _)
      rw [hm _ (le_max_left _ _), hupgraded, List.map_append, List.append_cancel_left_eq] at heq
      rw [hsome, (List.cons.inj heq).1]
    · intro hsome
      refine ⟨_, hsome, m, ?_⟩
      intro n hn
      rw [hm n hn, hupgraded, List.map_append]
      rfl
  · -- the head is too long for the buffer of the HTTP server
    refine iff_of_false ?_ fun h => hfits h.2
    rintro ⟨connection, -, m', hm'⟩
    have hfront : endOf (crlf ++ crlf) ([] ++ pieces.flatten) = some head.length := by
      rw [List.nil_append, hpieces]
      exact endOf_append ((endOf_head head).trans hend) behind
    obtain ⟨data, left, hread⟩ := @readUntil_full _ ServerBase.ErrorCode _ _ _ _ _ .notFound _ hfront
      (not_le.1 hfits) (Nat.zero_le _)
    obtain ⟨s, hstep, hreading, hupgraded⟩ :=
      @ServerBase.upgraded_readStep_long members httpConfig order log _ pieces left _ hread
    obtain ⟨m, hm⟩ := (Machine.Leads.one hstep).eventually
      (ServerBase.readStep_of_none hreading left)
    have heq := hm' (max m m') (le_max_right _ _)
    rw [hm _ (le_max_left _ _), hupgraded, List.self_eq_append_right] at heq
    cases heq

/-- **For which requests the connections are the same**: of all heads with an `Upgrade` field and
without a body, in whatever pieces they arrive and whatever is behind them, those with no query in
their target, or with an empty one, that fit into the buffer of the HTTP server. -/
theorem same_connection_iff (members : ServerBase.Members) (httpConfig : ServerBase.Config)
    (config : SocketServerBase.Config) (order : Order) (log : List ServerBase.Event)
    (hon : members.onUpgrade = true) (hend : endOfHead head = some head.length)
    (hline : getline head = some (line, stream)) (hrequest : IsRequestLine line method target version)
    (hheader : HttpHeader.parse stream = .ok (header, rest))
    (hupgrade : ∃ f ∈ header, Named (ascii "Upgrade") f)
    (hlength : ∀ f ∈ header, ¬ Named (ascii "Content-Length") f)
    (hencoding : ∀ f ∈ header, ¬ Named (ascii "Transfer-Encoding") f)
    (hpieces : pieces.flatten = head ++ behind) :
    (SameConnection (SimpleWebSocketServer.onHTTPUpgrade config) members httpConfig config order log
        pieces ↔
      (Cut.after 63 target).getD [] = [] ∧
        head.length ≤ httpConfig.maxRequestStreambufSize.toNat) ∧
    (SameConnection (SecureWebSocketServer.onHTTPUpgrade config) members httpConfig config order log
        pieces ↔
      (Cut.after 63 target).getD [] = [] ∧
        head.length ≤ httpConfig.maxRequestStreambufSize.toNat) := by
  have hparse := RequestMessage.parse_requestLine_fields hline hrequest hheader {}
  have hiff := @sameConnection_iff members httpConfig order log rest head behind pieces config _ hend
    hparse hon hupgrade hlength hencoding hpieces
  exact ⟨hiff, hiff⟩

end

/-! #### A request without a query, and one with a query -/

/-- A request for the given target. -/
def upgradeRequest (target : Bytes) : Bytes :=
  ascii "GET " ++ target ++ ascii " HTTP/1.1" ++ crlf ++ ascii "Upgrade: websocket" ++ crlf ++ crlf

/-- The same request in two pieces, to a server that has room for it and to one that has not. -/
theorem same_connection_iff_plain :
    SameConnection (SimpleWebSocketServer.onHTTPUpgrade {}) { onUpgrade := true }
        { maxRequestStreambufSize := 1000000 } {} .insertion []
        [(upgradeRequest (ascii "/chat")).take 30, (upgradeRequest (ascii "/chat")).drop 30] ∧
      ¬ SameConnection (SimpleWebSocketServer.onHTTPUpgrade {}) { onUpgrade := true }
        { maxRequestStreambufSize := 40 } {} .insertion []
        [(upgradeRequest (ascii "/chat")).take 30, (upgradeRequest (ascii "/chat")).drop 30] := by
  have hrequest : IsRequestLine (ascii "GET /chat HTTP/1.1" ++ [13]) (ascii "GET") (ascii "/chat")
      (ascii "1.1" ++ [13]) := ⟨by decide, by decide, by decide⟩
  have hline : getline (upgradeRequest (ascii "/chat")) =
      some (ascii "GET /chat HTTP/1.1" ++ [13], ascii "Upgrade: websocket" ++ crlf ++ crlf) := by
    decide +kernel
  have hheader : HttpHeader.parse (ascii "Upgrade: websocket" ++ crlf ++ crlf) =
      .ok ([(ascii "Upgrade", ascii "websocket")], []) := by
    decide +kernel
  have hpieces : [(upgradeRequest (ascii "/chat")).take 30,
      (upgradeRequest (ascii "/chat")).drop 30].flatten = upgradeRequest (ascii "/chat") ++ [] := by
    decide +kernel
  have hiff := fun httpConfig => same_connection_iff { onUpgrade := true } httpConfig {} .insertion []
    rfl (by decide +kernel) hline hrequest hheader (by decide) (by decide) (by decide) hpieces
  refine ⟨(hiff _).1.2 (by decide), ?_⟩
  exact fun h => absurd ((hiff _).1.1 h) (by decide)

/-- The query is lost on one of the ways. -/
theorem query_lost :
    (readHandshake {} [upgradeRequest (ascii "/chat?room=1")]).map Connection.queryString =
        some (ascii "room=1") ∧
      ¬ SameConnection (SimpleWebSocketServer.onHTTPUpgrade {}) { onUpgrade := true }
        { maxRequestStreambufSize := 1000000 } {} .insertion []
        [upgradeRequest (ascii "/chat?room=1")] := by
  have hparse : RequestMessage.parse (upgradeRequest (ascii "/chat?room=1")) {} =
      .ok (true, ⟨ascii "GET", ascii "/chat", ascii "room=1", ascii "1.1",
        [(ascii "Upgrade", ascii "websocket")]⟩, []) := by
    decide +kernel
  refine ⟨by decide +kernel, ?_⟩
  have hiff := @sameConnection_iff { onUpgrade := true } { maxRequestStreambufSize := 1000000 }
    .insertion [] _ _ [] [upgradeRequest (ascii "/chat?room=1")] {} _ (by decide +kernel) hparse rfl
    (by decide) (by decide) (by decide) (by decide)
  intro h
  exact absurd (hiff.1 h).1 (by decide)

end SimpleWeb
