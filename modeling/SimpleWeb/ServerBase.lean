/-
**The HTTP server: the requests of a connection.**

A model of `ServerBase` (`webserver/server_http.hpp`): `read`, `read_chunked_transfer_encoded`,
`find_resource` and `write`.  A session reads a request head up to an empty line, and then the content,
whose length is announced or which comes in chunks; a resource function is called, and when its
response has been written the next session begins.  The handlers that the source passes to
`asio::async_read_until` and `asio::async_read` are the functions `onHead`, `onChunkSize` and the
cases of `complete`; which of them the outstanding read will call is the session's `reading`.

The request is read into the buffer that holds its content afterwards.  What was read behind the head
is left there; for a chunked request it is moved to another buffer, from which the sizes of the chunks
are read.  A buffer has a greatest size: a read takes no more than there is room for, and `prepare`
throws when it is asked for more.

What the functions of the program do is not modelled, except that a resource function may throw.  An
exception that leaves a handler stops the `io_service`, and the session with it.

Main definitions:

* `SimpleWeb.ServerBase.Members`, `SimpleWeb.ServerBase.Session`, `SimpleWeb.ServerBase.ReadOp` — what
  the program has set, a session, and its outstanding read;
* `SimpleWeb.ServerBase.Session.onHead`, `SimpleWeb.ServerBase.Session.onChunkSize`,
  `SimpleWeb.ServerBase.Session.findResource` — the handlers, and the choice of the function;
* `SimpleWeb.ServerBase.act`, `SimpleWeb.ServerBase.Reachable` — everything that can happen to a
  connection, and the states it can be in;
* `SimpleWeb.ServerBase.readRequest`, `SimpleWeb.ServerBase.serve` — a connection to which a stream
  arrives in pieces.

Main results:

* `SimpleWeb.ServerBase.Reachable.fits` — the buffers are big enough for what is put into them;
* `SimpleWeb.ServerBase.log_act` — nothing is taken from the log;
* `SimpleWeb.ServerBase.reachable_serve` — a stream takes a connection to states that are reachable.
-/

import SimpleWeb.Http
import SimpleWeb.Pieces
import SimpleWeb.StatusCode

set_option relaxedAutoImplicit false
set_option autoImplicit false

namespace SimpleWeb.ServerBase

/-! ### Sessions -/

structure Config where
  maxRequestStreambufSize : UInt64 := sizeMax

/-- The error codes made by the server, and those reported by the transport. -/
inductive ErrorCode
  | protocolError
  | messageSize
  | operationCanceled
  | notFound
  | transport (value : ℕ)
  deriving DecidableEq, Repr

/-- What may be thrown out of a handler. -/
inductive Exception
  | badFunctionCall
  | lengthError
  deriving DecidableEq, Repr

/-- The functions of the program that answer requests, by number. -/
abbrev ResourceFunction := ℕ

/-- An entry of `resource`: an expression for paths, and a function for each method. -/
structure Resource where
  regexMatch : Bytes → Bool
  methods : List (Bytes × ResourceFunction)

/-- What the program has set: whether `on_error` and `on_upgrade` hold a function, and the resources in
the order of their expressions.  `throws` is whether a resource function throws when it is called. -/
structure Members where
  onError : Bool := false
  onUpgrade : Bool := false
  resource : List Resource := []
  defaultResource : List (Bytes × ResourceFunction) := []
  throws : ResourceFunction → RequestMessage → Bytes → Bool := fun _ _ _ => false

/-- The function for the method and the path of a request, or the default for the method. -/
def Members.function (members : Members) (request : RequestMessage) : Option ResourceFunction :=
  (members.resource.findSome? fun resource =>
    if resource.regexMatch request.path then resource.methods.lookup request.method else none).or
    (members.defaultResource.lookup request.method)

/-- The outstanding read, with the number of bytes it asks for. -/
inductive ReadOp
  | head
  | content (size : ℕ)
  | chunkSize
  | chunk (size : ℕ)
  | chunkEnd (size : ℕ)
  deriving DecidableEq, Repr

/-- What a connection does.  `findResource` is recorded for the specifications, and so is `unsent`, a
response that is written and not sent; `terminate` is the end of the process. -/
inductive Event
  | findResource (request : RequestMessage) (content : Bytes)
  | resource (f : ResourceFunction) (request : RequestMessage) (content : Bytes)
  | onUpgrade (request : RequestMessage) (content : Bytes)
  | onError (ec : ErrorCode)
  | unsent (statusCode : StatusCode)
  | thrown (e : Exception)
  | terminate
  deriving DecidableEq

/-- What is thrown. -/
def Event.thrown? : Event → Option Exception
  | .thrown e => some e
  | _ => none

/-- The request that is found, and its content. -/
def Event.found? : Event → Option (RequestMessage × Bytes)
  | .findResource request content => some (request, content)
  | _ => none

/-- A session: its request, whose `streambuf` is the content once the head has been parsed; the buffer
of `read_chunked_transfer_encoded`, with its greatest size; and whether a response has been made that
is still to be sent. -/
structure Session where
  request : RequestMessage := {}
  streambuf : Bytes := []
  chunkSizeStreambuf : Bytes := []
  chunkSizeMaxSize : ℕ := 0
  reading : Option ReadOp := none
  responding : Bool := false
  log : List Event := []
  deriving DecidableEq

namespace Session

/-- The next entry of the log. -/
def emit (s : Session) (e : Event) : Session := { s with log := s.log ++ [e] }

variable (members : Members) (config : Config) (order : Order)

/-- `if(this->on_error) this->on_error(session->request, ec)`. -/
def onError (s : Session) (ec : ErrorCode) : Session :=
  if members.onError then s.emit (.onError ec) else s

/-- `this->on_error(session->request, ec)`, which throws when it is not set. -/
def onErrorUnguarded (s : Session) (ec : ErrorCode) : Session :=
  if members.onError then s.emit (.onError ec) else s.emit (.thrown .badFunctionCall)

/-- A response for a request that is too big is written and dropped; it has no deleter that sends
it. -/
def payloadTooLarge (s : Session) : Session :=
  (s.emit (.unsent .clientErrorPayloadTooLarge)).onError members .messageSize

/-! ### Finding a resource -/

/-- `write`: the function is called with a response, which is sent when it is deleted. -/
def write (s : Session) (f : ResourceFunction) : Session :=
  let s := { s with responding := true }.emit (.resource f s.request s.streambuf)
  if members.throws f s.request s.streambuf then s.onError members .operationCanceled else s

def findResource (s : Session) : Session :=
  let s := s.emit (.findResource s.request s.streambuf)
  if members.onUpgrade ∧ (findField order s.request.header (ascii "Upgrade")).isSome then
    s.emit (.onUpgrade s.request s.streambuf)
  else
    match members.function s.request with
    | some f => s.write members f
    | none => s

/-! ### Reading a request -/

/-- `read`: a request head is read. -/
def read (s : Session) : Session := { s with reading := some .head }

/-- `read_chunked_transfer_encoded`: the line with the size of the next chunk is read. -/
def readChunkedTransferEncoded (s : Session) : Session := { s with reading := some .chunkSize }

/-- The leftover bytes are moved to a buffer with room for a size of 16 digits, or for all of
them. -/
def moveLeftover (s : Session) : Session :=
  { s with
    streambuf := []
    chunkSizeStreambuf := s.streambuf
    chunkSizeMaxSize := max (16 + 2) s.streambuf.length }

/-- The handler of the read of the head, once it has been parsed. -/
def onParsed (s : Session) (numAdditionalBytes : ℕ) : Session :=
  -- If content, read that as well
  match findField order s.request.header (ascii "Content-Length") with
  | some headerIt =>
      match strtoull 10 headerIt.2 with
      | none => s.onError members .protocolError
      | some contentLength =>
          if contentLength.toNat > config.maxRequestStreambufSize.toNat then
            s.payloadTooLarge members
          else if contentLength.toNat > numAdditionalBytes then
            { s with reading := some (.content (contentLength.toNat - numAdditionalBytes)) }
          else s.findResource members order
  | none =>
      match findField order s.request.header (ascii "Transfer-Encoding") with
      | some headerIt =>
          if headerIt.2 = ascii "chunked" then s.moveLeftover.readChunkedTransferEncoded
          else s.findResource members order
      | none => s.findResource members order

/-- The handler of the read of the head.  The parser is `noexcept`. -/
def onHead (s : Session) (bytesTransferred : ℕ) : Session :=
  let numAdditionalBytes := s.streambuf.length - bytesTransferred
  match RequestMessage.parse s.streambuf s.request with
  | .error _ => s.emit .terminate
  | .ok (success, request, streambuf) =>
      let s := { s with request, streambuf }
      if !success then s.onError members .protocolError
      else s.onParsed members config order numAdditionalBytes

/-- What is done with a chunk of the given size, of which `numAdditionalBytes` may have been read
already: they are moved to the content, and what is missing of it, and of the line end behind it, is
read or removed. -/
def onChunk (s : Session) (chunkSize : UInt64) (numAdditionalBytes : ℕ) : Session :=
  let bytesToMove := min chunkSize.toNat numAdditionalBytes
  -- `prepare` throws when there is no room
  if bytesToMove > 0 ∧ s.streambuf.length + bytesToMove > config.maxRequestStreambufSize.toNat then
    s.emit (.thrown .lengthError)
  else
    let s := { s with
      streambuf := s.streambuf ++ s.chunkSizeStreambuf.take bytesToMove
      chunkSizeStreambuf := s.chunkSizeStreambuf.drop bytesToMove }
    if chunkSize.toNat > numAdditionalBytes then
      { s with reading := some (.chunk (chunkSize.toNat - numAdditionalBytes)) }
    else
      let chunkEndSize := 2 + chunkSize.toNat - numAdditionalBytes
      if 2 + chunkSize.toNat > numAdditionalBytes then
        -- If only end of chunk remains unread (\n or \r\n)
        { s with
          chunkSizeStreambuf :=
            if chunkEndSize = 1 then s.chunkSizeStreambuf.drop 1 else s.chunkSizeStreambuf
          reading := some (.chunkEnd chunkEndSize) }
      else
        { s with chunkSizeStreambuf := s.chunkSizeStreambuf.drop 2 }.readChunkedTransferEncoded

/-- The handler of the read of a chunk size. -/
def onChunkSize (s : Session) (bytesTransferred : ℕ) : Session :=
  let (line, chunkSizeStreambuf) := (getline s.chunkSizeStreambuf).getD ([], [])
  let s := { s with chunkSizeStreambuf }
  let bytesTransferred := sizeSub bytesTransferred (line.length + 1)
  match strtoull 16 line with
  | none => s.onError members .protocolError
  | some chunkSize =>
      if chunkSize = 0 then s.findResource members order
      else if chunkSize + UInt64.ofNat s.streambuf.length > config.maxRequestStreambufSize then
        s.payloadTooLarge members
      else s.onChunk config chunkSize (sizeSub s.chunkSizeStreambuf.length bytesTransferred)

/-- The bytes of a read are put into its buffer; those of a line end are not kept. -/
def receive (s : Session) (data : Bytes) : ReadOp → Session
  | .head | .content _ | .chunk _ => { s with streambuf := s.streambuf ++ data }
  | .chunkSize => { s with chunkSizeStreambuf := s.chunkSizeStreambuf ++ data }
  | .chunkEnd _ => s

/-- What the handler of a read does after an error. -/
def onReadError (s : Session) (ec : ErrorCode) : ReadOp → Session
  | .chunkEnd _ => s.onErrorUnguarded members ec
  | .head | .content _ | .chunkSize | .chunk _ => s.onError members ec

/-- What the handler of a read does with its bytes. -/
def onRead (s : Session) : ReadOp → Session
  | .head => s.onHead members config order ((endOf (crlf ++ crlf) s.streambuf).getD 0)
  | .content _ => s.findResource members order
  | .chunkSize => s.onChunkSize members config order ((endOf crlf s.chunkSizeStreambuf).getD 0)
  -- Remove "\r\n"
  | .chunk _ => { s with reading := some (.chunkEnd 2) }
  | .chunkEnd _ => s.readChunkedTransferEncoded

/-- The completion of the outstanding read: its bytes are in the buffer, and its handler runs. -/
def complete (s : Session) (lock : Bool) (k : Completion UInt8 ErrorCode) : Session :=
  match s.reading with
  | none => s
  | some op =>
      let s := { s with reading := none }.receive k.data op
      if !lock then s
      else
        match k.ec with
        | some ec => s.onReadError members ec op
        | none => s.onRead members config order op

/-! ### The next request -/

/-- Whether a connection is kept: the first of its `Connection` fields that says so decides, and
otherwise the version. -/
def keepAlive (request : RequestMessage) : Bool :=
  let range := (order.elements request.header).filter (Named (ascii "Connection"))
  match range.find? fun f => caseInsensitiveEqual f.2 (ascii "close") ||
      caseInsensitiveEqual f.2 (ascii "keep-alive") with
  | some f => !caseInsensitiveEqual f.2 (ascii "close")
  | none => ascii "1.1" ≤ request.version

/-- The completion of the write of the response: a new session, with a buffer of its own, reads the
next request. -/
def onResponseSent (s : Session) (closeConnectionAfterResponse lock : Bool)
    (ec : Option ErrorCode) : Session :=
  if !s.responding then s
  else
    let s := { s with responding := false }
    if !lock then s
    else
      match ec with
      | some ec => s.onError members ec
      | none =>
          if closeConnectionAfterResponse then s
          else if keepAlive order s.request then ({ log := s.log } : Session).read
          else s

end Session

/-! ### Runs -/

/-- What can happen to a connection: its outstanding read completes, or its response has been sent. -/
inductive Act
  | complete (lock : Bool) (k : Completion UInt8 ErrorCode)
  | responseSent (closeConnectionAfterResponse lock : Bool) (ec : Option ErrorCode)

variable (members : Members) (config : Config) (order : Order)

def act (s : Session) : Act → Session
  | .complete lock k => s.complete members config order lock k
  | .responseSent closeConnectionAfterResponse lock ec =>
      s.onResponseSent members order closeConnectionAfterResponse lock ec

/-- What a read into a buffer that is to end with a delimiter may deliver. -/
def AllowedUntil (delim : Bytes) (maxSize : ℕ) (buffer : Bytes)
    (k : Completion UInt8 ErrorCode) : Prop :=
  (buffer ++ k.data).length ≤ maxSize ∧ (k.ec = none → (endOf delim (buffer ++ k.data)).isSome) ∧
    ((endOf delim buffer).isSome → k.data = [])

/-- What a read may deliver.  An exact read takes no more than its buffer has room for, and then
reports success. -/
def Session.AllowedRead (config : Config) (s : Session) (k : Completion UInt8 ErrorCode) :
    ReadOp → Prop
  | .head => AllowedUntil (crlf ++ crlf) config.maxRequestStreambufSize.toNat s.streambuf k
  | .content size | .chunk size =>
      k.Obeys (min size (config.maxRequestStreambufSize.toNat - s.streambuf.length))
  | .chunkSize => AllowedUntil crlf s.chunkSizeMaxSize s.chunkSizeStreambuf k
  | .chunkEnd size => k.Obeys (min size 2)

/-- A read is completed once, with what it may deliver. -/
def Allowed (s : Session) : Act → Prop
  | .complete _ k => ∃ op, s.reading = some op ∧ s.AllowedRead config k op
  | .responseSent _ _ _ => True

/-- The states of a connection that has been accepted. -/
def Reachable : Session → Prop :=
  Machine.Reach (act members config order) (Allowed config) fun s => s = ({} : Session).read

/-! ### Streams -/

/-- The outstanding read, from a stream that arrives in pieces. -/
def Session.deliver (s : Session) (pieces : List Bytes) :
    ReadOp → Option (Completion UInt8 ErrorCode × List Bytes)
  | .head =>
      readUntil (crlf ++ crlf) config.maxRequestStreambufSize.toNat .notFound s.streambuf pieces
  | .content size | .chunk size =>
      (takeExactly pieces
        (min size (config.maxRequestStreambufSize.toNat - s.streambuf.length))).map
        fun r => (⟨none, r.1⟩, r.2)
  | .chunkSize => readUntil crlf s.chunkSizeMaxSize .notFound s.chunkSizeStreambuf pieces
  | .chunkEnd size => (takeExactly pieces (min size 2)).map fun r => (⟨none, r.1⟩, r.2)

/-- The completion of the outstanding read, from a stream that arrives in pieces. -/
def readStep (p : Session × List Bytes) : Option (Session × List Bytes) :=
  p.1.reading.bind fun op =>
    (p.1.deliver config p.2 op).map fun r => (p.1.complete members config order true r.1, r.2)

/-- One step of a connection to which a stream arrives in pieces, and whose responses can be sent. -/
def serveStep (p : Session × List Bytes) : Option (Session × List Bytes) :=
  (readStep members config order p).or
    (if p.1.responding then some (p.1.onResponseSent members order false true none, p.2) else none)

/-- At most `n` steps of reading a request. -/
def readRequest (n : ℕ) (pieces : List Bytes) : Session × List Bytes :=
  Machine.iterate (readStep members config order) n (({} : Session).read, pieces)

/-- At most `n` steps of serving a connection. -/
def serve (n : ℕ) (pieces : List Bytes) : Session × List Bytes :=
  Machine.iterate (serveStep members config order) n (({} : Session).read, pieces)

/-! ### What the handlers change -/

namespace Session

/-- Only the log is added to, nothing is thrown, and a response may have been made. -/
def Logs (s s' : Session) : Prop :=
  ∃ es responding, s' = { s with log := s.log ++ es, responding := responding } ∧
    ∀ e ∈ es, e.thrown? = none

variable {members config order} {s s' s'' : Session}

theorem Logs.refl (s : Session) : s.Logs s := ⟨[], s.responding, by simp, by simp⟩

theorem Logs.trans (h : s.Logs s') (h' : s'.Logs s'') : s.Logs s'' := by
  obtain ⟨es, responding, rfl, hes⟩ := h
  obtain ⟨es', responding', rfl, hes'⟩ := h'
  refine ⟨es ++ es', responding', by simp, ?_⟩
  intro e he
  rcases List.mem_append.1 he with he | he
  · exact hes e he
  · exact hes' e he

theorem Logs.reading (h : s.Logs s') : s'.reading = s.reading := by
  obtain ⟨es, responding, rfl, -⟩ := h
  rfl

theorem Logs.streambuf (h : s.Logs s') : s'.streambuf = s.streambuf := by
  obtain ⟨es, responding, rfl, -⟩ := h
  rfl

theorem logs_emit {e : Event} (h : e.thrown? = none) (s : Session) : s.Logs (s.emit e) :=
  ⟨[e], s.responding, rfl, by simpa using h⟩

theorem logs_onError (s : Session) (ec : ErrorCode) : s.Logs (s.onError members ec) := by
  unfold onError
  split
  · exact logs_emit rfl s
  · exact Logs.refl s

theorem logs_payloadTooLarge (s : Session) : s.Logs (s.payloadTooLarge members) :=
  (logs_emit rfl s).trans (logs_onError _ _)

/-- The function is called; if it throws, `on_error` may be. -/
theorem write_eq (s : Session) (f : ResourceFunction) :
    ∃ es, s.write members f =
        { s with log := s.log ++ .resource f s.request s.streambuf :: es, responding := true } ∧
      ∀ e ∈ es, e = .onError .operationCanceled := by
  unfold write
  dsimp only
  split
  · unfold onError
    split
    · exact ⟨[.onError .operationCanceled], by simp [emit], by simp⟩
    · exact ⟨[], by simp [emit], by simp⟩
  · exact ⟨[], by simp [emit], by simp⟩

/-- The resource is found, and what else is logged is what comes of it. -/
theorem findResource_eq (s : Session) :
    ∃ es responding, s.findResource members order =
        { s with
          log := s.log ++ .findResource s.request s.streambuf :: es, responding := responding } ∧
      ∀ e ∈ es, e.found? = none ∧ e.thrown? = none := by
  unfold findResource
  dsimp only
  split
  · exact ⟨[.onUpgrade s.request s.streambuf], s.responding, by simp [emit],
      by simp [Event.found?, Event.thrown?]⟩
  · split
    · next f _ =>
        obtain ⟨es, heq, hes⟩ :=
          @write_eq members (s.emit (.findResource s.request s.streambuf)) f
        refine ⟨.resource f s.request s.streambuf :: es, true, by rw [heq]; simp [emit], ?_⟩
        intro e he
        rcases List.mem_cons.1 he with rfl | he
        · exact ⟨rfl, rfl⟩
        · rw [hes e he]
          exact ⟨rfl, rfl⟩
    · exact ⟨[], s.responding, rfl, by simp⟩

theorem logs_findResource (s : Session) : s.Logs (s.findResource members order) := by
  obtain ⟨es, responding, heq, hes⟩ := @findResource_eq members order s
  refine ⟨.findResource s.request s.streambuf :: es, responding, heq, ?_⟩
  intro e he
  rcases List.mem_cons.1 he with rfl | he
  · rfl
  · exact (hes e he).2

/-! ### The sizes of the buffers -/

/-- The contents of both buffers fit into them. -/
structure Fits (config : Config) (s : Session) : Prop where
  content : s.streambuf.length ≤ config.maxRequestStreambufSize.toNat
  chunkSize : s.chunkSizeStreambuf.length ≤ s.chunkSizeMaxSize

theorem Logs.fits (h : s.Logs s') (hs : s.Fits config) : s'.Fits config := by
  obtain ⟨es, responding, rfl, -⟩ := h
  exact ⟨hs.content, hs.chunkSize⟩

/-- The outstanding read does not matter, nor does what has been parsed. -/
theorem Fits.of_eq (hs : s.Fits config) (hcontent : s'.streambuf = s.streambuf)
    (hchunk : s'.chunkSizeStreambuf = s.chunkSizeStreambuf)
    (hmax : s'.chunkSizeMaxSize = s.chunkSizeMaxSize) : s'.Fits config := by
  constructor
  · rw [hcontent]
    exact hs.content
  · rw [hchunk, hmax]
    exact hs.chunkSize

/-! ### How a handler ends -/

/-- What a handler changes before it ends: what has been parsed, and the buffers, which are still big
enough if they were. -/
structure Prepared (config : Config) (s t : Session) : Prop where
  log : t.log = s.log
  reading : t.reading = s.reading
  responding : t.responding = s.responding
  fits : s.Fits config → t.Fits config

/-- The ways in which the handler of a read that has succeeded ends. -/
inductive Ends (members : Members) (config : Config) (order : Order) (s : Session) : Session → Prop
  | error {t : Session} (h : Prepared config s t) (ec : ErrorCode) :
      Ends members config order s (t.onError members ec)
  | tooLarge {t : Session} (h : Prepared config s t) :
      Ends members config order s (t.payloadTooLarge members)
  | found {t : Session} (h : Prepared config s t) :
      Ends members config order s (t.findResource members order)
  | terminate : Ends members config order s (s.emit .terminate)
  | thrown {t : Session} (h : Prepared config s t) :
      Ends members config order s (t.emit (.thrown .lengthError))
  | reads {t : Session} (h : Prepared config s t) (op : ReadOp) (hop : op ≠ .head) :
      Ends members config order s { t with reading := some op }

theorem Prepared.refl (s : Session) : Prepared config s s := ⟨rfl, rfl, rfl, id⟩

theorem ends_onParsed {t : Session} (h : Prepared config s t) (numAdditionalBytes : ℕ) :
    Ends members config order s (t.onParsed members config order numAdditionalBytes) := by
  unfold onParsed
  split
  · split
    · exact Ends.error h _
    · split
      · exact Ends.tooLarge h
      split
      · exact Ends.reads h _ (by simp)
      · exact Ends.found h
  · split
    · split
      · have hmoved : Prepared config s t.moveLeftover :=
          ⟨h.log, h.reading, h.responding, fun _ => ⟨Nat.zero_le _, le_max_right _ _⟩⟩
        exact Ends.reads hmoved .chunkSize (by simp)
      · exact Ends.found h
    · exact Ends.found h

theorem ends_onHead (s : Session) (bytesTransferred : ℕ) :
    Ends members config order s (s.onHead members config order bytesTransferred) := by
  unfold onHead
  dsimp only
  split
  · exact Ends.terminate
  · next success request streambuf hparse =>
      have hrest : Prepared config s { s with request, streambuf } := by
        refine ⟨rfl, rfl, rfl, ?_⟩
        intro hs
        exact ⟨(RequestMessage.length_parse hparse).trans hs.content, hs.chunkSize⟩
      split
      · exact Ends.error hrest _
      · exact ends_onParsed hrest _

/-- The check of `prepare` is the one that matters for the buffer. -/
theorem ends_onChunk {t : Session} (h : Prepared config s t) (chunkSize : UInt64) (n : ℕ) :
    Ends members config order s (t.onChunk config chunkSize n) := by
  unfold onChunk
  dsimp only
  split
  · exact Ends.thrown h
  · next hroom =>
      have hmoved : t.Fits config →
          (t.streambuf ++ t.chunkSizeStreambuf.take (min chunkSize.toNat n)).length ≤
            config.maxRequestStreambufSize.toNat := by
        intro ht
        have hcontent := ht.content
        rw [List.length_append, List.length_take]
        omega
      have hdrop : t.Fits config → ∀ i, (t.chunkSizeStreambuf.drop i).length ≤
          t.chunkSizeMaxSize := by
        intro ht i
        have hsize := ht.chunkSize
        rw [List.length_drop]
        omega
      have hprepared : ∀ chunkSizeStreambuf : Bytes,
          (t.Fits config → chunkSizeStreambuf.length ≤ t.chunkSizeMaxSize) →
          Prepared config s { t with
            streambuf := t.streambuf ++ t.chunkSizeStreambuf.take (min chunkSize.toNat n)
            chunkSizeStreambuf } := by
        intro chunkSizeStreambuf hle
        exact ⟨h.log, h.reading, h.responding,
          fun hs => ⟨hmoved (h.fits hs), hle (h.fits hs)⟩⟩
      split
      · exact Ends.reads (hprepared _ fun ht => hdrop ht _) _ (by simp)
      split
      · have hone : t.Fits config → (if 2 + chunkSize.toNat - n = 1 then
            (t.chunkSizeStreambuf.drop (min chunkSize.toNat n)).drop 1
            else t.chunkSizeStreambuf.drop (min chunkSize.toNat n)).length ≤ t.chunkSizeMaxSize := by
          intro ht
          split
          · rw [List.drop_drop]
            exact hdrop ht _
          · exact hdrop ht _
        exact Ends.reads (hprepared _ hone) _ (by simp)
      · refine Ends.reads (hprepared _ ?_) .chunkSize (by simp)
        intro ht
        rw [List.drop_drop]
        exact hdrop ht _

theorem ends_onChunkSize (s : Session) (bytesTransferred : ℕ) :
    Ends members config order s (s.onChunkSize members config order bytesTransferred) := by
  have hline : ((getline s.chunkSizeStreambuf).getD ([], [])).2.length ≤
      s.chunkSizeStreambuf.length := by
    cases hget : getline s.chunkSizeStreambuf with
    | none => exact Nat.zero_le _
    | some r => exact (length_of_getline hget).le
  have hrest : Prepared config s
      { s with chunkSizeStreambuf := ((getline s.chunkSizeStreambuf).getD ([], [])).2 } :=
    ⟨rfl, rfl, rfl, fun hs => ⟨hs.content, hline.trans hs.chunkSize⟩⟩
  unfold onChunkSize
  dsimp only
  split
  · exact Ends.error hrest _
  · split
    · exact Ends.found hrest
    split
    · exact Ends.tooLarge hrest
    · exact ends_onChunk hrest _ _

/-- **What the handler of a read that has succeeded can do.** -/
theorem ends_onRead (s : Session) (op : ReadOp) :
    Ends members config order s (s.onRead members config order op) := by
  cases op with
  | head => exact ends_onHead s _
  | content size => exact Ends.found (Prepared.refl s)
  | chunkSize => exact ends_onChunkSize s _
  | chunk size => exact Ends.reads (Prepared.refl s) (.chunkEnd 2) (by simp)
  | chunkEnd size => exact Ends.reads (Prepared.refl s) .chunkSize (by simp)

theorem Ends.fits (h : Ends members config order s s') (hs : s.Fits config) : s'.Fits config := by
  cases h with
  | error h ec => exact (logs_onError _ ec).fits (h.fits hs)
  | tooLarge h => exact (logs_payloadTooLarge _).fits (h.fits hs)
  | found h => exact (logs_findResource _).fits (h.fits hs)
  | terminate => exact hs.of_eq rfl rfl rfl
  | thrown h => exact (h.fits hs).of_eq rfl rfl rfl
  | reads h op hop => exact (h.fits hs).of_eq rfl rfl rfl

/-- A read puts no more into a buffer than there is room for. -/
theorem fits_receive (hs : s.Fits config) {op : ReadOp} {k : Completion UInt8 ErrorCode}
    (hk : s.AllowedRead config k op) : (s.receive k.data op).Fits config := by
  cases op with
  | head => exact ⟨hk.1, hs.chunkSize⟩
  | content size | chunk size =>
      have hle := hk.1
      have hcontent := hs.content
      refine ⟨?_, hs.chunkSize⟩
      simp only [receive, List.length_append]
      omega
  | chunkSize => exact ⟨hs.content, hk.1⟩
  | chunkEnd size => exact hs

theorem fits_complete (hs : s.Fits config) (lock : Bool) {k : Completion UInt8 ErrorCode}
    {op : ReadOp} (hop : s.reading = some op) (hk : s.AllowedRead config k op) :
    (s.complete members config order lock k).Fits config := by
  have hreceived : ({ s with reading := none }.receive k.data op).Fits config :=
    @fits_receive config { s with reading := none } (hs.of_eq rfl rfl rfl) op k
      (by cases op <;> exact hk)
  unfold complete
  rw [hop]
  dsimp only
  split
  · exact hreceived
  · cases k.ec with
    | some ec =>
        cases op with
        | chunkEnd size =>
            dsimp only [onReadError]
            unfold onErrorUnguarded
            split <;> exact hreceived.of_eq rfl rfl rfl
        | head | content size | chunkSize | chunk size => exact (logs_onError _ _).fits hreceived
    | none => exact (ends_onRead _ op).fits hreceived

theorem fits_onResponseSent (hs : s.Fits config) (closeConnectionAfterResponse lock : Bool)
    (ec : Option ErrorCode) :
    (s.onResponseSent members order closeConnectionAfterResponse lock ec).Fits config := by
  have hdone : ({ s with responding := false } : Session).Fits config := hs.of_eq rfl rfl rfl
  unfold onResponseSent
  dsimp only
  split
  · exact hs
  split
  · exact hdone
  split
  · exact (logs_onError _ _).fits hdone
  · split
    · exact hdone
    split
    · exact ⟨Nat.zero_le _, Nat.zero_le _⟩
    · exact hdone

end Session

variable {members config order}

/-- **The buffers are big enough** for what is put into them, whatever happens to the connection. -/
theorem Reachable.fits {s : Session} (h : Reachable members config order s) : s.Fits config := by
  refine Machine.Reach.invariant ?_ ?_ h
  · rintro s rfl
    exact ⟨Nat.zero_le _, Nat.zero_le _⟩
  · intro s a hs ha
    cases a with
    | complete lock k =>
        obtain ⟨op, hop, hk⟩ := ha
        exact Session.fits_complete hs lock hop hk
    | responseSent closeConnectionAfterResponse lock ec =>
        exact Session.fits_onResponseSent hs _ _ _

/-! ### What the handlers add to the log -/

variable {s s' : Session}

/-- The log is added to, but not by `std::bad_function_call`. -/
def ThrowsNoCall (s s' : Session) : Prop :=
  ∃ es, s'.log = s.log ++ es ∧ .thrown .badFunctionCall ∉ es

theorem Session.Logs.throwsNoCall (h : s.Logs s') : ThrowsNoCall s s' := by
  obtain ⟨es, responding, rfl, hes⟩ := h
  refine ⟨es, rfl, ?_⟩
  intro hmem
  cases hes _ hmem

theorem throwsNoCall_of_log (h : s'.log = s.log) : ThrowsNoCall s s' :=
  ⟨[], by rw [h, List.append_nil], List.not_mem_nil⟩

theorem ThrowsNoCall.of_log {t : Session} (h : ThrowsNoCall t s') (hlog : t.log = s.log) :
    ThrowsNoCall s s' := by
  obtain ⟨es, heq, hes⟩ := h
  exact ⟨es, by rw [heq, hlog], hes⟩

theorem ThrowsNoCall.log (h : ThrowsNoCall s s') : s.log <+: s'.log := by
  obtain ⟨es, hlog, -⟩ := h
  exact ⟨es, hlog.symm⟩

/-- What has been thrown is in the log. -/
theorem ThrowsNoCall.mem_iff (h : ThrowsNoCall s s') :
    .thrown .badFunctionCall ∈ s'.log ↔ .thrown .badFunctionCall ∈ s.log := by
  obtain ⟨es, hlog, hes⟩ := h
  rw [hlog, List.mem_append, or_iff_left hes]

/-- A read that has succeeded: a chunk may throw something else. -/
theorem throwsNoCall_onRead (s : Session) (op : ReadOp) :
    ThrowsNoCall s (s.onRead members config order op) := by
  have hends := @Session.ends_onRead members config order s op
  generalize s.onRead members config order op = s' at hends ⊢
  cases hends with
  | error h ec => exact (Session.logs_onError _ ec).throwsNoCall.of_log h.log
  | tooLarge h => exact (Session.logs_payloadTooLarge _).throwsNoCall.of_log h.log
  | found h => exact (Session.logs_findResource _).throwsNoCall.of_log h.log
  | terminate => exact ⟨[.terminate], rfl, by simp⟩
  | thrown h => exact ⟨[.thrown .lengthError], congrArg (· ++ [_]) h.log, by simp⟩
  | reads h op hop => exact throwsNoCall_of_log h.log

theorem throwsNoCall_onResponseSent (s : Session) (closeConnectionAfterResponse lock : Bool)
    (ec : Option ErrorCode) :
    ThrowsNoCall s (s.onResponseSent members order closeConnectionAfterResponse lock ec) := by
  unfold Session.onResponseSent
  dsimp only
  split
  · exact throwsNoCall_of_log rfl
  split
  · exact throwsNoCall_of_log rfl
  split
  · exact (Session.logs_onError { s with responding := false } _).throwsNoCall
  · split
    · exact throwsNoCall_of_log rfl
    split
    · exact throwsNoCall_of_log rfl
    · exact throwsNoCall_of_log rfl

/-- The completion of an outstanding read: its bytes are received, and its handler is told how it
ended. -/
theorem complete_eq {op : ReadOp} (hop : s.reading = some op) (lock : Bool)
    (k : Completion UInt8 ErrorCode) :
    ∃ t : Session, t.log = s.log ∧ s.complete members config order lock k =
      if lock = false then t
      else match k.ec with
        | some ec => t.onReadError members ec op
        | none => t.onRead members config order op := by
  refine ⟨{ s with reading := none }.receive k.data op, ?_, ?_⟩
  · cases op <;> rfl
  · unfold Session.complete
    rw [hop]
    cases lock <;> rfl

/-- Nothing is taken from the log. -/
theorem log_act (s : Session) (a : Act) : s.log <+: (act members config order s a).log := by
  cases a with
  | responseSent closeConnectionAfterResponse lock ec => exact (throwsNoCall_onResponseSent s _ _ _).log
  | complete lock k =>
      simp only [act]
      cases hop : s.reading with
      | none =>
          unfold Session.complete
          rw [hop]
      | some op =>
          obtain ⟨t, hlog, heq⟩ := @complete_eq members config order s op hop lock k
          rw [heq, ← hlog]
          split
          · exact List.prefix_rfl
          split
          · next ec _ =>
              cases op with
              | head | content size | chunkSize | chunk size =>
                  exact (@Session.logs_onError members t ec).throwsNoCall.log
              | chunkEnd size =>
                  unfold Session.onReadError Session.onErrorUnguarded
                  dsimp only
                  split
                  · exact List.prefix_append _ _
                  · exact List.prefix_append _ _
          · exact (throwsNoCall_onRead t op).log

/-! ### Streams and runs -/

/-- What is delivered is what a read may deliver. -/
theorem Session.deliver_allowed {s : Session} (hs : s.Fits config) {op : ReadOp}
    {pieces rest : List Bytes} {k : Completion UInt8 ErrorCode}
    (h : s.deliver config pieces op = some (k, rest)) : s.AllowedRead config k op := by
  cases op with
  | head => exact readUntil_obeys hs.content h
  | content size | chunk size | chunkEnd size =>
      obtain ⟨⟨data, rest'⟩, htake, heq⟩ := Option.map_eq_some_iff.1 h
      obtain ⟨rfl, rfl⟩ := Prod.mk.inj heq
      have hlen := (takeExactly_append htake).2
      exact ⟨hlen.le, fun _ => hlen⟩
  | chunkSize => exact readUntil_obeys hs.chunkSize h

theorem readStep_eq {s : Session} {op : ReadOp} (hop : s.reading = some op) {pieces rest : List Bytes}
    {k : Completion UInt8 ErrorCode} (h : s.deliver config pieces op = some (k, rest)) :
    readStep members config order (s, pieces) =
      some (s.complete members config order true k, rest) := by
  simp only [readStep, hop, Option.bind_some, h, Option.map_some]

theorem readStep_of_none {s : Session} (h : s.reading = none) (pieces : List Bytes) :
    readStep members config order (s, pieces) = none := by
  rw [readStep, h, Option.bind_none]

/-- An exact read for which there is room takes the bytes that are next. -/
theorem Session.deliver_exact {s : Session} {op : ReadOp} {data tail : Bytes}
    (hop : op = .content data.length ∨ op = .chunk data.length)
    (hroom : s.streambuf.length + data.length ≤ config.maxRequestStreambufSize.toNat)
    {pieces : List Bytes} (hpieces : pieces.flatten = data ++ tail) :
    ∃ pieces', pieces'.flatten = tail ∧ Leaves pieces data.length pieces' ∧
      s.deliver config pieces op = some (⟨none, data⟩, pieces') := by
  obtain ⟨pieces', htake, hrest⟩ := takeExactly_front hpieces
  have hread : (takeExactly pieces (min data.length
      (config.maxRequestStreambufSize.toNat - s.streambuf.length))).map
        (fun r => ((⟨none, r.1⟩ : Completion UInt8 ErrorCode), r.2)) =
          some (⟨none, data⟩, pieces') := by
    rw [min_eq_left (by omega), htake]
    rfl
  refine ⟨pieces', hrest, takeExactly_leaves htake, ?_⟩
  rcases hop with rfl | rfl
  · exact hread
  · exact hread

theorem Reachable.readStep {s : Session} (h : Reachable members config order s)
    {pieces : List Bytes} {q : Session × List Bytes}
    (hstep : ServerBase.readStep members config order (s, pieces) = some q) :
    Reachable members config order q.1 := by
  obtain ⟨op, hop, hdeliver⟩ := Option.bind_eq_some_iff.1 hstep
  obtain ⟨r, hr, rfl⟩ := Option.map_eq_some_iff.1 hdeliver
  have hallowed : Allowed config s (.complete true r.1) :=
    ⟨op, hop, Session.deliver_allowed h.fits hr⟩
  exact Machine.Reach.step h hallowed

theorem log_serveStep {p q : Session × List Bytes} (h : serveStep members config order p = some q) :
    p.1.log <+: q.1.log := by
  rcases Option.or_eq_some_iff.1 h with hread | ⟨-, hsent⟩
  · obtain ⟨op, -, hdeliver⟩ := Option.bind_eq_some_iff.1 hread
    obtain ⟨r, -, rfl⟩ := Option.map_eq_some_iff.1 hdeliver
    exact log_act p.1 (.complete true r.1)
  · split at hsent
    · obtain rfl := Option.some.inj hsent
      exact @log_act members {} order p.1 (.responseSent false true none)
    · cases hsent

/-- Whatever is served afterwards, the log stays. -/
theorem log_iterate (n : ℕ) (p : Session × List Bytes) :
    p.1.log <+: (Machine.iterate (serveStep members config order) n p).1.log := by
  refine @Machine.iterate_invariant _ (serveStep members config order)
    (fun q : Session × List Bytes => p.1.log <+: q.1.log) ?_ n _ List.prefix_rfl
  intro q r hq hstep
  exact hq.trans (log_serveStep hstep)

/-- **A connection to which a stream arrives stays among the reachable ones.** -/
theorem reachable_serve (n : ℕ) (pieces : List Bytes) :
    Reachable members config order (serve members config order n pieces).1 := by
  refine @Machine.iterate_invariant _ (serveStep members config order)
    (fun p : Session × List Bytes => Reachable members config order p.1) ?_ n _
    (Machine.Reach.init rfl)
  rintro ⟨s, pieces⟩ q hs hstep
  rcases Option.or_eq_some_iff.1 hstep with hread | ⟨-, hsent⟩
  · exact hs.readStep hread
  · split at hsent
    · obtain rfl := Option.some.inj hsent
      have hallowed : Allowed config s (.responseSent false true none) := trivial
      exact Machine.Reach.step hs hallowed
    · cases hsent

end SimpleWeb.ServerBase
