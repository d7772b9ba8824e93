/-
**The two sides of the handshake agree.**

The request that the client writes is parsed by the server, answered, and the answer is accepted by
the client, whatever the nonce, the digest function and the order in which either side iterates its
header fields.  In particular it does not matter that a digest with a zero byte is cut there: both
sides cut it.

Main definitions:

* `SimpleWeb.Token` — a string without space, carriage return and line feed;
* `SimpleWeb.Client.requestFields` — the fields of the request.

Main results:

* `SimpleWeb.Client.parse_writeRequest`, `SimpleWeb.Client.request_reads_back` — **the server reads back
  the request of the client**, as the parser has it and in terms of what was given to the client;
* `SimpleWeb.Client.accepts_answer`, `SimpleWeb.Client.refuses_answer` — the client accepts an answer
  to its key, and reports an error for a refusal;
* `SimpleWeb.handshake_agree` — **client and server agree**.
-/

import SimpleWeb.Upgrade

set_option relaxedAutoImplicit false
set_option autoImplicit false

namespace SimpleWeb

/-! ### Tokens and plain fields -/

/-- A string without space, carriage return and line feed. -/
structure Token (s : Bytes) : Prop where
  space : 32 ∉ s
  cr : 13 ∉ s
  lf : 10 ∉ s

instance : DecidablePred Token := fun s =>
  decidable_of_iff (32 ∉ s ∧ 13 ∉ s ∧ 10 ∉ s)
    ⟨fun ⟨h₁, h₂, h₃⟩ => ⟨h₁, h₂, h₃⟩, fun ⟨h₁, h₂, h₃⟩ => ⟨h₁, h₂, h₃⟩⟩

theorem Token.append {a b : Bytes} (ha : Token a) (hb : Token b) : Token (a ++ b) :=
  ⟨by simp [ha.space, hb.space], by simp [ha.cr, hb.cr], by simp [ha.lf, hb.lf]⟩

/-- A string of characters that are all greater than a space. -/
theorem Token.of_lt {s : Bytes} (h : ∀ b ∈ s, 32 < b) : Token s := by
  have hnot : ∀ b : UInt8, b ≤ 32 → b ∉ s := by
    intro b hb hmem
    exact absurd (h b hmem) (UInt8.not_lt.2 hb)
  exact ⟨hnot 32 UInt8.le_rfl, hnot 13 (by decide), hnot 10 (by decide)⟩

theorem token_toDecimal (n : ℕ) : Token (toDecimal n) := by
  apply Token.of_lt
  intro b hb
  exact UInt8.lt_of_lt_of_le (by decide) (mem_toDecimal hb).1

theorem token_encode (s : Bytes) : Token (Base64.encode s) := by
  have hdigits : ∀ v < 64, 32 < Base64.digit v := by decide +kernel
  apply Token.of_lt
  intro b hb
  rcases Base64.mem_encode hb with rfl | ⟨v, hv, rfl⟩
  · decide
  · exact hdigits v hv

/-- A field whose name can be written and whose value is a token. -/
theorem Token.plain {name value : Bytes} (h : Token value)
    (hname : 58 ∉ name ∧ 13 ∉ name ∧ 10 ∉ name) : HttpHeader.Plain (name, value) := by
  obtain ⟨hcolon, hcr, hlf⟩ := hname
  refine ⟨hcolon, hcr, hlf, h.cr, h.lf, ?_⟩
  intro hhead
  exact h.space (List.mem_of_mem_head? hhead)

/-- A value stays plain when a token is put behind it. -/
theorem HttpHeader.Plain.append {name value t : Bytes} (h : HttpHeader.Plain (name, value))
    (ht : Token t) : HttpHeader.Plain (name, value ++ t) := by
  refine ⟨h.colon_name, h.cr_name, h.lf_name, ?_, ?_, ?_⟩
  · simp [h.cr_value, ht.cr]
  · simp [h.lf_value, ht.lf]
  · cases value with
    | nil =>
        intro hhead
        exact ht.space (List.mem_of_mem_head? hhead)
    | cons b value => exact h.space_value

theorem writeFields_eq (fields : CaseInsensitiveMultimap) :
    writeFields fields ++ crlf = HttpHeader.fieldLines fields := by
  induction fields with
  | nil => rfl
  | cons f fields ih =>
      have hcons : HttpHeader.fieldLines (f :: fields) =
          f.1 ++ ascii ": " ++ f.2 ++ crlf ++ HttpHeader.fieldLines fields := by
        simp [HttpHeader.fieldLines, HttpHeader.unlines, HttpHeader.fieldLine, crlf]
      rw [hcons, ← ih]
      simp [writeFields]

namespace Client

/-! ### The request -/

/-- The fields of the request. -/
def requestFields (config : Config) (a : Address) (order : Order) (nonce : Nonce) :
    CaseInsensitiveMultimap :=
  (ascii "Host",
    a.host ++ if a.port ≠ a.defaultPort then ascii ":" ++ toDecimal a.port.toNat else []) ::
  (ascii "Upgrade", ascii "websocket") :: (ascii "Connection", ascii "Upgrade") ::
  (ascii "Sec-WebSocket-Key", nonceBase64 nonce) :: (ascii "Sec-WebSocket-Version", ascii "13") ::
  order.elements config.header

/-- The field that holds the nonce. -/
def IsKey (f : Bytes × Bytes) : Prop := Named (ascii "Sec-WebSocket-Key") f

instance (f : Bytes × Bytes) : Decidable (IsKey f) :=
  inferInstanceAs (Decidable (Named (ascii "Sec-WebSocket-Key") f))

section request

variable {config : Config} {plain : Bool} {a : Address} {order : Order} {nonce : Nonce}

theorem writeRequest_eq : writeRequest config plain a order nonce =
    RequestMessage.requestLine (ascii "GET") (correctedPath config plain a) (ascii "1.1") ++
      10 :: HttpHeader.fieldLines (requestFields config a order nonce) := by
  have hget : ascii "GET " = ascii "GET" ++ ascii " " := rfl
  have hhttp : ascii " HTTP/1.1" = ascii " HTTP/" ++ ascii "1.1" := rfl
  have hhost : ascii "Host: " = ascii "Host" ++ ascii ": " := rfl
  have hupgrade : ascii "Upgrade: websocket" =
    ascii "Upgrade" ++ ascii ": " ++ ascii "websocket" := rfl
  have hconnection : ascii "Connection: Upgrade" =
    ascii "Connection" ++ ascii ": " ++ ascii "Upgrade" := rfl
  have hkey : ascii "Sec-WebSocket-Key: " = ascii "Sec-WebSocket-Key" ++ ascii ": " := rfl
  have hversion : ascii "Sec-WebSocket-Version: 13" =
    ascii "Sec-WebSocket-Version" ++ ascii ": " ++ ascii "13" := rfl
  rw [← writeFields_eq]
  delta writeRequest
  simp only [RequestMessage.requestLine, requestFields, writeFields, crlf, hget,
    hhttp, hhost, hupgrade, hconnection, hkey, hversion, List.flatMap_cons, List.append_assoc,
    List.cons_append, List.nil_append]

theorem nonceBase64_eq (nonce : Nonce) : nonceBase64 nonce = Base64.encode nonce.1 :=
  base64Encode_eq (by rw [nonce.2]; omega)

theorem token_correctedPath (hhost : Token a.host) (hpath : Token a.path) :
    Token (correctedPath config plain a) := by
  have hhttp : Token (ascii "http://") := by decide
  have hcolon : Token (ascii ":") := by decide
  unfold correctedPath
  split
  · exact (((hhttp.append hhost).append hcolon).append (token_toDecimal _)).append hpath
  · exact hpath

theorem plain_requestFields (hhost : HttpHeader.Plain (ascii "Host", a.host))
    (hconfig : ∀ f ∈ config.header, HttpHeader.Plain f) :
    ∀ f ∈ requestFields config a order nonce, HttpHeader.Plain f := by
  have hport : Token (if a.port ≠ a.defaultPort then ascii ":" ++ toDecimal a.port.toNat
      else []) := by
    split
    · exact Token.append (by decide) (token_toDecimal _)
    · decide
  have hkey : Token (nonceBase64 nonce) := by
    rw [nonceBase64_eq]
    exact token_encode _
  intro f hf
  simp only [requestFields, List.mem_cons] at hf
  rcases hf with rfl | rfl | rfl | rfl | rfl | hf
  · exact hhost.append hport
  · decide
  · decide
  · exact hkey.plain (by decide)
  · decide
  · exact hconfig f (order.mem_elements.1 hf)

/-- The key is found, in whatever order the fields are iterated. -/
theorem findField_key (hconfig : ∀ f ∈ config.header, ¬ IsKey f) (order' : Order) :
    findField order' (requestFields config a order nonce) (ascii "Sec-WebSocket-Key") =
      some (ascii "Sec-WebSocket-Key", nonceBase64 nonce) := by
  apply findField_eq_some
  · exact List.mem_of_getElem? (show (requestFields config a order nonce)[3]? = _ from rfl)
  · exact named_self _ _
  · intro f hf hname
    simp only [requestFields, List.mem_cons] at hf
    rcases hf with rfl | rfl | rfl | rfl | rfl | hf
    · exact absurd hname (not_named (by decide) _)
    · exact absurd hname (not_named (by decide) _)
    · exact absurd hname (not_named (by decide) _)
    · rfl
    · exact absurd hname (not_named (by decide) _)
    · exact absurd hname (hconfig f (order.mem_elements.1 hf))

/-- The request ends where its head ends. -/
theorem endOfHead_writeRequest (htarget : Token (correctedPath config plain a))
    (hhost : HttpHeader.Plain (ascii "Host", a.host))
    (hconfig : ∀ f ∈ config.header, HttpHeader.Plain f) :
    endOfHead (writeRequest config plain a order nonce) =
      some (writeRequest config plain a order nonce).length := by
  have hcr : 13 ∉ ascii "GET" ++ ascii " " ++ correctedPath config plain a ++ ascii " HTTP/" ++
      ascii "1.1" := by
    have hget : (13 : UInt8) ∉ ascii "GET" ++ ascii " " := by decide
    have hhttp : (13 : UInt8) ∉ ascii " HTTP/" ++ ascii "1.1" := by decide
    rw [List.append_assoc _ (ascii " HTTP/"), List.mem_append, List.mem_append]
    simp [hget, hhttp, htarget.cr]
  rw [writeRequest_eq]
  exact endOfHead_line hcr (plain_requestFields hhost hconfig)

/-- **The server reads back the request of the client.** -/
theorem parse_writeRequest (htarget : Token (correctedPath config plain a))
    (hhost : HttpHeader.Plain (ascii "Host", a.host))
    (hconfig : ∀ f ∈ config.header, HttpHeader.Plain f) :
    RequestMessage.parse (writeRequest config plain a order nonce) {} =
      .ok (true, ⟨ascii "GET", RequestMessage.pathOf (correctedPath config plain a),
        RequestMessage.queryOf (correctedPath config plain a), ascii "1.1",
        requestFields config a order nonce⟩, []) := by
  obtain ⟨hmark, query, hsplit, hquery⟩ := RequestMessage.exists_target (correctedPath config plain a)
  have hfields := HttpHeader.parse_fields
    (@plain_requestFields config a order nonce hhost hconfig) []
  rw [List.append_nil] at hfields
  have hspace := htarget.space
  have hlf := htarget.lf
  rw [hsplit] at hspace hlf
  have hparse := RequestMessage.parse_request (show 32 ∉ ascii "GET" ∧ 10 ∉ ascii "GET" by decide)
    hmark ⟨hspace, hlf⟩ (show 10 ∉ ascii "1.1" by decide) hfields {}
  rw [← hsplit] at hparse
  rw [writeRequest_eq, hparse, hquery]

/-- **The request of the client as the server has it.**  Without a proxy, the path and the query are
those of the client's path, and the fields are those that have been written. -/
theorem request_reads_back (hproxy : config.proxyServer = [] ∨ plain = false)
    (hhost : 13 ∉ a.host ∧ 10 ∉ a.host ∧ a.host.head? ≠ some 32) (hpath : Token a.path)
    (hconfig : ∀ f ∈ config.header, HttpHeader.Plain f) :
    ∃ request, RequestMessage.parse (writeRequest config plain a order nonce) {} =
        .ok (true, request, []) ∧
      request.method = ascii "GET" ∧ request.version = ascii "1.1" ∧
      request.path = a.path.takeWhile (· ≠ 63) ∧
      request.queryString = (a.path.dropWhile (· ≠ 63)).drop 1 ∧
      request.header.Perm
        ((ascii "Host", a.host ++
            if a.port ≠ a.defaultPort then ascii ":" ++ toDecimal a.port.toNat else []) ::
          (ascii "Upgrade", ascii "websocket") :: (ascii "Connection", ascii "Upgrade") ::
          (ascii "Sec-WebSocket-Key", nonceBase64 nonce) ::
          (ascii "Sec-WebSocket-Version", ascii "13") :: config.header) := by
  have htarget : correctedPath config plain a = a.path := by
    rw [correctedPath, if_neg]
    rintro ⟨hne, rfl⟩
    rcases hproxy with h | h
    · exact hne h
    · cases h
  have hname : 58 ∉ ascii "Host" ∧ 13 ∉ ascii "Host" ∧ 10 ∉ ascii "Host" := by decide
  have hplain : HttpHeader.Plain (ascii "Host", a.host) :=
    ⟨hname.1, hname.2.1, hname.2.2, hhost.1, hhost.2.1, hhost.2.2⟩
  have hparse := @parse_writeRequest config plain a order nonce (by rwa [htarget]) hplain hconfig
  rw [htarget] at hparse
  refine ⟨_, hparse, rfl, rfl, rfl, rfl, ?_⟩
  have hperm : (order.elements config.header).Perm config.header := order.2 _
  exact ((((hperm.cons _).cons _).cons _).cons _).cons _

/-- A host with a space in it, two question marks, and a field without a value. -/
theorem request_reads_back_marks :
    ∃ request, RequestMessage.parse (writeRequest { header := [(ascii "X", [])] } true
        ⟨ascii "local host", 8080, 80, ascii "/chat?room=1?2"⟩ .insertion sampleNonce) {} =
          .ok (true, request, []) ∧
      request.path = ascii "/chat" ∧ request.queryString = ascii "room=1?2" ∧
      (ascii "X", []) ∈ request.header := by
  obtain ⟨request, hparse, -, -, hpath, hquery, hheader⟩ := @request_reads_back
    { header := [(ascii "X", [])] } true
    ⟨ascii "local host", 8080, 80, ascii "/chat?room=1?2"⟩ .insertion sampleNonce (Or.inl rfl)
    (by decide) (by decide) (by decide)
  refine ⟨request, hparse, hpath.trans (by decide), hquery.trans (by decide), ?_⟩
  rw [hheader.mem_iff]
  simp

end request

/-! ### The answer -/

section answer

variable {callbacks : Callbacks} {config : Server.Config} {sha1 : Bytes → Digest}
  {beyond beyond' : Bytes} {order order' : Order} {rd : ℕ → Mask} {nonce : Nonce}
  {endpoint : Server.Endpoint} {request : RequestMessage} {name key : Bytes}

theorem plain_responseHeader (hplain : ∀ f ∈ config.header, HttpHeader.Plain f) :
    ∀ f ∈ Server.responseHeader config sha1 beyond key, HttpHeader.Plain f := by
  intro f hf
  simp only [Server.responseHeader, emplace, List.append_assoc, List.mem_append,
    List.mem_singleton, base64Encode_hexString] at hf
  rcases hf with hf | rfl | rfl | rfl
  · exact hplain f hf
  · decide
  · decide
  · exact (token_encode _).plain (by decide)

/-- The accept field is found, in whatever order the fields are iterated. -/
theorem findField_responseHeader (hconfig : ∀ f ∈ config.header, ¬ IsAccept f) :
    findField order' (order.elements (Server.responseHeader config sha1 beyond key))
        (ascii "Sec-WebSocket-Accept") =
      some (ascii "Sec-WebSocket-Accept",
        Base64.encode (hexString (sha1 (key ++ wsMagicString)) beyond)) := by
  apply findField_eq_some
  · rw [order.mem_elements]
    simp [Server.responseHeader, emplace, base64Encode_hexString]
  · exact named_self _ _
  · intro f hf haccept
    exact Server.eq_of_isAccept hconfig (order.mem_elements.1 hf) haccept

/-- The answer to a request that holds a key, as it is written. -/
theorem answer_eq
    (hkey : findField order request.header (ascii "Sec-WebSocket-Key") = some (name, key))
    (hhandshake : endpoint.onHandshake = none) :
    Server.answer config sha1 beyond order endpoint request =
      ⟨endpoint, .informationSwitchingProtocols, Server.responseHeader config sha1 beyond key,
        ResponseMessage.statusLine (ascii "1.1") (ascii "101 Web Socket Protocol Handshake") ++ 10 ::
          HttpHeader.fieldLines
            (order.elements (Server.responseHeader config sha1 beyond key))⟩ := by
  have hline : ascii "HTTP/1.1 101 Web Socket Protocol Handshake" =
      ascii "HTTP/" ++ ascii "1.1" ++ ascii " " ++ ascii "101 Web Socket Protocol Handshake" := rfl
  rw [← writeFields_eq]
  simp [Server.answer, hkey, hhandshake, ResponseMessage.statusLine, hline, crlf]

/-- **The client accepts the answer to its key**, and nothing is left behind it. -/
theorem accepts_answer
    (hkey : findField order request.header (ascii "Sec-WebSocket-Key") =
      some (name, nonceBase64 nonce))
    (hhandshake : endpoint.onHandshake = none)
    (hplain : ∀ f ∈ config.header, HttpHeader.Plain f)
    (hconfig : ∀ f ∈ config.header, ¬ IsAccept f) {a : Server.Answer}
    (ha : Server.answer config sha1 beyond order endpoint request = a) :
    a.statusCode = .informationSwitchingProtocols ∧
      endOfHead a.streambuf = some a.streambuf.length ∧
      onResponse callbacks sha1 beyond' order' rd nonce a.streambuf a.streambuf.length =
        .ok (opened callbacks rd [] 0) := by
  have hfields : ∀ f ∈ order.elements (Server.responseHeader config sha1 beyond
      (nonceBase64 nonce)), HttpHeader.Plain f := by
    intro f hf
    exact plain_responseHeader hplain f (order.mem_elements.1 hf)
  rw [answer_eq hkey hhandshake] at ha
  subst ha
  refine ⟨rfl, ?_, ?_⟩
  · -- the head ends where the answer does
    exact endOfHead_line (by decide) hfields
  · have hparse := HttpHeader.parse_fields hfields []
    rw [List.append_nil] at hparse
    have hresponse := @ResponseMessage.parse_response (ascii "1.1")
      (ascii "101 Web Socket Protocol Handshake") (by decide) (by decide) _ _ _ hparse {}
    have hlen := length_hexString (sha1 (nonceBase64 nonce ++ wsMagicString)) beyond
    have hdecode := @base64Decode_encode
      (hexString (sha1 (nonceBase64 nonce ++ wsMagicString)) beyond) (by omega)
    have h101 : ascii "101 " <+: ascii "101 Web Socket Protocol Handshake" := by decide
    have hopen := fun n => @onResponse_open callbacks sha1 beyond' order' rd nonce _ _ n _ _
      hresponse h101 (findField_responseHeader hconfig) _ hdecode (cString_hexString _ _)
    exact (hopen _).trans (by rw [Nat.sub_self])

/-- **A refusal is an error at the client**, whatever status `on_handshake` has given. -/
theorem refuses_answer
    (h : (Server.answer config sha1 beyond order endpoint request).statusCode ≠
      .informationSwitchingProtocols) {a : Server.Answer}
    (ha : Server.answer config sha1 beyond order endpoint request = a) :
    endOfHead a.streambuf = some a.streambuf.length ∧
      CallsError callbacks
        (onResponse callbacks sha1 beyond' order' rd nonce a.streambuf a.streambuf.length) := by
  have hstreambuf := Server.answer_refused h
  rw [ha] at h hstreambuf
  obtain ⟨hcr, hlf⟩ := crlf_not_mem_statusCode a.statusCode
  have heq : a.streambuf = ResponseMessage.statusLine (ascii "1.1") (statusCode a.statusCode) ++
      10 :: HttpHeader.fieldLines [] := by
    have hline : ascii "HTTP/1.1 " = ascii "HTTP/" ++ ascii "1.1" ++ ascii " " := rfl
    rw [hstreambuf]
    simp [ResponseMessage.statusLine, HttpHeader.fieldLines, HttpHeader.unlines, hline, crlf]
  have hparse := @HttpHeader.parse_fields [] (by simp) []
  rw [List.append_nil] at hparse
  have hresponse := @ResponseMessage.parse_response (ascii "1.1") (statusCode a.statusCode)
    (by decide) hlf _ _ _ hparse {}
  rw [heq]
  constructor
  · have hversion : (13 : UInt8) ∉ ascii "HTTP/" ++ ascii "1.1" ++ ascii " " := by decide
    refine endOfHead_line ?_ (by simp)
    rw [List.mem_append]
    exact not_or.2 ⟨hversion, hcr⟩
  · exact callsError_of_refused hresponse fun _ h101 => h (eq_of_prefix_statusCode h101)

end answer

end Client

/-! ### Agreement -/

/-- **Client and server agree on the handshake.**  The request of the client is read to its end, and
the answer of the first endpoint that matches, if it has no `on_handshake`, is accepted by the client
with no bytes left over.  Then the connection is open on both sides. -/
theorem handshake_agree {clientConfig : Client.Config} {serverConfig : Server.Config}
    {a : Client.Address} (hhost : Token a.host) (hpath : Token a.path)
    (hclient : ∀ f ∈ clientConfig.header, HttpHeader.Plain f ∧ ¬ Client.IsKey f)
    (hserver : ∀ f ∈ serverConfig.header, HttpHeader.Plain f ∧ ¬ IsAccept f)
    (plain : Bool) (sha1 : Bytes → Digest) (nonce : Client.Nonce) (callbacks : Callbacks)
    (rd : ℕ → Mask) (endpoints : List Server.Endpoint) (clientOrder serverOrder : Order)
    (clientBeyond serverBeyond : Bytes) {bytes : Bytes}
    (hbytes : Client.writeRequest clientConfig plain a clientOrder nonce = bytes) :
    ∃ request, endOfHead bytes = some bytes.length ∧
      RequestMessage.parse bytes {} = .ok (true, request, []) ∧
      ∀ endpoint, (endpoints.find? fun e => e.regexMatch request.path) = some endpoint →
        endpoint.onHandshake = none →
        ∃ answer, Server.writeHandshake serverConfig sha1 serverBeyond serverOrder endpoints request =
            some answer ∧
          answer.statusCode = .informationSwitchingProtocols ∧
          Server.onRequest serverConfig sha1 serverBeyond serverOrder endpoints true none bytes =
            .ok (some answer, []) ∧
          Server.onWritten answer [] true none = Server.opened endpoint.callbacks [] ∧
          endOfHead answer.streambuf = some answer.streambuf.length ∧
          Client.upgrade callbacks sha1 clientBeyond clientOrder rd nonce true true none none
            answer.streambuf answer.streambuf.length = .ok (Client.opened callbacks rd [] 0) := by
  subst hbytes
  have htarget := @Client.token_correctedPath clientConfig plain a hhost hpath
  have hhostField : HttpHeader.Plain (ascii "Host", a.host) := hhost.plain (by decide)
  have hfields : ∀ f ∈ clientConfig.header, HttpHeader.Plain f := fun f hf => (hclient f hf).1
  obtain ⟨request, hheader, hparse⟩ : ∃ request : RequestMessage, request.header =
      Client.requestFields clientConfig a clientOrder nonce ∧
      RequestMessage.parse (Client.writeRequest clientConfig plain a clientOrder nonce) {} =
        .ok (true, request, []) :=
    ⟨_, rfl, Client.parse_writeRequest htarget hhostField hfields⟩
  refine ⟨request, Client.endOfHead_writeRequest htarget hhostField hfields, hparse, ?_⟩
  intro endpoint hfind hhandshake
  have hkey := @Client.findField_key clientConfig a clientOrder nonce
    (fun f hf => (hclient f hf).2) serverOrder
  rw [← hheader] at hkey
  have hwrite : Server.writeHandshake serverConfig sha1 serverBeyond serverOrder endpoints request =
      some (Server.answer serverConfig sha1 serverBeyond serverOrder endpoint request) := by
    rw [Server.writeHandshake, hfind]
    rfl
  obtain ⟨hstatus, hhead, hopen⟩ := @Client.accepts_answer callbacks serverConfig sha1 serverBeyond
    clientBeyond serverOrder clientOrder rd nonce endpoint request _ hkey hhandshake
    (fun f hf => (hserver f hf).1) (fun f hf => (hserver f hf).2) _ rfl
  refine ⟨_, hwrite, hstatus, ?_, ?_, hhead, hopen⟩
  · simp only [Server.onRequest, Bool.not_true, Bool.false_eq_true, if_false, hparse, ok_bind,
      if_true, hwrite, pure_eq_ok]
  · simp [Server.onWritten, hstatus, Server.opened]

/-! #### One handshake -/

def chatAddress : Client.Address := ⟨ascii "localhost", 8080, 80, ascii "/chat?room=1"⟩

def chatClient : Client.Config := { header := [(ascii "User-Agent", ascii "chat client")] }

def chatServer : Server.Config := { header := [(ascii "Server", ascii "chat server")] }

/-- The digest of this nonce has a zero byte in it. -/
theorem handshake_agree_chat : ∃ request answer,
    RequestMessage.parse (Client.writeRequest chatClient true chatAddress .insertion
      Client.sampleNonce) {} = .ok (true, request, []) ∧
    Server.writeHandshake chatServer calcSha1 [] .insertion [Server.sampleEndpoint] request =
      some answer ∧
    Client.upgrade {} calcSha1 [] .insertion (fun _ _ => 0) Client.sampleNonce true true none none
      answer.streambuf answer.streambuf.length = .ok (Client.opened {} (fun _ _ => 0) [] 0) := by
  obtain ⟨request, -, hparse, hanswer⟩ := @handshake_agree chatClient chatServer chatAddress
    (by decide) (by decide) (by decide) (by decide) true calcSha1 Client.sampleNonce {}
    (fun _ _ => 0) [Server.sampleEndpoint] .insertion .insertion [] [] _ rfl
  obtain ⟨answer, hwrite, -, -, -, -, hopen⟩ := hanswer Server.sampleEndpoint rfl rfl
  exact ⟨request, answer, hparse, hwrite, hopen⟩

end SimpleWeb
