/-
**Requests that follow each other on a connection.**

A connection that is kept serves one request after another.  The client need not wait for the response
to a request before it sends the next one, so a read of a head may take bytes of later requests along
with it.  Those bytes stay in the buffer, and the buffer is the content of the request; the next session
begins with an empty one.  So the content of the request is too long, and the bytes are lost to the
requests they belong to.

Main definitions:

* `SimpleWeb.HttpRequest` — a request as it is sent, which keeps the connection;
* `SimpleWeb.KeepsApart` — no read of a head takes bytes of later requests.

Main results:

* `SimpleWeb.ServerBase.leads_request` — a request is served, and the next session begins;
* `SimpleWeb.ServerBase.pipelining_iff` — **when exactly all requests are served as they were sent**;
* `SimpleWeb.ServerBase.pipelining_swallowed` — two requests that arrive together.
-/

import SimpleWeb.RequestHead

set_option relaxedAutoImplicit false
set_option autoImplicit false

namespace SimpleWeb

/-! ### Requests -/

/-- The header announces the size of the content, once and in decimal digits. -/
def Announces (header : CaseInsensitiveMultimap) (size : ℕ) : Prop :=
  ∃ f ∈ header, Named (ascii "Content-Length") f ∧
    (∀ g ∈ header, Named (ascii "Content-Length") g → g = f) ∧
    f.2 ≠ [] ∧ (∀ c ∈ f.2, isDigit 10 c = true) ∧ digitsValue 10 f.2 = size

/-- A request as it is sent: a head, with what it says, and a body.  It keeps the connection, it asks
for no other protocol, and if it has a body its size is announced. -/
structure HttpRequest where
  head : Bytes
  message : RequestMessage
  body : Bytes
  requestHead : RequestHead head message
  version : message.version = ascii "1.1"
  no_close : ∀ f ∈ message.header, Named (ascii "Connection") f →
    caseInsensitiveEqual f.2 (ascii "close") = false
  no_upgrade : ∀ f ∈ message.header, ¬ Named (ascii "Upgrade") f
  no_transferEncoding : ∀ f ∈ message.header, ¬ Named (ascii "Transfer-Encoding") f
  framed : body = [] ∧ (∀ f ∈ message.header, ¬ Named (ascii "Content-Length") f) ∨
    Announces message.header body.length

def HttpRequest.encode (r : HttpRequest) : Bytes := r.head ++ r.body

/-- The head of a request fits into the buffer, and the read that takes it takes no bytes of later
requests.  The request begins at the given position; the buffer is full before its end, or a piece ends
between the end of its head and its end. -/
def HttpRequest.ReadAlone (r : HttpRequest) (maxSize : ℕ) (pieces : List Bytes) (start : ℕ) : Prop :=
  r.head.length ≤ maxSize ∧
    (maxSize ≤ r.encode.length ∨ ∃ n, EndsAt pieces n ∧ start + r.head.length ≤ n ∧
      n ≤ start + r.encode.length)

/-- The reads of the heads take no bytes of later requests. -/
def KeepsApart (maxSize : ℕ) (pieces : List Bytes) : ℕ → List HttpRequest → Prop
  | _, [] => True
  | start, r :: requests =>
      r.ReadAlone maxSize pieces start ∧
        KeepsApart maxSize pieces (start + r.encode.length) requests

theorem HttpRequest.length_encode (r : HttpRequest) :
    r.encode.length = r.head.length + r.body.length :=
  List.length_append

/-- What is left of the pieces ends where they did. -/
theorem readAlone_leaves {pieces rest : List Bytes} {n : ℕ} (h : Leaves pieces n rest)
    (r : HttpRequest) (maxSize start : ℕ) :
    r.ReadAlone maxSize rest start ↔ r.ReadAlone maxSize pieces (n + start) := by
  have hpos := r.requestHead.length_pos
  refine and_congr_right fun _ => or_congr_right ?_
  constructor
  · rintro ⟨m, hm, hge, hle⟩
    exact ⟨n + m, (h m (by omega)).1 hm, by omega, by omega⟩
  · rintro ⟨m, hm, hge, hle⟩
    obtain ⟨k, rfl⟩ := Nat.exists_eq_add_of_le (show n ≤ m by omega)
    exact ⟨k, (h k (by omega)).2 hm, by omega, by omega⟩

theorem keepsApart_leaves {pieces rest : List Bytes} {n : ℕ} (h : Leaves pieces n rest)
    (maxSize start : ℕ) (requests : List HttpRequest) :
    KeepsApart maxSize rest start requests ↔ KeepsApart maxSize pieces (n + start) requests := by
  induction requests generalizing start with
  | nil => exact Iff.rfl
  | cons r requests ih => rw [KeepsApart, KeepsApart, readAlone_leaves h, ih, Nat.add_assoc]

namespace ServerBase

/-- The function that is called, and with what. -/
def Event.called? : Event → Option (ResourceFunction × RequestMessage × Bytes)
  | .resource f request content => some (f, request, content)
  | _ => none

/-- The calls of resource functions. -/
def Session.called (s : Session) : List (ResourceFunction × RequestMessage × Bytes) :=
  s.log.filterMap Event.called?

variable {members : Members} {config : Config} {order : Order} {s : Session} {r : HttpRequest}
  {f : ResourceFunction} {pieces rest : List Bytes} {log : List Event}

/-! ### One request -/

/-- The connection is kept. -/
theorem keepAlive_request (r : HttpRequest) : Session.keepAlive order r.message = true := by
  unfold Session.keepAlive
  dsimp only
  split
  · next f hfind =>
      obtain ⟨hf, hname⟩ := List.mem_filter.1 (List.mem_of_find?_eq_some hfind)
      have hclose := r.no_close f (order.mem_elements.1 hf) (by simpa using hname)
      rw [hclose]
      rfl
  · rw [r.version]
    decide

/-- The content is read as far as it is missing. -/
theorem onParsed_request (hbody : r.body.length ≤ config.maxRequestStreambufSize.toNat)
    (hrequest : s.request = r.message) (n : ℕ) :
    s.onParsed members config order n =
      if n < r.body.length then { s with reading := some (.content (r.body.length - n)) }
      else s.findResource members order := by
  have hmax := config.maxRequestStreambufSize.toNat_lt
  have hencoding := findField_eq_none order r.no_transferEncoding
  unfold Session.onParsed
  rw [hrequest]
  rcases r.framed with ⟨hempty, hnone⟩ | ⟨g, hg, hname, honly, hne, hdigits, hvalue⟩
  · rw [findField_eq_none order hnone, hempty, List.length_nil, if_neg (Nat.not_lt_zero n)]
    dsimp only
    rw [hencoding]
  · have hsize := @strtoull_digits 10 (by decide) _ hne hdigits (by omega) [] nofun
    rw [List.append_nil, hvalue] at hsize
    have hnat : (UInt64.ofNat r.body.length).toNat = r.body.length := by
      rw [UInt64.toNat_ofNat', Nat.mod_eq_of_lt (by omega)]
    rw [findField_eq_some order hg hname honly]
    dsimp only
    rw [hsize]
    dsimp only
    rw [hnat, if_neg (by omega)]

/-- The function is called, and there is a response to be sent. -/
theorem findResource_function {request : RequestMessage} (hrequest : s.request = request)
    (hupgrade : ∀ f ∈ request.header, ¬ Named (ascii "Upgrade") f)
    (hf : members.function request = some f) :
    ∃ es, s.findResource members order =
        { s with log := s.log ++ es, responding := true } ∧
      es.filterMap Event.called? = [(f, request, s.streambuf)] := by
  have hnot := findField_eq_none order hupgrade
  obtain ⟨es, heq, hes⟩ :=
    @Session.write_eq members (s.emit (.findResource s.request s.streambuf)) f
  have hnone : es.filterMap Event.called? = [] := by
    refine List.filterMap_eq_nil_iff.2 ?_
    intro e he
    rw [hes e he]
    rfl
  refine ⟨.findResource s.request s.streambuf :: .resource f s.request s.streambuf :: es, ?_, ?_⟩
  · unfold Session.findResource
    have hfunction : members.function (s.emit (.findResource s.request s.streambuf)).request =
        some f := by
      rw [← hf, ← hrequest]
      rfl
    have hkeep : findField order (s.emit (.findResource s.request s.streambuf)).request.header
        (ascii "Upgrade") = none := by
      rw [← hnot, ← hrequest]
      rfl
    simp only [hfunction, hkeep, Option.isSome_none, Bool.false_eq_true, and_false, if_false, heq]
    simp [Session.emit]
  · rw [← hrequest]
    exact congrArg (_ :: ·) hnone

/-- The response is sent, and the next session begins. -/
theorem leads_findResource {request : RequestMessage} (hrequest : s.request = request)
    (hreading : s.reading = none) (hkeep : Session.keepAlive order request = true)
    (hupgrade : ∀ f ∈ request.header, ¬ Named (ascii "Upgrade") f)
    (hf : members.function request = some f) :
    ∃ es, es.filterMap Event.called? = [(f, request, s.streambuf)] ∧
      Machine.Leads (serveStep members config order) (s.findResource members order, pieces)
        (({ log := s.log ++ es } : Session).read, pieces) := by
  obtain ⟨es, heq, hcalled⟩ :=
    @findResource_function members order s f request hrequest hupgrade hf
  refine ⟨es, hcalled, Machine.Leads.one ?_⟩
  have hnone : readStep members config order (s.findResource members order, pieces) = none := by
    rw [heq, readStep, show ({ s with log := s.log ++ es, responding := true } : Session).reading =
      none from hreading, Option.bind_none]
  rw [serveStep, hnone, Option.none_or, heq, if_pos rfl]
  unfold Session.onResponseSent
  simp only [Bool.not_true, Bool.false_eq_true, if_false, hrequest, hkeep, if_true]

/-- A step that reads. -/
theorem serveStep_of_readStep {p q : Session × List Bytes}
    (h : readStep members config order p = some q) : serveStep members config order p = some q := by
  rw [serveStep, h, Option.some_or]

/-- The missing part of the content is read. -/
theorem readStep_content {data tail : Bytes}
    (hreading : s.reading = some (.content data.length))
    (hroom : s.streambuf.length + data.length ≤ config.maxRequestStreambufSize.toNat)
    (hpieces : pieces.flatten = data ++ tail) :
    ∃ pieces', pieces'.flatten = tail ∧ Leaves pieces data.length pieces' ∧
      readStep members config order (s, pieces) =
        some ({ s with reading := none, streambuf := s.streambuf ++ data }.findResource members order,
          pieces') := by
  obtain ⟨pieces', hrest, hleaves, hdeliver⟩ := @Session.deliver_exact config s _ data tail
    (Or.inl rfl) hroom _ hpieces
  refine ⟨pieces', hrest, hleaves, ?_⟩
  rw [readStep_eq hreading hdeliver]
  unfold Session.complete
  rw [hreading]
  rfl

/-- **A request is served, and the next session begins.**  If its head is read without bytes of later
requests, its content is what was sent, and the next request is at the front of what is left; otherwise
its content is something else. -/
theorem leads_request (hbody : r.body.length ≤ config.maxRequestStreambufSize.toNat)
    (hf : members.function r.message = some f)
    (hhead : r.head.length ≤ config.maxRequestStreambufSize.toNat) {tail : Bytes}
    (hpieces : pieces.flatten = r.encode ++ tail) :
    ∃ content es pieces', es.filterMap Event.called? = [(f, r.message, content)] ∧
      Machine.Leads (serveStep members config order) (({ log } : Session).read, pieces)
        (({ log := log ++ es } : Session).read, pieces') ∧
      (r.ReadAlone config.maxRequestStreambufSize.toNat pieces 0 → content = r.body ∧
        pieces'.flatten = tail ∧ Leaves pieces r.encode.length pieces') ∧
      (¬ r.ReadAlone config.maxRequestStreambufSize.toNat pieces 0 → content ≠ r.body) := by
  rw [HttpRequest.encode, List.append_assoc] at hpieces
  obtain ⟨surplus, rest, hread, hflat, hmax⟩ := readUntil_whole r.requestHead.whole hhead hpieces
  have hparsed := @readStep_head _ _ members config order log r.requestHead _ _ _ hread
  rw [onParsed_request hbody rfl] at hparsed
  -- whether the read took bytes of later requests
  have hend : endOf (crlf ++ crlf) ([] ++ pieces.flatten) = some r.head.length := by
    rw [List.nil_append, hpieces]
    exact r.requestHead.endOf_eq _
  have halone : r.ReadAlone config.maxRequestStreambufSize.toNat pieces 0 ↔
      surplus.length ≤ r.body.length := by
    have hiff := @readUntil_length_le_iff _ _ _ _ _ _ _ _ _ _ _ hend hhead (Nat.zero_le _)
      (by decide) hread r.encode.length
    simp only [List.nil_append, List.length_nil, Nat.zero_add, List.length_append,
      r.length_encode] at hiff
    rw [HttpRequest.ReadAlone, and_iff_right hhead, r.length_encode]
    simp only [Nat.zero_add]
    rw [← hiff]
    omega
  have hleaves := readUntil_leaves hread
  rw [halone]
  by_cases hmissing : surplus.length < r.body.length
  · -- a part of the content is missing
    obtain ⟨data, hdata⟩ : surplus <+: r.body := by
      refine List.prefix_of_prefix_length_le ?_ (List.prefix_append r.body tail) hmissing.le
      rw [← hflat]
      exact List.prefix_append _ _
    have hlen : r.body.length - surplus.length = data.length := by
      rw [← hdata, List.length_append, Nat.add_sub_cancel_left]
    rw [← hdata, List.append_assoc] at hflat
    rw [if_pos hmissing, hlen] at hparsed
    obtain ⟨pieces', hrest, hleaves', hcontent⟩ := @readStep_content members config order
      { log, request := r.message, streambuf := surplus, reading := some (.content data.length) }
      rest data tail rfl (by dsimp only; omega) (List.append_cancel_left hflat)
    obtain ⟨es, hcalled, hfound⟩ := @leads_findResource members config order
      { log, request := r.message, streambuf := surplus ++ data } f pieces' _ rfl rfl
      (keepAlive_request r) r.no_upgrade hf
    refine ⟨_, es, pieces', hcalled, (Machine.Leads.one (serveStep_of_readStep hparsed)).trans
      ((Machine.Leads.one (serveStep_of_readStep hcontent)).trans hfound), ?_, ?_⟩
    · intro _
      refine ⟨hdata, hrest, ?_⟩
      have htrans := hleaves.trans hleaves'
      rw [← List.length_append, List.append_assoc, hdata] at htrans
      exact htrans
    · intro hnot
      exact absurd hmissing.le hnot
  · rw [if_neg hmissing] at hparsed
    obtain ⟨es, hcalled, hfound⟩ := @leads_findResource members config order
      { log, request := r.message, streambuf := surplus } f rest _ rfl rfl (keepAlive_request r)
      r.no_upgrade hf
    refine ⟨_, es, rest, hcalled, (Machine.Leads.one (serveStep_of_readStep hparsed)).trans hfound,
      ?_, ?_⟩
    · intro hle
      obtain ⟨rfl, htail⟩ := List.append_inj hflat (by omega)
      exact ⟨rfl, htail, hleaves⟩
    · rintro hnot rfl
      exact hnot le_rfl

/-! ### All requests -/

/-- The read of a head that fails is the last one, and no function is called. -/
theorem leads_failed {ec : ErrorCode} {data : Bytes}
    (hread : readUntil (crlf ++ crlf) config.maxRequestStreambufSize.toNat ErrorCode.notFound []
      pieces = some (⟨some ec, data⟩, rest)) :
    ∃ s', Machine.Leads (serveStep members config order) (({ log } : Session).read, pieces)
        (s', rest) ∧
      serveStep members config order (s', rest) = none ∧
      s'.called = log.filterMap Event.called? := by
  have hdeliver : ({ log } : Session).read.deliver config pieces .head =
      some (⟨some ec, data⟩, rest) := hread
  have hstep := @readStep_eq members config order _ _ rfl _ _ _ hdeliver
  have hcomplete : ({ log } : Session).read.complete members config order true ⟨some ec, data⟩ =
      ({ log, streambuf := data } : Session).onError members ec := rfl
  rw [hcomplete] at hstep
  refine ⟨_, Machine.Leads.one (serveStep_of_readStep hstep), ?_, ?_⟩
  · unfold Session.onError
    split
    · rfl
    · rfl
  · unfold Session.onError
    split
    · simp [Session.called, Session.emit, Event.called?]
    · rfl

/-- At the end of the stream nothing is called any more. -/
theorem called_end (hpieces : pieces.flatten = []) :
    ∃ m, ∀ n, m ≤ n →
      (Machine.iterate (serveStep members config order) n (({ log } : Session).read, pieces)).1.called =
        log.filterMap Event.called? := by
  cases hread : readUntil (crlf ++ crlf) config.maxRequestStreambufSize.toNat ErrorCode.notFound []
      pieces with
  | none =>
      have hdeliver : ({ log } : Session).read.deliver config pieces .head = none := hread
      have hnone : serveStep members config order (({ log } : Session).read, pieces) = none := by
        rw [serveStep, readStep, show ({ log } : Session).read.reading = some .head from rfl,
          Option.bind_some, hdeliver]
        rfl
      refine ⟨0, ?_⟩
      intro n _
      rw [Machine.iterate_of_none hnone]
      rfl
  | some r =>
      obtain ⟨⟨ec, data⟩, rest⟩ := r
      have hflat := readUntil_append hread
      rw [hpieces, List.append_eq_nil_iff] at hflat
      obtain rfl : data = [] := hflat.1
      cases ec with
      | none =>
          have hfound := (readUntil_obeys (Nat.zero_le _) hread).2.1 rfl
          cases hfound
      | some ec =>
          obtain ⟨s', hleads, hnone, hcalled⟩ := @leads_failed members config order _ _ log _ _ hread
          obtain ⟨m, hm⟩ := hleads.eventually hnone
          refine ⟨m, ?_⟩
          intro n hn
          rw [hm n hn]
          exact hcalled

/-- From any session on. -/
theorem called_iff {f : HttpRequest → ResourceFunction} (requests : List HttpRequest)
    (hbody : ∀ r ∈ requests, r.body.length ≤ config.maxRequestStreambufSize.toNat)
    (hf : ∀ r ∈ requests, members.function r.message = some (f r))
    (hpieces : pieces.flatten = requests.flatMap HttpRequest.encode) :
    (∃ m, ∀ n, m ≤ n →
      (Machine.iterate (serveStep members config order) n (({ log } : Session).read, pieces)).1.called =
        log.filterMap Event.called? ++ requests.map fun r => (f r, r.message, r.body)) ↔
      KeepsApart config.maxRequestStreambufSize.toNat pieces 0 requests := by
  induction requests generalizing log pieces with
  | nil =>
      rw [List.map_nil, List.append_nil]
      exact iff_of_true (called_end hpieces) trivial
  | cons r requests ih =>
      have hbody' := hbody r List.mem_cons_self
      have hf' := hf r List.mem_cons_self
      rw [List.flatMap_cons] at hpieces
      rw [KeepsApart]
      by_cases hhead : r.head.length ≤ config.maxRequestStreambufSize.toNat
      · obtain ⟨content, es, pieces', hcalled, hleads, halone, hnot⟩ :=
          @leads_request members config order r _ pieces log hbody' hf' hhead _ hpieces
        rw [hleads.eventually_iff fun p : Session × List Bytes => p.1.called = _]
        by_cases hread : r.ReadAlone config.maxRequestStreambufSize.toNat pieces 0
        · -- this request is served as it was sent, and the others follow
          obtain ⟨rfl, hrest, hleaves⟩ := halone hread
          have hrec := @ih pieces' (log ++ es) (fun x hx => hbody x (List.mem_cons_of_mem _ hx))
            (fun x hx => hf x (List.mem_cons_of_mem _ hx)) hrest
          rw [List.filterMap_append, hcalled, List.append_assoc, List.singleton_append] at hrec
          rw [List.map_cons, hrec, keepsApart_leaves hleaves, and_iff_right hread, Nat.add_comm]
        · refine iff_of_false ?_ fun h => hread h.1
          -- what has been called stays
          rintro ⟨m, hm⟩
          obtain ⟨es', hes'⟩ := @log_iterate members config order m
            (({ log := log ++ es } : Session).read, pieces')
          have heq := hm m le_rfl
          rw [Session.called, ← hes', List.filterMap_append] at heq
          simp only [Session.read, List.filterMap_append, hcalled, List.append_assoc,
            List.singleton_append, List.map_cons] at heq
          have hcons := (List.cons.inj (List.append_cancel_left heq)).1
          exact hnot hread (Prod.mk.inj (Prod.mk.inj hcons).2).2
      · refine iff_of_false ?_ fun h => hhead h.1.1
        rintro ⟨m, hm⟩
        have hend : endOf (crlf ++ crlf) ([] ++ pieces.flatten) = some r.head.length := by
          rw [List.nil_append, hpieces, HttpRequest.encode, List.append_assoc]
          exact r.requestHead.endOf_eq _
        obtain ⟨data, rest, hfull⟩ := @readUntil_full _ ErrorCode _ _ _ _ _ .notFound _ hend
          (not_le.1 hhead) (Nat.zero_le _)
        obtain ⟨s', hleads, hnone, hcalled⟩ := @leads_failed members config order _ _ log _ _ hfull
        obtain ⟨m', hm'⟩ := hleads.eventually hnone
        have heq := hm (max m m') (le_max_left _ _)
        rw [hm' _ (le_max_right _ _), hcalled] at heq
        simp at heq

/-- **When exactly all requests are served as they were sent.**  For all requests that keep the
connection, each of which has a function, and for all pieces in which they arrive, the functions are
called once for each request, in order, with what the head says and with the body, if and only if no
read of a head takes bytes of later requests. -/
theorem pipelining_iff (members : Members) (config : Config) (order : Order)
    (requests : List HttpRequest) (f : HttpRequest → ResourceFunction)
    (hbody : ∀ r ∈ requests, r.body.length ≤ config.maxRequestStreambufSize.toNat)
    (hf : ∀ r ∈ requests, members.function r.message = some (f r)) (pieces : List Bytes)
    (hpieces : pieces.flatten = requests.flatMap HttpRequest.encode) :
    (∃ m, ∀ n, m ≤ n → (serve members config order n pieces).1.called =
        requests.map fun r => (f r, r.message, r.body)) ↔
      KeepsApart config.maxRequestStreambufSize.toNat pieces 0 requests :=
  called_iff requests hbody hf hpieces

/-! #### Two requests -/

/-- `GET / HTTP/1.1`, without fields. -/
def plainGet : HttpRequest where
  head := RequestMessage.requestLine (ascii "GET") (RequestMessage.target (ascii "/") none)
    (ascii "1.1") ++ 10 :: HttpHeader.fieldLines []
  message := ⟨ascii "GET", ascii "/", [], ascii "1.1", []⟩
  body := []
  requestHead := requestHead_line (by decide) (by decide) (by decide) (by decide) (by simp)
  version := rfl
  no_close := by simp
  no_upgrade := by simp
  no_transferEncoding := by simp
  framed := Or.inl ⟨rfl, by simp⟩

/-- A program with one function. -/
def getMembers : Members where
  defaultResource := [(ascii "GET", 0)]

/-- The second of two requests that arrive together is the content of the first one, and is not
served. -/
theorem pipelining_swallowed :
    ¬ ∀ (requests : List HttpRequest) (f : HttpRequest → ResourceFunction),
      (∀ r ∈ requests, r.body.length ≤ ({} : Config).maxRequestStreambufSize.toNat) →
      (∀ r ∈ requests, getMembers.function r.message = some (f r)) →
      ∀ pieces : List Bytes, pieces.flatten = requests.flatMap HttpRequest.encode →
        ∃ m, ∀ n, m ≤ n → (serve getMembers {} .insertion n pieces).1.called =
          requests.map fun r => (f r, r.message, r.body) := by
  intro h
  obtain ⟨m, hm⟩ := h [plainGet, plainGet] (fun _ => 0) (by decide) (by decide)
    [plainGet.encode ++ plainGet.encode] (by decide)
  have hend : serveStep getMembers {} .insertion
      (serve getMembers {} .insertion 2 [plainGet.encode ++ plainGet.encode]) = none := by
    decide +kernel
  have hcalled := hm (2 + m) (Nat.le_add_left _ _)
  rw [serve, Machine.iterate_add, ← serve, Machine.iterate_of_none hend] at hcalled
  revert hcalled
  decide +kernel

/-- When they arrive one after the other, both are served. -/
theorem pipelining_iff_separate :
    ∃ m, ∀ n, m ≤ n → (serve getMembers {} .insertion n [plainGet.encode, plainGet.encode]).1.called =
      [(0, plainGet.message, []), (0, plainGet.message, [])] :=
  (pipelining_iff getMembers {} .insertion [plainGet, plainGet] (fun _ => 0) (by decide) (by decide)
    [plainGet.encode, plainGet.encode] (by decide)).2
    ⟨⟨by decide, Or.inr ⟨18, ⟨1, by decide⟩, by decide, by decide⟩⟩,
      ⟨by decide, Or.inr ⟨36, ⟨2, by decide⟩, by decide, by decide⟩⟩, trivial⟩

end ServerBase

end SimpleWeb
