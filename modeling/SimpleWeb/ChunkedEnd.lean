/-
**The end of a request that is sent in chunks.**

Behind the last chunk come trailer lines, if there are any, and an empty line.  The server is done with
the request when it has read the line of the last chunk: what it has not read along with that line
stays on the connection, where the next session takes it for the beginning of the next request.  So the
whole end of the request must have been read when the line of the last chunk is.  Whether it is depends
on where the pieces of the stream end, and on the buffer, whose size is that of what was read along
with the head: a read of a line goes on to the end of a piece, or until the buffer is full.

Main definitions:

* `SimpleWeb.requestEnd` — the last chunk, and what is behind it;
* `SimpleWeb.ReadWhole` — the end of a request is read with the line of the last chunk;
* `SimpleWeb.ServerBase.ConsumesOwn` — the next session begins with the next request.

Main results:

* `SimpleWeb.ServerBase.nextSession_unique` — a session begins once between two calls;
* `SimpleWeb.ServerBase.chunkedEnd_iff` — **when exactly a chunked request consumes its own bytes**;
* `SimpleWeb.ServerBase.chunkedEnd_left` — the last line end arrives on its own.
-/

import SimpleWeb.ChunkedBody
import SimpleWeb.Pipelining

set_option relaxedAutoImplicit false
set_option autoImplicit false

namespace SimpleWeb

/-- The last chunk, the trailer lines with their line ends, and the empty line. -/
def requestEnd (trailer : Bytes) : Bytes := ascii "0" ++ (crlf ++ (trailer ++ crlf))

/-- There is room in the buffer for the lines of the chunks, and where the read of the line of the last
chunk ends, or the read before it if that line was read along with it, is where the request does. -/
def ReadWhole (maxSize : ℕ) (pieces : List Bytes) (head : Bytes) (cs : List ExtendedChunk)
    (trailer : Bytes) : Prop :=
  let size := sizeBuffer maxSize pieces head
  let start := head.length + (cs.flatMap ExtendedChunk.encode).length
  let far := chunksFar pieces size head.length (readFar pieces maxSize 0 0 head.length) cs
  (∀ c ∈ cs, c.line.length + 2 ≤ size) ∧
    readFar pieces size start far (start + 3) = start + (requestEnd trailer).length

instance (maxSize : ℕ) (pieces : List Bytes) (head : Bytes) (cs : List ExtendedChunk)
    (trailer : Bytes) : Decidable (ReadWhole maxSize pieces head cs trailer) :=
  inferInstanceAs (Decidable (_ ∧ _))

namespace ServerBase

/-- The function is called for a request, and what the next session finds unread is what was sent
behind the request. -/
def ConsumesOwn (members : Members) (config : Config) (order : Order) (pieces next : List Bytes)
    (call : ResourceFunction × RequestMessage × Bytes) : Prop :=
  ∃ log unread, Machine.Leads (serveStep members config order)
      (({} : Session).read, pieces ++ next) (({ log } : Session).read, unread) ∧
    log.filterMap Event.called? = [call] ∧ unread.flatten = next.flatten

variable {members : Members} {config : Config} {order : Order} {s t : Session}
  {pieces pieces' : List Bytes}

/-! ### What arrives later -/

/-- A read that is done takes nothing of what arrives later. -/
theorem Session.deliver_more {op : ReadOp} {k : Completion UInt8 ErrorCode}
    (h : s.deliver config pieces op = some (k, pieces')) (later : List Bytes) :
    s.deliver config (pieces ++ later) op = some (k, pieces' ++ later) := by
  cases op with
  | head | chunkSize => exact readUntil_more h later
  | content size | chunk size | chunkEnd size =>
      obtain ⟨⟨data, rest⟩, htake, heq⟩ := Option.map_eq_some_iff.1 h
      obtain ⟨rfl, rfl⟩ := Prod.mk.inj heq
      simp only [Session.deliver, takeExactly_more htake later, Option.map_some]

theorem readStep_more (h : readStep members config order (s, pieces) = some (t, pieces'))
    (later : List Bytes) :
    readStep members config order (s, pieces ++ later) = some (t, pieces' ++ later) := by
  obtain ⟨op, hop, hdeliver⟩ := Option.bind_eq_some_iff.1 h
  obtain ⟨⟨k, rest⟩, hr, heq⟩ := Option.map_eq_some_iff.1 hdeliver
  obtain ⟨rfl, rfl⟩ := Prod.mk.inj heq
  exact readStep_eq hop (Session.deliver_more hr later)

/-- Reading a request goes on in the same way if something arrives later, for the next one. -/
theorem leads_more (h : Machine.Leads (readStep members config order) (s, pieces) (t, pieces'))
    (later : List Bytes) :
    Machine.Leads (serveStep members config order) (s, pieces ++ later) (t, pieces' ++ later) := by
  refine Machine.Leads.map (f := fun p : Session × List Bytes => (p.1, p.2 ++ later)) ?_ h
  rintro ⟨s, pieces⟩ ⟨t, pieces'⟩ hstep
  exact serveStep_of_readStep (readStep_more hstep later)

/-! ### The next session -/

/-- No head is read, and there is nothing to send. -/
structure Session.Midway (s : Session) : Prop where
  reading : s.reading ≠ some .head
  responding : s.responding = false

/-- A function has been called, or the request is still underway. -/
def Session.Advances (s s' : Session) : Prop := s'.Midway ∨ s.called.length < s'.called.length

theorem Session.called_of_log (h : t.log = s.log) : t.called = s.called := by
  rw [Session.called, h, Session.called]

theorem Session.length_called_le (h : s.log <+: t.log) : s.called.length ≤ t.called.length :=
  (h.filterMap Event.called?).length_le

theorem midway_onError (hs : s.Midway) (ec : ErrorCode) : (s.onError members ec).Midway := by
  unfold Session.onError
  split
  · exact ⟨hs.reading, hs.responding⟩
  · exact hs

theorem advances_findResource (hs : s.Midway) : s.Advances (s.findResource members order) := by
  unfold Session.findResource
  dsimp only
  split
  · exact Or.inl ⟨hs.reading, hs.responding⟩
  split
  · next f _ =>
      obtain ⟨es, heq, -⟩ :=
        @Session.write_eq members (s.emit (.findResource s.request s.streambuf)) f
      refine Or.inr ?_
      rw [heq]
      simp only [Session.called, Session.emit, List.filterMap_append, List.length_append,
        List.filterMap_cons, Event.called?, List.length_cons]
      omega
  · exact Or.inl ⟨hs.reading, hs.responding⟩

/-- The handler of a read that has succeeded. -/
theorem advances_onRead (hreading : s.reading = none) (hresponding : s.responding = false)
    (op : ReadOp) : s.Advances (s.onRead members config order op) := by
  have hmidway : ∀ {t : Session}, Session.Prepared config s t → t.Midway := by
    intro t h
    exact ⟨by rw [h.reading, hreading]; simp, h.responding.trans hresponding⟩
  have hends := @Session.ends_onRead members config order s op
  generalize s.onRead members config order op = s' at hends ⊢
  cases hends with
  | error h ec => exact Or.inl (midway_onError (hmidway h) ec)
  | @tooLarge t h =>
      have hunsent : (t.emit (.unsent .clientErrorPayloadTooLarge)).Midway :=
        ⟨(hmidway h).reading, (hmidway h).responding⟩
      exact Or.inl (midway_onError hunsent .messageSize)
  | @found t h =>
      have hfound := @advances_findResource members order t (hmidway h)
      rwa [Session.Advances, Session.called_of_log h.log] at hfound
  | terminate =>
      have hs := hmidway (Session.Prepared.refl s)
      exact Or.inl ⟨hs.reading, hs.responding⟩
  | thrown h => exact Or.inl ⟨(hmidway h).reading, (hmidway h).responding⟩
  | reads h op hop => exact Or.inl ⟨fun heq => hop (Option.some.inj heq), (hmidway h).responding⟩

theorem advances_onReadError (hs : s.Midway) (ec : ErrorCode) (op : ReadOp) :
    (s.onReadError members ec op).Midway := by
  cases op with
  | head | content size | chunkSize | chunk size => exact midway_onError hs ec
  | chunkEnd size =>
      unfold Session.onReadError Session.onErrorUnguarded
      dsimp only
      split
      · exact ⟨hs.reading, hs.responding⟩
      · exact ⟨hs.reading, hs.responding⟩

/-- A step while there is nothing to send. -/
theorem advances_serveStep (hresponding : s.responding = false)
    (h : serveStep members config order (s, pieces) = some (t, pieces')) : s.Advances t := by
  rw [serveStep, hresponding, if_neg (by simp), Option.or_none] at h
  obtain ⟨op, hop, hdeliver⟩ := Option.bind_eq_some_iff.1 h
  obtain ⟨⟨k, rest⟩, -, heq⟩ := Option.map_eq_some_iff.1 hdeliver
  obtain ⟨rfl, -⟩ := Prod.mk.inj heq
  -- the session whose handler runs
  obtain ⟨u, hu, hlog, hcases⟩ : ∃ u : Session, (u.reading = none ∧ u.responding = false) ∧
      u.log = s.log ∧ ((∃ ec, s.complete members config order true k = u.onReadError members ec op) ∨
        s.complete members config order true k = u.onRead members config order op) := by
    refine ⟨{ s with reading := none }.receive k.data op, ?_, ?_, ?_⟩
    · cases op <;> exact ⟨rfl, hresponding⟩
    · cases op <;> rfl
    · unfold Session.complete
      rw [show s.reading = some op from hop]
      cases hec : k.ec with
      | some ec => exact Or.inl ⟨ec, by simp⟩
      | none => exact Or.inr (by simp)
  rw [Session.Advances, ← Session.called_of_log hlog]
  rcases hcases with ⟨ec, heq⟩ | heq
  · rw [heq]
    exact Or.inl (advances_onReadError ⟨by rw [hu.1]; simp, hu.2⟩ ec op)
  · rw [heq]
    exact advances_onRead hu.1 hu.2 op

/-- What a session leads to: itself, or a state before the next session, or one behind a call. -/
theorem leads_read {log : List Event} {q : Session × List Bytes}
    (h : Machine.Leads (serveStep members config order) (({ log } : Session).read, pieces) q) :
    q = (({ log } : Session).read, pieces) ∨ q.1.Midway ∨
      ({ log } : Session).read.called.length < q.1.called.length := by
  obtain ⟨n, rfl⟩ := h
  refine (@Machine.iterate_invariant _ (serveStep members config order)
    (fun q : Session × List Bytes => log <+: q.1.log ∧
      (q = (({ log } : Session).read, pieces) ∨ q.1.Midway ∨
        ({ log } : Session).read.called.length < q.1.called.length)) ?_ n _
    ⟨List.prefix_rfl, Or.inl rfl⟩).2
  rintro ⟨s, unread⟩ ⟨t, unread'⟩ ⟨hlog, hs⟩ hstep
  have hmore := log_serveStep hstep
  have hle := @Session.length_called_le ({ log } : Session).read s hlog
  refine ⟨hlog.trans hmore, Or.inr ?_⟩
  rcases hs with heq | hmidway | hcalled
  · obtain ⟨rfl, -⟩ := Prod.mk.inj heq
    exact advances_serveStep rfl hstep
  · exact (advances_serveStep hmidway.responding hstep).imp_right fun hlt => hle.trans_lt hlt
  · exact Or.inr (hcalled.trans_le (Session.length_called_le hmore))

/-- **A session begins once between two calls**: two sessions that begin behind as many calls are the
same, and have the same unread. -/
theorem nextSession_unique {p : Session × List Bytes} {log log' : List Event}
    (h : Machine.Leads (serveStep members config order) p (({ log } : Session).read, pieces))
    (h' : Machine.Leads (serveStep members config order) p (({ log := log' } : Session).read, pieces'))
    (hcalled : (log.filterMap Event.called?).length = (log'.filterMap Event.called?).length) :
    pieces = pieces' := by
  have hnot : ∀ {log : List Event}, ¬ ({ log } : Session).read.Midway := fun h => h.reading rfl
  rcases h.total h' with hle | hle
  · rcases leads_read hle with heq | hmidway | hlt
    · exact (Prod.mk.inj heq).2.symm
    · exact absurd hmidway hnot
    · exact absurd hcalled hlt.ne
  · rcases leads_read hle with heq | hmidway | hlt
    · exact (Prod.mk.inj heq).2
    · exact absurd hmidway hnot
    · exact absurd hcalled hlt.ne'

/-! ### The whole request -/

section request

variable {head : Bytes} {request : RequestMessage} {cs : List ExtendedChunk} {trailer : Bytes}
  {next : List Bytes} {f : ResourceFunction}

/-- The function is called, and the next session begins; how much of the end of the request it finds
unread is what is missing from how far the stream has been read. -/
theorem leads_nextSession (h : ChunkedHead head request)
    (hhead : head.length ≤ config.maxRequestStreambufSize.toNat)
    (hkeep : Session.keepAlive order request = true)
    (hupgrade : ∀ f ∈ request.header, ¬ Named (ascii "Upgrade") f)
    (hf : members.function request = some f)
    (hlines : ∀ c ∈ cs,
      c.line.length + 2 ≤ sizeBuffer config.maxRequestStreambufSize.toNat pieces head)
    (hroom : (bodyOf cs).length ≤ config.maxRequestStreambufSize.toNat)
    (hpieces : pieces.flatten =
      head ++ (cs.flatMap ExtendedChunk.encode ++ requestEnd trailer)) :
    ∃ log unread, Machine.Leads (serveStep members config order)
        (({} : Session).read, pieces ++ next) (({ log } : Session).read, unread ++ next) ∧
      log.filterMap Event.called? = [(f, request, bodyOf cs)] ∧
      (unread.flatten = [] ↔
        ReadWhole config.maxRequestStreambufSize.toNat pieces head cs trailer) := by
  obtain ⟨buffer, left, hend, hfar, hchunks⟩ :=
    @leads_untilLast members config order _ pieces _ _ h hhead cs hlines hroom hpieces
  obtain ⟨surplus, unread, hflat, hlastFar, hlast⟩ := @leads_lastChunk members config order
    (.ofChunked config pieces head request) (bodyOf cs) _ _ _ _ _ (le_max_left _ _) hend
  obtain ⟨es, hcalled, hresponse⟩ := @leads_findResource members config order
    ((Session.ofChunked config pieces head request).holding (bodyOf cs) surplus none) f
    (unread ++ next) request rfl rfl hkeep hupgrade hf
  refine ⟨[] ++ es, unread, (leads_more (hchunks.trans hlast) next).trans hresponse, hcalled, ?_⟩
  -- the bytes behind the line of the last chunk are read, or they are left
  have hsize : (Session.ofChunked config pieces head request).chunkSizeMaxSize =
      sizeBuffer config.maxRequestStreambufSize.toNat pieces head := rfl
  have hlength := congrArg List.length hflat
  rw [ReadWhole, and_iff_right hlines, ← hfar, ← hsize, ← hlastFar, ← List.length_eq_zero_iff]
  simp only [requestEnd, List.length_append, show (ascii "0").length = 1 from rfl,
    show crlf.length = 2 from rfl] at hlength ⊢
  omega

/-- Where nothing is left to do and no function has been called, the next session does not begin. -/
theorem not_consumesOwn {call : ResourceFunction × RequestMessage × Bytes}
    (h : Machine.Leads (readStep members config order) (({} : Session).read, pieces) (t, pieces'))
    (ht : t.reading = none ∧ t.responding = false ∧ t.called = []) :
    ¬ ConsumesOwn members config order pieces next call := by
  rintro ⟨log, unread, hleads, hcall, -⟩
  have hend : serveStep members config order (t, pieces' ++ next) = none := by
    rw [serveStep, readStep_of_none ht.1 _, ht.2.1]
    rfl
  obtain ⟨n, hn⟩ := (leads_more h next).last hend hleads
  have hle := Session.length_called_le
    (@log_iterate members config order n (({ log } : Session).read, unread))
  rw [hn, ht.2.2, Session.called, show ({ log } : Session).read.log = log from rfl, hcall] at hle
  simp at hle

/-- A line that is too long for the buffer. -/
theorem not_consumesOwn_long (h : ChunkedHead head request)
    (hhead : head.length ≤ config.maxRequestStreambufSize.toNat)
    (hlines : ¬ ∀ c ∈ cs,
      c.line.length + 2 ≤ sizeBuffer config.maxRequestStreambufSize.toNat pieces head)
    (hroom : (bodyOf cs).length ≤ config.maxRequestStreambufSize.toNat)
    (hpieces : pieces.flatten =
      head ++ (cs.flatMap ExtendedChunk.encode ++ requestEnd trailer))
    (call : ResourceFunction × RequestMessage × Bytes) :
    ¬ ConsumesOwn members config order pieces next call := by
  obtain ⟨surplus, left, hunread, -, hread⟩ :=
    @readStep_chunkedHead members config order _ pieces _ _ h hhead hpieces
  have hlong : ∃ c ∈ cs, (Session.ofChunked config pieces head request).chunkSizeMaxSize <
      c.line.length + 2 := by
    by_contra hnot
    push Not at hnot
    exact hlines hnot
  obtain ⟨content, buffer, left', hfails⟩ := @leads_long members config order
    (.ofChunked config pieces head request) [] _ _ _ _ _ cs hlong
    (by rwa [List.length_nil, Nat.zero_add]) hunread
  refine not_consumesOwn ((Machine.Leads.one hread).trans hfails) ?_
  unfold Session.onError
  split
  · exact ⟨rfl, rfl, rfl⟩
  · exact ⟨rfl, rfl, rfl⟩

end request

/-- **When exactly a chunked request consumes its own bytes.**  A request that keeps the connection and
has a function arrives in any pieces, and the next one only after its response.  The function is called
with what was sent, and what the next session finds unread is the next request, if and only if the
request has been read to its end when the line of its last chunk has been. -/
theorem chunkedEnd_iff (members : Members) (config : Config) (order : Order) {head : Bytes}
    {request : RequestMessage} (h : ChunkedHead head request)
    (hhead : head.length ≤ config.maxRequestStreambufSize.toNat)
    (hkeep : Session.keepAlive order request = true)
    (hupgrade : ∀ f ∈ request.header, ¬ Named (ascii "Upgrade") f) {f : ResourceFunction}
    (hf : members.function request = some f) (cs : List ExtendedChunk)
    (hroom : (bodyOf cs).length ≤ config.maxRequestStreambufSize.toNat) (trailer : Bytes)
    (pieces next : List Bytes)
    (hpieces : pieces.flatten =
      head ++ (cs.flatMap ExtendedChunk.encode ++ requestEnd trailer)) :
    ConsumesOwn members config order pieces next (f, request, bodyOf cs) ↔
      ReadWhole config.maxRequestStreambufSize.toNat pieces head cs trailer := by
  by_cases hlines : ∀ c ∈ cs,
      c.line.length + 2 ≤ sizeBuffer config.maxRequestStreambufSize.toNat pieces head
  · obtain ⟨log, unread, hleads, hcalled, hread⟩ := @leads_nextSession members config order pieces _ _
      cs trailer next f h hhead hkeep hupgrade hf hlines hroom hpieces
    rw [← hread]
    constructor
    · rintro ⟨log', unread', hleads', hcalled', hunread⟩
      obtain rfl := nextSession_unique hleads hleads' (by rw [hcalled, hcalled'])
      rwa [List.flatten_append, List.append_left_eq_self] at hunread
    · intro hnil
      refine ⟨log, unread ++ next, hleads, hcalled, ?_⟩
      rw [List.flatten_append, hnil, List.nil_append]
  · exact iff_of_false (not_consumesOwn_long h hhead hlines hroom hpieces _)
      fun hread => hlines hread.1

/-! #### The end of two chunks -/

/-- A program with a function for either method. -/
def chunkMembers : Members where
  onError := true
  defaultResource := [(ascii "POST", 0), (ascii "GET", 1)]

/-- Two chunks, up to the line of the last one. -/
def untilLast : Bytes := sampleHead ++ (sampleChunks.flatMap Chunk.encode ++ (ascii "0" ++ crlf))

/-- A chunk with an extension. -/
def extendedSample (extension : Bytes) (hbehind : ∀ c ∈ extension.head?, c = 9 ∨ c = 32 ∨ c = 59)
    (hcr : 13 ∉ extension) (hlf : 10 ∉ extension) : ExtendedChunk where
  digits := ascii "003"
  extension := extension
  data := ascii "xyz"
  digits_ne_nil := by decide
  isDigit := by decide +kernel
  value := rfl
  behind_digits := hbehind
  cr_extension := hcr
  lf_extension := hlf
  data_ne_nil := by decide

/-- A request in three divisions.  Its end is a piece of its own; or a piece ends behind the line of the
last chunk; or its end arrives together with the chunk, and the buffer is full before that.  And a
chunk with an extension for which there is no room. -/
theorem chunkedEnd_iff_sample :
    let chunk := extendedSample (ascii ";a=b") (by decide +kernel) (by decide +kernel)
      (by decide +kernel)
    let long := extendedSample (ascii ";name=a-long-value") (by decide +kernel) (by decide +kernel)
      (by decide +kernel)
    let trailer := ascii "A: b" ++ crlf
    let Consumed := fun pieces => ConsumesOwn chunkMembers {} .insertion pieces [plainGet.encode]
      (0, sampleRequest, ascii "xyz")
    Consumed [sampleHead ++ chunk.encode, requestEnd trailer] ∧
      ¬ Consumed [sampleHead ++ chunk.encode ++ (ascii "0" ++ crlf), trailer ++ crlf] ∧
      ¬ Consumed [sampleHead, chunk.encode ++ requestEnd trailer] ∧
      ¬ Consumed [sampleHead, long.encode ++ requestEnd trailer] := by
  intro chunk long trailer Consumed
  have hiff := fun cs hroom => chunkedEnd_iff chunkMembers {} .insertion chunkedHead_sample
    (by decide) (by decide) (by decide) rfl cs hroom trailer
  refine ⟨(hiff [chunk] (by decide) _ _ (by decide)).2 (by decide), ?_, ?_, ?_⟩
  · exact fun h => absurd ((hiff [chunk] (by decide) _ _ (by decide)).1 h) (by decide)
  · exact fun h => absurd ((hiff [chunk] (by decide) _ _ (by decide)).1 h) (by decide)
  · exact fun h => absurd ((hiff [long] (by decide) _ _ (by decide)).1 h) (by decide)

/-- The last line end arrives on its own.  The next session finds it in front of the next request,
which is never served. -/
theorem chunkedEnd_left :
    (untilLast ++ crlf = sampleHead ++ (sampleChunks.flatMap Chunk.encode ++ requestEnd [])) ∧
    (∃ log, serve chunkMembers {} .insertion 5 [untilLast, crlf, plainGet.encode] =
      (({ log } : Session).read, [crlf, plainGet.encode])) ∧
    ∀ n, 6 ≤ n → (serve chunkMembers {} .insertion n [untilLast, crlf, plainGet.encode]).1.called =
      [(0, sampleRequest, ascii "abc0123456789")] := by
  have hend : serveStep chunkMembers {} .insertion
      (serve chunkMembers {} .insertion 6 [untilLast, crlf, plainGet.encode]) = none := by
    decide +kernel
  refine ⟨by decide, ⟨(serve chunkMembers {} .insertion 5 [untilLast, crlf, plainGet.encode]).1.log,
    by decide +kernel⟩, ?_⟩
  intro n hn
  obtain ⟨k, rfl⟩ := Nat.exists_eq_add_of_le hn
  rw [serve, Machine.iterate_add, ← serve, Machine.iterate_of_none hend]
  decide +kernel

end ServerBase

end SimpleWeb
