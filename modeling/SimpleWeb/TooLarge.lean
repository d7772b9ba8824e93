/-
**Requests that are too large.**

`read` and `read_chunked_transfer_encoded` make a response for a request that is too large, write 413 to
it, and call `on_error`.  A response is a stream in memory.  What has been written to it is sent by
`send`, or when it is deleted; but it is the deleter that sends it, and only the response that `write`
makes has one.  The two that are made here are deleted with what is in them, and the client gets no
answer.

Main definitions:

* `SimpleWeb.ServerBase.Response.Deleter`, `SimpleWeb.ServerBase.Response.releaseBy` — how a response
  ends;
* `SimpleWeb.ServerBase.Session.tooLargeResponse` — the response for a request that is too large;
* `SimpleWeb.ServerBase.Refusal` — a connection and this response, and what can happen to either;
* `SimpleWeb.ServerBase.Answered` — what the response is for.

Main results:

* `SimpleWeb.ServerBase.Reachable.exclusive` — nothing is read while there is a response to be sent;
* `SimpleWeb.ServerBase.transmitted_of_sendOnDelete` — the deleter of `write` would send it;
* `SimpleWeb.ServerBase.too_large_unanswered` — **the request is not answered**.
-/

import SimpleWeb.ChunkLimit
import SimpleWeb.Pipelining
import SimpleWeb.ResponseWrite

set_option relaxedAutoImplicit false
set_option autoImplicit false

namespace SimpleWeb.ServerBase

/-! ### The response -/

/-- What is done with a response that has no references left. -/
inductive Response.Deleter
  | sendOnDelete
  | default

/-- A reference is dropped.  Without a deleter of its own, the last one takes the stream with it. -/
def Response.releaseBy {κ : Type*} (r : Response κ) : Response.Deleter → Response κ
  | .sendOnDelete => r.release
  | .default =>
      let r := { r with holders := r.holders - 1 }
      if r.references = 0 then { r with stage := .deleted } else r

/-- The response that is written for a request that is too large, with the given deleter, when the
handler has returned. -/
def Session.tooLargeResponse (κ : Type*) (s : Session) (order : Order) (deleter : Response.Deleter) :
    Response κ :=
  (({ session := s } : Response κ).writeStatus order .clientErrorPayloadTooLarge []).releaseBy deleter

/-- A connection whose request is too large, and the response for it. -/
structure Refusal (κ : Type*) where
  session : Session
  response : Response κ

namespace Refusal

variable {κ : Type*}

/-- What can happen to either. -/
inductive Act (κ : Type*)
  | session (a : ServerBase.Act)
  | response (a : Response.Act κ)

variable (members : Members) (config : Config) (order : Order)

def act (p : Refusal κ) : Act κ → Refusal κ
  | .session a => { p with session := ServerBase.act members config order p.session a }
  | .response a => { p with response := p.response.act members order a }

def Allowed (p : Refusal κ) : Act κ → Prop
  | .session a => ServerBase.Allowed config p.session a
  | .response a => p.response.Allowed a

/-- What can come of it. -/
def Later (p : Refusal κ) : Refusal κ → Prop :=
  Machine.Reach (act members config order) (Allowed config) (· = p)

end Refusal

/-- A request has been found too large: the response for it has no deleter. -/
def Session.refusal (κ : Type*) (s : Session) (order : Order) : Refusal κ :=
  ⟨s, s.tooLargeResponse κ order .default⟩

/-- The request that session `s` has read is answered: no function of the program is called for it,
`on_error` is told once, and when the response is released, what has been written to it has been
transmitted. -/
structure Answered {κ : Type*} (members : Members) (config : Config) (order : Order) (s : Session)
    (p : Refusal κ) : Prop where
  notCalled : ∀ q, p.Later members config order q → q.session.called = s.called
  reported : ∀ q, p.Later members config order q →
    q.session.log.count (.onError .messageSize) =
      s.log.count (.onError .messageSize) + if members.onError then 1 else 0
  transmitted : ∀ q, p.Later members config order q → q.response.stage = .deleted →
    q.response.transmitted = q.response.written

variable {members : Members} {config : Config} {order : Order} {s s' : Session} {log : List Event}

/-! ### What a handler leaves behind -/

namespace Session

/-- There is nothing to read and nothing to send. -/
structure Idle (s : Session) : Prop where
  reading : s.reading = none
  responding : s.responding = false

/-- The request has been refused, and there is nothing left to do; or something else has been logged,
if anything, and nothing is read while there is a response to be sent. -/
def Outcome (members : Members) (log : List Event) (s' : Session) : Prop :=
  (∃ t : Session, t.log = log ∧ t.Idle ∧ s' = t.payloadTooLarge members) ∨
    ((∀ es, s'.log ≠ log ++ .unsent .clientErrorPayloadTooLarge :: es) ∧
      (s'.reading = none ∨ s'.responding = false))

theorem outcome_payloadTooLarge (hs : s.Idle) :
    Outcome members s.log (s.payloadTooLarge members) :=
  Or.inl ⟨s, rfl, hs, rfl⟩

/-- Nothing has been logged. -/
theorem outcome_of_log (hlog : s'.log = log) (h : s'.reading = none ∨ s'.responding = false) :
    Outcome members log s' := by
  refine Or.inr ⟨?_, h⟩
  intro es heq
  rw [hlog] at heq
  simp at heq

/-- Something else has been logged. -/
theorem outcome_of_logged {e : Event} {es : List Event} (hlog : s'.log = log ++ e :: es)
    (he : e ≠ .unsent .clientErrorPayloadTooLarge)
    (h : s'.reading = none ∨ s'.responding = false) : Outcome members log s' := by
  refine Or.inr ⟨?_, h⟩
  intro es' heq
  rw [hlog] at heq
  exact he (List.cons.inj (List.append_cancel_left heq)).1

theorem outcome_onError (hs : s.Idle) (ec : ErrorCode) :
    Outcome members s.log (s.onError members ec) := by
  unfold onError
  split
  · exact outcome_of_logged rfl nofun (Or.inl hs.reading)
  · exact outcome_of_log rfl (Or.inl hs.reading)

theorem outcome_findResource (hs : s.Idle) :
    Outcome members s.log (s.findResource members order) := by
  have hreading := (@logs_findResource members order s).reading
  obtain ⟨es, responding, heq, -⟩ := @findResource_eq members order s
  refine outcome_of_logged (congrArg Session.log heq) nofun (Or.inl ?_)
  rw [hreading, hs.reading]

/-- The handler of a read that has succeeded. -/
theorem outcome_onRead (hs : s.Idle) (op : ReadOp) :
    Outcome members s.log (s.onRead members config order op) := by
  have hprepared : ∀ {t : Session}, Prepared config s t → t.Idle := by
    intro t h
    exact ⟨h.reading.trans hs.reading, h.responding.trans hs.responding⟩
  have hends := @ends_onRead members config order s op
  generalize s.onRead members config order op = s' at hends ⊢
  cases hends with
  | error h ec =>
      rw [← h.log]
      exact outcome_onError (hprepared h) ec
  | tooLarge h =>
      rw [← h.log]
      exact outcome_payloadTooLarge (hprepared h)
  | found h =>
      rw [← h.log]
      exact outcome_findResource (hprepared h)
  | terminate => exact outcome_of_logged rfl nofun (Or.inl hs.reading)
  | thrown h =>
      rw [← h.log]
      exact outcome_of_logged rfl nofun (Or.inl (hprepared h).reading)
  | reads h op hop => exact outcome_of_log h.log (Or.inr (hprepared h).responding)

theorem outcome_onReadError (hs : s.Idle) (ec : ErrorCode) (op : ReadOp) :
    Outcome members s.log (s.onReadError members ec op) := by
  cases op with
  | head | content size | chunkSize | chunk size => exact outcome_onError hs ec
  | chunkEnd size =>
      unfold onReadError onErrorUnguarded
      dsimp only
      split
      · exact outcome_of_logged rfl nofun (Or.inl hs.reading)
      · exact outcome_of_logged rfl nofun (Or.inl hs.reading)

/-- The completion of an outstanding read. -/
theorem outcome_complete {op : ReadOp} (hop : s.reading = some op) (hs : s.responding = false)
    (lock : Bool) (k : Completion UInt8 ErrorCode) :
    Outcome members s.log (s.complete members config order lock k) := by
  have hidle : ({ s with reading := none }.receive k.data op).Idle := by
    cases op with
    | head | content size | chunkSize | chunk size | chunkEnd size => exact ⟨rfl, hs⟩
  have hlog : ({ s with reading := none }.receive k.data op).log = s.log := by
    cases op with
    | head | content size | chunkSize | chunk size | chunkEnd size => rfl
  unfold complete
  rw [hop]
  dsimp only
  generalize ({ s with reading := none } : Session).receive k.data op = t at hidle hlog ⊢
  rw [← hlog]
  split
  · exact outcome_of_log rfl (Or.inl hidle.reading)
  split
  · exact outcome_onReadError hidle _ op
  · exact outcome_onRead hidle op

/-- Nothing is read while there is a response to be sent. -/
theorem Outcome.exclusive (h : Outcome members log s') :
    s'.reading = none ∨ s'.responding = false := by
  rcases h with ⟨t, -, ht, rfl⟩ | ⟨-, h⟩
  · left
    rw [(logs_payloadTooLarge t).reading, ht.reading]
  · exact h

end Session

/-- **Nothing is read while there is a response to be sent**, in every state of a connection. -/
theorem Reachable.exclusive (h : Reachable members config order s) :
    s.reading = none ∨ s.responding = false := by
  refine @Machine.Reach.invariant _ _ _ _ _ (fun s => s.reading = none ∨ s.responding = false)
    ?_ ?_ _ h
  · rintro s rfl
    exact Or.inr rfl
  · intro s a hs ha
    cases a with
    | complete lock k =>
        obtain ⟨op, hop, -⟩ := ha
        have hresponding : s.responding = false := hs.resolve_left (by simp [hop])
        exact (Session.outcome_complete hop hresponding lock k).exclusive
    | responseSent closeConnectionAfterResponse lock ec =>
        simp only [act, Session.onResponseSent]
        split
        · exact hs
        · right
          split
          · rfl
          split
          · unfold Session.onError
            split <;> rfl
          · split
            · rfl
            split <;> rfl

/-- A request that is refused, in the completion of the read that has found it too large. -/
theorem refuses_complete (hs : Reachable members config order s) {lock : Bool}
    {k : Completion UInt8 ErrorCode} (hk : Allowed config s (.complete lock k))
    (h : Refuses s (s.complete members config order lock k)) :
    ∃ t : Session, t.log = s.log ∧ t.Idle ∧
      s.complete members config order lock k = t.payloadTooLarge members := by
  obtain ⟨op, hop, -⟩ := hk
  have hresponding : s.responding = false := hs.exclusive.resolve_left (by simp [hop])
  rcases @Session.outcome_complete members config order s op hop hresponding lock k with
    hrefused | ⟨hnot, -⟩
  · exact hrefused
  · obtain ⟨es, hlog⟩ := h
    exact absurd hlog (hnot es)

/-! ### What becomes of the response -/

section

variable {κ : Type*} {p q : Refusal κ}

/-- Nothing happens any more. -/
structure Refusal.Over (p : Refusal κ) : Prop where
  session : p.session.Idle
  stage : p.response.stage = .deleted
  references : p.response.references = 0

theorem Refusal.Over.act_eq (hp : p.Over) {a : Refusal.Act κ} (ha : p.Allowed config a) :
    p.act members config order a = p := by
  have hsession := hp.session
  have hstage := hp.stage
  have hreferences := hp.references
  rw [Response.references] at hreferences
  cases a with
  | session a =>
      cases a with
      | complete lock k =>
          obtain ⟨op, hop, -⟩ := ha
          rw [hsession.reading] at hop
          cases hop
      | responseSent closeConnectionAfterResponse lock ec =>
          simp [Refusal.act, ServerBase.act, Session.onResponseSent, hsession.responding]
  | response a =>
      cases a with
      | write data => exact absurd hp.references (Nat.pos_iff_ne_zero.1 ha)
      | send callback => exact absurd hp.references (Nat.pos_iff_ne_zero.1 ha)
      | setClose closeConnectionAfterResponse =>
          exact absurd hp.references (Nat.pos_iff_ne_zero.1 ha)
      | acquire => exact absurd hp.references (Nat.pos_iff_ne_zero.1 ha)
      | release =>
          have hholders : 0 < p.response.holders := ha
          omega
      | complete i lock ec =>
          have hi : i < p.response.sendQueue.outstanding.length := ha.1
          omega
      | handle i =>
          have hi : i < p.response.sendQueue.handlers.length := ha
          omega
      | completeRest lock ec =>
          simp [Refusal.act, Response.act, Response.completeRest, hstage]

/-- What can come of it is nothing. -/
theorem Refusal.Over.later_eq (hp : p.Over) (h : p.Later members config order q) : q = p := by
  refine @Machine.Reach.invariant _ _ _ _ _ (fun q => q = p) ?_ ?_ _ h
  · intro q hq
    exact hq
  · rintro q a rfl ha
    exact hp.act_eq ha

/-- What is written to the response. -/
def tooLargeBytes (order : Order) : Bytes :=
  ({ session := {} } : Response ℕ).contentBytes order .clientErrorPayloadTooLarge [] []

theorem tooLargeBytes_ne_nil (order : Order) : tooLargeBytes order ≠ [] := by
  simp [tooLargeBytes, Response.contentBytes]

/-- Without a deleter, the response is gone with what has been written to it. -/
theorem tooLargeResponse_default (s : Session) :
    s.tooLargeResponse κ order .default =
      { session := s
        streambuf := tooLargeBytes order
        holders := 0
        stage := .deleted
        written := tooLargeBytes order } := by
  rw [Session.tooLargeResponse, Response.writeStatus_eq]
  rfl

/-- **The deleter of `write` would send it**: whatever happens then, what has been written has been
transmitted when the response is deleted. -/
theorem transmitted_of_sendOnDelete (s : Session) (hs : s.reading = none) {r : Response κ}
    (h : Machine.Reach (Response.act members order) Response.Allowed
      (· = s.tooLargeResponse κ order .sendOnDelete) r) (hr : r.stage = .deleted) :
    r.transmitted = r.written := by
  have hwritten : (({ session := s } : Response κ).writeStatus order .clientErrorPayloadTooLarge
      []).Sound := by
    rw [Response.writeStatus_eq]
    exact @Response.Sound.act κ members order _ (Response.sound_init hs) (.write _) Nat.one_pos
  have hsound : r.Sound := by
    refine Machine.Reach.invariant ?_ ?_ h
    · rintro r rfl
      refine hwritten.release ?_
      rw [Response.writeStatus_eq]
      exact Nat.one_pos
    · intro r a hr ha
      exact hr.act ha
  exact hsound.orderly.all hr

/-- The request is refused, and that is all. -/
theorem over_refusal {t : Session} (ht : t.Idle) :
    ((t.payloadTooLarge members).refusal κ order).Over := by
  refine ⟨?_, ?_, ?_⟩
  · unfold Session.refusal Session.payloadTooLarge Session.onError
    dsimp only
    split
    · exact ⟨ht.reading, ht.responding⟩
    · exact ⟨ht.reading, ht.responding⟩
  · rw [Session.refusal, tooLargeResponse_default]
  · rw [Session.refusal, tooLargeResponse_default]
    rfl

/-- What is logged: no function is called, and `on_error` is told once. -/
theorem log_payloadTooLarge (t : Session) :
    (t.payloadTooLarge members).called = t.called ∧
      (t.payloadTooLarge members).log.count (.onError .messageSize) =
        t.log.count (.onError .messageSize) + if members.onError then 1 else 0 := by
  unfold Session.payloadTooLarge Session.onError Session.called
  split
  · simp [Session.emit, Event.called?]
  · simp [Session.emit, Event.called?]

/-- What comes of a refusal. -/
theorem later_refusal {t : Session} (ht : t.Idle)
    (h : ((t.payloadTooLarge members).refusal κ order).Later members config order q) :
    q.session.called = t.called ∧
      q.session.log.count (.onError .messageSize) =
        t.log.count (.onError .messageSize) + (if members.onError then 1 else 0) ∧
      q.response.stage = .deleted ∧ q.response.written = tooLargeBytes order ∧
      q.response.transmitted = [] := by
  rw [(over_refusal ht).later_eq h]
  refine ⟨(log_payloadTooLarge t).1, (log_payloadTooLarge t).2, ?_⟩
  rw [Session.refusal, tooLargeResponse_default]
  exact ⟨rfl, rfl, rfl⟩

/-- The bytes are not transmitted. -/
theorem not_answered {t : Session} (ht : t.Idle) :
    ¬ Answered members config order s ((t.payloadTooLarge members).refusal κ order) := by
  intro h
  have hstart : ((t.payloadTooLarge members).refusal κ order).Later members config order
      ((t.payloadTooLarge members).refusal κ order) := Machine.Reach.init rfl
  obtain ⟨-, -, hstage, hwritten, htransmitted⟩ := later_refusal ht hstart
  have hall := h.transmitted _ hstart hstage
  rw [hwritten, htransmitted] at hall
  exact tooLargeBytes_ne_nil order hall.symm

/-- **A request that is too large is not answered.**  In every state of a connection in which a read
finds the request too large, by its length or by the size of a chunk, no function is called and
`on_error` is told once, as it should be, but whatever happens then, the response that has been written
is released and nothing of it is transmitted. -/
theorem too_large_unanswered (κ : Type*) (hs : Reachable members config order s) {lock : Bool}
    {k : Completion UInt8 ErrorCode} (hk : Allowed config s (.complete lock k))
    (h : Refuses s (s.complete members config order lock k)) :
    ¬ Answered members config order s
        ((s.complete members config order lock k).refusal κ order) ∧
      ∀ q : Refusal κ, ((s.complete members config order lock k).refusal κ order).Later members
          config order q →
        q.session.called = s.called ∧
          q.session.log.count (.onError .messageSize) =
            s.log.count (.onError .messageSize) + (if members.onError then 1 else 0) ∧
          q.response.stage = .deleted ∧ q.response.written = tooLargeBytes order ∧
          q.response.transmitted = [] := by
  obtain ⟨t, hlog, ht, heq⟩ := refuses_complete hs hk h
  have hcalled : t.called = s.called := congrArg (List.filterMap Event.called?) hlog
  rw [heq]
  refine ⟨not_answered ht, ?_⟩
  intro q hq
  rw [← hcalled, ← hlog]
  exact later_refusal ht hq

end

/-! #### A length that is too large, and a chunk behind one that is not -/

/-- A buffer of 60 bytes. -/
def smallConfig : Config := { maxRequestStreambufSize := 60 }

/-- The head of a request that announces 99 bytes. -/
def longRequest : Bytes :=
  ascii "POST / HTTP/1.1" ++ crlf ++ ascii "Content-Length: 99" ++ crlf ++ crlf

/-- `on_error` is told, and the client is told nothing. -/
theorem too_large_length :
    (({} : Session).read.complete { onError := true } smallConfig .insertion true
      ⟨none, longRequest⟩).log = [.unsent .clientErrorPayloadTooLarge, .onError .messageSize] ∧
    ¬ Answered { onError := true } smallConfig .insertion ({} : Session).read
      ((({} : Session).read.complete { onError := true } smallConfig .insertion true
        ⟨none, longRequest⟩).refusal ℕ .insertion) := by
  have hlog : (({} : Session).read.complete { onError := true } smallConfig .insertion true
      ⟨none, longRequest⟩).log = [.unsent .clientErrorPayloadTooLarge, .onError .messageSize] := by
    decide +kernel
  have hallowed : Allowed smallConfig ({} : Session).read (.complete true ⟨none, longRequest⟩) :=
    ⟨.head, rfl, by unfold Session.AllowedRead AllowedUntil; decide +kernel⟩
  obtain ⟨t, -, ht, heq⟩ := @refuses_complete { onError := true } smallConfig .insertion _
    (Machine.Reach.init rfl) true _ hallowed ⟨_, hlog⟩
  refine ⟨hlog, ?_⟩
  rw [heq]
  exact not_answered ht

/-- A request whose first chunk is one byte, and whose second one has 60. -/
def longChunks : Bytes :=
  ascii "POST / HTTP/1.1" ++ crlf ++ ascii "Transfer-Encoding: chunked" ++ crlf ++ crlf ++
    ascii "1" ++ crlf ++ ascii "a" ++ crlf ++ ascii "3C" ++ crlf

/-- The state in which the size of the second chunk is read. -/
def longSecondChunk : Session :=
  [Act.complete true ⟨none, longChunks⟩, .complete true ⟨none, []⟩].foldl
    (act {} smallConfig .insertion) ({} : Session).read

theorem too_large_unanswered_second :
    ¬ Answered {} smallConfig .insertion longSecondChunk
        ((longSecondChunk.complete {} smallConfig .insertion true ⟨none, []⟩).refusal ℕ .insertion) := by
  have hstart : Reachable {} smallConfig .insertion ({} : Session).read := Machine.Reach.init rfl
  have hhead : Allowed smallConfig ({} : Session).read (.complete true ⟨none, longChunks⟩) :=
    ⟨.head, rfl, by unfold Session.AllowedRead AllowedUntil; decide +kernel⟩
  have hfirst : Allowed smallConfig
      (act {} smallConfig .insertion ({} : Session).read (.complete true ⟨none, longChunks⟩))
      (.complete true ⟨none, []⟩) :=
    ⟨.chunkSize, by decide +kernel, by unfold Session.AllowedRead AllowedUntil; decide +kernel⟩
  have hsecond : Allowed smallConfig longSecondChunk (.complete true ⟨none, []⟩) :=
    ⟨.chunkSize, by decide +kernel, by unfold Session.AllowedRead AllowedUntil; decide +kernel⟩
  exact (too_large_unanswered ℕ ((hstart.step hhead).step hfirst) hsecond
    ⟨[], by decide +kernel⟩).1

end SimpleWeb.ServerBase
