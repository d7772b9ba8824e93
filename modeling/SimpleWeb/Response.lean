/-
**The response to a request, from its first byte to the next request.**

`ServerBase::Response` (`webserver/server_http.hpp`) is a stream, a queue of what `send` has taken from
the stream (`SendQueue`), and a number of references.  The program holds references, among them the
argument of the resource function; so does the handler of every write of the queue, until it is done.
When the last reference is dropped, `send_on_delete` writes what is left in the stream; the handler of
that write reads the next request, if the connection is kept.

A reference that is captured by a callback counts as one of the program's.  The program may copy and
drop its references, write to the stream and call `send` in any order and at any time at which there is
a reference, also while a callback runs.

Main definitions:

* `SimpleWeb.ServerBase.Response`, `SimpleWeb.ServerBase.Response.references` — a response, and how
  many references there are to it;
* `SimpleWeb.ServerBase.Response.send`, `SimpleWeb.ServerBase.Response.dropped`,
  `SimpleWeb.ServerBase.Response.onSentOnDelete` — `send`, the deleter, and the handler of its write;
* `SimpleWeb.ServerBase.Response.Reachable` — any interleaving of all of them;
* `SimpleWeb.ServerBase.Response.Sound`, `SimpleWeb.ServerBase.Response.Orderly` — the invariant, and
  what it means for the client.

Main results:

* `SimpleWeb.ServerBase.Response.Sound.act` — what one step preserves;
* `SimpleWeb.ServerBase.response_orderly` — **bytes leave in order and once, and the next request is
  read after them**.
-/

import SimpleWeb.SendQueue
import SimpleWeb.ServerBase

set_option relaxedAutoImplicit false
set_option autoImplicit false

namespace SimpleWeb.ServerBase

/-- Whether the response still has references; without them, the write of the rest of its stream is
outstanding, or completed. -/
inductive Response.Stage
  | alive
  | sendingRest (data : Bytes)
  | deleted

/-- A response.  `holders` is the number of references that the program holds.  `written`,
`transmitted` and `reads` record, for the specifications, the bytes written to the stream, those that
writes have transmitted, and how often a read of the next request has begun. -/
structure Response (κ : Type*) where
  session : Session
  streambuf : Bytes := []
  sendQueue : SendQueue Bytes κ ErrorCode := {}
  closeConnectionAfterResponse : Bool := false
  holders : ℕ := 1
  stage : Response.Stage := .alive
  written : Bytes := []
  transmitted : Bytes := []
  reads : ℕ := 0

namespace Response

variable {κ : Type*}

/-! ### Operations -/

/-- The references of the program, of the handlers of outstanding writes, and of handlers that run. -/
def references (r : Response κ) : ℕ :=
  r.holders + r.sendQueue.outstanding.length + r.sendQueue.handlers.length

/-- Bytes are written to the stream. -/
def write (r : Response κ) (data : Bytes) : Response κ :=
  { r with streambuf := r.streambuf ++ data, written := r.written ++ data }

/-- The stream goes to the queue, and a new one takes its place. -/
def send (r : Response κ) (callback : Option κ) : Response κ :=
  { r with streambuf := [], sendQueue := r.sendQueue.send ⟨r.streambuf, callback⟩ }

/-- The rest of the stream is written. -/
def sendOnDelete (r : Response κ) : Response κ := { r with stage := .sendingRest r.streambuf }

/-- A reference has been dropped; the deleter runs if it was the last one. -/
def dropped (r : Response κ) : Response κ :=
  match r.stage with
  | .alive => if r.references = 0 then r.sendOnDelete else r
  | .sendingRest _ | .deleted => r

/-- The program drops a reference. -/
def release (r : Response κ) : Response κ := { r with holders := r.holders - 1 }.dropped

/-- The outstanding write number `i` of the queue is completed, and its handler runs up to where it
gives up the lock. -/
def complete (r : Response κ) (i : ℕ) (lock : Bool) (ec : Option ErrorCode) : Response κ :=
  { r with
    sendQueue := r.sendQueue.complete i lock ec
    transmitted :=
      r.transmitted ++ if ec.isNone then (r.sendQueue.outstanding[i]?).getD [] else [] }.dropped

/-- The handler number `i` calls its next callback, or is done. -/
def handle (r : Response κ) (i : ℕ) : Response κ :=
  { r with sendQueue := r.sendQueue.handle i }.dropped

variable (members : Members) (order : Order)

/-- The handler of the write of the rest of the stream. -/
def onSentOnDelete (r : Response κ) (lock : Bool) (ec : Option ErrorCode) : Response κ :=
  let session := r.session.onResponseSent members order r.closeConnectionAfterResponse lock ec
  { r with session, reads := r.reads + if session.reading = some .head then 1 else 0 }

/-- The write of the rest of the stream is completed. -/
def completeRest (r : Response κ) (lock : Bool) (ec : Option ErrorCode) : Response κ :=
  match r.stage with
  | .sendingRest data =>
      { r with
        stage := .deleted
        transmitted := r.transmitted ++ if ec.isNone then data else [] }.onSentOnDelete members order
          lock ec
  | .alive | .deleted => r

/-! ### Runs -/

/-- What can happen to a response. -/
inductive Act (κ : Type*)
  | write (data : Bytes)
  | send (callback : Option κ)
  | setClose (closeConnectionAfterResponse : Bool)
  | acquire
  | release
  | complete (i : ℕ) (lock : Bool) (ec : Option ErrorCode)
  | handle (i : ℕ)
  | completeRest (lock : Bool) (ec : Option ErrorCode)

def act (r : Response κ) : Act κ → Response κ
  | .write data => r.write data
  | .send callback => r.send callback
  | .setClose closeConnectionAfterResponse => { r with closeConnectionAfterResponse }
  | .acquire => { r with holders := r.holders + 1 }
  | .release => r.release
  | .complete i lock ec => r.complete i lock ec
  | .handle i => r.handle i
  | .completeRest lock ec => r.completeRest members order lock ec

/-- The program does what it likes as long as there is a reference; outstanding writes succeed, and
handlers go on. -/
def Allowed (r : Response κ) : Act κ → Prop
  | .write _ | .send _ | .setClose _ | .acquire => 0 < r.references
  | .release => 0 < r.holders
  | .complete i lock ec => i < r.sendQueue.outstanding.length ∧ lock = true ∧ ec = none
  | .handle i => i < r.sendQueue.handlers.length
  | .completeRest lock ec => lock = true ∧ ec = none

/-- The states of a response that has been made for a request. -/
def Reachable : Response κ → Prop :=
  Machine.Reach (act members order) Allowed fun r =>
    ∃ session : Session, session.responding = true ∧ session.reading = none ∧ r = { session }

/-! ### The invariant -/

/-- What has been written to the stream and not been transmitted, in order. -/
def remaining (r : Response κ) : Bytes :=
  (r.sendQueue.queue.map SendQueue.Entry.data).flatten ++
    match r.stage with
    | .alive => r.streambuf
    | .sendingRest data => data
    | .deleted => []

/-- The outstanding writes: that of the queue, and that of the rest of the stream. -/
def writes (r : Response κ) : List Bytes :=
  r.sendQueue.outstanding ++
    match r.stage with
    | .sendingRest data => [data]
    | .alive | .deleted => []

/-- The queue is sound; there are references as long as the response is alive; no byte is lost,
doubled or out of place; and no read of the next request has begun before the end. -/
structure Sound (r : Response κ) : Prop where
  sendQueue : r.sendQueue.Sound
  alive : r.stage = .alive ↔ 0 < r.references
  bytes : r.transmitted ++ r.remaining = r.written
  reading : r.stage ≠ .deleted → r.reads = 0 ∧ r.session.reading = none
  reads : r.reads ≤ 1

variable {members order} {r : Response κ}

theorem sound_init {session : Session} (h : session.reading = none) :
    ({ session } : Response κ).Sound := by
  refine ⟨SendQueue.sound_init, ?_, rfl, fun _ => ⟨rfl, h⟩, Nat.zero_le _⟩
  exact iff_of_true rfl Nat.one_pos

/-- Without references there is nothing left on the queue. -/
theorem queue_of_references (hsound : r.sendQueue.Sound) (h : r.references = 0) :
    r.sendQueue.queue = [] := by
  have houtstanding := hsound.outstanding
  cases hqueue : r.sendQueue.queue with
  | nil => rfl
  | cons e queue =>
      rw [hqueue] at houtstanding
      rw [references, houtstanding] at h
      simp at h

/-- **The deleter**: it runs when the queue is empty, and what is left is the stream. -/
theorem sound_dropped (hsound : r.sendQueue.Sound) (hstage : r.stage = .alive)
    (hbytes : r.transmitted ++ r.remaining = r.written)
    (hreading : r.reads = 0 ∧ r.session.reading = none) : r.dropped.Sound := by
  have hreads : r.reads ≤ 1 := by omega
  unfold dropped
  rw [hstage]
  dsimp only
  split
  · next hzero =>
      refine ⟨hsound, ?_, ?_, fun _ => hreading, hreads⟩
      · refine iff_of_false (by simp [sendOnDelete]) ?_
        show ¬ 0 < r.references
        omega
      · show r.transmitted ++ r.sendOnDelete.remaining = r.written
        rw [← hbytes, remaining, remaining, hstage]
        rfl
  · next hpos => exact ⟨hsound, iff_of_true hstage (by omega), hbytes, fun _ => hreading, hreads⟩

/-- Something is on the queue, so there is a reference. -/
theorem references_pos (hsound : r.sendQueue.Sound) (h : r.sendQueue.queue ≠ []) :
    0 < r.references := by
  by_contra hzero
  exact h (queue_of_references hsound (by omega))

/-! ### The steps -/

theorem Sound.send (h : r.Sound) (hr : 0 < r.references) (callback : Option κ) :
    (r.send callback).Sound := by
  have hstage := h.alive.2 hr
  have hsound : (r.sendQueue.send ⟨r.streambuf, callback⟩).Sound := h.sendQueue.send _
  refine ⟨hsound, iff_of_true hstage ?_, ?_, h.reading, h.reads⟩
  · refine @references_pos κ (r.send callback) hsound ?_
    simp [Response.send]
  · show r.transmitted ++ (r.send callback).remaining = r.written
    rw [← h.bytes, remaining, remaining]
    simp [Response.send, hstage]

/-- The entry whose write has succeeded is the first one. -/
theorem Sound.complete (h : r.Sound) {i : ℕ} (hi : i < r.sendQueue.outstanding.length) :
    (r.complete i true none).Sound := by
  have houtstanding := h.sendQueue.outstanding
  have hr : 0 < r.references := by
    rw [references]
    omega
  have hstage := h.alive.2 hr
  have hreading := h.reading (by simp [hstage])
  cases hqueue : r.sendQueue.queue with
  | nil =>
      rw [hqueue] at houtstanding
      simp [houtstanding] at hi
  | cons e queue =>
      rw [hqueue] at houtstanding
      obtain rfl : i = 0 := by simpa [houtstanding] using hi
      have hrest : (r.sendQueue.complete 0 true none).queue = queue := by
        simp [SendQueue.complete, houtstanding, SendQueue.queue_onWritten, hqueue]
      refine sound_dropped (h.sendQueue.complete hi none) hstage ?_ hreading
      rw [← h.bytes, remaining, remaining]
      simp only [hrest, hqueue, houtstanding, hstage]
      simp

theorem Sound.handle (h : r.Sound) {i : ℕ} (hi : i < r.sendQueue.handlers.length) :
    (r.handle i).Sound := by
  have hr : 0 < r.references := by
    rw [references]
    omega
  have hstage := h.alive.2 hr
  have hreading := h.reading (by simp [hstage])
  obtain ⟨handlers, called, heq⟩ := SendQueue.handle_eq r.sendQueue i
  refine sound_dropped (h.sendQueue.handle i) hstage ?_ hreading
  rw [← h.bytes, remaining, remaining, heq]

theorem Sound.release (h : r.Sound) (hr : 0 < r.holders) : r.release.Sound := by
  have hpos : 0 < r.references := by
    rw [references]
    omega
  have hstage := h.alive.2 hpos
  exact sound_dropped h.sendQueue hstage h.bytes (h.reading (by simp [hstage]))

theorem Sound.completeRest (h : r.Sound) : (r.completeRest members order true none).Sound := by
  cases hstage : r.stage with
  | alive => simpa only [Response.completeRest, hstage] using h
  | deleted => simpa only [Response.completeRest, hstage] using h
  | sendingRest data =>
      have hreading := h.reading (by simp [hstage])
      have hzero : ¬ 0 < r.references := by
        rw [← h.alive, hstage]
        simp
      have hqueue := queue_of_references h.sendQueue (by omega)
      have hbytes := h.bytes
      rw [remaining, hstage, hqueue] at hbytes
      simp only [Response.completeRest, hstage, onSentOnDelete]
      refine ⟨h.sendQueue, iff_of_false (by simp) hzero, ?_, by simp, ?_⟩
      · rw [remaining, hqueue]
        simpa using hbytes
      · dsimp only
        rw [hreading.1]
        split
        · exact le_rfl
        · exact Nat.zero_le _

/-- **What one step preserves.** -/
theorem Sound.act (h : r.Sound) {a : Act κ} (ha : r.Allowed a) : (r.act members order a).Sound := by
  cases a with
  | write data =>
      have hstage := h.alive.2 ha
      refine ⟨h.sendQueue, h.alive, ?_, h.reading, h.reads⟩
      show r.transmitted ++ (r.write data).remaining = r.written ++ data
      rw [← h.bytes, remaining, remaining]
      simp [Response.write, hstage]
  | send callback => exact h.send ha callback
  | setClose closeConnectionAfterResponse =>
      exact ⟨h.sendQueue, h.alive, h.bytes, h.reading, h.reads⟩
  | acquire =>
      have hstage := h.alive.2 ha
      refine ⟨h.sendQueue, iff_of_true hstage ?_, h.bytes, h.reading, h.reads⟩
      show 0 < r.holders + 1 + r.sendQueue.outstanding.length + r.sendQueue.handlers.length
      omega
  | release => exact h.release ha
  | complete i lock ec =>
      obtain ⟨hi, rfl, rfl⟩ := ha
      exact h.complete hi
  | handle i => exact h.handle ha
  | completeRest lock ec =>
      obtain ⟨rfl, rfl⟩ := ha
      exact h.completeRest

theorem Reachable.sound (h : Reachable members order r) : r.Sound := by
  refine Machine.Reach.invariant ?_ ?_ h
  · rintro r ⟨session, -, hreading, rfl⟩
    exact sound_init hreading
  · intro r a hr ha
    exact hr.act ha

/-! ### What it means for the client -/

/-- The bytes transmitted are those written to the stream, in order and each once, up to those that
remain, and all of them in the end; one write is outstanding at most; the rest of the stream is written
when the queue is empty; and the next request is read once at most, after that write. -/
structure Orderly (r : Response κ) : Prop where
  bytes : r.transmitted ++ r.remaining = r.written
  all : r.stage = .deleted → r.transmitted = r.written
  one : r.writes.length ≤ 1
  alive : r.stage = .alive ↔ 0 < r.references
  rest : r.stage ≠ .alive → r.sendQueue.queue = []
  reads : r.reads ≤ 1
  afterwards : 0 < r.reads → r.stage = .deleted

theorem Sound.orderly (h : r.Sound) : r.Orderly := by
  have hrest : r.stage ≠ .alive → r.sendQueue.queue = [] := by
    intro hstage
    rw [ne_eq, h.alive] at hstage
    exact queue_of_references h.sendQueue (by omega)
  refine ⟨h.bytes, ?_, ?_, h.alive, hrest, h.reads, ?_⟩
  · intro hdeleted
    rw [← h.bytes, remaining, hrest (by simp [hdeleted]), hdeleted]
    simp
  · rw [writes, h.sendQueue.outstanding]
    cases hstage : r.stage with
    | alive => cases r.sendQueue.queue <;> simp
    | sendingRest data => simp [hrest (by simp [hstage])]
    | deleted => simp [hrest (by simp [hstage])]
  · intro hpos
    by_contra hstage
    have hreads := (h.reading hstage).1
    omega

end Response

/-- **Bytes leave in order and once, and the next request is read after them**, whatever the program
does with a response, and in whatever order its writes are completed and their callbacks called. -/
theorem response_orderly {κ : Type*} (members : Members) (order : Order) {r : Response κ}
    (h : Response.Reachable members order r) : r.Orderly :=
  h.sound.orderly

/-! #### A response that is sent in two parts -/

/-- The session of a request that has been read. -/
def sampleSession : Session where
  request := ⟨ascii "GET", ascii "/", [], ascii "1.1", []⟩
  responding := true

/-- Two bytes are sent, and two are left in the stream, one of them by the callback. -/
def sampleResponse : Response ℕ :=
  [.write (ascii "ab"), .send (some 1), .write (ascii "c"), .release, .complete 0 true none, .handle 0,
    .write (ascii "d"), .handle 0, .completeRest true none].foldl
    (Response.act {} .insertion) { session := sampleSession }

theorem response_orderly_sample :
    sampleResponse.transmitted = ascii "abcd" ∧ sampleResponse.reads = 1 := by
  have hreach : Response.Reachable {} .insertion sampleResponse := by
    have hstep : ∀ {r : Response ℕ}, Response.Reachable {} .insertion r →
        ∀ a, r.Allowed a → Response.Reachable {} .insertion (r.act {} .insertion a) :=
      fun hr _ ha => Machine.Reach.step hr ha
    have h₁ := hstep (Machine.Reach.init ⟨sampleSession, rfl, rfl, rfl⟩) (.write (ascii "ab"))
      Nat.one_pos
    have h₂ := hstep h₁ (.send (some 1)) Nat.one_pos
    have h₃ := hstep h₂ (.write (ascii "c")) Nat.two_pos
    have h₄ := hstep h₃ .release Nat.one_pos
    have h₅ := hstep h₄ (.complete 0 true none) ⟨Nat.one_pos, rfl, rfl⟩
    have h₆ := hstep h₅ (.handle 0) Nat.one_pos
    have h₇ := hstep h₆ (.write (ascii "d")) Nat.one_pos
    have h₈ := hstep h₇ (.handle 0) Nat.one_pos
    exact hstep h₈ (.completeRest true none) ⟨rfl, rfl⟩
  exact ⟨(response_orderly {} .insertion hreach).all rfl, rfl⟩

end SimpleWeb.ServerBase
