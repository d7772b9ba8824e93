/-
**The length field of a message and its stream buffer.**

`length` and `streambuf` of a message are updated in separate places; `size` returns the one and
`string` the other.  Along every run they agree modulo `2 ^ 64`, and no message is longer than the
frames decoded so far, so they agree as long as these do not add up to `2 ^ 64` bytes.  This is
proved of the messages handed to `on_message` and of the fragments kept for the next one.

Main definitions:

* `SimpleWeb.frameBytes` — the payload bytes of the frames in a log;
* `SimpleWeb.InMessage.Sized` — the length agrees with the buffer, and the buffer is bounded;
* `SimpleWeb.Sizes` — the invariant: delivered and pending messages are sized.

Main results:

* `SimpleWeb.Server.Reachable.sizes`, `SimpleWeb.Client.Reachable.sizes` — **every reachable
  connection satisfies the invariant**;
* `SimpleWeb.Sizes.size_eq` — what it says about a delivered message.
-/

import SimpleWeb.Steps

set_option relaxedAutoImplicit false
set_option autoImplicit false

namespace SimpleWeb

/-! ### Sized messages -/

/-- The payload bytes of a frame. -/
def Event.payloadBytes : Event → ℕ
  | .frame _ payload => payload.length
  | _ => 0

/-- The payload bytes of all frames decoded. -/
def frameBytes (log : List Event) : ℕ := (log.map Event.payloadBytes).sum

@[simp] theorem frameBytes_append (log log' : List Event) :
    frameBytes (log ++ log') = frameBytes log + frameBytes log' := by
  simp [frameBytes]

@[simp] theorem frameBytes_frame (b : UInt8) (payload : Bytes) :
    frameBytes [.frame b payload] = payload.length := by
  simp [frameBytes, Event.payloadBytes]

/-- The length of a message agrees with its buffer, which holds at most `bound` bytes. -/
structure InMessage.Sized (bound : ℕ) (m : InMessage) : Prop where
  length_eq : m.length = UInt64.ofNat m.streambuf.length
  le : m.streambuf.length ≤ bound

theorem InMessage.Sized.mono {bound bound' : ℕ} {m : InMessage} (h : m.Sized bound)
    (hle : bound ≤ bound') : m.Sized bound' :=
  ⟨h.length_eq, h.le.trans hle⟩

/-- A message put at the end of another. -/
theorem InMessage.Sized.append {bound bound' : ℕ} {m m' : InMessage} (h : m.Sized bound)
    (h' : m'.Sized bound') : (m.append m').Sized (bound + bound') := by
  constructor
  · rw [InMessage.append, h.length_eq, h'.length_eq, List.length_append, UInt64.ofNat_add]
  · have := h.le
    have := h'.le
    simp only [InMessage.append, List.length_append]
    omega

/-- A frame's own message. -/
theorem InMessage.sized_of_length {b : UInt8} {length : UInt64} {payload : Bytes}
    (h : payload.length = length.toNat) : InMessage.Sized payload.length ⟨b, length, payload⟩ :=
  ⟨by rw [h, UInt64.ofNat_toNat], le_rfl⟩

/-! ### The invariant -/

/-- Delivered and pending messages have the length they say they have. -/
structure Sizes (log : List Event) (pending : Option InMessage) : Prop where
  delivered : ∀ m, .onMessage m ∈ log → m.Sized (frameBytes log)
  pending : ∀ m, pending = some m → m.Sized (frameBytes log)

namespace Sizes

variable {log log' : List Event} {pending : Option InMessage}

theorem empty : Sizes [] Option.none := ⟨by simp, by simp⟩

/-- What is no longer pending need not be sized. -/
theorem none (h : Sizes log pending) : Sizes log none := ⟨h.delivered, by simp⟩

theorem quietly (h : Sizes log pending) (hq : Quietly log log') : Sizes log' pending := by
  obtain ⟨es, rfl, hes⟩ := hq
  have hle : frameBytes log ≤ frameBytes (log ++ es) := by simp
  constructor
  · intro m hm
    rcases List.mem_append.1 hm with hm | hm
    · exact (h.delivered m hm).mono hle
    · have := (hes _ hm).1
      simp [Event.message?] at this
  · intro m hm
    exact (h.pending m hm).mono hle

theorem frame (h : Sizes log pending) (b : UInt8) (payload : Bytes) :
    Sizes (log ++ [.frame b payload]) pending := by
  have hle : frameBytes log ≤ frameBytes (log ++ [.frame b payload]) := by simp
  constructor
  · intro m hm
    rcases List.mem_append.1 hm with hm | hm
    · exact (h.delivered m hm).mono hle
    · simp at hm
  · intro m hm
    exact (h.pending m hm).mono hle

/-- Another message becomes the pending one. -/
theorem store (h : Sizes log pending) {m : InMessage} (hm : m.Sized (frameBytes log)) :
    Sizes log (some m) := by
  refine ⟨h.delivered, ?_⟩
  rintro _ ⟨⟩
  exact hm

/-- A message is delivered, if the callback is set, and nothing is pending. -/
theorem deliver (h : Sizes log pending) {m : InMessage} (hm : m.Sized (frameBytes log))
    (set : Bool) : Sizes (log ++ if set then [.onMessage m] else []) Option.none := by
  cases set with
  | false => simpa using h.none
  | true =>
      have hbytes : frameBytes [.onMessage m] = 0 := rfl
      refine ⟨?_, by simp⟩
      intro m' hm'
      rw [if_pos rfl] at hm' ⊢
      rw [frameBytes_append, hbytes, Nat.add_zero]
      rcases List.mem_append.1 hm' with hm' | hm'
      · exact h.delivered m' hm'
      · obtain rfl : m' = m := by simpa using hm'
        exact hm

/-- **A delivered message has the size it reports**, unless the frames overflow `2 ^ 64`. -/
theorem size_eq (h : Sizes log pending) (hbytes : frameBytes log < 2 ^ 64) {m : InMessage}
    (hm : .onMessage m ∈ log) : m.size.toNat = m.string.length := by
  have hsized := h.delivered m hm
  have := hsized.le
  rw [InMessage.size, InMessage.string, hsized.length_eq]
  exact UInt64.toNat_ofNat_of_lt' (by simp only [UInt64.size]; omega)

end Sizes

/-! ### The server -/

namespace Server

variable {endpoint : Callbacks} {config : Config}

/-- The pending message, as long as the connection goes on reading. -/
def Conn.live (c : Conn) : Option InMessage :=
  if c.reading.isSome then c.fragmentedInMessage else none

theorem Conn.live_of_reading {c : Conn} {op : ReadOp} (h : c.reading = some op) :
    c.live = c.fragmentedInMessage := by
  simp [live, h]

/-- It is enough to know that the fragments are sized. -/
theorem sizes_live {c : Conn} (h : Sizes c.log c.fragmentedInMessage) : Sizes c.log c.live := by
  unfold Conn.live
  split
  · exact h
  · exact h.none

/-- The fragments together with the new one, or the frame by itself. -/
theorem sized_inMessage {c : Conn} (h : Sizes c.log c.fragmentedInMessage) (b : UInt8)
    {length : UInt64} {payload : Bytes} (hlen : payload.length = length.toNat) :
    (c.inMessage length b payload).Sized (frameBytes (c.log ++ [.frame b payload])) := by
  have hle : payload.length ≤ frameBytes (c.log ++ [.frame b payload]) := by simp
  unfold Conn.inMessage
  split
  · cases hp : c.fragmentedInMessage with
    | none => exact (InMessage.sized_of_length hlen).mono hle
    | some m =>
        have happend := (h.pending m hp).append (@InMessage.sized_of_length b length payload hlen)
        simpa [InMessage.append] using happend
  · exact (InMessage.sized_of_length hlen).mono hle

/-- What is done with a frame keeps the invariant. -/
theorem sizes_handleFrame {c : Conn} (h : Sizes c.log c.fragmentedInMessage)
    (hr : c.reading = none) (b : UInt8) {length : UInt64} {payload : Bytes}
    (hlen : payload.length = length.toNat) :
    Sizes (c.handleFrame endpoint length b payload).log
      (c.handleFrame endpoint length b payload).live := by
  have hframe := h.frame b payload
  have hm := sized_inMessage h b hlen
  rcases @handleFrame_cases endpoint c length b payload with
    ⟨-, hnone, hq⟩ | ⟨-, hp, hq⟩ | ⟨-, -, hp, hlog⟩ | ⟨-, -, hp, hlog⟩
  · have hlive : (c.handleFrame endpoint length b payload).live = none := by
      simp [Conn.live, hnone, hr]
    rw [hlive]
    exact (hframe.quietly hq).none
  · refine sizes_live ?_
    rw [hp]
    split
    · exact (hframe.store hm).quietly hq
    · exact hframe.quietly hq
  · refine sizes_live ?_
    rw [hp, hlog]
    exact hframe.store hm
  · refine sizes_live ?_
    rw [hp, hlog]
    exact hframe.deliver hm _

/-- Whatever happens to the connection keeps the invariant. -/
theorem sizes_act {c : Conn} (h : Sizes c.log c.live) {a : Act} (ha : Allowed c a) :
    Sizes (act endpoint config c a).log (act endpoint config c a).live := by
  have hquiet : ∀ {c' : Conn}, c.Quiet c' → c'.reading = c.reading → Sizes c'.log c'.live := by
    intro c' hq hr
    have hlive : c'.live = c.live := by simp [Conn.live, hr, hq.1]
    rw [hlive]
    exact h.quietly hq.2
  cases a with
  | send outMessage b => exact hquiet (Conn.quiet_send _ _ _) rfl
  | sendClose status reason =>
      exact hquiet (Conn.quiet_sendClose _ _ _) (Conn.reading_sendClose _ _ _)
  | complete lock k =>
      obtain ⟨op, hr, hk⟩ := ha
      have hsizes : Sizes c.log c.fragmentedInMessage := by
        rwa [Conn.live_of_reading hr] at h
      rcases @complete_cases endpoint config c op hr lock k with hq | hframe
      · refine sizes_live ?_
        change Sizes (c.complete endpoint config lock k).log _
        rw [show (act endpoint config c (.complete lock k)).fragmentedInMessage =
          c.fragmentedInMessage from hq.1]
        exact hsizes.quietly hq.2
      · obtain ⟨length, b, payload, streambuf, -, -, -, hlen, heq⟩ := hframe
        simp only [act, heq]
        exact sizes_handleFrame (c := { c with reading := none, streambuf := streambuf }) hsizes
          rfl b hlen

/-- **Every reachable connection satisfies the invariant.** -/
theorem Reachable.sizes {c : Conn} (h : Reachable endpoint config c) : Sizes c.log c.live := by
  refine @Machine.Reach.invariant _ _ _ _ _ (fun c => Sizes c.log c.live) ?_
    (fun _ _ hc ha => sizes_act hc ha) c h
  rintro _ ⟨streambuf, rfl⟩
  have hopen : Quietly [] (opened endpoint streambuf).log :=
    Quietly.call _ _ ⟨rfl, rfl⟩
  exact Sizes.empty.quietly hopen

end Server

/-! ### The client -/

namespace Client

variable {callbacks : Callbacks} {config : Config}

/-- The pending message, as long as the connection goes on reading. -/
def Conn.live (c : Conn) : Option InMessage :=
  if c.reading.isSome then c.fragmentedInMessage else none

theorem Conn.live_of_reading {c : Conn} {op : ReadOp} (h : c.reading = some op) :
    c.live = c.fragmentedInMessage := by
  simp [live, h]

/-- It is enough to know that the fragments are sized. -/
theorem sizes_live {c : Conn} (h : Sizes c.log c.fragmentedInMessage) : Sizes c.log c.live := by
  unfold Conn.live
  split
  · exact h
  · exact h.none

/-- What is done with a frame keeps the invariant. -/
theorem sizes_handleFrame {c : Conn} (h : Sizes c.log c.fragmentedInMessage)
    (hr : c.reading = none) (hlen : c.inMessage.streambuf.length = c.inMessage.length.toNat)
    (next : InMessage) (k : ℕ) :
    Sizes (c.handleFrame callbacks next k).log (c.handleFrame callbacks next k).live := by
  have hframe := h.frame c.inMessage.finRsvOpcode c.inMessage.streambuf
  have hmsg : ∀ b, InMessage.Sized c.inMessage.streambuf.length
      ⟨b, c.inMessage.length, c.inMessage.streambuf⟩ := fun b => InMessage.sized_of_length hlen
  have hsingle : ∀ b, InMessage.Sized
      (frameBytes (c.log ++ [.frame c.inMessage.finRsvOpcode c.inMessage.streambuf]))
      ⟨b, c.inMessage.length, c.inMessage.streambuf⟩ := fun b => (hmsg b).mono (by simp)
  have happend : ∀ f, c.fragmentedInMessage = some f → InMessage.Sized
      (frameBytes (c.log ++ [.frame c.inMessage.finRsvOpcode c.inMessage.streambuf]))
      (f.append c.inMessage) := by
    intro f hp
    simpa using (h.pending f hp).append (hmsg c.inMessage.finRsvOpcode)
  rcases @handleFrame_cases callbacks c next k with
    ⟨-, hnone, hq⟩ | ⟨-, -, -, hp, hq⟩ | ⟨-, -, -, -, hp, hlog⟩ | ⟨-, -, -, -, hp, hlog⟩
  · have hlive : (c.handleFrame callbacks next k).live = none := by
      simp [Conn.live, hnone, hr]
    rw [hlive]
    exact (hframe.quietly hq).none
  · refine sizes_live ?_
    rw [hp]
    exact hframe.quietly hq
  · refine sizes_live ?_
    rw [hp, hlog]
    refine hframe.store ?_
    cases hpending : c.fragmentedInMessage with
    | none => exact hsingle _
    | some f => exact happend f hpending
  · refine sizes_live ?_
    rw [hp, hlog]
    refine hframe.deliver ?_ _
    cases hpending : c.fragmentedInMessage with
    | none => exact hsingle _
    | some f => exact happend f hpending

/-- Whatever happens to the connection keeps the invariant. -/
theorem sizes_act {c : Conn} (h : Sizes c.log c.live) (hc : c.Counted) {a : Act}
    (ha : Allowed c a) :
    Sizes (act callbacks config c a).log (act callbacks config c a).live := by
  have hquiet : ∀ {c' : Conn}, c.Quiet c' → c'.reading = c.reading → Sizes c'.log c'.live := by
    intro c' hq hr
    have hlive : c'.live = c.live := by simp [Conn.live, hr, hq.1]
    rw [hlive]
    exact h.quietly hq.2
  cases a with
  | send outMessage b => exact hquiet (Conn.quiet_send _ _ _) rfl
  | sendClose status reason =>
      exact hquiet (Conn.quiet_sendClose _ _ _) (Conn.reading_sendClose _ _ _)
  | complete lock k =>
      obtain ⟨op, hr, hk⟩ := ha
      have hsizes : Sizes c.log c.fragmentedInMessage := by
        rwa [Conn.live_of_reading hr] at h
      rcases @complete_cases callbacks config c op k hc hr hk lock with ⟨hq, -⟩ | hframe
      · refine sizes_live ?_
        change Sizes (c.complete callbacks config lock k).log _
        rw [show (act callbacks config c (.complete lock k)).fragmentedInMessage =
          c.fragmentedInMessage from hq.1]
        exact hsizes.quietly hq.2
      · obtain ⟨-, payload, next, k', -, -, -, hlen, -, -, heq⟩ := hframe
        simp only [act, heq]
        exact sizes_handleFrame (c := { c with
          reading := none
          inMessage := { c.inMessage with streambuf := payload } }) hsizes rfl hlen next k'

/-- The invariant holds in every run, if it holds where the run starts and the buffered bytes are
counted right there. -/
theorem sizes_of_reach {start : Conn → Prop}
    (hstart : ∀ c, start c → Sizes c.log c.live ∧ c.Counted) {c : Conn}
    (h : Machine.Reach (act callbacks config) Allowed start c) : Sizes c.log c.live := by
  have hboth : Sizes c.log c.live ∧ c.Counted := by
    refine @Machine.Reach.invariant _ _ _ _ _ (fun c => Sizes c.log c.live ∧ c.Counted) hstart ?_
      c h
    rintro s a ⟨hs, hc⟩ ha
    exact ⟨sizes_act hs hc ha, hc.act ha⟩
  exact hboth.1

/-- Where the bytes behind the response are counted right, both hold. -/
theorem sizes_opened (rd : ℕ → Mask) (streambuf : Bytes) :
    Sizes (opened callbacks rd streambuf streambuf.length).log
      (opened callbacks rd streambuf streambuf.length).live ∧
    (opened callbacks rd streambuf streambuf.length).Counted := by
  have hopen : Quietly [] (opened callbacks rd streambuf streambuf.length).log :=
    Quietly.call _ _ ⟨rfl, rfl⟩
  exact ⟨Sizes.empty.quietly hopen, counted_opened rd streambuf⟩

/-- **Every reachable connection satisfies the invariant.** -/
theorem Reachable.sizes {c : Conn} (h : Reachable callbacks config c) : Sizes c.log c.live := by
  apply sizes_of_reach _ h
  rintro _ ⟨rd, streambuf, rfl⟩
  exact sizes_opened rd streambuf

end Client

end SimpleWeb
