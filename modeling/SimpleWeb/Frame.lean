/-
**WebSocket frames and messages on the wire.**

What a peer may send, apart from how this program reads and writes it (RFC 6455, sections 5.2 and
5.4).  A frame is a header byte, a length in one of three forms, a mask and a payload; it is sent
masked to a server and unmasked to a client.  A message is an opcode and at least one fragment; a
stream is well formed when its data frames are the fragments of messages, in order, and its other
frames are final pings and pongs.

Main definitions:

* `SimpleWeb.LengthForm`, `SimpleWeb.Frame` — frames; the length form holds the payload's length;
* `SimpleWeb.Frame.bytes` — a frame on the wire;
* `SimpleWeb.Message`, `SimpleWeb.Message.frames` — messages, and the frames they are cut into;
* `SimpleWeb.WellFormed` — a well-formed stream of frames;
* `SimpleWeb.messageOf` — the payload of the message that a segment of a stream is, if it is one;
* `SimpleWeb.OpenSegment` — a segment that carries the beginning of a message.

Main results:

* `SimpleWeb.OpenSegment.control`, `SimpleWeb.OpenSegment.continuation`,
  `SimpleWeb.OpenSegment.finish` — how a segment grows with the next frame.
-/

import SimpleWeb.Message

set_option relaxedAutoImplicit false
set_option autoImplicit false

namespace SimpleWeb

/-! ### Frames -/

/-- The three forms of a payload length. -/
inductive LengthForm
  | seven
  | sixteen
  | sixtyFour
  deriving DecidableEq, Repr

/-- The form can hold the length. -/
def LengthForm.Fits : LengthForm → ℕ → Prop
  | .seven, n => n < 126
  | .sixteen, n => n < 2 ^ 16
  | .sixtyFour, n => n < 2 ^ 64

instance (form : LengthForm) (n : ℕ) : Decidable (form.Fits n) :=
  match form with
  | .seven => inferInstanceAs (Decidable (n < 126))
  | .sixteen => inferInstanceAs (Decidable (n < 2 ^ 16))
  | .sixtyFour => inferInstanceAs (Decidable (n < 2 ^ 64))

/-- The shortest form for a length. -/
def LengthForm.shortest (n : ℕ) : LengthForm :=
  if n < 126 then .seven else if n < 2 ^ 16 then .sixteen else .sixtyFour

/-- The length on the wire, with the mask bit in its first byte. -/
def LengthForm.bytes (maskBit : ℕ) : LengthForm → ℕ → Bytes
  | .seven, n => [UInt8.ofNat (maskBit + n)]
  | .sixteen, n => UInt8.ofNat (maskBit + 126) :: Octets.toBytes 2 n
  | .sixtyFour, n => UInt8.ofNat (maskBit + 127) :: Octets.toBytes 8 n

theorem LengthForm.fits_shortest {n : ℕ} (h : n < 2 ^ 64) : (LengthForm.shortest n).Fits n := by
  unfold LengthForm.shortest
  split
  · next h₁ => exact h₁
  · split
    · next h₂ => exact h₂
    · exact h

theorem LengthForm.Fits.lt {form : LengthForm} {n : ℕ} (h : form.Fits n) : n < 2 ^ 64 := by
  cases form <;> simp only [LengthForm.Fits] at h <;> omega

/-- The value of the first length byte without the mask bit. -/
def LengthForm.code : LengthForm → ℕ → ℕ
  | .seven, n => n
  | .sixteen, _ => 126
  | .sixtyFour, _ => 127

/-- The number of octets of the extended length. -/
def LengthForm.width : LengthForm → ℕ
  | .seven => 0
  | .sixteen => 2
  | .sixtyFour => 8

theorem LengthForm.bytes_eq (maskBit : ℕ) (form : LengthForm) (n : ℕ) :
    form.bytes maskBit n = UInt8.ofNat (maskBit + form.code n) :: Octets.toBytes form.width n := by
  cases form <;> rfl

theorem LengthForm.width_le (form : LengthForm) : form.width ≤ 8 := by
  cases form <;> simp [LengthForm.width]

theorem LengthForm.Fits.lt_width {form : LengthForm} {n : ℕ} (h : form.Fits n)
    (hw : form.width ≠ 0) : n < 256 ^ form.width := by
  cases form with
  | seven => exact absurd rfl hw
  | sixteen => exact h
  | sixtyFour => exact h

theorem LengthForm.Fits.code_lt {form : LengthForm} {n : ℕ} (h : form.Fits n) :
    form.code n < 128 := by
  cases form with
  | seven => exact Nat.lt_trans h (by omega)
  | sixteen => simp [LengthForm.code]
  | sixtyFour => simp [LengthForm.code]

/-- A length of its own is neither of the two values that announce an extended length. -/
theorem LengthForm.ofNat_ne {n : ℕ} (h : LengthForm.seven.Fits n) :
    UInt64.ofNat n ≠ 126 ∧ UInt64.ofNat n ≠ 127 := by
  have hn : n < 126 := h
  have htoNat : (UInt64.ofNat n).toNat = n :=
    UInt64.toNat_ofNat_of_lt' (by simp only [UInt64.size]; omega)
  constructor
  · intro heq
    have h126 : n = 126 := by rw [← htoNat, heq]; rfl
    omega
  · intro heq
    have h127 : n = 127 := by rw [← htoNat, heq]; rfl
    omega

/-- A frame whose length form holds the length of its payload. -/
structure Frame where
  finRsvOpcode : UInt8
  form : LengthForm
  mask : Mask
  payload : Bytes
  fits : form.Fits payload.length

namespace Frame

/-- The frame a client sends: with its mask, and the payload masked by it. -/
def maskedBytes (f : Frame) : Bytes :=
  f.finRsvOpcode :: (f.form.bytes 128 f.payload.length ++
    (List.ofFn f.mask ++ Octets.xorCycle f.mask f.payload))

/-- The frame a server sends: without a mask. -/
def unmaskedBytes (f : Frame) : Bytes :=
  f.finRsvOpcode :: (f.form.bytes 0 f.payload.length ++ f.payload)

/-- What the frame says: its header byte and its payload. -/
def content (f : Frame) : UInt8 × Bytes := (f.finRsvOpcode, f.payload)

end Frame

/-! ### Messages -/

/-- A text or binary message, cut into `first` and the fragments of `rest`. -/
structure Message where
  opcode : UInt8
  data : opcode = 1 ∨ opcode = 2
  first : Bytes
  rest : List Bytes

namespace Message

/-- The message as a whole. -/
def payload (m : Message) : Bytes := m.first ++ m.rest.flatten

/-- The frames of a fragment and those after it: FIN is set on the last only, and only the first
frame of a message has an opcode. -/
def fragmentFrames (firstByte : UInt8) (p : Bytes) : List Bytes → List (UInt8 × Bytes)
  | [] => [(firstByte ||| 0x80, p)]
  | q :: qs => (firstByte, p) :: fragmentFrames 0 q qs

def frames (m : Message) : List (UInt8 × Bytes) := fragmentFrames m.opcode m.first m.rest

/-- The message as it should be handed out: the first opcode with FIN set, and the payload. -/
def whole (m : Message) : UInt8 × Bytes := (m.opcode ||| 0x80, m.payload)

end Message

/-- A final ping or pong frame. -/
def IsPingPong (f : Frame) : Prop := f.finRsvOpcode = 0x89 ∨ f.finRsvOpcode = 0x8a

instance (f : Frame) : Decidable (IsPingPong f) :=
  inferInstanceAs (Decidable (f.finRsvOpcode = 0x89 ∨ f.finRsvOpcode = 0x8a))

/-- The frames are those of the messages, in order, with pings and pongs anywhere between them. -/
def WellFormed (frames : List Frame) (messages : List Message) : Prop :=
  (frames.filter fun f => ¬ IsPingPong f).map Frame.content = messages.flatMap Message.frames

instance (frames : List Frame) (messages : List Message) : Decidable (WellFormed frames messages) :=
  inferInstanceAs (Decidable ((frames.filter fun f => ¬ IsPingPong f).map Frame.content =
    messages.flatMap Message.frames))

/-! ### Segments of a stream -/

/-- The payload of the continuation frames, up to and including the first with FIN; only control
frames may come between them, and nothing after them. -/
def restOf : List (UInt8 × Bytes) → Option Bytes
  | [] => none
  | (b, p) :: fs =>
      if IsControl b then restOf fs
      else if opcode b = 0 then
        if fin b then (if fs.isEmpty then some p else none) else (restOf fs).map (p ++ ·)
      else none

/-- The payload of the message that the frames are: a first frame with opcode 1 or 2 and, unless it
has FIN, its continuation. -/
def messageOf : List (UInt8 × Bytes) → Option Bytes
  | [] => none
  | (b, p) :: fs =>
      if opcode b = 1 ∨ opcode b = 2 then
        if fin b then (if fs.isEmpty then some p else none) else (restOf fs).map (p ++ ·)
      else none

/-- The frames carry the beginning `q` of a message, whatever its continuation is. -/
def OpenSegment (seg : List (UInt8 × Bytes)) (q : Bytes) : Prop :=
  ∀ fs, messageOf (seg ++ fs) = (restOf fs).map (q ++ ·)

theorem messageOf_single {b : UInt8} (hb : opcode b = 1 ∨ opcode b = 2) (hfin : fin b = true)
    (p : Bytes) : messageOf [(b, p)] = some p := by
  simp [messageOf, hb, hfin]

namespace OpenSegment

variable {seg : List (UInt8 × Bytes)} {q : Bytes} {b : UInt8}

theorem start (hb : opcode b = 1 ∨ opcode b = 2) (hfin : fin b = false) (p : Bytes) :
    OpenSegment [(b, p)] p := by
  intro fs
  simp [messageOf, hb, hfin]

theorem control (h : OpenSegment seg q) (hb : IsControl b) (p : Bytes) :
    OpenSegment (seg ++ [(b, p)]) q := by
  intro fs
  rw [List.append_assoc, h, List.singleton_append, restOf, if_pos hb]

theorem continuation (h : OpenSegment seg q) (hb : opcode b = 0) (hfin : fin b = false)
    (p : Bytes) : OpenSegment (seg ++ [(b, p)]) (q ++ p) := by
  intro fs
  have hcontrol : ¬ IsControl b := by
    rw [IsControl, hb]
    decide
  rw [List.append_assoc, h, List.singleton_append, restOf, if_neg hcontrol, if_pos hb, hfin]
  simp [Function.comp_def]

theorem finish (h : OpenSegment seg q) (hb : opcode b = 0) (hfin : fin b = true) (p : Bytes) :
    messageOf (seg ++ [(b, p)]) = some (q ++ p) := by
  have hcontrol : ¬ IsControl b := by
    rw [IsControl, hb]
    decide
  rw [h, restOf, if_neg hcontrol, if_pos hb, if_pos hfin]
  rfl

end OpenSegment

end SimpleWeb
