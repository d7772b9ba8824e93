/-
**The client reassembles messages.**

The read loop of `SimpleWeb.Client`, one frame at a time, as `SimpleWeb.ServerReassembly` does it
for the server.  Here nothing is left over from the handshake; that leftover bytes make no
difference is `SimpleWeb.Overread`.

Main results:

* `SimpleWeb.Client.reads_frame` — **a frame is decoded, from exactly its own bytes**;
* `SimpleWeb.Client.handleFrame_expected` — an expected frame is treated as the reassembler treats
  it;
* `SimpleWeb.Client.reads_follows` — the same for a stream of expected frames;
* `SimpleWeb.Client.reassembles` — **a well-formed stream is delivered message by message**.
-/

import SimpleWeb.Client
import SimpleWeb.Reassembly

set_option relaxedAutoImplicit false
set_option autoImplicit false

namespace SimpleWeb.Client

variable {callbacks : Callbacks} {config : Config}

/-! ### The bytes of a frame -/

/-- The connection is waiting for the first byte of a frame, and has read nothing of it. -/
structure Conn.AtFrame (c : Conn) : Prop where
  reading : c.reading = some (.firstBytes 0)
  streambuf : c.inMessage.streambuf = []

/-- What a connection does with a frame it has read. -/
def Conn.process (callbacks : Callbacks) (c : Conn) (f : Frame) : Conn :=
  { c with reading := none, inMessage := .of f.content }.handleFrame callbacks InMessage.empty 0

/-- The first length byte of an unmasked frame, for `n` at most 127. -/
theorem lengthByte_unmasked {n : ℕ} (hn : n < 128) :
    ¬ UInt8.ofNat (0 + n) ≥ 128 ∧ (UInt8.ofNat (0 + n) &&& 127).toUInt64 = UInt64.ofNat n := by
  have hmod : n % 256 = n := Nat.mod_eq_of_lt (by omega)
  have hand : n &&& 127 = n := by
    rw [Nat.and_two_pow_sub_one_eq_mod _ 7]
    omega
  rw [Nat.zero_add]
  constructor
  · rw [ge_iff_le, UInt8.le_iff_toNat_le]
    simp only [UInt8.toNat_ofNat']
    simp [hmod]
    omega
  · apply UInt64.toNat_inj.1
    simp [hmod, hand]
    omega

/-- The first two bytes of an unmasked frame. -/
theorem complete_firstBytes {c : Conn} (hc : c.AtFrame) (b : UInt8) {l : UInt8} (hl : ¬ l ≥ 128) :
    c.complete callbacks config true ⟨none, [b, l]⟩ =
      let inMessage := { c.inMessage with finRsvOpcode := b }
      if (l &&& 127).toUInt64 = 126 then
        { c with inMessage := inMessage, reading := some (.lengthBytes 2 0) }
      else if (l &&& 127).toUInt64 = 127 then
        { c with inMessage := inMessage, reading := some (.lengthBytes 8 0) }
      else
        { c with
          inMessage := { inMessage with length := (l &&& 127).toUInt64 }
          reading := none }.readMessageContent callbacks config 0 := by
  obtain ⟨⟨inOpcode, inLength, streambuf⟩, fragmented, closed, reading, rd, log⟩ := c
  obtain ⟨rfl, rfl⟩ := hc
  simp [Conn.complete, Conn.onFirstBytes, hl]

/-- What the first two bytes of a frame lead to, in each of its three forms. -/
theorem complete_header {c : Conn} (hc : c.AtFrame) (b : UInt8) {form : LengthForm} {n : ℕ}
    (hfits : form.Fits n) :
    c.complete callbacks config true ⟨none, [b, UInt8.ofNat (0 + form.code n)]⟩ =
      if form.width = 0 then
        { c with
          inMessage := ⟨b, UInt64.ofNat n, []⟩
          reading := none }.readMessageContent callbacks config 0
      else
        { c with
          inMessage := { c.inMessage with finRsvOpcode := b }
          reading := some (.lengthBytes form.width 0) } := by
  obtain ⟨hl, hlen⟩ := lengthByte_unmasked hfits.code_lt
  rw [complete_firstBytes hc b hl]
  simp only [hlen, hc.streambuf]
  cases form with
  | seven =>
      obtain ⟨h126, h127⟩ := LengthForm.ofNat_ne hfits
      exact (if_neg h126).trans (if_neg h127)
  | sixteen => rfl
  | sixtyFour => rfl

/-- The extended length of a frame. -/
theorem complete_lengthBytes {c : Conn} {bytes : Bytes} (hlen : bytes.length ≤ 8)
    (hr : c.reading = some (.lengthBytes bytes.length 0)) (hs : c.inMessage.streambuf = []) :
    c.complete callbacks config true ⟨none, bytes⟩ =
      { c with
        inMessage := { c.inMessage with length := UInt64.ofNat (Octets.ofBytes bytes) }
        reading := none }.readMessageContent callbacks config 0 := by
  obtain ⟨⟨inOpcode, inLength, streambuf⟩, fragmented, closed, reading, rd, log⟩ := c
  subst hr hs
  simp [Conn.complete, Conn.onLengthBytes, readLength_eq hlen]

/-- The payload of a frame. -/
theorem complete_content {c : Conn} {payload : Bytes} (hr : c.reading = some (.content 0))
    (hs : c.inMessage.streambuf = []) :
    c.complete callbacks config true ⟨none, payload⟩ =
      { c with
        inMessage := { c.inMessage with streambuf := payload }
        reading := none }.handleFrame callbacks InMessage.empty 0 := by
  obtain ⟨⟨inOpcode, inLength, streambuf⟩, fragmented, closed, reading, rd, log⟩ := c
  subst hr hs
  simp [Conn.complete, Conn.onContent]

/-- The header of a frame is read, in each of its three forms. -/
theorem reads_header {c : Conn} (hc : c.AtFrame) (b : UInt8) {form : LengthForm} {n : ℕ}
    (hfits : form.Fits n) :
    (reader callbacks config).Reads c (b :: form.bytes 0 n)
      ({ c with
        inMessage := ⟨b, UInt64.ofNat n, []⟩
        reading := none }.readMessageContent callbacks config 0) := by
  have hstream : c.inMessage.streambuf = [] := hc.streambuf
  have hrequest : (reader callbacks config).request c = some 2 := by
    simp [reader, hc.reading, Conn.transferExactly]
  -- the extended length, once the first two bytes have announced its size
  have hextended : ∀ {w : ℕ}, w ≤ 8 → n < 256 ^ w →
      (reader callbacks config).Reads
        { c with
          inMessage := { c.inMessage with finRsvOpcode := b }
          reading := some (.lengthBytes w 0) }
        (Octets.toBytes w n)
        ({ c with
          inMessage := ⟨b, UInt64.ofNat n, []⟩
          reading := none }.readMessageContent callbacks config 0) := by
    intro w hw hn
    refine Reader.Reads.one (by simp [reader, Conn.transferExactly]) ?_
    have hcomplete := @complete_lengthBytes callbacks config
      { c with
        inMessage := { c.inMessage with finRsvOpcode := b }
        reading := some (.lengthBytes w 0) } (Octets.toBytes w n)
      (by simpa using hw) (by simp) hstream
    rw [Octets.ofBytes_toBytes_of_lt hn] at hcomplete
    simpa [hstream] using hcomplete
  have hfirst := @complete_header callbacks config c hc b form n hfits
  rw [LengthForm.bytes_eq]
  by_cases hw : form.width = 0
  · rw [if_pos hw] at hfirst
    rw [hw]
    exact Reader.Reads.one hrequest hfirst
  · rw [if_neg hw] at hfirst
    exact (Reader.Reads.one hrequest hfirst).trans (hextended form.width_le (hfits.lt_width hw))

/-- **A frame is decoded, from exactly its own bytes.** -/
theorem reads_frame {c : Conn} (hc : c.AtFrame) (f : Frame)
    (hsize : ¬ UInt64.ofNat f.payload.length + c.fragmentedLength > config.maxMessageSize) :
    (reader callbacks config).Reads c f.unmaskedBytes (c.process callbacks f) := by
  have hheader := @reads_header callbacks config c hc f.finRsvOpcode f.form _ f.fits
  have hcontent : ({ c with
        inMessage := ⟨f.finRsvOpcode, UInt64.ofNat f.payload.length, []⟩
        reading := none }.readMessageContent callbacks config 0) =
      { c with
        inMessage := ⟨f.finRsvOpcode, UInt64.ofNat f.payload.length, []⟩
        reading := some (.content 0) } := by
    simp only [Conn.readMessageContent]
    exact if_neg hsize
  have htoNat : (UInt64.ofNat f.payload.length).toNat = f.payload.length :=
    UInt64.toNat_ofNat_of_lt' f.fits.lt
  have hdone := @complete_content callbacks config
    { c with
      inMessage := ⟨f.finRsvOpcode, UInt64.ofNat f.payload.length, []⟩
      reading := some (.content 0) } f.payload rfl rfl
  rw [hcontent] at hheader
  rw [Frame.unmaskedBytes, ← List.cons_append]
  refine hheader.trans (Reader.Reads.one ?_ hdone)
  simp only [reader_request, Option.map_some, Conn.transferExactly, htoNat]
  simp

/-! ### Expected frames -/

/-- What the client does with what the reassembler hands out, `mask` being the next mask. -/
def events (callbacks : Callbacks) (mask : Mask) : Reassembly.Output → List Event
  | .message b p => if callbacks.onMessage then [.onMessage (.of (b, p))] else []
  | .ping p => .enqueue (outData mask p 0x8a) :: if callbacks.onPing then [.onPing] else []
  | .pong => if callbacks.onPong then [.onPong] else []

/-- The masks left when the reassembler has handed out `outs`: each pong sent takes one. -/
def masksAfter (rd : ℕ → Mask) (outs : List Reassembly.Output) : ℕ → Mask :=
  fun i => rd (i + (outs.filterMap Reassembly.Output.ping?).length)

@[simp] theorem masksAfter_nil (rd : ℕ → Mask) : masksAfter rd [] = rd := rfl

@[simp] theorem masksAfter_message (rd : ℕ → Mask) (b : UInt8) (p : Bytes)
    (outs : List Reassembly.Output) : masksAfter rd (.message b p :: outs) = masksAfter rd outs :=
  rfl

@[simp] theorem masksAfter_ping (rd : ℕ → Mask) (p : Bytes) (outs : List Reassembly.Output) :
    masksAfter rd (.ping p :: outs) = masksAfter (fun i => rd (i + 1)) outs := by
  funext i
  simp [masksAfter, Reassembly.Output.ping?, Nat.add_assoc]

@[simp] theorem masksAfter_pong (rd : ℕ → Mask) (outs : List Reassembly.Output) :
    masksAfter rd (.pong :: outs) = masksAfter rd outs := rfl

/-- The state after a frame that neither ends the connection nor is too big. -/
def Conn.afterFrame (callbacks : Callbacks) (c : Conn) (b : UInt8) (payload : Bytes)
    (r : Reassembly.Pending × List Reassembly.Output) : Conn :=
  { c with
    inMessage := InMessage.empty
    fragmentedInMessage := r.1.map InMessage.of
    reading := some (.firstBytes 0)
    rd := masksAfter c.rd r.2
    log := c.log ++ .frame b payload :: r.2.flatMap (events callbacks (c.rd 0)) }

/-- **An expected frame is treated as the reassembler treats it.** -/
theorem handleFrame_expected {c : Conn} {pending : Reassembly.Pending} {b : UInt8}
    {payload : Bytes} (hp : c.fragmentedInMessage = pending.map InMessage.of)
    (hm : c.inMessage = InMessage.of (b, payload)) (he : Reassembly.Expected pending b) :
    c.handleFrame callbacks InMessage.empty 0 =
      c.afterFrame callbacks b payload (Reassembly.step pending b payload) := by
  obtain ⟨inMessage, fragmented, closed, reading, rd, log⟩ := c
  simp only at hp hm
  subst hp hm
  cases he with
  | pingPong h =>
      rcases h with rfl | rfl
      · rw [Conn.handleFrame_ping (show opcode 0x89 = 9 from rfl), Reassembly.step_ping rfl]
        simp [Conn.afterFrame, Conn.frameDecoded, Conn.send, Conn.call, Conn.readMessage,
          InMessage.string, InMessage.of, events]
      · rw [Conn.handleFrame_pong (show opcode 0x8a = 10 from rfl), Reassembly.step_pong rfl]
        simp [Conn.afterFrame, Conn.frameDecoded, Conn.call, Conn.readMessage, InMessage.of,
          events]
  | start h =>
      have hop : opcode b ≠ 8 ∧ opcode b ≠ 9 ∧ opcode b ≠ 10 := by
        rcases h with rfl | rfl | rfl | rfl <;> decide
      obtain ⟨h8, h9, h10⟩ := hop
      cases hfin : fin b with
      | false =>
          rw [Conn.handleFrame_fragment h8 h9 h10 hfin, Reassembly.step_fragment h9 h10 hfin]
          simp [Conn.afterFrame, Conn.frameDecoded, Conn.readMessage, InMessage.of,
            Reassembly.extend]
      | true =>
          have hbit : b ||| 0x80 = b := by
            rcases h with rfl | rfl | rfl | rfl
            · exact absurd hfin (by decide)
            · exact absurd hfin (by decide)
            · decide
            · decide
          rw [Conn.handleFrame_final h8 h9 h10 hfin, Reassembly.step_final h9 h10 hfin]
          simp [Conn.afterFrame, Conn.frameDecoded, Conn.call, Conn.readMessage, InMessage.of,
            Reassembly.extend, events, hbit]
  | @continuation q _ h =>
      have hop : opcode b ≠ 8 ∧ opcode b ≠ 9 ∧ opcode b ≠ 10 := by
        rcases h with rfl | rfl <;> decide
      obtain ⟨h8, h9, h10⟩ := hop
      have happend : (InMessage.of q).append (InMessage.of (b, payload)) =
          InMessage.of (Reassembly.extend (some q) b payload) := by
        simp [InMessage.append, InMessage.of, Reassembly.extend, UInt64.ofNat_add]
      cases hfin : fin b with
      | false =>
          rw [Conn.handleFrame_fragment h8 h9 h10 hfin, Reassembly.step_fragment h9 h10 hfin]
          simp [Conn.afterFrame, Conn.frameDecoded, Conn.readMessage, happend]
          simp [InMessage.of]
      | true =>
          rw [Conn.handleFrame_final h8 h9 h10 hfin, Reassembly.step_final h9 h10 hfin]
          simp [Conn.afterFrame, Conn.frameDecoded, Conn.call, Conn.readMessage, events,
            happend]
          simp [InMessage.of]

/-- The frame is handled, and the next one is waited for. -/
theorem process_expected {c : Conn} {pending : Reassembly.Pending} {f : Frame}
    (hp : c.fragmentedInMessage = pending.map InMessage.of)
    (he : Reassembly.Expected pending f.finRsvOpcode) :
    c.process callbacks f = c.afterFrame callbacks f.finRsvOpcode f.payload
      (Reassembly.step pending f.finRsvOpcode f.payload) ∧ (c.process callbacks f).AtFrame := by
  have heq : c.process callbacks f = c.afterFrame callbacks f.finRsvOpcode f.payload
      (Reassembly.step pending f.finRsvOpcode f.payload) :=
    handleFrame_expected (c := { c with reading := none, inMessage := .of f.content }) hp rfl he
  refine ⟨heq, ?_⟩
  rw [heq]
  exact ⟨rfl, rfl⟩

/-! ### Streams of expected frames -/

/-- The log after a stream of frames, `rd` being the masks to come. -/
def streamEvents (callbacks : Callbacks) :
    (ℕ → Mask) → Reassembly.Pending → List (UInt8 × Bytes) → List Event
  | _, _, [] => []
  | rd, pending, (b, p) :: fs =>
      let s := Reassembly.step pending b p
      .frame b p :: (s.2.flatMap (events callbacks (rd 0)) ++
        streamEvents callbacks (masksAfter rd s.2) s.1 fs)

/-- **A stream of expected frames is reassembled.** -/
theorem reads_follows (hmax : config.maxMessageSize = sizeMax) (frames : List Frame) :
    ∀ {c : Conn} {pending : Reassembly.Pending}, c.AtFrame →
    c.fragmentedInMessage = pending.map InMessage.of →
    Reassembly.Follows pending (frames.map Frame.content) →
    ∃ c', (reader callbacks config).Reads c (frames.flatMap Frame.unmaskedBytes) c' ∧ c'.AtFrame ∧
      c'.fragmentedInMessage =
        (Reassembly.run pending (frames.map Frame.content)).1.map InMessage.of ∧
      c'.log = c.log ++ streamEvents callbacks c.rd pending (frames.map Frame.content) := by
  induction frames with
  | nil =>
      intro c pending hc hp _
      exact ⟨c, Reader.Reads.refl _ _, hc, hp, by simp [streamEvents]⟩
  | cons f frames ih =>
      intro c pending hc hp hfollows
      obtain ⟨he, hfollows⟩ := hfollows
      obtain ⟨hprocess, hnext⟩ := @process_expected callbacks c pending f hp he
      have hsize : ¬ UInt64.ofNat f.payload.length + c.fragmentedLength > config.maxMessageSize := by
        rw [hmax]
        exact not_sizeMax_lt _
      have hframe := @reads_frame callbacks config c hc f hsize
      rw [hprocess] at hframe hnext
      obtain ⟨c', hrest, hc', hp', hlog'⟩ := ih hnext rfl hfollows
      refine ⟨c', hframe.trans hrest, hc', hp', ?_⟩
      rw [hlog']
      simp [streamEvents, Conn.afterFrame, Frame.content]

/-- What is seen of a stream's log when the record of its frames is left out. -/
theorem filterMap_streamEvents {β : Type*} {g : Event → Option β}
    {h : Reassembly.Output → Option β} (hframe : ∀ b p, g (.frame b p) = none)
    (hg : ∀ mask o, (events callbacks mask o).filterMap g = (h o).toList)
    (fs : List (UInt8 × Bytes)) :
    ∀ rd pending, (streamEvents callbacks rd pending fs).filterMap g =
      (Reassembly.run pending fs).2.filterMap h := by
  induction fs with
  | nil => intro rd pending; rfl
  | cons f fs ih =>
      intro rd pending
      have hflat : ∀ outs : List Reassembly.Output,
          (outs.flatMap (events callbacks (rd 0))).filterMap g = outs.filterMap h := by
        intro outs
        induction outs with
        | nil => rfl
        | cons o outs ih => cases ho : h o <;> simp [hg, ho, ih]
      simp [streamEvents, Reassembly.run, hframe, hflat, ih]

end SimpleWeb.Client
