/-
**The server reassembles messages.**

The read loop of `SimpleWeb.Server`, one frame at a time.  `Server.reads_frame` runs it over the
bytes of a masked frame, whatever its length form: it consumes exactly these bytes and does with the
frame what `handleFrame` does.  `Server.handleFrame_expected` compares `handleFrame` with
`Reassembly.step`; from the two, a stream of frames that may come where they come is reassembled.

Main results:

* `SimpleWeb.Server.reads_frame` — **a frame is decoded, from exactly its own bytes**;
* `SimpleWeb.Server.handleFrame_expected` — an expected frame is treated as the reassembler treats
  it;
* `SimpleWeb.Server.reads_follows` — the same for a stream of expected frames;
* `SimpleWeb.Server.reassembles` — **a well-formed stream is delivered message by message**.
-/

import SimpleWeb.Server
import SimpleWeb.Reassembly

set_option relaxedAutoImplicit false
set_option autoImplicit false

namespace SimpleWeb.Server

variable {endpoint : Callbacks} {config : Config}

/-! ### The bytes of a frame -/

/-- The connection is waiting for the first byte of a frame. -/
structure Conn.AtFrame (c : Conn) : Prop where
  reading : c.reading = some .firstBytes
  streambuf : c.streambuf = []

/-- What a connection does with a frame it has read. -/
def Conn.process (endpoint : Callbacks) (c : Conn) (f : Frame) : Conn :=
  { c with reading := none }.handleFrame endpoint (UInt64.ofNat f.payload.length) f.finRsvOpcode
    f.payload

/-- The first length byte of a masked frame, for `n` at most 127. -/
theorem lengthByte_masked {n : ℕ} (hn : n < 128) :
    ¬ UInt8.ofNat (128 + n) < 128 ∧
      (UInt8.ofNat (128 + n) &&& 127).toUInt64 = UInt64.ofNat n := by
  have hmod : (128 + n) % 256 = 128 + n := Nat.mod_eq_of_lt (by omega)
  have hand : (128 + n) &&& 127 = n := by
    rw [Nat.and_two_pow_sub_one_eq_mod _ 7]
    omega
  constructor
  · rw [UInt8.lt_iff_toNat_lt]
    simp only [UInt8.toNat_ofNat']
    simp [hmod]
  · apply UInt64.toNat_inj.1
    simp [hmod, hand]
    omega

/-- The first two bytes of a masked frame. -/
theorem complete_firstBytes {c : Conn} (hc : c.AtFrame) (b : UInt8) {l : UInt8} (hl : ¬ l < 128) :
    c.complete endpoint config true ⟨none, [b, l]⟩ =
      if (l &&& 127).toUInt64 = 126 then { c with reading := some (.lengthBytes 2 b) }
      else if (l &&& 127).toUInt64 = 127 then { c with reading := some (.lengthBytes 8 b) }
      else { c with reading := none }.readMessageContent endpoint config (l &&& 127).toUInt64 b := by
  obtain ⟨streambuf, fragmented, closed, reading, inConnections, log⟩ := c
  obtain ⟨rfl, rfl⟩ := hc
  simp [Conn.complete, Conn.onFirstBytes, hl]

/-- What the first two bytes of a frame lead to, in each of its three forms. -/
theorem complete_header {c : Conn} (hc : c.AtFrame) (b : UInt8) {form : LengthForm} {n : ℕ}
    (hfits : form.Fits n) :
    c.complete endpoint config true ⟨none, [b, UInt8.ofNat (128 + form.code n)]⟩ =
      if form.width = 0 then
        { c with reading := none }.readMessageContent endpoint config (UInt64.ofNat n) b
      else { c with reading := some (.lengthBytes form.width b) } := by
  obtain ⟨hl, hlen⟩ := lengthByte_masked hfits.code_lt
  rw [complete_firstBytes hc b hl, hlen]
  cases form with
  | seven =>
      obtain ⟨h126, h127⟩ := LengthForm.ofNat_ne hfits
      exact (if_neg h126).trans (if_neg h127)
  | sixteen => rfl
  | sixtyFour => rfl

/-- The extended length of a frame. -/
theorem complete_lengthBytes {c : Conn} {b : UInt8} {bytes : Bytes} (hlen : bytes.length ≤ 8)
    (hr : c.reading = some (.lengthBytes bytes.length b)) (hs : c.streambuf = []) :
    c.complete endpoint config true ⟨none, bytes⟩ =
      { c with reading := none }.readMessageContent endpoint config
        (UInt64.ofNat (Octets.ofBytes bytes)) b := by
  obtain ⟨streambuf, fragmented, closed, reading, inConnections, log⟩ := c
  subst hr hs
  simp [Conn.complete, Conn.onLengthBytes, readLength_eq hlen]

/-- The mask and the masked payload of a frame. -/
theorem complete_content {c : Conn} {b : UInt8} {n : UInt64} (mask : Mask) {payload : Bytes}
    (hn : n.toNat = payload.length) (hr : c.reading = some (.content n b))
    (hs : c.streambuf = []) :
    c.complete endpoint config true ⟨none, List.ofFn mask ++ Octets.xorCycle mask payload⟩ =
      { c with reading := none }.handleFrame endpoint n b payload := by
  have htake : (List.ofFn mask ++ Octets.xorCycle mask payload).take 4 = List.ofFn mask := by
    simp
  have hdrop : (List.ofFn mask ++ Octets.xorCycle mask payload).drop 4 =
      Octets.xorCycle mask payload := by
    simp
  have hloop : unmask mask n.toNat (Octets.xorCycle mask payload) = (payload, []) := by
    have := unmask_append mask (Octets.xorCycle mask payload) []
    rwa [List.append_nil, Octets.length_xorCycle, Octets.xorCycle_xorCycle, ← hn] at this
  obtain ⟨streambuf, fragmented, closed, reading, inConnections, log⟩ := c
  subst hr hs
  simp only [Conn.complete, Conn.onContent, List.nil_append, htake, hdrop, Mask.ofBytes_ofFn,
    hloop]
  rfl

/-- The header of a frame is read up to its mask, in each of its three forms. -/
theorem reads_header {c : Conn} (hc : c.AtFrame) (b : UInt8) {form : LengthForm} {n : ℕ}
    (hfits : form.Fits n) :
    (reader endpoint config).Reads c (b :: form.bytes 128 n)
      ({ c with reading := none }.readMessageContent endpoint config (UInt64.ofNat n) b) := by
  have hrequest : (reader endpoint config).request c = some 2 := by
    simp [reader, hc.reading, ReadOp.size]
  -- the extended length, once the first two bytes have announced its size
  have hextended : ∀ {w : ℕ}, w ≤ 8 → n < 256 ^ w →
      (reader endpoint config).Reads { c with reading := some (.lengthBytes w b) }
        (Octets.toBytes w n)
        ({ c with reading := none }.readMessageContent endpoint config (UInt64.ofNat n) b) := by
    intro w hw hn
    have hsize : (UInt64.ofNat w).toNat = w := UInt64.toNat_ofNat_of_lt' (by
      simp only [UInt64.size]; omega)
    refine Reader.Reads.one (by simp [reader, ReadOp.size]; omega) ?_
    have hcomplete : Conn.complete endpoint config { c with reading := some (.lengthBytes w b) }
        true ⟨none, Octets.toBytes w n⟩ =
          { c with reading := none }.readMessageContent endpoint config
            (UInt64.ofNat (Octets.ofBytes (Octets.toBytes w n))) b :=
      complete_lengthBytes (by simpa using hw) (by simp) hc.streambuf
    rwa [Octets.ofBytes_toBytes_of_lt hn] at hcomplete
  have hfirst := @complete_header endpoint config c hc b form n hfits
  rw [LengthForm.bytes_eq]
  by_cases hw : form.width = 0
  · rw [if_pos hw] at hfirst
    rw [hw]
    exact Reader.Reads.one hrequest hfirst
  · rw [if_neg hw] at hfirst
    exact (Reader.Reads.one hrequest hfirst).trans (hextended form.width_le (hfits.lt_width hw))

/-- **A frame is decoded, from exactly its own bytes.** -/
theorem reads_frame {c : Conn} (hc : c.AtFrame) (f : Frame) (hlen : f.payload.length + 4 < 2 ^ 64)
    (hsize : ¬ UInt64.ofNat f.payload.length + c.fragmentedLength > config.maxMessageSize) :
    (reader endpoint config).Reads c f.maskedBytes (c.process endpoint f) := by
  have hheader := @reads_header endpoint config c hc f.finRsvOpcode f.form _ f.fits
  have hcontent : ({ c with reading := none }.readMessageContent endpoint config
      (UInt64.ofNat f.payload.length) f.finRsvOpcode) =
      { c with reading := some (.content (UInt64.ofNat f.payload.length) f.finRsvOpcode) } := by
    simp only [Conn.readMessageContent]
    exact if_neg hsize
  have htoNat : (UInt64.ofNat f.payload.length).toNat = f.payload.length :=
    UInt64.toNat_ofNat_of_lt' (by simp only [UInt64.size]; omega)
  have hrequest : (4 + UInt64.ofNat f.payload.length).toNat = 4 + f.payload.length := by
    rw [UInt64.toNat_add, htoNat]
    simp only [UInt64.reduceToNat]
    omega
  have hdone := @complete_content endpoint config
    { c with reading := some (.content (UInt64.ofNat f.payload.length) f.finRsvOpcode) }
    f.finRsvOpcode _ f.mask f.payload htoNat rfl hc.streambuf
  rw [hcontent] at hheader
  rw [Frame.maskedBytes, ← List.cons_append]
  refine hheader.trans (Reader.Reads.one ?_ hdone)
  simp only [reader, ReadOp.size, Option.map_some, hrequest, List.length_append,
    List.length_ofFn, Octets.length_xorCycle]

/-! ### Expected frames -/

/-- What the server does with what the reassembler hands out. -/
def events (endpoint : Callbacks) : Reassembly.Output → List Event
  | .message b p => if endpoint.onMessage then [.onMessage (.of (b, p))] else []
  | .ping p => .enqueue (outData p 0x8a) :: if endpoint.onPing then [.onPing] else []
  | .pong => if endpoint.onPong then [.onPong] else []

/-- A fragment is put at the end of the message it continues. -/
theorem inMessage_fragment {c : Conn} {pending : Reassembly.Pending} {b : UInt8}
    (hp : c.fragmentedInMessage = pending.map InMessage.of) (hb : isFragment b = true)
    (payload : Bytes) : c.inMessage (UInt64.ofNat payload.length) b payload =
      InMessage.of (Reassembly.extend pending b payload) := by
  cases pending with
  | none => simp [Conn.inMessage, hb, hp, Reassembly.extend, InMessage.of]
  | some q => simp [Conn.inMessage, hb, hp, Reassembly.extend, InMessage.of, UInt64.ofNat_add]

/-- A final frame with an opcode is a message of its own. -/
theorem inMessage_single (c : Conn) {b : UInt8} (hb : isFragment b = false) (length : UInt64)
    (payload : Bytes) : c.inMessage length b payload = ⟨b, length, payload⟩ := by
  simp [Conn.inMessage, hb]

/-- The state after a frame that neither ends the connection nor is too big. -/
def Conn.afterFrame (endpoint : Callbacks) (c : Conn) (b : UInt8) (payload : Bytes)
    (r : Reassembly.Pending × List Reassembly.Output) : Conn :=
  { c with
    fragmentedInMessage := r.1.map InMessage.of
    reading := some .firstBytes
    log := c.log ++ .frame b payload :: r.2.flatMap (events endpoint) }

/-- **An expected frame is treated as the reassembler treats it.** -/
theorem handleFrame_expected {c : Conn} {pending : Reassembly.Pending} {b : UInt8}
    (hp : c.fragmentedInMessage = pending.map InMessage.of) (he : Reassembly.Expected pending b)
    (payload : Bytes) :
    c.handleFrame endpoint (UInt64.ofNat payload.length) b payload =
      c.afterFrame endpoint b payload (Reassembly.step pending b payload) := by
  cases he with
  | pingPong h =>
      rcases h with rfl | rfl
      · have hsingle : isFragment 0x89 = false := rfl
        rw [Conn.handleFrame_ping rfl, Reassembly.step_ping rfl, inMessage_single c hsingle]
        simp [Conn.afterFrame, Conn.frameDecoded, Conn.storeFragment, Conn.send, Conn.call,
          Conn.readMessage, InMessage.string, events, hsingle, hp]
      · have hsingle : isFragment 0x8a = false := rfl
        rw [Conn.handleFrame_pong rfl, Reassembly.step_pong rfl, inMessage_single c hsingle]
        simp [Conn.afterFrame, Conn.frameDecoded, Conn.storeFragment, Conn.call,
          Conn.readMessage, events, hsingle, hp]
  | start h =>
      have hop : opcode b ≠ 8 ∧ opcode b ≠ 9 ∧ opcode b ≠ 10 := by
        rcases h with rfl | rfl | rfl | rfl <;> decide
      obtain ⟨h8, h9, h10⟩ := hop
      cases hfin : fin b with
      | false =>
          have hfragment : isFragment b = true := by simp [isFragment, hfin]
          rw [Conn.handleFrame_fragment h8 h9 h10 hfin, Reassembly.step_fragment h9 h10 hfin,
            inMessage_fragment hp hfragment]
          simp [Conn.afterFrame, Conn.frameDecoded, Conn.storeFragment, Conn.readMessage, hfragment]
      | true =>
          have hsingle : isFragment b = false ∧ b ||| 0x80 = b := by
            rcases h with rfl | rfl | rfl | rfl
            · exact absurd hfin (by decide)
            · exact absurd hfin (by decide)
            · decide
            · decide
          rw [Conn.handleFrame_final h8 h9 h10 hfin, Reassembly.step_final h9 h10 hfin,
            inMessage_single c hsingle.1]
          simp [Conn.afterFrame, Conn.frameDecoded, Conn.call, Conn.readMessage, events,
            Reassembly.extend, InMessage.of, hsingle.2]
  | continuation h =>
      have hop : opcode b ≠ 8 ∧ opcode b ≠ 9 ∧ opcode b ≠ 10 ∧ isFragment b = true := by
        rcases h with rfl | rfl <;> decide
      obtain ⟨h8, h9, h10, hfragment⟩ := hop
      cases hfin : fin b with
      | false =>
          rw [Conn.handleFrame_fragment h8 h9 h10 hfin, Reassembly.step_fragment h9 h10 hfin,
            inMessage_fragment hp hfragment]
          simp [Conn.afterFrame, Conn.frameDecoded, Conn.storeFragment, Conn.readMessage, hfragment]
      | true =>
          rw [Conn.handleFrame_final h8 h9 h10 hfin, Reassembly.step_final h9 h10 hfin,
            inMessage_fragment hp hfragment]
          simp [Conn.afterFrame, Conn.frameDecoded, Conn.call, Conn.readMessage, events]

/-- The frame is handled, and the next one is waited for. -/
theorem process_expected {c : Conn} (hc : c.AtFrame) {pending : Reassembly.Pending} {f : Frame}
    (hp : c.fragmentedInMessage = pending.map InMessage.of)
    (he : Reassembly.Expected pending f.finRsvOpcode) :
    c.process endpoint f = c.afterFrame endpoint f.finRsvOpcode f.payload
      (Reassembly.step pending f.finRsvOpcode f.payload) ∧ (c.process endpoint f).AtFrame := by
  have heq : c.process endpoint f = c.afterFrame endpoint f.finRsvOpcode f.payload
      (Reassembly.step pending f.finRsvOpcode f.payload) :=
    handleFrame_expected (c := { c with reading := none }) hp he f.payload
  refine ⟨heq, ?_⟩
  rw [heq]
  exact ⟨rfl, hc.streambuf⟩

/-! ### Streams of expected frames -/

/-- The log after a stream of frames. -/
def streamEvents (endpoint : Callbacks) : Reassembly.Pending → List (UInt8 × Bytes) → List Event
  | _, [] => []
  | pending, (b, p) :: fs =>
      .frame b p :: ((Reassembly.step pending b p).2.flatMap (events endpoint) ++
        streamEvents endpoint (Reassembly.step pending b p).1 fs)

/-- **A stream of expected frames is reassembled.** -/
theorem reads_follows (hmax : config.maxMessageSize = sizeMax) (frames : List Frame) :
    ∀ {c : Conn} {pending : Reassembly.Pending}, c.AtFrame →
    c.fragmentedInMessage = pending.map InMessage.of →
    Reassembly.Follows pending (frames.map Frame.content) →
    (∀ f ∈ frames, f.payload.length + 4 < 2 ^ 64) →
    (reader endpoint config).Reads c (frames.flatMap Frame.maskedBytes)
      { c with
        fragmentedInMessage :=
          (Reassembly.run pending (frames.map Frame.content)).1.map InMessage.of
        log := c.log ++ streamEvents endpoint pending (frames.map Frame.content) } := by
  induction frames with
  | nil =>
      intro c pending _ hp _ _
      simp only [List.map_nil, List.flatMap_nil, Reassembly.run, streamEvents, List.append_nil,
        ← hp]
      exact Reader.Reads.refl _ _
  | cons f frames ih =>
      intro c pending hc hp hfollows hlen
      obtain ⟨he, hfollows⟩ := hfollows
      obtain ⟨hprocess, hnext⟩ := @process_expected endpoint c hc pending f hp he
      have hsize : ¬ UInt64.ofNat f.payload.length + c.fragmentedLength > config.maxMessageSize := by
        rw [hmax]
        exact not_sizeMax_lt _
      have hframe := @reads_frame endpoint config c hc f (hlen f (by simp)) hsize
      rw [hprocess] at hframe hnext
      have hrest := ih hnext rfl hfollows (fun g hg => hlen g (List.mem_cons_of_mem _ hg))
      have hreading : some ReadOp.firstBytes = c.reading := hc.reading.symm
      simpa [Reassembly.run, streamEvents, Conn.afterFrame, Frame.content, hreading]
        using hframe.trans hrest

/-- What is seen of a stream's log when the record of its frames is left out. -/
theorem filterMap_streamEvents {β : Type*} {g : Event → Option β}
    {h : Reassembly.Output → Option β} (hframe : ∀ b p, g (.frame b p) = none)
    (hg : ∀ o, (events endpoint o).filterMap g = (h o).toList) (fs : List (UInt8 × Bytes)) :
    ∀ pending, (streamEvents endpoint pending fs).filterMap g =
      (Reassembly.run pending fs).2.filterMap h := by
  induction fs with
  | nil => intro pending; rfl
  | cons f fs ih =>
      intro pending
      have hflat : ∀ outs : List Reassembly.Output,
          (outs.flatMap (events endpoint)).filterMap g = outs.filterMap h := by
        intro outs
        induction outs with
        | nil => rfl
        | cons o outs ih => cases ho : h o <;> simp [hg, ho, ih]
      simp [streamEvents, Reassembly.run, hframe, hflat, ih]

end SimpleWeb.Server
