/-
**Frames on their way.**

The read loops of `SimpleWeb.Server` and `SimpleWeb.Client` take a frame in two or three reads.  What
is known in between is `Expects`: which frames are still to be decoded, given the bytes that the
connection has not read yet.  One completed read goes on to the next part of the frame, or the frame
is decoded; nothing else happens when the frames are those that the other side sends with `send` and
`send_close`.

Main definitions:

* `SimpleWeb.IsMessage`, `SimpleWeb.Frame.Sendable` — the frames of `send` and `send_close`;
* `SimpleWeb.Server.Expects`, `SimpleWeb.Client.Expects` — the frames still to be decoded;
* `SimpleWeb.heardOf` — what a connection does with such a frame, its answers aside.

Main results:

* `SimpleWeb.Server.Expects.step`, `SimpleWeb.Client.Expects.step` — **one read goes on, or decodes
  the next frame**;
* `SimpleWeb.Server.process_message`, `SimpleWeb.Server.process_close` and the same for the client —
  what is done with it.
-/

import SimpleWeb.FrameCodec
import SimpleWeb.Overread

set_option relaxedAutoImplicit false
set_option autoImplicit false

namespace SimpleWeb

/-! ### Frames that are sent -/

/-- The first byte of a message in one frame. -/
def IsMessage (b : UInt8) : Prop := fin b = true ∧ (opcode b = 1 ∨ opcode b = 2)

/-- A frame made by `send`, for a message, or by `send_close`. -/
structure Frame.Sendable (f : Frame) : Prop where
  shortest : f.IsShortest
  size : f.payload.length + 4 < 2 ^ 64
  kind : IsMessage f.finRsvOpcode ∨ f.finRsvOpcode = 136 ∧
    ∃ status reason, 0 ≤ status ∧ status < 65536 ∧ f.payload = closePayload status reason

namespace IsMessage

variable {b : UInt8}

theorem opcode_ne (h : IsMessage b) : opcode b ≠ 8 ∧ opcode b ≠ 9 ∧ opcode b ≠ 10 := by
  rcases h.2 with h | h <;> rw [h] <;> decide

theorem not_isFragment (h : IsMessage b) : Server.isFragment b = false := by
  rcases h.2 with h' | h' <;> rw [Server.isFragment, h.1, h'] <;> rfl

theorem ne_close (h : IsMessage b) : b ≠ 136 := by
  rintro rfl
  exact h.opcode_ne.1 rfl

end IsMessage

theorem toNat_ofInt (n : ℕ) : (UInt8.ofInt n).toNat = n % 256 := by
  have hmod : ((n : ℤ) % 2 ^ 8).toNat = n % 256 := by omega
  rw [UInt8.ofInt, hmod, UInt8.toNat_ofNat']
  omega

/-- The two bytes of a status, read back. -/
theorem closeStatus_closePayload {status : ℤ} (h : 0 ≤ status) (h' : status < 65536)
    (reason : Bytes) (hlen : (closePayload status reason).length < 2 ^ 64) :
    closeStatus (UInt64.ofNat (closePayload status reason).length) (closePayload status reason) =
      (status, reason) := by
  obtain ⟨n, rfl⟩ := Int.eq_ofNat_of_zero_le h
  have hge : UInt64.ofNat (closePayload n reason).length ≥ 2 := by
    rw [ofNat_ge_iff hlen]
    simp [closePayload]
  have hhigh : (UInt8.ofInt ((n : ℤ) >>> (8 : ℕ))).toNat = n / 256 := by
    have hshift : (n : ℤ) >>> (8 : ℕ) = ((n / 256 : ℕ) : ℤ) := by
      rw [Int.shiftRight_eq_div_pow]
      norm_num
    rw [hshift, toNat_ofInt]
    omega
  have hlow : (UInt8.ofInt ((n : ℤ).tmod 256)).toNat = n % 256 := by
    have hmod : (n : ℤ).tmod 256 = ((n % 256 : ℕ) : ℤ) := by
      rw [Int.tmod_eq_emod_of_nonneg h]
      norm_num
    rw [hmod, toNat_ofInt]
    omega
  rw [closeStatus, if_pos hge]
  simp only [closePayload, istreamGet, getChar, Option.getD_some, hhigh, hlow,
    Nat.shiftLeft_eq, Prod.mk.injEq, and_true]
  omega

/-- What a close frame that is sent says is read back. -/
theorem Frame.Sendable.close {f : Frame} (hf : f.Sendable) (hclose : f.finRsvOpcode = 136) :
    ∃ status reason, 0 ≤ status ∧ status < 65536 ∧ f.payload = closePayload status reason ∧
      closeStatus (UInt64.ofNat f.payload.length) f.payload = (status, reason) := by
  obtain ⟨status, reason, hstatus, hstatus', hpayload⟩ := (hf.kind.resolve_left
    fun hmessage => absurd hclose hmessage.ne_close).2
  have hlt := hf.size
  rw [hpayload] at hlt
  refine ⟨status, reason, hstatus, hstatus', hpayload, ?_⟩
  rw [hpayload]
  exact closeStatus_closePayload hstatus hstatus' reason (by omega)

/-- What a connection does with a frame that is sent, its own answers aside. -/
def heardOf (callbacks : Callbacks) (f : Frame) : List Event :=
  .frame f.finRsvOpcode f.payload ::
    if f.finRsvOpcode = 136 then
      let r := closeStatus (UInt64.ofNat f.payload.length) f.payload
      if callbacks.onClose then [.onClose r.1 r.2] else []
    else if callbacks.onMessage then [.onMessage (.of f.content)] else []

/-- The log without what is put on the send queue. -/
def heard (log : List Event) : List Event := log.filter fun e => e.enqueued?.isNone

@[simp] theorem heard_append (log log' : List Event) : heard (log ++ log') = heard log ++ heard log' :=
  List.filter_append ..

theorem enqueued_heardOf {callbacks : Callbacks} {f : Frame} :
    ∀ e ∈ heardOf callbacks f, e.enqueued? = none := by
  intro e he
  rcases List.mem_cons.1 he with rfl | he
  · rfl
  split at he
  · split at he
    · rw [List.mem_singleton.1 he]
      rfl
    · cases he
  · split at he
    · rw [List.mem_singleton.1 he]
      rfl
    · cases he

theorem heard_heardOf (callbacks : Callbacks) (f : Frame) :
    heard (heardOf callbacks f) = heardOf callbacks f := by
  refine List.filter_eq_self.2 ?_
  intro e he
  rw [enqueued_heardOf e he]
  rfl

/-! ### The server -/

namespace Server

variable {endpoint : Callbacks} {config : Config}

/-- Mask and masked payload of a frame. -/
def body (f : Frame) : Bytes := List.ofFn f.mask ++ Octets.xorCycle f.mask f.payload

/-- `Expects c u todo`: the frames `todo` are still to be decoded, and `u` is what is still to be
read of their bytes. -/
inductive Expects : Conn → Bytes → List Frame → Prop
  | atFrame {c : Conn} (todo : List Frame) :
      c.AtFrame → Expects c (todo.flatMap Frame.maskedBytes) todo
  | length {c : Conn} {f : Frame} {todo : List Frame} {w : ℕ} :
      c.streambuf = [] → c.reading = some (.lengthBytes w f.finRsvOpcode) → w ≤ 8 →
      f.payload.length < 256 ^ w →
      Expects c (Octets.toBytes w f.payload.length ++ (body f ++ todo.flatMap Frame.maskedBytes))
        (f :: todo)
  | content {c : Conn} {f : Frame} {todo : List Frame} :
      c.streambuf = [] →
      c.reading = some (.content (UInt64.ofNat f.payload.length) f.finRsvOpcode) →
      Expects c (body f ++ todo.flatMap Frame.maskedBytes) (f :: todo)

/-- More is sent. -/
theorem Expects.append {c : Conn} {u : Bytes} {todo : List Frame} (h : Expects c u todo)
    (f : Frame) : Expects c (u ++ f.maskedBytes) (todo ++ [f]) := by
  cases h with
  | atFrame todo hc =>
      have h := Expects.atFrame (todo ++ [f]) hc
      simpa using h
  | @length g todo w hs hr hw hlen =>
      have h := @Expects.length c g (todo ++ [f]) w hs hr hw hlen
      simpa using h
  | @content g todo hs hr =>
      have h := @Expects.content c g (todo ++ [f]) hs hr
      simpa using h

/-- Nothing but the buffer and the outstanding read matters. -/
theorem Expects.congr {c c' : Conn} {u : Bytes} {todo : List Frame} (h : Expects c u todo)
    (hs : c'.streambuf = c.streambuf) (hr : c'.reading = c.reading) : Expects c' u todo := by
  cases h with
  | atFrame todo hc => exact Expects.atFrame todo ⟨hr.trans hc.reading, hs.trans hc.streambuf⟩
  | length hs' hr' hw hlen => exact Expects.length (hs.trans hs') (hr.trans hr') hw hlen
  | content hs' hr' => exact Expects.content (hs.trans hs') (hr.trans hr')

/-- No message is too big. -/
theorem readMessageContent_eq (hmax : config.maxMessageSize = sizeMax) (c : Conn) (n : UInt64)
    (b : UInt8) :
    c.readMessageContent endpoint config n b = { c with reading := some (.content n b) } := by
  rw [Conn.readMessageContent, if_neg (by rw [hmax]; exact not_sizeMax_lt _)]

/-- The first read of a frame. -/
theorem step_firstBytes (hmax : config.maxMessageSize = sizeMax) {c : Conn} (hc : c.AtFrame)
    (f : Frame) (todo : List Frame) :
    ∃ op u, (reader endpoint config).step
        (c, ⟨f.maskedBytes ++ todo.flatMap Frame.maskedBytes, none⟩) =
          some ({ c with reading := some op }, ⟨u, none⟩) ∧
      Expects { c with reading := some op } u (f :: todo) := by
  have hrequest : (reader endpoint config).request c = some 2 := by
    simp [reader, hc.reading, ReadOp.size]
  have hbytes : f.maskedBytes ++ todo.flatMap Frame.maskedBytes =
      [f.finRsvOpcode, UInt8.ofNat (128 + f.form.code f.payload.length)] ++
        (Octets.toBytes f.form.width f.payload.length ++
          (body f ++ todo.flatMap Frame.maskedBytes)) := by
    simp [Frame.maskedBytes, LengthForm.bytes_eq, body]
  rw [hbytes, Reader.step_append hrequest, reader_complete, complete_header hc _ f.fits]
  by_cases hw : f.form.width = 0
  · rw [if_pos hw, readMessageContent_eq hmax, hw]
    exact ⟨_, _, rfl, Expects.content hc.streambuf rfl⟩
  · rw [if_neg hw]
    exact ⟨_, _, rfl, Expects.length hc.streambuf rfl f.form.width_le (f.fits.lt_width hw)⟩

/-- **One read goes on, or decodes the next frame.** -/
theorem Expects.step (hmax : config.maxMessageSize = sizeMax) {c : Conn} {u : Bytes}
    {todo : List Frame} (h : Expects c u todo) (hsize : ∀ f ∈ todo, f.payload.length + 4 < 2 ^ 64)
    {p : Conn × Source UInt8 ErrorCode}
    (hp : (reader endpoint config).step (c, ⟨u, none⟩) = some p) :
    (∃ op u', p = ({ c with reading := some op }, ⟨u', none⟩) ∧
        Expects { c with reading := some op } u' todo) ∨
      ∃ f todo', todo = f :: todo' ∧
        p = (c.process endpoint f, ⟨todo'.flatMap Frame.maskedBytes, none⟩) ∧
        c.streambuf = [] := by
  cases h with
  | atFrame todo hc =>
      cases todo with
      | nil =>
          have hrequest : (reader endpoint config).request c = some 2 := by
            simp [reader, hc.reading, ReadOp.size]
          simp only [Reader.step, hrequest, List.flatMap_nil, List.length_nil] at hp
          cases hp
      | cons f todo =>
          obtain ⟨op, u, hstep, hexpects⟩ := @step_firstBytes endpoint config hmax c hc f todo
          rw [List.flatMap_cons, hstep, Option.some_inj] at hp
          exact Or.inl ⟨op, u, hp.symm, hexpects⟩
  | @length f todo w hs hr hw hlen =>
      have hsize : (UInt64.ofNat w).toNat = w := UInt64.toNat_ofNat_of_lt' (by
        simp only [UInt64.size]; omega)
      have hrequest : (reader endpoint config).request c =
          some (Octets.toBytes w f.payload.length).length := by
        simp [reader, hr, ReadOp.size]
        omega
      have hcomplete := @complete_lengthBytes endpoint config c f.finRsvOpcode
        (Octets.toBytes w f.payload.length) (by simpa using hw) (by simpa using hr) hs
      rw [Octets.ofBytes_toBytes_of_lt hlen, readMessageContent_eq hmax] at hcomplete
      rw [Reader.step_append hrequest, reader_complete, hcomplete, Option.some_inj] at hp
      exact Or.inl ⟨_, _, hp.symm, Expects.content hs rfl⟩
  | @content f todo hs hr =>
      have hlt := hsize f (List.mem_cons_self ..)
      have hn : (UInt64.ofNat f.payload.length).toNat = f.payload.length :=
        UInt64.toNat_ofNat_of_lt' f.fits.lt
      have hrequest : (reader endpoint config).request c = some (body f).length := by
        simp [reader, hr, ReadOp.size, body, UInt64.toNat_add, hn]
        omega
      have hcomplete := @complete_content endpoint config c f.finRsvOpcode
        (UInt64.ofNat f.payload.length) f.mask f.payload hn hr hs
      rw [Reader.step_append hrequest, reader_complete, body, hcomplete, Option.some_inj] at hp
      exact Or.inr ⟨f, todo, rfl, hp.symm, hs⟩

/-- A message is delivered, and the next frame waited for. -/
theorem process_message {c : Conn} {f : Frame} (hf : IsMessage f.finRsvOpcode)
    (hs : c.streambuf = []) :
    (c.process endpoint f).AtFrame ∧ (c.process endpoint f).fragmentedInMessage = none ∧
      (c.process endpoint f).closed = c.closed ∧
      (c.process endpoint f).log = c.log ++ heardOf endpoint f := by
  obtain ⟨h8, h9, h10⟩ := hf.opcode_ne
  have hprocess := @Conn.handleFrame_final endpoint { c with reading := none }
    (UInt64.ofNat f.payload.length) f.finRsvOpcode f.payload h8 h9 h10 hf.1
  rw [Conn.process, hprocess]
  refine ⟨⟨rfl, hs⟩, rfl, rfl, ?_⟩
  simp only [Conn.readMessage, Conn.call, Conn.frameDecoded, Conn.inMessage, hf.not_isFragment,
    heardOf, if_neg hf.ne_close, List.append_assoc]
  rfl

theorem closed_sendClose (c : Conn) (status : ℤ) (reason : Bytes) :
    (c.sendClose status reason).closed = true := by
  unfold Conn.sendClose
  split
  · next h => exact h
  · rfl

theorem log_sendClose (c : Conn) (status : ℤ) (reason : Bytes) :
    (c.sendClose status reason).log =
      c.log ++ if c.closed then [] else [.enqueue (outData (closePayload status reason) 136)] := by
  unfold Conn.sendClose
  split
  · simp
  · rfl

/-- A close frame is answered once, and nothing more is read. -/
theorem process_close {c : Conn} {f : Frame} (hf : f.finRsvOpcode = 136) :
    let r := closeStatus (UInt64.ofNat f.payload.length) f.payload
    (c.process endpoint f).reading = none ∧ (c.process endpoint f).closed = true ∧
      (c.process endpoint f).log.filterMap Event.enqueued? =
        c.log.filterMap Event.enqueued? ++
          (if c.closed then [] else [outData (closePayload r.1 r.2) 136]) ∧
      heard (c.process endpoint f).log = heard c.log ++ heardOf endpoint f := by
  intro r
  have hopcode : opcode f.finRsvOpcode = 8 := by rw [hf]; rfl
  have hfragment : isFragment f.finRsvOpcode = false := by rw [hf]; rfl
  have hprocess := @Conn.handleFrame_close endpoint { c with reading := none }
    (UInt64.ofNat f.payload.length) f.finRsvOpcode f.payload hopcode
  simp only [Conn.inMessage, Conn.storeFragment, hfragment, Bool.false_eq_true, if_false]
    at hprocess
  rw [Conn.process, hprocess]
  refine ⟨by simp [Conn.connectionClose, Conn.call, Conn.frameDecoded], closed_sendClose _ _ _,
    ?_, ?_⟩
  · simp only [Conn.connectionClose, Conn.call, log_sendClose, Conn.frameDecoded,
      List.filterMap_append, List.append_assoc]
    cases c.closed <;> cases endpoint.onClose <;> rfl
  · simp only [Conn.connectionClose, Conn.call, log_sendClose, Conn.frameDecoded, heard_append,
      List.append_assoc, heardOf, if_pos hf]
    cases c.closed <;> cases endpoint.onClose <;> rfl

end Server

/-! ### The client -/

namespace Client

variable {callbacks : Callbacks} {config : Config}

/-- `Expects c u todo`: the frames `todo` are still to be decoded, and `u` is what is still to be
read of their bytes; nothing has been read ahead. -/
inductive Expects : Conn → Bytes → List Frame → Prop
  | atFrame {c : Conn} (todo : List Frame) :
      c.AtFrame → Expects c (todo.flatMap Frame.unmaskedBytes) todo
  | length {c : Conn} {f : Frame} {todo : List Frame} {w : ℕ} :
      c.inMessage.streambuf = [] → c.inMessage.finRsvOpcode = f.finRsvOpcode →
      c.reading = some (.lengthBytes w 0) → w ≤ 8 → f.payload.length < 256 ^ w →
      Expects c
        (Octets.toBytes w f.payload.length ++ (f.payload ++ todo.flatMap Frame.unmaskedBytes))
        (f :: todo)
  | content {c : Conn} {f : Frame} {todo : List Frame} :
      c.inMessage = ⟨f.finRsvOpcode, UInt64.ofNat f.payload.length, []⟩ →
      c.reading = some (.content 0) →
      Expects c (f.payload ++ todo.flatMap Frame.unmaskedBytes) (f :: todo)

/-- More is sent. -/
theorem Expects.append {c : Conn} {u : Bytes} {todo : List Frame} (h : Expects c u todo)
    (f : Frame) : Expects c (u ++ f.unmaskedBytes) (todo ++ [f]) := by
  cases h with
  | atFrame todo hc =>
      have h := Expects.atFrame (todo ++ [f]) hc
      simpa using h
  | @length g todo w hs hb hr hw hlen =>
      have h := @Expects.length c g (todo ++ [f]) w hs hb hr hw hlen
      simpa using h
  | @content g todo hm hr =>
      have h := @Expects.content c g (todo ++ [f]) hm hr
      simpa using h

/-- Nothing but the buffer and the outstanding read matters. -/
theorem Expects.congr {c c' : Conn} {u : Bytes} {todo : List Frame} (h : Expects c u todo)
    (hm : c'.inMessage = c.inMessage) (hr : c'.reading = c.reading) : Expects c' u todo := by
  cases h with
  | atFrame todo hc =>
      exact Expects.atFrame todo ⟨hr.trans hc.reading, by rw [hm]; exact hc.streambuf⟩
  | length hs hb hr' hw hlen =>
      exact Expects.length (by rw [hm]; exact hs) (by rw [hm]; exact hb) (hr.trans hr') hw hlen
  | content hm' hr' => exact Expects.content (hm.trans hm') (hr.trans hr')

/-- No message is too big. -/
theorem readMessageContent_eq (hmax : config.maxMessageSize = sizeMax) (c : Conn) (k : ℕ) :
    c.readMessageContent callbacks config k = { c with reading := some (.content k) } := by
  rw [Conn.readMessageContent, if_neg (by rw [hmax]; exact not_sizeMax_lt _)]

/-- The first read of a frame. -/
theorem step_firstBytes (hmax : config.maxMessageSize = sizeMax) {c : Conn} (hc : c.AtFrame)
    (f : Frame) (todo : List Frame) :
    ∃ m op u, (reader callbacks config).step
        (c, ⟨f.unmaskedBytes ++ todo.flatMap Frame.unmaskedBytes, none⟩) =
          some ({ c with inMessage := m, reading := some op }, ⟨u, none⟩) ∧
      Expects { c with inMessage := m, reading := some op } u (f :: todo) := by
  have hrequest : (reader callbacks config).request c = some 2 := by
    simp [reader, hc.reading, Conn.transferExactly]
  have hbytes : f.unmaskedBytes ++ todo.flatMap Frame.unmaskedBytes =
      [f.finRsvOpcode, UInt8.ofNat (0 + f.form.code f.payload.length)] ++
        (Octets.toBytes f.form.width f.payload.length ++
          (f.payload ++ todo.flatMap Frame.unmaskedBytes)) := by
    simp [Frame.unmaskedBytes, LengthForm.bytes_eq]
  rw [hbytes, Reader.step_append hrequest, reader_complete, complete_header hc _ f.fits]
  by_cases hw : f.form.width = 0
  · rw [if_pos hw, readMessageContent_eq hmax, hw]
    exact ⟨_, _, _, rfl, Expects.content rfl rfl⟩
  · rw [if_neg hw]
    exact ⟨_, _, _, rfl,
      Expects.length hc.streambuf rfl rfl f.form.width_le (f.fits.lt_width hw)⟩

/-- **One read goes on, or decodes the next frame.** -/
theorem Expects.step (hmax : config.maxMessageSize = sizeMax) {c : Conn} {u : Bytes}
    {todo : List Frame} (h : Expects c u todo) {p : Conn × Source UInt8 ErrorCode}
    (hp : (reader callbacks config).step (c, ⟨u, none⟩) = some p) :
    (∃ m op u', p = ({ c with inMessage := m, reading := some op }, ⟨u', none⟩) ∧
        Expects { c with inMessage := m, reading := some op } u' todo) ∨
      ∃ f todo', todo = f :: todo' ∧
        p = (c.process callbacks f, ⟨todo'.flatMap Frame.unmaskedBytes, none⟩) := by
  cases h with
  | atFrame todo hc =>
      cases todo with
      | nil =>
          have hrequest : (reader callbacks config).request c = some 2 := by
            simp [reader, hc.reading, Conn.transferExactly]
          simp only [Reader.step, hrequest, List.flatMap_nil, List.length_nil] at hp
          cases hp
      | cons f todo =>
          obtain ⟨m, op, u, hstep, hexpects⟩ :=
            @step_firstBytes callbacks config hmax c hc f todo
          rw [List.flatMap_cons, hstep, Option.some_inj] at hp
          exact Or.inl ⟨m, op, u, hp.symm, hexpects⟩
  | @length f todo w hs hb hr hw hlen =>
      have hrequest : (reader callbacks config).request c =
          some (Octets.toBytes w f.payload.length).length := by
        simp [reader, hr, Conn.transferExactly]
      have hcomplete := @complete_lengthBytes callbacks config c
        (Octets.toBytes w f.payload.length) (by simpa using hw) (by simpa using hr) hs
      rw [Octets.ofBytes_toBytes_of_lt hlen, readMessageContent_eq hmax] at hcomplete
      rw [Reader.step_append hrequest, reader_complete, hcomplete, Option.some_inj] at hp
      exact Or.inl ⟨_, _, _, hp.symm, Expects.content (by simp [hb, hs]) rfl⟩
  | @content f todo hm hr =>
      have hn : (UInt64.ofNat f.payload.length).toNat = f.payload.length :=
        UInt64.toNat_ofNat_of_lt' f.fits.lt
      have hrequest : (reader callbacks config).request c = some f.payload.length := by
        simp only [reader, hr, Option.map_some, Conn.transferExactly, hm, hn]
        simp
      have hcomplete := @complete_content callbacks config c f.payload hr (by rw [hm])
      rw [Reader.step_append hrequest, reader_complete, hcomplete, Option.some_inj, hm] at hp
      exact Or.inr ⟨f, todo, rfl, hp.symm⟩

/-- A message is delivered, and the next frame waited for. -/
theorem process_message {c : Conn} {f : Frame} (hf : IsMessage f.finRsvOpcode)
    (hnone : c.fragmentedInMessage = none) :
    (c.process callbacks f).AtFrame ∧ (c.process callbacks f).fragmentedInMessage = none ∧
      (c.process callbacks f).closed = c.closed ∧
      (c.process callbacks f).log = c.log ++ heardOf callbacks f := by
  obtain ⟨h8, h9, h10⟩ := hf.opcode_ne
  have hprocess := @Conn.handleFrame_final callbacks
    { c with reading := none, inMessage := .of f.content } InMessage.empty 0 h8 h9 h10 hf.1
  rw [Conn.process, hprocess]
  refine ⟨⟨rfl, rfl⟩, rfl, rfl, ?_⟩
  simp only [Conn.readMessage, Conn.call, Conn.frameDecoded, hnone, heardOf, if_neg hf.ne_close,
    List.append_assoc]
  rfl

theorem closed_sendClose (c : Conn) (status : ℤ) (reason : Bytes) :
    (c.sendClose status reason).closed = true := by
  unfold Conn.sendClose
  split
  · next h => exact h
  · rfl

theorem log_sendClose (c : Conn) (status : ℤ) (reason : Bytes) :
    (c.sendClose status reason).log =
      c.log ++ if c.closed then []
        else [.enqueue (outData (c.rd 0) (closePayload status reason) 136)] := by
  unfold Conn.sendClose
  split
  · simp
  · rfl

/-- A close frame is answered once, and nothing more is read. -/
theorem process_close {c : Conn} {f : Frame} (hf : f.finRsvOpcode = 136) :
    let r := closeStatus (UInt64.ofNat f.payload.length) f.payload
    (c.process callbacks f).reading = none ∧ (c.process callbacks f).closed = true ∧
      (c.process callbacks f).log.filterMap Event.enqueued? =
        c.log.filterMap Event.enqueued? ++
          (if c.closed then [] else [outData (c.rd 0) (closePayload r.1 r.2) 136]) ∧
      heard (c.process callbacks f).log = heard c.log ++ heardOf callbacks f := by
  intro r
  have hopcode : opcode f.finRsvOpcode = 8 := by rw [hf]; rfl
  have hprocess := @Conn.handleFrame_close callbacks
    { c with reading := none, inMessage := .of f.content } InMessage.empty 0 hopcode
  dsimp only at hprocess
  rw [Conn.process, hprocess]
  refine ⟨by simp [Conn.connectionClose, Conn.call, Conn.frameDecoded], closed_sendClose _ _ _,
    ?_, ?_⟩
  · simp only [Conn.connectionClose, Conn.call, log_sendClose, Conn.frameDecoded,
      List.filterMap_append, List.append_assoc]
    cases c.closed <;> cases callbacks.onClose <;> rfl
  · simp only [Conn.connectionClose, Conn.call, log_sendClose, Conn.frameDecoded, heard_append,
      List.append_assoc, heardOf, if_pos hf]
    cases c.closed <;> cases callbacks.onClose <;> rfl

end Client

end SimpleWeb
