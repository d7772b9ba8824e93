/-
**Sending and reading frames are inverse.**

The bytes that `send` puts on the queue are a frame in the sense of `SimpleWeb.Frame`, with its
length in the shortest form.  So what a client sends the server reads back, frame by frame, and what
a server sends the client reads back.

Main results:

* `SimpleWeb.Server.outHeader_eq`, `SimpleWeb.Client.outHeader_eq` — the headers written;
* `SimpleWeb.Server.decodes_frames`, `SimpleWeb.Client.decodes_frames` — each endpoint decodes
  unfragmented frames as they were sent;
* `SimpleWeb.codec_inverse` — **frames sent by either endpoint are decoded by the other**, each from
  exactly its own bytes.
-/

import SimpleWeb.ServerReassembly
import SimpleWeb.ClientReassembly
import SimpleWeb.Intact

set_option relaxedAutoImplicit false
set_option autoImplicit false

namespace SimpleWeb

/-! ### Headers -/

/-- The comparisons of `send`, in numbers. -/
theorem ofNat_ge_iff {n : ℕ} (hn : n < 2 ^ 64) (k : UInt64) :
    UInt64.ofNat n ≥ k ↔ k.toNat ≤ n := by
  have htoNat : (UInt64.ofNat n).toNat = n :=
    UInt64.toNat_ofNat_of_lt' (by simp only [UInt64.size]; omega)
  rw [ge_iff_le, UInt64.le_iff_toNat_le, htoNat]

theorem ofNat_gt_iff {n : ℕ} (hn : n < 2 ^ 64) (k : UInt64) :
    UInt64.ofNat n > k ↔ k.toNat < n := by
  have htoNat : (UInt64.ofNat n).toNat = n :=
    UInt64.toNat_ofNat_of_lt' (by simp only [UInt64.size]; omega)
  rw [gt_iff_lt, UInt64.lt_iff_toNat_lt, htoNat]

/-- The extended length, most significant byte first. -/
theorem putLength_ofNat {n : ℕ} (hn : n < 2 ^ 64) {w : ℕ} (hw : w ≤ 8) :
    putLength (UInt64.ofNat n) w = Octets.toBytes w n := by
  rw [putLength_eq _ hw, UInt64.toNat_ofNat_of_lt' (by simp only [UInt64.size]; omega)]

/-- **The server writes an unmasked header with the shortest length.** -/
theorem Server.outHeader_eq {n : ℕ} (hn : n < 2 ^ 64) (b : UInt8) :
    Server.outHeader (UInt64.ofNat n) b = b :: (LengthForm.shortest n).bytes 0 n := by
  have h126 := ofNat_ge_iff hn 126
  have hffff := ofNat_gt_iff hn 0xffff
  simp only [UInt64.reduceToNat] at h126 hffff
  unfold Server.outHeader LengthForm.shortest
  by_cases h₁ : n < 126
  · rw [if_neg (by rw [h126]; omega), if_pos h₁]
    simp [LengthForm.bytes]
  · rw [if_pos (h126.2 (by omega)), if_neg h₁]
    by_cases h₂ : n < 2 ^ 16
    · rw [if_neg (by rw [hffff]; omega), if_pos h₂, putLength_ofNat hn (by omega)]
      rfl
    · rw [if_pos (hffff.2 (by omega)), if_neg h₂, putLength_ofNat hn (by omega)]
      rfl

/-- **The client writes a masked header with the shortest length.** -/
theorem Client.outHeader_eq {n : ℕ} (hn : n < 2 ^ 64) (b : UInt8) :
    Client.outHeader (UInt64.ofNat n) b = b :: (LengthForm.shortest n).bytes 128 n := by
  have h126 := ofNat_ge_iff hn 126
  have hffff := ofNat_gt_iff hn 0xffff
  simp only [UInt64.reduceToNat] at h126 hffff
  unfold Client.outHeader LengthForm.shortest
  by_cases h₁ : n < 126
  · rw [if_neg (by rw [h126]; omega), if_pos h₁]
    have hbyte : (UInt64.ofNat n + 128).toUInt8 = UInt8.ofNat (128 + n) := by
      apply UInt8.toNat_inj.1
      simp
      omega
    rw [hbyte]
    rfl
  · rw [if_pos (h126.2 (by omega)), if_neg h₁]
    by_cases h₂ : n < 2 ^ 16
    · rw [if_neg (by rw [hffff]; omega), if_pos h₂, putLength_ofNat hn (by omega)]
      rfl
    · rw [if_pos (hffff.2 (by omega)), if_neg h₂, putLength_ofNat hn (by omega)]
      rfl

/-! ### Frames sent -/

/-- The frame has its length in the shortest form. -/
def Frame.IsShortest (f : Frame) : Prop := f.form = LengthForm.shortest f.payload.length

theorem Frame.IsShortest.unmasked {f : Frame} (h : f.IsShortest) :
    Server.outData f.payload f.finRsvOpcode = f.unmaskedBytes := by
  rw [Server.outData, Server.outHeader_eq f.fits.lt, Frame.unmaskedBytes, h]
  rfl

theorem Frame.IsShortest.masked {f : Frame} (h : f.IsShortest) :
    Client.outData f.mask f.payload f.finRsvOpcode = f.maskedBytes := by
  have hpayload : (unmask f.mask f.payload.length f.payload).1 =
      Octets.xorCycle f.mask f.payload := by
    have hloop := unmask_append f.mask f.payload []
    rw [List.append_nil] at hloop
    rw [hloop]
  rw [Client.outData, Client.outHeader_eq f.fits.lt, hpayload, Frame.maskedBytes, h]
  simp

/-- Payloads below `2 ^ 63` bytes, with the masks and header bytes they are sent with, as frames. -/
theorem exists_frames (sent : List (Mask × UInt8 × Bytes)) :
    (∀ s ∈ sent, s.2.2.length < 2 ^ 63) →
    ∃ frames : List Frame, frames.map (fun f => (f.mask, f.content)) = sent ∧
      ∀ f ∈ frames, f.IsShortest := by
  induction sent with
  | nil =>
      intro _
      exact ⟨[], rfl, by simp⟩
  | cons s sent ih =>
      intro hlen
      obtain ⟨mask, b, payload⟩ := s
      obtain ⟨frames, rfl, hshortest⟩ := ih fun s hs => hlen s (List.mem_cons_of_mem _ hs)
      have hlt : payload.length < 2 ^ 63 := hlen (mask, b, payload) (by simp)
      refine ⟨⟨b, .shortest payload.length, mask, payload,
        LengthForm.fits_shortest (by omega)⟩ :: frames, rfl, ?_⟩
      intro f hf
      rcases List.mem_cons.1 hf with rfl | hf
      · rfl
      · exact hshortest f hf

/-! ### Frames read back -/

/-- The header bytes of unfragmented text, binary, ping and pong frames. -/
def IsUnfragmented (b : UInt8) : Prop := b = 129 ∨ b = 130 ∨ b = 137 ∨ b = 138

/-- An unfragmented frame may come at any time, and is a message of its own unless it is a control
frame. -/
theorem step_unfragmented {b : UInt8} (hb : IsUnfragmented b) (p : Bytes) :
    Reassembly.Expected none b ∧ (Reassembly.step none b p).1 = none ∧
      (Reassembly.step none b p).2.filterMap Reassembly.Output.message? =
        if IsControl b then [] else [(b, p)] := by
  rcases hb with rfl | rfl | rfl | rfl
  · rw [Reassembly.step_final (by decide) (by decide) rfl]
    exact ⟨.start (by decide), rfl, rfl⟩
  · rw [Reassembly.step_final (by decide) (by decide) rfl]
    exact ⟨.start (by decide), rfl, rfl⟩
  · rw [Reassembly.step_ping rfl]
    exact ⟨.pingPong (by decide), rfl, rfl⟩
  · rw [Reassembly.step_pong rfl]
    exact ⟨.pingPong (by decide), rfl, rfl⟩

/-- The messages of unfragmented frames are the text and binary frames. -/
theorem run_unfragmented (fs : List (UInt8 × Bytes)) : (∀ f ∈ fs, IsUnfragmented f.1) →
    Reassembly.Follows none fs ∧
      (Reassembly.run none fs).2.filterMap Reassembly.Output.message? =
        fs.filter fun f => ¬ IsControl f.1 := by
  induction fs with
  | nil =>
      intro _
      exact ⟨trivial, rfl⟩
  | cons f fs ih =>
      intro hb
      obtain ⟨b, p⟩ := f
      obtain ⟨hfollows, hmessages⟩ := ih fun g hg => hb g (List.mem_cons_of_mem _ hg)
      obtain ⟨he, hnone, hstep⟩ := step_unfragmented (hb (b, p) (by simp)) p
      refine ⟨⟨he, by rwa [hnone]⟩, ?_⟩
      simp only [Reassembly.run, hnone, List.filterMap_append, hstep, hmessages]
      by_cases hcontrol : IsControl b <;> simp [hcontrol]

namespace Server

/-- No frame is decoded in what an output of the reassembly does. -/
theorem decoded_events (endpoint : Callbacks) (outs : List Reassembly.Output) :
    decoded (outs.flatMap (events endpoint)) = [] := by
  induction outs with
  | nil => rfl
  | cons o outs ih =>
      rw [List.flatMap_cons, decoded_append, ih]
      cases o <;> simp only [events] <;> split <;> rfl

/-- The frames in the log of a stream are those of the stream. -/
theorem decoded_streamEvents (endpoint : Callbacks) (fs : List (UInt8 × Bytes)) :
    ∀ pending, decoded (streamEvents endpoint pending fs) = fs := by
  induction fs with
  | nil =>
      intro _
      rfl
  | cons f fs ih =>
      intro pending
      rw [streamEvents, ← List.singleton_append, decoded_append, decoded_append, decoded_events, ih]
      rfl

/-- The server decodes unfragmented frames as they were sent. -/
theorem decodes_frames {endpoint : Callbacks} {config : Config} (hmessage : endpoint.onMessage = true)
    (hmax : config.maxMessageSize = sizeMax) {frames : List Frame}
    (hkind : ∀ f ∈ frames.map Frame.content, IsUnfragmented f.1)
    (hsize : ∀ f ∈ frames, f.payload.length + 4 < 2 ^ 64) :
    ∃ c, (reader endpoint config).Reads (opened endpoint []) (frames.flatMap Frame.maskedBytes) c ∧
      c.AtFrame ∧ decoded c.log = frames.map Frame.content ∧
      c.log.filterMap Event.message? =
        (frames.map Frame.content).filter fun f => ¬ IsControl f.1 := by
  obtain ⟨hfollows, hmessages⟩ := run_unfragmented _ hkind
  have hreads := @reads_follows endpoint config hmax frames (opened endpoint []) none ⟨rfl, rfl⟩ rfl
    hfollows hsize
  have hopen : decoded (opened endpoint []).log = [] ∧
      (opened endpoint []).log.filterMap Event.message? = [] := by
    simp only [opened, Conn.connectionOpen, Conn.call, Conn.readMessage, List.nil_append]
    split <;> exact ⟨rfl, rfl⟩
  refine ⟨_, hreads, ⟨rfl, rfl⟩, ?_, ?_⟩
  · rw [decoded_append, hopen.1, decoded_streamEvents]
    rfl
  · rw [List.filterMap_append, hopen.2,
      filterMap_streamEvents (h := Reassembly.Output.message?) (fun _ _ => rfl), hmessages]
    · rfl
    · intro o
      cases o <;> simp only [events, hmessage] <;> first | rfl | (split <;> rfl)

end Server

namespace Client

theorem decoded_events (callbacks : Callbacks) (mask : Mask) (outs : List Reassembly.Output) :
    decoded (outs.flatMap (events callbacks mask)) = [] := by
  induction outs with
  | nil => rfl
  | cons o outs ih =>
      rw [List.flatMap_cons, decoded_append, ih]
      cases o <;> simp only [events] <;> split <;> rfl

theorem decoded_streamEvents (callbacks : Callbacks) (fs : List (UInt8 × Bytes)) :
    ∀ rd pending, decoded (streamEvents callbacks rd pending fs) = fs := by
  induction fs with
  | nil =>
      intro _ _
      rfl
  | cons f fs ih =>
      intro rd pending
      rw [streamEvents, ← List.singleton_append, decoded_append, decoded_append, decoded_events, ih]
      rfl

/-- The client decodes unfragmented frames as they were sent. -/
theorem decodes_frames {callbacks : Callbacks} {config : Config}
    (hmessage : callbacks.onMessage = true) (hmax : config.maxMessageSize = sizeMax)
    (rd : ℕ → Mask) {frames : List Frame}
    (hkind : ∀ f ∈ frames.map Frame.content, IsUnfragmented f.1) :
    ∃ c, (reader callbacks config).Reads (opened callbacks rd [] 0)
        (frames.flatMap Frame.unmaskedBytes) c ∧
      c.AtFrame ∧ decoded c.log = frames.map Frame.content ∧
      c.log.filterMap Event.message? =
        (frames.map Frame.content).filter fun f => ¬ IsControl f.1 := by
  obtain ⟨hfollows, hmessages⟩ := run_unfragmented _ hkind
  obtain ⟨c, hreads, hat, -, hlog⟩ := @reads_follows callbacks config hmax frames
    (opened callbacks rd [] 0) none ⟨rfl, rfl⟩ rfl hfollows
  have hopen : decoded (opened callbacks rd [] 0).log = [] ∧
      (opened callbacks rd [] 0).log.filterMap Event.message? = [] := by
    simp only [opened, Conn.connectionOpen, Conn.call, Conn.readMessage, List.nil_append]
    split <;> exact ⟨rfl, rfl⟩
  refine ⟨c, hreads, hat, ?_, ?_⟩
  · rw [hlog, decoded_append, hopen.1, decoded_streamEvents]
    rfl
  · rw [hlog, List.filterMap_append, hopen.2,
      filterMap_streamEvents (h := Reassembly.Output.message?) (fun _ _ => rfl), hmessages]
    · rfl
    · intro mask o
      cases o <;> simp only [events, hmessage] <;> first | rfl | (split <;> rfl)

end Client

/-! ### Both directions -/

/-- **Sending and reading frames are inverse.**  Unfragmented frames with payloads below `2 ^ 63`
bytes, sent by a client with any masks, are decoded by the server as they were sent, from exactly
these bytes, and its messages are the text and binary frames; the same for a server's frames read by
a client.  Every header is written with the shortest length.  (The list being arbitrary, each of its
initial parts is decoded from exactly its own bytes.) -/
theorem codec_inverse (sent : List (Mask × UInt8 × Bytes)) (hb : ∀ s ∈ sent, IsUnfragmented s.2.1)
    (hlen : ∀ s ∈ sent, s.2.2.length < 2 ^ 63) :
    (∀ (endpoint : Callbacks) (config : Server.Config), endpoint.onMessage = true →
      config.maxMessageSize = sizeMax →
      ∃ c, (Server.reader endpoint config).Reads (Server.opened endpoint [])
          (sent.flatMap fun s => Client.outData s.1 s.2.2 s.2.1) c ∧
        c.AtFrame ∧ decoded c.log = sent.map Prod.snd ∧
        c.log.filterMap Event.message? = (sent.map Prod.snd).filter fun f => ¬ IsControl f.1) ∧
    (∀ (callbacks : Callbacks) (config : Client.Config) (rd : ℕ → Mask),
      callbacks.onMessage = true → config.maxMessageSize = sizeMax →
      ∃ c, (Client.reader callbacks config).Reads (Client.opened callbacks rd [] 0)
          (sent.flatMap fun s => Server.outData s.2.2 s.2.1) c ∧
        c.AtFrame ∧ decoded c.log = sent.map Prod.snd ∧
        c.log.filterMap Event.message? = (sent.map Prod.snd).filter fun f => ¬ IsControl f.1) ∧
    (∀ s ∈ sent,
      Client.outHeader (UInt64.ofNat s.2.2.length) s.2.1 =
        s.2.1 :: (LengthForm.shortest s.2.2.length).bytes 128 s.2.2.length ∧
      Server.outHeader (UInt64.ofNat s.2.2.length) s.2.1 =
        s.2.1 :: (LengthForm.shortest s.2.2.length).bytes 0 s.2.2.length) := by
  obtain ⟨frames, rfl, hshortest⟩ := exists_frames sent hlen
  have hcontent : (frames.map fun f => (f.mask, f.content)).map Prod.snd =
      frames.map Frame.content := by
    rw [List.map_map]
    rfl
  have hkind : ∀ f ∈ frames.map Frame.content, IsUnfragmented f.1 := by
    intro f hf
    obtain ⟨g, hg, rfl⟩ := List.mem_map.1 hf
    exact hb (g.mask, g.content) (List.mem_map.2 ⟨g, hg, rfl⟩)
  rw [hcontent]
  refine ⟨?_, ?_, ?_⟩
  · intro endpoint config hmessage hmax
    have hbytes : ((frames.map fun f => (f.mask, f.content)).flatMap fun s =>
        Client.outData s.1 s.2.2 s.2.1) = frames.flatMap Frame.maskedBytes := by
      rw [List.flatMap_map]
      exact List.flatMap_congr fun f hf => (hshortest f hf).masked
    have hsize : ∀ f ∈ frames, f.payload.length + 4 < 2 ^ 64 := by
      intro f hf
      have hlt : f.payload.length < 2 ^ 63 :=
        hlen (f.mask, f.content) (List.mem_map.2 ⟨f, hf, rfl⟩)
      omega
    rw [hbytes]
    exact Server.decodes_frames hmessage hmax hkind hsize
  · intro callbacks config rd hmessage hmax
    have hbytes : ((frames.map fun f => (f.mask, f.content)).flatMap fun s =>
        Server.outData s.2.2 s.2.1) = frames.flatMap Frame.unmaskedBytes := by
      rw [List.flatMap_map]
      exact List.flatMap_congr fun f hf => (hshortest f hf).unmasked
    rw [hbytes]
    exact Client.decodes_frames hmessage hmax rd hkind
  · intro s hs
    have hlt := hlen s hs
    exact ⟨Client.outHeader_eq (by omega) _, Server.outHeader_eq (by omega) _⟩

/-- A text and a ping, sent by a client and read by the server. -/
theorem codec_inverse_hi :
    ∃ c, (Server.reader {} {}).Reads (Server.opened {} [])
        (Client.outData (fun _ => 5) (ascii "hi") 129 ++
          Client.outData (fun i => UInt8.ofNat i) (ascii "?") 137) c ∧
      decoded c.log = [(129, ascii "hi"), (137, ascii "?")] ∧
      c.log.filterMap Event.message? = [(129, ascii "hi")] := by
  have h := codec_inverse
    [(fun _ => 5, 129, ascii "hi"), (fun i => UInt8.ofNat i, 137, ascii "?")]
    (by simp [IsUnfragmented]) (by simp [ascii])
  obtain ⟨c, hreads, -, hdecoded, hmessages⟩ := h.1 {} {} rfl rfl
  refine ⟨c, by simpa using hreads, hdecoded, ?_⟩
  rw [hmessages]
  decide

end SimpleWeb
