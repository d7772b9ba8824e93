/-
**Messages on their way from one program to the other.**

`SimpleWeb.System` puts the frames of either side on the network at once.  Here they go the way they
really go: `send` and `send_close` put them on the send queue of the connection; one write at a time
is outstanding, whose bytes are transferred piece by piece; when all of them have been, its handler
starts the next write; and the read loop of the other side completes its reads from the bytes that
have arrived.  A write can fail, and with it everything behind it on the queue and every later write
of that side.  The outstanding read can end with an error, as it does when a timeout or `stop` closes
the socket, or while the handlers are stopped.

The fields `sentByServer` and `sentByClient` record what the program has sent before its side has
sent a close frame; nothing depends on them.

Main definitions:

* `SimpleWeb.Outgoing` — a send queue, and the bytes on their way;
* `SimpleWeb.Network`, `SimpleWeb.Network.act`, `SimpleWeb.Network.Reachable` — the two sides, and any
  interleaving of what happens to them;
* `SimpleWeb.Network.Follows` — where the system without queues is at that moment;
* `SimpleWeb.Arrived` — what a side may rely on.

Main results:

* `SimpleWeb.Network.follows_act` — **every step is one of the system without queues, or none**;
* `SimpleWeb.messages_arrive` — **the messages of one program arrive at the other, in order, and none
  of them twice**.
-/

import SimpleWeb.CloseHandshake
import SimpleWeb.SendQueue

set_option relaxedAutoImplicit false
set_option autoImplicit false

namespace SimpleWeb

/-! ### One direction -/

/-- The send queue of one side, how much of the outstanding write has been transferred, whether a
write has failed, and the bytes that have been transferred and not been read. -/
structure Outgoing where
  sendQueue : SendQueue Bytes Unit ErrorCode := {}
  transferred : ℕ := 0
  broken : Bool := false
  wire : Bytes := []

namespace Outgoing

/-- `send` is called, once for each of the frames. -/
def put (o : Outgoing) (frames : List Bytes) : Outgoing :=
  { o with sendQueue := frames.foldl (fun q frame => q.send ⟨frame, none⟩) o.sendQueue }

/-- The next bytes of the outstanding write are transferred. -/
def transfer (o : Outgoing) (n : ℕ) : Outgoing :=
  match o.sendQueue.outstanding with
  | [] => o
  | frame :: _ =>
      let bytes := (frame.drop o.transferred).take n
      { o with transferred := o.transferred + bytes.length, wire := o.wire ++ bytes }

/-- The outstanding write has ended, and its handler runs. -/
def complete (o : Outgoing) (ec : Option ErrorCode) : Outgoing :=
  { o with
    sendQueue := o.sendQueue.complete 0 true ec
    transferred := 0
    broken := o.broken || ec.isSome }

/-- A write is outstanding, of which all bytes have been transferred. -/
def Whole (o : Outgoing) : Prop :=
  ∃ frame, o.sendQueue.outstanding.head? = some frame ∧ o.transferred = frame.length

/-- The bytes that are still to be transferred. -/
def rest (o : Outgoing) : Bytes :=
  (o.sendQueue.queue.map SendQueue.Entry.data).flatten.drop o.transferred

end Outgoing

/-! ### The two sides -/

/-- The two ends of a connection, and what is between them.  There is no client until its handshake
is done. -/
structure Network where
  server : Server.Conn
  client : Option Client.Conn := none
  fromServer : Outgoing := {}
  fromClient : Outgoing := {}
  sentByServer : List (UInt8 × Bytes) := []
  sentByClient : List (UInt8 × Bytes) := []

/-- The frames put on the send queue between two states of a log. -/
def newlyEnqueued (before after : List Event) : List Bytes :=
  (enqueued after).drop (enqueued before).length

namespace Network

inductive Act
  | serverSend (outMessage : Bytes) (finRsvOpcode : UInt8)
  | serverClose (status : ℤ) (reason : Bytes)
  | serverReads
  | serverReadEnds (lock : Bool) (ec : Option ErrorCode) (n : ℕ)
  | serverTransfers (n : ℕ)
  | serverWritten (ec : Option ErrorCode)
  | clientOpens (rd : ℕ → Mask) (numAdditionalBytes : ℕ)
  | clientSend (outMessage : Bytes) (finRsvOpcode : UInt8)
  | clientClose (status : ℤ) (reason : Bytes)
  | clientReads
  | clientReadEnds (lock : Bool) (ec : Option ErrorCode) (n : ℕ)
  | clientTransfers (n : ℕ)
  | clientWritten (ec : Option ErrorCode)

/-- The server has gone on to `c`; what it has sent is on its send queue. -/
def onServer (n : Network) (c : Server.Conn) : Network :=
  { n with server := c, fromServer := n.fromServer.put (newlyEnqueued n.server.log c.log) }

/-- The client `c` has gone on to `c'`. -/
def onClient (n : Network) (c c' : Client.Conn) : Network :=
  { n with client := some c', fromClient := n.fromClient.put (newlyEnqueued c.log c'.log) }

/-- Bytes have been read from what the client has sent, or from what the server has. -/
def serverConsumes (n : Network) (wire : Bytes) : Network :=
  { n with fromClient := { n.fromClient with wire := wire } }

def clientConsumes (n : Network) (wire : Bytes) : Network :=
  { n with fromServer := { n.fromServer with wire := wire } }

/-- Something the client does, if there is one. -/
def ofClient (n : Network) (f : Client.Conn → Network) : Network :=
  match n.client with
  | none => n
  | some c => f c

variable (endpoint callbacks : Callbacks) (sconfig : Server.Config) (cconfig : Client.Config)

/-- The server's outstanding read is completed, if its bytes have arrived. -/
def serverReads (n : Network) : Network :=
  match (Server.reader endpoint sconfig).step (n.server, ⟨n.fromClient.wire, none⟩) with
  | none => n
  | some p => (n.serverConsumes p.2.incoming).onServer p.1

/-- The client's outstanding read is completed, if its bytes have arrived. -/
def clientReads (n : Network) (c : Client.Conn) : Network :=
  match (Client.reader callbacks cconfig).step (c, ⟨n.fromServer.wire, none⟩) with
  | none => n
  | some p => (n.clientConsumes p.2.incoming).onClient c p.1

/-- The server's outstanding read ends, with some of its bytes. -/
def serverReadEnds (n : Network) (lock : Bool) (ec : Option ErrorCode) (k : ℕ) : Network :=
  (n.serverConsumes (n.fromClient.wire.drop k)).onServer
    (n.server.complete endpoint sconfig lock ⟨ec, n.fromClient.wire.take k⟩)

/-- The client's outstanding read ends, with some of its bytes. -/
def clientReadEnds (n : Network) (lock : Bool) (ec : Option ErrorCode) (k : ℕ)
    (c : Client.Conn) : Network :=
  (n.clientConsumes (n.fromServer.wire.drop k)).onClient c
    (c.complete callbacks cconfig lock ⟨ec, n.fromServer.wire.take k⟩)

/-- The handshake response has been read, and along with it the first bytes behind it. -/
def clientOpens (n : Network) (rd : ℕ → Mask) (k : ℕ) : Network :=
  { n.clientConsumes (n.fromServer.wire.drop k) with
    client := some (Client.opened callbacks rd (n.fromServer.wire.take k) k) }

/-- What the program has sent, with one message more if no close frame has been sent. -/
def record (sent : List (UInt8 × Bytes)) (closed : Bool) (m : UInt8 × Bytes) :
    List (UInt8 × Bytes) :=
  if closed then sent else sent ++ [m]

def act (n : Network) : Act → Network
  | .serverSend outMessage b =>
      { n with
        sentByServer := record n.sentByServer n.server.closed (b, outMessage) }.onServer
        (n.server.send outMessage b)
  | .serverClose status reason => n.onServer (n.server.sendClose status reason)
  | .serverReads => n.serverReads endpoint sconfig
  | .serverReadEnds lock ec k => n.serverReadEnds endpoint sconfig lock ec k
  | .serverTransfers k => { n with fromServer := n.fromServer.transfer k }
  | .serverWritten ec => { n with fromServer := n.fromServer.complete ec }
  | .clientOpens rd k => n.clientOpens callbacks rd k
  | .clientSend outMessage b =>
      n.ofClient fun c =>
        { n with sentByClient := record n.sentByClient c.closed (b, outMessage) }.onClient c
          (c.send outMessage b)
  | .clientClose status reason => n.ofClient fun c => n.onClient c (c.sendClose status reason)
  | .clientReads => n.ofClient fun c => n.clientReads callbacks cconfig c
  | .clientReadEnds lock ec k => n.ofClient fun c => n.clientReadEnds callbacks cconfig lock ec k c
  | .clientTransfers k => { n with fromClient := n.fromClient.transfer k }
  | .clientWritten ec => { n with fromClient := n.fromClient.complete ec }

/-- Messages are sent in one frame.  A read that ends has an error, or finds the handlers stopped.
Nothing is transferred and no write succeeds once one has failed, and a write succeeds when all its
bytes have been transferred. -/
def Allowed (n : Network) : Act → Prop
  | .serverSend outMessage b => IsMessage b ∧ outMessage.length ≤ maxSize
  | .serverClose status reason => 0 ≤ status ∧ status < 65536 ∧ reason.length ≤ maxSize
  | .serverReads => True
  | .serverReadEnds lock ec k =>
      (lock = false ∨ ec.isSome) ∧ ∃ op, n.server.reading = some op ∧ k ≤ op.size.toNat
  | .serverTransfers _ => n.fromServer.broken = false
  | .serverWritten ec => ec = none → n.fromServer.broken = false ∧ n.fromServer.Whole
  | .clientOpens _ k => n.client = none ∧ k ≤ n.fromServer.wire.length
  | .clientSend outMessage b => IsMessage b ∧ outMessage.length ≤ maxSize
  | .clientClose status reason => 0 ≤ status ∧ status < 65536 ∧ reason.length ≤ maxSize
  | .clientReads => True
  | .clientReadEnds lock ec k =>
      (lock = false ∨ ec.isSome) ∧
        ∃ c op, n.client = some c ∧ c.reading = some op ∧ k ≤ c.transferExactly op
  | .clientTransfers _ => n.fromClient.broken = false
  | .clientWritten ec => ec = none → n.fromClient.broken = false ∧ n.fromClient.Whole

/-- The states from the end of the server's handshake on. -/
def Reachable : Network → Prop :=
  Machine.Reach (act endpoint callbacks sconfig cconfig) Allowed
    (· = { server := Server.opened endpoint [] })

/-- What has happened to the client so far. -/
def clientLog (n : Network) : List Event :=
  match n.client with
  | none => []
  | some c => c.log

end Network

/-! ### What is on its way -/

namespace Outgoing

/-- The invariant of a direction: the send queue is as it should be, and no more has been transferred
than the outstanding write has. -/
structure Inv (o : Outgoing) : Prop where
  sound : o.sendQueue.Sound
  room : o.transferred ≤ ((o.sendQueue.queue.head?.map SendQueue.Entry.data).getD []).length

/-- What is to arrive is `u`, unless a write has failed: then a part of it is on the wire, and nothing
follows. -/
def Carries (o : Outgoing) (u : Bytes) : Prop :=
  if o.broken then o.wire <+: u else u = o.wire ++ o.rest

theorem inv_init : Inv {} := ⟨SendQueue.sound_init, le_rfl⟩

variable {o : Outgoing} {u v : Bytes}

theorem Carries.wire_prefix (h : o.Carries u) : o.wire <+: u := by
  unfold Carries at h
  split at h
  · exact h
  · exact ⟨_, h.symm⟩

/-- The first bytes are read. -/
theorem Carries.consume {wire : Bytes} (h : o.Carries (v ++ u)) (hwire : o.wire = v ++ wire) :
    { o with wire := wire }.Carries u := by
  unfold Carries at h ⊢
  split at h
  · next hbroken =>
      rw [if_pos hbroken]
      exact (List.prefix_append_right_inj v).1 (hwire ▸ h)
  · next hbroken =>
      rw [if_neg hbroken]
      rw [hwire, List.append_assoc] at h
      exact List.append_cancel_left h

/-- The send queue after some calls of `send`. -/
theorem queue_put (o : Outgoing) (frames : List Bytes) :
    (o.put frames).sendQueue.queue = o.sendQueue.queue ++ frames.map fun f => ⟨f, none⟩ := by
  unfold put
  induction frames generalizing o with
  | nil => simp
  | cons f frames ih =>
      rw [List.foldl_cons]
      have hrest := ih { o with sendQueue := o.sendQueue.send ⟨f, none⟩ }
      rw [hrest]
      simp

theorem Inv.put (h : o.Inv) (frames : List Bytes) : (o.put frames).Inv := by
  refine ⟨?_, ?_⟩
  · unfold Outgoing.put
    have hsound := h.sound
    revert hsound
    generalize o.sendQueue = q
    intro hsound
    induction frames generalizing q with
    | nil => exact hsound
    | cons f frames ih => exact ih (q.send ⟨f, none⟩) (hsound.send ⟨f, none⟩)
  · have hroom := h.room
    rw [queue_put]
    change o.transferred ≤ _
    cases hqueue : o.sendQueue.queue with
    | nil =>
        rw [hqueue] at hroom
        exact (Nat.le_zero.1 hroom).trans_le (Nat.zero_le _)
    | cons e queue => simpa [hqueue] using hroom

/-- No more has been transferred than there is on the queue. -/
theorem Inv.transferred_le (h : o.Inv) :
    o.transferred ≤ (o.sendQueue.queue.map SendQueue.Entry.data).flatten.length := by
  have hroom := h.room
  cases hqueue : o.sendQueue.queue with
  | nil => simpa [hqueue] using hroom
  | cons e queue =>
      rw [hqueue] at hroom
      exact hroom.trans (by simp)

/-- More is sent. -/
theorem Carries.put (h : o.Carries u) (hinv : o.Inv) (frames : List Bytes) :
    (o.put frames).Carries (u ++ frames.flatten) := by
  unfold Carries at h ⊢
  change if o.broken = true then o.wire <+: _ else _
  split at h
  · next hbroken =>
      rw [if_pos hbroken]
      exact h.trans (List.prefix_append u _)
  · next hbroken =>
      have hrest : (o.put frames).rest = o.rest ++ frames.flatten := by
        unfold rest
        rw [queue_put, List.map_append, List.flatten_append, List.map_map]
        exact (List.drop_append_of_le_length hinv.transferred_le).trans
          (by simp [Function.comp_def])
      rw [if_neg hbroken, h, hrest, List.append_assoc]
      rfl

theorem Inv.outstanding_cases (h : o.Inv) :
    (o.sendQueue.queue = [] ∧ o.sendQueue.outstanding = [] ∧ o.transferred = 0) ∨
      ∃ e queue, o.sendQueue.queue = e :: queue ∧ o.sendQueue.outstanding = [e.data] ∧
        o.transferred ≤ e.data.length := by
  have houtstanding := h.sound.outstanding
  have hroom := h.room
  cases hqueue : o.sendQueue.queue with
  | nil =>
      rw [hqueue] at houtstanding hroom
      exact Or.inl ⟨rfl, houtstanding, Nat.le_zero.1 hroom⟩
  | cons e queue =>
      rw [hqueue] at houtstanding hroom
      exact Or.inr ⟨e, queue, rfl, houtstanding, hroom⟩

/-- The first part of a list, and the rest of it. -/
theorem take_append_drop_length {α : Type*} (xs : List α) (n : ℕ) :
    xs.take n ++ xs.drop (xs.take n).length = xs := by
  rw [List.length_take, List.take_eq_take_min, List.take_append_drop]

/-- A transfer changes nothing about what is to arrive. -/
theorem Inv.transfer (h : o.Inv) (hbroken : o.broken = false) (n : ℕ) :
    (o.transfer n).Inv ∧ ∀ u, o.Carries u → (o.transfer n).Carries u := by
  unfold Outgoing.transfer
  rcases h.outstanding_cases with ⟨-, hnone, -⟩ | ⟨e, queue, hqueue, hsome, hle⟩
  · rw [hnone]
    exact ⟨h, fun _ hu => hu⟩
  · rw [hsome]
    refine ⟨⟨h.sound, ?_⟩, ?_⟩
    · simp only [hqueue, List.head?_cons, Option.map_some, Option.getD_some, List.length_take,
        List.length_drop]
      omega
    · intro u hu
      simp only [Carries, hbroken, Bool.false_eq_true, if_false] at hu ⊢
      have hsplit : o.rest = (e.data.drop o.transferred).take n ++
          (o.sendQueue.queue.map SendQueue.Entry.data).flatten.drop
            (o.transferred + ((e.data.drop o.transferred).take n).length) := by
        rw [rest, hqueue, List.map_cons, List.flatten_cons, ← List.drop_drop,
          List.drop_append_of_le_length hle, List.drop_append_of_le_length (by simp),
          ← List.append_assoc, take_append_drop_length]
      rw [hu, hsplit, ← List.append_assoc]
      rfl

/-- The end of a write changes nothing about what is to arrive. -/
theorem Inv.complete (h : o.Inv) {ec : Option ErrorCode}
    (hec : ec = none → o.broken = false ∧ o.Whole) :
    (o.complete ec).Inv ∧ ∀ u, o.Carries u → (o.complete ec).Carries u := by
  have hroom : ∀ frame : Bytes, 0 ≤ frame.length := fun _ => Nat.zero_le _
  rcases h.outstanding_cases with ⟨hqueue, hnone, hzero⟩ | ⟨e, queue, hqueue, hsome, -⟩
  · have hnothing : o.sendQueue.complete 0 true ec = o.sendQueue := by
      simp [SendQueue.complete, hnone]
    have hcomplete : o.complete ec =
        { o with transferred := 0, broken := o.broken || ec.isSome } := by
      rw [Outgoing.complete, hnothing]
    rw [hcomplete]
    refine ⟨⟨h.sound, hroom _⟩, ?_⟩
    intro u hu
    cases hec' : ec with
    | none =>
        obtain ⟨-, frame, hframe, -⟩ := hec hec'
        simp [hnone] at hframe
    | some ec =>
        have hprefix := hu.wire_prefix
        simpa [Carries] using hprefix
  · have hsound : (o.sendQueue.complete 0 true ec).Sound :=
      h.sound.complete (by simp [hsome]) ec
    refine ⟨⟨hsound, hroom _⟩, ?_⟩
    intro u hu
    cases hec' : ec with
    | some ec =>
        have hprefix := hu.wire_prefix
        simpa [Outgoing.complete, Carries] using hprefix
    | none =>
        obtain ⟨hbroken, frame, hframe, hwhole⟩ := hec hec'
        obtain rfl : e.data = frame := by simpa [hsome] using hframe
        have hleft : (o.sendQueue.complete 0 true none).queue = queue := by
          simp [SendQueue.complete, hsome, SendQueue.queue_onWritten, hqueue]
        simp only [Carries, hbroken, Bool.false_eq_true, if_false] at hu
        rw [hu]
        simp only [Outgoing.complete, Carries, hbroken, Option.isSome_none, Bool.or_false,
          Bool.false_eq_true, if_false, rest, hleft, hqueue, hwhole, List.map_cons,
          List.flatten_cons, List.drop_left, List.drop_zero]

end Outgoing

/-! ### Frames and what is put on the queue -/

/-- A length, and how many bytes it takes to say so. -/
theorem LengthForm.length_bytes_shortest (maskBit n : ℕ) :
    ((LengthForm.shortest n).bytes maskBit n).length =
      if n < 126 then 1 else if n < 2 ^ 16 then 3 else 9 := by
  unfold LengthForm.shortest
  split_ifs <;> simp [LengthForm.bytes]

/-- The length of a frame tells the length of its payload. -/
theorem LengthForm.bytes_append_inj {maskBit m n k : ℕ} {xs ys : Bytes}
    (h : (LengthForm.shortest m).bytes maskBit m ++ xs =
      (LengthForm.shortest n).bytes maskBit n ++ ys)
    (hm : xs.length = k + m) (hn : ys.length = k + n) : xs = ys := by
  have hlength := congrArg List.length h
  rw [List.length_append, List.length_append, LengthForm.length_bytes_shortest,
    LengthForm.length_bytes_shortest, hm, hn] at hlength
  obtain rfl : m = n := by split_ifs at hlength <;> omega
  exact List.append_cancel_left h

namespace Frame

variable {f g : Frame}

/-- **What a frame says is told by the bytes the server sends for it.** -/
theorem content_of_unmaskedBytes (hf : f.IsShortest) (hg : g.IsShortest)
    (h : f.unmaskedBytes = g.unmaskedBytes) : f.content = g.content := by
  rw [unmaskedBytes, unmaskedBytes, hf, hg, List.cons.injEq] at h
  have hpayload := LengthForm.bytes_append_inj (k := 0) h.2 (Nat.zero_add _).symm
    (Nat.zero_add _).symm
  rw [content, content, h.1, hpayload]

/-- **What a frame says is told by the bytes the client sends for it.** -/
theorem content_of_maskedBytes (hf : f.IsShortest) (hg : g.IsShortest)
    (h : f.maskedBytes = g.maskedBytes) : f.content = g.content := by
  rw [maskedBytes, maskedBytes, hf, hg, List.cons.injEq] at h
  have hbody := LengthForm.bytes_append_inj (k := 4) h.2 (by simp; omega) (by simp; omega)
  obtain ⟨hmask, hmasked⟩ := List.append_inj hbody (by simp)
  have hpayload : f.payload = g.payload := by
    rw [← Octets.xorCycle_xorCycle f.mask f.payload, hmasked, List.ofFn_injective hmask,
      Octets.xorCycle_xorCycle]
  rw [content, content, h.1, hpayload]

end Frame

/-- A list is left where it is left without what follows. -/
theorem takeWhile_append_of_exists {α : Type*} {p : α → Bool} {xs : List α}
    (h : ∃ x ∈ xs, p x = false) (ys : List α) : (xs ++ ys).takeWhile p = xs.takeWhile p := by
  induction xs with
  | nil => simp at h
  | cons x xs ih =>
      rw [List.cons_append, List.takeWhile_cons, List.takeWhile_cons]
      cases hx : p x with
      | false => rfl
      | true =>
          obtain ⟨y, hy, hpy⟩ := h
          have hmem : y ∈ xs := by
            rcases List.mem_cons.1 hy with rfl | hy
            · rw [hx] at hpy
              cases hpy
            · exact hy
          rw [if_pos rfl, if_pos rfl, ih ⟨y, hmem, hpy⟩]

/-- The messages in front of the first close frame. -/
def said (sent : List Frame) : List (UInt8 × Bytes) :=
  (sent.takeWhile fun f => f.finRsvOpcode ≠ 136).map Frame.content

/-- There is no close frame in front. -/
theorem said_append {front : List Frame} (h : ∀ f ∈ front, f.finRsvOpcode ≠ 136)
    (behind : List Frame) : said (front ++ behind) = front.map Frame.content ++ said behind := by
  rw [said, List.takeWhile_append_of_pos (by simpa using h), List.map_append, said]

theorem said_eq {sent : List Frame} (h : ∀ f ∈ sent, f.finRsvOpcode ≠ 136) :
    said sent = sent.map Frame.content := by
  have hsaid := said_append h []
  rwa [List.append_nil, show said [] = [] from rfl, List.append_nil] at hsaid

/-- There is a close frame in front. -/
theorem said_append_close {front : List Frame} (h : ∃ f ∈ front, f.finRsvOpcode = 136)
    (behind : List Frame) : said (front ++ behind) = said front := by
  obtain ⟨f, hf, hclose⟩ := h
  rw [said, takeWhile_append_of_exists ⟨f, hf, by simpa using hclose⟩, said]

/-- A close frame is none of the messages. -/
theorem said_close (sent : List Frame) {f : Frame} (hf : f.finRsvOpcode = 136) :
    said (sent ++ [f]) = said sent := by
  by_cases h : ∃ g ∈ sent, g.finRsvOpcode = 136
  · exact said_append_close h [f]
  · have hall : ∀ g ∈ sent, g.finRsvOpcode ≠ 136 := fun g hg hclose => h ⟨g, hg, hclose⟩
    rw [said_append hall, said_eq hall]
    simp [said, hf]

namespace Sent

variable {encode : Frame → Bytes} {closed : Bool} {log : List Event} {sent sent' : List Frame}
  {f : Frame}

/-- No close frame has been sent. -/
theorem ne_close (h : Sent encode false log sent) : ∀ f ∈ sent, f.finRsvOpcode ≠ 136 := by
  have hnone := h.once
  rw [if_neg Bool.false_ne_true, List.length_eq_zero_iff, List.filter_eq_nil_iff] at hnone
  intro f hf hclose
  exact hnone f hf (by simpa using hclose)

/-- A close frame has been sent. -/
theorem exists_close (h : Sent encode true log sent) : ∃ f ∈ sent, f.finRsvOpcode = 136 := by
  have honce := h.once
  rw [if_pos rfl] at honce
  obtain ⟨f, hf⟩ := List.length_eq_one_iff.1 honce
  have hmem : f ∈ sent.filter fun f => f.finRsvOpcode = 136 := by simp [hf]
  obtain ⟨hmem, hclose⟩ := List.mem_filter.1 hmem
  exact ⟨f, hmem, by simpa using hclose⟩

/-- One more message is sent. -/
theorem said_message (h : Sent encode closed log sent) (hf : f.finRsvOpcode ≠ 136) :
    said (sent ++ [f]) = Network.record (said sent) closed f.content := by
  cases closed with
  | false =>
      rw [said_append h.ne_close, said_eq h.ne_close, said_eq (by simpa using hf)]
      rfl
  | true => exact said_append_close h.exists_close [f]

/-- **What frames say is told by what has been put on the send queue.** -/
theorem content_eq (hencode : ∀ f g : Frame, f.IsShortest → g.IsShortest → encode f = encode g →
      f.content = g.content) {closed' : Bool} (h : Sent encode closed log sent)
    (h' : Sent encode closed' log sent') : sent.map Frame.content = sent'.map Frame.content := by
  have hout : sent.map encode = sent'.map encode := h.out.symm.trans h'.out
  have hs := h.sendable
  have hs' := h'.sendable
  clear h h'
  induction sent generalizing sent' with
  | nil =>
      rw [List.map_nil, eq_comm, List.map_eq_nil_iff] at hout
      rw [hout]
  | cons f sent ih =>
      cases sent' with
      | nil => cases hout
      | cons g sent' =>
          rw [List.map_cons, List.map_cons, List.cons.injEq] at hout
          have hfg := hencode f g (hs f (List.mem_cons_self ..)).shortest
            (hs' g (List.mem_cons_self ..)).shortest hout.1
          rw [List.map_cons, List.map_cons, hfg,
            ih hout.2 (fun f hf => hs f (List.mem_cons_of_mem _ hf))
              fun g hg => hs' g (List.mem_cons_of_mem _ hg)]

end Sent

/-- What has been said is told by what the frames say. -/
theorem said_congr {sent sent' : List Frame}
    (h : sent.map Frame.content = sent'.map Frame.content) : said sent = said sent' := by
  have hsaid : ∀ sent : List Frame,
      said sent = (sent.map Frame.content).takeWhile fun m => m.1 ≠ 136 := by
    intro sent
    rw [said, List.takeWhile_map]
    rfl
  rw [hsaid, hsaid, h]

/-! ### What a read puts on the queue -/

/-- What is put on the queue is nothing, or a close frame if there has been none. -/
def AnswersClose (encode : Frame → Bytes) (closed closed' : Bool) (log log' : List Event) : Prop :=
  (closed' = closed ∧ enqueued log' = enqueued log) ∨
    closed' = true ∧ ∃ f : Frame, f.Sendable ∧ f.finRsvOpcode = 136 ∧
      enqueued log' = enqueued log ++ if closed then [] else [encode f]

/-- A read says nothing. -/
theorem Sent.answers {encode : Frame → Bytes} {closed closed' : Bool} {log log' : List Event}
    {sent : List Frame} (h : Sent encode closed log sent)
    (hanswers : AnswersClose encode closed closed' log log') :
    ∃ sent', Sent encode closed' log' sent' ∧ said sent' = said sent := by
  rcases hanswers with ⟨rfl, hlog⟩ | ⟨rfl, f, hf, hclose, hlog⟩
  · exact ⟨sent, h.congr hlog, rfl⟩
  · refine ⟨_, h.answer hf hclose hlog, ?_⟩
    cases closed with
    | false => exact said_close sent hclose
    | true => simp

namespace Server

theorem Listens.answers {endpoint : Callbacks} {config : Config} {c : Conn} {u : Bytes}
    {sent : List Frame} (hmax : config.maxMessageSize = sizeMax) (h : Listens endpoint c u sent)
    (hsent : ∀ f ∈ sent, f.Sendable) {p : Conn × Source UInt8 ErrorCode}
    (hp : (reader endpoint config).step (c, ⟨u, none⟩) = some p) :
    AnswersClose Frame.unmaskedBytes c.closed p.1.closed c.log p.1.log := by
  obtain ⟨got, todo, hsplit, -, ⟨-, htodo⟩ | ⟨hstop, -⟩⟩ := h
  · have hsize : ∀ f ∈ todo, f.payload.length + 4 < 2 ^ 64 := by
      intro f hf
      refine (hsent f ?_).size
      rw [hsplit]
      exact List.mem_append_right _ hf
    rcases htodo.step hmax hsize hp with ⟨op, u', rfl, -⟩ | ⟨f, todo', rfl, rfl, hs⟩
    · exact Or.inl ⟨rfl, rfl⟩
    · have hf : f.Sendable := hsent f (by rw [hsplit]; simp)
      rcases hf.kind with hmessage | ⟨hclose, -⟩
      · obtain ⟨-, -, hclosed, hlog⟩ := @process_message endpoint c f hmessage hs
        refine Or.inl ⟨hclosed, ?_⟩
        rw [hlog, enqueued, List.filterMap_append, List.filterMap_eq_nil_iff.2 enqueued_heardOf,
          List.append_nil, enqueued]
      · obtain ⟨-, hclosed, hlog, -⟩ := @process_close endpoint c f hclose
        obtain ⟨status, reason, -, -, hpayload, hread⟩ := hf.close hclose
        rw [hread, ← hpayload, ← hclose, hf.shortest.unmasked] at hlog
        exact Or.inr ⟨hclosed, f, hf, hclose, hlog⟩
  · simp [Reader.step, hstop] at hp

end Server

namespace Client

theorem Listens.answers {callbacks : Callbacks} {config : Config} {c : Conn} {u : Bytes}
    {sent : List Frame} (hmax : config.maxMessageSize = sizeMax) (h : Listens callbacks c u sent)
    (hsent : ∀ f ∈ sent, f.Sendable) {p : Conn × Source UInt8 ErrorCode}
    (hp : (reader callbacks config).step (c, ⟨u, none⟩) = some p) :
    AnswersClose Frame.maskedBytes c.closed p.1.closed c.log p.1.log := by
  obtain ⟨got, todo, hsplit, -, ⟨-, c₀, u₀, hstream, htodo, hnone⟩ | ⟨hstop, -⟩⟩ := h
  · obtain ⟨p₀, hp₀, hstream'⟩ : ∃ p₀, (reader callbacks config).step (c₀, ⟨u₀, none⟩) = some p₀ ∧
        SameStream p p₀ := by
      have hrel := @sameStream_step callbacks config _ _ hstream
      rw [hp] at hrel
      cases hp₀ : (reader callbacks config).step (c₀, ⟨u₀, none⟩) with
      | none => rw [hp₀] at hrel; cases hrel
      | some p₀ =>
          rw [hp₀] at hrel
          cases hrel with
          | some hrel => exact ⟨p₀, rfl, hrel⟩
    -- closed and log are those of the clients that have read nothing ahead
    have hclosed : c.closed = c₀.closed := hstream.closed_eq
    have hlog : c.log = c₀.log := hstream.log_eq
    rw [hclosed, hlog, hstream'.closed_eq, hstream'.log_eq]
    rcases htodo.step hmax hp₀ with ⟨m, op, u', rfl, -⟩ | ⟨f, todo', rfl, rfl⟩
    · exact Or.inl ⟨rfl, rfl⟩
    · have hf : f.Sendable := hsent f (by rw [hsplit]; simp)
      rcases hf.kind with hmessage | ⟨hclose, -⟩
      · obtain ⟨-, -, hclosed, hlog⟩ := @process_message callbacks c₀ f hmessage hnone
        refine Or.inl ⟨hclosed, ?_⟩
        rw [hlog, enqueued, List.filterMap_append, List.filterMap_eq_nil_iff.2 enqueued_heardOf,
          List.append_nil, enqueued]
      · obtain ⟨-, hclosed, hlog, -⟩ := @process_close callbacks c₀ f hclose
        obtain ⟨status, reason, -, -, hpayload, hread⟩ := hf.close hclose
        obtain ⟨g, hg, hgclose, hgmask, hgpayload⟩ : ∃ g : Frame, g.Sendable ∧
            g.finRsvOpcode = 136 ∧ g.mask = c₀.rd 0 ∧ g.payload = f.payload :=
          ⟨{ f with mask := c₀.rd 0 }, ⟨hf.shortest, hf.size, hf.kind⟩, hclose, rfl, rfl⟩
        rw [hread, ← hpayload, ← hgpayload, ← hgmask, ← hgclose, hg.shortest.masked] at hlog
        exact Or.inr ⟨hclosed, g, hg, hgclose, hlog⟩
  · simp [Reader.step, hstop] at hp

end Client

/-! ### The system without queues -/

/-- Two logs that differ only in what has been called at the end of a connection. -/
structure SameLog (log log₀ : List Event) : Prop where
  out : enqueued log = enqueued log₀
  messages : log.filterMap Event.message? = log₀.filterMap Event.message?
  frames : log.filterMap Event.frame? = log₀.filterMap Event.frame?

namespace SameLog

variable {log log₀ : List Event}

theorem refl (log : List Event) : SameLog log log := ⟨rfl, rfl, rfl⟩

theorem append (h : SameLog log log₀) (more : List Event) :
    SameLog (log ++ more) (log₀ ++ more) := by
  refine ⟨?_, ?_, ?_⟩
  · have hout : log.filterMap Event.enqueued? = log₀.filterMap Event.enqueued? := h.out
    rw [enqueued, enqueued, List.filterMap_append, List.filterMap_append, hout]
  · rw [List.filterMap_append, List.filterMap_append, h.messages]
  · rw [List.filterMap_append, List.filterMap_append, h.frames]

theorem onError (h : SameLog log log₀) (set : Bool) (ec : ErrorCode) :
    SameLog (log ++ if set then [.onError ec] else []) log₀ := by
  obtain ⟨hout, hmessages, hframes⟩ := h
  cases set with
  | false => simpa using ⟨hout, hmessages, hframes⟩
  | true =>
      refine ⟨?_, ?_, ?_⟩
      · rw [← hout]
        simp [enqueued, Event.enqueued?]
      · rw [← hmessages]
        simp [Event.message?]
      · rw [← hframes]
        simp [Event.frame?]

end SameLog

namespace Server

/-- The connection has sent and received what the other one has. -/
structure Alike (c c₀ : Conn) : Prop where
  closed : c.closed = c₀.closed
  log : SameLog c.log c₀.log

variable {c c₀ : Conn}

theorem Alike.send (h : Alike c c₀) (outMessage : Bytes) (b : UInt8) :
    Alike (c.send outMessage b) (c₀.send outMessage b) :=
  ⟨h.closed, h.log.append _⟩

theorem Alike.sendClose (h : Alike c c₀) (status : ℤ) (reason : Bytes) :
    Alike (c.sendClose status reason) (c₀.sendClose status reason) := by
  refine ⟨by rw [closed_sendClose, closed_sendClose], ?_⟩
  rw [log_sendClose, log_sendClose, h.closed]
  exact h.log.append _

/-- A read that ends has nothing to say. -/
theorem Alike.readEnds {endpoint : Callbacks} {config : Config} (h : Alike c c₀) {lock : Bool}
    {ec : Option ErrorCode} (hends : lock = false ∨ ec.isSome) (data : Bytes) :
    Alike (c.complete endpoint config lock ⟨ec, data⟩) c₀ ∧
      (c.complete endpoint config lock ⟨ec, data⟩).reading = none := by
  unfold Conn.complete
  cases hreading : c.reading with
  | none => exact ⟨h, hreading⟩
  | some op =>
      cases lock with
      | false => exact ⟨⟨h.closed, h.log⟩, rfl⟩
      | true =>
          cases ec with
          | none => simp at hends
          | some ec => exact ⟨⟨h.closed, h.log.onError endpoint.onError ec⟩, rfl⟩

theorem answers_sendClose (c : Conn) {status : ℤ} {reason : Bytes} (h : 0 ≤ status)
    (h' : status < 65536) (hlen : reason.length ≤ maxSize) :
    AnswersClose Frame.unmaskedBytes c.closed (c.sendClose status reason).closed c.log
      (c.sendClose status reason).log := by
  obtain ⟨f, hf, hclose, -, hpayload⟩ := exists_close h h' hlen fun _ => 0
  refine Or.inr ⟨closed_sendClose _ _ _, f, hf, hclose, ?_⟩
  rw [log_sendClose, ← hf.shortest.unmasked, hpayload, hclose]
  cases c.closed <;> simp [enqueued, Event.enqueued?]

end Server

namespace Client

/-- The connection has sent and received what the other one has. -/
structure Alike (c c₀ : Conn) : Prop where
  closed : c.closed = c₀.closed
  rd : c.rd = c₀.rd
  log : SameLog c.log c₀.log

variable {c c₀ : Conn}

theorem Alike.send (h : Alike c c₀) (outMessage : Bytes) (b : UInt8) :
    Alike (c.send outMessage b) (c₀.send outMessage b) := by
  refine ⟨h.closed, ?_, ?_⟩
  · simp only [Conn.send, h.rd]
  · simp only [Conn.send, h.rd]
    exact h.log.append _

theorem Alike.sendClose (h : Alike c c₀) (status : ℤ) (reason : Bytes) :
    Alike (c.sendClose status reason) (c₀.sendClose status reason) := by
  refine ⟨by rw [closed_sendClose, closed_sendClose], ?_, ?_⟩
  · unfold Conn.sendClose
    rw [h.closed]
    split
    · exact h.rd
    · simp only [Conn.send, h.rd]
  · rw [log_sendClose, log_sendClose, h.closed, h.rd]
    exact h.log.append _

/-- A read that ends has nothing to say. -/
theorem Alike.readEnds {callbacks : Callbacks} {config : Config} (h : Alike c c₀) {lock : Bool}
    {ec : Option ErrorCode} (hends : lock = false ∨ ec.isSome) (data : Bytes) :
    Alike (c.complete callbacks config lock ⟨ec, data⟩) c₀ ∧
      (c.complete callbacks config lock ⟨ec, data⟩).reading = none := by
  unfold Conn.complete
  cases hreading : c.reading with
  | none => exact ⟨h, hreading⟩
  | some op =>
      cases lock with
      | false => exact ⟨⟨h.closed, h.rd, h.log⟩, rfl⟩
      | true =>
          cases ec with
          | none => simp at hends
          | some ec => exact ⟨⟨h.closed, h.rd, h.log.onError callbacks.onError ec⟩, rfl⟩

theorem answers_sendClose (c : Conn) {status : ℤ} {reason : Bytes} (h : 0 ≤ status)
    (h' : status < 65536) (hlen : reason.length ≤ maxSize) :
    AnswersClose Frame.maskedBytes c.closed (c.sendClose status reason).closed c.log
      (c.sendClose status reason).log := by
  obtain ⟨f, hf, hclose, hmask, hpayload⟩ := exists_close h h' hlen (c.rd 0)
  refine Or.inr ⟨closed_sendClose _ _ _, f, hf, hclose, ?_⟩
  rw [log_sendClose, ← hf.shortest.masked, hmask, hpayload, hclose]
  cases c.closed <;> simp [enqueued, Event.enqueued?]

end Client

/-- The system without queues goes on. -/
theorem System.Reachable.step {endpoint callbacks : Callbacks} {sconfig : Server.Config}
    {cconfig : Client.Config} {s : System} {a : System.Act}
    (h : s.Reachable endpoint callbacks sconfig cconfig) (ha : s.Allowed a) :
    (s.act endpoint callbacks sconfig cconfig a).Reachable endpoint callbacks sconfig cconfig :=
  Machine.Reach.step h ha

namespace Network

/-- The client of the system without queues.  While the read loop goes on it is the same, and what is
on its way to it is what is to arrive. -/
inductive ClientFollows (fromServer : Outgoing) (sentByClient : List (UInt8 × Bytes)) :
    Option Client.Conn → Option Client.Conn → Bytes → Prop
  | absent {u : Bytes} :
      fromServer.Carries u → sentByClient = [] → ClientFollows fromServer sentByClient none none u
  | present {c c₀ : Client.Conn} {u : Bytes} {sent : List Frame} :
      Client.Alike c c₀ → (c = c₀ ∧ fromServer.Carries u ∨ c.reading = none) →
      Sent Frame.maskedBytes c₀.closed c₀.log sent → said sent = sentByClient →
      ClientFollows fromServer sentByClient (some c) (some c₀) u

/-- Where the system without queues is. -/
structure Follows (n : Network) (s : System) : Prop where
  fromServer : n.fromServer.Inv
  fromClient : n.fromClient.Inv
  server : Server.Alike n.server s.server
  serverHears : n.server = s.server ∧ n.fromClient.Carries s.toServer ∨ n.server.reading = none
  sentByServer : ∃ sent, Sent Frame.unmaskedBytes s.server.closed s.server.log sent ∧
    said sent = n.sentByServer
  client : ClientFollows n.fromServer n.sentByClient n.client s.client s.toClient

variable {n : Network} {s : System}

/-- What is to arrive at the client has changed in the same way for both. -/
theorem ClientFollows.carries {o o' : Outgoing} {sentByClient : List (UInt8 × Bytes)}
    {c c₀ : Option Client.Conn} {u u' : Bytes} (h : ClientFollows o sentByClient c c₀ u)
    (hcarries : o.Carries u → o'.Carries u') : ClientFollows o' sentByClient c c₀ u' := by
  cases h with
  | absent hu hsent => exact .absent (hcarries hu) hsent
  | present halike hhears hsent hsaid =>
      refine .present halike ?_ hsent hsaid
      rcases hhears with ⟨hc, hu⟩ | hstop
      · exact Or.inl ⟨hc, hcarries hu⟩
      · exact Or.inr hstop

/-- The server has gone on. -/
theorem Follows.onServer (h : Follows n s) {c c₀ : Server.Conn} (wire u : Bytes)
    {sent : List Frame} (halike : Server.Alike c c₀)
    (hhears : c = c₀ ∧ { n.fromClient with wire := wire }.Carries u ∨ c.reading = none)
    (hsent : Sent Frame.unmaskedBytes c₀.closed c₀.log sent) :
    Follows ({ n.serverConsumes wire with sentByServer := said sent }.onServer c)
      ({ s with toServer := u }.onServer c₀) := by
  have hnew : newlyEnqueued n.server.log c.log = newlyEnqueued s.server.log c₀.log := by
    rw [newlyEnqueued, newlyEnqueued, h.server.log.out, halike.log.out]
  refine ⟨h.fromServer.put _, ⟨h.fromClient.sound, h.fromClient.room⟩, halike, hhears,
    ⟨sent, hsent, rfl⟩, ?_⟩
  refine h.client.carries ?_
  intro hu
  change (n.fromServer.put (newlyEnqueued n.server.log c.log)).Carries _
  rw [hnew]
  exact hu.put h.fromServer _

/-- The client has gone on. -/
theorem Follows.onClient (h : Follows n s) {c c' c₀ c₀' : Client.Conn} (wire u : Bytes)
    {sent : List Frame} (hbefore : Client.Alike c c₀) (halike : Client.Alike c' c₀')
    (hhears : c' = c₀' ∧ { n.fromServer with wire := wire }.Carries u ∨ c'.reading = none)
    (hsent : Sent Frame.maskedBytes c₀'.closed c₀'.log sent) :
    Follows ({ n.clientConsumes wire with sentByClient := said sent }.onClient c c')
      ({ s with toClient := u }.onClient c₀ c₀') := by
  have hnew : newlyEnqueued c.log c'.log = newlyEnqueued c₀.log c₀'.log := by
    rw [newlyEnqueued, newlyEnqueued, hbefore.log.out, halike.log.out]
  refine ⟨⟨h.fromServer.sound, h.fromServer.room⟩, h.fromClient.put _, h.server, ?_,
    h.sentByServer, .present halike hhears hsent rfl⟩
  rcases h.serverHears with ⟨hc, hu⟩ | hstop
  · refine Or.inl ⟨hc, ?_⟩
    change (n.fromClient.put (newlyEnqueued c.log c'.log)).Carries _
    rw [hnew]
    exact hu.put h.fromClient _
  · exact Or.inr hstop

/-- The server reads what it reads in the system without queues. -/
theorem Follows.server_step {endpoint : Callbacks} {config : Server.Config} (h : Follows n s)
    {p : Server.Conn × Source UInt8 ErrorCode}
    (hp : (Server.reader endpoint config).step (n.server, ⟨n.fromClient.wire, none⟩) = some p) :
    n.server = s.server ∧ ∃ u, { n.fromClient with wire := p.2.incoming }.Carries u ∧
      (Server.reader endpoint config).step (s.server, ⟨s.toServer, none⟩) =
        some (p.1, ⟨u, none⟩) := by
  rcases h.serverHears with ⟨hserver, hu⟩ | hstop
  · obtain ⟨v, hwire, hmore⟩ := Reader.step_mono hp
    obtain ⟨ys, hys⟩ := hu.wire_prefix
    refine ⟨hserver, p.2.incoming ++ ys, ?_, ?_⟩
    · refine Outgoing.Carries.consume (v := v) ?_ hwire
      rwa [← List.append_assoc, ← hwire, hys]
    · rw [← hserver, ← hys]
      exact hmore ys
  · simp [Reader.step, hstop] at hp

/-- The client reads what it reads in the system without queues. -/
theorem client_step {callbacks : Callbacks} {config : Client.Config} {o : Outgoing}
    {c c₀ : Client.Conn} {u : Bytes} (h : c = c₀ ∧ o.Carries u ∨ c.reading = none)
    {p : Client.Conn × Source UInt8 ErrorCode}
    (hp : (Client.reader callbacks config).step (c, ⟨o.wire, none⟩) = some p) :
    c = c₀ ∧ ∃ u', { o with wire := p.2.incoming }.Carries u' ∧
      (Client.reader callbacks config).step (c₀, ⟨u, none⟩) = some (p.1, ⟨u', none⟩) := by
  rcases h with ⟨hclient, hu⟩ | hstop
  · obtain ⟨v, hwire, hmore⟩ := Reader.step_mono hp
    obtain ⟨ys, hys⟩ := hu.wire_prefix
    refine ⟨hclient, p.2.incoming ++ ys, ?_, ?_⟩
    · refine Outgoing.Carries.consume (v := v) ?_ hwire
      rwa [← List.append_assoc, ← hwire, hys]
    · rw [← hclient, ← hys]
      exact hmore ys
  · simp [Reader.step, hstop] at hp

/-- The client does something, if there is one. -/
theorem Follows.ofClient {endpoint callbacks : Callbacks} {sconfig : Server.Config}
    {cconfig : Client.Config} (hreach : s.Reachable endpoint callbacks sconfig cconfig)
    (h : Follows n s) {f : Client.Conn → Network}
    (hf : ∀ c c₀ sent, n.client = some c → Client.Alike c c₀ →
      (c = c₀ ∧ n.fromServer.Carries s.toClient ∨ c.reading = none) →
      Sent Frame.maskedBytes c₀.closed c₀.log sent → said sent = n.sentByClient →
      s.client = some c₀ → ∃ s' : System, s'.Reachable endpoint callbacks sconfig cconfig ∧
        Follows (f c) s') :
    ∃ s' : System, s'.Reachable endpoint callbacks sconfig cconfig ∧ Follows (n.ofClient f) s' := by
  have hclient := h.client
  unfold Network.ofClient
  cases hc : n.client with
  | none => exact ⟨s, hreach, h⟩
  | some c =>
      cases hc₀ : s.client with
      | none =>
          rw [hc, hc₀] at hclient
          cases hclient
      | some c₀ =>
          rw [hc, hc₀] at hclient
          cases hclient with
          | present halike hhears hsent hsaid => exact hf c c₀ _ hc halike hhears hsent hsaid hc₀

section steps

variable {endpoint callbacks : Callbacks} {sconfig : Server.Config} {cconfig : Client.Config}

/-- The system without queues has made a step, or none. -/
def Matched (endpoint callbacks : Callbacks) (sconfig : Server.Config) (cconfig : Client.Config)
    (n : Network) : Prop :=
  ∃ s : System, s.Reachable endpoint callbacks sconfig cconfig ∧ Follows n s

variable (hreach : s.Reachable endpoint callbacks sconfig cconfig) (h : Follows n s)

include hreach h

theorem matched_serverSend {outMessage : Bytes} {b : UInt8} (hb : IsMessage b)
    (hlen : outMessage.length ≤ maxSize) :
    Matched endpoint callbacks sconfig cconfig
      (n.act endpoint callbacks sconfig cconfig (.serverSend outMessage b)) := by
  obtain ⟨sent, hsent, hsaid⟩ := h.sentByServer
  obtain ⟨f, hf, rfl, -, rfl⟩ := exists_message hb hlen fun _ => 0
  have hlog : enqueued (s.server.send f.payload f.finRsvOpcode).log =
      enqueued s.server.log ++ [f.unmaskedBytes] := by
    simp [enqueued, Server.Conn.send, Event.enqueued?, hf.shortest.unmasked]
  have hmessage := hsent.message hf hb hlog
  have hhears : n.server.send f.payload f.finRsvOpcode = s.server.send f.payload f.finRsvOpcode ∧
      n.fromClient.Carries s.toServer ∨
        (n.server.send f.payload f.finRsvOpcode).reading = none := by
    rcases h.serverHears with ⟨hc, hu⟩ | hstop
    · exact Or.inl ⟨by rw [hc], hu⟩
    · exact Or.inr hstop
  have hnext := h.onServer n.fromClient.wire s.toServer (h.server.send f.payload f.finRsvOpcode)
    hhears hmessage
  rw [hsent.said_message hb.ne_close, hsaid, ← h.server.closed] at hnext
  exact ⟨_, hreach.step (a := System.Act.serverSend f.payload f.finRsvOpcode) ⟨hb, hlen⟩, hnext⟩

theorem matched_serverClose {status : ℤ} {reason : Bytes} (hstatus : 0 ≤ status)
    (hstatus' : status < 65536) (hlen : reason.length ≤ maxSize) :
    Matched endpoint callbacks sconfig cconfig
      (n.act endpoint callbacks sconfig cconfig (.serverClose status reason)) := by
  obtain ⟨sent, hsent, hsaid⟩ := h.sentByServer
  obtain ⟨sent', hsent', hsaid'⟩ :=
    hsent.answers (Server.answers_sendClose s.server hstatus hstatus' hlen)
  have hhears : n.server.sendClose status reason = s.server.sendClose status reason ∧
      n.fromClient.Carries s.toServer ∨ (n.server.sendClose status reason).reading = none := by
    rcases h.serverHears with ⟨hc, hu⟩ | hstop
    · exact Or.inl ⟨by rw [hc], hu⟩
    · exact Or.inr ((Server.Conn.reading_sendClose _ _ _).trans hstop)
  have hnext := h.onServer n.fromClient.wire s.toServer (h.server.sendClose status reason) hhears
    hsent'
  rw [hsaid', hsaid] at hnext
  exact ⟨_, hreach.step (a := System.Act.serverClose status reason) ⟨hstatus, hstatus', hlen⟩, hnext⟩

/-- A read that is completed is completed in the system without queues, where more may have
arrived. -/
theorem matched_serverReads (hs : sconfig.maxMessageSize = sizeMax)
    (hc : cconfig.maxMessageSize = sizeMax) :
    Matched endpoint callbacks sconfig cconfig (n.serverReads endpoint sconfig) := by
  unfold Network.serverReads
  cases hp : (Server.reader endpoint sconfig).step (n.server, ⟨n.fromClient.wire, none⟩) with
  | none => exact ⟨s, hreach, h⟩
  | some p =>
      obtain ⟨-, u, hcarries, hstep⟩ := h.server_step hp
      obtain ⟨fromServer, fromClient, hlinked⟩ := hreach.inv hs hc
      obtain ⟨_, hclient, -⟩ := hlinked.clientLog
      obtain ⟨sent, hsent, hsaid⟩ := h.sentByServer
      obtain ⟨sent', hsent', hsaid'⟩ :=
        hsent.answers (hlinked.heard.answers hs hclient.sendable hstep)
      have hnext := h.onServer p.2.incoming u ⟨rfl, SameLog.refl p.1.log⟩ (Or.inl ⟨rfl, hcarries⟩)
        hsent'
      rw [hsaid', hsaid] at hnext
      have hreads : System.act endpoint callbacks sconfig cconfig s .serverReads =
          { s with toServer := u }.onServer p.1 := by
        simp only [System.act, System.serverReads, hstep]
      exact ⟨_, hreach.step (a := System.Act.serverReads) trivial, hreads ▸ hnext⟩

theorem matched_serverReadEnds {lock : Bool} {ec : Option ErrorCode}
    (hends : lock = false ∨ ec.isSome) (k : ℕ) :
    Matched endpoint callbacks sconfig cconfig (n.serverReadEnds endpoint sconfig lock ec k) := by
  obtain ⟨sent, hsent, hsaid⟩ := h.sentByServer
  obtain ⟨halike, hstop⟩ := @Server.Alike.readEnds _ _ endpoint sconfig h.server lock ec hends
    (n.fromClient.wire.take k)
  have hnext := h.onServer (n.fromClient.wire.drop k) s.toServer halike
    (Or.inr hstop) hsent
  have hself : { s with toServer := s.toServer }.onServer s.server = s := by
    simp [System.onServer, sentSince]
  rw [hsaid, hself] at hnext
  exact ⟨s, hreach, hnext⟩

theorem matched_clientOpens {rd : ℕ → Mask} {k : ℕ} (hnone : n.client = none)
    (hk : k ≤ n.fromServer.wire.length) :
    Matched endpoint callbacks sconfig cconfig (n.clientOpens callbacks rd k) := by
  obtain ⟨fromServer, fromClient, server, serverHears, sentByServer, client⟩ := h
  rw [hnone] at client
  obtain ⟨hs, hu, hempty⟩ : s.client = none ∧ n.fromServer.Carries s.toClient ∧
      n.sentByClient = [] := by
    generalize s.client = c₀ at client ⊢
    cases client with
    | absent hu hempty => exact ⟨rfl, hu, hempty⟩
  obtain ⟨ys, hys⟩ := hu.wire_prefix
  have htake : s.toClient.take k = n.fromServer.wire.take k := by
    rw [← hys, List.take_append_of_le_length hk]
  have hdrop : s.toClient.drop k = n.fromServer.wire.drop k ++ ys := by
    rw [← hys, List.drop_append_of_le_length hk]
  have hcarries : { n.fromServer with wire := n.fromServer.wire.drop k }.Carries
      (s.toClient.drop k) := by
    refine Outgoing.Carries.consume (v := n.fromServer.wire.take k) ?_
      (List.take_append_drop k _).symm
    rw [← htake, List.take_append_drop]
    exact hu
  have hopened : Sent Frame.maskedBytes false
      (Client.opened callbacks rd (n.fromServer.wire.take k) k).log [] := by
    refine ⟨?_, by simp, rfl⟩
    simp only [Client.opened, Client.Conn.connectionOpen, Client.Conn.call, Client.Conn.readMessage]
    cases callbacks.onOpen <;> rfl
  have hlength : k ≤ s.toClient.length := by
    rw [← hys, List.length_append]
    omega
  refine ⟨_, hreach.step (a := System.Act.clientOpens rd k) ⟨hs, hlength⟩, ?_⟩
  refine ⟨⟨fromServer.sound, fromServer.room⟩, fromClient, server, serverHears, sentByServer, ?_⟩
  simp only [System.act, System.clientOpens, htake]
  exact .present ⟨rfl, rfl, SameLog.refl _⟩ (Or.inl ⟨rfl, hcarries⟩) hopened hempty.symm

theorem matched_clientSend {outMessage : Bytes} {b : UInt8} (hb : IsMessage b)
    (hlen : outMessage.length ≤ maxSize) :
    Matched endpoint callbacks sconfig cconfig
      (n.act endpoint callbacks sconfig cconfig (.clientSend outMessage b)) := by
  refine h.ofClient hreach ?_
  intro c c₀ sent hc halike hhears hsent hsaid hc₀
  obtain ⟨f, hf, rfl, hmask, rfl⟩ := exists_message hb hlen (c₀.rd 0)
  have hlog : enqueued (c₀.send f.payload f.finRsvOpcode).log =
      enqueued c₀.log ++ [f.maskedBytes] := by
    simp [enqueued, Client.Conn.send, Event.enqueued?, ← hmask, hf.shortest.masked]
  have hmessage := hsent.message hf hb hlog
  have hhears' : c.send f.payload f.finRsvOpcode = c₀.send f.payload f.finRsvOpcode ∧
      n.fromServer.Carries s.toClient ∨ (c.send f.payload f.finRsvOpcode).reading = none := by
    rcases hhears with ⟨rfl, hu⟩ | hstop
    · exact Or.inl ⟨rfl, hu⟩
    · exact Or.inr hstop
  have hnext := h.onClient n.fromServer.wire s.toClient halike
    (halike.send f.payload f.finRsvOpcode) hhears' hmessage
  rw [hsent.said_message hb.ne_close, hsaid, ← halike.closed] at hnext
  have hreached := hreach.step (a := System.Act.clientSend f.payload f.finRsvOpcode) ⟨hb, hlen⟩
  simp only [System.act, System.ofClient, hc₀] at hreached
  exact ⟨_, hreached, hnext⟩

theorem matched_clientClose {status : ℤ} {reason : Bytes} (hstatus : 0 ≤ status)
    (hstatus' : status < 65536) (hlen : reason.length ≤ maxSize) :
    Matched endpoint callbacks sconfig cconfig
      (n.act endpoint callbacks sconfig cconfig (.clientClose status reason)) := by
  refine h.ofClient hreach ?_
  intro c c₀ sent hc halike hhears hsent hsaid hc₀
  obtain ⟨sent', hsent', hsaid'⟩ :=
    hsent.answers (Client.answers_sendClose c₀ hstatus hstatus' hlen)
  have hhears' : c.sendClose status reason = c₀.sendClose status reason ∧
      n.fromServer.Carries s.toClient ∨ (c.sendClose status reason).reading = none := by
    rcases hhears with ⟨rfl, hu⟩ | hstop
    · exact Or.inl ⟨rfl, hu⟩
    · exact Or.inr ((Client.Conn.reading_sendClose _ _ _).trans hstop)
  have hnext := h.onClient n.fromServer.wire s.toClient halike (halike.sendClose status reason)
    hhears' hsent'
  rw [hsaid', hsaid] at hnext
  have hreached := hreach.step (a := System.Act.clientClose status reason)
    ⟨hstatus, hstatus', hlen⟩
  simp only [System.act, System.ofClient, hc₀] at hreached
  exact ⟨_, hreached, hnext⟩

theorem matched_clientReads (hs : sconfig.maxMessageSize = sizeMax)
    (hcmax : cconfig.maxMessageSize = sizeMax) :
    Matched endpoint callbacks sconfig cconfig
      (n.act endpoint callbacks sconfig cconfig .clientReads) := by
  refine h.ofClient hreach ?_
  intro c c₀ sent hc halike hhears hsent hsaid hc₀
  unfold Network.clientReads
  cases hp : (Client.reader callbacks cconfig).step (c, ⟨n.fromServer.wire, none⟩) with
  | none => exact ⟨s, hreach, h⟩
  | some p =>
      obtain ⟨-, u, hcarries, hstep⟩ := client_step hhears hp
      obtain ⟨fromServer, fromClient, hlinked⟩ := hreach.inv hs hcmax
      have hlistens : Client.Listens callbacks c₀ s.toClient fromServer := by
        have hclient := hlinked.client
        rw [hc₀] at hclient
        cases hclient with
        | present _ hlistens => exact hlistens
      obtain ⟨sent', hsent', hsaid'⟩ :=
        hsent.answers (hlistens.answers hcmax hlinked.server.sendable hstep)
      have hnext := h.onClient p.2.incoming u halike ⟨rfl, rfl, SameLog.refl p.1.log⟩
        (Or.inl ⟨rfl, hcarries⟩) hsent'
      rw [hsaid', hsaid] at hnext
      have hreached := hreach.step (a := System.Act.clientReads) trivial
      simp only [System.act, System.ofClient, hc₀, System.clientReads, hstep] at hreached
      exact ⟨_, hreached, hnext⟩

theorem matched_clientReadEnds {lock : Bool} {ec : Option ErrorCode}
    (hends : lock = false ∨ ec.isSome) (k : ℕ) :
    Matched endpoint callbacks sconfig cconfig
      (n.act endpoint callbacks sconfig cconfig (.clientReadEnds lock ec k)) := by
  refine h.ofClient hreach ?_
  intro c c₀ sent hc halike hhears hsent hsaid hc₀
  obtain ⟨halike', hstop⟩ := @Client.Alike.readEnds _ _ callbacks cconfig halike lock ec hends
    (n.fromServer.wire.take k)
  have hnext := h.onClient (n.fromServer.wire.drop k) s.toClient halike halike'
    (Or.inr hstop) hsent
  have hself : { s with toClient := s.toClient }.onClient c₀ c₀ = s := by
    simp only [System.onClient, sentSince, List.drop_length, List.flatten_nil, List.append_nil,
      ← hc₀]
  rw [hsaid, hself] at hnext
  exact ⟨s, hreach, hnext⟩

end steps

variable {endpoint callbacks : Callbacks} {sconfig : Server.Config} {cconfig : Client.Config}

/-- **Every step is one of the system without queues, or none.** -/
theorem follows_act (hs : sconfig.maxMessageSize = sizeMax) (hc : cconfig.maxMessageSize = sizeMax)
    (hreach : s.Reachable endpoint callbacks sconfig cconfig) (h : Follows n s) {a : Act}
    (ha : n.Allowed a) :
    Matched endpoint callbacks sconfig cconfig (n.act endpoint callbacks sconfig cconfig a) := by
  cases a with
  | serverSend outMessage b => exact matched_serverSend hreach h ha.1 ha.2
  | serverClose status reason => exact matched_serverClose hreach h ha.1 ha.2.1 ha.2.2
  | serverReads => exact matched_serverReads hreach h hs hc
  | serverReadEnds lock ec k => exact matched_serverReadEnds hreach h ha.1 k
  | serverTransfers k =>
      obtain ⟨hinv, hcarries⟩ := h.fromServer.transfer ha k
      exact ⟨s, hreach, hinv, h.fromClient, h.server, h.serverHears, h.sentByServer,
        h.client.carries (hcarries _)⟩
  | serverWritten ec =>
      obtain ⟨hinv, hcarries⟩ := h.fromServer.complete ha
      exact ⟨s, hreach, hinv, h.fromClient, h.server, h.serverHears, h.sentByServer,
        h.client.carries (hcarries _)⟩
  | clientOpens rd k => exact matched_clientOpens hreach h ha.1 ha.2
  | clientSend outMessage b => exact matched_clientSend hreach h ha.1 ha.2
  | clientClose status reason => exact matched_clientClose hreach h ha.1 ha.2.1 ha.2.2
  | clientReads => exact matched_clientReads hreach h hs hc
  | clientReadEnds lock ec k => exact matched_clientReadEnds hreach h ha.1 k
  | clientTransfers k =>
      obtain ⟨hinv, hcarries⟩ := h.fromClient.transfer ha k
      exact ⟨s, hreach, h.fromServer, hinv, h.server,
        h.serverHears.imp (fun hu => ⟨hu.1, hcarries _ hu.2⟩) id, h.sentByServer, h.client⟩
  | clientWritten ec =>
      obtain ⟨hinv, hcarries⟩ := h.fromClient.complete ha
      exact ⟨s, hreach, h.fromServer, hinv, h.server,
        h.serverHears.imp (fun hu => ⟨hu.1, hcarries _ hu.2⟩) id, h.sentByServer, h.client⟩

/-- **Whatever happens happens in the system without queues.** -/
theorem Reachable.matched (hs : sconfig.maxMessageSize = sizeMax)
    (hc : cconfig.maxMessageSize = sizeMax) (h : n.Reachable endpoint callbacks sconfig cconfig) :
    Matched endpoint callbacks sconfig cconfig n := by
  refine Machine.Reach.invariant ?_ ?_ h
  · rintro n rfl
    refine ⟨_, Machine.Reach.init rfl, Outgoing.inv_init, Outgoing.inv_init, ⟨rfl, SameLog.refl _⟩,
      Or.inl ⟨rfl, rfl⟩, ⟨[], ⟨?_, by simp, rfl⟩, rfl⟩, .absent rfl rfl⟩
    have hopened : (Server.opened endpoint []).log =
        if endpoint.onOpen then [.onOpen] else [] := rfl
    rw [hopened]
    cases endpoint.onOpen <;> rfl
  · rintro n a ⟨s, hreach, hfollows⟩ ha
    exact follows_act hs hc hreach hfollows ha

end Network

/-! ### What arrives -/

/-- A close frame has been read. -/
def CloseRead (log : List Event) : Prop := ∃ payload, (136, payload) ∈ log.filterMap Event.frame?

/-- One side's log, given the messages that the program on the other side has sent: those delivered
are the first of them, in order; and they are all of them when a close frame has been read.
`onMessage` is whether the callback for messages is set. -/
structure Arrived (onMessage : Bool) (sent : List (UInt8 × Bytes)) (log : List Event) : Prop where
  inOrder : log.filterMap Event.message? <+: sent
  all : onMessage = true → CloseRead log → log.filterMap Event.message? = sent

theorem Arrived.congr {onMessage : Bool} {sent : List (UInt8 × Bytes)} {log log₀ : List Event}
    (h : Arrived onMessage sent log₀) (hlog : SameLog log log₀) : Arrived onMessage sent log := by
  refine ⟨?_, ?_⟩
  · rw [hlog.messages]
    exact h.inOrder
  · intro honMessage hclose
    rw [CloseRead, hlog.frames] at hclose
    rw [hlog.messages]
    exact h.all honMessage hclose

/-- The messages delivered, and those sent. -/
theorem Hearing.messages {callbacks : Callbacks} {log : List Event} {expects : List Frame → Prop}
    {stopped : Prop} {sent : List Frame} (h : Hearing callbacks log expects stopped sent) :
    (∃ got todo, todo <:+ sent ∧ said sent = got ++ said todo ∧ expects todo ∧ ¬ CloseRead log ∧
        log.filterMap Event.message? = if callbacks.onMessage then got else []) ∨
      stopped ∧ log.filterMap Event.message? = if callbacks.onMessage then said sent else [] := by
  obtain ⟨got, todo, rfl, hheard, ⟨hgot, htodo⟩ | ⟨hstop, got', f, rfl, hclose, hgot⟩⟩ := h
  · refine Or.inl ⟨got.map Frame.content, todo, List.suffix_append got todo, said_append hgot todo,
      htodo, ?_, ?_⟩
    · rintro ⟨payload, hpayload⟩
      rw [← filterMap_heard (fun _ => rfl), hheard] at hpayload
      obtain ⟨e, he, hframe⟩ := List.mem_filterMap.1 hpayload
      rcases List.mem_append.1 he with he | he
      · cases hopen : callbacks.onOpen <;> simp [hopen] at he
        rw [he] at hframe
        cases hframe
      · obtain ⟨g, hg, he⟩ := List.mem_flatMap.1 he
        rw [heardOf, if_neg (hgot g hg)] at he
        rcases List.mem_cons.1 he with rfl | he
        · have hfin : g.finRsvOpcode = 136 := (Prod.mk.inj (Option.some_inj.1 hframe)).1
          exact hgot g hg hfin
        · cases hmessage : callbacks.onMessage <;> simp [hmessage] at he
          rw [he] at hframe
          cases hframe
    · rw [← filterMap_heard (fun _ => rfl), hheard, message_heardOf callbacks hgot]
  · refine Or.inr ⟨hstop, ?_⟩
    have hsaid : said (got' ++ [f] ++ todo) = got'.map Frame.content := by
      rw [said_append_close ⟨f, by simp, hclose⟩, said_close got' hclose, said_eq hgot]
    have hlast : (heardOf callbacks f).filterMap Event.message? = [] := by
      rw [heardOf, if_pos hclose]
      cases callbacks.onClose <;> rfl
    rw [hsaid, ← filterMap_heard (fun _ => rfl), hheard, List.flatMap_append,
      List.flatMap_singleton, ← List.append_assoc, List.filterMap_append,
      message_heardOf callbacks hgot, hlast, List.append_nil]

/-- **What a side may rely on.** -/
theorem Hearing.arrived {callbacks : Callbacks} {log : List Event} {expects : List Frame → Prop}
    {stopped : Prop} {sent : List Frame} (h : Hearing callbacks log expects stopped sent) :
    Arrived callbacks.onMessage (said sent) log := by
  rcases h.messages with ⟨got, todo, -, hsaid, -, hclose, hmessages⟩ | ⟨-, hmessages⟩
  · refine ⟨?_, fun _ h => absurd h hclose⟩
    rw [hmessages, hsaid]
    cases callbacks.onMessage with
    | false => exact List.nil_prefix
    | true => exact List.prefix_append got _
  · refine ⟨?_, ?_⟩
    · rw [hmessages]
      cases callbacks.onMessage with
      | false => exact List.nil_prefix
      | true => exact List.prefix_rfl
    · intro honMessage _
      rw [hmessages, if_pos honMessage]

namespace Network

variable {endpoint callbacks : Callbacks} {sconfig : Server.Config} {cconfig : Client.Config}
  {n : Network} {s : System} {fromServer fromClient : List Frame}

/-- What the server has said is what its program has sent. -/
theorem Follows.said_fromServer (h : Follows n s)
    (hlinked : System.Linked endpoint callbacks s fromServer fromClient) :
    said fromServer = n.sentByServer := by
  obtain ⟨sent, hsent, hsaid⟩ := h.sentByServer
  rw [← hsaid]
  exact said_congr (hlinked.server.content_eq
    (fun _ _ hf hg => Frame.content_of_unmaskedBytes hf hg) hsent)

/-- What the client has said is what its program has sent. -/
theorem Follows.said_fromClient (h : Follows n s)
    (hlinked : System.Linked endpoint callbacks s fromServer fromClient) :
    said fromClient = n.sentByClient := by
  have hclient := h.client
  have hside := hlinked.client
  generalize s.client = c₀ at hclient hside
  generalize s.toClient = u at hclient hside
  generalize n.client = c at hclient
  cases hclient with
  | absent _ hempty =>
      cases hside with
      | absent => rw [hempty]; rfl
  | present _ _ hsent hsaid =>
      cases hside with
      | present hown _ =>
          rw [← hsaid]
          exact said_congr (hown.content_eq
            (fun _ _ hf hg => Frame.content_of_maskedBytes hf hg) hsent)

end Network

/-- **The messages of one program arrive at the other.**  For every interleaving of what both
programs and both read loops do, however the writes are cut to pieces on their way and whichever
reads and writes fail, with the default limit for the size of a message: at any time the messages
that have been delivered on either side are the first of those that the program on the other side has
sent before its side sent a close frame, in the order in which it has sent them.  When that close
frame has been read, they are all of them. -/
theorem messages_arrive {endpoint callbacks : Callbacks} {sconfig : Server.Config}
    {cconfig : Client.Config} (hs : sconfig.maxMessageSize = sizeMax)
    (hc : cconfig.maxMessageSize = sizeMax) {n : Network}
    (h : n.Reachable endpoint callbacks sconfig cconfig) :
    Arrived endpoint.onMessage n.sentByClient n.server.log ∧
      Arrived callbacks.onMessage n.sentByServer n.clientLog := by
  obtain ⟨s, hreach, hfollows⟩ := h.matched hs hc
  obtain ⟨fromServer, fromClient, hlinked⟩ := hreach.inv hs hc
  refine ⟨?_, ?_⟩
  · rw [← hfollows.said_fromClient hlinked]
    exact hlinked.heard.arrived.congr hfollows.server.log
  · rw [← hfollows.said_fromServer hlinked]
    have hclient := hfollows.client
    have hside := hlinked.client
    unfold Network.clientLog
    generalize s.client = c₀ at hclient hside
    generalize s.toClient = u at hclient hside
    generalize n.client = c at hclient ⊢
    cases hclient with
    | absent => exact ⟨List.nil_prefix, fun _ ⟨_, hframe⟩ => absurd hframe List.not_mem_nil⟩
    | present halike =>
        cases hside with
        | present _ hlistens => exact hlistens.arrived.congr halike.log

/-- The server sends a message and closes.  Five bytes are transferred, two of which are read along
with the handshake response; the client reads the message, and its read of the next frame ends. -/
def dropped : Network :=
  [Network.Act.serverSend (ascii "hi") 129, .serverClose 1000 (ascii "bye"), .serverTransfers 3,
    .clientOpens (fun _ _ => 7) 2, .serverTransfers 1, .serverWritten none, .clientReads,
    .serverTransfers 1, .clientReads, .clientReadEnds true (some (.transport 104)) 1].foldl
    (Network.act {} {} {} {}) { server := Server.opened {} [] }

theorem messages_arrive_dropped :
    Arrived true dropped.sentByClient dropped.server.log ∧
      Arrived true dropped.sentByServer dropped.clientLog := by
  have hstep : ∀ {n : Network}, n.Reachable {} {} {} {} → ∀ a, n.Allowed a →
      (Network.act {} {} {} {} n a).Reachable {} {} {} {} :=
    fun hn _ ha => Machine.Reach.step hn ha
  have hmessage : IsMessage 129 := ⟨rfl, Or.inl rfl⟩
  have h₁ := hstep (Machine.Reach.init rfl) (.serverSend (ascii "hi") 129)
    ⟨hmessage, by rw [maxSize]; decide⟩
  have h₂ := hstep h₁ (.serverClose 1000 (ascii "bye"))
    ⟨by decide, by decide, by rw [maxSize]; decide⟩
  have h₃ := hstep (hstep h₂ (.serverTransfers 3) rfl) (.clientOpens (fun _ _ => 7) 2)
    ⟨rfl, by decide⟩
  have h₄ := hstep (hstep h₃ (.serverTransfers 1) rfl) (.serverWritten none)
    fun _ => ⟨rfl, _, rfl, rfl⟩
  have h₅ := hstep (hstep (hstep h₄ .clientReads trivial) (.serverTransfers 1) rfl) .clientReads
    trivial
  have h₆ := hstep h₅ (.clientReadEnds true (some (.transport 104)) 1)
    ⟨Or.inr rfl, _, _, rfl, rfl, by decide⟩
  exact messages_arrive rfl rfl h₆

end SimpleWeb
