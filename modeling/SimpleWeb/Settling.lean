/-
**What is under way comes to an end, and then every message has been delivered.**

When the programs on both sides pause, the send queues, the network and the read loops of
`SimpleWeb.Network` still go on: bytes are transferred, writes are completed, and reads.  Each read
brings its read loop further, through the parts of a frame and from one frame to the next, and can go
no further than the frames that the other side has sent; a close frame may be answered with another
one, but only once by either side.  So all of this ends, and when nothing more can happen the messages
that have been sent have been delivered.

Main definitions:

* `SimpleWeb.Outgoing.Moves`, `SimpleWeb.Network.Goes` — what happens without the programs;
* `SimpleWeb.Server.Conn.position`, `SimpleWeb.Client.Conn.position` — how far a read loop has come;
* `SimpleWeb.Network.left` — how much there is left to happen.

Main results:

* `SimpleWeb.Network.Goes.left_lt` — every step leaves less;
* `SimpleWeb.every_message_is_delivered` — **nothing goes on forever, and where it ends every message
  has been delivered**.
-/

import SimpleWeb.Transport

set_option relaxedAutoImplicit false
set_option autoImplicit false

namespace SimpleWeb

/-! ### One direction -/

namespace Outgoing

/-- Bytes are transferred, or a write is completed. -/
inductive Moves (o : Outgoing) : Outgoing → Prop
  | transfer {frame : Bytes} {k : ℕ} : o.broken = false →
      o.sendQueue.outstanding.head? = some frame → o.transferred < frame.length → 0 < k →
      Moves o (o.transfer k)
  | written : o.broken = false → o.Whole → Moves o (o.complete none)

/-- What is left to be transferred and completed. -/
def left (o : Outgoing) : ℕ := o.rest.length + o.sendQueue.queue.length

variable {o o' : Outgoing}

/-- A send queue that is not empty moves, unless a write has failed. -/
theorem Inv.exists_moves (h : o.Inv) (hbroken : o.broken = false) (hqueue : o.sendQueue.queue ≠ []) :
    ∃ o', o.Moves o' := by
  rcases h.outstanding_cases with ⟨hnone, -⟩ | ⟨e, queue, -, hsome, hle⟩
  · exact absurd hnone hqueue
  · have hhead : o.sendQueue.outstanding.head? = some e.data := by rw [hsome]; rfl
    rcases hle.lt_or_eq with hlt | heq
    · exact ⟨_, .transfer hbroken hhead hlt Nat.one_pos⟩
    · exact ⟨_, .written hbroken ⟨_, hhead, heq⟩⟩

/-- **Every move leaves less.** -/
theorem Moves.left_lt (h : o.Moves o') (hinv : o.Inv) : o'.left < o.left := by
  cases h with
  | @transfer frame k hbroken hhead hlt hk =>
      rcases hinv.outstanding_cases with ⟨-, hnone, -⟩ | ⟨e, queue, hqueue, hsome, -⟩
      · rw [hnone] at hhead
        cases hhead
      · obtain rfl : e.data = frame := by simpa [hsome] using hhead
        simp only [left, rest, Outgoing.transfer, hsome, hqueue, List.length_drop, List.length_take,
          List.map_cons, List.flatten_cons, List.length_append]
        omega
  | written hbroken hwhole =>
      obtain ⟨frame, hhead, hwhole⟩ := hwhole
      rcases hinv.outstanding_cases with ⟨-, hnone, -⟩ | ⟨e, queue, hqueue, hsome, -⟩
      · rw [hnone] at hhead
        cases hhead
      · obtain rfl : e.data = frame := by simpa [hsome] using hhead
        have hleft : (o.sendQueue.complete 0 true none).queue = queue := by
          simp [SendQueue.complete, hsome, SendQueue.queue_onWritten, hqueue]
        simp only [left, rest, Outgoing.complete, hleft, hqueue, hwhole, List.map_cons,
          List.flatten_cons, List.drop_left, List.drop_zero, List.length_cons]
        omega

end Outgoing

/-! ### How far a read loop has come -/

/-- The number of frames that have been read. -/
def framesRead (log : List Event) : ℕ := (log.filterMap Event.frame?).length

theorem Quietly.framesRead {log log' : List Event} (h : Quietly log log') :
    framesRead log' = framesRead log := by
  obtain ⟨es, rfl, hes⟩ := h
  have hnone : es.filterMap Event.frame? = [] := by
    rw [List.filterMap_eq_nil_iff]
    intro e he
    exact (hes e he).2
  rw [SimpleWeb.framesRead, List.filterMap_append, hnone, List.append_nil, SimpleWeb.framesRead]

theorem framesRead_frame (log : List Event) (b : UInt8) (payload : Bytes) :
    framesRead (log ++ [.frame b payload]) = framesRead log + 1 := by
  simp [framesRead, Event.frame?]

/-- A callback that may not be set. -/
theorem framesRead_call (log : List Event) (set : Bool) {e : Event} (h : e.frame? = none) :
    framesRead (log ++ if set then [e] else []) = framesRead log := by
  cases set with
  | false => simp
  | true => simp [framesRead, h]

namespace Server

variable {endpoint : Callbacks} {config : Config} {c : Conn}

/-- The part of a frame that is read, or behind all of them. -/
def Conn.stage (c : Conn) : ℕ :=
  match c.reading with
  | some .firstBytes => 0
  | some (.lengthBytes _ _) => 1
  | some (.content _ _) => 2
  | none => 3

theorem Conn.stage_le (c : Conn) : c.stage ≤ 3 := by
  unfold stage
  split <;> omega

/-- How far the read loop has come. -/
def Conn.position (c : Conn) : ℕ := 3 * framesRead c.log + c.stage

/-- The content of a frame is read next, or nothing is. -/
theorem stage_readMessageContent (hr : c.reading = none) (length : UInt64) (b : UInt8) :
    2 ≤ (c.readMessageContent endpoint config length b).stage := by
  unfold Conn.readMessageContent
  split
  · simp [Conn.stage, hr]
  · exact le_rfl

/-- The handler of the read of the first two bytes does not wait for them again. -/
theorem stage_onFirstBytes (hr : c.reading = none) {n : ℕ} (hn : n ≠ 0) :
    1 ≤ (c.onFirstBytes endpoint config n).stage := by
  simp only [Conn.onFirstBytes, if_neg hn]
  split
  · simp [Conn.stage, hr]
  split
  · exact le_rfl
  split
  · exact le_rfl
  · exact (Nat.le_succ 1).trans (stage_readMessageContent (by exact hr) _ _)

/-- What is done with a frame is one frame more. -/
theorem framesRead_handleFrame (c : Conn) (length : UInt64) (b : UInt8) (payload : Bytes) :
    framesRead (c.handleFrame endpoint length b payload).log = framesRead c.log + 1 := by
  rw [← framesRead_frame c.log b payload]
  rcases @handleFrame_cases endpoint c length b payload with
    ⟨-, -, h⟩ | ⟨-, -, h⟩ | ⟨-, -, -, h⟩ | ⟨-, -, -, h⟩
  · exact h.framesRead
  · exact h.framesRead
  · rw [h]
  · rw [h]
    exact framesRead_call _ _ rfl

/-- **Every read brings the read loop further.** -/
theorem position_complete {op : ReadOp} (hr : c.reading = some op) {data : Bytes}
    (hdata : data.length = op.size.toNat) :
    c.position < (c.complete endpoint config true ⟨none, data⟩).position := by
  have hstage : c.stage = Conn.stage { reading := some op } := by rw [Conn.stage, hr]; rfl
  simp only [Conn.complete, hr, Conn.position, hstage, Bool.not_true, Bool.false_eq_true, if_false]
  cases op with
  | firstBytes =>
      have hquiet := @Conn.quiet_onFirstBytes endpoint config
        { c with reading := none, streambuf := c.streambuf ++ data } data.length
      have hnext := @stage_onFirstBytes endpoint config
        { c with reading := none, streambuf := c.streambuf ++ data } rfl data.length
        (by rw [hdata]; decide)
      rw [hquiet.2.framesRead]
      simp only [Conn.stage] at hnext ⊢
      omega
  | lengthBytes numBytes b =>
      have hquiet := @Conn.quiet_onLengthBytes endpoint config
        { c with reading := none, streambuf := c.streambuf ++ data } numBytes b
      have hnext : 2 ≤ ({ c with
          reading := none, streambuf := c.streambuf ++ data }.onLengthBytes endpoint config numBytes
          b).stage := stage_readMessageContent rfl _ _
      rw [hquiet.2.framesRead]
      simp only [Conn.stage] at hnext ⊢
      omega
  | content length b =>
      have hframe : framesRead ({ c with
          reading := none, streambuf := c.streambuf ++ data }.onContent endpoint length b).log =
          framesRead c.log + 1 := framesRead_handleFrame _ _ _ _
      rw [hframe]
      simp only [Conn.stage]
      omega

end Server

namespace Client

variable {callbacks : Callbacks} {config : Config} {c : Conn}

/-- The part of a frame that is read, or behind all of them. -/
def Conn.stage (c : Conn) : ℕ :=
  match c.reading with
  | some (.firstBytes _) => 0
  | some (.lengthBytes _ _) => 1
  | some (.content _) => 2
  | none => 3

theorem Conn.stage_le (c : Conn) : c.stage ≤ 3 := by
  unfold stage
  split <;> omega

/-- How far the read loop has come. -/
def Conn.position (c : Conn) : ℕ := 3 * framesRead c.log + c.stage

/-- The content of a frame is read next, or nothing is. -/
theorem stage_readMessageContent (hr : c.reading = none) (k : ℕ) :
    2 ≤ (c.readMessageContent callbacks config k).stage := by
  unfold Conn.readMessageContent
  split
  · simp [Conn.stage, hr]
  · exact le_rfl

/-- The handler of the read of the first two bytes does not wait for them again. -/
theorem stage_onFirstBytes (hr : c.reading = none) {k n : ℕ}
    (hn : ¬ (n = 0 ∧ c.inMessage.streambuf.length = 0)) :
    1 ≤ (c.onFirstBytes callbacks config k n).stage := by
  simp only [Conn.onFirstBytes, if_neg hn]
  split
  · simp [Conn.stage, hr]
  split
  · exact le_rfl
  split
  · exact le_rfl
  · exact (Nat.le_succ 1).trans (stage_readMessageContent (by exact hr) _)

/-- What is done with a frame is one frame more. -/
theorem framesRead_handleFrame (c : Conn) (next : InMessage) (k : ℕ) :
    framesRead (c.handleFrame callbacks next k).log = framesRead c.log + 1 := by
  rw [← framesRead_frame c.log c.inMessage.finRsvOpcode c.inMessage.streambuf]
  rcases @handleFrame_cases callbacks c next k with
    ⟨-, -, h⟩ | ⟨-, -, -, -, h⟩ | ⟨-, -, -, -, -, h⟩ | ⟨-, -, -, -, -, h⟩
  · exact h.framesRead
  · exact h.framesRead
  · rw [h]
  · rw [h]
    exact framesRead_call _ _ rfl

/-- **Every read brings the read loop further.** -/
theorem position_complete (hc : c.Counted) {op : ReadOp} (hr : c.reading = some op) {data : Bytes}
    (hdata : data.length = c.transferExactly op) :
    c.position < (c.complete callbacks config true ⟨none, data⟩).position := by
  have hobeys : Completion.Obeys (c.transferExactly op) (⟨none, data⟩ : Completion UInt8 ErrorCode) :=
    ⟨hdata.le, fun _ => hdata⟩
  have hstage : c.stage = Conn.stage { c with reading := some op } := by
    rw [Conn.stage, hr]
    rfl
  have hlen := length_streambuf_read hc hr hobeys rfl
  simp only [Conn.complete, hr, Conn.position, hstage, Bool.not_true, Bool.false_eq_true, if_false]
  cases op with
  | firstBytes j =>
      have hquiet := @Conn.quiet_onFirstBytes callbacks config { c with
        reading := none
        inMessage := { c.inMessage with streambuf := c.inMessage.streambuf ++ data } } j data.length
      have hnext := @stage_onFirstBytes callbacks config { c with
        reading := none
        inMessage := { c.inMessage with streambuf := c.inMessage.streambuf ++ data } } rfl j
        data.length (by simp only [hlen]; omega)
      rw [hquiet.2.framesRead]
      simp only [Conn.stage] at hnext ⊢
      omega
  | lengthBytes numBytes j =>
      have hquiet := @Conn.quiet_onLengthBytes callbacks config { c with
        reading := none
        inMessage := { c.inMessage with streambuf := c.inMessage.streambuf ++ data } } numBytes j
      have hnext : 2 ≤ ({ c with
          reading := none
          inMessage := { c.inMessage with
            streambuf := c.inMessage.streambuf ++ data } }.onLengthBytes callbacks config numBytes
          j).stage := stage_readMessageContent rfl _
      rw [hquiet.2.framesRead]
      simp only [Conn.stage] at hnext ⊢
      omega
  | content j =>
      have hframe : framesRead ({ c with
          reading := none
          inMessage := { c.inMessage with
            streambuf := c.inMessage.streambuf ++ data } }.onContent callbacks j).log =
          framesRead c.log + 1 := by
        obtain ⟨payload, next, k', -, -, -, heq⟩ := @onContent_eq callbacks { c with
          reading := none
          inMessage := { c.inMessage with streambuf := c.inMessage.streambuf ++ data } } j hlen
        rw [heq]
        exact framesRead_handleFrame _ _ _
      rw [hframe]
      simp only [Conn.stage]
      omega

end Client

/-- A read is completed with the first bytes of its source. -/
theorem exists_data_of_step {σ : Type*} {R : Reader σ UInt8 ErrorCode} {c : σ} {u : Bytes}
    {p : σ × Source UInt8 ErrorCode} (hp : R.step (c, ⟨u, none⟩) = some p) :
    ∃ n data, R.request c = some n ∧ data.length = n ∧ p.1 = R.complete c ⟨none, data⟩ := by
  unfold Reader.step at hp
  cases hr : R.request c with
  | none => simp [hr] at hp
  | some n =>
      simp only [hr] at hp
      split at hp
      · next hle =>
          refine ⟨n, u.take n, rfl, by simpa using hle, ?_⟩
          rw [← Option.some_inj.1 hp]
      · cases hp

/-! ### The two sides -/

/-- Whether a side may still send a close frame. -/
def mayClose (closed : Bool) : ℕ := if closed then 0 else 1

namespace Network

variable (endpoint callbacks : Callbacks) (sconfig : Server.Config) (cconfig : Client.Config)

/-- A step without the programs: something moves, or a read is completed. -/
inductive Goes (n : Network) : Network → Prop
  | serverSends {o : Outgoing} : n.fromServer.Moves o → Goes n { n with fromServer := o }
  | clientSends {o : Outgoing} : n.fromClient.Moves o → Goes n { n with fromClient := o }
  | serverReads {p : Server.Conn × Source UInt8 ErrorCode} :
      (Server.reader endpoint sconfig).step (n.server, ⟨n.fromClient.wire, none⟩) = some p →
      Goes n ((n.serverConsumes p.2.incoming).onServer p.1)
  | clientReads {c : Client.Conn} {p : Client.Conn × Source UInt8 ErrorCode} :
      n.client = some c →
      (Client.reader callbacks cconfig).step (c, ⟨n.fromServer.wire, none⟩) = some p →
      Goes n ((n.clientConsumes p.2.incoming).onClient c p.1)

variable {endpoint callbacks sconfig cconfig} {n n' : Network}

/-- Such a step is one of those that can happen. -/
theorem Goes.exists_act (h : Goes endpoint callbacks sconfig cconfig n n') :
    ∃ a, n.Allowed a ∧ n' = n.act endpoint callbacks sconfig cconfig a := by
  cases h with
  | serverSends h =>
      cases h with
      | @transfer _ k hbroken => exact ⟨.serverTransfers k, hbroken, rfl⟩
      | written hbroken hwhole => exact ⟨.serverWritten none, fun _ => ⟨hbroken, hwhole⟩, rfl⟩
  | clientSends h =>
      cases h with
      | @transfer _ k hbroken => exact ⟨.clientTransfers k, hbroken, rfl⟩
      | written hbroken hwhole => exact ⟨.clientWritten none, fun _ => ⟨hbroken, hwhole⟩, rfl⟩
  | serverReads hp =>
      refine ⟨.serverReads, trivial, ?_⟩
      simp only [act, Network.serverReads, hp]
  | clientReads hc hp =>
      refine ⟨.clientReads, trivial, ?_⟩
      simp only [act, ofClient, hc, Network.clientReads, hp]

theorem Goes.reachable (h : Goes endpoint callbacks sconfig cconfig n n')
    (hn : n.Reachable endpoint callbacks sconfig cconfig) :
    n'.Reachable endpoint callbacks sconfig cconfig := by
  obtain ⟨a, ha, rfl⟩ := h.exists_act
  exact Machine.Reach.step hn ha

/-- The close frames that may still be sent. -/
def closes (n : Network) : ℕ :=
  mayClose n.server.closed +
    match n.client with
    | none => 0
    | some c => mayClose c.closed

/-- The reads that a read loop may still make, given what the other side has sent. -/
def readsLeft (sent : List Event) (position : ℕ) : ℕ := 3 * (enqueued sent).length + 3 - position

/-- What is left to happen if no close frame is sent. -/
def left (n : Network) : ℕ :=
  n.fromServer.left + n.fromClient.left + readsLeft n.clientLog n.server.position +
    match n.client with
    | none => 0
    | some c => readsLeft n.server.log c.position

end Network

/-- No more frames have been read than have been sent. -/
theorem Hearing.framesRead_le {callbacks : Callbacks} {log : List Event}
    {expects : List Frame → Prop} {stopped : Prop} {sent : List Frame}
    (h : Hearing callbacks log expects stopped sent) : framesRead log ≤ sent.length := by
  obtain ⟨got, todo, rfl, hheard, -⟩ := h
  have hone : ∀ f : Frame, framesRead (heardOf callbacks f) = 1 := by
    intro f
    unfold heardOf
    dsimp only
    split
    · exact framesRead_call [.frame f.finRsvOpcode f.payload] callbacks.onClose rfl
    · exact framesRead_call [.frame f.finRsvOpcode f.payload] callbacks.onMessage rfl
  have hread : framesRead log = got.length := by
    rw [framesRead, ← filterMap_heard (fun _ => rfl), hheard, List.filterMap_append]
    have hopen : (if callbacks.onOpen then [Event.onOpen] else []).filterMap Event.frame? = [] := by
      cases callbacks.onOpen <;> rfl
    rw [hopen, List.nil_append]
    clear hheard
    induction got with
    | nil => rfl
    | cons f got ih =>
        rw [List.flatMap_cons, List.filterMap_append, List.length_append, ih, List.length_cons,
          ← framesRead, hone, Nat.add_comm]
  rw [hread, List.length_append]
  exact Nat.le_add_right _ _

/-- A client that listens knows how many bytes are buffered. -/
theorem Client.Listens.counted {callbacks : Callbacks} {c : Client.Conn} {u : Bytes}
    {sent : List Frame} (h : Client.Listens callbacks c u sent) : c.Counted := by
  obtain ⟨got, todo, -, -, ⟨-, c₀, u₀, hstream, -⟩ | ⟨hstop, -⟩⟩ := h
  · cases hstream with
    | stopped hr => exact Client.Conn.counted_of_reading_none hr
    | @reading c op op' m m' _ _ _ _ _ _ hk =>
        intro op₀ hop
        obtain rfl := Option.some_inj.1 hop
        exact hk
  · exact Client.Conn.counted_of_reading_none hstop

namespace Network

variable {endpoint callbacks : Callbacks} {sconfig : Server.Config} {cconfig : Client.Config}
  {n n' : Network}

/-- What is known of both sides. -/
structure Settles (endpoint callbacks : Callbacks) (sconfig : Server.Config)
    (cconfig : Client.Config) (n : Network) : Prop where
  fromServer : n.fromServer.Inv
  fromClient : n.fromClient.Inv
  server_le : framesRead n.server.log ≤ (enqueued n.clientLog).length
  client_le : framesRead n.clientLog ≤ (enqueued n.server.log).length
  server_reads : ∀ p, (Server.reader endpoint sconfig).step
      (n.server, ⟨n.fromClient.wire, none⟩) = some p →
    AnswersClose Frame.unmaskedBytes n.server.closed p.1.closed n.server.log p.1.log
  client_reads : ∀ c p, n.client = some c →
    (Client.reader callbacks cconfig).step (c, ⟨n.fromServer.wire, none⟩) = some p →
    AnswersClose Frame.maskedBytes c.closed p.1.closed c.log p.1.log ∧ c.Counted

theorem Reachable.settles (hs : sconfig.maxMessageSize = sizeMax)
    (hc : cconfig.maxMessageSize = sizeMax)
    (h : n.Reachable endpoint callbacks sconfig cconfig) :
    n.Settles endpoint callbacks sconfig cconfig := by
  obtain ⟨s, hreach, hfollows⟩ := h.matched hs hc
  obtain ⟨fromServer, fromClient, hlinked⟩ := hreach.inv hs hc
  obtain ⟨_, hclientSent, -⟩ := hlinked.clientLog
  have hserverLog := hfollows.server.log
  have hclient := hfollows.client
  have hside := hlinked.client
  have hframes : ∀ {log log₀ : List Event}, SameLog log log₀ → framesRead log = framesRead log₀ := by
    intro log log₀ hsame
    rw [framesRead, hsame.frames, framesRead]
  have hserver_le : framesRead n.server.log ≤ fromClient.length := by
    rw [hframes hserverLog]
    exact hlinked.heard.framesRead_le
  have hserver_sent : (enqueued n.server.log).length = fromServer.length := by
    rw [hserverLog.out, hlinked.server.out, List.length_map]
  refine ⟨hfollows.fromServer, hfollows.fromClient, ?_, ?_, ?_, ?_⟩
  · have hout : enqueued n.clientLog = enqueued s.clientLog := by
      unfold clientLog System.clientLog
      generalize s.client = c₀ at hclient
      generalize n.client = c at hclient
      cases hclient with
      | absent => rfl
      | present halike => exact halike.log.out
    rw [hout, hclientSent.out, List.length_map]
    exact hserver_le
  · rw [hserver_sent]
    unfold clientLog
    generalize s.client = c₀ at hclient hside
    generalize s.toClient = u at hclient hside
    generalize n.client = c at hclient
    cases hclient with
    | absent => exact Nat.zero_le _
    | present halike =>
        cases hside with
        | present _ hlistens =>
            rw [hframes halike.log]
            exact hlistens.framesRead_le
  · intro p hp
    obtain ⟨hserver, u, -, hstep⟩ := hfollows.server_step hp
    rw [hserver]
    have hanswers := hlinked.heard.answers hs hclientSent.sendable hstep
    exact hanswers
  · intro c p hcc hp
    rw [hcc] at hclient
    generalize s.client = c₀ at hclient hside
    cases hclient with
    | present halike hhears =>
        obtain ⟨rfl, u, -, hstep⟩ := client_step hhears hp
        generalize s.toClient = u at hside hstep
        cases hside with
        | present _ hlistens =>
            have hanswers := hlistens.answers hc hlinked.server.sendable hstep
            exact ⟨hanswers, hlistens.counted⟩

/-- Less is left: a close frame less to be sent, or as many and less of the rest. -/
def Less (n' n : Network) : Prop :=
  Prod.Lex (· < ·) (· < ·) (n'.closes, n'.left) (n.closes, n.left)

/-- A read loop that has come further has less left. -/
theorem readsLeft_lt {sent : List Event} {p p' : ℕ} (h : p < p')
    (hle : p' ≤ 3 * (enqueued sent).length + 3) : readsLeft sent p' < readsLeft sent p := by
  unfold readsLeft
  omega

/-- **Every step leaves less.** -/
theorem Goes.less (h : Goes endpoint callbacks sconfig cconfig n n')
    (hn : n.Settles endpoint callbacks sconfig cconfig)
    (hn' : n'.Settles endpoint callbacks sconfig cconfig) : Less n' n := by
  cases h with
  | @serverSends o hmoves =>
      have hlt := hmoves.left_lt hn.fromServer
      refine Prod.Lex.right _ ?_
      simp only [left, clientLog]
      omega
  | @clientSends o hmoves =>
      have hlt := hmoves.left_lt hn.fromClient
      refine Prod.Lex.right _ ?_
      simp only [left, clientLog]
      omega
  | @serverReads p hp =>
      obtain ⟨m, data, hrequest, hdata, hcomplete⟩ := exists_data_of_step hp
      obtain ⟨op, hop, hsize⟩ := Option.map_eq_some_iff.1 hrequest
      have hfurther : n.server.position < p.1.position := by
        rw [hcomplete]
        exact Server.position_complete hop (hdata.trans hsize.symm)
      have hle : p.1.position ≤ 3 * (enqueued n.clientLog).length + 3 := by
        have hframes : framesRead p.1.log ≤ (enqueued n.clientLog).length := hn'.server_le
        have hstage := p.1.stage_le
        unfold Server.Conn.position
        omega
      have hreads := readsLeft_lt hfurther hle
      have hquiet : p.1.closed = n.server.closed → enqueued p.1.log = enqueued n.server.log →
          Less ((n.serverConsumes p.2.incoming).onServer p.1) n := by
        intro hclosed hlog
        have hnothing : newlyEnqueued n.server.log p.1.log = [] := by
          rw [newlyEnqueued, hlog, List.drop_length]
        have hsent : readsLeft p.1.log = readsLeft n.server.log := by
          funext position
          rw [readsLeft, hlog, readsLeft]
        have hcloses : ((n.serverConsumes p.2.incoming).onServer p.1).closes = n.closes := by
          simp only [closes, onServer, serverConsumes, hclosed]
        rw [Less, hcloses]
        refine Prod.Lex.right _ ?_
        simp only [left, onServer, serverConsumes, clientLog, hnothing, hsent] at hreads ⊢
        exact Nat.add_lt_add_right (Nat.add_lt_add_left hreads _) _
      rcases hn.server_reads p hp with ⟨hclosed, hlog⟩ | ⟨hclosed', f, -, -, hlog⟩
      · exact hquiet hclosed hlog
      · cases hclosed : n.server.closed with
        | true =>
            rw [hclosed, if_pos rfl, List.append_nil] at hlog
            exact hquiet (hclosed'.trans hclosed.symm) hlog
        | false =>
            refine Prod.Lex.left _ _ ?_
            simp only [closes, onServer, serverConsumes, hclosed', hclosed, mayClose]
            simp
  | @clientReads c p hc hp =>
      obtain ⟨m, data, hrequest, hdata, hcomplete⟩ := exists_data_of_step hp
      obtain ⟨op, hop, hsize⟩ := Option.map_eq_some_iff.1 hrequest
      obtain ⟨hanswers, hcounted⟩ := hn.client_reads c p hc hp
      have hfurther : c.position < p.1.position := by
        rw [hcomplete]
        exact Client.position_complete hcounted hop (hdata.trans hsize.symm)
      have hle : p.1.position ≤ 3 * (enqueued n.server.log).length + 3 := by
        have hframes : framesRead p.1.log ≤ (enqueued n.server.log).length := hn'.client_le
        have hstage := p.1.stage_le
        unfold Client.Conn.position
        omega
      have hreads := readsLeft_lt hfurther hle
      have hquiet : p.1.closed = c.closed → enqueued p.1.log = enqueued c.log →
          Less ((n.clientConsumes p.2.incoming).onClient c p.1) n := by
        intro hclosed hlog
        have hnothing : newlyEnqueued c.log p.1.log = [] := by
          rw [newlyEnqueued, hlog, List.drop_length]
        have hsent : readsLeft p.1.log = readsLeft c.log := by
          funext position
          rw [readsLeft, hlog, readsLeft]
        have hcloses : ((n.clientConsumes p.2.incoming).onClient c p.1).closes = n.closes := by
          simp only [closes, onClient, clientConsumes, hc, hclosed]
        rw [Less, hcloses]
        refine Prod.Lex.right _ ?_
        simp only [left, onClient, clientConsumes, clientLog, hc, hnothing, hsent] at hreads ⊢
        exact Nat.add_lt_add_left hreads _
      rcases hanswers with ⟨hclosed, hlog⟩ | ⟨hclosed', f, -, -, hlog⟩
      · exact hquiet hclosed hlog
      · cases hclosed : c.closed with
        | true =>
            rw [hclosed, if_pos rfl, List.append_nil] at hlog
            exact hquiet (hclosed'.trans hclosed.symm) hlog
        | false =>
            refine Prod.Lex.left _ _ ?_
            simp only [closes, onClient, clientConsumes, hc, hclosed', hclosed, mayClose]
            simp

/-- **Nothing goes on forever.** -/
theorem Reachable.acc (hs : sconfig.maxMessageSize = sizeMax)
    (hc : cconfig.maxMessageSize = sizeMax)
    (h : n.Reachable endpoint callbacks sconfig cconfig) :
    Acc (fun n' n => Goes endpoint callbacks sconfig cconfig n n') n := by
  have hwf : WellFounded (fun n' n : Network => Less n' n) :=
    InvImage.wf (fun n : Network => (n.closes, n.left))
      (WellFounded.prod_lex Nat.lt_wfRel.wf Nat.lt_wfRel.wf)
  induction n using hwf.induction with
  | _ n ih =>
      refine Acc.intro n ?_
      intro n' hgoes
      have hn' := hgoes.reachable h
      exact ih n' (hgoes.less (h.settles hs hc) (hn'.settles hs hc)) hn'

end Network

/-! ### Where it ends -/

/-- A read loop that waits in vain expects nothing. -/
theorem Server.Expects.eq_nil {endpoint : Callbacks} {config : Server.Config} {c : Server.Conn}
    {u : Bytes} {todo : List Frame} (h : Server.Expects c u todo)
    (hmax : config.maxMessageSize = sizeMax) (hsize : ∀ f ∈ todo, f.payload.length + 4 < 2 ^ 64)
    (hstuck : (Server.reader endpoint config).step (c, ⟨u, none⟩) = none) : todo = [] := by
  cases h with
  | atFrame todo hc =>
      cases todo with
      | nil => rfl
      | cons f todo =>
          obtain ⟨op, u, hstep, -⟩ := @Server.step_firstBytes endpoint config hmax c hc f todo
          rw [List.flatMap_cons, hstep] at hstuck
          cases hstuck
  | @length f todo w hs hr hw hlen =>
      have hw' : (UInt64.ofNat w).toNat = w :=
        UInt64.toNat_ofNat_of_lt' (by simp only [UInt64.size]; omega)
      have hrequest : (Server.reader endpoint config).request c =
          some (Octets.toBytes w f.payload.length).length := by
        simp [Server.reader, hr, Server.ReadOp.size]
        omega
      rw [Reader.step_append hrequest] at hstuck
      cases hstuck
  | @content f todo hs hr =>
      have hlt := hsize f (List.mem_cons_self ..)
      have hn : (UInt64.ofNat f.payload.length).toNat = f.payload.length :=
        UInt64.toNat_ofNat_of_lt' f.fits.lt
      have hrequest : (Server.reader endpoint config).request c =
          some (Server.body f).length := by
        simp [Server.reader, hr, Server.ReadOp.size, Server.body, UInt64.toNat_add, hn]
        omega
      rw [Reader.step_append hrequest] at hstuck
      cases hstuck

/-- A read loop that waits in vain expects nothing. -/
theorem Client.Expects.eq_nil {callbacks : Callbacks} {config : Client.Config} {c : Client.Conn}
    {u : Bytes} {todo : List Frame} (h : Client.Expects c u todo)
    (hmax : config.maxMessageSize = sizeMax)
    (hstuck : (Client.reader callbacks config).step (c, ⟨u, none⟩) = none) : todo = [] := by
  cases h with
  | atFrame todo hc =>
      cases todo with
      | nil => rfl
      | cons f todo =>
          obtain ⟨m, op, u, hstep, -⟩ := @Client.step_firstBytes callbacks config hmax c hc f todo
          rw [List.flatMap_cons, hstep] at hstuck
          cases hstuck
  | @length f todo w hs hb hr hw hlen =>
      have hrequest : (Client.reader callbacks config).request c =
          some (Octets.toBytes w f.payload.length).length := by
        simp [Client.reader, hr, Client.Conn.transferExactly]
      rw [Reader.step_append hrequest] at hstuck
      cases hstuck
  | @content f todo hm hr =>
      have hn : (UInt64.ofNat f.payload.length).toNat = f.payload.length :=
        UInt64.toNat_ofNat_of_lt' f.fits.lt
      have hrequest : (Client.reader callbacks config).request c = some f.payload.length := by
        simp only [Client.reader, hr, Option.map_some, Client.Conn.transferExactly, hm, hn]
        simp
      rw [Reader.step_append hrequest] at hstuck
      cases hstuck

/-- Of a client that has read ahead, too. -/
theorem Client.Expecting.eq_nil {callbacks : Callbacks} {config : Client.Config} {c : Client.Conn}
    {u : Bytes} {todo : List Frame} (h : Client.Expecting c u todo)
    (hmax : config.maxMessageSize = sizeMax)
    (hstuck : (Client.reader callbacks config).step (c, ⟨u, none⟩) = none) : todo = [] := by
  obtain ⟨c₀, u₀, hstream, hexpects, -⟩ := h
  have hrel := @Client.sameStream_step callbacks config _ _ hstream
  rw [hstuck] at hrel
  refine @Client.Expects.eq_nil callbacks config _ _ _ hexpects hmax ?_
  cases hp₀ : (Client.reader callbacks config).step (c₀, ⟨u₀, none⟩) with
  | none => rfl
  | some p₀ => rw [hp₀] at hrel; cases hrel

/-- A side that still listens, and expects nothing, has been told everything. -/
theorem Hearing.messages_eq {callbacks : Callbacks} {log : List Event}
    {expects : List Frame → Prop} {stopped : Prop} {sent : List Frame}
    (h : Hearing callbacks log expects stopped sent) (hlistens : ¬ stopped)
    (hnothing : ∀ todo, todo <:+ sent → expects todo → todo = [])
    (honMessage : callbacks.onMessage = true) : log.filterMap Event.message? = said sent := by
  rcases h.messages with ⟨got, todo, hsuffix, hsaid, htodo, -, hmessages⟩ | ⟨hstop, -⟩
  · obtain rfl := hnothing todo hsuffix htodo
    rw [hmessages, if_pos honMessage, hsaid]
    exact (List.append_nil got).symm
  · exact absurd hstop hlistens

/-- Nothing is on its way but what is on the wire. -/
theorem Outgoing.Carries.eq_wire {o : Outgoing} {u : Bytes} (h : o.Carries u)
    (hbroken : o.broken = false) (hqueue : o.sendQueue.queue = []) : u = o.wire := by
  rw [Outgoing.Carries, if_neg (by simp [hbroken])] at h
  rw [h, Outgoing.rest, hqueue]
  simp

/-- The callback for messages has been called for all of them: `reading` is the outstanding read of
this side, and `broken` whether a write of the other one has failed. -/
def AllDelivered (onMessage reading broken : Bool) (sent : List (UInt8 × Bytes))
    (log : List Event) : Prop :=
  onMessage = true → reading = true → broken = false → log.filterMap Event.message? = sent

/-- **What is under way comes to an end, and then every message has been delivered.**  From every
state in which both sides can be, with the default limit for the size of a message, the writes and
reads that are under way do not go on forever while the programs pause.  And in a state in which none
of them can go on, on either side that still listens, unless a write to it has failed, the callback
has been called for all messages that the program on the other side has sent before its side sent a
close frame. -/
theorem every_message_is_delivered {endpoint callbacks : Callbacks} {sconfig : Server.Config}
    {cconfig : Client.Config} (hs : sconfig.maxMessageSize = sizeMax)
    (hc : cconfig.maxMessageSize = sizeMax) {n : Network}
    (h : n.Reachable endpoint callbacks sconfig cconfig) :
    (¬ ∃ run : ℕ → Network, run 0 = n ∧
      ∀ i, Network.Goes endpoint callbacks sconfig cconfig (run i) (run (i + 1))) ∧
    ((∀ n', ¬ Network.Goes endpoint callbacks sconfig cconfig n n') →
      AllDelivered endpoint.onMessage n.server.reading.isSome n.fromClient.broken n.sentByClient
        n.server.log ∧
      ∀ c, n.client = some c →
        AllDelivered callbacks.onMessage c.reading.isSome n.fromServer.broken n.sentByServer
          c.log) := by
  refine ⟨?_, ?_⟩
  · rintro ⟨run, rfl, hrun⟩
    have hnever : ∀ m, Acc (fun n' n => Network.Goes endpoint callbacks sconfig cconfig n n') m →
        ∀ i, run i ≠ m := by
      intro m hacc
      induction hacc with
      | intro m _ ih =>
          rintro i rfl
          exact ih (run (i + 1)) (hrun i) (i + 1) rfl
    exact hnever (run 0) (h.acc hs hc) 0 rfl
  · intro hstuck
    obtain ⟨s, hreach, hfollows⟩ := h.matched hs hc
    obtain ⟨fromServer, fromClient, hlinked⟩ := hreach.inv hs hc
    obtain ⟨_, hclientSent, -⟩ := hlinked.clientLog
    have hqueueServer : n.fromServer.broken = false → n.fromServer.sendQueue.queue = [] := by
      intro hbroken
      by_contra hqueue
      obtain ⟨o, hmoves⟩ := hfollows.fromServer.exists_moves hbroken hqueue
      exact hstuck _ (.serverSends hmoves)
    have hqueueClient : n.fromClient.broken = false → n.fromClient.sendQueue.queue = [] := by
      intro hbroken
      by_contra hqueue
      obtain ⟨o, hmoves⟩ := hfollows.fromClient.exists_moves hbroken hqueue
      exact hstuck _ (.clientSends hmoves)
    refine ⟨?_, ?_⟩
    · intro honMessage hreading hbroken
      rcases hfollows.serverHears with ⟨hserver, hcarries⟩ | hstop
      · have hwire := hcarries.eq_wire hbroken (hqueueClient hbroken)
        have hwaits : (Server.reader endpoint sconfig).step (s.server, ⟨s.toServer, none⟩) =
            none := by
          rw [← hserver, hwire]
          cases hp : (Server.reader endpoint sconfig).step
              (n.server, ⟨n.fromClient.wire, none⟩) with
          | none => rfl
          | some p => exact absurd (.serverReads hp) (hstuck _)
        rw [← hfollows.said_fromClient hlinked, hserver]
        refine hlinked.heard.messages_eq ?_ ?_ honMessage
        · rw [← hserver]
          intro hstop
          rw [hstop] at hreading
          cases hreading
        · intro todo hsuffix htodo
          refine htodo.eq_nil hs ?_ hwaits
          intro f hf
          exact (hclientSent.sendable f (hsuffix.subset hf)).size
      · rw [hstop] at hreading
        cases hreading
    · intro c hcc honMessage hreading hbroken
      have hclient := hfollows.client
      have hside := hlinked.client
      rw [hcc] at hclient
      generalize hu : s.toClient = u at hclient hside
      generalize s.client = c₀ at hclient hside
      cases hclient with
      | present halike hhears =>
          rcases hhears with ⟨rfl, hcarries⟩ | hstop
          · have hwire := hcarries.eq_wire hbroken (hqueueServer hbroken)
            have hwaits : (Client.reader callbacks cconfig).step (c, ⟨u, none⟩) = none := by
              rw [hwire]
              cases hp : (Client.reader callbacks cconfig).step
                  (c, ⟨n.fromServer.wire, none⟩) with
              | none => rfl
              | some p => exact absurd (.clientReads hcc hp) (hstuck _)
            rw [← hfollows.said_fromServer hlinked]
            cases hside with
            | present _ hlistens =>
                refine hlistens.messages_eq ?_ ?_ honMessage
                · intro hstop
                  rw [hstop] at hreading
                  cases hreading
                · intro todo _ htodo
                  exact htodo.eq_nil hc hwaits
          · rw [hstop] at hreading
            cases hreading

/-- The client has read the message that the server has sent. -/
def greeting : Network :=
  [Network.Act.serverSend (ascii "hi") 129, .clientOpens (fun _ _ => 7) 0, .serverTransfers 4,
    .serverWritten none, .clientReads, .clientReads].foldl
    (Network.act {} {} {} {}) { server := Server.opened {} [] }

theorem every_message_is_delivered_greeting :
    (¬ ∃ run : ℕ → Network, run 0 = greeting ∧
      ∀ i, Network.Goes {} {} {} {} (run i) (run (i + 1))) ∧
    ((∀ n', ¬ Network.Goes {} {} {} {} greeting n') →
      AllDelivered true greeting.server.reading.isSome greeting.fromClient.broken
        greeting.sentByClient greeting.server.log ∧
      ∀ c, greeting.client = some c →
        AllDelivered true c.reading.isSome greeting.fromServer.broken greeting.sentByServer
          c.log) := by
  have hstep : ∀ {n : Network}, n.Reachable {} {} {} {} → ∀ a, n.Allowed a →
      (Network.act {} {} {} {} n a).Reachable {} {} {} {} :=
    fun hn _ ha => Machine.Reach.step hn ha
  have h₁ := hstep (Machine.Reach.init rfl) (.serverSend (ascii "hi") 129)
    ⟨⟨rfl, Or.inl rfl⟩, by rw [maxSize]; decide⟩
  have h₂ := hstep (hstep h₁ (.clientOpens (fun _ _ => 7) 0) ⟨rfl, by decide⟩)
    (.serverTransfers 4) rfl
  have h₃ := hstep h₂ (.serverWritten none) fun _ => ⟨rfl, _, rfl, rfl⟩
  exact every_message_is_delivered rfl rfl (hstep (hstep h₃ .clientReads trivial) .clientReads
    trivial)

end SimpleWeb
