/-
**The closing handshake between this client and this server.**

A server and a client, each with its read loop and its `send` and `send_close`, and the bytes on
their way between them, in both directions in order.  The program on either side may send messages
and call `send_close` at any time; a read is completed as soon as its bytes have been sent, or at any
later time.  The client starts to read with any number of the server's bytes in its buffer, as they
may have been read along with the handshake response.  There are no errors and no timeouts.

Main definitions:

* `SimpleWeb.System`, `SimpleWeb.System.act`, `SimpleWeb.System.Reachable` — the two sides, and any
  interleaving of what happens to them;
* `SimpleWeb.Sent`, `SimpleWeb.Hearing` — what one side has sent, and how much of it the other side
  has decoded;
* `SimpleWeb.Orderly` — what a side may rely on.

Main results:

* `SimpleWeb.System.inv_act` — what one step preserves;
* `SimpleWeb.closing_handshake` — **the closing handshake**: one close frame and one `on_close` on
  either side, with what the other side's close frame says, and after everything it sent before.
-/

import SimpleWeb.Incoming
import SimpleWeb.WSCrypto

set_option relaxedAutoImplicit false
set_option autoImplicit false

namespace SimpleWeb

/-! ### The system -/

/-- The data put on the send queue. -/
def enqueued (log : List Event) : List Bytes := log.filterMap Event.enqueued?

/-- The bytes put on the send queue between two states of a log. -/
def sentSince (before after : List Event) : Bytes :=
  ((enqueued after).drop (enqueued before).length).flatten

/-- The two sides, and the bytes on their way.  There is no client until its handshake is done. -/
structure System where
  server : Server.Conn
  client : Option Client.Conn := none
  toServer : Bytes := []
  toClient : Bytes := []

namespace System

inductive Act
  | serverSend (outMessage : Bytes) (finRsvOpcode : UInt8)
  | serverClose (status : ℤ) (reason : Bytes)
  | serverReads
  | clientOpens (rd : ℕ → Mask) (numAdditionalBytes : ℕ)
  | clientSend (outMessage : Bytes) (finRsvOpcode : UInt8)
  | clientClose (status : ℤ) (reason : Bytes)
  | clientReads

/-- The server has gone on to `c`; what it has put on its send queue is on its way. -/
def onServer (s : System) (c : Server.Conn) : System :=
  { s with server := c, toClient := s.toClient ++ sentSince s.server.log c.log }

/-- The client `c` has gone on to `c'`. -/
def onClient (s : System) (c c' : Client.Conn) : System :=
  { s with client := some c', toServer := s.toServer ++ sentSince c.log c'.log }

variable (endpoint callbacks : Callbacks) (sconfig : Server.Config) (cconfig : Client.Config)

/-- The server's outstanding read is completed, if its bytes have been sent. -/
def serverReads (s : System) : System :=
  match (Server.reader endpoint sconfig).step (s.server, ⟨s.toServer, none⟩) with
  | none => s
  | some p => { s with toServer := p.2.incoming }.onServer p.1

/-- The client's outstanding read is completed, if its bytes have been sent. -/
def clientReads (s : System) (c : Client.Conn) : System :=
  match (Client.reader callbacks cconfig).step (c, ⟨s.toClient, none⟩) with
  | none => s
  | some p => { s with toClient := p.2.incoming }.onClient c p.1

/-- The handshake response has been read, and along with it the first bytes behind it. -/
def clientOpens (s : System) (rd : ℕ → Mask) (k : ℕ) : System :=
  { s with
    client := some (Client.opened callbacks rd (s.toClient.take k) k)
    toClient := s.toClient.drop k }

/-- Something the client does, if there is one. -/
def ofClient (s : System) (f : Client.Conn → System) : System :=
  match s.client with
  | none => s
  | some c => f c

def act (s : System) : Act → System
  | .serverSend outMessage b => s.onServer (s.server.send outMessage b)
  | .serverClose status reason => s.onServer (s.server.sendClose status reason)
  | .serverReads => s.serverReads endpoint sconfig
  | .clientOpens rd k => s.clientOpens callbacks rd k
  | .clientSend outMessage b => s.ofClient fun c => s.onClient c (c.send outMessage b)
  | .clientClose status reason => s.ofClient fun c => s.onClient c (c.sendClose status reason)
  | .clientReads => s.ofClient fun c => s.clientReads callbacks cconfig c

/-- Messages are sent in one frame.  A status has two bytes, and no string is longer than a string
can be. -/
def Allowed (s : System) : Act → Prop
  | .serverSend outMessage b => IsMessage b ∧ outMessage.length ≤ maxSize
  | .serverClose status reason => 0 ≤ status ∧ status < 65536 ∧ reason.length ≤ maxSize
  | .serverReads => True
  | .clientOpens _ k => s.client = none ∧ k ≤ s.toClient.length
  | .clientSend outMessage b => IsMessage b ∧ outMessage.length ≤ maxSize
  | .clientClose status reason => 0 ≤ status ∧ status < 65536 ∧ reason.length ≤ maxSize
  | .clientReads => True

/-- The states from the end of the server's handshake on. -/
def Reachable : System → Prop :=
  Machine.Reach (act endpoint callbacks sconfig cconfig) Allowed
    (· = { server := Server.opened endpoint [] })

end System

/-! ### What a side has sent -/

/-- The frames sent: at most one of them closes, and one does when `closed` is set. -/
structure Sent (encode : Frame → Bytes) (closed : Bool) (log : List Event) (sent : List Frame) :
    Prop where
  out : enqueued log = sent.map encode
  sendable : ∀ f ∈ sent, f.Sendable
  once : (sent.filter fun f => f.finRsvOpcode = 136).length = if closed then 1 else 0

namespace Sent

variable {encode : Frame → Bytes} {closed : Bool} {log log' : List Event} {sent : List Frame}
  {f : Frame}

theorem congr (h : Sent encode closed log sent) (hlog : enqueued log' = enqueued log) :
    Sent encode closed log' sent :=
  ⟨hlog.trans h.out, h.sendable, h.once⟩

theorem message (h : Sent encode closed log sent) (hf : f.Sendable)
    (hmessage : IsMessage f.finRsvOpcode) (hlog : enqueued log' = enqueued log ++ [encode f]) :
    Sent encode closed log' (sent ++ [f]) := by
  refine ⟨by simp [hlog, h.out], ?_, ?_⟩
  · intro g hg
    rcases List.mem_append.1 hg with hg | hg
    · exact h.sendable g hg
    · obtain rfl := List.mem_singleton.1 hg
      exact hf
  · simp [hmessage.ne_close, h.once]

theorem close (h : Sent encode false log sent) (hf : f.Sendable) (hclose : f.finRsvOpcode = 136)
    (hlog : enqueued log' = enqueued log ++ [encode f]) : Sent encode true log' (sent ++ [f]) := by
  refine ⟨by simp [hlog, h.out], ?_, ?_⟩
  · intro g hg
    rcases List.mem_append.1 hg with hg | hg
    · exact h.sendable g hg
    · obtain rfl := List.mem_singleton.1 hg
      exact hf
  · simp [hclose, h.once]

/-- A close frame is sent unless there has been one. -/
theorem answer (h : Sent encode closed log sent) (hf : f.Sendable) (hclose : f.finRsvOpcode = 136)
    (hlog : enqueued log' = enqueued log ++ if closed then [] else [encode f]) :
    Sent encode true log' (sent ++ if closed then [] else [f]) := by
  cases closed with
  | true => simpa using h.congr (hlog.trans (List.append_nil _))
  | false => exact h.close hf hclose hlog

end Sent

/-- The frame of a message. -/
theorem exists_message {b : UInt8} (hb : IsMessage b) {payload : Bytes}
    (hp : payload.length ≤ maxSize) (mask : Mask) :
    ∃ f : Frame, f.Sendable ∧ f.finRsvOpcode = b ∧ f.mask = mask ∧ f.payload = payload := by
  rw [maxSize] at hp
  have hfits := LengthForm.fits_shortest (show payload.length < 2 ^ 64 by omega)
  exact ⟨⟨b, _, mask, payload, hfits⟩, ⟨rfl, by simp only; omega, Or.inl hb⟩, rfl, rfl, rfl⟩

/-- The close frame with a status and a reason. -/
theorem exists_close {status : ℤ} (h : 0 ≤ status) (h' : status < 65536) {reason : Bytes}
    (hr : reason.length ≤ maxSize) (mask : Mask) :
    ∃ f : Frame, f.Sendable ∧ f.finRsvOpcode = 136 ∧ f.mask = mask ∧
      f.payload = closePayload status reason := by
  rw [maxSize] at hr
  have hlen : (closePayload status reason).length = reason.length + 2 := rfl
  have hfits := LengthForm.fits_shortest (show (closePayload status reason).length < 2 ^ 64 by omega)
  exact ⟨⟨136, _, mask, closePayload status reason, hfits⟩,
    ⟨rfl, by simp only; omega, Or.inr ⟨rfl, status, reason, h, h', rfl⟩⟩, rfl, rfl, rfl⟩

/-! ### What a side has decoded -/

/-- The frames `got` have been decoded of those that the other side has sent.  Either none of them
closes, and the connection expects the others; or the last one closes, and it has stopped. -/
def Hearing (callbacks : Callbacks) (log : List Event) (expects : List Frame → Prop)
    (stopped : Prop) (sent : List Frame) : Prop :=
  ∃ got todo, sent = got ++ todo ∧
    heard log = (if callbacks.onOpen then [.onOpen] else []) ++ got.flatMap (heardOf callbacks) ∧
    ((∀ g ∈ got, g.finRsvOpcode ≠ 136) ∧ expects todo ∨
      stopped ∧ ∃ got' f, got = got' ++ [f] ∧ f.finRsvOpcode = 136 ∧
        ∀ g ∈ got', g.finRsvOpcode ≠ 136)

namespace Hearing

variable {callbacks : Callbacks} {log log' : List Event} {expects expects' : List Frame → Prop}
  {stopped stopped' : Prop} {sent : List Frame}

/-- More has been sent, and the connection may have sent something itself. -/
theorem append (h : Hearing callbacks log expects stopped sent) (new : List Frame)
    (hlog : heard log' = heard log) (hexpects : ∀ todo, expects todo → expects' (todo ++ new))
    (hstopped : stopped → stopped') : Hearing callbacks log' expects' stopped' (sent ++ new) := by
  obtain ⟨got, todo, rfl, hheard, hcase⟩ := h
  refine ⟨got, todo ++ new, by simp, hlog.trans hheard, ?_⟩
  rcases hcase with ⟨hgot, htodo⟩ | ⟨hstop, hgot⟩
  · exact Or.inl ⟨hgot, hexpects todo htodo⟩
  · exact Or.inr ⟨hstopped hstop, hgot⟩

theorem congr (h : Hearing callbacks log expects stopped sent) (hlog : heard log' = heard log)
    (hexpects : ∀ todo, expects todo → expects' todo) (hstopped : stopped → stopped') :
    Hearing callbacks log' expects' stopped' sent := by
  have happend : Hearing callbacks log' expects' stopped' (sent ++ []) :=
    h.append [] hlog (by simpa using hexpects) hstopped
  simpa using happend

/-- The next frame has been decoded. -/
theorem decode {got todo : List Frame} {f : Frame} (hsent : sent = got ++ f :: todo)
    (hheard : heard log =
      (if callbacks.onOpen then [.onOpen] else []) ++ got.flatMap (heardOf callbacks))
    (hgot : ∀ g ∈ got, g.finRsvOpcode ≠ 136) (hlog : heard log' = heard log ++ heardOf callbacks f)
    (hmessage : f.finRsvOpcode ≠ 136 → expects todo) (hclose : f.finRsvOpcode = 136 → stopped) :
    Hearing callbacks log' expects stopped sent := by
  refine ⟨got ++ [f], todo, by simp [hsent], by simp [hlog, hheard], ?_⟩
  by_cases hf : f.finRsvOpcode = 136
  · exact Or.inr ⟨hclose hf, got, f, rfl, hf, hgot⟩
  · refine Or.inl ⟨?_, hmessage hf⟩
    intro g hg
    rcases List.mem_append.1 hg with hg | hg
    · exact hgot g hg
    · obtain rfl := List.mem_singleton.1 hg
      exact hf

end Hearing

/-- What is on its way when more has been sent. -/
theorem Sent.sentSince_eq {encode : Frame → Bytes} {closed closed' : Bool} {log log' : List Event}
    {sent new : List Frame} (h : Sent encode closed log sent)
    (h' : Sent encode closed' log' (sent ++ new)) : sentSince log log' = new.flatMap encode := by
  rw [sentSince, h'.out, h.out, List.map_append, List.drop_left, List.flatMap]

/-- A read ends with the source as it was. -/
theorem ending_step {σ : Type*} {R : Reader σ UInt8 ErrorCode} {c : σ} {u : Bytes}
    {p : σ × Source UInt8 ErrorCode} (hp : R.step (c, ⟨u, none⟩) = some p) : p.2.ending = none := by
  unfold Reader.step at hp
  cases hr : R.request c with
  | none => simp [hr] at hp
  | some n =>
      simp only [hr] at hp
      split at hp
      · rw [← Option.some_inj.1 hp]
      · cases hp

/-! ### The server -/

namespace Server

variable {endpoint : Callbacks} {config : Config} {c : Conn} {u : Bytes} {sent : List Frame}

theorem Expects.appends {todo : List Frame} (h : Expects c u todo) (new : List Frame) :
    Expects c (u ++ new.flatMap Frame.maskedBytes) (todo ++ new) := by
  induction new generalizing u todo with
  | nil => simpa using h
  | cons f new ih => simpa using ih (h.append f)

/-- What the server has decoded. -/
abbrev Listens (endpoint : Callbacks) (c : Conn) (u : Bytes) (sent : List Frame) : Prop :=
  Hearing endpoint c.log (Expects c u) (c.reading = none) sent

/-- Its own sending does not touch what it reads. -/
theorem Listens.sends (h : Listens endpoint c u sent) {c' : Conn} (hlog : heard c'.log = heard c.log)
    (hs : c'.streambuf = c.streambuf) (hr : c'.reading = c.reading) :
    Listens endpoint c' u sent :=
  h.congr hlog (fun _ htodo => htodo.congr hs hr) (fun hstop => hr.trans hstop)

/-- The client has sent more. -/
theorem Listens.appends (h : Listens endpoint c u sent) (new : List Frame) :
    Listens endpoint c (u ++ new.flatMap Frame.maskedBytes) (sent ++ new) :=
  h.append new rfl (fun _ htodo => htodo.appends new) id

/-- **What one read does**: the frame goes on; or a message is delivered; or a close frame is
delivered and answered, if the server has not sent one already. -/
theorem Listens.reads (hmax : config.maxMessageSize = sizeMax) (h : Listens endpoint c u sent)
    (hsent : ∀ f ∈ sent, f.Sendable) {p : Conn × Source UInt8 ErrorCode}
    (hp : (reader endpoint config).step (c, ⟨u, none⟩) = some p) :
    Listens endpoint p.1 p.2.incoming sent ∧
      ∃ new, ∀ own, Sent Frame.unmaskedBytes c.closed c.log own →
        Sent Frame.unmaskedBytes p.1.closed p.1.log (own ++ new) := by
  obtain ⟨got, todo, hsplit, hheard, ⟨hgot, htodo⟩ | ⟨hstop, -⟩⟩ := h
  · have hsize : ∀ f ∈ todo, f.payload.length + 4 < 2 ^ 64 := by
      intro f hf
      refine (hsent f ?_).size
      rw [hsplit]
      exact List.mem_append_right _ hf
    rcases htodo.step hmax hsize hp with
      ⟨op, u', rfl, hexpects⟩ | ⟨f, todo', rfl, rfl, hs⟩
    · refine ⟨⟨got, todo, hsplit, hheard, Or.inl ⟨hgot, hexpects⟩⟩, [], ?_⟩
      intro own hown
      simpa using hown
    · have hf : f.Sendable := hsent f (by rw [hsplit]; simp)
      rcases hf.kind with hmessage | ⟨hclose, -⟩
      · obtain ⟨hat, -, hclosed, hlog⟩ := @process_message endpoint c f hmessage hs
        refine ⟨Hearing.decode hsplit hheard hgot (by rw [hlog, heard_append, heard_heardOf])
          (fun _ => Expects.atFrame todo' hat) (fun h => absurd h hmessage.ne_close), [], ?_⟩
        intro own hown
        rw [List.append_nil, hclosed]
        refine hown.congr ?_
        rw [hlog, enqueued, List.filterMap_append, List.filterMap_eq_nil_iff.2 enqueued_heardOf,
          List.append_nil, enqueued]
      · obtain ⟨hr, hclosed, hlog, hheard'⟩ := @process_close endpoint c f hclose
        obtain ⟨status, reason, -, -, hpayload, hread⟩ := hf.close hclose
        rw [hread, ← hpayload, ← hclose, hf.shortest.unmasked] at hlog
        refine ⟨Hearing.decode hsplit hheard hgot hheard' (fun h => absurd hclose h)
          (fun _ => hr), if c.closed then [] else [f], ?_⟩
        intro own hown
        simp only [hclosed]
        exact hown.answer hf hclose hlog
  · simp [Reader.step, hstop] at hp

end Server

/-! ### The client -/

namespace Client

variable {callbacks : Callbacks} {config : Config} {c : Conn} {u : Bytes} {sent : List Frame}

/-- Clients at the same position have both closed, or neither. -/
theorem SameStream.closed_eq {p p' : Conn × Source UInt8 ErrorCode} (h : SameStream p p') :
    p.1.closed = p'.1.closed := by
  cases h with
  | stopped hr hc => rw [hc]
  | reading => rfl

/-- They stay so when both send the same, and when there is more to come for both. -/
theorem SameStream.sends {c c' : Conn} {u u' : Bytes} {e : Option ErrorCode}
    (h : SameStream (c, ⟨u, e⟩) (c', ⟨u', e⟩)) {f : Conn → Conn}
    (hf : ∀ c m op, f { c with inMessage := m, reading := op } =
      { f c with inMessage := m, reading := op })
    (new : Bytes) : SameStream (f c, ⟨u ++ new, e⟩) (f c', ⟨u' ++ new, e⟩) := by
  cases h with
  | @stopped _ _ m _ _ hr hc =>
      subst hc
      have hself : f c = { f c with inMessage := c.inMessage, reading := c.reading } :=
        hf c c.inMessage c.reading
      have hreading : (f c).reading = c.reading := by rw [hself]
      have hother : f { c with inMessage := m } =
          { f c with inMessage := m, reading := c.reading } := hf c m c.reading
      refine SameStream.stopped (m := m) (hreading.trans hr) ?_
      rw [hother, ← hreading]
  | @reading c op op' m m' _ _ _ hop hm hbytes hk hk' =>
      rw [hf c m (some op), hf c m' (some op')]
      refine SameStream.reading (f c) op op' hop hm ?_ hk hk'
      rw [← List.append_assoc, hbytes, List.append_assoc]

/-- The client is where one would be that has read nothing ahead and expects `todo`. -/
def Expecting (c : Conn) (u : Bytes) (todo : List Frame) : Prop :=
  ∃ c₀ u₀, SameStream (c, ⟨u, none⟩) (c₀, ⟨u₀, none⟩) ∧ Expects c₀ u₀ todo ∧
    c₀.fragmentedInMessage = none

theorem Expects.appends {todo : List Frame} (h : Expects c u todo) (new : List Frame) :
    Expects c (u ++ new.flatMap Frame.unmaskedBytes) (todo ++ new) := by
  induction new generalizing u todo with
  | nil => simpa using h
  | cons f new ih => simpa using ih (h.append f)

/-- What the client has decoded. -/
abbrev Listens (callbacks : Callbacks) (c : Conn) (u : Bytes) (sent : List Frame) : Prop :=
  Hearing callbacks c.log (Expecting c u) (c.reading = none) sent

/-- The server has sent more, and the client may have sent something itself. -/
theorem Listens.appends (h : Listens callbacks c u sent) {f : Conn → Conn}
    (hf : ∀ c m op, f { c with inMessage := m, reading := op } =
      { f c with inMessage := m, reading := op })
    (hfragmented : ∀ c, (f c).fragmentedInMessage = c.fragmentedInMessage)
    (hlog : heard (f c).log = heard c.log) (new : List Frame) :
    Listens callbacks (f c) (u ++ new.flatMap Frame.unmaskedBytes) (sent ++ new) := by
  have hsame : ∀ c : Conn, (f c).inMessage = c.inMessage ∧ (f c).reading = c.reading := by
    intro c
    have hself : f c = { f c with inMessage := c.inMessage, reading := c.reading } :=
      hf c c.inMessage c.reading
    constructor <;> rw [hself]
  refine h.append new hlog ?_ fun hstop => (hsame c).2.trans hstop
  rintro todo ⟨c₀, u₀, hstream, hexpects, hnone⟩
  exact ⟨f c₀, _, hstream.sends hf _,
    (hexpects.appends new).congr (hsame c₀).1 (hsame c₀).2, (hfragmented c₀).trans hnone⟩

/-- The client sends something itself. -/
theorem Listens.sends (h : Listens callbacks c u sent) {f : Conn → Conn}
    (hf : ∀ c m op, f { c with inMessage := m, reading := op } =
      { f c with inMessage := m, reading := op })
    (hfragmented : ∀ c, (f c).fragmentedInMessage = c.fragmentedInMessage)
    (hlog : heard (f c).log = heard c.log) : Listens callbacks (f c) u sent := by
  have hnothing := h.appends hf hfragmented hlog []
  rwa [List.flatMap_nil, List.append_nil, List.append_nil] at hnothing

/-- **What one read does**: the frame goes on; or a message is delivered; or a close frame is
delivered and answered, if the client has not sent one already. -/
theorem Listens.reads (hmax : config.maxMessageSize = sizeMax) (h : Listens callbacks c u sent)
    (hsent : ∀ f ∈ sent, f.Sendable) {p : Conn × Source UInt8 ErrorCode}
    (hp : (reader callbacks config).step (c, ⟨u, none⟩) = some p) :
    Listens callbacks p.1 p.2.incoming sent ∧
      ∃ new, ∀ own, Sent Frame.maskedBytes c.closed c.log own →
        Sent Frame.maskedBytes p.1.closed p.1.log (own ++ new) := by
  obtain ⟨got, todo, hsplit, hheard, ⟨hgot, c₀, u₀, hstream, htodo, hnone⟩ | ⟨hstop, -⟩⟩ := h
  · obtain ⟨p₀, hp₀, hstream'⟩ : ∃ p₀, (reader callbacks config).step (c₀, ⟨u₀, none⟩) = some p₀ ∧
        SameStream p p₀ := by
      have hrel := @sameStream_step callbacks config _ _ hstream
      rw [hp] at hrel
      cases hp₀ : (reader callbacks config).step (c₀, ⟨u₀, none⟩) with
      | none => rw [hp₀] at hrel; cases hrel
      | some p₀ =>
          rw [hp₀] at hrel
          cases hrel with
          | some hrel => exact ⟨p₀, rfl, hrel⟩
    have hsource : p = (p.1, ⟨p.2.incoming, none⟩) := by
      rw [← ending_step hp]
    -- closed and log are those of the clients that have read nothing ahead
    have hclosed₀ : c₀.closed = c.closed := hstream.closed_eq.symm
    have hlog₀ : c₀.log = c.log := hstream.log_eq.symm
    have hclosed₁ : p.1.closed = p₀.1.closed := hstream'.closed_eq
    have hlog₁ : p.1.log = p₀.1.log := hstream'.log_eq
    rw [hsource] at hstream'
    rcases htodo.step hmax hp₀ with ⟨m, op, u', rfl, hexpects⟩ | ⟨f, todo', rfl, rfl⟩
    · refine ⟨⟨got, todo, hsplit, ?_, Or.inl ⟨hgot, _, _, hstream', hexpects, hnone⟩⟩, [], ?_⟩
      · rw [hlog₁, ← hheard, ← hlog₀]
      · intro own hown
        rw [List.append_nil, hclosed₁, hlog₁]
        simpa [hclosed₀, hlog₀] using hown
    · have hf : f.Sendable := hsent f (by rw [hsplit]; simp)
      rcases hf.kind with hmessage | ⟨hclose, -⟩
      · obtain ⟨hat, hnone', hclosed, hlog⟩ := @process_message callbacks c₀ f hmessage hnone
        rw [hlog₀] at hlog
        refine ⟨Hearing.decode hsplit hheard hgot (by rw [hlog₁, hlog, heard_append, heard_heardOf])
          (fun _ => ⟨_, _, hstream', Expects.atFrame todo' hat, hnone'⟩)
          (fun h => absurd h hmessage.ne_close), [], ?_⟩
        intro own hown
        rw [List.append_nil, hclosed₁, hclosed, hclosed₀]
        refine hown.congr ?_
        rw [hlog₁, hlog, enqueued, List.filterMap_append,
          List.filterMap_eq_nil_iff.2 enqueued_heardOf, List.append_nil, enqueued]
      · obtain ⟨hr, hclosed, hlog, hheard'⟩ := @process_close callbacks c₀ f hclose
        obtain ⟨status, reason, -, -, hpayload, hread⟩ := hf.close hclose
        obtain ⟨g, hg, hgclose, hgmask, hgpayload⟩ : ∃ g : Frame, g.Sendable ∧
            g.finRsvOpcode = 136 ∧ g.mask = c₀.rd 0 ∧ g.payload = f.payload :=
          ⟨{ f with mask := c₀.rd 0 }, ⟨hf.shortest, hf.size, hf.kind⟩, hclose, rfl, rfl⟩
        rw [hread, ← hpayload, ← hgpayload, ← hgmask, ← hgclose, hg.shortest.masked, ← hlog₁,
          hlog₀, hclosed₀] at hlog
        rw [← hlog₁, hlog₀] at hheard'
        have hstopped : p.1.reading = none := by
          rcases hstream'.position with ⟨h, -⟩ | ⟨-, h, -⟩
          · exact h
          · rw [hr] at h
            cases h
        refine ⟨Hearing.decode hsplit hheard hgot hheard' (fun h => absurd hclose h)
          (fun _ => hstopped), if c.closed then [] else [g], ?_⟩
        intro own hown
        rw [hclosed₁, hclosed]
        exact hown.answer hg hgclose hlog
  · simp [Reader.step, hstop] at hp

/-- The client starts, with the first `k` of the bytes that have been sent in its buffer. -/
theorem listens_opened (callbacks : Callbacks) (rd : ℕ → Mask) (sent : List Frame) {k : ℕ}
    (hk : k ≤ (sent.flatMap Frame.unmaskedBytes).length) :
    Listens callbacks (opened callbacks rd ((sent.flatMap Frame.unmaskedBytes).take k) k)
      ((sent.flatMap Frame.unmaskedBytes).drop k) sent := by
  have hopened : Expects (opened callbacks rd [] 0) (sent.flatMap Frame.unmaskedBytes) sent :=
    Expects.atFrame sent ⟨rfl, rfl⟩
  refine ⟨[], sent, rfl, ?_, Or.inl ⟨by simp, _, _, sameStream_opened hk, hopened, rfl⟩⟩
  simp only [opened, Conn.connectionOpen, Conn.call, Conn.readMessage]
  cases callbacks.onOpen <;> rfl

end Client

/-! ### Calls of `send` and `send_close` -/

namespace Server

variable {c : Conn} {own : List Frame}

theorem sent_send (h : Sent Frame.unmaskedBytes c.closed c.log own) {outMessage : Bytes} {b : UInt8}
    (hb : IsMessage b) (hlen : outMessage.length ≤ maxSize) :
    ∃ new, Sent Frame.unmaskedBytes (c.send outMessage b).closed (c.send outMessage b).log
      (own ++ new) := by
  obtain ⟨f, hf, rfl, -, rfl⟩ := exists_message hb hlen fun _ => 0
  refine ⟨[f], h.message hf hb ?_⟩
  simp [enqueued, Conn.send, Event.enqueued?, hf.shortest.unmasked]

theorem sent_sendClose (h : Sent Frame.unmaskedBytes c.closed c.log own) {status : ℤ}
    {reason : Bytes} (hstatus : 0 ≤ status) (hstatus' : status < 65536)
    (hlen : reason.length ≤ maxSize) :
    ∃ new, Sent Frame.unmaskedBytes (c.sendClose status reason).closed
      (c.sendClose status reason).log (own ++ new) := by
  obtain ⟨f, hf, hclose, -, hpayload⟩ := exists_close hstatus hstatus' hlen fun _ => 0
  have hout : enqueued (c.sendClose status reason).log =
      enqueued c.log ++ if c.closed then [] else [f.unmaskedBytes] := by
    rw [log_sendClose, ← hf.shortest.unmasked, hpayload, hclose]
    cases c.closed <;> simp [enqueued, Event.enqueued?]
  rw [closed_sendClose]
  exact ⟨_, h.answer hf hclose hout⟩

theorem heard_sendClose (c : Conn) (status : ℤ) (reason : Bytes) :
    heard (c.sendClose status reason).log = heard c.log := by
  rw [log_sendClose, heard_append]
  cases c.closed <;> simp [heard, Event.enqueued?]

theorem streambuf_sendClose (c : Conn) (status : ℤ) (reason : Bytes) :
    (c.sendClose status reason).streambuf = c.streambuf := by
  unfold Conn.sendClose
  split <;> rfl

end Server

namespace Client

variable {c : Conn} {own : List Frame}

theorem sent_send (h : Sent Frame.maskedBytes c.closed c.log own) {outMessage : Bytes} {b : UInt8}
    (hb : IsMessage b) (hlen : outMessage.length ≤ maxSize) :
    ∃ new, Sent Frame.maskedBytes (c.send outMessage b).closed (c.send outMessage b).log
      (own ++ new) := by
  obtain ⟨f, hf, rfl, hmask, rfl⟩ := exists_message hb hlen (c.rd 0)
  refine ⟨[f], h.message hf hb ?_⟩
  simp [enqueued, Conn.send, Event.enqueued?, ← hmask, hf.shortest.masked]

theorem sent_sendClose (h : Sent Frame.maskedBytes c.closed c.log own) {status : ℤ}
    {reason : Bytes} (hstatus : 0 ≤ status) (hstatus' : status < 65536)
    (hlen : reason.length ≤ maxSize) :
    ∃ new, Sent Frame.maskedBytes (c.sendClose status reason).closed
      (c.sendClose status reason).log (own ++ new) := by
  obtain ⟨f, hf, hclose, hmask, hpayload⟩ := exists_close hstatus hstatus' hlen (c.rd 0)
  have hout : enqueued (c.sendClose status reason).log =
      enqueued c.log ++ if c.closed then [] else [f.maskedBytes] := by
    rw [log_sendClose, ← hf.shortest.masked, hmask, hpayload, hclose]
    cases c.closed <;> simp [enqueued, Event.enqueued?]
  rw [closed_sendClose]
  exact ⟨_, h.answer hf hclose hout⟩

theorem heard_sendClose (c : Conn) (status : ℤ) (reason : Bytes) :
    heard (c.sendClose status reason).log = heard c.log := by
  rw [log_sendClose, heard_append]
  cases c.closed <;> simp [heard, Event.enqueued?]

/-- It does not touch what the client reads. -/
theorem sendClose_reading (c : Conn) (m : InMessage) (op : Option ReadOp) (status : ℤ)
    (reason : Bytes) :
    { c with inMessage := m, reading := op }.sendClose status reason =
      { c.sendClose status reason with inMessage := m, reading := op } := by
  unfold Conn.sendClose
  split <;> rfl

theorem fragmented_sendClose (c : Conn) (status : ℤ) (reason : Bytes) :
    (c.sendClose status reason).fragmentedInMessage = c.fragmentedInMessage := by
  unfold Conn.sendClose
  split <;> rfl

end Client

/-! ### The invariant of the system -/

/-- What the client has sent and heard; when there is none, all that the server has sent is on its
way. -/
inductive ClientSide (callbacks : Callbacks) :
    Option Client.Conn → Bytes → List Frame → List Frame → Prop
  | absent (fromServer : List Frame) :
      ClientSide callbacks none (fromServer.flatMap Frame.unmaskedBytes) fromServer []
  | present {c : Client.Conn} {toClient : Bytes} {fromServer fromClient : List Frame} :
      Sent Frame.maskedBytes c.closed c.log fromClient →
      Client.Listens callbacks c toClient fromServer →
      ClientSide callbacks (some c) toClient fromServer fromClient

namespace System

variable {endpoint callbacks : Callbacks} {sconfig : Server.Config} {cconfig : Client.Config}

/-- Each side has sent what the other one has decoded, or has still to read. -/
structure Linked (endpoint callbacks : Callbacks) (s : System) (fromServer fromClient : List Frame) :
    Prop where
  server : Sent Frame.unmaskedBytes s.server.closed s.server.log fromServer
  heard : Server.Listens endpoint s.server s.toServer fromClient
  client : ClientSide callbacks s.client s.toClient fromServer fromClient

def Inv (endpoint callbacks : Callbacks) (s : System) : Prop :=
  ∃ fromServer fromClient, Linked endpoint callbacks s fromServer fromClient

/-- The server has gone on. -/
theorem Linked.onServer {s : System} {fromServer fromClient new : List Frame}
    (h : Linked endpoint callbacks s fromServer fromClient) {c : Server.Conn} {toServer : Bytes}
    (hsent : Sent Frame.unmaskedBytes c.closed c.log (fromServer ++ new))
    (hheard : Server.Listens endpoint c toServer fromClient) :
    Linked endpoint callbacks ({ s with toServer := toServer }.onServer c) (fromServer ++ new)
      fromClient := by
  refine ⟨hsent, hheard, ?_⟩
  have hsince := h.server.sentSince_eq hsent
  obtain ⟨server, client, toServer', toClient⟩ := s
  have hclient := h.client
  simp only [System.onServer] at hsince hclient ⊢
  rw [hsince]
  cases hclient with
  | absent =>
      rw [← List.flatMap_append]
      exact ClientSide.absent (fromServer ++ new)
  | present hown hlistens =>
      exact ClientSide.present hown
        (hlistens.appends (f := id) (fun _ _ _ => rfl) (fun _ => rfl) rfl new)

/-- The client has gone on. -/
theorem Linked.onClient {s : System} {fromServer fromClient new : List Frame}
    (h : Linked endpoint callbacks s fromServer fromClient) {c c' : Client.Conn} {toClient : Bytes}
    (hown : Sent Frame.maskedBytes c.closed c.log fromClient)
    (hsent : Sent Frame.maskedBytes c'.closed c'.log (fromClient ++ new))
    (hheard : Client.Listens callbacks c' toClient fromServer) :
    Linked endpoint callbacks ({ s with toClient := toClient }.onClient c c') fromServer
      (fromClient ++ new) := by
  have hsince := hown.sentSince_eq hsent
  refine ⟨h.server, ?_, ClientSide.present hsent hheard⟩
  simp only [System.onClient]
  rw [hsince]
  exact h.heard.appends new

/-- The client does something, if there is one. -/
theorem Linked.ofClient {s : System} {fromServer fromClient : List Frame}
    (h : Linked endpoint callbacks s fromServer fromClient) {f : Client.Conn → System}
    (hf : ∀ c, Sent Frame.maskedBytes c.closed c.log fromClient →
      Client.Listens callbacks c s.toClient fromServer → (f c).Inv endpoint callbacks) :
    (s.ofClient f).Inv endpoint callbacks := by
  have hclient := h.client
  unfold System.ofClient
  cases hc : s.client with
  | none => exact ⟨_, _, h⟩
  | some c =>
      rw [hc] at hclient
      cases hclient with
      | present hown hlistens => exact hf c hown hlistens

/-- **What one step preserves.** -/
theorem inv_act (hs : sconfig.maxMessageSize = sizeMax) (hc : cconfig.maxMessageSize = sizeMax)
    {s : System} (h : s.Inv endpoint callbacks) {a : Act} (ha : Allowed s a) :
    (act endpoint callbacks sconfig cconfig s a).Inv endpoint callbacks := by
  obtain ⟨fromServer, fromClient, h⟩ := h
  cases a with
  | serverSend outMessage b =>
      obtain ⟨hb, hlen⟩ := ha
      obtain ⟨new, hnew⟩ := Server.sent_send h.server hb hlen
      have hheard : heard (s.server.send outMessage b).log = heard s.server.log := by
        simp [Server.Conn.send, heard, Event.enqueued?]
      exact ⟨_, _, h.onServer hnew (h.heard.sends hheard rfl rfl)⟩
  | serverClose status reason =>
      obtain ⟨hstatus, hstatus', hlen⟩ := ha
      obtain ⟨new, hnew⟩ := Server.sent_sendClose h.server hstatus hstatus' hlen
      exact ⟨_, _, h.onServer hnew (h.heard.sends (Server.heard_sendClose _ _ _)
        (Server.streambuf_sendClose _ _ _) (Server.Conn.reading_sendClose _ _ _))⟩
  | serverReads =>
      simp only [act, serverReads]
      cases hp : (Server.reader endpoint sconfig).step (s.server, ⟨s.toServer, none⟩) with
      | none => exact ⟨_, _, h⟩
      | some p =>
          have hsendable : ∀ f ∈ fromClient, f.Sendable := by
            obtain ⟨server, client, toServer, toClient⟩ := s
            cases h.client with
            | absent => simp
            | present hown _ => exact hown.sendable
          obtain ⟨hheard, new, hnew⟩ := h.heard.reads hs hsendable hp
          exact ⟨_, _, h.onServer (hnew _ h.server) hheard⟩
  | clientOpens rd k =>
      obtain ⟨hnone, hk⟩ := ha
      obtain ⟨server, client, toServer, toClient⟩ := s
      simp only at hnone hk
      subst hnone
      cases h.client with
      | absent =>
          refine ⟨fromServer, [], h.server, h.heard, ClientSide.present ?_
            (Client.listens_opened callbacks rd fromServer hk)⟩
          refine ⟨?_, by simp, rfl⟩
          simp only [Client.opened, Client.Conn.connectionOpen, Client.Conn.call,
            Client.Conn.readMessage]
          cases callbacks.onOpen <;> rfl
  | clientSend outMessage b =>
      obtain ⟨hb, hlen⟩ := ha
      refine h.ofClient ?_
      intro c hown hlistens
      obtain ⟨new, hnew⟩ := Client.sent_send hown hb hlen
      have hheard : heard (c.send outMessage b).log = heard c.log := by
        simp [Client.Conn.send, heard, Event.enqueued?]
      have hlistens' := hlistens.sends (f := fun c => c.send outMessage b) (fun _ _ _ => rfl)
        (fun _ => rfl) hheard
      exact ⟨_, _, h.onClient hown hnew hlistens'⟩
  | clientClose status reason =>
      obtain ⟨hstatus, hstatus', hlen⟩ := ha
      refine h.ofClient ?_
      intro c hown hlistens
      obtain ⟨new, hnew⟩ := Client.sent_sendClose hown hstatus hstatus' hlen
      have hlistens' := hlistens.sends (f := fun c => c.sendClose status reason)
        (fun c m op => Client.sendClose_reading c m op status reason)
        (fun c => Client.fragmented_sendClose c status reason) (Client.heard_sendClose c status reason)
      exact ⟨_, _, h.onClient hown hnew hlistens'⟩
  | clientReads =>
      refine h.ofClient ?_
      intro c hown hlistens
      unfold clientReads
      cases hp : (Client.reader callbacks cconfig).step (c, ⟨s.toClient, none⟩) with
      | none => exact ⟨_, _, h⟩
      | some p =>
          obtain ⟨hheard, new, hnew⟩ := hlistens.reads hc h.server.sendable hp
          exact ⟨_, _, h.onClient hown (hnew _ hown) hheard⟩

theorem Reachable.inv (hs : sconfig.maxMessageSize = sizeMax)
    (hc : cconfig.maxMessageSize = sizeMax) {s : System}
    (h : s.Reachable endpoint callbacks sconfig cconfig) : s.Inv endpoint callbacks := by
  refine Machine.Reach.invariant ?_ ?_ h
  · rintro s rfl
    have hopened : (Server.opened endpoint []).log =
        if endpoint.onOpen then [.onOpen] else [] := rfl
    refine ⟨[], [], ⟨?_, by simp, rfl⟩,
      ⟨[], [], rfl, ?_, Or.inl ⟨by simp, Server.Expects.atFrame [] ⟨rfl, rfl⟩⟩⟩,
      ClientSide.absent []⟩
    · rw [hopened]
      cases endpoint.onOpen <;> rfl
    · rw [hopened]
      cases endpoint.onOpen <;> rfl
  · intro s a hlinked ha
    exact inv_act hs hc hlinked ha

/-- What has happened to the client so far. -/
def clientLog (s : System) : List Event :=
  match s.client with
  | none => []
  | some c => c.log

end System

/-! ### What a side may rely on -/

/-- The calls of `on_close`. -/
def Event.isOnClose : Event → Bool
  | .onClose _ _ => true
  | _ => false

/-- One side's log, given the frames that the other side sends: `on_close` is called at most once,
with what the close frame of the other side says; when it is called all messages that the other side
has sent before that frame have been delivered, and no message is delivered and no frame read
afterwards.  `onMessage` is whether the callback for messages is set. -/
structure Orderly (onMessage : Bool) (sent : List (UInt8 × Bytes)) (log : List Event) : Prop where
  once : (log.filter Event.isOnClose).length ≤ 1
  closes : ∀ pre status reason post, log = pre ++ .onClose status reason :: post →
    (0 ≤ status ∧ status < 65536) ∧
    (∃ before behind, sent = before ++ (136, closePayload status reason) :: behind ∧
      (∀ m ∈ before, IsMessage m.1) ∧
      pre.filterMap Event.message? = if onMessage then before else []) ∧
    post.filterMap Event.message? = [] ∧ post.filterMap Event.frame? = []

/-- Nothing is asked of a log in which `on_close` is not called. -/
theorem Orderly.of_filter_eq_nil {log : List Event} (h : log.filter Event.isOnClose = [])
    (onMessage : Bool) (sent : List (UInt8 × Bytes)) : Orderly onMessage sent log := by
  refine ⟨by simp [h], ?_⟩
  rintro pre status reason post rfl
  simp [Event.isOnClose] at h

/-- An element that is found where only the last one can be is the last one. -/
theorem eq_last {α : Type*} {p : α → Bool} {xs ys zs : List α} {a b : α}
    (h : ys ++ b :: zs = xs ++ [a]) (hxs : ∀ x ∈ xs, p x = false) (hb : p b = true) :
    ys = xs ∧ b = a ∧ zs = [] := by
  rcases List.append_eq_append_iff.1 h with ⟨as, hx, hrest⟩ | ⟨bs, hy, hrest⟩
  · cases as with
    | nil =>
        simp only [List.nil_append, List.cons.injEq] at hrest
        exact ⟨by simpa using hx.symm, hrest.1, hrest.2⟩
    | cons a' as =>
        have hmem : b ∈ xs := by
          rw [hx, (List.cons.inj hrest).1]
          simp
        rw [hxs b hmem] at hb
        cases hb
  · cases bs with
    | nil =>
        simp only [List.nil_append, List.cons.injEq] at hrest
        exact ⟨by simpa using hy, hrest.1.symm, hrest.2.symm⟩
    | cons b' bs => simp at hrest

/-- What is put on the send queue is nothing that is heard. -/
theorem filterMap_heard {β : Type*} {h : Event → Option β} (hh : ∀ b, h (.enqueue b) = none)
    (log : List Event) : (heard log).filterMap h = log.filterMap h := by
  rw [heard, List.filterMap_filter]
  refine List.filterMap_congr ?_
  intro e _
  cases e with
  | enqueue b => exact (hh b).symm
  | _ => rfl

theorem filter_isOnClose_heard (log : List Event) :
    (heard log).filter Event.isOnClose = log.filter Event.isOnClose := by
  rw [heard, List.filter_filter]
  refine List.filter_congr ?_
  intro e _
  cases e <;> rfl

/-- Frames that do not close call no `on_close`. -/
theorem not_isOnClose (callbacks : Callbacks) {got : List Frame}
    (hgot : ∀ g ∈ got, g.finRsvOpcode ≠ 136) :
    ∀ e ∈ (if callbacks.onOpen then [Event.onOpen] else []) ++ got.flatMap (heardOf callbacks),
      e.isOnClose = false := by
  intro e he
  rcases List.mem_append.1 he with he | he
  · cases hopen : callbacks.onOpen <;> simp [hopen] at he
    rw [he]
    rfl
  · obtain ⟨g, hg, he⟩ := List.mem_flatMap.1 he
    rw [heardOf, if_neg (hgot g hg)] at he
    cases hmessage : callbacks.onMessage <;> simp [hmessage] at he
    · rw [he]
      rfl
    · rcases he with rfl | rfl <;> rfl

/-- The messages of frames that do not close. -/
theorem message_heardOf (callbacks : Callbacks) {got : List Frame}
    (hgot : ∀ g ∈ got, g.finRsvOpcode ≠ 136) :
    ((if callbacks.onOpen then [Event.onOpen] else []) ++
      got.flatMap (heardOf callbacks)).filterMap Event.message? =
        if callbacks.onMessage then got.map Frame.content else [] := by
  have hopen : (if callbacks.onOpen then [Event.onOpen] else []).filterMap Event.message? = [] := by
    cases callbacks.onOpen <;> rfl
  rw [List.filterMap_append, hopen, List.nil_append]
  induction got with
  | nil => cases callbacks.onMessage <;> rfl
  | cons g got ih =>
      have hg := hgot g (List.mem_cons_self ..)
      have hrest := ih fun g' hg' => hgot g' (List.mem_cons_of_mem _ hg')
      rw [List.flatMap_cons, List.filterMap_append, hrest, heardOf, if_neg hg]
      cases callbacks.onMessage <;> rfl

/-- **What a side may rely on.** -/
theorem Hearing.orderly {callbacks : Callbacks} {log : List Event} {expects : List Frame → Prop}
    {stopped : Prop} {sent : List Frame} (h : Hearing callbacks log expects stopped sent)
    (hsent : ∀ f ∈ sent, f.Sendable) :
    Orderly callbacks.onMessage (sent.map Frame.content) log := by
  obtain ⟨got, todo, rfl, hheard, ⟨hgot, -⟩ | ⟨-, got', f, rfl, hclose, hgot⟩⟩ := h
  · -- no close frame has been decoded
    have hnone : log.filter Event.isOnClose = [] := by
      rw [← filter_isOnClose_heard, hheard, List.filter_eq_nil_iff]
      intro e he
      rw [not_isOnClose callbacks hgot e he]
      exact Bool.false_ne_true
    exact .of_filter_eq_nil hnone _ _
  · obtain ⟨status', reason', hstatus, hstatus', hpayload, hread⟩ :=
      (hsent f (by simp)).close hclose
    obtain ⟨l, hl⟩ : ∃ l, l = (if callbacks.onOpen then [Event.onOpen] else []) ++
      got'.flatMap (heardOf callbacks) ++ [.frame 136 f.payload] := ⟨_, rfl⟩
    have hlast : heard log =
        l ++ if callbacks.onClose then [.onClose status' reason'] else [] := by
      rw [hheard, List.flatMap_append, List.flatMap_singleton, heardOf, if_pos hclose, hread, hclose,
        hl]
      simp
    have hbefore : ∀ e ∈ l, e.isOnClose = false := by
      intro e he
      rw [hl] at he
      rcases List.mem_append.1 he with he | he
      · exact not_isOnClose callbacks hgot e he
      · rw [List.mem_singleton.1 he]
        rfl
    have hfilter : l.filter Event.isOnClose = [] := by
      rw [List.filter_eq_nil_iff]
      intro e he
      rw [hbefore e he]
      exact Bool.false_ne_true
    have honce : log.filter Event.isOnClose =
        if callbacks.onClose then [.onClose status' reason'] else [] := by
      rw [← filter_isOnClose_heard, hlast, List.filter_append, hfilter]
      cases callbacks.onClose <;> rfl
    cases hset : callbacks.onClose with
    | false =>
        rw [hset] at honce
        exact .of_filter_eq_nil honce _ _
    | true =>
        rw [hset, if_pos rfl] at honce hlast
        refine ⟨by simp [honce], ?_⟩
        rintro pre status reason post rfl
        have hsplit : heard pre ++ .onClose status reason :: heard post =
            l ++ [.onClose status' reason'] := by
          rw [← hlast, heard_append]
          rfl
        obtain ⟨hpre, hcall, hpost⟩ := eq_last hsplit hbefore rfl
        obtain ⟨rfl, rfl⟩ : status = status' ∧ reason = reason' := by simpa using hcall
        refine ⟨⟨hstatus, hstatus'⟩, ⟨got'.map Frame.content, todo.map Frame.content, ?_, ?_, ?_⟩,
          ?_, ?_⟩
        · simp [Frame.content, hclose, hpayload]
        · intro m hm
          obtain ⟨g, hg, rfl⟩ := List.mem_map.1 hm
          rcases (hsent g (by simp [hg])).kind with h | ⟨h, -⟩
          · exact h
          · exact absurd h (hgot g hg)
        · rw [← filterMap_heard (fun _ => rfl), hpre, hl, List.filterMap_append,
            message_heardOf callbacks hgot]
          simp [Event.message?]
        · rw [← filterMap_heard (fun _ => rfl), hpost]
          rfl
        · rw [← filterMap_heard (fun _ => rfl), hpost]
          rfl

/-- A list of frames of which at most one closes. -/
theorem Sent.length_close_le {encode : Frame → Bytes} {closed : Bool} {log : List Event}
    {sent : List Frame} (h : Sent encode closed log sent) :
    (sent.filter fun f => f.finRsvOpcode = 136).length ≤ 1 := by
  rw [h.once]
  cases closed <;> simp

/-- What the client has sent, and what it may rely on. -/
theorem System.Linked.clientLog {endpoint callbacks : Callbacks} {s : System}
    {fromServer fromClient : List Frame}
    (h : System.Linked endpoint callbacks s fromServer fromClient) :
    ∃ closed, Sent Frame.maskedBytes closed s.clientLog fromClient ∧
      Orderly callbacks.onMessage (fromServer.map Frame.content) s.clientLog := by
  obtain ⟨server, client, toServer, toClient⟩ := s
  have hserver := h.server
  cases h.client with
  | absent => exact ⟨false, ⟨rfl, by simp, rfl⟩, .of_filter_eq_nil rfl _ _⟩
  | present hown hlistens => exact ⟨_, hown, hlistens.orderly hserver.sendable⟩

/-- **The closing handshake.**  For every interleaving of sends, calls of `send_close` and reads, on
either side, with the default limit for the size of a message: each side sends at most one close
frame; and each side calls `on_close` at most once, with what the close frame of the other side says,
after everything that the other side has sent before it, and before nothing else. -/
theorem closing_handshake {endpoint callbacks : Callbacks} {sconfig : Server.Config}
    {cconfig : Client.Config} (hs : sconfig.maxMessageSize = sizeMax)
    (hc : cconfig.maxMessageSize = sizeMax) {s : System}
    (h : s.Reachable endpoint callbacks sconfig cconfig) :
    ∃ (fromServer : List (UInt8 × Bytes)) (fromClient : List (Mask × UInt8 × Bytes)),
      enqueued s.server.log = fromServer.map (fun f => Server.outData f.2 f.1) ∧
      enqueued s.clientLog = fromClient.map (fun f => Client.outData f.1 f.2.2 f.2.1) ∧
      (fromServer.filter fun f => f.1 = 136).length ≤ 1 ∧
      (fromClient.filter fun f => f.2.1 = 136).length ≤ 1 ∧
      Orderly endpoint.onMessage (fromClient.map Prod.snd) s.server.log ∧
      Orderly callbacks.onMessage fromServer s.clientLog := by
  obtain ⟨fromServer, fromClient, hlinked⟩ := h.inv hs hc
  have hserver := hlinked.server
  obtain ⟨closed, hclient, hheard⟩ := hlinked.clientLog
  have hcontent : (fromClient.map fun f => (f.mask, f.content)).map Prod.snd =
      fromClient.map Frame.content := by
    rw [List.map_map]
    rfl
  refine ⟨fromServer.map Frame.content, fromClient.map fun f => (f.mask, f.content), ?_, ?_, ?_,
    ?_, ?_, hheard⟩
  · rw [hserver.out, List.map_map]
    exact List.map_congr_left fun f hf => (hserver.sendable f hf).shortest.unmasked.symm
  · rw [hclient.out, List.map_map]
    exact List.map_congr_left fun f hf => (hclient.sendable f hf).shortest.masked.symm
  · have hle := hserver.length_close_le
    rw [List.filter_map, List.length_map]
    exact hle
  · have hle := hclient.length_close_le
    rw [List.filter_map, List.length_map]
    exact hle
  · rw [hcontent]
    exact hlinked.heard.orderly hclient.sendable

/-- The server sends a message and closes; the client is opened when the first two bytes of the
message have been read, reads the message and the close frame and answers it; and the server reads
the answer. -/
def farewell : System :=
  [System.Act.serverSend (ascii "hi") 129, .serverClose 1000 (ascii "bye"),
    .clientOpens (fun _ _ => 7) 2, .clientReads, .clientReads, .clientReads, .clientReads,
    .serverReads, .serverReads].foldl (System.act {} {} {} {}) { server := Server.opened {} [] }

theorem closing_handshake_farewell :
    ∃ (fromServer : List (UInt8 × Bytes)) (fromClient : List (Mask × UInt8 × Bytes)),
      enqueued farewell.server.log = fromServer.map (fun f => Server.outData f.2 f.1) ∧
      enqueued farewell.clientLog = fromClient.map (fun f => Client.outData f.1 f.2.2 f.2.1) ∧
      (fromServer.filter fun f => f.1 = 136).length ≤ 1 ∧
      (fromClient.filter fun f => f.2.1 = 136).length ≤ 1 ∧
      Orderly true (fromClient.map Prod.snd) farewell.server.log ∧
      Orderly true fromServer farewell.clientLog := by
  have hstep : ∀ {s : System}, s.Reachable {} {} {} {} → ∀ a, s.Allowed a →
      (System.act {} {} {} {} s a).Reachable {} {} {} {} :=
    fun hs _ ha => Machine.Reach.step hs ha
  have hmessage : IsMessage 129 := ⟨rfl, Or.inl rfl⟩
  have h₁ := hstep (Machine.Reach.init rfl) (.serverSend (ascii "hi") 129)
    ⟨hmessage, by rw [maxSize]; decide⟩
  have h₂ := hstep h₁ (.serverClose 1000 (ascii "bye"))
    ⟨by decide, by decide, by rw [maxSize]; decide⟩
  have h₃ := hstep h₂ (.clientOpens (fun _ _ => 7) 2) ⟨rfl, by decide⟩
  have h₄ := hstep (hstep (hstep (hstep h₃ .clientReads trivial) .clientReads trivial)
    .clientReads trivial) .clientReads trivial
  have h₅ := hstep (hstep h₄ .serverReads trivial) .serverReads trivial
  exact closing_handshake rfl rfl h₅

end SimpleWeb
