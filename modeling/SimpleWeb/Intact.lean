/-
**Messages and the frames they are made of.**

A peer may send frames in any order.  This module says which orders the two reassemblers take apart
correctly: a frame is *orderly* when what the endpoint does with it is right for the fragments that
are pending.  As long as every frame decoded is orderly, every message delivered is a segment of the
frames decoded before it.

The two endpoints differ.  The server goes by FIN and the opcode, so that a final text or binary
frame is never put behind pending fragments; but a ping or pong without FIN is.  The client handles
pings and pongs first, but puts every other frame behind the pending fragments, whatever its opcode.

Main definitions:

* `SimpleWeb.Intact` — every message delivered is a segment of the frames decoded before it;
* `SimpleWeb.EndsOpen` — the frames decoded end in a message that is not complete;
* `SimpleWeb.Server.Orderly`, `SimpleWeb.Client.Orderly` — the frames each endpoint expects.

Main results:

* `SimpleWeb.Server.pending_iff`, `SimpleWeb.Client.pending_iff` — fragments are pending exactly when
  the frames decoded end in a message that is not complete;
* `SimpleWeb.messages_intact` — **messages are not mixed** in runs whose frames are orderly;
* `SimpleWeb.messages_mixed` — what becomes of some other frames.
-/

import SimpleWeb.Frame
import SimpleWeb.Steps

set_option relaxedAutoImplicit false
set_option autoImplicit false

namespace SimpleWeb

/-! ### Intact logs -/

/-- The frames in a log. -/
def decoded (log : List Event) : List (UInt8 × Bytes) := log.filterMap Event.frame?

@[simp] theorem decoded_append (log log' : List Event) :
    decoded (log ++ log') = decoded log ++ decoded log' :=
  List.filterMap_append

@[simp] theorem decoded_frame (b : UInt8) (p : Bytes) : decoded [.frame b p] = [(b, p)] := rfl

theorem decoded_silent {es : List Event} (h : ∀ e ∈ es, e.Silent) : decoded es = [] := by
  unfold decoded
  rw [List.filterMap_eq_nil_iff]
  intro e he
  exact (h e he).2

/-- The latest frames of the log are the message `q`. -/
def Carries (log : List Event) (q : Bytes) : Prop :=
  ∃ seg, seg <:+ decoded log ∧ messageOf seg = some q

/-- The latest frames of the log are the beginning `q` of a message. -/
def CarriesOpen (log : List Event) (q : Bytes) : Prop :=
  ∃ seg, seg <:+ decoded log ∧ OpenSegment seg q

/-- **Every message delivered is a segment of the frames decoded before it**, the latest of them
being its last. -/
def Intact (log : List Event) : Prop :=
  ∀ pre m, pre ++ [.onMessage m] <+: log → Carries pre m.string

/-- Another frame is decoded. -/
theorem suffix_frame {log : List Event} {seg : List (UInt8 × Bytes)} (h : seg <:+ decoded log)
    (b : UInt8) (p : Bytes) : seg ++ [(b, p)] <:+ decoded (log ++ [.frame b p]) := by
  obtain ⟨fs, hfs⟩ := h
  exact ⟨fs, by rw [decoded_append, decoded_frame, ← hfs, List.append_assoc]⟩

theorem Carries.single {b : UInt8} (hb : opcode b = 1 ∨ opcode b = 2) (hfin : fin b = true)
    (log : List Event) (p : Bytes) : Carries (log ++ [.frame b p]) p :=
  ⟨[(b, p)], by simp, messageOf_single hb hfin p⟩

namespace CarriesOpen

variable {log log' : List Event} {q : Bytes} {b : UInt8}

theorem start (hb : opcode b = 1 ∨ opcode b = 2) (hfin : fin b = false) (log : List Event)
    (p : Bytes) : CarriesOpen (log ++ [.frame b p]) p :=
  ⟨[(b, p)], by simp, OpenSegment.start hb hfin p⟩

theorem control (h : CarriesOpen log q) (hb : IsControl b) (p : Bytes) :
    CarriesOpen (log ++ [.frame b p]) q := by
  obtain ⟨seg, hseg, hopen⟩ := h
  exact ⟨_, suffix_frame hseg b p, hopen.control hb p⟩

theorem continuation (h : CarriesOpen log q) (hb : opcode b = 0) (hfin : fin b = false)
    (p : Bytes) : CarriesOpen (log ++ [.frame b p]) (q ++ p) := by
  obtain ⟨seg, hseg, hopen⟩ := h
  exact ⟨_, suffix_frame hseg b p, hopen.continuation hb hfin p⟩

theorem finish (h : CarriesOpen log q) (hb : opcode b = 0) (hfin : fin b = true) (p : Bytes) :
    Carries (log ++ [.frame b p]) (q ++ p) := by
  obtain ⟨seg, hseg, hopen⟩ := h
  exact ⟨_, suffix_frame hseg b p, hopen.finish hb hfin p⟩

theorem quietly (h : CarriesOpen log q) (hq : Quietly log log') : CarriesOpen log' q := by
  obtain ⟨es, rfl, hes⟩ := hq
  obtain ⟨seg, hseg, hopen⟩ := h
  refine ⟨seg, ?_, hopen⟩
  rwa [decoded_append, decoded_silent hes, List.append_nil]

end CarriesOpen

namespace Intact

variable {log log' : List Event}

theorem nil : Intact [] := by
  intro pre m hpre
  have := hpre.length_le
  simp at this

/-- An event that is not a message. -/
theorem event (h : Intact log) {e : Event} (he : e.message? = none) : Intact (log ++ [e]) := by
  intro pre m hpre
  rcases List.prefix_concat_iff.1 hpre with heq | hpre
  · obtain ⟨-, hlast⟩ := List.append_inj' heq rfl
    obtain rfl : .onMessage m = e := by simpa using hlast
    cases he
  · exact h pre m hpre

theorem quietly (h : Intact log) (hq : Quietly log log') : Intact log' := by
  obtain ⟨es, rfl, hes⟩ := hq
  induction es using List.reverseRecOn with
  | nil => simpa using h
  | append_singleton es e ih =>
      have hinit : ∀ e' ∈ es, e'.Silent := by
        intro e' he'
        exact hes e' (List.mem_append_left _ he')
      have hlast : e.Silent := hes e (by simp)
      rw [← List.append_assoc]
      exact (ih hinit).event hlast.1

/-- A message is delivered, if the callback is set. -/
theorem deliver (h : Intact log) {m : InMessage} (hm : Carries log m.string) (set : Bool) :
    Intact (log ++ if set then [.onMessage m] else []) := by
  cases set with
  | false => simpa using h
  | true =>
      intro pre m' hpre
      rcases List.prefix_concat_iff.1 hpre with heq | hpre
      · obtain ⟨rfl, hlast⟩ := List.append_inj' heq rfl
        obtain rfl : m' = m := by simpa using hlast
        exact hm
      · exact h pre m' hpre

end Intact

/-- The last of the frames that is no control frame is not the last one of its message. -/
def EndsOpen (frames : List (UInt8 × Bytes)) : Prop :=
  ∃ f, (frames.filter fun f => ¬ IsControl f.1).getLast? = some f ∧ fin f.1 = false

theorem not_endsOpen_nil : ¬ EndsOpen [] := by
  rintro ⟨f, hf, -⟩
  cases hf

theorem endsOpen_control {b : UInt8} (hb : IsControl b) (frames : List (UInt8 × Bytes)) (p : Bytes) :
    EndsOpen (frames ++ [(b, p)]) ↔ EndsOpen frames := by
  rw [EndsOpen, List.filter_append, List.filter_cons_of_neg (by simpa using hb), List.filter_nil,
    List.append_nil, EndsOpen]

theorem endsOpen_data {b : UInt8} (hb : ¬ IsControl b) (frames : List (UInt8 × Bytes)) (p : Bytes) :
    EndsOpen (frames ++ [(b, p)]) ↔ fin b = false := by
  rw [EndsOpen, List.filter_append, List.filter_cons_of_pos (by simpa using hb), List.filter_nil,
    List.getLast?_append]
  simp

/-- The invariant: the messages delivered are intact, and what is pending is the beginning of a
message; something is pending if and only if the frames end in such a beginning. -/
structure InOrder (log : List Event) (pending : Option InMessage) : Prop where
  intact : Intact log
  endsOpen : pending ≠ none ↔ EndsOpen (decoded log)
  pending : ∀ m, pending = some m → CarriesOpen log m.string

namespace InOrder

variable {log log' : List Event} {pending : Option InMessage}

theorem quietly (h : InOrder log pending) (hq : Quietly log log') : InOrder log' pending := by
  refine ⟨h.intact.quietly hq, ?_, fun m hm => (h.pending m hm).quietly hq⟩
  obtain ⟨es, rfl, hes⟩ := hq
  rw [decoded_append, decoded_silent hes, List.append_nil]
  exact h.endsOpen

theorem control (h : InOrder log pending) {b : UInt8} (hb : IsControl b) (p : Bytes) :
    InOrder (log ++ [.frame b p]) pending := by
  refine ⟨h.intact.event rfl, ?_, fun m hm => (h.pending m hm).control hb p⟩
  rw [decoded_append, decoded_frame, endsOpen_control hb]
  exact h.endsOpen

/-- Another fragment, with which the beginning of a message is pending. -/
theorem fragment (h : Intact log) {b : UInt8} {p : Bytes} {m : InMessage} (hb : ¬ IsControl b)
    (hfin : fin b = false) (hm : CarriesOpen (log ++ [.frame b p]) m.string) :
    InOrder (log ++ [.frame b p]) (some m) := by
  refine ⟨h.event rfl, ?_, ?_⟩
  · rw [decoded_append, decoded_frame, endsOpen_data hb]
    exact iff_of_true (by simp) hfin
  · rintro _ ⟨⟩
    exact hm

/-- The last frame of a message, which is delivered if the callback is set. -/
theorem final (h : Intact log) {b : UInt8} {p : Bytes} {m : InMessage} (hb : ¬ IsControl b)
    (hfin : fin b = true) (hm : Carries (log ++ [.frame b p]) m.string) (set : Bool) :
    InOrder (log ++ [.frame b p] ++ if set then [.onMessage m] else []) none := by
  refine ⟨(h.event rfl).deliver hm set, ?_, by simp⟩
  have hsilent : decoded (if set then [.onMessage m] else []) = [] := by
    split <;> rfl
  rw [decoded_append, hsilent, List.append_nil, decoded_append, decoded_frame, endsOpen_data hb]
  exact iff_of_false (by simp) (by simp [hfin])

/-- Nothing has been decoded. -/
theorem start (h : Quietly [] log) : InOrder log none :=
  InOrder.quietly ⟨Intact.nil, iff_of_false (by simp) not_endsOpen_nil, by simp⟩ h

end InOrder

/-- A frame with opcode 0, 1 or 2. -/
theorem not_isControl {b : UInt8} (hb : opcode b = 0 ∨ opcode b = 1 ∨ opcode b = 2) :
    ¬ IsControl b := by
  rcases hb with hb | hb | hb <;> rw [IsControl, hb] <;> decide

/-! ### The server -/

namespace Server

variable {endpoint : Callbacks} {config : Config}

/-- The frames for which the server does the right thing: close frames, final frames of a known
opcode other than zero, first fragments when none are pending, continuations when some are. -/
def Orderly (pending : Option InMessage) (b : UInt8) : Prop :=
  opcode b = 8 ∨
  (fin b = true ∧ (opcode b = 1 ∨ opcode b = 2 ∨ opcode b = 9 ∨ opcode b = 10)) ∨
  (fin b = false ∧ (opcode b = 1 ∨ opcode b = 2) ∧ pending = none) ∨
  (opcode b = 0 ∧ pending ≠ none)

/-- The step decodes an orderly frame, if any, whose bytes have been asked for in full. -/
def OrderlyStep (c : Conn) : Act → Prop
  | .complete lock k => lock = true → k.ec = none → ∀ length b,
      c.reading = some (.content length b) →
      length.toNat + 4 < 2 ^ 64 ∧ Orderly c.fragmentedInMessage b
  | .send _ _ => True
  | .sendClose _ _ => True

/-- The states of a connection whose frames have all been orderly. -/
def ReachableOrderly (endpoint : Callbacks) (config : Config) : Conn → Prop :=
  Machine.Reach (act endpoint config) (fun c a => Allowed c a ∧ OrderlyStep c a)
    fun c => ∃ streambuf, c = opened endpoint streambuf

/-- The invariant, as long as the connection goes on reading. -/
structure Conn.InOrder (c : Conn) : Prop where
  intact : Intact c.log
  reading : c.reading ≠ none → SimpleWeb.InOrder c.log c.fragmentedInMessage

/-- What is done with an orderly frame keeps the invariant. -/
theorem inOrder_handleFrame {c : Conn} (h : SimpleWeb.InOrder c.log c.fragmentedInMessage)
    (hr : c.reading = none) {b : UInt8} (hb : Orderly c.fragmentedInMessage b) (length : UInt64)
    (payload : Bytes) : (c.handleFrame endpoint length b payload).InOrder := by
  have hframe := h.intact.event (show (Event.frame b payload).message? = none from rfl)
  have hboth : ∀ {c' : Conn}, SimpleWeb.InOrder c'.log c'.fragmentedInMessage → c'.InOrder :=
    fun h => ⟨h.intact, fun _ => h⟩
  rcases @handleFrame_cases endpoint c length b payload with
    ⟨-, hnone, hq⟩ | ⟨hop, hp, hq⟩ | ⟨⟨h8, h9, h10⟩, hfin, hp, hlog⟩ |
    ⟨⟨h8, h9, h10⟩, hfin, hp, hlog⟩
  · exact ⟨hframe.quietly hq, fun hread => absurd (hnone.trans hr) hread⟩
  · have hcontrol : IsControl b := by
      rcases hop with hop | hop <;> rw [IsControl, hop] <;> decide
    have hsingle : isFragment b = false := by
      rcases hop with hop | hop <;> simpa [Orderly, hop, isFragment] using hb
    refine hboth ?_
    rw [hp, hsingle]
    exact (h.control hcontrol payload).quietly hq
  · -- a fragment: the first of a message, or a continuation
    have hfragment : isFragment b = true := by simp [isFragment, hfin]
    refine hboth ?_
    rw [hp, hlog]
    simp only [Orderly, h8, hfin] at hb
    rcases hb with hb | hb | ⟨-, hop, hnone⟩ | ⟨hop, hsome⟩
    · exact hb.elim
    · exact absurd hb.1 (by decide)
    · refine InOrder.fragment h.intact (not_isControl (Or.inr hop)) hfin ?_
      simp only [Conn.inMessage, hfragment, hnone]
      exact CarriesOpen.start hop hfin _ _
    · refine InOrder.fragment h.intact (not_isControl (Or.inl hop)) hfin ?_
      obtain ⟨f, hf⟩ := Option.ne_none_iff_exists'.1 hsome
      simp only [Conn.inMessage, hfragment, hf]
      exact (h.pending f hf).continuation hop hfin _
  · -- a final frame: a message of its own, or the last continuation
    refine hboth ?_
    rw [hp, hlog]
    simp only [Orderly, h8, h9, h10, hfin] at hb
    rcases hb with hb | ⟨-, hop⟩ | hb | ⟨hop, hsome⟩
    · exact hb.elim
    · have hdata : opcode b = 1 ∨ opcode b = 2 := by simpa using hop
      have hsingle : isFragment b = false := by
        rcases hdata with hop | hop <;> simp [isFragment, hfin, hop]
      refine InOrder.final h.intact (not_isControl (Or.inr hdata)) hfin ?_ _
      simp only [Conn.inMessage, hsingle]
      exact Carries.single hdata hfin _ _
    · exact absurd hb.1 (by decide)
    · refine InOrder.final h.intact (not_isControl (Or.inl hop)) hfin ?_ _
      obtain ⟨f, hf⟩ := Option.ne_none_iff_exists'.1 hsome
      have hfragment : isFragment b = true := by simp [isFragment, hop]
      simp only [Conn.inMessage, hfragment, hf]
      exact (h.pending f hf).finish hop hfin _

/-- An orderly step keeps the invariant. -/
theorem inOrder_act {c : Conn} (h : c.InOrder) {a : Act} (ha : Allowed c a)
    (horderly : OrderlyStep c a) : (act endpoint config c a).InOrder := by
  have hquiet : ∀ {c' : Conn}, c.Quiet c' → c'.reading = c.reading → c'.InOrder := by
    intro c' hq hr
    refine ⟨h.intact.quietly hq.2, ?_⟩
    intro hread
    rw [hq.1]
    exact (h.reading (hr ▸ hread)).quietly hq.2
  cases a with
  | send outMessage b => exact hquiet (Conn.quiet_send _ _ _) rfl
  | sendClose status reason =>
      exact hquiet (Conn.quiet_sendClose _ _ _) (Conn.reading_sendClose _ _ _)
  | complete lock k =>
      obtain ⟨op, hr, hk⟩ := ha
      have hin := h.reading (by simp [hr])
      rcases @complete_cases endpoint config c op hr lock k with hq | hframe
      · have hafter := hin.quietly hq.2
        refine ⟨hafter.intact, ?_⟩
        intro _
        change SimpleWeb.InOrder (c.complete endpoint config lock k).log
          (c.complete endpoint config lock k).fragmentedInMessage
        rw [hq.1]
        exact hafter
      · obtain ⟨length, b, payload, streambuf, rfl, rfl, hec, hlen, heq⟩ := hframe
        have hb : Orderly c.fragmentedInMessage b := (horderly rfl hec length b hr).2
        simp only [act, heq]
        exact inOrder_handleFrame (c := { c with reading := none, streambuf := streambuf }) hin rfl
          hb length payload

theorem ReachableOrderly.inOrder {c : Conn} (h : ReachableOrderly endpoint config c) :
    c.InOrder := by
  refine @Machine.Reach.invariant _ _ _ _ _ Conn.InOrder ?_ ?_ c h
  · rintro _ ⟨streambuf, rfl⟩
    have hopen : Quietly [] (opened endpoint streambuf).log := Quietly.call _ _ ⟨rfl, rfl⟩
    have hstart := InOrder.start hopen
    exact ⟨hstart.intact, fun _ => hstart⟩
  · intro s a hs ha
    exact inOrder_act hs ha.1 ha.2

/-- **Fragments are pending exactly when the frames decoded end in a message that is not complete**, so
that it is the frames that say which frame is orderly next. -/
theorem pending_iff {c : Conn} (h : ReachableOrderly endpoint config c) (hr : c.reading ≠ none) :
    c.fragmentedInMessage ≠ none ↔ EndsOpen (decoded c.log) :=
  (h.inOrder.reading hr).endsOpen

end Server

/-! ### The client -/

namespace Client

variable {callbacks : Callbacks} {config : Config}

/-- The frames for which the client does the right thing: close frames, pings and pongs, frames with
opcode 1 or 2 when no fragments are pending, continuations when some are. -/
def Orderly (pending : Option InMessage) (b : UInt8) : Prop :=
  (opcode b = 8 ∨ opcode b = 9 ∨ opcode b = 10) ∨
  ((opcode b = 1 ∨ opcode b = 2) ∧ pending = none) ∨
  (opcode b = 0 ∧ pending ≠ none)

/-- The step decodes an orderly frame, if any. -/
def OrderlyStep (c : Conn) : Act → Prop
  | .complete lock k => lock = true → k.ec = none → ∀ j, c.reading = some (.content j) →
      Orderly c.fragmentedInMessage c.inMessage.finRsvOpcode
  | .send _ _ => True
  | .sendClose _ _ => True

/-- The states of a connection whose frames have all been orderly. -/
def ReachableOrderly (callbacks : Callbacks) (config : Config) : Conn → Prop :=
  Machine.Reach (act callbacks config) (fun c a => Allowed c a ∧ OrderlyStep c a)
    fun c => ∃ rd streambuf, c = opened callbacks rd streambuf streambuf.length

/-- The invariant, as long as the connection goes on reading. -/
structure Conn.InOrder (c : Conn) : Prop where
  intact : Intact c.log
  reading : c.reading ≠ none → SimpleWeb.InOrder c.log c.fragmentedInMessage

/-- What is done with an orderly frame keeps the invariant. -/
theorem inOrder_handleFrame {c : Conn} (h : SimpleWeb.InOrder c.log c.fragmentedInMessage)
    (hr : c.reading = none) (hb : Orderly c.fragmentedInMessage c.inMessage.finRsvOpcode)
    (next : InMessage) (k : ℕ) : (c.handleFrame callbacks next k).InOrder := by
  have hframe := h.intact.event
    (show (Event.frame c.inMessage.finRsvOpcode c.inMessage.streambuf).message? = none from rfl)
  have hboth : ∀ {c' : Conn}, SimpleWeb.InOrder c'.log c'.fragmentedInMessage → c'.InOrder :=
    fun h => ⟨h.intact, fun _ => h⟩
  rcases @handleFrame_cases callbacks c next k with
    ⟨-, hnone, hq⟩ | ⟨hop, -, -, hp, hq⟩ | ⟨⟨h8, h9, h10⟩, hfin, -, -, hp, hlog⟩ |
    ⟨⟨h8, h9, h10⟩, hfin, -, -, hp, hlog⟩
  · exact ⟨hframe.quietly hq, fun hread => absurd (hnone.trans hr) hread⟩
  · have hcontrol : IsControl c.inMessage.finRsvOpcode := by
      rcases hop with hop | hop <;> rw [IsControl, hop] <;> decide
    refine hboth ?_
    rw [hp]
    exact (h.control hcontrol _).quietly hq
  · -- a fragment: the first of a message, or a continuation
    refine hboth ?_
    rw [hp, hlog]
    rcases hb with hb | ⟨hop, hnone⟩ | ⟨hop, hsome⟩
    · exact absurd hb (by simp [h8, h9, h10])
    · refine InOrder.fragment h.intact (not_isControl (Or.inr hop)) hfin ?_
      rw [hnone]
      exact CarriesOpen.start hop hfin _ _
    · refine InOrder.fragment h.intact (not_isControl (Or.inl hop)) hfin ?_
      obtain ⟨f, hf⟩ := Option.ne_none_iff_exists'.1 hsome
      rw [hf]
      exact (h.pending f hf).continuation hop hfin _
  · -- a final frame: a message of its own, or the last continuation
    refine hboth ?_
    rw [hp, hlog]
    rcases hb with hb | ⟨hop, hnone⟩ | ⟨hop, hsome⟩
    · exact absurd hb (by simp [h8, h9, h10])
    · refine InOrder.final h.intact (not_isControl (Or.inr hop)) hfin ?_ _
      rw [hnone]
      exact Carries.single hop hfin _ _
    · refine InOrder.final h.intact (not_isControl (Or.inl hop)) hfin ?_ _
      obtain ⟨f, hf⟩ := Option.ne_none_iff_exists'.1 hsome
      rw [hf]
      exact (h.pending f hf).finish hop hfin _

/-- An orderly step keeps the invariant. -/
theorem inOrder_act {c : Conn} (h : c.InOrder) (hc : c.Counted) {a : Act} (ha : Allowed c a)
    (horderly : OrderlyStep c a) : (act callbacks config c a).InOrder := by
  have hquiet : ∀ {c' : Conn}, c.Quiet c' → c'.reading = c.reading → c'.InOrder := by
    intro c' hq hr
    refine ⟨h.intact.quietly hq.2, ?_⟩
    intro hread
    rw [hq.1]
    exact (h.reading (hr ▸ hread)).quietly hq.2
  cases a with
  | send outMessage b => exact hquiet (Conn.quiet_send _ _ _) rfl
  | sendClose status reason =>
      exact hquiet (Conn.quiet_sendClose _ _ _) (Conn.reading_sendClose _ _ _)
  | complete lock k =>
      obtain ⟨op, hr, hk⟩ := ha
      have hin := h.reading (by simp [hr])
      rcases @complete_cases callbacks config c op k hc hr hk lock with ⟨hq, -⟩ | hframe
      · have hafter := hin.quietly hq.2
        refine ⟨hafter.intact, ?_⟩
        intro _
        change SimpleWeb.InOrder (c.complete callbacks config lock k).log
          (c.complete callbacks config lock k).fragmentedInMessage
        rw [hq.1]
        exact hafter
      · obtain ⟨j, payload, next, k', rfl, rfl, hec, -, -, -, heq⟩ := hframe
        have hb := horderly rfl hec j hr
        simp only [act, heq]
        exact inOrder_handleFrame (c := { c with
          reading := none
          inMessage := { c.inMessage with streambuf := payload } }) hin rfl hb next k'

theorem ReachableOrderly.inOrder {c : Conn} (h : ReachableOrderly callbacks config c) :
    c.InOrder := by
  have hboth : c.InOrder ∧ c.Counted := by
    refine @Machine.Reach.invariant _ _ _ _ _ (fun c => c.InOrder ∧ c.Counted) ?_ ?_ c h
    · rintro _ ⟨rd, streambuf, rfl⟩
      have hopen : Quietly [] (opened callbacks rd streambuf streambuf.length).log :=
        Quietly.call _ _ ⟨rfl, rfl⟩
      have hstart := InOrder.start hopen
      exact ⟨⟨hstart.intact, fun _ => hstart⟩, counted_opened rd streambuf⟩
    · rintro s a ⟨hs, hc⟩ ha
      exact ⟨inOrder_act hs hc ha.1 ha.2, hc.act ha.1⟩
  exact hboth.1

/-- **Fragments are pending exactly when the frames decoded end in a message that is not complete.** -/
theorem pending_iff {c : Conn} (h : ReachableOrderly callbacks config c) (hr : c.reading ≠ none) :
    c.fragmentedInMessage ≠ none ↔ EndsOpen (decoded c.log) :=
  (h.inOrder.reading hr).endsOpen

end Client

/-! ### Both endpoints -/

/-- The log of a run of either endpoint whose frames are all orderly. -/
inductive OrderlyRun (callbacks : Callbacks) : List Event → Prop
  | server {config : Server.Config} {c : Server.Conn} :
      Server.ReachableOrderly callbacks config c → OrderlyRun callbacks c.log
  | client {config : Client.Config} {c : Client.Conn} :
      Client.ReachableOrderly callbacks config c → OrderlyRun callbacks c.log

/-- **Messages are not mixed**: in every run whose frames are orderly, every message delivered is
one first frame with opcode 1 or 2 and its continuation, the latest frames decoded before it. -/
theorem messages_intact {callbacks : Callbacks} {log : List Event}
    (h : OrderlyRun callbacks log) : Intact log := by
  cases h with
  | server hc => exact hc.inOrder.intact
  | client hc => exact hc.inOrder.intact

/-- The text `ab` in two frames, as an orderly client sends it. -/
theorem messages_intact_ab :
    Intact [.onOpen, .frame 0x01 (ascii "a"), .frame 0x80 (ascii "b"),
      .onMessage ⟨0x81, 2, ascii "ab"⟩] := by
  have hopened : Server.ReachableOrderly {} {} (Server.opened {} []) :=
    Machine.Reach.init ⟨[], rfl⟩
  have hread : ∀ {c : Server.Conn}, Server.ReachableOrderly {} {} c → ∀ (data : Bytes)
      {op : Server.ReadOp}, c.reading = some op → data.length = op.size.toNat →
      (∀ length b, op = .content length b → length.toNat + 4 < 2 ^ 64 ∧
        Server.Orderly c.fragmentedInMessage b) →
      Server.ReachableOrderly {} {} (c.complete {} {} true ⟨none, data⟩) := by
    intro c hc data op hr hlen horderly
    have hallowed : Server.Allowed c (.complete true ⟨none, data⟩) :=
      ⟨op, hr, hlen.le, fun _ => hlen⟩
    have hstep : Server.OrderlyStep c (.complete true ⟨none, data⟩) := by
      intro _ _ length b hcontent
      exact horderly length b (Option.some_inj.1 (hr.symm.trans hcontent))
    exact Machine.Reach.step hc ⟨hallowed, hstep⟩
  have h₁ := hread hopened [0x01, 0x81] rfl rfl (fun _ _ h => by cases h)
  have h₂ := hread h₁ [0, 0, 0, 0, 97] rfl rfl (by
    rintro _ _ ⟨⟩
    exact ⟨by decide, Or.inr (Or.inr (Or.inl ⟨rfl, Or.inl rfl, rfl⟩))⟩)
  have h₃ := hread h₂ [0x80, 0x81] rfl rfl (fun _ _ h => by cases h)
  have h₄ := hread h₃ [0, 0, 0, 0, 98] rfl rfl (by
    rintro _ _ ⟨⟩
    exact ⟨by decide, Or.inr (Or.inr (Or.inr ⟨rfl, fun h => by cases h⟩))⟩)
  exact messages_intact (OrderlyRun.server h₄)

/-- A message that no segment of the frames before it makes up. -/
theorem not_intact {log : List Event} (pre : List Event) (m : InMessage)
    (hpre : pre ++ [.onMessage m] <+: log)
    (hno : ∀ seg ∈ (decoded pre).tails, messageOf seg ≠ some m.string) : ¬ Intact log := by
  intro h
  obtain ⟨seg, hseg, hm⟩ := h pre m hpre
  exact hno seg ((List.mem_tails _ _).2 hseg) hm

/-- **Frames out of order.**  A continuation with nothing pending is delivered by both endpoints.
The server puts `b`, another first fragment, behind the pending `a`; the client puts a final text
frame there. -/
theorem messages_mixed :
    (∃ c, Server.Reachable {} {} c ∧ c.log = [.onOpen, .frame 0x80 (ascii "a"),
      .onMessage ⟨0x80, 1, ascii "a"⟩] ∧ ¬ Intact c.log) ∧
    (∃ c, Client.Reachable {} {} c ∧ c.log = [.onOpen, .frame 0x80 (ascii "a"),
      .onMessage ⟨0x80, 1, ascii "a"⟩] ∧ ¬ Intact c.log) ∧
    (∃ c, Server.Reachable {} {} c ∧ c.log = [.onOpen, .frame 0x01 (ascii "a"),
      .frame 0x01 (ascii "b"), .frame 0x80 (ascii "c"), .onMessage ⟨0x81, 3, ascii "abc"⟩] ∧
      ¬ Intact c.log) ∧
    (∃ c, Client.Reachable {} {} c ∧ c.log = [.onOpen, .frame 0x01 (ascii "a"),
      .frame 0x81 (ascii "b"), .onMessage ⟨0x81, 2, ascii "ab"⟩] ∧ ¬ Intact c.log) := by
  have hserver : Server.Reachable {} {} (Server.opened {} []) := Machine.Reach.init ⟨[], rfl⟩
  have hclient : Client.Reachable {} {} (Client.opened {} (fun _ _ => 0) [] 0) :=
    Machine.Reach.init ⟨fun _ _ => 0, [], rfl⟩
  refine ⟨?_, ?_, ?_, ?_⟩
  · refine ⟨_, (hserver.received [0x80, 0x81] rfl rfl).received [0, 0, 0, 0, 97] rfl rfl, rfl, ?_⟩
    exact not_intact [.onOpen, .frame 0x80 (ascii "a")] ⟨0x80, 1, ascii "a"⟩ List.prefix_rfl
      (by decide)
  · refine ⟨_, (hclient.received [0x80, 0x01] rfl rfl).received [97] rfl rfl, rfl, ?_⟩
    exact not_intact [.onOpen, .frame 0x80 (ascii "a")] ⟨0x80, 1, ascii "a"⟩ List.prefix_rfl
      (by decide)
  · refine ⟨_, (((((hserver.received [0x01, 0x81] rfl rfl).received [0, 0, 0, 0, 97] rfl
      rfl).received [0x01, 0x81] rfl rfl).received [0, 0, 0, 0, 98] rfl rfl).received [0x80, 0x81]
      rfl rfl).received [0, 0, 0, 0, 99] rfl rfl, rfl, ?_⟩
    exact not_intact [.onOpen, .frame 0x01 (ascii "a"), .frame 0x01 (ascii "b"),
      .frame 0x80 (ascii "c")] ⟨0x81, 3, ascii "abc"⟩ List.prefix_rfl (by decide)
  · refine ⟨_, (((hclient.received [0x01, 0x01] rfl rfl).received [97] rfl rfl).received
      [0x81, 0x01] rfl rfl).received [98] rfl rfl, rfl, ?_⟩
    exact not_intact [.onOpen, .frame 0x01 (ascii "a"), .frame 0x81 (ascii "b")]
      ⟨0x81, 2, ascii "ab"⟩ List.prefix_rfl (by decide)

end SimpleWeb
