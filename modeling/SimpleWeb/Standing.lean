/-
**What a connection calls, and with what it ends.**

A handler of a connection may call callbacks and go on, or it ends the connection, which is an error,
a close, or, for a message that is too big, both.  When every step of a machine does one of these,
every run has at most one end, and nothing behind it; and a set in which the connection is put when
it is opened, and from which it is taken when it ends, has it exactly in between.

Main definitions:

* `SimpleWeb.callsOf`, `SimpleWeb.Callbacks.isSet` — the callbacks called, and those that are set;
* `SimpleWeb.OneTerminal` — the calls of a connection, with its end;
* `SimpleWeb.Standing`, `SimpleWeb.Handled`, `SimpleWeb.Turn` — what a step does to the calls.

Main results:

* `SimpleWeb.Turn.sound` — the step lemma;
* `SimpleWeb.run_oneTerminal`, `SimpleWeb.run_member` — **the run lemmas**, for any machine.
-/

import SimpleWeb.Machine
import SimpleWeb.Message

set_option relaxedAutoImplicit false
set_option autoImplicit false

namespace SimpleWeb

/-! ### Calls -/

/-- The callbacks; what is put on the send queue, and what is decoded, is none. -/
def Event.IsCall : Event → Prop
  | .enqueue _ => False
  | .frame _ _ => False
  | _ => True

instance (e : Event) : Decidable e.IsCall := by
  cases e <;> unfold Event.IsCall <;> infer_instance

/-- The calls that an open connection makes. -/
def Event.Ordinary : Event → Prop
  | .onMessage _ => True
  | .onPing => True
  | .onPong => True
  | _ => False

/-- Whether the callback of a call is set. -/
def Callbacks.isSet (callbacks : Callbacks) : Event → Bool
  | .onOpen => callbacks.onOpen
  | .onMessage _ => callbacks.onMessage
  | .onClose _ _ => callbacks.onClose
  | .onError _ => callbacks.onError
  | .onPing => callbacks.onPing
  | .onPong => callbacks.onPong
  | .enqueue _ => true
  | .frame _ _ => true

/-- The callbacks called, in order. -/
def callsOf (log : List Event) : List Event := log.filter Event.IsCall

@[simp] theorem callsOf_append (log log' : List Event) :
    callsOf (log ++ log') = callsOf log ++ callsOf log' :=
  List.filter_append ..

@[simp] theorem callsOf_nil : callsOf [] = [] := rfl

@[simp] theorem callsOf_enqueue (outData : Bytes) : callsOf [.enqueue outData] = [] := rfl

@[simp] theorem callsOf_frame (b : UInt8) (payload : Bytes) : callsOf [.frame b payload] = [] := rfl

/-- A callback is called if it is set. -/
theorem callsOf_call {callbacks : Callbacks} {e : Event} (he : e.IsCall) :
    callsOf (if callbacks.isSet e then [e] else []) = [e].filter callbacks.isSet := by
  cases hset : callbacks.isSet e with
  | true => simp [callsOf, he, hset]
  | false => simp [callsOf, hset]

/-- The calls that end a connection; `big` is whether a message that was too big has ended it. -/
inductive Terminal (big : Prop) : List Event → Prop
  | close (status : ℤ) (reason : Bytes) : Terminal big [.onClose status reason]
  | error (ec : ErrorCode) : Terminal big [.onError ec]
  | tooBig (h : big) :
      Terminal big [.onError .messageSize, .onClose 1009 (ascii "message too big")]

/-- At most one call ends the connection, unless it was ended by a message that was too big, and
nothing is called behind. -/
def OneTerminal (big : Prop) (calls : List Event) : Prop :=
  ∃ before after, calls = before ++ after ∧ (∀ e ∈ before, e.terminal? = none) ∧
    (after = [] ∨ Terminal big after)

theorem Terminal.mono {big big' : Prop} (h : big → big') {es : List Event} (hes : Terminal big es) :
    Terminal big' es := by
  cases hes with
  | close status reason => exact .close status reason
  | error ec => exact .error ec
  | tooBig hbig => exact .tooBig (h hbig)

/-- Of the calls that end a connection, those of the callbacks that are set. -/
theorem Terminal.filter {big : Prop} {es : List Event} (h : Terminal big es)
    (callbacks : Callbacks) :
    es.filter callbacks.isSet = [] ∨ Terminal big (es.filter callbacks.isSet) := by
  cases h with
  | close status reason =>
      cases hset : callbacks.onClose with
      | true => exact Or.inr (by simpa [Callbacks.isSet, hset] using Terminal.close status reason)
      | false => exact Or.inl (by simp [Callbacks.isSet, hset])
  | error ec =>
      cases hset : callbacks.onError with
      | true => exact Or.inr (by simpa [Callbacks.isSet, hset] using Terminal.error ec)
      | false => exact Or.inl (by simp [Callbacks.isSet, hset])
  | tooBig hbig =>
      cases herror : callbacks.onError with
      | true =>
          cases hclose : callbacks.onClose with
          | true =>
              refine Or.inr ?_
              simpa [Callbacks.isSet, herror, hclose] using Terminal.tooBig hbig
          | false =>
              refine Or.inr ?_
              simpa [Callbacks.isSet, herror, hclose] using Terminal.error .messageSize
      | false =>
          cases hclose : callbacks.onClose with
          | true =>
              refine Or.inr ?_
              simpa [Callbacks.isSet, herror, hclose] using Terminal.close 1009 _
          | false => exact Or.inl (by simp [Callbacks.isSet, herror, hclose])

/-- A connection that has ended has called something that ends it. -/
theorem Terminal.exists_mem {big : Prop} {es : List Event} (h : Terminal big es) :
    ∃ e ∈ es, e.terminal? ≠ none := by
  cases h with
  | close status reason => exact ⟨_, List.mem_cons_self .., nofun⟩
  | error ec => exact ⟨_, List.mem_cons_self .., nofun⟩
  | tooBig => exact ⟨_, List.mem_cons_self .., nofun⟩

/-! ### What a handler does to the calls -/

/-- A connection as far as its callbacks go: whether a read is outstanding, whether it is in the set
of connections, and what it has called. -/
structure Standing where
  reading : Bool
  member : Bool
  calls : List Event

/-- What a handler of the read loop does: it goes on, or it ends the connection. -/
inductive Handled (callbacks : Callbacks) (big : Prop) (member : Bool) (calls : List Event) :
    Standing → Prop
  | goesOn (reading : Bool) {es : List Event} (h : ∀ e ∈ es, e.Ordinary) :
      Handled callbacks big member calls ⟨reading, member, calls ++ es⟩
  | ends {es : List Event} (h : Terminal big es) :
      Handled callbacks big member calls ⟨false, false, calls ++ es.filter callbacks.isSet⟩

theorem Handled.mono {callbacks : Callbacks} {big big' : Prop} (hbig : big → big') {member : Bool}
    {calls : List Event} {s : Standing} (h : Handled callbacks big member calls s) :
    Handled callbacks big' member calls s := by
  cases h with
  | goesOn reading hes => exact .goesOn reading hes
  | ends hes => exact .ends (hes.mono hbig)

/-- What can happen to a connection: nothing to its calls; a handler of the read loop, if a read is
outstanding; or the end of the handshake, which opens the connection, and puts it into the set if
there is one, or fails. -/
inductive Turn (callbacks : Callbacks) (keeps : Bool) (big : Prop) (s : Standing) : Standing → Prop
  | idle : Turn callbacks keeps big s s
  | handled {s' : Standing} (hreading : s.reading = true) (h : Handled callbacks big s.member s.calls s') :
      Turn callbacks keeps big s s'
  | opens (hs : s = ⟨false, false, []⟩) :
      Turn callbacks keeps big s ⟨true, keeps, [.onOpen].filter callbacks.isSet⟩
  | fails {ec : ErrorCode} (hs : s = ⟨false, false, []⟩) :
      Turn callbacks keeps big s ⟨false, false, [.onError ec].filter callbacks.isSet⟩

theorem Turn.mono {callbacks : Callbacks} {keeps : Bool} {big big' : Prop} (hbig : big → big')
    {s s' : Standing} (h : Turn callbacks keeps big s s') : Turn callbacks keeps big' s s' := by
  cases h with
  | idle => exact .idle
  | handled hreading h => exact .handled hreading (h.mono hbig)
  | opens hs => exact .opens hs
  | fails hs => exact .fails hs

/-- The calls made so far, when a connection with an outstanding read has not ended. -/
def Standing.Sound (big : Prop) (s : Standing) : Prop :=
  OneTerminal big s.calls ∧ (s.reading = true → ∀ e ∈ s.calls, e.terminal? = none)

theorem Standing.Sound.mono {big big' : Prop} (h : big → big') {s : Standing} (hs : s.Sound big) :
    s.Sound big' := by
  obtain ⟨⟨before, after, hcalls, hbefore, hafter⟩, hreading⟩ := hs
  exact ⟨⟨before, after, hcalls, hbefore, hafter.imp_right (Terminal.mono h)⟩, hreading⟩

theorem Event.Ordinary.terminal {e : Event} (h : e.Ordinary) : e.terminal? = none := by
  cases e <;> first | rfl | exact h.elim

theorem Event.Ordinary.ne_onOpen {e : Event} (h : e.Ordinary) : e ≠ .onOpen := by
  rintro rfl
  exact h

/-- Nothing in front of the end ends the connection. -/
theorem OneTerminal.of_end {big : Prop} {before es : List Event}
    (hbefore : ∀ e ∈ before, e.terminal? = none) (h : Terminal big es) (callbacks : Callbacks) :
    OneTerminal big (before ++ es.filter callbacks.isSet) :=
  ⟨before, _, rfl, hbefore, h.filter callbacks⟩

theorem OneTerminal.of_none {big : Prop} {calls : List Event}
    (h : ∀ e ∈ calls, e.terminal? = none) : OneTerminal big calls :=
  ⟨calls, [], (List.append_nil _).symm, h, Or.inl rfl⟩

/-- **The step lemma.** -/
theorem Turn.sound {callbacks : Callbacks} {keeps : Bool} {big : Prop} {s s' : Standing}
    (h : Turn callbacks keeps big s s') (hs : s.Sound big) : s'.Sound big := by
  cases h with
  | idle => exact hs
  | handled hreading h =>
      have hcalls := hs.2 hreading
      cases h with
      | @goesOn reading es hes =>
          have hall : ∀ e ∈ s.calls ++ es, e.terminal? = none := by
            intro e he
            rcases List.mem_append.1 he with he | he
            · exact hcalls e he
            · exact (hes e he).terminal
          exact ⟨OneTerminal.of_none hall, fun _ => hall⟩
      | ends hes => exact ⟨OneTerminal.of_end hcalls hes _, nofun⟩
  | opens =>
      have hall : ∀ e ∈ [Event.onOpen].filter callbacks.isSet, e.terminal? = none := by
        intro e he
        rw [List.mem_singleton.1 (List.mem_of_mem_filter he)]
        rfl
      exact ⟨OneTerminal.of_none hall, fun _ => hall⟩
  | @fails ec =>
      exact ⟨@OneTerminal.of_end big [] _ (by simp) (Terminal.error ec) callbacks, nofun⟩

/-- Calls are only added. -/
theorem Turn.calls_stay {callbacks : Callbacks} {keeps : Bool} {big : Prop} {s s' : Standing}
    (h : Turn callbacks keeps big s s') : s.calls <+: s'.calls := by
  cases h with
  | idle => exact List.prefix_rfl
  | handled hreading h =>
      cases h with
      | goesOn reading hes => exact List.prefix_append _ _
      | ends hes => exact List.prefix_append _ _
  | opens hs =>
      rw [hs]
      exact List.nil_prefix
  | fails hs =>
      rw [hs]
      exact List.nil_prefix

/-! ### Runs -/

section run

variable {σ α : Type*} {act : σ → α → σ} {standing : σ → Standing} {keeps : Bool}
  {big : σ → α → Prop} {s : σ}

/-- A message that was too big has come up in the run. -/
def CameUp (act : σ → α → σ) (big : σ → α → Prop) (s : σ) (acts : List α) : Prop :=
  ∃ pre a post, acts = pre ++ a :: post ∧ big (pre.foldl act s) a

/-- `stop` has been called while the connection was open. -/
def Stopped (act : σ → α → σ) (standing : σ → Standing) (stop : α) (s : σ) (acts : List α) :
    Prop :=
  ∃ pre post, acts = pre ++ stop :: post ∧ .onOpen ∈ (standing (pre.foldl act s)).calls

theorem CameUp.append {acts : List α} (h : CameUp act big s acts) (a : α) :
    CameUp act big s (acts ++ [a]) := by
  obtain ⟨pre, b, post, rfl, hbig⟩ := h
  exact ⟨pre, b, post ++ [a], by simp, hbig⟩

variable
  (hstep : ∀ s a, (∃ callbacks, Turn callbacks keeps (big s a) (standing s) (standing (act s a))) ∨
    standing (act s a) = { standing s with member := false })

include hstep

/-- **The calls of a run**, when each step does what `Turn` says. -/
theorem run_sound (hs : standing s = ⟨false, false, []⟩) (acts : List α) :
    (standing (acts.foldl act s)).Sound (CameUp act big s acts) := by
  induction acts using List.reverseRecOn with
  | nil =>
      rw [List.foldl_nil, hs]
      exact ⟨OneTerminal.of_none (by simp), nofun⟩
  | append_singleton acts a ih =>
      rw [List.foldl_append, List.foldl_cons, List.foldl_nil]
      have hprev := ih.mono fun h => h.append a
      rcases hstep (acts.foldl act s) a with ⟨callbacks, hturn⟩ | hstop
      · have hbig : big (acts.foldl act s) a → CameUp act big s (acts ++ [a]) :=
          fun h => ⟨acts, a, [], rfl, h⟩
        exact (hturn.mono hbig).sound hprev
      · rw [hstop]
        exact hprev

theorem run_oneTerminal (hs : standing s = ⟨false, false, []⟩) (acts : List α) :
    OneTerminal (CameUp act big s acts) (standing (acts.foldl act s)).calls :=
  (run_sound hstep hs acts).1

/-- What has been called stays called. -/
theorem run_calls_stay (pre post : List α) :
    (standing (pre.foldl act s)).calls <+: (standing ((pre ++ post).foldl act s)).calls := by
  induction post using List.reverseRecOn with
  | nil => rw [List.append_nil]
  | append_singleton post a ih =>
      rw [← List.append_assoc, List.foldl_append, List.foldl_cons, List.foldl_nil]
      refine ih.trans ?_
      rcases hstep ((pre ++ post).foldl act s) a with ⟨callbacks, hturn⟩ | hstop
      · exact hturn.calls_stay
      · rw [hstop]

end run

theorem isSet_default (e : Event) : ({} : Callbacks).isSet e = true := by
  cases e <;> rfl

theorem filter_isSet_default (es : List Event) : es.filter ({} : Callbacks).isSet = es :=
  List.filter_eq_self.2 fun e _ => isSet_default e

section member

variable {σ α : Type*} {act : σ → α → σ} {standing : σ → Standing} {big : σ → α → Prop} {stop : α}
  {s : σ}

theorem stopped_append (acts : List α) (a : α) :
    Stopped act standing stop s (acts ++ [a]) ↔ Stopped act standing stop s acts ∨
      a = stop ∧ .onOpen ∈ (standing (acts.foldl act s)).calls := by
  constructor
  · rintro ⟨pre, post, hacts, hopen⟩
    rcases Machine.append_singleton_eq_iff.1 hacts with ⟨-, rfl, rfl⟩ | ⟨post, -, rfl⟩
    · exact Or.inr ⟨rfl, hopen⟩
    · exact Or.inl ⟨pre, post, rfl, hopen⟩
  · rintro (⟨pre, post, rfl, hopen⟩ | ⟨rfl, hopen⟩)
    · exact ⟨pre, post ++ [a], by simp, hopen⟩
    · exact ⟨acts, [], rfl, hopen⟩

/-- The connection has been opened and has not ended. -/
def IsOpen (calls : List Event) : Prop := .onOpen ∈ calls ∧ ∀ e ∈ calls, e.terminal? = none

theorem isOpen_ordinary {calls es : List Event} (h : ∀ e ∈ es, e.Ordinary) :
    IsOpen (calls ++ es) ↔ IsOpen calls := by
  constructor
  · rintro ⟨hopen, hcalls⟩
    refine ⟨?_, fun e he => hcalls e (List.mem_append_left _ he)⟩
    rcases List.mem_append.1 hopen with hopen | hopen
    · exact hopen
    · exact absurd rfl (h _ hopen).ne_onOpen
  · rintro ⟨hopen, hcalls⟩
    refine ⟨List.mem_append_left _ hopen, ?_⟩
    intro e he
    rcases List.mem_append.1 he with he | he
    · exact hcalls e he
    · exact (h e he).terminal

theorem not_isOpen_terminal {calls es : List Event} {big : Prop} (h : Terminal big es) :
    ¬ IsOpen (calls ++ es) := by
  rintro ⟨-, hcalls⟩
  obtain ⟨e, he, hterminal⟩ := h.exists_mem
  exact hterminal (hcalls e (List.mem_append_right _ he))

variable {callbacks : σ → Callbacks}
  (hstep : ∀ s a, a ≠ stop → Turn (callbacks s) true (big s a) (standing s) (standing (act s a)))
  (hstop : ∀ s, standing (act s stop) = { standing s with member := false })
  (hs : standing s = ⟨false, false, []⟩)

include hstep hstop hs

/-- **Which connections are in the set**, when every callback is set: those that have been opened,
and have neither ended nor been stopped since. -/
theorem run_member (acts : List α) (hset : ∀ acts : List α, callbacks (acts.foldl act s) = {}) :
    (standing (acts.foldl act s)).member = true ↔
      IsOpen (standing (acts.foldl act s)).calls ∧ ¬ Stopped act standing stop s acts := by
  induction acts using List.reverseRecOn with
  | nil => simp [hs, IsOpen]
  | append_singleton acts a ih =>
      rw [stopped_append, List.foldl_append, List.foldl_cons, List.foldl_nil]
      by_cases ha : a = stop
      · rw [ha, hstop]
        refine iff_of_false nofun ?_
        rintro ⟨hopen, hstopped⟩
        exact hstopped (Or.inr ⟨rfl, hopen.1⟩)
      · rw [or_iff_left fun h => ha h.1]
        have hturn := hstep (acts.foldl act s) a ha
        rw [hset acts] at hturn
        have hstay := @run_calls_stay _ _ act standing true big s fun s a =>
          (eq_or_ne a stop).symm.imp (fun h => ⟨_, hstep s a h⟩) fun h => by rw [h, hstop]
        revert hturn ih
        generalize standing (act (acts.foldl act s) a) = t'
        intro ih hturn
        cases hturn with
        | idle => exact ih
        | handled hreading h =>
            cases h with
            | goesOn reading hes =>
                rw [isOpen_ordinary hes]
                exact ih
            | ends hes =>
                rw [filter_isSet_default]
                exact iff_of_false nofun fun h => not_isOpen_terminal hes h.1
        | opens ht =>
            have hnew : ¬ Stopped act standing stop s acts := by
              rintro ⟨pre, post, rfl, hopen⟩
              have hmem := (hstay pre (stop :: post)).subset hopen
              rw [ht] at hmem
              exact absurd hmem List.not_mem_nil
            rw [filter_isSet_default]
            exact iff_of_true rfl ⟨⟨List.mem_cons_self .., by simp [Event.terminal?]⟩, hnew⟩
        | @fails ec ht =>
            rw [filter_isSet_default]
            have hend : Terminal False [.onError ec] := .error ec
            exact iff_of_false nofun fun h => @not_isOpen_terminal [] _ _ hend h.1

end member

end SimpleWeb
