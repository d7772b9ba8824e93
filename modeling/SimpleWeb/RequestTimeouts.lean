/-
**The timeouts of an HTTP connection.**

A connection of `webserver/server_http.hpp` has one timer.  `read` sets it with `timeout_request`; when
the head has been read, its handler sets it with `timeout_content`; and nothing sets it again before
the response has been sent, however many reads the content takes.  So a request whose client is slow is
cut off in the middle of its content, and a response that is slow in the middle of itself.

Main definitions:

* `SimpleWeb.ServerBase.TimedSession` — a session with the timer of its connection.

Main results:

* `SimpleWeb.ServerBase.TimedSession.inv_act` — what one step preserves;
* `SimpleWeb.ServerBase.requests_end` — **a request is answered in time, or cut off**.
-/

import SimpleWeb.Timeouts
import SimpleWeb.TooLarge

set_option relaxedAutoImplicit false
set_option autoImplicit false

namespace SimpleWeb.ServerBase

/-! ### A session with its timer -/

/-- What the timer is set for: the head, and everything behind it up to the end of the response. -/
inductive Phase
  | request
  | content
  deriving DecidableEq, Repr

/-- The default timeouts of `Config`. -/
def timeouts : Timeouts Phase where
  seconds
    | .request => 5
    | .content => 300

/-- A session, the timer of its connection, and whether the socket has been shut down. -/
structure TimedSession where
  session : Session
  watch : Watch Phase := {}
  shut : Bool := false

namespace TimedSession

/-- What can happen: an operation ends; time passes; the timer runs out; its handler is run. -/
inductive Act
  | act (a : ServerBase.Act)
  | tick
  | runOut
  | expired

variable (members : Members) (config : Config) (order : Order) (t : Timeouts Phase)

/-- The calls of a handler.  That of the head sets the timer before anything else; that of the
response cancels it, and `read` sets it if there is to be another request. -/
def callsOfAct (s : Session) : ServerBase.Act → List (Watch.Op Phase)
  | .complete _ _ => if s.reading = some .head then [t.setTimeout .content] else []
  | .responseSent closeConnectionAfterResponse lock ec =>
      if !s.responding || !lock then []
      else
        Timeouts.cancelTimeout ::
          if (s.onResponseSent members order closeConnectionAfterResponse lock ec).reading =
            some .head then [t.setTimeout .request] else []

def act (s : TimedSession) : Act → TimedSession
  | .act a =>
      { s with
        session := ServerBase.act members config order s.session a
        watch := s.watch.ops t.limit (callsOfAct members order t s.session a) }
  | .tick => { s with watch := s.watch.op t.limit .tick }
  | .runOut => { s with watch := s.watch.op t.limit .runOut }
  | .expired =>
      { s with
        watch := s.watch.op t.limit .handle
        shut := s.shut || !s.watch.expired.isEmpty }

/-- What a step calls on the timer. -/
def calls (s : TimedSession) : Act → List (Watch.Op Phase)
  | .act a => callsOfAct members order t s.session a
  | .tick => [.tick]
  | .runOut => [.runOut]
  | .expired => [.handle]

/-- A connection that has been accepted. -/
def start : TimedSession :=
  { session := ({} : Session).read, watch := ({} : Watch Phase).op t.limit (t.setTimeout .request) }

/-- The states of a run. -/
def run (acts : List Act) : TimedSession := acts.foldl (act members config order t) (start t)

/-- Nothing happens that the timer takes notice of: no head is read, and no response is sent. -/
abbrev Silent (s : TimedSession) (a : Act) : Prop :=
  Watch.Silent (calls members order t) s a

end TimedSession

/-- What a connection waits for: a head, or content; or a response. -/
def Session.waits (s : Session) : Option Phase :=
  if s.responding then some .content
  else s.reading.map fun op => if op = .head then .request else .content

/-! ### What the handlers do -/

namespace Session

variable {members : Members} {config : Config} {order : Order} {s : Session}

/-- No handler of a read starts to read a head. -/
theorem onRead_ne_head (h : s.reading = none) (op : ReadOp) :
    (s.onRead members config order op).reading ≠ some .head := by
  have hlogs : ∀ {t t' : Session}, t.reading = none → t.Logs t' → t'.reading ≠ some .head := by
    intro t t' ht hlogs
    rw [hlogs.reading, ht]
    simp
  have hfind : ∀ t : Session, t.reading = none →
      (t.findResource members order).reading ≠ some .head := fun t ht =>
    hlogs ht (logs_findResource t)
  have herror : ∀ (t : Session) (ec : ErrorCode), t.reading = none →
      (t.onError members ec).reading ≠ some .head := fun t ec ht => hlogs ht (logs_onError t ec)
  have hlarge : ∀ t : Session, t.reading = none →
      (t.payloadTooLarge members).reading ≠ some .head := fun t ht =>
    hlogs ht (logs_payloadTooLarge t)
  cases op with
  | head =>
      simp only [onRead, onHead]
      split
      · simp [emit, h]
      split
      · exact herror _ _ h
      · simp only [onParsed]
        split
        · split
          · exact herror _ _ h
          split
          · exact hlarge _ h
          split
          · simp
          · exact hfind _ h
        · split
          · split
            · simp [readChunkedTransferEncoded]
            · exact hfind _ h
          · exact hfind _ h
  | content size => exact hfind _ h
  | chunkSize =>
      simp only [onRead, onChunkSize]
      split
      · exact herror _ _ h
      split
      · exact hfind _ h
      split
      · exact hlarge _ h
      · simp only [onChunk]
        split
        · simp [emit, h]
        split
        · simp
        split
        · simp
        · simp [readChunkedTransferEncoded]
  | chunk size => simp [onRead]
  | chunkEnd size => simp [onRead, readChunkedTransferEncoded]

theorem complete_ne_head (s : Session) (lock : Bool) (k : Completion UInt8 ErrorCode) :
    (s.complete members config order lock k).reading ≠ some .head := by
  unfold complete
  cases hop : s.reading with
  | none => simp [hop]
  | some op =>
      have hnone : ({ s with reading := none }.receive k.data op).reading = none := by
        cases op <;> rfl
      dsimp only
      generalize ({ s with reading := none } : Session).receive k.data op = t at hnone
      split
      · simp [hnone]
      split
      · have hlogs : ∀ ec, (t.onReadError members ec op).reading = t.reading := by
          intro ec
          cases op with
          | head | content size | chunkSize | chunk size => exact (logs_onError t ec).reading
          | chunkEnd size =>
              simp only [onReadError, onErrorUnguarded]
              split <;> rfl
        simp [hlogs, hnone]
      · exact onRead_ne_head hnone op

end Session

/-- The end of a response, of a connection that reads nothing. -/
theorem Session.onResponseSent_cases {order : Order} {members : Members} {s : Session}
    (hresponding : s.responding = true) (hreading : s.reading = none)
    (closeConnectionAfterResponse : Bool) (ec : Option ErrorCode) :
    let s' := s.onResponseSent members order closeConnectionAfterResponse true ec
    s'.responding = false ∧ (s'.reading = none ∨ s'.reading = some .head) := by
  simp only [onResponseSent, hresponding, Bool.not_true, Bool.false_eq_true, if_false]
  cases ec with
  | some ec =>
      dsimp only
      unfold onError
      split <;> exact ⟨rfl, Or.inl hreading⟩
  | none =>
      dsimp only
      split
      · exact ⟨rfl, Or.inl hreading⟩
      split
      · exact ⟨rfl, Or.inr rfl⟩
      · exact ⟨rfl, Or.inl hreading⟩

/-- Nothing is read while there is a response to be sent. -/
def Session.Exclusive (s : Session) : Prop := s.reading = none ∨ s.responding = false

theorem Session.Exclusive.act {members : Members} {config : Config} {order : Order} {s : Session}
    (h : s.Exclusive) (a : ServerBase.Act) :
    (ServerBase.act members config order s a).Exclusive := by
  cases a with
  | complete lock k =>
      cases hop : s.reading with
      | none =>
          refine Or.inl ?_
          simp only [ServerBase.act, complete, hop]
      | some op =>
          have hresponding : s.responding = false := h.resolve_left (by simp [hop])
          exact (outcome_complete hop hresponding lock k).exclusive
  | responseSent closeConnectionAfterResponse lock ec =>
      cases hresponding : s.responding with
      | false =>
          simp only [ServerBase.act, onResponseSent, hresponding]
          exact h
      | true =>
          have hreading : s.reading = none := h.resolve_right (by simp [hresponding])
          cases lock with
          | false =>
              simp only [ServerBase.act, onResponseSent, hresponding]
              exact Or.inr rfl
          | true =>
              exact Or.inr (onResponseSent_cases hresponding hreading _ ec).1

/-- What is waited for, by what is read. -/
theorem Session.waits_iff {s : Session} (h : s.Exclusive) :
    s.waits = some .request ↔ s.reading = some .head := by
  unfold waits
  cases hresponding : s.responding with
  | true =>
      have hnone : s.reading = none := h.resolve_right (by simp [hresponding])
      simp [hnone]
  | false =>
      cases s.reading with
      | none => simp
      | some op => by_cases hop : op = .head <;> simp [hop]

namespace TimedSession

variable {members : Members} {config : Config} {order : Order} {t : Timeouts Phase}
  {s : TimedSession}

/-! ### One step -/

theorem touches_callsOfAct (s : Session) (a : ServerBase.Act) :
    ∀ o ∈ callsOfAct members order t s a, o.Touches ∧ o ≠ .tick ∧ o ≠ .runOut := by
  have hset : ∀ p, (t.setTimeout p).Touches ∧ t.setTimeout p ≠ .tick ∧ t.setTimeout p ≠ .runOut :=
    fun p => ⟨t.touches_setTimeout p, t.setTimeout_ne p⟩
  intro o ho
  cases a with
  | complete lock k =>
      simp only [callsOfAct] at ho
      split at ho
      · rw [List.mem_singleton.1 ho]
        exact hset _
      · cases ho
  | responseSent closeConnectionAfterResponse lock ec =>
      simp only [callsOfAct] at ho
      split at ho
      · cases ho
      · rcases List.mem_cons.1 ho with rfl | ho
        · exact ⟨trivial, by simp [Timeouts.cancelTimeout], by simp [Timeouts.cancelTimeout]⟩
        · split at ho
          · rw [List.mem_singleton.1 ho]
            exact hset _
          · cases ho

theorem works (members : Members) (config : Config) (order : Order) (t : Timeouts Phase) :
    Watch.Works t.limit (act members config order t) TimedSession.watch
      (calls members order t) where
  act s a := by cases a <;> rfl
  prompt s a htouches o ho := by
    cases a with
    | act a => exact (touches_callsOfAct s.session a o ho).2
    | tick => simp [calls, Watch.Op.Touches] at htouches
    | runOut => simp [calls, Watch.Op.Touches] at htouches
    | expired => simp [calls, Watch.Op.Touches] at htouches

/-- What a step of the session does to the timer: it leaves it alone, and what was waited for before
is waited for afterwards, if anything; or nothing is waited for; or it sets it for what is. -/
theorem callsOfAct_cases (h : s.session.Exclusive) (a : ServerBase.Act) :
    let s' := ServerBase.act members config order s.session a
    (callsOfAct members order t s.session a = [] ∧ s'.reading ≠ some .head ∧
        (s'.waits = none ∨ s'.waits = s.session.waits)) ∨
    (callsOfAct members order t s.session a = [] ∧ s' = s.session) ∨
    (callsOfAct members order t s.session a = [Timeouts.cancelTimeout] ∧ s'.waits = none) ∨
    ∃ os p, callsOfAct members order t s.session a = os ++ [t.setTimeout p] ∧
      (s'.waits = none ∨ s'.waits = some p) ∧ (p = .request ↔ s'.reading = some .head) := by
  intro s'
  cases a with
  | complete lock k =>
      have hne : s'.reading ≠ some .head := Session.complete_ne_head s.session lock k
      have hwaits : s'.waits = none ∨ s'.waits = some .content := by
        have hnot := (Session.waits_iff (h.act (.complete lock k))).not.2 hne
        cases hw : s'.waits with
        | none => exact Or.inl rfl
        | some p =>
            cases p with
            | request => exact absurd hw hnot
            | content => exact Or.inr rfl
      by_cases hhead : s.session.reading = some .head
      · refine Or.inr (Or.inr (Or.inr ⟨[], .content, if_pos hhead, hwaits, ?_⟩))
        exact iff_of_false (by simp) hne
      · cases hop : s.session.reading with
        | none =>
            refine Or.inr (Or.inl ⟨if_neg hhead, ?_⟩)
            simp only [s', ServerBase.act, Session.complete, hop]
        | some op =>
            refine Or.inl ⟨if_neg hhead, hne, ?_⟩
            have hbefore : s.session.waits = some .content := by
              have hresponding := h.resolve_left (by simp [hop])
              simp [Session.waits, hresponding, hop, show op ≠ .head by
                rintro rfl
                exact hhead hop]
            rwa [hbefore]
  | responseSent closeConnectionAfterResponse lock ec =>
      cases hresponding : s.session.responding with
      | false =>
          refine Or.inr (Or.inl ⟨by simp [callsOfAct, hresponding], ?_⟩)
          simp [s', ServerBase.act, Session.onResponseSent, hresponding]
      | true =>
          have hreading : s.session.reading = none := h.resolve_right (by simp [hresponding])
          cases lock with
          | false =>
              refine Or.inl ⟨by simp [callsOfAct], ?_, Or.inl ?_⟩
              · simp [s', ServerBase.act, Session.onResponseSent, hresponding, hreading]
              · simp [s', ServerBase.act, Session.onResponseSent, hresponding, hreading,
                  Session.waits]
          | true =>
              obtain ⟨hdone, hnext⟩ := @Session.onResponseSent_cases order members s.session
                hresponding hreading closeConnectionAfterResponse ec
              rcases hnext with hnone | hhead
              · refine Or.inr (Or.inr (Or.inl ⟨?_, ?_⟩))
                · simp [callsOfAct, hresponding, hnone]
                · simp [s', ServerBase.act, Session.waits, hdone, hnone]
              · refine Or.inr (Or.inr (Or.inr ⟨[Timeouts.cancelTimeout], .request, ?_, ?_, ?_⟩))
                · simp [callsOfAct, hresponding, hhead]
                · simp [s', ServerBase.act, Session.waits, hdone, hhead]
                · simp [s', ServerBase.act, hhead]

/-! ### The invariant -/

/-- Nothing is read while a response is to be sent, and the timer is set for the head while that is
read, and otherwise for what follows it. -/
structure Sound (t : Timeouts Phase) (s : TimedSession) : Prop where
  exclusive : s.session.Exclusive
  timer : ∀ deadline p, s.watch.timer = some (deadline, p) →
    t.seconds p ≠ 0 ∧ (p = .request ↔ s.session.reading = some .head)

/-- What is waited for, if it has a timeout, is kept to it in the given way, as long as the socket has
not been shut down. -/
def Kept (t : Timeouts Phase) (way : Watch Phase → ℕ → Prop) (s : TimedSession) : Prop :=
  ∀ p, s.session.waits = some p → t.seconds p ≠ 0 → s.shut = true ∨ way s.watch (t.limit p)

theorem ops_append_singleton (w : Watch Phase) (os : List (Watch.Op Phase)) (o : Watch.Op Phase) :
    w.ops t.limit (os ++ [o]) = (w.ops t.limit os).op t.limit o := Watch.ops_append w os [o]

theorem Sound.act (h : Sound t s) (a : Act) : Sound t (act members config order t s a) := by
  have hclock : ∀ (o : Watch.Op Phase) (shut : Bool), ¬ o.Touches →
      Sound t { s with watch := s.watch.op t.limit o, shut := shut } := by
    intro o shut ho
    refine ⟨h.exclusive, ?_⟩
    intro deadline p htimer
    exact h.timer deadline p ((Watch.op_of_not_touches t.limit ho s.watch).2 _ htimer)
  cases a with
  | tick => exact hclock .tick s.shut (fun h => h)
  | runOut => exact hclock .runOut s.shut (fun h => h)
  | expired => exact hclock .handle _ (fun h => h)
  | act a =>
      refine ⟨h.exclusive.act a, ?_⟩
      intro deadline p htimer
      simp only [TimedSession.act] at htimer ⊢
      rcases @callsOfAct_cases members config order t s h.exclusive a with
        ⟨hcalls, hne, -⟩ | ⟨hcalls, hsame⟩ | ⟨hcalls, -⟩ | ⟨os, q, hcalls, -, hq⟩
      · rw [hcalls] at htimer
        obtain ⟨hp, hrequest⟩ := h.timer deadline p htimer
        refine ⟨hp, iff_of_false ?_ hne⟩
        -- a head that is read would have set the timer
        intro hhead
        have hreading := hrequest.1 hhead
        cases a with
        | complete lock k => simp [callsOfAct, hreading] at hcalls
        | responseSent closeConnectionAfterResponse lock ec =>
            have hresponding := h.exclusive.resolve_left (by simp [hreading])
            refine hne ?_
            simpa [ServerBase.act, Session.onResponseSent, hresponding] using hreading
      · rw [hcalls] at htimer
        rw [hsame]
        exact h.timer deadline p htimer
      · rw [hcalls] at htimer
        cases htimer
      · rw [hcalls, ops_append_singleton] at htimer
        obtain ⟨rfl, hp⟩ := t.timer_setTimeout q _ htimer
        exact ⟨hp, hq⟩

/-- A handler keeps what is kept whenever the timer is set. -/
theorem Kept.act {way : Watch Phase → ℕ → Prop}
    (hset : ∀ (w : Watch Phase) (p : Phase), t.seconds p ≠ 0 →
      way (w.op t.limit (t.setTimeout p)) (t.limit p))
    (hsound : Sound t s) (h : Kept t way s) (a : ServerBase.Act) :
    Kept t way (act members config order t s (.act a)) := by
  intro p hwaits hp
  simp only [TimedSession.act] at hwaits ⊢
  rcases @callsOfAct_cases members config order t s hsound.exclusive a with
    ⟨hcalls, -, hnone | hbefore⟩ | ⟨hcalls, hsame⟩ | ⟨-, hnone⟩ | ⟨os, q, hcalls, hnone | hq, -⟩
  · cases hnone.symm.trans hwaits
  · rw [hcalls]
    exact h p (hbefore.symm.trans hwaits) hp
  · rw [hcalls]
    rw [hsame] at hwaits
    exact h p hwaits hp
  · cases hnone.symm.trans hwaits
  · cases hnone.symm.trans hwaits
  · obtain rfl := Option.some.inj (hq.symm.trans hwaits)
    rw [hcalls, ops_append_singleton]
    exact Or.inr (hset _ q hp)

/-- The handler of a timer that has run out shuts the socket down. -/
theorem expired_cases (s : TimedSession) :
    (act members config order t s .expired).shut = true ∨
      act members config order t s .expired = s := by
  cases hexpired : s.watch.expired with
  | cons p expired => exact Or.inl (by simp [act, hexpired])
  | nil =>
      refine Or.inr ?_
      obtain ⟨session, ⟨now, timer, expired, touched⟩, shut⟩ := s
      obtain rfl : expired = [] := hexpired
      simp [act, Watch.op]

/-- **What one step preserves.** -/
theorem inv_act (h : Sound t s ∧ Kept t Watch.Guards s) (a : Act) :
    Sound t (act members config order t s a) ∧
      Kept t Watch.Guards (act members config order t s a) := by
  obtain ⟨hsound, hkept⟩ := h
  refine ⟨hsound.act a, ?_⟩
  cases a with
  | act a => exact hkept.act (fun w p hp => t.guards_setTimeout hp w) hsound a
  | tick =>
      intro p hwaits hp
      rcases hkept p hwaits hp with hshut | hguards
      · exact Or.inl hshut
      · exact Or.inr (hguards.op t.limit (o := .tick) (fun h => h) (by simp))
  | runOut =>
      intro p hwaits hp
      rcases hkept p hwaits hp with hshut | hguards
      · exact Or.inl hshut
      · exact Or.inr (hguards.op t.limit (o := .runOut) (fun h => h) (by simp))
  | expired =>
      rcases @expired_cases members config order t s with hshut | hsame
      · exact fun p _ _ => Or.inl hshut
      · rwa [hsame]

theorem sound_start (t : Timeouts Phase) : Sound t (start t) := by
  refine ⟨Or.inr rfl, ?_⟩
  intro deadline p htimer
  obtain ⟨rfl, hp⟩ := t.timer_setTimeout .request _ htimer
  exact ⟨hp, iff_of_true rfl rfl⟩

theorem kept_start {way : Watch Phase → ℕ → Prop}
    (hset : ∀ (w : Watch Phase) (p : Phase), t.seconds p ≠ 0 →
      way (w.op t.limit (t.setTimeout p)) (t.limit p)) : Kept t way (start t) := by
  intro p hwaits hp
  obtain rfl : Phase.request = p := Option.some.inj hwaits
  exact Or.inr (hset _ _ hp)

theorem inv_run (acts : List Act) :
    Sound t (run members config order t acts) ∧
      Kept t Watch.Guards (run members config order t acts) := by
  induction acts using List.reverseRecOn with
  | nil => exact ⟨sound_start t, kept_start fun w p hp => t.guards_setTimeout hp w⟩
  | append_singleton acts a ih =>
      rw [run, List.foldl_append]
      exact inv_act ih a

theorem run_append_singleton (acts : List Act) (a : Act) :
    run members config order t (acts ++ [a]) =
      act members config order t (run members config order t acts) a := by
  rw [run, List.foldl_append]
  rfl

/-! ### Neither later nor sooner -/

theorem timely_start (t : Timeouts Phase) : (start t).watch.Timely t.limit :=
  Watch.timely_init.op _

theorem watch_start (t : Timeouts Phase) :
    (start t).watch.touched = (start t).watch.now ∧ (start t).watch.expired = [] := by
  have hset : ∀ o : Watch.Op Phase, o.Touches →
      (({} : Watch Phase).op t.limit o).touched = (({} : Watch Phase).op t.limit o).now ∧
        (({} : Watch Phase).op t.limit o).expired = [] := by
    intro o ho
    cases o with
    | set p => exact ⟨rfl, rfl⟩
    | clear => exact ⟨rfl, rfl⟩
    | tick => exact ho.elim
    | runOut => exact ho.elim
    | handle => exact ho.elim
  exact hset _ (t.touches_setTimeout .request)

/-- **Not later.** -/
theorem silent_lt {pre later : List Act}
    (hlater : Machine.Along (act members config order t) (Silent members order t)
      (run members config order t pre) later) {p : Phase}
    (hwaits : (run members config order t (pre ++ later)).session.waits = some p)
    (hp : t.seconds p ≠ 0) :
    (run members config order t (pre ++ later)).shut = true ∨
      (run members config order t (pre ++ later)).watch.Due ∨
      (run members config order t (pre ++ later)).watch.now <
        (run members config order t pre).watch.now + t.limit p := by
  rcases inv_run (pre ++ later) |>.2 p hwaits hp with hshut | hguards
  · exact Or.inl hshut
  by_cases hdue : (run members config order t (pre ++ later)).watch.Due
  · exact Or.inr (Or.inl hdue)
  · refine Or.inr (Or.inr ?_)
    rw [run, List.foldl_append] at hguards hdue ⊢
    have htimely := (works members config order t).timely (timely_start t) pre
    exact (works members config order t).elapsed_lt htimely hlater hguards hdue

/-- The timer has been left alone for the whole of a timeout: `timeout_request` if a head was being
read, and otherwise `timeout_content`. -/
def HasWaited (members : Members) (config : Config) (order : Order) (t : Timeouts Phase)
    (acts : List Act) : Prop :=
  ∃ pre later post p, acts = pre ++ later ++ post ∧
    Machine.Along (act members config order t) (Silent members order t)
      (run members config order t pre) later ∧
    (p = .request ↔ (run members config order t pre).session.reading = some .head) ∧
    t.seconds p ≠ 0 ∧
    (run members config order t pre).watch.now + t.limit p ≤
      (run members config order t (pre ++ later)).watch.now

theorem HasWaited.append {acts : List Act} (h : HasWaited members config order t acts)
    (more : List Act) : HasWaited members config order t (acts ++ more) := by
  obtain ⟨pre, later, post, p, rfl, h⟩ := h
  exact ⟨pre, later, post ++ more, p, by simp, h⟩

theorem hasWaited_of_due (acts : List Act) (hdue : (run members config order t acts).watch.Due) :
    HasWaited members config order t acts := by
  obtain ⟨htouched, hexpired⟩ := watch_start t
  obtain ⟨p, pre, later, post, rfl, hlater, htimer, hle⟩ :=
    (works members config order t).waited_of_due (timely_start t) htouched hexpired acts hdue
  obtain ⟨hp, hrequest⟩ := (inv_run pre).1.timer _ p htimer
  exact ⟨pre, later, post, p, rfl, hlater, hrequest, hp, hle⟩

/-- **Not sooner.** -/
theorem hasWaited_of_shut (acts : List Act)
    (h : (run members config order t acts).shut = true ∨
      (run members config order t acts).watch.Due) :
    HasWaited members config order t acts := by
  rcases h with hshut | hdue
  swap
  · exact hasWaited_of_due acts hdue
  induction acts using List.reverseRecOn with
  | nil => cases hshut
  | append_singleton acts a ih =>
      rw [run_append_singleton] at hshut
      cases a with
      | act a => exact (ih hshut).append _
      | tick => exact (ih hshut).append _
      | runOut => exact (ih hshut).append _
      | expired =>
          rcases Bool.or_eq_true_iff.1 hshut with hbefore | hne
          · exact (ih hbefore).append _
          · refine (hasWaited_of_due acts (Or.inl ?_)).append _
            simpa using hne

/-! ### A whole request -/

/-- Handlers are run on time: the clock waits for the handler of a timer that has run out. -/
def OnTime (s : TimedSession) (a : Act) : Prop := a = .tick → ¬ s.watch.Due

/-- No more time has passed than is allowed. -/
def Within (w : Watch Phase) (time : ℕ) : Prop := w.now ≤ w.touched + time

theorem within_setTimeout (t : Timeouts Phase) (w : Watch Phase) (p : Phase) :
    Within (w.op t.limit (t.setTimeout p)) (t.limit p) := by
  have htouches := t.touches_setTimeout p
  have hne := t.setTimeout_ne p
  generalize t.setTimeout p = o at htouches hne
  cases o with
  | set a => exact Nat.le_add_right _ _
  | clear => exact Nat.le_add_right _ _
  | tick => exact htouches.elim
  | runOut => exact htouches.elim
  | handle => exact htouches.elim

theorem within_run (acts : List Act)
    (honTime : Machine.Along (act members config order t) OnTime (start t) acts) :
    Kept t Within (run members config order t acts) := by
  induction acts using List.reverseRecOn with
  | nil => exact kept_start fun w p _ => within_setTimeout t w p
  | append_singleton acts a ih =>
      obtain ⟨hbefore, ha, -⟩ := Machine.along_append.1 honTime
      have hprev := ih hbefore
      obtain ⟨hsound, hguards⟩ := @inv_run members config order t acts
      rw [run_append_singleton]
      change OnTime (run members config order t acts) a at ha
      cases a with
      | act a => exact hprev.act (fun w p _ => within_setTimeout t w p) hsound a
      | tick =>
          -- the clock does not go on when the time is up
          intro p hwaits hp
          rcases hguards p hwaits hp with hshut | hguards
          · exact Or.inl hshut
          · exact Or.inr (hguards.now_lt (ha rfl))
      | runOut =>
          intro p hwaits hp
          rcases hprev p hwaits hp with hshut | hwithin
          · exact Or.inl hshut
          · refine Or.inr ?_
            rcases Watch.op_runOut_cases t.limit
              (run members config order t acts).watch with hsame | ⟨deadline, q, -, -, hout⟩
            · simp only [TimedSession.act]
              rwa [hsame]
            · simp only [TimedSession.act]
              rwa [hout]
      | expired =>
          rcases @expired_cases members config order t (run members config order t acts) with
            hshut | hsame
          · exact fun p _ _ => Or.inl hshut
          · rwa [hsame]

/-- A socket that has been shut down stays so. -/
theorem shut_append {pre : List Act} (h : (run members config order t pre).shut = true)
    (later : List Act) : (run members config order t (pre ++ later)).shut = true := by
  induction later using List.reverseRecOn with
  | nil => rwa [List.append_nil]
  | append_singleton later a ih =>
      rw [← List.append_assoc, run_append_singleton]
      cases a with
      | act a => exact ih
      | tick => exact ih
      | runOut => exact ih
      | expired => exact Bool.or_eq_true_iff.2 (Or.inl ih)

/-- From the time a head is read on, until a response has been sent: the head is being read; or it has
been, and then the timer was left alone. -/
theorem head_cases {pre : List Act}
    (hhead : (run members config order t pre).session.reading = some .head) {later : List Act}
    (hlater : ∀ close lock ec, .act (.responseSent close lock ec) ∉ later) :
    (Machine.Along (act members config order t) (Silent members order t)
        (run members config order t pre) later ∧
      (run members config order t (pre ++ later)).session.reading = some .head) ∨
    ∃ first lock k rest, later = first ++ .act (.complete lock k) :: rest ∧
      Machine.Along (act members config order t) (Silent members order t)
        (run members config order t pre) first ∧
      (run members config order t (pre ++ first)).session.reading = some .head ∧
      Machine.Along (act members config order t) (Silent members order t)
        (run members config order t (pre ++ first ++ [.act (.complete lock k)])) rest ∧
      (run members config order t (pre ++ later)).session.reading ≠ some .head := by
  induction later using List.reverseRecOn with
  | nil => exact Or.inl ⟨trivial, by rwa [List.append_nil]⟩
  | append_singleton later a ih =>
      have hprev := ih fun close lock ec hmem => hlater close lock ec (List.mem_append_left _ hmem)
      have hrun : run members config order t (pre ++ (later ++ [a])) =
          act members config order t (run members config order t (pre ++ later)) a := by
        rw [← List.append_assoc, run_append_singleton]
      rw [hrun]
      -- what does not concern the session is silent
      have hclock : (∀ b, a ≠ .act b) →
          Silent members order t (run members config order t (pre ++ later)) a ∧
            (act members config order t (run members config order t (pre ++ later))
              a).session = (run members config order t (pre ++ later)).session := by
        intro ha
        cases a with
        | act b => exact absurd rfl (ha b)
        | tick | runOut | expired =>
            refine ⟨?_, rfl⟩
            intro o ho
            rw [List.mem_singleton.1 ho]
            exact id
      rcases hprev with ⟨halong, hreading⟩ | ⟨first, lock, k, rest, rfl, hfirst, hbefore, hrest, hne⟩
      · by_cases ha : ∃ b, a = .act b
        · obtain ⟨b, rfl⟩ := ha
          cases b with
          | complete lock k =>
              refine Or.inr ⟨later, lock, k, [], rfl, halong, hreading, trivial, ?_⟩
              exact Session.complete_ne_head _ lock k
          | responseSent close lock ec => exact absurd (by simp) (hlater close lock ec)
        · obtain ⟨hsilent, hsession⟩ := hclock (by simpa using ha)
          refine Or.inl ⟨Machine.along_append.2 ⟨halong, ?_, trivial⟩, ?_⟩
          · rwa [run, List.foldl_append] at hsilent
          · rwa [hsession]
      · refine Or.inr ⟨first, lock, k, rest ++ [a], by simp, hfirst, hbefore, ?_, ?_⟩
        · refine Machine.along_append.2 ⟨hrest, ?_, trivial⟩
          have hfold : rest.foldl (act members config order t)
              (run members config order t (pre ++ first ++ [.act (.complete lock k)])) =
              run members config order t (pre ++ (first ++ .act (.complete lock k) :: rest)) := by
            simp only [run, List.foldl_append, List.foldl_cons, List.foldl_nil]
          rw [hfold]
          by_cases ha : ∃ b, a = .act b
          · obtain ⟨b, rfl⟩ := ha
            cases b with
            | complete lock' k' =>
                intro o ho
                simp only [calls, callsOfAct, if_neg hne] at ho
                cases ho
            | responseSent close lock ec => exact absurd (by simp) (hlater close lock ec)
          · exact (hclock (by simpa using ha)).1
        · by_cases ha : ∃ b, a = .act b
          · obtain ⟨b, rfl⟩ := ha
            cases b with
            | complete lock' k' => exact Session.complete_ne_head _ lock' k'
            | responseSent close lock ec => exact absurd (by simp) (hlater close lock ec)
          · rwa [(hclock (by simpa using ha)).2]

/-- While the timer is left alone, and handlers are run on time. -/
theorem silent_le {pre later : List Act}
    (honTime : Machine.Along (act members config order t) OnTime (start t) (pre ++ later))
    (hlater : Machine.Along (act members config order t) (Silent members order t)
      (run members config order t pre) later) {p : Phase}
    (hwaits : (run members config order t (pre ++ later)).session.waits = some p)
    (hp : t.seconds p ≠ 0) :
    (run members config order t (pre ++ later)).shut = true ∨
      (run members config order t (pre ++ later)).watch.now ≤
        (run members config order t pre).watch.now + t.limit p := by
  rcases within_run (pre ++ later) honTime p hwaits hp with hshut | hwithin
  · exact Or.inl hshut
  · refine Or.inr (hwithin.trans ?_)
    have htimely := (works members config order t).timely (timely_start t) pre
    have htouched := ((works members config order t).silent hlater).1
    rw [run, List.foldl_append]
    exact Nat.add_le_add_right (htouched.trans_le htimely.1) _

/-- The clock does not go on in a handler. -/
theorem now_act (s : TimedSession) (a : ServerBase.Act) :
    (act members config order t s (.act a)).watch.now = s.watch.now :=
  (Watch.ops_of_prompt t.limit (fun o ho => (touches_callsOfAct s.session a o ho).2) s.watch).1

/-- **From where a head is read, up to the end of the response**: both timeouts together. -/
theorem request_le {pre later : List Act}
    (honTime : Machine.Along (act members config order t) OnTime (start t) (pre ++ later))
    (hseconds : ∀ p, t.seconds p ≠ 0)
    (hhead : (run members config order t pre).session.reading = some .head)
    (hlater : ∀ close lock ec, .act (.responseSent close lock ec) ∉ later)
    (hwaits : (run members config order t (pre ++ later)).session.waits ≠ none) :
    (run members config order t (pre ++ later)).shut = true ∨
      (run members config order t (pre ++ later)).watch.now ≤
        (run members config order t pre).watch.now + t.limit .request + t.limit .content := by
  rcases head_cases hhead hlater with ⟨hsilent, hreading⟩ |
    ⟨first, lock, k, rest, rfl, hfirst, hbefore, hrest, hne⟩
  · -- the head has not come
    have hrequest := (Session.waits_iff (inv_run (pre ++ later)).1.exclusive).2 hreading
    rcases silent_le honTime hsilent hrequest (hseconds _) with hshut | hle
    · exact Or.inl hshut
    · exact Or.inr (hle.trans (Nat.le_add_right _ _))
  · have hsplit : pre ++ (first ++ .act (.complete lock k) :: rest) =
        pre ++ first ++ [.act (.complete lock k)] ++ rest := by simp
    have hrequest := (Session.waits_iff (@inv_run members config order t
      (pre ++ first)).1.exclusive).2 hbefore
    have hcontent : (run members config order t
        (pre ++ first ++ [.act (.complete lock k)] ++ rest)).session.waits = some .content := by
      rw [← hsplit]
      have hnot := (Session.waits_iff (@inv_run members config order t
        (pre ++ (first ++ .act (.complete lock k) :: rest))).1.exclusive).not.2 hne
      obtain ⟨p, hp⟩ := Option.ne_none_iff_exists'.1 hwaits
      cases p with
      | request => exact absurd hp hnot
      | content => exact hp
    rw [hsplit] at honTime ⊢
    have honTime' : Machine.Along (act members config order t) OnTime (start t) (pre ++ first) :=
      (Machine.along_append.1 (Machine.along_append.1 honTime).1).1
    rcases silent_le honTime' hfirst hrequest (hseconds _) with hshut | hle
    · refine Or.inl ?_
      rw [List.append_assoc]
      exact shut_append hshut _
    · rcases silent_le honTime hrest hcontent (hseconds _) with hshut | hle'
      · exact Or.inl hshut
      · refine Or.inr (hle'.trans (Nat.add_le_add_right ?_ _))
        rw [run_append_singleton, now_act]
        exact hle

end TimedSession

/-- **A request is answered in time, or cut off**, in every run of a connection.

As long as no head has been read and no response has been sent, less time passes than `timeout_request`
if a head is being read, and than `timeout_content` if content is being read or a response is to be
sent, unless the timer has shut the socket down or is about to, which it does only after all that time.

If handlers are run on time, the connection has been shut down when a request is not answered within
both timeouts from where it was waited for. -/
theorem requests_end (members : Members) (config : Config) (order : Order) (t : Timeouts Phase)
    (acts : List TimedSession.Act) :
    let act := TimedSession.act members config order t
    let run := TimedSession.run members config order t
    (∀ pre later p, acts = pre ++ later →
      Machine.Along act (TimedSession.Silent members order t) (run pre) later →
      (run acts).session.waits = some p → t.seconds p ≠ 0 →
      (run acts).shut = true ∨ (run acts).watch.Due ∨
        (run acts).watch.now < (run pre).watch.now + t.limit p) ∧
    ((run acts).shut = true ∨ (run acts).watch.Due →
      TimedSession.HasWaited members config order t acts) ∧
    (Machine.Along act TimedSession.OnTime (TimedSession.start t) acts → (∀ p, t.seconds p ≠ 0) →
      ∀ pre later, acts = pre ++ later → (run pre).session.reading = some .head →
      (∀ close lock ec, .act (.responseSent close lock ec) ∉ later) →
      (run acts).session.waits ≠ none → (run acts).shut = false →
      (run acts).watch.now ≤ (run pre).watch.now + t.limit .request + t.limit .content) := by
  refine ⟨?_, TimedSession.hasWaited_of_shut acts, ?_⟩
  · rintro pre later p rfl hlater hwaits hp
    exact TimedSession.silent_lt hlater hwaits hp
  · rintro honTime hseconds pre later rfl hhead hlater hwaits hshut
    rcases TimedSession.request_le honTime hseconds hhead hlater hwaits with h | h
    · exact absurd (hshut.symm.trans h) (by simp)
    · exact h

/-- A request whose head comes two seconds after it is waited for, and whose content does not come. -/
def slowRequest : List TimedSession.Act :=
  [.tick, .tick, .act (.complete true ⟨none, ascii "POST / HTTP/1.1" ++ crlf ++
    ascii "Content-Length: 2" ++ crlf ++ crlf⟩), .tick, .tick, .tick, .tick]

/-- Three seconds for the head, and four for the rest. -/
def briefTimeouts : Timeouts Phase where
  seconds
    | .request => 3
    | .content => 4

/-- A client that connects, and sends nothing for five seconds; and one that sends a head, and then
nothing.  There the time is up after six seconds, within the seven of both timeouts. -/
theorem requests_end_silent :
    (TimedSession.run {} {} .insertion timeouts (List.replicate 5 .tick)).watch.Due ∧
    let s := TimedSession.run {} {} .insertion briefTimeouts slowRequest
    s.session.waits = some .content ∧ s.watch.Due ∧ s.watch.now = 6 ∧
      TimedSession.HasWaited {} {} .insertion briefTimeouts slowRequest ∧
      s.watch.now ≤ 0 + briefTimeouts.limit .request + briefTimeouts.limit .content := by
  have hsilent : ∀ s, TimedSession.Silent {} .insertion timeouts s .tick := by
    intro s o ho
    rw [List.mem_singleton.1 ho]
    exact id
  have hends := (requests_end {} {} .insertion timeouts (List.replicate 5 .tick)).1 [] _ .request rfl
    ⟨hsilent _, hsilent _, hsilent _, hsilent _, hsilent _, trivial⟩ rfl (by decide)
  obtain ⟨-, hwaited, hbound⟩ := requests_end {} {} .insertion briefTimeouts slowRequest
  have hdue : (TimedSession.run {} {} .insertion briefTimeouts slowRequest).watch.Due := by
    decide +kernel
  refine ⟨?_, by decide +kernel, hdue, by decide +kernel, hwaited (Or.inr hdue), ?_⟩
  · rcases hends with hshut | hdue | hlt
    · exact absurd hshut (by decide)
    · exact hdue
    · exact absurd hlt (by decide)
  · refine hbound ?_ ?_ [] slowRequest rfl (by decide) ?_ (by decide +kernel) (by decide +kernel)
    · refine ⟨?_, ?_, by simp [TimedSession.OnTime], ?_, ?_, ?_, ?_, trivial⟩
      -- the timer has not run out before the last of the ticks is over
      all_goals
        intro _
        decide +kernel
    · intro p
      cases p with
      | request => decide
      | content => decide
    · intro close lock ec hmem
      simp [slowRequest] at hmem

end SimpleWeb.ServerBase
