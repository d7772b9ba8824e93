/-
**How a client connects.**

`connect` of `websocket/client_ws.hpp` and `websocket/client_wss.hpp`: the name of the server is
resolved and a connection is made; a secure client that goes through a proxy asks it for a tunnel,
and then does the handshake of the secure layer; and then the connection is upgraded.  A handler that
finds the handlers stopped does nothing more, and one that finds an error calls `connection_error`.

Main definitions:

* `SimpleWeb.Client.Attempt`, `SimpleWeb.Client.Attempt.act` — a connection from `connect` on;
* `SimpleWeb.Client.Step`, `SimpleWeb.Client.Config.steps` — what has to succeed before a connection
  is open.

Main results:

* `SimpleWeb.Client.Attempt.turn_act` — what one step does to the calls;
* `SimpleWeb.Client.Attempt.reached_act` — **how far one step leads**;
* `SimpleWeb.Client.attempt_settles` — **a connection is reported as open once everything has
  succeeded, and its end is reported once**.
-/

import SimpleWeb.ClientLifecycle

set_option relaxedAutoImplicit false
set_option autoImplicit false

namespace SimpleWeb

/-- What has been called before the end is not called again when it comes first. -/
theorem Turn.onOpen_notMem_tail {callbacks : Callbacks} {keeps : Bool} {big : Prop}
    {s s' : Standing} (h : Turn callbacks keeps big s s') (hs : .onOpen ∉ s.calls.tail) :
    .onOpen ∉ s'.calls.tail := by
  have happend : ∀ es : List Event, .onOpen ∉ es → .onOpen ∉ (s.calls ++ es).tail := by
    intro es hes hmem
    cases hcalls : s.calls with
    | nil =>
        rw [hcalls, List.nil_append] at hmem
        exact hes (List.mem_of_mem_tail hmem)
    | cons e calls =>
        rw [hcalls, List.cons_append, List.tail_cons] at hmem
        rw [hcalls] at hs
        exact (List.mem_append.1 hmem).elim hs hes
  cases h with
  | idle => exact hs
  | handled hreading h =>
      cases h with
      | goesOn reading hes =>
          refine happend _ ?_
          intro hmem
          exact (hes _ hmem).ne_onOpen rfl
      | ends hes =>
          refine happend _ ?_
          intro hmem
          cases hes <;> simp at hmem
  | opens hs =>
      cases hset : callbacks.onOpen <;> simp [Callbacks.isSet, hset]
  | @fails ec hs =>
      intro hmem
      have hfilter := List.mem_of_mem_filter (List.mem_of_mem_tail hmem)
      simp at hfilter

namespace Client

/-! ### From `connect` to `upgrade` -/

/-- A connection from `connect` on, by its outstanding operation: the name is resolved; the connection
is made; a proxy is sent a request, and its response is read; the handshake of the secure layer is
done; and then it is upgraded. -/
inductive Attempt
  | resolving
  | connecting
  | proxyWriting
  | proxyReading
  | handshaking
  | upgrading (s : Stage)

/-- The ends of these operations. -/
inductive Attempt.Act
  | resolved (lock : Bool) (ec : Option ErrorCode)
  | connected (lock : Bool) (ec : Option ErrorCode)
  | proxyWritten (lock : Bool) (ec : Option ErrorCode)
  | proxyRead (lock : Bool) (ec : Option ErrorCode) (streambuf : Bytes)
  | handshaken (lock : Bool) (ec : Option ErrorCode)
  | stage (a : Stage.Act)

namespace Attempt

variable (callbacks : Callbacks) (config : Config) (secure : Bool) (sha1 : Bytes → Digest)
  (beyond : Bytes) (order : Order) (rd : ℕ → Mask) (nonce : Nonce)

/-- `connection_error` before the connection is upgraded. -/
def connectionError (ec : ErrorCode) : Attempt :=
  .upgrading (.connected (({ rd := rd } : Conn).connectionError callbacks ec))

/-- What a handler does first: nothing when the handlers are stopped, and `connection_error` when
there is an error. -/
def handler (lock : Bool) (ec : Option ErrorCode) (next : Attempt) : Attempt :=
  if !lock then .upgrading (.connected { rd := rd })
  else
    match ec with
    | none => next
    | some ec => connectionError callbacks rd ec

/-- The handler of `async_connect`: a plain client knows no more of the proxy. -/
def onConnected : Attempt :=
  if !secure then .upgrading .requested
  else if config.proxyServer ≠ [] then .proxyWriting
  else .handshaking

/-- The handler of the read of the proxy's response. -/
def onProxyRead (streambuf : Bytes) : Attempt :=
  match ResponseMessage.parse streambuf {} with
  | .error _ => .upgrading .ended
  | .ok (success, response, _) =>
      if !success then connectionError callbacks rd .protocolError
      else if response.statusCode.take 3 ≠ ascii "200" then
        connectionError callbacks rd .permissionDenied
      else .handshaking

def act : Attempt → Act → Attempt
  | .resolving, .resolved lock ec => handler callbacks rd lock ec .connecting
  | .connecting, .connected lock ec => handler callbacks rd lock ec (onConnected config secure)
  | .proxyWriting, .proxyWritten lock ec => handler callbacks rd lock ec .proxyReading
  | .proxyReading, .proxyRead lock ec streambuf =>
      handler callbacks rd lock ec (onProxyRead callbacks rd streambuf)
  | .handshaking, .handshaken lock ec => handler callbacks rd lock ec (.upgrading .requested)
  | .upgrading s, .stage a => .upgrading (s.act callbacks config sha1 beyond order rd nonce a)
  | s, _ => s

/-- Whether a read of the read loop is outstanding, and what has been called. -/
def standing : Attempt → Standing
  | .upgrading s => s.standing
  | _ => ⟨false, false, []⟩

/-- A frame header is read whose message is too big. -/
def OverSize : Attempt → Act → Prop
  | .upgrading s, .stage a => s.OverSize config a
  | _, _ => False

variable {callbacks config secure sha1 beyond order rd nonce}

theorem turn_handler {big : Prop} (lock : Bool) (ec : Option ErrorCode) {next : Attempt}
    (hnext : Turn callbacks false big ⟨false, false, []⟩ next.standing) :
    Turn callbacks false big ⟨false, false, []⟩ (handler callbacks rd lock ec next).standing := by
  cases lock with
  | false => exact .idle
  | true =>
      cases ec with
      | none => exact hnext
      | some ec => exact Stage.turn_connectionError rfl rfl ec

theorem turn_onProxyRead {big : Prop} (streambuf : Bytes) :
    Turn callbacks false big ⟨false, false, []⟩
      (onProxyRead callbacks rd streambuf).standing := by
  unfold onProxyRead
  split
  · exact .idle
  split
  · exact Stage.turn_connectionError rfl rfl _
  split
  · exact Stage.turn_connectionError rfl rfl _
  · exact .idle

/-- **What one step does to the calls.** -/
theorem turn_act (s : Attempt) (a : Act) :
    Turn callbacks false (s.OverSize config a) s.standing
      (s.act callbacks config secure sha1 beyond order rd nonce a).standing := by
  cases s with
  | resolving =>
      cases a with
      | resolved lock ec => exact turn_handler lock ec .idle
      | connected | proxyWritten | proxyRead | handshaken | stage => exact .idle
  | connecting =>
      cases a with
      | connected lock ec =>
          refine turn_handler lock ec ?_
          unfold onConnected
          split
          · exact .idle
          split
          · exact .idle
          · exact .idle
      | resolved | proxyWritten | proxyRead | handshaken | stage => exact .idle
  | proxyWriting =>
      cases a with
      | proxyWritten lock ec => exact turn_handler lock ec .idle
      | resolved | connected | proxyRead | handshaken | stage => exact .idle
  | proxyReading =>
      cases a with
      | proxyRead lock ec streambuf => exact turn_handler lock ec (turn_onProxyRead streambuf)
      | resolved | connected | proxyWritten | handshaken | stage => exact .idle
  | handshaking =>
      cases a with
      | handshaken lock ec => exact turn_handler lock ec .idle
      | resolved | connected | proxyWritten | proxyRead | stage => exact .idle
  | upgrading s =>
      cases a with
      | stage a => exact s.turn_act a
      | resolved | connected | proxyWritten | proxyRead | handshaken => exact .idle

end Attempt

/-! ### What has to succeed -/

/-- The operations of an attempt. -/
inductive Step
  | resolve
  | connect
  | proxyWrite
  | proxyRead
  | handshake
  | requestWrite
  | responseRead
  deriving DecidableEq, Repr

/-- The operations before `upgrade`, which depend on the configuration. -/
def Config.stepsToUpgrade (config : Config) (secure : Bool) : List Step :=
  [.resolve, .connect] ++
    if secure then
      (if config.proxyServer ≠ [] then [.proxyWrite, .proxyRead] else []) ++ [.handshake]
    else []

/-- All of them. -/
def Config.steps (config : Config) (secure : Bool) : List Step :=
  config.stepsToUpgrade secure ++ [.requestWrite, .responseRead]

/-- The operation that has succeeded. -/
def Attempt.Act.done? : Attempt.Act → Option Step
  | .resolved true none => some .resolve
  | .connected true none => some .connect
  | .proxyWritten true none => some .proxyWrite
  | .proxyRead true none _ => some .proxyRead
  | .handshaken true none => some .handshake
  | .stage (.requestWritten true none) => some .requestWrite
  | .stage (.responseRead true none _ _) => some .responseRead
  | _ => none

namespace Attempt

variable (config : Config) (secure : Bool)

/-- The operations that have succeeded when a stage is reached.  Of a connection that has been
upgraded they are all if it has been opened, and otherwise it has failed. -/
def reached : Attempt → List Step
  | .resolving => []
  | .connecting => [.resolve]
  | .proxyWriting => [.resolve, .connect]
  | .proxyReading => [.resolve, .connect, .proxyWrite]
  | .handshaking =>
      [.resolve, .connect] ++ if config.proxyServer ≠ [] then [.proxyWrite, .proxyRead] else []
  | .upgrading .requested => config.stepsToUpgrade secure
  | .upgrading .responding => config.stepsToUpgrade secure ++ [.requestWrite]
  | .upgrading s => if .onOpen ∈ s.standing.calls then config.steps secure else []

variable {config secure}
variable {callbacks : Callbacks} {sha1 : Bytes → Digest} {beyond : Bytes} {order : Order}
  {rd : ℕ → Mask} {nonce : Nonce}

/-- An upgraded connection is not opened again. -/
theorem onOpen_of_act (c : Conn) (a : Stage.Act)
    (h : .onOpen ∈ ((Stage.connected c).act callbacks config sha1 beyond order rd nonce
      a).standing.calls) : .onOpen ∈ (Stage.connected c).standing.calls := by
  cases a with
  | requestWritten lock ec => exact h
  | responseRead lock ec streambuf n => exact h
  | act a =>
      cases a with
      | send outMessage b =>
          change .onOpen ∈ (c.send outMessage b).standing.calls at h
          rwa [Conn.standing_send] at h
      | sendClose status reason =>
          change .onOpen ∈ (c.sendClose status reason).standing.calls at h
          rwa [Conn.standing_sendClose] at h
      | complete lock k =>
          change .onOpen ∈ (c.complete callbacks config lock k).standing.calls at h
          cases hreading : c.reading with
          | none =>
              unfold Conn.complete at h
              rwa [hreading] at h
          | some op =>
              have hturn := @Conn.turn_complete callbacks config c lock k
              have hout : c.standing.reading = true := by simp [Conn.standing, hreading]
              generalize (c.complete callbacks config lock k).standing = s' at h hturn
              cases hturn with
              | idle => exact h
              | handled _ hhandled =>
                  cases hhandled with
                  | goesOn reading hes =>
                      refine (List.mem_append.1 h).resolve_right ?_
                      intro hmem
                      exact (hes _ hmem).ne_onOpen rfl
                  | ends hes =>
                      refine (List.mem_append.1 h).resolve_right ?_
                      intro hmem
                      cases hes <;> simp at hmem
              | opens hs => simp [hs] at hout
              | fails hs => simp [hs] at hout

/-- Nothing has been opened before the connection is upgraded. -/
theorem reached_failed {c : Conn} (hlog : c.log = []) :
    (upgrading (.connected c)).reached config secure = [] := by
  rw [reached, if_neg]
  simp [Stage.standing, Conn.standing, hlog]
  all_goals simp

theorem reached_connectionError {c : Conn} (hlog : c.log = []) (ec : ErrorCode) :
    (upgrading (.connected (c.connectionError callbacks ec))).reached config secure = [] := by
  rw [reached, if_neg]
  · rw [Stage.standing, Conn.standing_connectionError]
    simp [Conn.standing, hlog]
  all_goals simp

/-- A handler goes on when there is no error. -/
theorem reached_handler {steps : List Step} (lock : Bool) (ec : Option ErrorCode) {next : Attempt}
    {a : Act} {step : Step} (ha : lock = true → ec = none → a.done? = some step)
    (hnext : (next.reached config secure).Sublist (steps ++ [step])) :
    ((handler callbacks rd lock ec next).reached config secure).Sublist
      (steps ++ a.done?.toList) := by
  cases lock with
  | false =>
      have hfailed := @reached_failed config secure { rd := rd } rfl
      exact hfailed ▸ List.nil_sublist _
  | true =>
      cases ec with
      | none =>
          rw [ha rfl rfl]
          exact hnext
      | some ec =>
          have hfailed := @reached_connectionError config secure callbacks { rd := rd } rfl ec
          exact hfailed ▸ List.nil_sublist _

theorem reached_onProxyRead (streambuf : Bytes) :
    ((onProxyRead callbacks rd streambuf).reached config secure).Sublist
      ([.resolve, .connect, .proxyWrite] ++ [.proxyRead]) := by
  have hfailed : ∀ ec, ((connectionError callbacks rd ec).reached config secure).Sublist
      ([.resolve, .connect, .proxyWrite] ++ [.proxyRead]) := by
    intro ec
    rw [connectionError, reached_connectionError rfl ec]
    exact List.nil_sublist _
  unfold onProxyRead
  split
  · simp [reached, Stage.standing]
  split
  · exact hfailed _
  split
  · exact hfailed _
  · rw [reached]
    split
    · exact List.Sublist.refl _
    · exact List.sublist_append_left [Step.resolve, Step.connect] [.proxyWrite, .proxyRead]

/-- What the end of the handshake leads to. -/
theorem reached_responding (a : Stage.Act) :
    ((upgrading ((Stage.responding).act callbacks config sha1 beyond order rd nonce a)).reached
      config secure).Sublist
      (config.stepsToUpgrade secure ++ [.requestWrite] ++ (Act.stage a).done?.toList) := by
  cases a with
  | requestWritten | act => exact List.sublist_append_left _ _
  | responseRead lock ec streambuf n =>
      cases lock with
      | false =>
          have hfailed := @reached_failed config secure
            { inMessage := { InMessage.empty with streambuf := streambuf }, rd := rd } rfl
          exact hfailed ▸ List.nil_sublist _
      | true =>
          cases ec with
          | some ec =>
              have hfailed := @reached_connectionError config secure callbacks
                { inMessage := { InMessage.empty with streambuf := streambuf }, rd := rd } rfl ec
              exact hfailed ▸ List.nil_sublist _
          | none =>
              -- everything before it has succeeded, whatever the response is
              have hsteps : config.stepsToUpgrade secure ++ [.requestWrite] ++
                  (Act.stage (.responseRead true none streambuf n)).done?.toList =
                    config.steps secure := by
                rw [List.append_assoc]
                rfl
              rw [hsteps, Stage.act]
              split
              · rw [reached]
                · split
                  · exact List.Sublist.refl _
                  · exact List.nil_sublist _
                all_goals simp
              · simp [reached, Stage.standing]

/-- **How far one step leads.** -/
theorem reached_act (s : Attempt) (a : Act) :
    ((s.act callbacks config secure sha1 beyond order rd nonce a).reached config secure).Sublist
      (s.reached config secure ++ a.done?.toList) := by
  have hsame : (s.reached config secure).Sublist (s.reached config secure ++ a.done?.toList) :=
    List.sublist_append_left _ _
  cases s with
  | resolving =>
      cases a with
      | resolved lock ec =>
          exact reached_handler lock ec (by rintro rfl rfl; rfl) (List.Sublist.refl _)
      | connected | proxyWritten | proxyRead | handshaken | stage => exact hsame
  | connecting =>
      cases a with
      | connected lock ec =>
          refine reached_handler lock ec (by rintro rfl rfl; rfl) ?_
          unfold onConnected
          cases secure with
          | false => exact List.Sublist.refl _
          | true =>
              by_cases hproxy : config.proxyServer ≠ []
              · rw [if_neg (by simp), if_pos hproxy]
                exact List.Sublist.refl _
              · rw [if_neg (by simp), if_neg hproxy]
                simp only [reached, if_neg hproxy]
                exact List.Sublist.refl _
      | resolved | proxyWritten | proxyRead | handshaken | stage => exact hsame
  | proxyWriting =>
      cases a with
      | proxyWritten lock ec =>
          refine reached_handler lock ec (by rintro rfl rfl; rfl) ?_
          exact List.Sublist.refl _
      | resolved | connected | proxyRead | handshaken | stage => exact hsame
  | proxyReading =>
      cases a with
      | proxyRead lock ec streambuf =>
          refine reached_handler lock ec (by rintro rfl rfl; rfl) ?_
          exact reached_onProxyRead streambuf
      | resolved | connected | proxyWritten | handshaken | stage => exact hsame
  | handshaking =>
      cases a with
      | handshaken lock ec =>
          refine reached_handler lock ec (by rintro rfl rfl; rfl) ?_
          simp only [reached, Config.stepsToUpgrade]
          cases secure with
          | false => simp
          | true => simp
      | resolved | connected | proxyWritten | proxyRead | stage => exact hsame
  | upgrading s =>
      cases a with
      | resolved | connected | proxyWritten | proxyRead | handshaken => exact hsame
      | stage a =>
          cases s with
          | requested =>
              cases a with
              | requestWritten lock ec =>
                  cases lock with
                  | false =>
                      have hfailed := @reached_failed config secure { rd := rd } rfl
                      exact hfailed ▸ List.nil_sublist _
                  | true =>
                      cases ec with
                      | none => exact List.Sublist.refl _
                      | some ec =>
                          have hfailed :=
                            @reached_connectionError config secure callbacks { rd := rd } rfl ec
                          exact hfailed ▸ List.nil_sublist _
              | responseRead | act => exact hsame
          | responding => exact reached_responding a
          | connected c =>
              have hconnected : ∃ c', (Stage.connected c).act callbacks config sha1 beyond order rd
                  nonce a = .connected c' := by
                cases a with
                | requestWritten | responseRead => exact ⟨c, rfl⟩
                | act a => exact ⟨_, rfl⟩
              obtain ⟨c', hc'⟩ := hconnected
              have hopen := @onOpen_of_act config callbacks sha1 beyond order rd nonce c a
              rw [hc'] at hopen
              simp only [act, hc', reached]
              split
              · next hmem =>
                  rw [if_pos (hopen hmem)]
                  exact List.sublist_append_left _ _
              · exact List.nil_sublist _
          | ended => cases a <;> exact hsame

end Attempt

/-- **What is reported of an attempt to connect**, plain or secure, through a proxy or not.  In every
run a connection is reported as open only once every operation has succeeded, in their order, and
before anything else; and at most one call ends it, unless it is opened and a message comes up that is
too big. -/
theorem attempt_settles (callbacks : Callbacks) (config : Config) (secure : Bool)
    (sha1 : Bytes → Digest) (beyond : Bytes) (order : Order) (rd : ℕ → Mask) (nonce : Nonce)
    (acts : List Attempt.Act) :
    let act := Attempt.act callbacks config secure sha1 beyond order rd nonce
    let calls := (acts.foldl act .resolving).standing.calls
    OneTerminal (CameUp act (Attempt.OverSize config) .resolving acts) calls ∧
      .onOpen ∉ calls.tail ∧
      (.onOpen ∈ calls → (config.steps secure).Sublist (acts.filterMap Attempt.Act.done?)) := by
  intro act calls
  have hturn := fun s a =>
    @Attempt.turn_act callbacks config secure sha1 beyond order rd nonce s a
  refine ⟨?_, ?_, ?_⟩
  · exact @run_oneTerminal _ _ act Attempt.standing false (Attempt.OverSize config) .resolving
      (fun s a => Or.inl ⟨callbacks, hturn s a⟩) rfl acts
  · induction acts using List.reverseRecOn with
    | nil => simp [calls, Attempt.standing]
    | append_singleton acts a ih =>
        have hnext := (hturn (acts.foldl act .resolving) a).onOpen_notMem_tail ih
        simpa [calls, act] using hnext
  · have hreached : ((acts.foldl act .resolving).reached config secure).Sublist
        (acts.filterMap Attempt.Act.done?) := by
      clear calls
      induction acts using List.reverseRecOn with
      | nil => exact List.nil_sublist _
      | append_singleton acts a ih =>
          have hstep := @Attempt.reached_act config secure callbacks sha1 beyond order rd nonce
            (acts.foldl act .resolving) a
          have hdone : (acts ++ [a]).filterMap Attempt.Act.done? =
              acts.filterMap Attempt.Act.done? ++ a.done?.toList := by
            rw [List.filterMap_append]
            cases ha : a.done? <;> simp [ha]
          rw [List.foldl_append, hdone]
          exact hstep.trans (ih.append (List.Sublist.refl _))
    intro hopen
    simp only [calls] at hopen
    cases hs : acts.foldl act .resolving with
    | upgrading s =>
        rw [hs] at hopen hreached
        cases s with
        | connected c =>
            rw [Attempt.reached, if_pos (show .onOpen ∈ (Stage.connected c).standing.calls from
              hopen)] at hreached
            · exact hreached
            all_goals simp
        | requested | responding | ended => cases hopen
    | resolving | connecting | proxyWriting | proxyReading | handshaking =>
        rw [hs] at hopen
        cases hopen

end Client

end SimpleWeb
