/-
**A timer that is set again and again.**

A timer is set for what it is to watch, and runs out when the time allowed for that has passed; it is
set again, or cleared, before it does.  When it has run out its handler can be run, and that it is
set or cleared in the meantime does not prevent it.  The time is that of a clock, which goes on
whatever else happens.

A machine works a timer when each of its actions makes certain calls.  Between two calls that set or
clear it the machine leaves its timer alone, and this is what the timer measures: its handler can be
run as soon as the machine has left it alone for the time allowed, and not before.

Main definitions:

* `Watch`, `Watch.Op`, `Watch.op` — a timer with its clock, and what can be done with it;
* `Watch.Due`, `Watch.Guards` — its handler can be run; it will be able to in time;
* `Watch.Silent` — an action leaves the timer alone.

Main results:

* `Watch.Guards.op` — what does not set, clear or handle a timer keeps a guard;
* `Watch.Guards.elapsed_lt` — **not later**: for how long a guarded timer has been left alone;
* `Watch.waited_of_expired` — **not sooner**: a timer that has run out was left alone for its time.
-/

import SimpleWeb.Machine

set_option relaxedAutoImplicit false
set_option autoImplicit false

/-- A clock, and a timer: when it runs out, and what it watches.  `expired` are the timers that have
run out and whose handlers have not been run.  `touched` records when the timer has last been set or
cleared; nothing depends on it. -/
structure Watch (α : Type*) where
  now : ℕ := 0
  timer : Option (ℕ × α) := none
  expired : List α := []
  touched : ℕ := 0

namespace Watch

variable {α : Type*}

/-! ### What is done with a timer -/

/-- The timer is set or cleared; the clock goes on; the timer runs out, if its time has passed; the
handler of the first of those that have run out is run. -/
inductive Op (α : Type*)
  | set (a : α)
  | clear
  | tick
  | runOut
  | handle

/-- The operations that the program calls. -/
def Op.Touches : Op α → Prop
  | .set _ => True
  | .clear => True
  | .tick => False
  | .runOut => False
  | .handle => False

variable (limit : α → ℕ)

def op (w : Watch α) : Op α → Watch α
  | .set a => { w with timer := some (w.now + limit a, a), touched := w.now }
  | .clear => { w with timer := none, touched := w.now }
  | .tick => { w with now := w.now + 1 }
  | .runOut =>
      match w.timer with
      | none => w
      | some (deadline, a) =>
          if deadline ≤ w.now then { w with timer := none, expired := w.expired ++ [a] } else w
  | .handle => { w with expired := w.expired.tail }

/-- Several operations, one after the other. -/
def ops (w : Watch α) (os : List (Op α)) : Watch α := os.foldl (op limit) w

/-- A timer has run out, whether or not that has been noticed. -/
def Due (w : Watch α) : Prop :=
  w.expired ≠ [] ∨ ∃ deadline a, w.timer = some (deadline, a) ∧ deadline ≤ w.now

theorem due_iff (w : Watch α) :
    (!w.expired.isEmpty || w.timer.any (·.1 ≤ w.now)) = true ↔ w.Due := by
  simp [Due, Option.any_eq_true]

instance (w : Watch α) : Decidable w.Due := decidable_of_iff _ w.due_iff

/-- A timer has run out, or one will when the given time has passed since it was set. -/
def Guards (w : Watch α) (time : ℕ) : Prop :=
  w.Due ∨ ∃ a, w.timer = some (w.touched + time, a)

/-- A timer runs out when the time for what it watches has passed since it was set. -/
def Timely (w : Watch α) : Prop :=
  w.touched ≤ w.now ∧ ∀ deadline a, w.timer = some (deadline, a) → deadline = w.touched + limit a

variable {limit} {w : Watch α}

@[simp] theorem ops_nil (w : Watch α) : w.ops limit [] = w := rfl

@[simp] theorem ops_cons (w : Watch α) (o : Op α) (os : List (Op α)) :
    w.ops limit (o :: os) = (w.op limit o).ops limit os := rfl

theorem ops_append (w : Watch α) (os os' : List (Op α)) :
    w.ops limit (os ++ os') = (w.ops limit os).ops limit os' :=
  List.foldl_append

/-! ### One operation -/

/-- What running out does. -/
theorem op_runOut_cases (limit : α → ℕ) (w : Watch α) :
    w.op limit .runOut = w ∨ ∃ deadline a, w.timer = some (deadline, a) ∧ deadline ≤ w.now ∧
      w.op limit .runOut = { w with timer := none, expired := w.expired ++ [a] } := by
  cases htimer : w.timer with
  | none => exact Or.inl (by simp only [op, htimer])
  | some p =>
      obtain ⟨deadline, a⟩ := p
      by_cases hdue : deadline ≤ w.now
      · exact Or.inr ⟨deadline, a, rfl, hdue, by simp only [op, htimer, if_pos hdue]⟩
      · exact Or.inl (by simp only [op, htimer, if_neg hdue])

theorem timely_init : Timely limit ({} : Watch α) := ⟨le_rfl, by simp⟩

theorem Timely.op (h : w.Timely limit) (o : Op α) : (w.op limit o).Timely limit := by
  cases o with
  | set a =>
      refine ⟨le_rfl, ?_⟩
      intro deadline b htimer
      obtain ⟨rfl, rfl⟩ := Prod.mk.inj (Option.some.inj htimer)
      rfl
  | clear => exact ⟨le_rfl, by simp [Watch.op]⟩
  | tick => exact ⟨h.1.trans (Nat.le_succ _), h.2⟩
  | runOut =>
      rcases op_runOut_cases limit w with hsame | ⟨deadline, a, -, -, hout⟩
      · rwa [hsame]
      · rw [hout]
        exact ⟨h.1, by simp⟩
  | handle => exact h

theorem Timely.ops (h : w.Timely limit) (os : List (Op α)) : (w.ops limit os).Timely limit := by
  induction os generalizing w with
  | nil => exact h
  | cons o os ih => exact ih (h.op o)

/-- The clock does not go back. -/
theorem now_le_ops (w : Watch α) (os : List (Op α)) : w.now ≤ (w.ops limit os).now := by
  induction os generalizing w with
  | nil => exact le_rfl
  | cons o os ih =>
      refine le_trans ?_ (ih _)
      cases o with
      | set a => exact le_rfl
      | clear => exact le_rfl
      | tick => exact Nat.le_succ _
      | runOut =>
          rcases op_runOut_cases limit w with hsame | ⟨deadline, a, -, -, hout⟩
          · rw [hsame]
          · rw [hout]
      | handle => exact le_rfl

theorem guards_set (w : Watch α) (a : α) : (w.op limit (.set a)).Guards (limit a) :=
  Or.inr ⟨a, rfl⟩

/-- **What does not set, clear or handle a timer keeps a guard.** -/
theorem Guards.op {time : ℕ} (h : w.Guards time) (limit : α → ℕ) {o : Op α} (ho : ¬ o.Touches)
    (hhandle : o ≠ .handle) : (w.op limit o).Guards time := by
  cases o with
  | set a => exact absurd trivial ho
  | clear => exact absurd trivial ho
  | tick =>
      rcases h with (hexpired | ⟨deadline, a, htimer, hdue⟩) | ⟨a, htimer⟩
      · exact Or.inl (Or.inl hexpired)
      · exact Or.inl (Or.inr ⟨deadline, a, htimer, hdue.trans (Nat.le_succ _)⟩)
      · exact Or.inr ⟨a, htimer⟩
  | runOut =>
      rcases op_runOut_cases limit w with hsame | ⟨deadline, a, -, -, hout⟩
      · rwa [hsame]
      · rw [hout]
        exact Or.inl (Or.inl (by simp))
  | handle => exact absurd rfl hhandle

/-- What is guarded has not waited longer than the given time, unless a timer has run out. -/
theorem Guards.now_lt {time : ℕ} (h : w.Guards time) (hdue : ¬ w.Due) :
    w.now < w.touched + time := by
  rcases h with h | ⟨a, htimer⟩
  · exact absurd h hdue
  · by_contra hle
    exact hdue (Or.inr ⟨_, a, htimer, Nat.not_lt.1 hle⟩)

/-! ### Several operations -/

/-- What leaves the timer alone. -/
theorem op_of_not_touches (limit : α → ℕ) {o : Op α} (ho : ¬ o.Touches) (w : Watch α) :
    (w.op limit o).touched = w.touched ∧
      ∀ p, (w.op limit o).timer = some p → w.timer = some p := by
  cases o with
  | set a => exact absurd trivial ho
  | clear => exact absurd trivial ho
  | tick => exact ⟨rfl, fun p hp => hp⟩
  | runOut =>
      rcases op_runOut_cases limit w with hsame | ⟨deadline, a, -, -, hout⟩
      · rw [hsame]
        exact ⟨rfl, fun p hp => hp⟩
      · rw [hout]
        exact ⟨rfl, by simp⟩
  | handle => exact ⟨rfl, fun p hp => hp⟩

theorem ops_of_not_touches (limit : α → ℕ) {os : List (Op α)} (hos : ∀ o ∈ os, ¬ o.Touches)
    (w : Watch α) :
    (w.ops limit os).touched = w.touched ∧
      ∀ p, (w.ops limit os).timer = some p → w.timer = some p := by
  induction os generalizing w with
  | nil => exact ⟨rfl, fun p hp => hp⟩
  | cons o os ih =>
      obtain ⟨ho, hos⟩ := List.forall_mem_cons.1 hos
      obtain ⟨htouched, htimer⟩ := op_of_not_touches limit ho w
      obtain ⟨htouched', htimer'⟩ := ih hos (w.op limit o)
      exact ⟨htouched'.trans htouched, fun p hp => htimer p (htimer' p hp)⟩

/-- Setting and clearing a timer does not stop the handlers of those that have run out. -/
theorem expired_ops {os : List (Op α)} (hos : ∀ o ∈ os, o.Touches) (w : Watch α) :
    (w.ops limit os).expired = w.expired := by
  induction os generalizing w with
  | nil => rfl
  | cons o os ih =>
      obtain ⟨ho, hos⟩ := List.forall_mem_cons.1 hos
      rw [ops_cons, ih hos]
      cases o with
      | set a => rfl
      | clear => rfl
      | tick => exact ho.elim
      | runOut => exact ho.elim
      | handle => exact ho.elim

/-- While the timer is left alone, what runs out is what it is set for. -/
theorem mem_expired_ops {os : List (Op α)} (hos : ∀ o ∈ os, ¬ o.Touches) {a : α}
    (ha : a ∈ (w.ops limit os).expired) :
    a ∈ w.expired ∨
      ∃ deadline, w.timer = some (deadline, a) ∧ deadline ≤ (w.ops limit os).now := by
  induction os generalizing w with
  | nil => exact Or.inl ha
  | cons o os ih =>
      obtain ⟨ho, hos⟩ := List.forall_mem_cons.1 hos
      rcases ih hos ha with hexpired | ⟨deadline, htimer, hle⟩
      · cases o with
        | set b => exact absurd trivial ho
        | clear => exact absurd trivial ho
        | tick => exact Or.inl hexpired
        | runOut =>
            rcases op_runOut_cases limit w with hsame | ⟨deadline, b, htimer, hdue, hout⟩
            · rw [hsame] at hexpired
              exact Or.inl hexpired
            · rw [hout] at hexpired
              rcases List.mem_append.1 hexpired with hexpired | hexpired
              · exact Or.inl hexpired
              · -- it is the one that runs out now
                obtain rfl := List.mem_singleton.1 hexpired
                refine Or.inr ⟨deadline, htimer, hdue.trans ?_⟩
                exact now_le_ops w (.runOut :: os)
        | handle => exact Or.inl (List.mem_of_mem_tail hexpired)
      · exact Or.inr ⟨deadline, (op_of_not_touches limit ho w).2 _ htimer, hle⟩

/-- What is called at one moment. -/
theorem ops_of_prompt (limit : α → ℕ) {os : List (Op α)}
    (hos : ∀ o ∈ os, o ≠ .tick ∧ o ≠ .runOut) (w : Watch α) :
    (w.ops limit os).now = w.now ∧ (w.ops limit os).expired ⊆ w.expired ∧
      (w.touched = w.now ∨ (∃ o ∈ os, o.Touches) → (w.ops limit os).touched = w.now) := by
  induction os generalizing w with
  | nil => exact ⟨rfl, List.Subset.refl _, by simp⟩
  | cons o os ih =>
      obtain ⟨⟨htick, hrunOut⟩, hos⟩ := List.forall_mem_cons.1 hos
      obtain ⟨hnow, hexpired, htouched⟩ := ih hos (w.op limit o)
      have hone : (w.op limit o).now = w.now ∧ (w.op limit o).expired ⊆ w.expired ∧
          (w.touched = w.now ∨ o.Touches → (w.op limit o).touched = w.now) := by
        cases o with
        | set a => exact ⟨rfl, List.Subset.refl _, fun _ => rfl⟩
        | clear => exact ⟨rfl, List.Subset.refl _, fun _ => rfl⟩
        | tick => exact absurd rfl htick
        | runOut => exact absurd rfl hrunOut
        | handle => exact ⟨rfl, List.tail_subset _, fun h => h.resolve_right (fun h => h)⟩
      refine ⟨hnow.trans hone.1, List.Subset.trans hexpired hone.2.1, ?_⟩
      intro h
      have hnext : (w.op limit o).touched = (w.op limit o).now ∨ ∃ o ∈ os, o.Touches := by
        rcases h with h | ⟨o', ho', h⟩
        · exact Or.inl ((hone.2.2 (Or.inl h)).trans hone.1.symm)
        · rcases List.mem_cons.1 ho' with rfl | ho'
          · exact Or.inl ((hone.2.2 (Or.inr h)).trans hone.1.symm)
          · exact Or.inr ⟨o', ho', h⟩
      exact (htouched hnext).trans hone.1

/-! ### Machines that work a timer -/

section run

variable {σ β : Type*}

/-- An action leaves the timer alone. -/
def Silent (calls : σ → β → List (Op α)) (s : σ) (b : β) : Prop := ∀ o ∈ calls s b, ¬ o.Touches

/-- Each action makes its calls, and one that sets or clears the timer takes no time. -/
structure Works (limit : α → ℕ) (act : σ → β → σ) (watch : σ → Watch α)
    (calls : σ → β → List (Op α)) : Prop where
  act : ∀ s b, watch (act s b) = (watch s).ops limit (calls s b)
  prompt : ∀ s b, (∃ o ∈ calls s b, o.Touches) → ∀ o ∈ calls s b, o ≠ .tick ∧ o ≠ .runOut

/-- In a run from `s` the timer has been set for `a`, and then left alone for the time allowed. -/
def Waited (limit : α → ℕ) (act : σ → β → σ) (watch : σ → Watch α)
    (calls : σ → β → List (Op α)) (s : σ) (acts : List β) (a : α) : Prop :=
  ∃ pre later post, acts = pre ++ later ++ post ∧
    Machine.Along act (Silent calls) (pre.foldl act s) later ∧
    (watch (pre.foldl act s)).timer = some ((watch (pre.foldl act s)).now + limit a, a) ∧
    (watch (pre.foldl act s)).now + limit a ≤ (watch ((pre ++ later).foldl act s)).now

variable {act : σ → β → σ} {watch : σ → Watch α} {calls : σ → β → List (Op α)} {s : σ}

theorem Waited.append {acts : List β} {a : α} (h : Waited limit act watch calls s acts a)
    (more : List β) : Waited limit act watch calls s (acts ++ more) a := by
  obtain ⟨pre, later, post, rfl, h⟩ := h
  exact ⟨pre, later, post ++ more, by simp, h⟩

variable (hworks : Works limit act watch calls)

include hworks

theorem Works.timely (hs : (watch s).Timely limit) (acts : List β) :
    (watch (acts.foldl act s)).Timely limit := by
  induction acts using List.reverseRecOn with
  | nil => exact hs
  | append_singleton acts b ih =>
      rw [List.foldl_append, List.foldl_cons, List.foldl_nil, hworks.act]
      exact ih.ops _

/-- What stays as it is while the timer is left alone. -/
theorem Works.silent {later : List β} (h : Machine.Along act (Silent calls) s later) :
    (watch (later.foldl act s)).touched = (watch s).touched ∧
      ∀ p, (watch (later.foldl act s)).timer = some p → (watch s).timer = some p := by
  induction later generalizing s with
  | nil => exact ⟨rfl, fun p hp => hp⟩
  | cons b later ih =>
      obtain ⟨hb, hlater⟩ := h
      obtain ⟨htouched, htimer⟩ := ih hlater
      obtain ⟨htouched', htimer'⟩ := ops_of_not_touches limit hb (watch s)
      rw [← hworks.act] at htouched' htimer'
      exact ⟨htouched.trans htouched', fun p hp => htimer' p (htimer p hp)⟩

/-- **Not later**: for how long a guarded timer has been left alone. -/
theorem Works.elapsed_lt (hs : (watch s).Timely limit) {later : List β}
    (hlater : Machine.Along act (Silent calls) s later) {time : ℕ}
    (hguards : (watch (later.foldl act s)).Guards time)
    (hdue : ¬ (watch (later.foldl act s)).Due) :
    (watch (later.foldl act s)).now < (watch s).now + time := by
  have hnow := hguards.now_lt hdue
  rw [(hworks.silent hlater).1] at hnow
  exact hnow.trans_le (Nat.add_le_add_right hs.1 time)

/-- The last action that has set or cleared the timer; it has been left alone since. -/
theorem Works.exists_silent (hs : (watch s).touched = (watch s).now) (acts : List β) :
    ∃ pre later, acts = pre ++ later ∧
      Machine.Along act (Silent calls) (pre.foldl act s) later ∧
      (watch (pre.foldl act s)).touched = (watch (pre.foldl act s)).now := by
  induction acts using List.reverseRecOn with
  | nil => exact ⟨[], [], rfl, trivial, hs⟩
  | append_singleton acts b ih =>
      obtain ⟨pre, later, rfl, hlater, htouched⟩ := ih
      by_cases hb : Silent calls ((pre ++ later).foldl act s) b
      · refine ⟨pre, later ++ [b], by simp, ?_, htouched⟩
        rw [List.foldl_append] at hb
        exact Machine.along_append.2 ⟨hlater, hb, trivial⟩
      · -- the last action is the one
        refine ⟨pre ++ later ++ [b], [], by simp, trivial, ?_⟩
        have htouches : ∃ o ∈ calls ((pre ++ later).foldl act s) b, o.Touches := by
          simpa [Silent] using hb
        obtain ⟨hnow, -, hnext⟩ := ops_of_prompt limit (hworks.prompt _ _ htouches)
          (watch ((pre ++ later).foldl act s))
        rw [List.foldl_append, List.foldl_cons, List.foldl_nil, hworks.act, hnow]
        exact hnext (Or.inr htouches)

/-- The timer was set at one moment of the run, and has been left alone since. -/
theorem Works.waited_of_timer (hs : (watch s).Timely limit)
    (hstart : (watch s).touched = (watch s).now) (acts : List β) {deadline : ℕ} {a : α}
    (htimer : (watch (acts.foldl act s)).timer = some (deadline, a)) (more : List β)
    (hmore : Machine.Along act (Silent calls) (acts.foldl act s) more)
    (hdue : deadline ≤ (watch ((acts ++ more).foldl act s)).now) :
    Waited limit act watch calls s (acts ++ more) a := by
  obtain ⟨pre, later, rfl, hlater, htouched⟩ := hworks.exists_silent hstart acts
  rw [List.foldl_append] at htimer hmore
  have hset := (hworks.silent hlater).2 _ htimer
  have hdeadline := (hworks.timely hs pre).2 _ _ hset
  rw [htouched] at hdeadline
  subst hdeadline
  refine ⟨pre, later ++ more, [], by simp, Machine.along_append.2 ⟨hlater, hmore⟩, hset, ?_⟩
  rwa [← List.append_assoc]

/-- **Not sooner**: a timer that has run out was left alone for its time. -/
theorem Works.waited_of_expired (hs : (watch s).Timely limit)
    (hstart : (watch s).touched = (watch s).now) (hexpired : (watch s).expired = [])
    (acts : List β) {a : α} (ha : a ∈ (watch (acts.foldl act s)).expired) :
    Waited limit act watch calls s acts a := by
  induction acts using List.reverseRecOn with
  | nil =>
      rw [List.foldl_nil, hexpired] at ha
      cases ha
  | append_singleton acts b ih =>
      have hact := hworks.act (acts.foldl act s) b
      rw [List.foldl_append, List.foldl_cons, List.foldl_nil, hact] at ha
      by_cases hb : Silent calls (acts.foldl act s) b
      · rcases mem_expired_ops hb ha with ha | ⟨deadline, htimer, hdue⟩
        · exact (ih ha).append [b]
        · -- it runs out now
          refine hworks.waited_of_timer hs hstart acts htimer [b] ⟨hb, trivial⟩ ?_
          rwa [List.foldl_append, List.foldl_cons, List.foldl_nil, hact]
      · have htouches : ∃ o ∈ calls (acts.foldl act s) b, o.Touches := by
          simpa [Silent] using hb
        obtain ⟨-, hsub, -⟩ := ops_of_prompt limit (hworks.prompt _ _ htouches)
          (watch (acts.foldl act s))
        exact (ih (hsub ha)).append [b]

/-- A timer whose handler can be run was left alone for its time. -/
theorem Works.waited_of_due (hs : (watch s).Timely limit)
    (hstart : (watch s).touched = (watch s).now) (hexpired : (watch s).expired = [])
    (acts : List β) (hdue : (watch (acts.foldl act s)).Due) :
    ∃ a, Waited limit act watch calls s acts a := by
  rcases hdue with hne | ⟨deadline, a, htimer, hdue⟩
  · obtain ⟨a, ha⟩ := List.exists_mem_of_ne_nil _ hne
    exact ⟨a, hworks.waited_of_expired hs hstart hexpired acts ha⟩
  · have hwaited := hworks.waited_of_timer hs hstart acts htimer [] trivial
    rw [List.append_nil] at hwaited
    exact ⟨a, hwaited hdue⟩

end run

end Watch
