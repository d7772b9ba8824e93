/-
**Machines driven by actions, and readers of a byte stream.**

Two ways of running a state are used throughout.  A *machine* is a state with a function
`act : σ → α → σ` and a predicate saying which actions are allowed in which state; its reachable
states are `Machine.Reach`, and `Machine.Reach.invariant` is the rule that proves a property of all
of them.  A machine that goes on by itself, until it stops, has a partial function for a step.  A
*reader* is a state with at most one outstanding read of a known size; it is completed by the
environment, and `Reader.run` completes it again and again with exactly the next elements of a source.

Main definitions:

* `Machine.Reach` — the states reachable by allowed actions;
* `Machine.Along` — a property of each action of a run;
* `Machine.iterate`, `Machine.Leads` — steps until there is no further one;
* `Completion`, `Completion.Obeys` — the outcome of one read, and what a read of exactly `n`
  elements may deliver;
* `Reader`, `Source`, `Reader.step`, `Reader.run` — reading a source by exact reads;
* `Reader.Reads` — from `s` the reader consumes exactly `xs` and is then in `t`.

Main results:

* `Machine.Reach.invariant` — **the invariant rule**;
* `Machine.along_iff` — when exactly an invariant holds throughout a run;
* `Machine.Leads.eventually` — what a run leads to, and stops at, is what it ends with;
* `Reader.Reads.trans`, `Reader.Reads.one` — consumption composes;
* `Reader.run_invariant` — **what completions preserve, a run preserves**;
* `Reader.run_lockstep` — two readers whose steps correspond stay in correspondence.
-/

import Mathlib.Tactic

set_option relaxedAutoImplicit false
set_option autoImplicit false

/-! ### Reachable states -/

namespace Machine

variable {σ α : Type*}

/-- The states reachable from a state satisfying `start` by actions that are `allowed` where they
are taken. -/
inductive Reach (act : σ → α → σ) (allowed : σ → α → Prop) (start : σ → Prop) : σ → Prop
  | init {s : σ} : start s → Reach act allowed start s
  | step {s : σ} {a : α} : Reach act allowed start s → allowed s a →
      Reach act allowed start (act s a)

variable {act : σ → α → σ} {allowed : σ → α → Prop} {start : σ → Prop}

/-- **The invariant rule**: what holds initially and is preserved by every allowed action holds of
every reachable state. -/
theorem Reach.invariant {Inv : σ → Prop} (hinit : ∀ s, start s → Inv s)
    (hstep : ∀ s a, Inv s → allowed s a → Inv (act s a)) {s : σ}
    (h : Reach act allowed start s) : Inv s := by
  induction h with
  | init hs => exact hinit _ hs
  | step _ ha ih => exact hstep _ _ ih ha

/-- The last of some actions, or one of those before it. -/
theorem append_singleton_eq_iff {acts pre post : List α} {a b : α} :
    acts ++ [a] = pre ++ b :: post ↔
      (post = [] ∧ pre = acts ∧ b = a) ∨ ∃ post', post = post' ++ [a] ∧ acts = pre ++ b :: post' := by
  constructor
  · intro h
    rcases List.eq_nil_or_concat post with rfl | ⟨post, c, rfl⟩
    · obtain ⟨rfl, hb⟩ := List.append_inj' h rfl
      exact Or.inl ⟨rfl, rfl, (List.cons.inj hb).1.symm⟩
    · rw [List.concat_eq_append, ← List.cons_append, ← List.append_assoc] at h
      obtain ⟨rfl, hc⟩ := List.append_inj' h rfl
      rw [List.concat_eq_append, (List.cons.inj hc).1]
      exact Or.inr ⟨post, rfl, rfl⟩
  · rintro (⟨rfl, rfl, rfl⟩ | ⟨post, rfl, rfl⟩)
    · rfl
    · simp

/-! ### Runs of given actions -/

/-- Every action has the property in the state in which it is taken. -/
def Along (act : σ → α → σ) (P : σ → α → Prop) : σ → List α → Prop
  | _, [] => True
  | s, a :: acts => P s a ∧ Along act P (act s a) acts

instance Along.decidable {P : σ → α → Prop} [∀ s a, Decidable (P s a)] :
    ∀ (s : σ) (acts : List α), Decidable (Along act P s acts)
  | _, [] => isTrue trivial
  | s, a :: acts =>
      have : Decidable (Along act P (act s a) acts) := Along.decidable (act s a) acts
      inferInstanceAs (Decidable (P s a ∧ Along act P (act s a) acts))

theorem along_append {P : σ → α → Prop} {s : σ} {acts acts' : List α} :
    Along act P s (acts ++ acts') ↔ Along act P s acts ∧ Along act P (acts.foldl act s) acts' := by
  induction acts generalizing s with
  | nil => simp only [List.nil_append, Along, List.foldl_nil, true_and]
  | cons a acts ih =>
      simp only [List.cons_append, Along, List.foldl_cons, ih]
      exact and_assoc.symm

/-- Allowed actions lead from a reachable state to another. -/
theorem Reach.foldl {s : σ} {acts : List α} (h : Reach act allowed start s)
    (hacts : Along act allowed s acts) : Reach act allowed start (acts.foldl act s) := by
  induction acts generalizing s with
  | nil => exact h
  | cons a acts ih => exact ih (h.step hacts.1) hacts.2

/-- **When exactly an invariant holds throughout a run**: if it is known for each action when that
action keeps it, it holds in every state of the run if and only if every action keeps it. -/
theorem along_iff {Inv : σ → Prop} {P : σ → α → Prop}
    (hstep : ∀ s a, Inv s → allowed s a → (Inv (act s a) ↔ P s a)) {s : σ} (hs : Inv s)
    {acts : List α} (hallowed : Along act allowed s acts) :
    (∀ pre, pre <+: acts → Inv (pre.foldl act s)) ↔ Along act P s acts := by
  induction acts generalizing s with
  | nil =>
      refine iff_of_true ?_ trivial
      intro pre hpre
      rw [List.prefix_nil.1 hpre]
      exact hs
  | cons a acts ih =>
      obtain ⟨ha, hallowed⟩ := hallowed
      rw [Along, ← hstep s a hs ha]
      constructor
      · intro h
        have hnext : Inv (act s a) := h [a] (List.prefix_append [a] acts)
        refine ⟨hnext, (ih hnext hallowed).1 ?_⟩
        intro pre hpre
        exact h (a :: pre) ((List.prefix_cons_inj a).2 hpre)
      · rintro ⟨hnext, h⟩ pre hpre
        cases pre with
        | nil => exact hs
        | cons b pre =>
            obtain ⟨rfl, htail⟩ := List.cons_prefix_cons.1 hpre
            exact (ih hnext hallowed).2 h pre htail

/-! ### Steps until there is no further one -/

/-- At most `n` steps: the run stops where there is no further one. -/
def iterate (step : σ → Option σ) : ℕ → σ → σ
  | 0, s => s
  | n + 1, s =>
      match step s with
      | none => s
      | some t => iterate step n t

/-- Some number of steps goes from one state to the other. -/
def Leads (step : σ → Option σ) (s t : σ) : Prop := ∃ n, iterate step n s = t

variable {step : σ → Option σ} {s t u : σ}

theorem iterate_of_none (h : step s = none) (n : ℕ) : iterate step n s = s := by
  cases n with
  | zero => rfl
  | succ n => simp only [iterate, h]

theorem iterate_add (m n : ℕ) (s : σ) :
    iterate step (m + n) s = iterate step n (iterate step m s) := by
  induction m generalizing s with
  | zero => rw [Nat.zero_add, iterate]
  | succ m ih =>
      rw [Nat.add_right_comm]
      cases h : step s with
      | none => rw [iterate_of_none h, iterate_of_none h, iterate_of_none h]
      | some t => simp only [iterate, h, ih]

theorem Leads.refl (step : σ → Option σ) (s : σ) : Leads step s s := ⟨0, rfl⟩

theorem Leads.trans (h : Leads step s t) (h' : Leads step t u) : Leads step s u := by
  obtain ⟨m, rfl⟩ := h
  obtain ⟨n, rfl⟩ := h'
  exact ⟨m + n, iterate_add m n s⟩

theorem Leads.one (h : step s = some t) : Leads step s t := ⟨1, by simp only [iterate, h]⟩

/-- A machine that makes every step of another one leads where that one leads. -/
theorem Leads.map {τ : Type*} {step' : τ → Option τ} {f : σ → τ}
    (hstep : ∀ s t, step s = some t → step' (f s) = some (f t)) (h : Leads step s t) :
    Leads step' (f s) (f t) := by
  obtain ⟨n, rfl⟩ := h
  induction n generalizing s with
  | zero => exact Leads.refl step' _
  | succ n ih =>
      cases hs : step s with
      | none =>
          rw [iterate_of_none hs]
          exact Leads.refl step' _
      | some u =>
          simp only [iterate, hs]
          exact (Leads.one (hstep s u hs)).trans ih

/-- **What a run leads to, and stops at, is what it ends with.** -/
theorem Leads.eventually (h : Leads step s t) (ht : step t = none) :
    ∃ m, ∀ n, m ≤ n → iterate step n s = t := by
  obtain ⟨m, rfl⟩ := h
  refine ⟨m, ?_⟩
  intro n hn
  obtain ⟨k, rfl⟩ := Nat.exists_eq_add_of_le hn
  rw [iterate_add, iterate_of_none ht]

/-- Of two states that a run leads to, one leads to the other. -/
theorem Leads.total (h : Leads step s t) (h' : Leads step s u) : Leads step t u ∨ Leads step u t := by
  obtain ⟨m, rfl⟩ := h
  obtain ⟨n, rfl⟩ := h'
  rcases Nat.le_total m n with hle | hle
  · obtain ⟨k, rfl⟩ := Nat.exists_eq_add_of_le hle
    exact Or.inl ⟨k, (iterate_add m k s).symm⟩
  · obtain ⟨k, rfl⟩ := Nat.exists_eq_add_of_le hle
    exact Or.inr ⟨k, (iterate_add n k s).symm⟩

/-- A state at which a run stops is behind all others. -/
theorem Leads.last (h : Leads step s t) (ht : step t = none) (h' : Leads step s u) :
    Leads step u t := by
  rcases h.total h' with hle | hle
  · obtain ⟨n, rfl⟩ := hle
    rw [iterate_of_none ht]
    exact Leads.refl step t
  · exact hle

/-- What holds in the end is decided by what a run leads to. -/
theorem Leads.eventually_iff (h : Leads step s t) (P : σ → Prop) :
    (∃ m, ∀ n, m ≤ n → P (iterate step n s)) ↔ ∃ m, ∀ n, m ≤ n → P (iterate step n t) := by
  obtain ⟨k, rfl⟩ := h
  constructor
  · rintro ⟨m, hm⟩
    refine ⟨m, ?_⟩
    intro n hn
    rw [← iterate_add]
    exact hm (k + n) (by omega)
  · rintro ⟨m, hm⟩
    refine ⟨k + m, ?_⟩
    intro n hn
    obtain ⟨l, rfl⟩ := Nat.exists_eq_add_of_le (show k ≤ n by omega)
    rw [iterate_add]
    exact hm l (by omega)

/-- What every step preserves, a run preserves. -/
theorem iterate_invariant {Inv : σ → Prop} (hstep : ∀ s t, Inv s → step s = some t → Inv t) (n : ℕ)
    {s : σ} (hs : Inv s) : Inv (iterate step n s) := by
  induction n generalizing s with
  | zero => exact hs
  | succ n ih =>
      rw [iterate]
      split
      · exact hs
      · next t h => exact ih (hstep _ _ hs h)

end Machine

/-! ### Readers -/

/-- How a read ended: with an error or not, and the elements it delivered. -/
structure Completion (β ε : Type*) where
  ec : Option ε
  data : List β

/-- What a read of exactly `n` elements delivers: `n` of them, or an error after at most `n`. -/
def Completion.Obeys {β ε : Type*} (n : ℕ) (k : Completion β ε) : Prop :=
  k.data.length ≤ n ∧ (k.ec = none → k.data.length = n)

/-- A state with at most one outstanding read, of the size given by `request`. -/
structure Reader (σ β ε : Type*) where
  request : σ → Option ℕ
  complete : σ → Completion β ε → σ

/-- The elements still to come, and what follows them: an error, or nothing for now. -/
structure Source (β ε : Type*) where
  incoming : List β
  ending : Option ε

namespace Reader

variable {σ β ε : Type*}

/-- One completion.  There is none when no read is outstanding, or when the elements it asks for
have not arrived and no error is going to end it. -/
def step (R : Reader σ β ε) (p : σ × Source β ε) : Option (σ × Source β ε) :=
  match R.request p.1 with
  | none => none
  | some n =>
      if n ≤ p.2.incoming.length then
        some (R.complete p.1 ⟨none, p.2.incoming.take n⟩,
          { p.2 with incoming := p.2.incoming.drop n })
      else
        match p.2.ending with
        | none => none
        | some ec =>
            some (R.complete p.1 ⟨some ec, p.2.incoming⟩, { p.2 with incoming := [] })

/-- At most `n` completions: the run stops where there is no further one. -/
def run (R : Reader σ β ε) : ℕ → σ × Source β ε → σ × Source β ε
  | 0, p => p
  | n + 1, p =>
      match R.step p with
      | none => p
      | some q => run R n q

@[simp] theorem run_zero (R : Reader σ β ε) (p : σ × Source β ε) : R.run 0 p = p := rfl

theorem run_succ_of_some {R : Reader σ β ε} {p q : σ × Source β ε} (h : R.step p = some q)
    (n : ℕ) : R.run (n + 1) p = R.run n q := by
  simp only [run, h]

theorem run_of_none {R : Reader σ β ε} {p : σ × Source β ε} (h : R.step p = none) (n : ℕ) :
    R.run n p = p := by
  cases n with
  | zero => rfl
  | succ n => simp only [run, h]

theorem run_add (R : Reader σ β ε) (m n : ℕ) (p : σ × Source β ε) :
    R.run (m + n) p = R.run n (R.run m p) := by
  induction m generalizing p with
  | zero => simp
  | succ m ih =>
      rw [show m + 1 + n = m + n + 1 by omega]
      cases h : R.step p with
      | none => rw [run_of_none h, run_of_none h, run_of_none h]
      | some q => rw [run_succ_of_some h, run_succ_of_some h, ih]

/-- A read of `n` elements is completed by the next `n` of the source. -/
theorem step_append {R : Reader σ β ε} {s : σ} {xs : List β} (h : R.request s = some xs.length)
    (rest : List β) (ending : Option ε) :
    R.step (s, ⟨xs ++ rest, ending⟩) = some (R.complete s ⟨none, xs⟩, ⟨rest, ending⟩) := by
  simp [step, h]

/-- A read that can be completed can also be completed when more has arrived. -/
theorem step_mono {R : Reader σ β ε} {s : σ} {xs : List β}
    {p : σ × Source β ε} (h : R.step (s, ⟨xs, none⟩) = some p) :
    ∃ v, xs = v ++ p.2.incoming ∧
      ∀ ys, R.step (s, ⟨xs ++ ys, none⟩) = some (p.1, ⟨p.2.incoming ++ ys, none⟩) := by
  unfold step at h
  cases hr : R.request s with
  | none => simp [hr] at h
  | some n =>
      simp only [hr] at h
      split at h
      · next hle =>
          refine ⟨xs.take n, ?_, ?_⟩
          · rw [← Option.some_inj.1 h, List.take_append_drop]
          · intro ys
            have hle' : n ≤ (xs ++ ys).length := by
              rw [List.length_append]
              omega
            rw [step, hr, ← Option.some_inj.1 h]
            simp only [if_pos hle', List.take_append_of_le_length hle,
              List.drop_append_of_le_length hle]
      · cases h

/-- `R.Reads s xs t`: from `s` the reader consumes exactly `xs`, whatever follows, and is then
in `t`. -/
def Reads (R : Reader σ β ε) (s : σ) (xs : List β) (t : σ) : Prop :=
  ∀ (rest : List β) (ending : Option ε), ∃ n, R.run n (s, ⟨xs ++ rest, ending⟩) =
    (t, ⟨rest, ending⟩)

theorem Reads.refl (R : Reader σ β ε) (s : σ) : R.Reads s [] s :=
  fun _ _ => ⟨0, rfl⟩

/-- **Consumption composes.** -/
theorem Reads.trans {R : Reader σ β ε} {s t u : σ} {xs ys : List β} (h : R.Reads s xs t)
    (h' : R.Reads t ys u) : R.Reads s (xs ++ ys) u := by
  intro rest ending
  obtain ⟨m, hm⟩ := h (ys ++ rest) ending
  obtain ⟨n, hn⟩ := h' rest ending
  refine ⟨m + n, ?_⟩
  rw [run_add, List.append_assoc, hm, hn]

/-- One exact read. -/
theorem Reads.one {R : Reader σ β ε} {s t : σ} {xs : List β} (h : R.request s = some xs.length)
    (ht : R.complete s ⟨none, xs⟩ = t) : R.Reads s xs t := by
  intro rest ending
  exact ⟨1, by rw [run_succ_of_some (step_append h rest ending), run_zero, ht]⟩

/-- Every step of a run completes the outstanding read as an exact read may end. -/
theorem step_cases {R : Reader σ β ε} {p q : σ × Source β ε} (h : R.step p = some q) :
    ∃ n k, R.request p.1 = some n ∧ k.Obeys n ∧ q.1 = R.complete p.1 k := by
  unfold step at h
  cases hr : R.request p.1 with
  | none => simp [hr] at h
  | some n =>
      simp only [hr] at h
      split at h
      · next hle =>
          refine ⟨n, ⟨none, p.2.incoming.take n⟩, rfl, ?_, ?_⟩
          · simp [Completion.Obeys, hle]
          · rw [← Option.some_inj.1 h]
      · next hlt =>
          cases he : p.2.ending with
          | none => simp [he] at h
          | some ec =>
              simp only [he, Option.some.injEq] at h
              refine ⟨n, ⟨some ec, p.2.incoming⟩, rfl, ?_, ?_⟩
              · exact ⟨by simp only; omega, by simp⟩
              · rw [← h]

/-- **What completions preserve, a run preserves.** -/
theorem run_invariant {R : Reader σ β ε} {Inv : σ → Prop}
    (hstep : ∀ s n k, Inv s → R.request s = some n → Completion.Obeys n k → Inv (R.complete s k))
    (n : ℕ) (p : σ × Source β ε) (hp : Inv p.1) : Inv (R.run n p).1 := by
  induction n generalizing p with
  | zero => exact hp
  | succ n ih =>
      cases h : R.step p with
      | none => rwa [run_of_none h]
      | some q =>
          obtain ⟨m, k, hr, hk, hq⟩ := step_cases h
          rw [run_succ_of_some h]
          exact ih q (hq ▸ hstep _ _ _ hp hr hk)

/-- **Lockstep simulation**: if related configurations both stop or both step to related ones,
then their runs are related at every length. -/
theorem run_lockstep {σ' β' ε' : Type*} {R : Reader σ β ε} {R' : Reader σ' β' ε'}
    {Rel : σ × Source β ε → σ' × Source β' ε' → Prop}
    (hstep : ∀ p p', Rel p p' → Option.Rel Rel (R.step p) (R'.step p'))
    (n : ℕ) (p : σ × Source β ε) (p' : σ' × Source β' ε') (h : Rel p p') :
    Rel (R.run n p) (R'.run n p') := by
  induction n generalizing p p' with
  | zero => exact h
  | succ n ih =>
      have hs := hstep p p' h
      cases hp : R.step p with
      | none =>
          cases hp' : R'.step p' with
          | none => rwa [run_of_none hp, run_of_none hp']
          | some q' => rw [hp, hp'] at hs; cases hs
      | some q =>
          cases hp' : R'.step p' with
          | none => rw [hp, hp'] at hs; cases hs
          | some q' =>
              rw [hp, hp'] at hs
              rw [run_succ_of_some hp, run_succ_of_some hp']
              cases hs with
              | some hq => exact ih q q' hq

end Reader
