/-
**Locks that a stop waits for, and then refuses.**

A handler takes a `SharedLock` of the `ScopeRunner` (`common/utility.hpp`) before it does anything, and
does nothing if there is none.  `stop` waits until no lock is held and then sets the count to `-1`, from
when on there are none; the destructors rely on it.  Both functions are loops around
`compare_exchange_weak`, which fails when the count is not what was expected, and may also fail when it
is.

Threads take their atomic steps in any order.  What a thread does between two of them touches nothing
that is shared, and is part of the step before.  A lock is released by whoever holds it, once.

Main definitions:

* `SimpleWeb.ScopeRunner`, `SimpleWeb.ScopeRunner.Pc` — the count and the locks, and where the threads
  are;
* `SimpleWeb.ScopeRunner.step` — one atomic step of a thread;
* `SimpleWeb.ScopeRunner.Reachable` — any interleaving;
* `SimpleWeb.ScopeRunner.Sound` — the invariant: how many locks there are, and what was expected.

Main results:

* `SimpleWeb.ScopeRunner.Sound.act` — what one step preserves;
* `SimpleWeb.ScopeRunner.Stopped.reach` — once stopped, it stays stopped;
* `SimpleWeb.ScopeRunner.returns_nullptr` — a thread that asks for a lock then is told that there is
  none, after at most three steps;
* `SimpleWeb.ScopeRunner.stop_excludes` — **all of it, for every interleaving**.
-/

import SimpleWeb.Machine

set_option relaxedAutoImplicit false
set_option autoImplicit false

namespace SimpleWeb

/-- Where a thread is: in neither function, in `continue_lock` before it has read the count, at the
condition of its loop, or at the condition or in the body of the loop of `stop`. -/
inductive ScopeRunner.Pc
  | idle
  | continueLock
  | trying (expected : ℤ)
  | stopping (expected : ℤ)
  | failed (expected : ℤ)
  deriving DecidableEq

/-- A `ScopeRunner` and the threads that use it.  `locks` are those that are granted and not released,
and `granted` is how many there have been. -/
structure ScopeRunner (ι : Type*) where
  count : ℤ := 0
  pc : ι → ScopeRunner.Pc := fun _ => .idle
  locks : List ℕ := []
  granted : ℕ := 0

namespace ScopeRunner

variable {ι : Type*} [DecidableEq ι]

/-- What a call returns: a lock, `nullptr`, or, from `stop`, nothing. -/
inductive Outcome
  | locked
  | nullptr
  | stopped
  deriving DecidableEq

/-- A thread calls `continue_lock` or `stop`, takes a step in it, or a lock is released. -/
inductive Act (ι : Type*)
  | continueLock (t : ι)
  | stop (t : ι)
  | step (t : ι) (spurious : Bool)
  | release (lock : ℕ)

def goto (s : ScopeRunner ι) (t : ι) (pc : Pc) : ScopeRunner ι :=
  { s with pc := Function.update s.pc t pc }

/-- A `long`, where there is no room for the number itself. -/
def long (longMax : ℕ) (n : ℤ) : ℤ := n.bmod (2 * (longMax + 1))

variable (longMax : ℕ)

/-- The next atomic step of a thread, and what the function returns, if it does.  An exchange fails if
the count is not what was expected, or `spurious` is set, and reads the count. -/
def step (s : ScopeRunner ι) (t : ι) (spurious : Bool) : ScopeRunner ι × Option Outcome :=
  match s.pc t with
  | .idle => (s, none)
  | .continueLock => (s.goto t (.trying s.count), none)
  | .trying expected =>
      if expected < 0 then (s.goto t .idle, some .nullptr)
      else if s.count = expected ∧ spurious = false then
        ({ s.goto t .idle with
            count := long longMax (expected + 1)
            locks := s.granted :: s.locks
            granted := s.granted + 1 }, some .locked)
      else (s.goto t (.trying s.count), none)
  | .stopping expected =>
      if s.count = expected ∧ spurious = false then
        ({ s.goto t .idle with count := -1 }, some .stopped)
      else (s.goto t (.failed s.count), none)
  | .failed expected =>
      if expected < 0 then (s.goto t .idle, some .stopped)
      else (s.goto t (.stopping 0), none)

def act (s : ScopeRunner ι) : Act ι → ScopeRunner ι
  | .continueLock t => s.goto t .continueLock
  | .stop t => s.goto t (.stopping 0)
  | .step t spurious => (s.step longMax t spurious).1
  | .release lock => { s with count := long longMax (s.count - 1), locks := s.locks.erase lock }

/-- What is returned by a step. -/
def outcome (s : ScopeRunner ι) : Act ι → Option Outcome
  | .step t spurious => (s.step longMax t spurious).2
  | _ => none

/-- A thread is in one function at a time, a lock is released once, and there are never more than
`LONG_MAX` of them. -/
def Allowed (s : ScopeRunner ι) : Act ι → Prop
  | .continueLock t => s.pc t = .idle
  | .stop t => s.pc t = .idle
  | .step t spurious =>
      s.pc t ≠ .idle ∧ ((s.step longMax t spurious).2 = some .locked → s.locks.length < longMax)
  | .release lock => lock ∈ s.locks

instance (s : ScopeRunner ι) (a : Act ι) : Decidable (Allowed longMax s a) := by
  cases a <;> unfold Allowed <;> infer_instance

/-- Any interleaving, from a new `ScopeRunner`. -/
def Reachable : ScopeRunner ι → Prop := Machine.Reach (act longMax) (Allowed longMax) (· = {})

/-- What comes after a state. -/
def Later (s : ScopeRunner ι) : ScopeRunner ι → Prop :=
  Machine.Reach (act longMax) (Allowed longMax) (· = s)

/-! ### The invariant -/

/-- Nobody holds a lock, and nobody gets one. -/
structure Stopped (s : ScopeRunner ι) : Prop where
  count : s.count = -1
  locks : s.locks = []

/-- What a thread knows: a negative number has been the count. -/
def Pc.Ok (count : ℤ) : Pc → Prop
  | .idle => True
  | .continueLock => True
  | .trying expected => expected < 0 → count = -1
  | .stopping expected => expected = 0
  | .failed expected => expected < 0 → count = -1

structure Sound (longMax : ℕ) (s : ScopeRunner ι) : Prop where
  counted : s.count = s.locks.length ∨ s.Stopped
  room : s.locks.length ≤ longMax
  nodup : s.locks.Nodup
  granted : ∀ lock ∈ s.locks, lock < s.granted
  pc : ∀ t, (s.pc t).Ok s.count

variable {longMax} {s : ScopeRunner ι} {t : ι}

@[simp] theorem goto_count (s : ScopeRunner ι) (t : ι) (pc : Pc) : (s.goto t pc).count = s.count := rfl

@[simp] theorem goto_pc_self (s : ScopeRunner ι) (t : ι) (pc : Pc) : (s.goto t pc).pc t = pc :=
  Function.update_self ..

@[simp] theorem goto_pc_of_ne (s : ScopeRunner ι) {t u : ι} (h : u ≠ t) (pc : Pc) :
    (s.goto t pc).pc u = s.pc u := Function.update_of_ne h ..

theorem goto_self {pc : Pc} (h : s.pc t = pc) : s.goto t pc = s := by
  rw [goto, ← h, Function.update_eq_self]

theorem long_eq {n : ℤ} (hn : 0 ≤ n) (h : n ≤ longMax) : long longMax n = n := by
  rw [long]
  exact Int.bmod_eq_of_le (by omega) (by omega)

/-- While there may be locks, nothing negative has been read. -/
theorem Pc.Ok.of_ne {pc : Pc} {count : ℤ} (h : pc.Ok count) (hcount : count ≠ -1) (count' : ℤ) :
    pc.Ok count' := by
  cases pc with
  | idle => trivial
  | continueLock => trivial
  | trying expected => exact fun hneg => absurd (h hneg) hcount
  | stopping expected => exact h
  | failed expected => exact fun hneg => absurd (h hneg) hcount

/-- Once stopped, nothing else has to be known. -/
theorem Pc.Ok.stop {pc : Pc} {count : ℤ} (h : pc.Ok count) : pc.Ok (-1) := by
  cases pc with
  | idle => trivial
  | continueLock => trivial
  | trying expected => exact fun _ => rfl
  | stopping expected => exact h
  | failed expected => exact fun _ => rfl

namespace Sound

omit [DecidableEq ι] in
theorem count_neg (h : Sound longMax s) (hneg : s.count < 0) : s.Stopped := by
  rcases h.counted with hcount | hstopped
  · omega
  · exact hstopped

omit [DecidableEq ι] in
theorem length_locks (h : Sound longMax s) (hpos : 0 ≤ s.count) : s.count = s.locks.length := by
  rcases h.counted with hcount | hstopped
  · exact hcount
  · have := hstopped.count
    omega

omit [DecidableEq ι] in
/-- What has just been read is right. -/
theorem ok_trying (h : Sound longMax s) : (Pc.trying s.count).Ok s.count :=
  fun hneg => (h.count_neg hneg).count

theorem goto (h : Sound longMax s) (t : ι) {pc : Pc} (hpc : pc.Ok s.count) : Sound longMax (s.goto t pc) where
  counted := h.counted.imp id fun hstopped => ⟨hstopped.count, hstopped.locks⟩
  room := h.room
  nodup := h.nodup
  granted := h.granted
  pc u := by
    by_cases hu : u = t
    · rw [hu, goto_pc_self]
      exact hpc
    · rw [goto_pc_of_ne s hu]
      exact h.pc u

end Sound

/-- What a thread can do: go on, be told that there is no lock, take a lock, stop the others, and find
that they are stopped. -/
theorem Sound.step_cases (h : Sound longMax s) (t : ι) (spurious : Bool) :
    (∃ pc : Pc, pc.Ok s.count ∧ s.step longMax t spurious = (s.goto t pc, none)) ∨
    (s.Stopped ∧ s.step longMax t spurious = (s.goto t .idle, some .nullptr)) ∨
    (0 ≤ s.count ∧ s.step longMax t spurious =
      ({ s.goto t .idle with
          count := long longMax (s.count + 1)
          locks := s.granted :: s.locks
          granted := s.granted + 1 }, some .locked)) ∨
    (s.locks = [] ∧ s.step longMax t spurious =
      ({ s.goto t .idle with count := -1 }, some .stopped)) ∨
    (s.Stopped ∧ s.step longMax t spurious = (s.goto t .idle, some .stopped)) := by
  have hok := h.pc t
  unfold step
  cases hpc : s.pc t with
  | idle =>
      refine Or.inl ⟨.idle, trivial, ?_⟩
      rw [goto_self hpc]
  | continueLock => exact Or.inl ⟨_, h.ok_trying, rfl⟩
  | trying expected =>
      rw [hpc] at hok
      by_cases hneg : expected < 0
      · have hstopped : s.Stopped := h.count_neg (by rw [hok hneg]; decide)
        exact Or.inr (Or.inl ⟨hstopped, if_pos hneg⟩)
      simp only [if_neg hneg]
      split
      · next hexchange =>
          obtain ⟨rfl, -⟩ := hexchange
          exact Or.inr (Or.inr (Or.inl ⟨by omega, rfl⟩))
      · exact Or.inl ⟨_, h.ok_trying, rfl⟩
  | stopping expected =>
      rw [hpc] at hok
      obtain rfl : expected = 0 := hok
      simp only
      split
      · next hexchange =>
          have hlength := h.length_locks (by omega)
          have hnil : s.locks = [] := List.length_eq_zero_iff.1 (by omega)
          exact Or.inr (Or.inr (Or.inr (Or.inl ⟨hnil, rfl⟩)))
      · exact Or.inl ⟨.failed s.count, h.ok_trying, rfl⟩
  | failed expected =>
      rw [hpc] at hok
      by_cases hneg : expected < 0
      · have hstopped : s.Stopped := h.count_neg (by rw [hok hneg]; decide)
        exact Or.inr (Or.inr (Or.inr (Or.inr ⟨hstopped, if_pos hneg⟩)))
      · exact Or.inl ⟨.stopping 0, rfl, if_neg hneg⟩

omit [DecidableEq ι] in
theorem sound_init : Sound longMax ({} : ScopeRunner ι) where
  counted := Or.inl rfl
  room := Nat.zero_le longMax
  nodup := List.nodup_nil
  granted := by simp
  pc _ := trivial

/-- **What one step preserves.** -/
theorem Sound.act (h : Sound longMax s) {a : Act ι} (ha : Allowed longMax s a) :
    Sound longMax (s.act longMax a) := by
  cases a with
  | continueLock t => exact h.goto t trivial
  | stop t => exact h.goto t rfl
  | step t spurious =>
      rcases h.step_cases t spurious with ⟨pc, hpc, hstep⟩ | ⟨-, hstep⟩ | ⟨hpos, hstep⟩ |
        ⟨hnil, hstep⟩ | ⟨-, hstep⟩
      · simp only [ScopeRunner.act, hstep]
        exact h.goto t hpc
      · simp only [ScopeRunner.act, hstep]
        exact h.goto t trivial
      · -- a lock is taken
        have hroom : s.locks.length < longMax := ha.2 (by rw [hstep])
        have hlength := h.length_locks hpos
        simp only [ScopeRunner.act, hstep]
        refine ⟨Or.inl ?_, hroom, ?_, ?_, ?_⟩
        · rw [long_eq (by omega) (by omega), List.length_cons, hlength]
          push_cast
          rfl
        · exact List.nodup_cons.2 ⟨fun hmem => absurd (h.granted _ hmem) (by omega), h.nodup⟩
        · intro lock hlock
          rcases List.mem_cons.1 hlock with rfl | hlock
          · exact Nat.lt_succ_self _
          · exact Nat.lt_succ_of_lt (h.granted lock hlock)
        · intro u
          have hidle : Sound longMax (s.goto t .idle) := h.goto t trivial
          exact (hidle.pc u).of_ne (by simp only [goto_count]; omega) _
      · -- the others are stopped
        have hidle : Sound longMax (s.goto t .idle) := h.goto t trivial
        simp only [ScopeRunner.act, hstep]
        exact ⟨Or.inr ⟨rfl, hnil⟩, h.room, h.nodup, h.granted, fun u => (hidle.pc u).stop⟩
      · simp only [ScopeRunner.act, hstep]
        exact h.goto t trivial
  | release lock =>
      have hpos : 0 < s.locks.length := List.length_pos_of_mem ha
      have hcount : s.count = s.locks.length := by
        rcases h.counted with hcount | hstopped
        · exact hcount
        · rw [hstopped.locks] at hpos
          exact absurd hpos (by decide)
      have hroom := h.room
      have hlength := List.length_erase_of_mem ha
      refine ⟨Or.inl ?_, by simp only [ScopeRunner.act, hlength]; omega, h.nodup.erase lock, fun l hl => h.granted l (List.mem_of_mem_erase hl),
        fun u => (h.pc u).of_ne (by omega) _⟩
      simp only [ScopeRunner.act, hlength]
      rw [long_eq (by omega) (by omega)]
      omega

theorem Sound.reach {P : ScopeRunner ι → Prop} (hinit : ∀ s, P s → Sound longMax s)
    (h : Machine.Reach (ScopeRunner.act longMax) (Allowed longMax) P s) : Sound longMax s :=
  h.invariant hinit fun _ _ hs ha => hs.act ha

theorem Reachable.sound (h : Reachable longMax s) : Sound longMax s :=
  Sound.reach (by rintro _ rfl; exact sound_init) h

/-! ### After a stop -/

/-- No step changes anything, and none takes a lock. -/
theorem Stopped.act (hstopped : s.Stopped) (h : Sound longMax s) {a : Act ι}
    (ha : Allowed longMax s a) :
    (s.act longMax a).Stopped ∧ s.outcome longMax a ≠ some .locked := by
  cases a with
  | continueLock t => exact ⟨⟨hstopped.count, hstopped.locks⟩, nofun⟩
  | stop t => exact ⟨⟨hstopped.count, hstopped.locks⟩, nofun⟩
  | step t spurious =>
      have hcount := hstopped.count
      rcases h.step_cases t spurious with ⟨pc, -, hstep⟩ | ⟨-, hstep⟩ | ⟨hpos, -⟩ | ⟨-, hstep⟩ |
        ⟨-, hstep⟩
      · simp only [ScopeRunner.act, outcome, hstep]
        exact ⟨⟨hstopped.count, hstopped.locks⟩, nofun⟩
      · simp only [ScopeRunner.act, outcome, hstep]
        exact ⟨⟨hstopped.count, hstopped.locks⟩, nofun⟩
      · omega
      · simp only [ScopeRunner.act, outcome, hstep]
        exact ⟨⟨rfl, hstopped.locks⟩, nofun⟩
      · simp only [ScopeRunner.act, outcome, hstep]
        exact ⟨⟨hstopped.count, hstopped.locks⟩, nofun⟩
  | release lock =>
      have hlock : lock ∈ s.locks := ha
      rw [hstopped.locks] at hlock
      cases hlock

/-- **Once stopped, it stays stopped.** -/
theorem Stopped.reach {u : ScopeRunner ι} (hstopped : s.Stopped) (h : Sound longMax s)
    (hu : Later longMax s u) : u.Stopped ∧ Sound longMax u := by
  have hinit : ∀ v : ScopeRunner ι, v = s → v.Stopped ∧ Sound longMax v := by
    rintro _ rfl
    exact ⟨hstopped, h⟩
  have hstep : ∀ (v : ScopeRunner ι) a, v.Stopped ∧ Sound longMax v → Allowed longMax v a →
      (v.act longMax a).Stopped ∧ Sound longMax (v.act longMax a) := by
    intro v a hv ha
    exact ⟨(hv.1.act hv.2 ha).1, hv.2.act ha⟩
  exact hu.invariant hinit hstep

/-- When `stop` returns, it is stopped. -/
theorem Sound.stopped (h : Sound longMax s) {a : Act ι}
    (hstop : s.outcome longMax a = some .stopped) : (s.act longMax a).Stopped := by
  cases a with
  | continueLock t => cases hstop
  | stop t => cases hstop
  | step t spurious =>
      rcases h.step_cases t spurious with ⟨pc, -, hstep⟩ | ⟨-, hstep⟩ | ⟨-, hstep⟩ | ⟨hnil, hstep⟩ |
        ⟨hstopped, hstep⟩
      · simp [outcome, hstep] at hstop
      · simp [outcome, hstep] at hstop
      · simp [outcome, hstep] at hstop
      · simp only [ScopeRunner.act, hstep]
        exact ⟨rfl, hnil⟩
      · simp only [ScopeRunner.act, hstep]
        exact ⟨hstopped.count, hstopped.locks⟩
  | release lock => cases hstop

/-- There is no lock only when it is stopped. -/
theorem Sound.nullptr (h : Sound longMax s) {a : Act ι}
    (hnull : s.outcome longMax a = some .nullptr) : s.Stopped := by
  cases a with
  | continueLock t => cases hnull
  | stop t => cases hnull
  | step t spurious =>
      rcases h.step_cases t spurious with ⟨pc, -, hstep⟩ | ⟨hstopped, -⟩ | ⟨-, hstep⟩ | ⟨-, hstep⟩ |
        ⟨-, hstep⟩
      · simp [outcome, hstep] at hnull
      · exact hstopped
      · simp [outcome, hstep] at hnull
      · simp [outcome, hstep] at hnull
      · simp [outcome, hstep] at hnull
  | release lock => cases hnull

/-! ### A thread that asks for a lock -/

/-- How many steps a thread in `continue_lock` has to take once it is stopped. -/
def Pc.left : Pc → ℕ
  | .continueLock => 2
  | .trying expected => if expected < 0 then 1 else 2
  | _ => 0

/-- A step of a given thread. -/
def Act.IsStep (t : ι) : Act ι → Prop
  | .step u _ => u = t
  | _ => False

instance (t : ι) : DecidablePred (Act.IsStep t) := by
  intro a
  cases a <;> unfold Act.IsStep <;> infer_instance

/-- The other threads leave it where it is. -/
theorem Sound.pc_act (h : Sound longMax s) {a : Act ι} (ha : Allowed longMax s a)
    (hpc : s.pc t ≠ .idle) (hstep : ¬ a.IsStep t) : (s.act longMax a).pc t = s.pc t := by
  cases a with
  | continueLock u =>
      have hne : t ≠ u := by
        rintro rfl
        exact hpc ha
      exact goto_pc_of_ne s hne _
  | stop u =>
      have hne : t ≠ u := by
        rintro rfl
        exact hpc ha
      exact goto_pc_of_ne s hne _
  | step u spurious =>
      have hne : t ≠ u := fun heq => hstep heq.symm
      rcases h.step_cases u spurious with ⟨pc, -, heq⟩ | ⟨-, heq⟩ | ⟨-, heq⟩ | ⟨-, heq⟩ | ⟨-, heq⟩ <;>
      · simp only [ScopeRunner.act, heq]
        exact goto_pc_of_ne s hne _
  | release lock => rfl

/-- It is told that there is no lock, or has fewer steps left. -/
theorem Stopped.left (hstopped : s.Stopped) (longMax : ℕ) (hleft : 0 < (s.pc t).left)
    (spurious : Bool) :
    (s.step longMax t spurious).2 = some .nullptr ∨
      0 < ((s.step longMax t spurious).1.pc t).left ∧
        ((s.step longMax t spurious).1.pc t).left < (s.pc t).left := by
  unfold step
  cases hpc : s.pc t with
  | idle => simp [hpc, Pc.left] at hleft
  | continueLock =>
      right
      simp [Pc.left, hstopped.count]
  | trying expected =>
      by_cases hneg : expected < 0
      · exact Or.inl (by simp only [if_pos hneg])
      · have hne : ¬ (s.count = expected ∧ spurious = false) := by
          rw [hstopped.count]
          omega
        right
        simp only [if_neg hneg, if_neg hne]
        simp [Pc.left, hstopped.count, hneg]
  | stopping expected => simp [hpc, Pc.left] at hleft
  | failed expected => simp [hpc, Pc.left] at hleft

/-- **A thread that is in `continue_lock` when it is stopped, or calls it then, is told that there is
no lock**, whatever the other threads do in between. -/
theorem returns_nullptr (hstopped : s.Stopped) (h : Sound longMax s) {acts : List (Act ι)}
    (hacts : Machine.Along (act longMax) (Allowed longMax) s acts) (hleft : 0 < (s.pc t).left)
    (hcount : (s.pc t).left ≤ acts.countP (Act.IsStep t ·)) :
    ∃ pre a post, acts = pre ++ a :: post ∧ a.IsStep t ∧
      (∀ pre', pre' <+: pre → 0 < ((pre'.foldl (act longMax) s).pc t).left) ∧
      (pre.foldl (act longMax) s).outcome longMax a = some .nullptr := by
  induction acts generalizing s with
  | nil =>
      rw [List.countP_nil] at hcount
      omega
  | cons a acts ih =>
      obtain ⟨ha, hacts⟩ := hacts
      have hnext := hstopped.act h ha
      -- a step that does not return is the first of those of the rest
      have hlater : 0 < ((s.act longMax a).pc t).left →
          ((s.act longMax a).pc t).left ≤ acts.countP (Act.IsStep t ·) →
          ∃ pre b post, a :: acts = pre ++ b :: post ∧ b.IsStep t ∧
            (∀ pre', pre' <+: pre → 0 < ((pre'.foldl (act longMax) s).pc t).left) ∧
            (pre.foldl (act longMax) s).outcome longMax b = some .nullptr := by
        intro hpos hle
        obtain ⟨pre, b, post, rfl, hb, hpre, hreturn⟩ := ih hnext.1 (h.act ha) hacts hpos hle
        refine ⟨a :: pre, b, post, rfl, hb, ?_, hreturn⟩
        intro pre' hpart
        cases pre' with
        | nil => exact hleft
        | cons c pre' =>
            obtain ⟨rfl, htail⟩ := List.cons_prefix_cons.1 hpart
            exact hpre pre' htail
      by_cases hstep : a.IsStep t
      · rw [List.countP_cons_of_pos (by simpa using hstep)] at hcount
        cases a with
        | step u spurious =>
            obtain rfl : u = t := hstep
            rcases hstopped.left longMax hleft spurious with hreturn | ⟨hpos, hless⟩
            · refine ⟨[], _, acts, rfl, rfl, ?_, hreturn⟩
              intro pre' hpart
              rw [List.prefix_nil.1 hpart]
              exact hleft
            · exact hlater hpos (show ((s.step longMax u spurious).1.pc u).left ≤ _ by omega)
        | continueLock u => exact absurd hstep id
        | stop u => exact absurd hstep id
        | release lock => exact absurd hstep id
      · rw [List.countP_cons_of_neg (by simpa using hstep)] at hcount
        have hpc : s.pc t ≠ .idle := by
          intro hpc
          rw [hpc] at hleft
          exact absurd hleft (by decide)
        rw [← h.pc_act ha hpc hstep] at hleft hcount
        exact hlater hleft hcount

/-- **Handlers are excluded after a stop**, in every interleaving of any number of threads: the count is
the number of the locks, or nobody holds one; a call of `continue_lock` returns `nullptr` only then; and
when a call of `stop` has returned, nobody holds a lock, the count stays as it is, and every call of
`continue_lock` returns `nullptr`. -/
theorem stop_excludes (h : Reachable longMax s) :
    (s.count = s.locks.length ∨ s.count = -1 ∧ s.locks = []) ∧
    (∀ a, s.outcome longMax a = some .nullptr → s.count = -1) ∧
    ∀ a, Allowed longMax s a → s.outcome longMax a = some .stopped →
      ∀ u, Later longMax (s.act longMax a) u →
        u.count = -1 ∧ u.locks = [] ∧
        (∀ b, Allowed longMax u b → u.outcome longMax b ≠ some .locked) ∧
        ∀ t acts, Machine.Along (act longMax) (Allowed longMax) u acts → 0 < (u.pc t).left →
          (u.pc t).left ≤ acts.countP (Act.IsStep t ·) →
          ∃ pre b post, acts = pre ++ b :: post ∧ b.IsStep t ∧
            (∀ pre', pre' <+: pre → 0 < ((pre'.foldl (act longMax) u).pc t).left) ∧
            (pre.foldl (act longMax) u).outcome longMax b = some .nullptr := by
  have hsound := h.sound
  refine ⟨hsound.counted.imp id fun hstopped => ⟨hstopped.count, hstopped.locks⟩, ?_, ?_⟩
  · intro a hnull
    exact (hsound.nullptr hnull).count
  · intro a ha hstop u hu
    obtain ⟨hstopped, husound⟩ := (hsound.stopped hstop).reach (hsound.act ha) hu
    refine ⟨hstopped.count, hstopped.locks, fun b hb => (hstopped.act husound hb).2, ?_⟩
    intro t acts hacts hleft hcount
    exact returns_nullptr hstopped husound hacts hleft hcount

/-- One thread takes a lock.  Another one calls `stop`, fails, and fails once more for no reason when
the lock has been released. -/
def sampleRun : List (Act Bool) :=
  [.continueLock false, .step false false, .step false false, .stop true, .step true false,
    .step true false, .release 0, .step true true, .step true false]

theorem stop_excludes_sample :
    Reachable 2147483647 (sampleRun.foldl (act 2147483647) {}) ∧
    (sampleRun.foldl (act 2147483647) {}).outcome 2147483647 (.step true false) = some .stopped ∧
    ((sampleRun.foldl (act 2147483647) {}).act 2147483647 (.step true false)).count = -1 := by
  have hreach : Reachable 2147483647 (sampleRun.foldl (act 2147483647) {}) :=
    Machine.Reach.foldl (.init rfl) (by decide)
  refine ⟨hreach, by decide, ?_⟩
  exact ((stop_excludes hreach).2.2 (.step true false) (by decide) (by decide) _ (.init rfl)).1

end ScopeRunner

end SimpleWeb
