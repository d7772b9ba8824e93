/-
**Cutting a list at its separators, and loops over its positions.**

A list is cut in two at the first occurrence of a separator; where there is none, there is no second
part.  Putting the parts together again is the inverse of cutting, for a first part without the
separator.

A parser that runs over the positions of a list is a fold over a range.  What it does with a list is
put together from what it does with the parts of the list.

Main definitions:

* `Cut.before`, `Cut.after` — the two parts;
* `Cut.join` — the list that they are the parts of.

Main results:

* `Cut.join_before_after`, `Cut.before_join`, `Cut.after_join` — cutting and joining are inverse;
* `Cut.flatMap_splitOn` — the pieces between all separators make up the list;
* `Loop.range'_add`, `Loop.range'_stable` — a loop over two parts, and over one that it ignores.
-/

import Mathlib.Tactic

set_option relaxedAutoImplicit false
set_option autoImplicit false

namespace Cut

variable {α : Type*} {sep : α}

/-- Two parts with a separator between them, or one part alone. -/
def join (sep : α) (a : List α) : Option (List α) → List α
  | none => a
  | some b => a ++ sep :: b

@[simp] theorem join_none (a : List α) : join sep a none = a := rfl

@[simp] theorem join_some (a b : List α) : join sep a (some b) = a ++ sep :: b := rfl

theorem exists_join_eq_append (sep : α) (a : List α) (b : Option (List α)) :
    ∃ t, join sep a b = a ++ t := by
  cases b with
  | none => exact ⟨[], by simp⟩
  | some b => exact ⟨sep :: b, rfl⟩

/-- A beginning without the separator is a beginning of what is in front of it. -/
theorem prefix_before {p a b : List α} (hp : sep ∉ p) (h : p <+: a ++ sep :: b) : p <+: a := by
  obtain ⟨t, heq⟩ := h
  rcases List.append_eq_append_iff.1 heq with ⟨q, rfl, -⟩ | ⟨q, rfl, hq⟩
  · exact List.prefix_append p q
  · cases q with
    | nil => simp
    | cons x q =>
        obtain ⟨rfl, -⟩ := List.cons.inj hq
        exact absurd (List.mem_append_right a List.mem_cons_self) hp

variable [DecidableEq α]

/-- What is in front of the first separator: everything, if there is none. -/
def before (sep : α) (s : List α) : List α := s.takeWhile (· ≠ sep)

/-- What is behind the first separator, if there is one. -/
def after (sep : α) (s : List α) : Option (List α) :=
  if sep ∈ s then some ((s.dropWhile (· ≠ sep)).drop 1) else none

theorem not_mem_before (s : List α) : sep ∉ before sep s := by
  intro h
  simpa using List.all_eq_true.1 List.all_takeWhile _ h

/-- Nothing in front of the separator is one. -/
theorem ne_of_not_mem {a : List α} (h : sep ∉ a) : ∀ x ∈ a, decide (x ≠ sep) = true := by
  intro x hx
  simp only [ne_eq, decide_not, Bool.not_eq_true', decide_eq_false_iff_not]
  rintro rfl
  exact h hx

/-- A part without the separator is in front of it. -/
theorem before_append_of_not_mem {a : List α} (h : sep ∉ a) (b : List α) :
    before sep (a ++ b) = a ++ before sep b :=
  List.takeWhile_append_of_pos (ne_of_not_mem h)

theorem before_eq_self {a : List α} (h : sep ∉ a) : before sep a = a := by
  have htake := before_append_of_not_mem h []
  simpa [before] using htake

theorem before_append {a : List α} (h : sep ∉ a) (b : List α) : before sep (a ++ sep :: b) = a := by
  rw [before_append_of_not_mem h]
  simp [before]

theorem after_append {a : List α} (h : sep ∉ a) (b : List α) :
    after sep (a ++ sep :: b) = some b := by
  rw [after, if_pos (by simp), List.dropWhile_append_of_pos (ne_of_not_mem h)]
  simp

theorem after_eq_none {a : List α} (h : sep ∉ a) : after sep a = none := if_neg h

/-- Where there is no second part, nothing is left. -/
theorem getD_after (s : List α) : (after sep s).getD [] = (s.dropWhile (· ≠ sep)).drop 1 := by
  by_cases h : sep ∈ s
  · rw [after, if_pos h, Option.getD_some]
  · have hdrop := @List.dropWhile_append_of_pos _ _ s [] (ne_of_not_mem h)
    rw [List.append_nil] at hdrop
    rw [after_eq_none h, hdrop]
    rfl

@[simp] theorem before_join {a : List α} (h : sep ∉ a) (b : Option (List α)) :
    before sep (join sep a b) = a := by
  cases b with
  | none => exact before_eq_self h
  | some b => exact before_append h b

@[simp] theorem after_join {a : List α} (h : sep ∉ a) (b : Option (List α)) :
    after sep (join sep a b) = b := by
  cases b with
  | none => exact after_eq_none h
  | some b => exact after_append h b

/-- **Cutting loses nothing.** -/
theorem join_before_after (s : List α) : join sep (before sep s) (after sep s) = s := by
  by_cases h : sep ∈ s
  · obtain ⟨a, b, rfl, ha⟩ := List.eq_append_cons_of_mem h
    rw [before_append ha, after_append ha, join_some]
  · rw [before_eq_self h, after_eq_none h, join_none]

/-- Every list is a first part without the separator, and perhaps a second one. -/
theorem exists_join (sep : α) (s : List α) : ∃ a b, sep ∉ a ∧ s = join sep a b :=
  ⟨before sep s, after sep s, not_mem_before s, (join_before_after s).symm⟩

/-- The lists that are cut into two given parts. -/
theorem join_inj {a a' : List α} {b b' : Option (List α)} (ha : sep ∉ a) (ha' : sep ∉ a')
    (h : join sep a b = join sep a' b') : a = a' ∧ b = b' := by
  refine ⟨?_, ?_⟩
  · rw [← before_join ha b, h, before_join ha']
  · rw [← after_join ha b, h, after_join ha']

/-! ### All separators -/

/-- **The pieces between the separators make up the list**, and none of them has a separator. -/
theorem flatMap_splitOn (sep : α) (s : List α) :
    ∃ p ps, s.splitOn sep = p :: ps ∧ s = p ++ ps.flatMap (sep :: ·) ∧ ∀ q ∈ p :: ps, sep ∉ q := by
  induction hn : s.length using Nat.strong_induction_on generalizing s with
  | _ n ih =>
      obtain ⟨a, b, ha, rfl⟩ := exists_join sep s
      cases b with
      | none =>
          refine ⟨a, [], ?_, by simp, by simpa using ha⟩
          rw [join_none, List.splitOn_eq_singleton ha]
      | some b =>
          obtain ⟨p, ps, hsplit, hb, hnot⟩ := ih b.length (by simp [← hn]; omega) b rfl
          refine ⟨a, p :: ps, ?_, ?_, ?_⟩
          · rw [join_some, List.splitOn_append_cons_self_of_not_mem ha, hsplit]
          · conv_lhs => rw [hb]
            simp
          · exact List.forall_mem_cons.2 ⟨ha, hnot⟩

/-- Pieces without a separator are found again. -/
theorem splitOn_flatMap {p : List α} {ps : List (List α)} (h : ∀ q ∈ p :: ps, sep ∉ q) :
    (p ++ ps.flatMap (sep :: ·)).splitOn sep = p :: ps := by
  induction ps generalizing p with
  | nil => simpa using List.splitOn_eq_singleton (h p (by simp))
  | cons q ps ih =>
      obtain ⟨hp, hps⟩ := List.forall_mem_cons.1 h
      rw [List.flatMap_cons, List.cons_append, List.splitOn_append_cons_self_of_not_mem hp, ih hps]

end Cut

/-! ### Loops over positions -/

namespace Loop

variable {m : Type → Type*} [Monad m] [LawfulMonad m] {σ : Type} (f : σ → ℕ → m σ)

/-- The loop over a part and what follows it. -/
theorem range'_add (pos k n : ℕ) (s : σ) :
    (List.range' pos (k + n)).foldlM f s =
      (List.range' pos k).foldlM f s >>= fun s => (List.range' (pos + k) n).foldlM f s := by
  rw [← List.range'_append_1, List.foldlM_append]

omit [LawfulMonad m] in
/-- The loop over a position and what follows it. -/
theorem range'_succ (pos n : ℕ) (s : σ) :
    (List.range' pos (n + 1)).foldlM f s =
      f s pos >>= fun s => (List.range' (pos + 1) n).foldlM f s := by
  rw [List.range'_succ, List.foldlM_cons]

/-- Positions that leave the state as it is may be left out. -/
theorem range'_stable {f : σ → ℕ → m σ} {pos n : ℕ} {s : σ}
    (h : ∀ i, pos ≤ i → i < pos + n → f s i = pure s) :
    (List.range' pos n).foldlM f s = pure s := by
  induction n generalizing pos with
  | zero => rfl
  | succ n ih =>
      have hrest := @ih (pos + 1) fun i hle hlt => h i (by omega) (by omega)
      rw [range'_succ, h pos le_rfl (by omega), pure_bind, hrest]

end Loop
