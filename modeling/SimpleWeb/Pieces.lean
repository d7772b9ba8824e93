/-
**Reads from a stream that arrives in pieces.**

A stream arrives in pieces, whose boundaries nobody controls.  A read of a given number of elements
takes exactly those, and leaves the rest of the last piece for the next read.  A read up to a
delimiter takes whole pieces, so that it may take more than it was asked for; it takes nothing when
the delimiter is in its buffer already, and it fails when the buffer is full without one.

Main definitions:

* `endOf` — where the first occurrence of a delimiter ends;
* `takeExactly`, `readUntil` — the two kinds of reads;
* `readFar` — how far a delimited read gets, by where the pieces end;
* `Unread` — what is left of a stream from a place in it on, in a buffer and in pieces.

Main results:

* `endOf_append`, `endOf_of_append` — an occurrence is decided by the part of the stream it ends in;
* `takeExactly_eq` — an exact read takes the next elements, however they arrive;
* `readUntil_found`, `readUntil_full` — **a delimited read ends behind the delimiter**, if there is
  room for it;
* `readUntil_far` — and that is how far it gets;
* `Unread.consume`, `Unread.exactly`, `Unread.until_found` — **what is unread after a step**.
-/

import SimpleWeb.Machine

set_option relaxedAutoImplicit false
set_option autoImplicit false

variable {β ε : Type*}

/-! ### Delimiters -/

section endOf

variable [DecidableEq β]

/-- The number of elements up to the end of the first occurrence of the delimiter. -/
def endOf (delim : List β) : List β → Option ℕ
  | [] => none
  | b :: s => if delim <+: b :: s then some delim.length else (endOf delim s).map (· + 1)

theorem endOf_bounds {delim s : List β} {n : ℕ} (h : endOf delim s = some n) :
    delim.length ≤ n ∧ n ≤ s.length := by
  induction s generalizing n with
  | nil => cases h
  | cons b s ih =>
      rw [endOf] at h
      split at h
      · next hdelim =>
          obtain rfl := Option.some.inj h
          exact ⟨le_rfl, hdelim.length_le⟩
      · obtain ⟨m, hm, rfl⟩ := Option.map_eq_some_iff.1 h
        have hbounds := ih hm
        rw [List.length_cons]
        omega

/-- What follows an occurrence does not change it. -/
theorem endOf_append {delim s : List β} {n : ℕ} (h : endOf delim s = some n) (t : List β) :
    endOf delim (s ++ t) = some n := by
  induction s generalizing n with
  | nil => cases h
  | cons b s ih =>
      rw [endOf] at h
      rw [List.cons_append, endOf]
      split at h
      · next hdelim =>
          have hlong : delim <+: b :: (s ++ t) := hdelim.trans (List.prefix_append (b :: s) t)
          rw [if_pos hlong, h]
      · next hdelim =>
          obtain ⟨m, hm, rfl⟩ := Option.map_eq_some_iff.1 h
          have hbounds := endOf_bounds hm
          -- an occurrence at the front would be one in the part that is long enough for it
          have hlong : ¬ delim <+: b :: (s ++ t) := by
            intro hfront
            refine hdelim (List.prefix_of_prefix_length_le hfront (List.prefix_append (b :: s) t) ?_)
            rw [List.length_cons]
            omega
          rw [if_neg hlong, ih hm, Option.map_some]

/-- An occurrence is found in every part of the stream that has it. -/
theorem endOf_of_append {delim s t : List β} (hdelim : delim ≠ []) {n : ℕ}
    (h : endOf delim (s ++ t) = some n) (hn : n ≤ s.length) : endOf delim s = some n := by
  induction s generalizing n with
  | nil =>
      have hpos := List.length_pos_of_ne_nil hdelim
      have hbounds := endOf_bounds h
      rw [List.length_nil] at hn
      omega
  | cons b s ih =>
      rw [List.cons_append, endOf] at h
      rw [endOf]
      split at h
      · next hdelim =>
          obtain rfl := Option.some.inj h
          have hfront : delim <+: b :: s :=
            List.prefix_of_prefix_length_le hdelim (List.prefix_append (b :: s) t) hn
          rw [if_pos hfront]
      · next hdelim =>
          obtain ⟨m, hm, rfl⟩ := Option.map_eq_some_iff.1 h
          have hfront : ¬ delim <+: b :: s := fun hfront =>
            hdelim (hfront.trans (List.prefix_append (b :: s) t))
          rw [if_neg hfront, ih hm (by simpa using hn), Option.map_some]

/-- In a part of the stream that ends before the occurrence does, there is none. -/
theorem endOf_eq_none {delim s t : List β} {n : ℕ} (h : endOf delim (s ++ t) = some n)
    (hn : s.length < n) : endOf delim s = none := by
  cases hs : endOf delim s with
  | none => rfl
  | some m =>
      have hbounds := endOf_bounds hs
      obtain rfl : m = n := Option.some.inj ((endOf_append hs t).symm.trans h)
      omega

/-- The delimiter is found behind a part that does not have its first element. -/
theorem endOf_behind {c : β} {delim s : List β} (hc : c ∉ s) (t : List β) :
    endOf (c :: delim) (s ++ (c :: delim ++ t)) = some (s.length + (delim.length + 1)) := by
  induction s with
  | nil =>
      have hfront : c :: delim <+: c :: (delim ++ t) := List.prefix_append (c :: delim) t
      rw [List.nil_append, List.cons_append, endOf, if_pos hfront]
      simp
  | cons b s ih =>
      have hfront : ¬ c :: delim <+: b :: (s ++ (c :: delim ++ t)) := by
        intro h
        obtain rfl := (List.cons_prefix_cons.1 h).1
        exact hc List.mem_cons_self
      rw [List.cons_append, endOf, if_neg hfront, ih fun h => hc (List.mem_cons_of_mem _ h)]
      simp only [Option.map_some, List.length_cons, Option.some.injEq]
      omega

end endOf

/-! ### Exact reads -/

/-- Exactly `n` elements, and the pieces that are left.  There is no result until they have
arrived. -/
def takeExactly : List (List β) → ℕ → Option (List β × List (List β))
  | [], n => if n = 0 then some ([], []) else none
  | piece :: pieces, n =>
      if n ≤ piece.length then some (piece.take n, piece.drop n :: pieces)
      else (takeExactly pieces (n - piece.length)).map fun r => (piece ++ r.1, r.2)

/-- **An exact read takes the next elements**, however they arrive. -/
theorem takeExactly_eq (pieces : List (List β)) {n : ℕ} (h : n ≤ pieces.flatten.length) :
    ∃ rest, takeExactly pieces n = some (pieces.flatten.take n, rest) ∧
      rest.flatten = pieces.flatten.drop n := by
  induction pieces generalizing n with
  | nil =>
      obtain rfl : n = 0 := by simpa using h
      exact ⟨[], rfl, rfl⟩
  | cons piece pieces ih =>
      rw [List.flatten_cons] at h ⊢
      by_cases hfits : n ≤ piece.length
      · refine ⟨piece.drop n :: pieces, ?_, ?_⟩
        · rw [takeExactly, if_pos hfits, List.take_append_of_le_length hfits]
        · rw [List.flatten_cons, List.drop_append_of_le_length hfits]
      · rw [List.length_append] at h
        obtain ⟨rest, htake, hrest⟩ := @ih (n - piece.length) (by omega)
        refine ⟨rest, ?_, ?_⟩
        · rw [takeExactly, if_neg hfits, htake, List.take_append,
            List.take_of_length_le (show piece.length ≤ n by omega)]
          rfl
        · rw [hrest, List.drop_append, List.drop_of_length_le (show piece.length ≤ n by omega),
            List.nil_append]

/-- An exact read of the elements that are next. -/
theorem takeExactly_front {pieces : List (List β)} {data s : List β} (h : pieces.flatten = data ++ s) :
    ∃ rest, takeExactly pieces data.length = some (data, rest) ∧ rest.flatten = s := by
  obtain ⟨rest, htake, hrest⟩ := @takeExactly_eq _ pieces data.length (by simp [h])
  rw [h, List.take_left] at htake
  rw [h, List.drop_left] at hrest
  exact ⟨rest, htake, hrest⟩

/-- What an exact read takes is the front of the stream. -/
theorem takeExactly_append {pieces rest : List (List β)} {n : ℕ} {data : List β}
    (h : takeExactly pieces n = some (data, rest)) :
    data ++ rest.flatten = pieces.flatten ∧ data.length = n := by
  induction pieces generalizing n data with
  | nil =>
      rw [takeExactly] at h
      split at h
      · next hn =>
          obtain ⟨rfl, rfl⟩ := Prod.mk.inj (Option.some.inj h)
          exact ⟨rfl, hn.symm⟩
      · cases h
  | cons piece pieces ih =>
      rw [takeExactly] at h
      split at h
      · next hfits =>
          obtain ⟨rfl, rfl⟩ := Prod.mk.inj (Option.some.inj h)
          refine ⟨?_, List.length_take_of_le hfits⟩
          rw [List.flatten_cons, List.flatten_cons, ← List.append_assoc, List.take_append_drop]
      · obtain ⟨⟨data', rest'⟩, htake, heq⟩ := Option.map_eq_some_iff.1 h
        obtain ⟨rfl, rfl⟩ := Prod.mk.inj heq
        obtain ⟨hflat, hlen⟩ := ih htake
        refine ⟨by rw [List.append_assoc, hflat, List.flatten_cons], ?_⟩
        rw [List.length_append, hlen]
        omega

/-- An exact read that is done takes nothing of what arrives later. -/
theorem takeExactly_more {pieces rest : List (List β)} {n : ℕ} {data : List β}
    (h : takeExactly pieces n = some (data, rest)) (later : List (List β)) :
    takeExactly (pieces ++ later) n = some (data, rest ++ later) := by
  induction pieces generalizing n data with
  | nil =>
      rw [takeExactly] at h
      split at h
      · next hn =>
          obtain ⟨rfl, rfl⟩ := Prod.mk.inj (Option.some.inj h)
          rw [hn]
          cases later with
          | nil => rfl
          | cons piece later => simp [takeExactly]
      · cases h
  | cons piece pieces ih =>
      rw [takeExactly] at h
      rw [List.cons_append, takeExactly]
      split at h
      · next hfits =>
          obtain ⟨rfl, rfl⟩ := Prod.mk.inj (Option.some.inj h)
          rw [if_pos hfits]
          rfl
      · next hlong =>
          obtain ⟨⟨data', rest'⟩, htake, heq⟩ := Option.map_eq_some_iff.1 h
          obtain ⟨rfl, rfl⟩ := Prod.mk.inj heq
          rw [if_neg hlong, ih htake]
          rfl

/-! ### Delimited reads -/

/-- The part of a piece for which there is room. -/
theorem append_take_drop (buffer piece rest : List β) (k : ℕ) :
    buffer ++ piece ++ rest = buffer ++ piece.take k ++ (piece.drop k ++ rest) := by
  rw [List.append_assoc, List.append_assoc, ← List.append_assoc (List.take _ _),
    List.take_append_drop]

section readUntil

variable [DecidableEq β]

/-- A read up to a delimiter, into a buffer of limited size. -/
def readUntil (delim : List β) (maxSize : ℕ) (notFound : ε) :
    List β → List (List β) → Option (Completion β ε × List (List β))
  | buffer, [] =>
      if (endOf delim buffer).isSome then some (⟨none, []⟩, [])
      else if maxSize ≤ buffer.length then some (⟨some notFound, []⟩, [])
      else none
  | buffer, piece :: pieces =>
      if (endOf delim buffer).isSome then some (⟨none, []⟩, piece :: pieces)
      else if maxSize ≤ buffer.length then some (⟨some notFound, []⟩, piece :: pieces)
      else if buffer.length + piece.length ≤ maxSize then
        (readUntil delim maxSize notFound (buffer ++ piece) pieces).map fun r =>
          (⟨r.1.ec, piece ++ r.1.data⟩, r.2)
      else
        let data := piece.take (maxSize - buffer.length)
        some (⟨if (endOf delim (buffer ++ data)).isSome then none else some notFound, data⟩,
          piece.drop (maxSize - buffer.length) :: pieces)

variable {delim buffer : List β} {maxSize n : ℕ} {notFound : ε} {pieces : List (List β)}

/-- Nothing is taken when the delimiter is in the buffer. -/
theorem readUntil_buffered (h : endOf delim buffer = some n) :
    readUntil delim maxSize notFound buffer pieces = some (⟨none, []⟩, pieces) := by
  cases pieces with
  | nil => simp [readUntil, h]
  | cons piece pieces => simp [readUntil, h]

/-- What a delimited read may deliver: no more than there is room for, the delimiter unless it fails,
and nothing when it is in the buffer already. -/
theorem readUntil_obeys (hbuffer : buffer.length ≤ maxSize) {k : Completion β ε}
    {rest : List (List β)} (h : readUntil delim maxSize notFound buffer pieces = some (k, rest)) :
    (buffer ++ k.data).length ≤ maxSize ∧
      (k.ec = none → (endOf delim (buffer ++ k.data)).isSome) ∧
      ((endOf delim buffer).isSome → k.data = []) := by
  induction pieces generalizing buffer k rest with
  | nil =>
      rw [readUntil] at h
      split at h
      · next hfound =>
          obtain ⟨rfl, -⟩ := Prod.mk.inj (Option.some.inj h)
          simp [hfound, hbuffer]
      split at h
      · obtain ⟨rfl, -⟩ := Prod.mk.inj (Option.some.inj h)
        simp [hbuffer]
      · cases h
  | cons piece pieces ih =>
      rw [readUntil] at h
      split at h
      · next hfound =>
          obtain ⟨rfl, -⟩ := Prod.mk.inj (Option.some.inj h)
          simp [hfound, hbuffer]
      · next hnone =>
          split at h
          · obtain ⟨rfl, -⟩ := Prod.mk.inj (Option.some.inj h)
            simp [hbuffer]
          split at h
          · next hfits =>
              obtain ⟨⟨k', rest'⟩, hread, heq⟩ := Option.map_eq_some_iff.1 h
              obtain ⟨rfl, rfl⟩ := Prod.mk.inj heq
              obtain ⟨hsize, hend, -⟩ := ih (by rw [List.length_append]; exact hfits) hread
              rw [List.append_assoc] at hsize hend
              exact ⟨hsize, hend, fun hsome => absurd hsome hnone⟩
          · obtain ⟨rfl, -⟩ := Prod.mk.inj (Option.some.inj h)
            refine ⟨?_, ?_, fun hsome => absurd hsome hnone⟩
            · rw [List.length_append, List.length_take]
              omega
            · intro hec
              dsimp only at hec ⊢
              split at hec
              · next hfound => exact hfound
              · cases hec

/-- What a delimited read takes is the front of the stream. -/
theorem readUntil_append {k : Completion β ε} {rest : List (List β)}
    (h : readUntil delim maxSize notFound buffer pieces = some (k, rest)) :
    k.data ++ rest.flatten = pieces.flatten := by
  induction pieces generalizing buffer k rest with
  | nil =>
      rw [readUntil] at h
      split at h
      · obtain ⟨rfl, rfl⟩ := Prod.mk.inj (Option.some.inj h)
        rfl
      split at h
      · obtain ⟨rfl, rfl⟩ := Prod.mk.inj (Option.some.inj h)
        rfl
      · cases h
  | cons piece pieces ih =>
      rw [readUntil] at h
      split at h
      · obtain ⟨rfl, rfl⟩ := Prod.mk.inj (Option.some.inj h)
        rfl
      split at h
      · obtain ⟨rfl, rfl⟩ := Prod.mk.inj (Option.some.inj h)
        rfl
      split at h
      · obtain ⟨⟨k', rest'⟩, hread, heq⟩ := Option.map_eq_some_iff.1 h
        obtain ⟨rfl, rfl⟩ := Prod.mk.inj heq
        rw [List.append_assoc, ih hread, List.flatten_cons]
      · obtain ⟨rfl, rfl⟩ := Prod.mk.inj (Option.some.inj h)
        rw [List.flatten_cons, List.flatten_cons, ← List.append_assoc, List.take_append_drop]

/-- A delimited read that is done takes nothing of what arrives later. -/
theorem readUntil_more {k : Completion β ε} {rest : List (List β)}
    (h : readUntil delim maxSize notFound buffer pieces = some (k, rest)) (later : List (List β)) :
    readUntil delim maxSize notFound buffer (pieces ++ later) = some (k, rest ++ later) := by
  induction pieces generalizing buffer k rest with
  | nil =>
      rw [readUntil] at h
      rw [List.nil_append]
      split at h
      · next hfound =>
          obtain ⟨n, hn⟩ := Option.isSome_iff_exists.1 hfound
          obtain ⟨rfl, rfl⟩ := Prod.mk.inj (Option.some.inj h)
          exact readUntil_buffered hn
      · next hnone =>
          split at h
          · next hfull =>
              obtain ⟨rfl, rfl⟩ := Prod.mk.inj (Option.some.inj h)
              cases later with
              | nil => rw [readUntil, if_neg hnone, if_pos hfull]; rfl
              | cons piece later => rw [readUntil, if_neg hnone, if_pos hfull]; rfl
          · cases h
  | cons piece pieces ih =>
      rw [readUntil] at h
      rw [List.cons_append, readUntil]
      split at h
      · next hfound =>
          obtain ⟨rfl, rfl⟩ := Prod.mk.inj (Option.some.inj h)
          rw [if_pos hfound]
          rfl
      · next hnone =>
          rw [if_neg hnone]
          split at h
          · next hfull =>
              obtain ⟨rfl, rfl⟩ := Prod.mk.inj (Option.some.inj h)
              rw [if_pos hfull]
              rfl
          · next hroom =>
              rw [if_neg hroom]
              split at h
              · next hfits =>
                  obtain ⟨⟨k', rest'⟩, hread, heq⟩ := Option.map_eq_some_iff.1 h
                  obtain ⟨rfl, rfl⟩ := Prod.mk.inj heq
                  rw [if_pos hfits, ih hread]
                  rfl
              · next hlong =>
                  obtain ⟨rfl, rfl⟩ := Prod.mk.inj (Option.some.inj h)
                  rw [if_neg hlong]
                  rfl

/-- **A delimited read takes the stream up to the delimiter**, and perhaps more, if the buffer has
room for it. -/
theorem readUntil_found (hdelim : delim ≠ []) (h : endOf delim (buffer ++ pieces.flatten) = some n)
    (hn : n ≤ maxSize) (hbuffer : buffer.length ≤ maxSize) :
    ∃ data rest, readUntil delim maxSize notFound buffer pieces = some (⟨none, data⟩, rest) ∧
      data ++ rest.flatten = pieces.flatten ∧ n ≤ (buffer ++ data).length ∧
      (buffer ++ data).length ≤ maxSize := by
  induction pieces generalizing buffer with
  | nil =>
      rw [List.flatten_nil, List.append_nil] at h
      refine ⟨[], [], readUntil_buffered h, rfl, ?_, ?_⟩
      · rw [List.append_nil]
        exact (endOf_bounds h).2
      · rwa [List.append_nil]
  | cons piece pieces ih =>
      by_cases hlen : n ≤ buffer.length
      · -- the delimiter is there already
        refine ⟨[], piece :: pieces, readUntil_buffered (endOf_of_append hdelim h hlen), rfl, ?_, ?_⟩
        · rwa [List.append_nil]
        · rwa [List.append_nil]
      · have hnone := endOf_eq_none h (by omega)
        rw [List.flatten_cons, ← List.append_assoc] at h
        by_cases hfits : buffer.length + piece.length ≤ maxSize
        · -- the whole piece is taken
          obtain ⟨data, rest, hread, hflat, hle, hmax⟩ :=
            ih h (by rw [List.length_append]; exact hfits)
          refine ⟨piece ++ data, rest, ?_, ?_, ?_, ?_⟩
          · rw [readUntil, hnone, if_neg (by simp), if_neg (by omega), if_pos hfits, hread]
            rfl
          · rw [List.append_assoc, hflat, List.flatten_cons]
          · rwa [← List.append_assoc]
          · rwa [← List.append_assoc]
        · -- the piece fills the buffer
          have htake : (piece.take (maxSize - buffer.length)).length = maxSize - buffer.length :=
            List.length_take_of_le (by omega)
          have hfull : (buffer ++ piece.take (maxSize - buffer.length)).length = maxSize := by
            rw [List.length_append, htake]
            omega
          rw [append_take_drop _ _ _ (maxSize - buffer.length)] at h
          have hfound := endOf_of_append hdelim h (by omega)
          refine ⟨piece.take (maxSize - buffer.length),
            piece.drop (maxSize - buffer.length) :: pieces, ?_, ?_, by omega, hfull.le⟩
          · rw [readUntil, hnone, if_neg (by simp), if_neg (by omega), if_neg hfits]
            simp only [hfound, Option.isSome_some, if_true]
          · rw [List.flatten_cons, List.flatten_cons, ← List.append_assoc, List.take_append_drop]

/-- A delimited read fails when the delimiter ends behind the end of the buffer. -/
theorem readUntil_full (h : endOf delim (buffer ++ pieces.flatten) = some n) (hn : maxSize < n)
    (hbuffer : buffer.length ≤ maxSize) :
    ∃ data rest, readUntil delim maxSize notFound buffer pieces = some (⟨some notFound, data⟩, rest)
      := by
  induction pieces generalizing buffer with
  | nil =>
      rw [List.flatten_nil, List.append_nil] at h
      have hbounds := endOf_bounds h
      omega
  | cons piece pieces ih =>
      have hnone := endOf_eq_none h (by omega)
      by_cases hroom : maxSize ≤ buffer.length
      · refine ⟨[], piece :: pieces, ?_⟩
        rw [readUntil, hnone, if_neg (by simp), if_pos hroom]
      · rw [List.flatten_cons, ← List.append_assoc] at h
        by_cases hfits : buffer.length + piece.length ≤ maxSize
        · obtain ⟨data, rest, hread⟩ := ih h (by rw [List.length_append]; exact hfits)
          refine ⟨piece ++ data, rest, ?_⟩
          rw [readUntil, hnone, if_neg (by simp), if_neg hroom, if_pos hfits, hread]
          rfl
        · have htake : (piece.take (maxSize - buffer.length)).length = maxSize - buffer.length :=
            List.length_take_of_le (by omega)
          rw [append_take_drop _ _ _ (maxSize - buffer.length)] at h
          have hshort := endOf_eq_none h (by rw [List.length_append, htake]; omega)
          refine ⟨piece.take (maxSize - buffer.length),
            piece.drop (maxSize - buffer.length) :: pieces, ?_⟩
          rw [readUntil, hnone, if_neg (by simp), if_neg hroom, if_neg hfits]
          simp only [hshort, Option.isSome_none, Bool.false_eq_true, if_false]

end readUntil

/-! ### The ends of the pieces -/

/-- A piece ends behind the first `n` elements of the stream. -/
def EndsAt (pieces : List (List β)) (n : ℕ) : Prop := ∃ j, (pieces.take j).flatten.length = n

theorem endsAt_cons {piece : List β} {pieces : List (List β)} {n : ℕ} :
    EndsAt (piece :: pieces) n ↔ n = 0 ∨ ∃ m, EndsAt pieces m ∧ n = piece.length + m := by
  constructor
  · rintro ⟨j, rfl⟩
    cases j with
    | zero => exact Or.inl rfl
    | succ j =>
        refine Or.inr ⟨_, ⟨j, rfl⟩, ?_⟩
        rw [List.take_succ_cons, List.flatten_cons, List.length_append]
  · rintro (rfl | ⟨m, ⟨j, rfl⟩, rfl⟩)
    · exact ⟨0, rfl⟩
    · refine ⟨j + 1, ?_⟩
      rw [List.take_succ_cons, List.flatten_cons, List.length_append]

theorem EndsAt.le_length {pieces : List (List β)} {n : ℕ} (h : EndsAt pieces n) :
    n ≤ pieces.flatten.length := by
  obtain ⟨j, rfl⟩ := h
  exact ((List.take_prefix j pieces).flatten).length_le

theorem endsAt_length (pieces : List (List β)) : EndsAt pieces pieces.flatten.length :=
  ⟨pieces.length, by rw [List.take_length]⟩

/-- The end of the piece that the `n`-th element of the stream is in. -/
def firstEnd : List (List β) → ℕ → ℕ
  | [], _ => 0
  | piece :: pieces, n =>
      if n ≤ piece.length then piece.length
      else piece.length + firstEnd pieces (n - piece.length)

/-- That is the first end that is not before it. -/
theorem firstEnd_le_iff {pieces : List (List β)} {n e : ℕ} (hn : 0 < n)
    (h : n ≤ pieces.flatten.length) :
    firstEnd pieces n ≤ e ↔ ∃ m, EndsAt pieces m ∧ n ≤ m ∧ m ≤ e := by
  induction pieces generalizing n e with
  | nil =>
      rw [List.flatten_nil, List.length_nil] at h
      omega
  | cons piece pieces ih =>
      rw [firstEnd]
      split
      · next hin =>
          constructor
          · intro he
            exact ⟨piece.length, endsAt_cons.2 (Or.inr ⟨0, ⟨0, rfl⟩, rfl⟩), hin, he⟩
          · rintro ⟨m, hm, hge, hle⟩
            rcases endsAt_cons.1 hm with rfl | ⟨k, -, rfl⟩
            · omega
            · omega
      · next hbehind =>
          rw [List.flatten_cons, List.length_append] at h
          have hrest := @ih (n - piece.length) (e - piece.length) (by omega) (by omega)
          constructor
          · intro he
            obtain ⟨m, hm, hge, hle⟩ := hrest.1 (by omega)
            exact ⟨piece.length + m, endsAt_cons.2 (Or.inr ⟨m, hm, rfl⟩), by omega, by omega⟩
          · rintro ⟨m, hm, hge, hle⟩
            rcases endsAt_cons.1 hm with rfl | ⟨k, hk, rfl⟩
            · omega
            · have hfirst := hrest.2 ⟨k, hk, by omega, by omega⟩
              omega

theorem le_firstEnd {pieces : List (List β)} {n : ℕ} (hn : 0 < n)
    (h : n ≤ pieces.flatten.length) : n ≤ firstEnd pieces n := by
  obtain ⟨m, -, hge, hle⟩ := (firstEnd_le_iff hn h).1 le_rfl
  exact hge.trans hle

theorem endsAt_zero (pieces : List (List β)) : EndsAt pieces 0 := ⟨0, rfl⟩

/-- `rest` is what is left of the pieces behind the first `n` elements: they end where they did. -/
def Leaves (pieces : List (List β)) (n : ℕ) (rest : List (List β)) : Prop :=
  ∀ m, 0 < m → (EndsAt rest m ↔ EndsAt pieces (n + m))

theorem Leaves.refl (pieces : List (List β)) : Leaves pieces 0 pieces := by
  intro m _
  rw [Nat.zero_add]

theorem Leaves.trans {pieces rest rest' : List (List β)} {n n' : ℕ} (h : Leaves pieces n rest)
    (h' : Leaves rest n' rest') : Leaves pieces (n + n') rest' := by
  intro m hm
  rw [h' m hm, h (n' + m) (by omega), Nat.add_assoc]

/-- The rest of the first piece, or all of it. -/
theorem Leaves.drop {piece : List β} {n : ℕ} (h : n ≤ piece.length) (pieces : List (List β)) :
    Leaves (piece :: pieces) n (piece.drop n :: pieces) := by
  intro m hm
  rw [endsAt_cons, endsAt_cons, List.length_drop]
  constructor
  · rintro (rfl | ⟨k, hk, rfl⟩)
    · exact absurd hm (lt_irrefl 0)
    · exact Or.inr ⟨k, hk, by omega⟩
  · rintro (heq | ⟨k, hk, heq⟩)
    · omega
    · exact Or.inr ⟨k, hk, by omega⟩

theorem Leaves.cons {pieces rest : List (List β)} {n : ℕ} (h : Leaves pieces n rest)
    (piece : List β) : Leaves (piece :: pieces) (piece.length + n) rest := by
  intro m hm
  rw [h m hm, endsAt_cons]
  constructor
  · intro hend
    exact Or.inr ⟨n + m, hend, Nat.add_assoc _ _ _⟩
  · rintro (heq | ⟨k, hk, heq⟩)
    · omega
    · obtain rfl : k = n + m := by omega
      exact hk

theorem takeExactly_leaves {pieces rest : List (List β)} {n : ℕ} {data : List β}
    (h : takeExactly pieces n = some (data, rest)) : Leaves pieces n rest := by
  induction pieces generalizing n data with
  | nil =>
      rw [takeExactly] at h
      split at h
      · next hn =>
          obtain ⟨-, rfl⟩ := Prod.mk.inj (Option.some.inj h)
          rw [hn]
          exact Leaves.refl []
      · cases h
  | cons piece pieces ih =>
      rw [takeExactly] at h
      split at h
      · next hfits =>
          obtain ⟨-, rfl⟩ := Prod.mk.inj (Option.some.inj h)
          exact Leaves.drop hfits pieces
      · obtain ⟨⟨data', rest'⟩, htake, heq⟩ := Option.map_eq_some_iff.1 h
        obtain ⟨-, rfl⟩ := Prod.mk.inj heq
        have hleaves := (ih htake).cons piece
        rwa [Nat.add_sub_cancel' (by omega)] at hleaves

section readUntil

variable [DecidableEq β] {delim buffer : List β} {maxSize n : ℕ} {notFound : ε}
  {pieces rest : List (List β)} {k : Completion β ε}

theorem readUntil_leaves
    (h : readUntil delim maxSize notFound buffer pieces = some (k, rest)) :
    Leaves pieces k.data.length rest := by
  induction pieces generalizing buffer k rest with
  | nil =>
      rw [readUntil] at h
      split at h
      · obtain ⟨rfl, rfl⟩ := Prod.mk.inj (Option.some.inj h)
        exact Leaves.refl []
      split at h
      · obtain ⟨rfl, rfl⟩ := Prod.mk.inj (Option.some.inj h)
        exact Leaves.refl []
      · cases h
  | cons piece pieces ih =>
      rw [readUntil] at h
      split at h
      · obtain ⟨rfl, rfl⟩ := Prod.mk.inj (Option.some.inj h)
        exact Leaves.refl _
      split at h
      · obtain ⟨rfl, rfl⟩ := Prod.mk.inj (Option.some.inj h)
        exact Leaves.refl _
      split at h
      · obtain ⟨⟨k', rest'⟩, hread, heq⟩ := Option.map_eq_some_iff.1 h
        obtain ⟨rfl, rfl⟩ := Prod.mk.inj heq
        rw [List.length_append]
        exact (ih hread).cons piece
      · next hfull =>
          obtain ⟨rfl, rfl⟩ := Prod.mk.inj (Option.some.inj h)
          rw [List.length_take_of_le (by omega)]
          exact Leaves.drop (by omega) pieces

/-- When the delimiter is in the buffer, nothing is taken, and that is where a piece ends. -/
theorem buffered_length_le_iff (hend : endOf delim (buffer ++ pieces.flatten) = some n)
    (hle : n ≤ buffer.length) (hbuffer : buffer.length ≤ maxSize) (hdelim : delim ≠ [])
    (h : readUntil delim maxSize notFound buffer pieces = some (k, rest)) {e : ℕ} :
    (buffer ++ k.data).length ≤ e ↔
      maxSize ≤ e ∨ ∃ m, EndsAt pieces m ∧ n ≤ buffer.length + m ∧ buffer.length + m ≤ e := by
  rw [readUntil_buffered (endOf_of_append hdelim hend hle)] at h
  obtain ⟨rfl, -⟩ := Prod.mk.inj (Option.some.inj h)
  rw [List.append_nil]
  constructor
  · intro he
    exact Or.inr ⟨0, endsAt_zero pieces, hle, he⟩
  · rintro (he | ⟨m, -, -, he⟩)
    · omega
    · omega

/-- **How far a delimited read gets**: to the end of the first piece that ends behind the delimiter,
unless the buffer is full before that. -/
theorem readUntil_length_le_iff (hend : endOf delim (buffer ++ pieces.flatten) = some n)
    (hn : n ≤ maxSize) (hbuffer : buffer.length ≤ maxSize) (hdelim : delim ≠ [])
    (h : readUntil delim maxSize notFound buffer pieces = some (k, rest)) {e : ℕ} :
    (buffer ++ k.data).length ≤ e ↔
      maxSize ≤ e ∨ ∃ m, EndsAt pieces m ∧ n ≤ buffer.length + m ∧ buffer.length + m ≤ e := by
  induction pieces generalizing buffer k rest with
  | nil =>
      refine buffered_length_le_iff hend ?_ hbuffer hdelim h
      rw [List.flatten_nil, List.append_nil] at hend
      exact (endOf_bounds hend).2
  | cons piece pieces ih =>
      by_cases hle : n ≤ buffer.length
      · exact buffered_length_le_iff hend hle hbuffer hdelim h
      · have hnone := endOf_eq_none hend (by omega)
        rw [List.flatten_cons, ← List.append_assoc] at hend
        rw [readUntil, hnone, if_neg (by simp), if_neg (by omega)] at h
        split at h
        · next hfits =>
            -- the whole piece is taken
            obtain ⟨⟨k', rest'⟩, hread, heq⟩ := Option.map_eq_some_iff.1 h
            obtain ⟨rfl, rfl⟩ := Prod.mk.inj heq
            rw [← List.append_assoc, ih hend (by rwa [List.length_append]) hread]
            refine or_congr_right ?_
            constructor
            · rintro ⟨m, hm, hge, he⟩
              rw [List.length_append] at hge he
              exact ⟨piece.length + m, endsAt_cons.2 (Or.inr ⟨m, hm, rfl⟩), by omega, by omega⟩
            · rintro ⟨m, hm, hge, he⟩
              rcases endsAt_cons.1 hm with rfl | ⟨m, hm', rfl⟩
              · exact absurd hge hle
              · refine ⟨m, hm', ?_, ?_⟩
                · rw [List.length_append]
                  omega
                · rw [List.length_append]
                  omega
        · next hfull =>
            -- the piece fills the buffer
            obtain ⟨rfl, rfl⟩ := Prod.mk.inj (Option.some.inj h)
            rw [List.length_append, List.length_take_of_le (by omega)]
            constructor
            · intro he
              exact Or.inl (by omega)
            · rintro (he | ⟨m, hm, hge, he⟩)
              · omega
              · rcases endsAt_cons.1 hm with rfl | ⟨m, -, rfl⟩
                · exact absurd hge hle
                · omega

/-- How far a stream has been read when something has been read that ends at `stop`, for which there
is a buffer of the given size that begins at `start`: no further than before if that is far enough, and
otherwise to the end of a piece, unless the buffer is full before that. -/
def readFar (pieces : List (List β)) (size start far stop : ℕ) : ℕ :=
  if stop ≤ far then far else min (start + size) (firstEnd pieces stop)

/-- How far a delimited read gets in the stream of which its pieces are what is left. -/
theorem readUntil_far {stream : List (List β)} {start : ℕ}
    (hleaves : Leaves stream (start + buffer.length) pieces)
    (hend : endOf delim (buffer ++ pieces.flatten) = some n) (hn : n ≤ maxSize)
    (hbuffer : buffer.length ≤ maxSize) (hdelim : delim ≠ [])
    (h : readUntil delim maxSize notFound buffer pieces = some (k, rest)) :
    start + (buffer ++ k.data).length =
      readFar stream maxSize start (start + buffer.length) (start + n) := by
  have hbounds := (endOf_bounds hend).2
  rw [readFar]
  split
  · next hle =>
      rw [readUntil_buffered (endOf_of_append hdelim hend (by omega))] at h
      obtain ⟨rfl, -⟩ := Prod.mk.inj (Option.some.inj h)
      rw [List.append_nil]
  · next hmore =>
      rw [List.length_append] at hbounds
      have hlast := (hleaves pieces.flatten.length (by omega)).1 (endsAt_length pieces)
      have hfar := fun e => @readUntil_length_le_iff _ _ _ _ _ _ _ _ _ _ _ hend hn hbuffer hdelim h e
      have htotal : start + n ≤ stream.flatten.length := by
        have hle := hlast.le_length
        omega
      -- the ends of the pieces are ends in the stream
      have hiff : ∀ e, start + (buffer ++ k.data).length ≤ start + e ↔
          min (start + maxSize) (firstEnd stream (start + n)) ≤ start + e := by
        intro e
        rw [Nat.add_le_add_iff_left, hfar, min_le_iff, Nat.add_le_add_iff_left,
          firstEnd_le_iff (by omega) htotal]
        refine or_congr_right ?_
        constructor
        · rintro ⟨m, hm, hge, he⟩
          exact ⟨start + buffer.length + m, (hleaves m (by omega)).1 hm, by omega, by omega⟩
        · rintro ⟨m, hm, hge, he⟩
          obtain ⟨j, rfl⟩ := Nat.exists_eq_add_of_le (show start + buffer.length ≤ m by omega)
          exact ⟨j, (hleaves j (by omega)).2 hm, by omega, by omega⟩
      have hbehind := le_firstEnd (show 0 < start + n by omega) htotal
      obtain ⟨e, he⟩ := Nat.exists_eq_add_of_le
        (show start ≤ min (start + maxSize) (firstEnd stream (start + n)) by omega)
      refine Nat.le_antisymm ?_ ((hiff _).1 le_rfl)
      rw [he]
      exact (hiff e).2 he.le

end readUntil

/-! ### What is unread -/

/-- What is left of a stream from a place in it on: a buffer that is not too full, and the pieces that
have not been read. -/
structure Unread (stream : List (List β)) (size place : ℕ) (rest buffer : List β)
    (pieces : List (List β)) : Prop where
  flatten : buffer ++ pieces.flatten = rest
  fits : buffer.length ≤ size
  leaves : Leaves stream (place + buffer.length) pieces

namespace Unread

variable {stream pieces pieces' : List (List β)} {size place n : ℕ}
  {front missing rest buffer delim : List β}

/-- Nothing has been read. -/
theorem refl (stream : List (List β)) (size : ℕ) :
    Unread stream size 0 stream.flatten [] stream :=
  ⟨rfl, Nat.zero_le _, Leaves.refl stream⟩

/-- The front is in the buffer. -/
theorem eq_append (h : Unread stream size place (front ++ rest) buffer pieces)
    (hle : front.length ≤ buffer.length) : ∃ surplus, buffer = front ++ surplus := by
  have hbuffer : buffer <+: front ++ rest := by
    rw [← h.flatten]
    exact List.prefix_append _ _
  obtain ⟨surplus, hsurplus⟩ :=
    List.prefix_of_prefix_length_le (List.prefix_append front rest) hbuffer hle
  exact ⟨surplus, hsurplus.symm⟩

/-- Some of the front is in the buffer, and the pieces begin with what is missing of it. -/
theorem eq_missing (h : Unread stream size place (front ++ rest) buffer pieces)
    (hle : buffer.length ≤ front.length) :
    ∃ missing, front = buffer ++ missing ∧ pieces.flatten = missing ++ rest := by
  have hbuffer : buffer <+: front ++ rest := by
    rw [← h.flatten]
    exact List.prefix_append _ _
  obtain ⟨missing, rfl⟩ :=
    List.prefix_of_prefix_length_le hbuffer (List.prefix_append front rest) hle
  have hflatten := h.flatten
  rw [List.append_assoc] at hflatten
  exact ⟨missing, rfl, List.append_cancel_left hflatten⟩

/-- The front is taken out of the buffer. -/
theorem consume (h : Unread stream size place (front ++ rest) (front ++ buffer) pieces) :
    Unread stream size (place + front.length) rest buffer pieces := by
  obtain ⟨hflatten, hfits, hleaves⟩ := h
  rw [List.append_assoc] at hflatten
  rw [List.length_append] at hfits hleaves
  rw [← Nat.add_assoc] at hleaves
  exact ⟨List.append_cancel_left hflatten, by omega, hleaves⟩

/-- The buffer is emptied, and what is missing behind it is read exactly. -/
theorem exactly (h : Unread stream size place rest buffer pieces)
    (hleaves : Leaves pieces missing.length pieces') :
    Unread stream size (place + (buffer ++ missing).length) pieces'.flatten [] pieces' := by
  refine ⟨rfl, Nat.zero_le _, ?_⟩
  rw [List.length_append, ← Nat.add_assoc]
  exact h.leaves.trans hleaves

/-- A delimited read moves something from the pieces to the buffer, as far as `readFar` says. -/
theorem until_found [DecidableEq β] (h : Unread stream size place rest buffer pieces)
    (notFound : ε) (hdelim : delim ≠ []) (hend : endOf delim rest = some n) (hn : n ≤ size) :
    ∃ data pieces', readUntil delim size notFound buffer pieces =
        some (⟨none, data⟩, pieces') ∧
      Unread stream size place rest (buffer ++ data) pieces' ∧ n ≤ (buffer ++ data).length ∧
      place + (buffer ++ data).length =
        readFar stream size place (place + buffer.length) (place + n) := by
  obtain ⟨rfl, hfits, hleaves⟩ := h
  obtain ⟨data, pieces', hread, hflatten, hle, hroom⟩ :=
    @readUntil_found _ _ _ _ _ _ _ notFound _ hdelim hend hn hfits
  have hleaves' := hleaves.trans (readUntil_leaves hread)
  rw [Nat.add_assoc, ← List.length_append] at hleaves'
  refine ⟨data, pieces', hread, ⟨?_, hroom, hleaves'⟩, hle, ?_⟩
  · rw [List.append_assoc, hflatten]
  · exact readUntil_far hleaves hend hn hfits hdelim hread

end Unread
