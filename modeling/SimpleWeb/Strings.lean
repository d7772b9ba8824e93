/-
**Strings, streams of lines and header multimaps.**

The parts of the C++ library that the handshake goes through.  Positions in a string are natural
numbers; a subtraction of two of them is `sizeSub`, which wraps as `std::size_t` does.  What the
library throws, and what it leaves undefined, is a `Fault`.

A `std::unordered_multimap` is the list of its elements.  The order in which it is iterated is up to
the library, so every function that iterates one takes an `Order`.

Main definitions:

* `SimpleWeb.Fault`, `SimpleWeb.substr`, `SimpleWeb.charAt`, `SimpleWeb.find`, `SimpleWeb.back` —
  `std::string`;
* `SimpleWeb.getline` — `std::getline`;
* `SimpleWeb.cString`, `SimpleWeb.resize` — C strings;
* `SimpleWeb.caseInsensitiveEqual`, `SimpleWeb.Order`, `SimpleWeb.findField` — header multimaps;
* `SimpleWeb.toDecimal`, `SimpleWeb.strtoull`, `SimpleWeb.strtol` — `std::to_string`, and the way
  back.

Main results:

* `SimpleWeb.getline_append` — the next line of a stream;
* `SimpleWeb.findField_eq_some` — a field that is the only one of its name is found;
* `SimpleWeb.strtoull_digits` — a number is read up to its last digit.
-/

import SimpleWeb.Cut
import SimpleWeb.Message

set_option relaxedAutoImplicit false
set_option autoImplicit false

namespace SimpleWeb

/-! ### Strings -/

/-- What can go wrong: exceptions of the library, and undefined behaviour. -/
inductive Fault
  | outOfRange
  | lengthError
  | badIndex
  | emptyBack
  | overflow
  | derefEnd
  deriving DecidableEq, Repr

section faults

variable {α β : Type}

-- The parentheses keep these from being used as definitional steps, which the kernel would redo.
@[simp] theorem ok_bind (a : α) (f : α → Except Fault β) : (Except.ok a >>= f) = f a := (rfl)

@[simp] theorem error_bind (fault : Fault) (f : α → Except Fault β) :
    (Except.error fault >>= f) = .error fault := (rfl)

/-- A computation with a result has come through each of its parts. -/
theorem exists_of_bind {x : Except Fault α} {f : α → Except Fault β} {b : β}
    (h : x >>= f = .ok b) : ∃ a, x = .ok a ∧ f a = .ok b := by
  cases x with
  | error fault => cases h
  | ok a => exact ⟨a, rfl, h⟩

@[simp] theorem pure_eq_ok (a : α) : (pure a : Except Fault α) = .ok a := (rfl)

end faults

/-- The difference of two `std::size_t`. -/
def sizeSub (a b : ℕ) : ℕ := if b ≤ a then a - b else 2 ^ 64 + a - b

theorem sizeSub_of_le {a b : ℕ} (h : b ≤ a) : sizeSub a b = a - b := if_pos h

/-- `s.substr(pos, n)`. -/
def substr (s : Bytes) (pos n : ℕ) : Except Fault Bytes :=
  if pos > s.length then .error .outOfRange else .ok ((s.drop pos).take n)

/-- `s[i]`.  An index equal to the size, for which the library gives a NUL, is not meant to be used
and counts as a fault. -/
def charAt (s : Bytes) (i : ℕ) : Except Fault UInt8 :=
  match s[i]? with
  | some c => .ok c
  | none => .error .badIndex

/-- `s.back()`. -/
def back (s : Bytes) : Except Fault UInt8 :=
  match s.getLast? with
  | some c => .ok c
  | none => .error .emptyBack

/-- `s.find(c, pos)`. -/
def find (s : Bytes) (c : UInt8) (pos : ℕ) : Option ℕ :=
  ((s.drop pos).findIdx? (· == c)).map (· + pos)

theorem substr_of_le {s : Bytes} {pos : ℕ} (h : pos ≤ s.length) (n : ℕ) :
    substr s pos n = .ok ((s.drop pos).take n) :=
  if_neg (by omega)

/-- The part of a string between two others. -/
theorem substr_append (a b c : Bytes) {pos n : ℕ} (hpos : pos = a.length) (hn : n = b.length) :
    substr (a ++ (b ++ c)) pos n = .ok b := by
  subst hpos hn
  rw [substr_of_le (by simp)]
  simp

/-- The part of a string between two positions, its length computed from these. -/
theorem substr_between {s a b c : Bytes} {i j : ℕ} (hs : s = a ++ (b ++ c)) (hi : i = a.length)
    (hj : j = i + b.length) : substr s i (sizeSub j i) = .ok b := by
  rw [sizeSub_of_le (by omega), hs]
  exact substr_append a b c hi (by omega)

theorem charAt_of_lt {s : Bytes} {i : ℕ} (h : i < s.length) : charAt s i = .ok s[i] := by
  simp [charAt, h]

/-- The character behind a part of the string. -/
theorem charAt_append (a b : Bytes) (c : UInt8) {i : ℕ} (hi : i = a.length) :
    charAt (a ++ c :: b) i = .ok c := by
  subst hi
  simp [charAt]

theorem charAt_of_eq {s a b : Bytes} {c : UInt8} {i : ℕ} (hs : s = a ++ c :: b)
    (hi : i = a.length) : charAt s i = .ok c := by
  rw [hs]
  exact charAt_append a b c hi

/-- The characters of a part of the string. -/
theorem exists_charAt_part {s before chars after : Bytes} (hs : s = before ++ (chars ++ after))
    {i : ℕ} (hle : before.length ≤ i) (hlt : i < before.length + chars.length) :
    ∃ c ∈ chars, charAt s i = .ok c := by
  obtain ⟨k, rfl⟩ := Nat.exists_eq_add_of_le hle
  have hk : k < chars.length := by omega
  refine ⟨chars[k], List.getElem_mem hk, ?_⟩
  rw [hs, charAt, List.getElem?_append_right (by omega), Nat.add_sub_cancel_left,
    List.getElem?_append_left hk, List.getElem?_eq_getElem hk]

/-- **A loop passes over the characters that its state ignores.** -/
theorem foldlM_ignored {σ : Type} {f : σ → ℕ → Except Fault σ} {s before chars after : Bytes}
    {state : σ} (hs : s = before ++ (chars ++ after))
    (h : ∀ chr ∈ chars, ∀ i, charAt s i = .ok chr → f state i = .ok state) :
    (List.range' before.length chars.length).foldlM f state = .ok state := by
  apply Loop.range'_stable
  intro i hle hlt
  obtain ⟨chr, hmem, hchar⟩ := exists_charAt_part hs hle hlt
  exact h chr hmem i hchar

theorem exists_charAt {s : Bytes} {i : ℕ} (h : i < s.length) : ∃ c, charAt s i = .ok c :=
  ⟨_, charAt_of_lt h⟩

theorem exists_back {s : Bytes} (h : s ≠ []) : ∃ c, back s = .ok c :=
  ⟨s.getLast h, by simp [back, List.getLast?_eq_getLast_of_ne_nil h]⟩

theorem back_append (s : Bytes) (c : UInt8) : back (s ++ [c]) = .ok c := by
  simp [back]

/-- The character is found behind a part that does not have it. -/
theorem find_append {a : Bytes} {c : UInt8} (h : c ∉ a) (b : Bytes) :
    find (a ++ c :: b) c 0 = some a.length := by
  have hnone : a.findIdx? (· == c) = none := by
    rw [List.findIdx?_eq_none_iff]
    intro x hx
    simp only [beq_eq_false_iff_ne]
    rintro rfl
    exact h hx
  simp [find, List.findIdx?_append, hnone, List.findIdx?_cons]

/-- The search may start behind a part of the string. -/
theorem find_from (a b : Bytes) (c : UInt8) {pos : ℕ} (hpos : pos = a.length) :
    find (a ++ b) c pos = (find b c 0).map (· + pos) := by
  subst hpos
  simp [find]

theorem find_eq_none {s : Bytes} {c : UInt8} (h : c ∉ s) : find s c 0 = none := by
  have hnone : s.findIdx? (· == c) = none := by
    rw [List.findIdx?_eq_none_iff]
    intro x hx
    simp only [beq_eq_false_iff_ne]
    rintro rfl
    exact h hx
  simp [find, hnone]

/-- What is found is in the string, behind the start of the search. -/
theorem find_lt {s : Bytes} {c : UInt8} {pos p : ℕ} (h : find s c pos = some p) :
    pos ≤ p ∧ p < s.length := by
  obtain ⟨k, hk, rfl⟩ := Option.map_eq_some_iff.1 h
  obtain ⟨hlt, -⟩ := List.findIdx?_eq_some_iff_getElem.1 hk
  rw [List.length_drop] at hlt
  omega

theorem exists_find {s : Bytes} {c : UInt8} (h : c ∈ s) : ∃ p, find s c 0 = some p := by
  obtain ⟨a, b, rfl, ha⟩ := List.eq_append_cons_of_mem h
  exact ⟨a.length, find_append ha b⟩

/-! ### Lines -/

/-- `std::getline`: the stream up to the next line feed, and what follows it.  At the end of the
stream there is no line. -/
def getline : Bytes → Option (Bytes × Bytes)
  | [] => none
  | b :: s =>
      let stream := b :: s
      some (stream.takeWhile (· ≠ 10), (stream.dropWhile (· ≠ 10)).drop 1)

/-- **The next line of a stream.** -/
theorem getline_append {line : Bytes} (h : 10 ∉ line) (rest : Bytes) :
    getline (line ++ 10 :: rest) = some (line, rest) := by
  have htake := Cut.before_append h rest
  have hdrop := @Cut.getD_after _ 10 _ (line ++ 10 :: rest)
  rw [Cut.after_append h, Option.getD_some] at hdrop
  cases hstream : line ++ 10 :: rest with
  | nil => simp at hstream
  | cons b s =>
      rw [hstream] at htake hdrop
      rw [Cut.before] at htake
      simp only [getline, htake, ← hdrop]

/-- A line makes the stream shorter. -/
theorem length_of_getline {stream line rest : Bytes} (h : getline stream = some (line, rest)) :
    rest.length < stream.length := by
  cases stream with
  | nil => cases h
  | cons b s =>
      simp only [getline, Option.some.injEq, Prod.mk.injEq] at h
      obtain ⟨-, rfl⟩ := h
      have hle := (List.dropWhile_sublist (l := b :: s) (fun x => decide (x ≠ 10))).length_le
      simp only [List.length_drop, List.length_cons] at hle ⊢
      omega

/-! ### C strings -/

/-- What a C string function sees of the bytes it is pointed at. -/
def cString (s : Bytes) : Bytes := s.takeWhile (· ≠ 0)

/-- `s.resize(n)`. -/
def resize (n : ℕ) (s : Bytes) : Bytes := s.take n ++ List.replicate (n - s.length) 0

@[simp] theorem length_resize (n : ℕ) (s : Bytes) : (resize n s).length = n := by
  simp only [resize, List.length_append, List.length_take, List.length_replicate]
  omega

/-! ### Header multimaps -/

/-- `tolower` in the C locale. -/
def tolower (c : UInt8) : UInt8 := if 65 ≤ c ∧ c ≤ 90 then c + 32 else c

/-- `case_insensitive_equal`. -/
def caseInsensitiveEqual (str1 str2 : Bytes) : Bool := str1.map tolower == str2.map tolower

/-- The order in which the library iterates a multimap. -/
def Order := { f : CaseInsensitiveMultimap → CaseInsensitiveMultimap // ∀ m, (f m).Perm m }

/-- The elements of a multimap, in the order of its iteration. -/
def Order.elements (order : Order) (m : CaseInsensitiveMultimap) : CaseInsensitiveMultimap :=
  order.1 m

theorem Order.mem_elements (order : Order) {m : CaseInsensitiveMultimap} {f : Bytes × Bytes} :
    f ∈ order.elements m ↔ f ∈ m :=
  (order.2 m).mem_iff

/-- Iteration in the order of insertion. -/
def Order.insertion : Order := ⟨id, fun _ => List.Perm.refl _⟩

/-- `m.emplace(name, value)`. -/
def emplace (m : CaseInsensitiveMultimap) (name value : Bytes) : CaseInsensitiveMultimap :=
  m ++ [(name, value)]

/-- The field has the given name. -/
def Named (name : Bytes) (f : Bytes × Bytes) : Prop := caseInsensitiveEqual f.1 name = true

instance (name : Bytes) (f : Bytes × Bytes) : Decidable (Named name f) :=
  inferInstanceAs (Decidable (caseInsensitiveEqual f.1 name = true))

theorem named_self (name value : Bytes) : Named name (name, value) := by
  simp [Named, caseInsensitiveEqual]

theorem not_named {name name' : Bytes} (h : caseInsensitiveEqual name' name = false)
    (value : Bytes) : ¬ Named name (name', value) := by
  simp [Named, h]

/-- `m.find(name)`; `m.end()` is `none`. -/
def findField (order : Order) (m : CaseInsensitiveMultimap) (name : Bytes) :
    Option (Bytes × Bytes) :=
  (order.elements m).find? fun f => Named name f

/-- **A field that is the only one of its name is found**, whatever the order. -/
theorem findField_eq_some (order : Order) {m : CaseInsensitiveMultimap} {name : Bytes}
    {f : Bytes × Bytes} (hf : f ∈ m) (hname : Named name f)
    (honly : ∀ g ∈ m, Named name g → g = f) : findField order m name = some f := by
  unfold findField
  cases h : (order.elements m).find? fun f => Named name f with
  | none =>
      have hnone := List.find?_eq_none.1 h f (order.mem_elements.2 hf)
      simp [hname] at hnone
  | some g =>
      have hg : Named name g := by simpa using List.find?_some h
      rw [honly g (order.mem_elements.1 (List.mem_of_find?_eq_some h)) hg]

/-- A field of a name that no field has is not found. -/
theorem findField_eq_none (order : Order) {m : CaseInsensitiveMultimap} {name : Bytes}
    (h : ∀ f ∈ m, ¬ Named name f) : findField order m name = none := by
  refine List.find?_eq_none.2 ?_
  intro f hf
  simpa using h f (order.mem_elements.1 hf)

/-- Only fields of the multimap are found. -/
theorem findField_some (order : Order) {m : CaseInsensitiveMultimap} {name : Bytes}
    {f : Bytes × Bytes} (h : findField order m name = some f) : f ∈ m ∧ Named name f :=
  ⟨order.mem_elements.1 (List.mem_of_find?_eq_some h), by simpa using List.find?_some h⟩

/-! ### Numbers -/

/-- `std::to_string` of an unsigned number. -/
def toDecimal (n : ℕ) : Bytes := (Nat.toDigits 10 n).map fun c => UInt8.ofNat c.toNat

/-- The characters of a decimal number are digits. -/
theorem mem_toDecimal {n : ℕ} {b : UInt8} (h : b ∈ toDecimal n) : 48 ≤ b ∧ b ≤ 57 := by
  obtain ⟨c, hc, rfl⟩ := List.mem_map.1 h
  have hdigit := Nat.isDigit_of_mem_toDigits (by omega) (by omega) hc
  simp only [Char.isDigit, Bool.and_eq_true, decide_eq_true_eq] at hdigit
  obtain ⟨hlow, hhigh⟩ := hdigit
  have hlow' : 48 ≤ c.toNat := hlow
  have hhigh' : c.toNat ≤ 57 := hhigh
  constructor
  · rw [UInt8.le_iff_toNat_le, UInt8.toNat_ofNat']
    simp only [UInt8.reduceToNat]
    omega
  · rw [UInt8.le_iff_toNat_le, UInt8.toNat_ofNat']
    simp only [UInt8.reduceToNat]
    omega

/-- The digits can be read off the characters. -/
theorem map_toDecimal (n : ℕ) :
    (toDecimal n).map (fun b => Char.ofNat b.toNat) = Nat.toDigits 10 n := by
  rw [toDecimal, List.map_map]
  refine (List.map_congr_left ?_).trans (List.map_id _)
  intro c hc
  have hdigit := Nat.isDigit_of_mem_toDigits (by omega) (by omega) hc
  simp only [Char.isDigit, Bool.and_eq_true, decide_eq_true_eq] at hdigit
  have hhigh : c.toNat ≤ 57 := hdigit.2
  have hbyte : (UInt8.ofNat c.toNat).toNat = c.toNat := by
    rw [UInt8.toNat_ofNat', Nat.mod_eq_of_lt (by omega)]
  simp [hbyte]

/-- Numbers are told apart by their digits. -/
theorem toDecimal_inj {m n : ℕ} : toDecimal m = toDecimal n ↔ m = n := by
  constructor
  · intro h
    have hdigits := congrArg (List.map fun b => Char.ofNat b.toNat) h
    rw [map_toDecimal, map_toDecimal] at hdigits
    calc
      m = Nat.ofDigitChars 10 (Nat.toDigits 10 m) 0 := Nat.ofDigitChars_ten_toDigits.symm
      _ = Nat.ofDigitChars 10 (Nat.toDigits 10 n) 0 := by rw [hdigits]
      _ = n := Nat.ofDigitChars_ten_toDigits
  · rintro rfl
    rfl

/-- `isspace` in the C locale. -/
def isSpace (c : UInt8) : Bool := c = 32 ∨ 9 ≤ c ∧ c ≤ 13

/-- The value of a digit; letters are the digits of greater bases. -/
def digitValue (c : UInt8) : Option ℕ :=
  if 48 ≤ c ∧ c ≤ 57 then some (c.toNat - 48)
  else if 97 ≤ c ∧ c ≤ 122 then some (c.toNat - 97 + 10)
  else if 65 ≤ c ∧ c ≤ 90 then some (c.toNat - 65 + 10)
  else none

def isDigit (base : ℕ) (c : UInt8) : Bool := (digitValue c).any (· < base)

/-- The number written by digits. -/
def digitsValue (base : ℕ) (digits : Bytes) : ℕ :=
  digits.foldl (fun n c => n * base + (digitValue c).getD 0) 0

/-- A hexadecimal number may begin with `"0x"`. -/
def skipPrefix (base : ℕ) (s : Bytes) : Bytes :=
  if base = 16 ∧ s.getD 0 0 = 48 ∧ tolower (s.getD 1 0) = 120 ∧ isDigit 16 (s.getD 2 0) then s.drop 2
  else s

/-- `std::stoull(s, 0, base)`, and `std::stoul`, whose result has 64 bits too: white space, a sign,
digits, and anything behind them.  An exception, when there are no digits or when there are too many
of them, is `none`.  A minus sign negates the result. -/
def strtoull (base : ℕ) (s : Bytes) : Option UInt64 :=
  let s := s.dropWhile isSpace
  let negative := s.head? = some 45
  let s := if negative ∨ s.head? = some 43 then s.drop 1 else s
  let digits := (skipPrefix base s).takeWhile (isDigit base)
  if digits = [] then none
  else if digitsValue base digits ≥ 2 ^ 64 then none
  else
    let value := UInt64.ofNat (digitsValue base digits)
    some (if negative then -value else value)

/-- `std::strtol(s, nullptr, base)`: zero when there are no digits, and the nearest `long` when the
number does not fit. -/
def strtol (base : ℕ) (s : Bytes) : ℤ :=
  let s := (cString s).dropWhile isSpace
  let negative := s.head? = some 45
  let s := if negative ∨ s.head? = some 43 then s.drop 1 else s
  let value : ℤ := digitsValue base ((skipPrefix base s).takeWhile (isDigit base))
  if negative then max (-value) (-2 ^ 63) else min value (2 ^ 63 - 1)

/-- A digit is neither white space nor a sign, nor the letter of a prefix. -/
theorem isDigit_bounds {base : ℕ} (hbase : base ≤ 16) {c : UInt8} (h : isDigit base c = true) :
    48 ≤ c ∧ c ≤ 102 := by
  rw [isDigit, Option.any_eq_true] at h
  obtain ⟨v, hv, hlt⟩ := h
  rw [decide_eq_true_eq] at hlt
  rw [digitValue] at hv
  simp only [UInt8.le_iff_toNat_le, UInt8.reduceToNat] at hv ⊢
  split at hv
  · omega
  split at hv
  · obtain rfl := Option.some.inj hv
    omega
  split at hv
  · obtain rfl := Option.some.inj hv
    omega
  · cases hv

/-- What is neither space nor sign is where the number begins. -/
theorem not_isDigit_of_lt {base : ℕ} (hbase : base ≤ 16) {c : UInt8} (h : c < 48) :
    isDigit base c = false := by
  cases hdigit : isDigit base c with
  | false => rfl
  | true =>
      have hbounds := (isDigit_bounds hbase hdigit).1
      simp only [UInt8.le_iff_toNat_le, UInt8.lt_iff_toNat_lt, UInt8.reduceToNat] at hbounds h
      omega

/-- The letter of a prefix is no digit, and neither is its capital. -/
theorem tolower_ne {base : ℕ} (hbase : base ≤ 16) {c : UInt8}
    (h : isDigit base c = true ∨ c < 48) : tolower c ≠ 120 := by
  intro hx
  have hletter : c = 88 ∨ c = 120 := by
    rw [tolower] at hx
    split at hx
    · refine Or.inl (UInt8.toNat_inj.1 ?_)
      have hsum := congrArg UInt8.toNat hx
      rw [UInt8.toNat_add] at hsum
      have hlt := c.toNat_lt
      simp only [UInt8.reduceToNat] at hsum ⊢
      omega
    · exact Or.inr hx
  have hnot : isDigit 16 c = false := by
    rcases hletter with rfl | rfl <;> rfl
  rcases h with h | h
  · rw [isDigit, Option.any_eq_true] at h
    obtain ⟨v, hv, hlt⟩ := h
    rw [decide_eq_true_eq] at hlt
    rw [isDigit, hv, Option.any_some, decide_eq_false_iff_not] at hnot
    omega
  · rcases hletter with rfl | rfl <;> exact absurd h (by decide)

/-- Digits have no prefix, unless what is behind them makes one. -/
theorem skipPrefix_digits {base : ℕ} (hbase : base ≤ 16) {digits rest : Bytes}
    (hdigits : ∀ c ∈ digits, isDigit base c = true) (hrest : ∀ c ∈ rest.head?, tolower c ≠ 120)
    (hne : digits ≠ []) : skipPrefix base (digits ++ rest) = digits ++ rest := by
  refine if_neg ?_
  rintro ⟨-, -, hx, -⟩
  match digits, hne with
  | [_], _ =>
      cases rest with
      | nil => exact absurd (show tolower 0 = 120 from hx) (by decide)
      | cons r rest => exact hrest r rfl hx
  | _ :: c :: _, _ => exact tolower_ne hbase (Or.inl (hdigits c (by simp))) hx

/-- Digits begin neither with white space nor with a sign. -/
theorem dropWhile_digits {base : ℕ} (hbase : base ≤ 16) {digits : Bytes} (hne : digits ≠ [])
    (hdigits : ∀ c ∈ digits, isDigit base c = true) (rest : Bytes) :
    (digits ++ rest).dropWhile isSpace = digits ++ rest ∧
      (digits ++ rest).head? ≠ some 45 ∧ (digits ++ rest).head? ≠ some 43 := by
  obtain ⟨d, ds, rfl⟩ := List.exists_cons_of_ne_nil hne
  have hd := (isDigit_bounds hbase (hdigits d (by simp))).1
  simp only [UInt8.le_iff_toNat_le, UInt8.reduceToNat] at hd
  have hspace : isSpace d = false := by
    simp only [isSpace, ← UInt8.toNat_inj, UInt8.le_iff_toNat_le, UInt8.reduceToNat,
      decide_eq_false_iff_not]
    omega
  refine ⟨?_, ?_, ?_⟩
  · rw [List.cons_append, List.dropWhile_cons_of_neg (by simp [hspace])]
  · rintro hminus
    obtain rfl := Option.some.inj hminus
    simp at hd
  · rintro hplus
    obtain rfl := Option.some.inj hplus
    simp at hd

/-- **A number is read up to its last digit**, if it is small enough. -/
theorem strtoull_append {base : ℕ} (hbase : base ≤ 16) {digits : Bytes} (hne : digits ≠ [])
    (hdigits : ∀ c ∈ digits, isDigit base c = true) {rest : Bytes}
    (hrest : ∀ c ∈ rest.head?, isDigit base c = false ∧ tolower c ≠ 120) :
    strtoull base (digits ++ rest) =
      if digitsValue base digits < 2 ^ 64 then some (UInt64.ofNat (digitsValue base digits))
      else none := by
  obtain ⟨hdrop, hminus, hplus⟩ := dropWhile_digits hbase hne hdigits rest
  have hskip := skipPrefix_digits hbase hdigits (fun c hc => (hrest c hc).2) hne
  have htake : (digits ++ rest).takeWhile (isDigit base) = digits := by
    rw [List.takeWhile_append_of_pos hdigits]
    cases rest with
    | nil => simp
    | cons r rest =>
        have hr := (hrest r rfl).1
        simp [hr]
  simp only [strtoull, hdrop, hminus, hplus, or_self, if_false, hskip, htake, hne]
  by_cases hvalue : digitsValue base digits < 2 ^ 64
  · rw [if_pos hvalue, if_neg (by omega)]
  · rw [if_neg hvalue, if_pos (by omega)]

theorem strtoull_digits_append {base : ℕ} (hbase : base ≤ 16) {digits : Bytes} (hne : digits ≠ [])
    (hdigits : ∀ c ∈ digits, isDigit base c = true) (hvalue : digitsValue base digits < 2 ^ 64)
    {rest : Bytes} (hrest : ∀ c ∈ rest.head?, isDigit base c = false ∧ tolower c ≠ 120) :
    strtoull base (digits ++ rest) = some (UInt64.ofNat (digitsValue base digits)) := by
  rw [strtoull_append hbase hne hdigits hrest, if_pos hvalue]

/-- A number is read up to something smaller than a digit. -/
theorem strtoull_digits {base : ℕ} (hbase : base ≤ 16) {digits : Bytes} (hne : digits ≠ [])
    (hdigits : ∀ c ∈ digits, isDigit base c = true) (hvalue : digitsValue base digits < 2 ^ 64)
    {rest : Bytes} (hrest : ∀ c ∈ rest.head?, c < 48) :
    strtoull base (digits ++ rest) = some (UInt64.ofNat (digitsValue base digits)) :=
  strtoull_digits_append hbase hne hdigits hvalue fun c hc =>
    ⟨not_isDigit_of_lt hbase (hrest c hc), tolower_ne hbase (Or.inr (hrest c hc))⟩

/-- The digits that the library takes for the number: those behind white space, a sign and a
prefix. -/
def leadingDigits (base : ℕ) (s : Bytes) : Bytes :=
  let s := s.dropWhile isSpace
  let s := if s.head? = some 45 ∨ s.head? = some 43 then s.drop 1 else s
  (skipPrefix base s).takeWhile (isDigit base)

/-- **The strings that are no numbers to the library.** -/
theorem strtoull_eq_none_iff {base : ℕ} {s : Bytes} :
    strtoull base s = none ↔
      leadingDigits base s = [] ∨ 2 ^ 64 ≤ digitsValue base (leadingDigits base s) := by
  obtain ⟨value, h⟩ : ∃ value, strtoull base s =
      if leadingDigits base s = [] then none
      else if digitsValue base (leadingDigits base s) ≥ 2 ^ 64 then none
      else some value := ⟨_, rfl⟩
  rw [h]
  split
  · next hnil => exact iff_of_true rfl (Or.inl hnil)
  split
  · next hlarge => exact iff_of_true rfl (Or.inr hlarge)
  · next hnil hlarge => exact iff_of_false nofun (not_or.2 ⟨hnil, hlarge⟩)

end SimpleWeb
