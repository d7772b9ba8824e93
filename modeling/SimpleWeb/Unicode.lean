/-
**Text in UTF-8 and in UTF-16.**

A text is a list of characters.  It is written in UTF-8, or in UTF-16 of either byte order, where a
character takes a unit of 16 bits, or two that are surrogates.  A mark in front of it says which of the
encodings it is, and belongs to the encoding rather than to the text.  Where a text is kept as a string
that ends with a null character, what stands behind the first of these is lost.

Main definitions:

* `Unicode.utf8`, `Unicode.utf16` — the encodings;
* `Unicode.convert` — the conversion, where what becomes of surrogates is left open;
* `Unicode.visible` — the text without its mark, up to a null character;
* `Unicode.transcode` — a decoder that tells the encodings apart, and writes UTF-8.

Main results:

* `Unicode.length_utf8_takeWhile_iff`, `Unicode.length_visible_iff` — when nothing is lost;
* `Unicode.transcode_utf8`, `Unicode.transcode_utf16` — **what the decoder makes of a text**.
-/

import Mathlib.Data.List.TakeWhile
import Mathlib.Tactic

set_option relaxedAutoImplicit false
set_option autoImplicit false

namespace Unicode

/-! ### Encodings -/

/-- The byte order mark. -/
def mark : Char := Char.ofNat 0xFEFF

def null : Char := Char.ofNat 0

def utf8 (text : List Char) : List UInt8 := text.flatMap String.utf8EncodeChar

/-- The units of UTF-16 of a character: its number, or a high surrogate and a low one. -/
def units (c : Char) : List ℕ :=
  if c.toNat < 0x10000 then [c.toNat]
  else [0xD800 + (c.toNat - 0x10000) / 0x400, 0xDC00 + (c.toNat - 0x10000) % 0x400]

/-- The bytes of a unit. -/
def unit (bigEndian : Bool) (u : ℕ) : List UInt8 :=
  if bigEndian then [UInt8.ofNat (u / 256), UInt8.ofNat u]
  else [UInt8.ofNat u, UInt8.ofNat (u / 256)]

def utf16 (bigEndian : Bool) (text : List Char) : List UInt8 :=
  (text.flatMap units).flatMap (unit bigEndian)

/-- UTF-8 of the characters of one unit, and something else of those of two. -/
def convert (surrogates : Char → List UInt8) (text : List Char) : List UInt8 :=
  text.flatMap fun c => if c.toNat < 0x10000 then String.utf8EncodeChar c else surrogates c

/-- A text without its mark. -/
def unmarked (text : List Char) : List Char := if text.head? = some mark then text.tail else text

/-- A text without its mark, up to a null character. -/
def visible (text : List Char) : List Char := (unmarked text).takeWhile (· ≠ null)

/-- Pairs of bytes are read as units. -/
def readUnits (bigEndian : Bool) : List UInt8 → List ℕ
  | a :: b :: bytes =>
      (if bigEndian then 256 * a.toNat + b.toNat else a.toNat + 256 * b.toNat) ::
        readUnits bigEndian bytes
  | _ => []

def IsHigh (u : ℕ) : Prop := 0xD800 ≤ u ∧ u < 0xDC00

def IsLow (u : ℕ) : Prop := 0xDC00 ≤ u ∧ u < 0xE000

instance (u : ℕ) : Decidable (IsHigh u) := inferInstanceAs (Decidable (_ ∧ _))

instance (u : ℕ) : Decidable (IsLow u) := inferInstanceAs (Decidable (_ ∧ _))

/-- Units are read as characters: a high surrogate and a low one behind it are one. -/
def ofUnits : List ℕ → List Char
  | u :: v :: us =>
      if IsHigh u ∧ IsLow v then
        Char.ofNat (0x10000 + 0x400 * (u - 0xD800) + (v - 0xDC00)) :: ofUnits us
      else Char.ofNat u :: ofUnits (v :: us)
  | [u] => [Char.ofNat u]
  | [] => []

/-- The text in some bytes, in UTF-8: marks of UTF-16 tell that they are to be converted. -/
def transcode (bytes : List UInt8) : List UInt8 :=
  if [254, 255] <+: bytes then
    utf8 ((ofUnits (readUnits true (bytes.drop 2))).takeWhile (· ≠ null))
  else if [255, 254] <+: bytes then
    utf8 ((ofUnits (readUnits false (bytes.drop 2))).takeWhile (· ≠ null))
  else (if utf8 [mark] <+: bytes then bytes.drop 3 else bytes).takeWhile (· ≠ 0)

@[simp] theorem utf8_nil : utf8 [] = [] := rfl

@[simp] theorem utf8_cons (c : Char) (text : List Char) :
    utf8 (c :: text) = String.utf8EncodeChar c ++ utf8 text :=
  List.flatMap_cons

@[simp] theorem utf8_append (text text' : List Char) : utf8 (text ++ text') = utf8 text ++ utf8 text' :=
  List.flatMap_append

/-! ### Lengths -/

theorem length_utf8EncodeChar_pos (c : Char) : 0 < (String.utf8EncodeChar c).length := by
  rw [String.length_utf8EncodeChar]
  exact Char.utf8Size_pos c

/-- Nothing is written only of nothing. -/
theorem length_utf8_eq_zero {text : List Char} : (utf8 text).length = 0 ↔ text = [] := by
  cases text with
  | nil => simp
  | cons c text =>
      have hpos := length_utf8EncodeChar_pos c
      simp only [utf8_cons, List.length_append, reduceCtorEq, iff_false]
      omega

/-- A text ends at a null character, if there is one. -/
theorem length_utf8_takeWhile_iff (text : List Char) :
    (utf8 (text.takeWhile (· ≠ null))).length = (utf8 text).length ↔ null ∉ text := by
  have hsplit : utf8 text =
      utf8 (text.takeWhile (· ≠ null)) ++ utf8 (text.dropWhile (· ≠ null)) := by
    rw [← utf8_append, List.takeWhile_append_dropWhile]
  rw [hsplit, List.length_append, left_eq_add, length_utf8_eq_zero, List.dropWhile_eq_nil_iff]
  constructor
  · intro h hmem
    exact absurd (h null hmem) (by simp)
  · rintro h c hc
    simp only [decide_eq_true_eq]
    rintro rfl
    exact h hc

theorem length_takeWhile_le (text : List Char) :
    (utf8 (text.takeWhile (· ≠ null))).length ≤ (utf8 text).length := by
  calc
    (utf8 (text.takeWhile (· ≠ null))).length
        ≤ (utf8 (text.takeWhile (· ≠ null) ++ text.dropWhile (· ≠ null))).length := by
          rw [utf8_append, List.length_append]
          exact Nat.le_add_right _ _
    _ = (utf8 text).length := by rw [List.takeWhile_append_dropWhile]

/-- **Nothing of a text in UTF-8 is lost** if and only if it has neither a mark nor a null
character. -/
theorem length_visible_iff (text : List Char) :
    (utf8 (visible text)).length = (utf8 text).length ↔ text.head? ≠ some mark ∧ null ∉ text := by
  by_cases hmark : text.head? = some mark
  · refine iff_of_false ?_ (fun h => h.1 hmark)
    have hle := length_takeWhile_le (unmarked text)
    cases text with
    | nil => cases hmark
    | cons c text =>
        have hpos := length_utf8EncodeChar_pos c
        have htail : unmarked (c :: text) = text := if_pos hmark
        rw [htail] at hle
        rw [visible, htail, utf8_cons, List.length_append]
        omega
  · rw [visible, unmarked, if_neg hmark, length_utf8_takeWhile_iff, and_iff_right hmark]

/-! ### The bytes of a character -/

/-- A character below 128 is its own byte; any other begins with a byte from 192 to 247, and goes on with
bytes from 128. -/
theorem utf8EncodeChar_cases (c : Char) :
    c.toNat < 128 ∧ String.utf8EncodeChar c = [UInt8.ofNat c.toNat] ∨
      128 ≤ c.toNat ∧ ∃ b bs, String.utf8EncodeChar c = b :: bs ∧ b.toNat ≤ 247 ∧
        ∀ x ∈ b :: bs, 128 ≤ x.toNat := by
  have hval : c.val.toNat = c.toNat := rfl
  unfold String.utf8EncodeChar
  dsimp only
  rw [hval]
  split
  · next h => exact Or.inl ⟨by omega, rfl⟩
  split
  · next h h' =>
      refine Or.inr ⟨by omega, _, _, rfl, ?_, ?_⟩
      · simp only [UInt8.toNat_ofNat']
        omega
      · simp only [List.mem_cons, List.not_mem_nil, or_false, forall_eq_or_imp, forall_eq,
          UInt8.toNat_ofNat']
        omega
  split
  · next h h' h'' =>
      refine Or.inr ⟨by omega, _, _, rfl, ?_, ?_⟩
      · simp only [UInt8.toNat_ofNat']
        omega
      · simp only [List.mem_cons, List.not_mem_nil, or_false, forall_eq_or_imp, forall_eq,
          UInt8.toNat_ofNat']
        omega
  · next h h' h'' =>
      refine Or.inr ⟨by omega, _, _, rfl, ?_, ?_⟩
      · simp only [UInt8.toNat_ofNat']
        omega
      · simp only [List.mem_cons, List.not_mem_nil, or_false, forall_eq_or_imp, forall_eq,
          UInt8.toNat_ofNat']
        omega

/-- A null character is the only one with a null byte. -/
theorem ne_zero_of_mem_utf8EncodeChar {c : Char} (hc : c ≠ null) :
    ∀ b ∈ String.utf8EncodeChar c, b ≠ 0 := by
  intro b hb hzero
  rw [hzero] at hb
  rcases utf8EncodeChar_cases c with ⟨hlt, heq⟩ | ⟨-, d, ds, heq, -, hge⟩
  · rw [heq, List.mem_singleton] at hb
    have hnat := congrArg UInt8.toNat hb
    rw [UInt8.toNat_ofNat', Nat.mod_eq_of_lt (by omega)] at hnat
    refine hc (Char.toNat_inj.1 ?_)
    exact hnat.symm
  · rw [heq] at hb
    have hzero := hge 0 hb
    revert hzero
    decide

/-- Where a text ends at a null character, its bytes end at a null byte. -/
theorem takeWhile_utf8 (text : List Char) :
    (utf8 text).takeWhile (· ≠ 0) = utf8 (text.takeWhile (· ≠ null)) := by
  induction text with
  | nil => rfl
  | cons c text ih =>
      by_cases hc : c = null
      · rw [hc]
        rfl
      · have hall : ∀ b ∈ String.utf8EncodeChar c, decide (b ≠ 0) = true := by
          intro b hb
          exact decide_eq_true (ne_zero_of_mem_utf8EncodeChar hc b hb)
        have hcons : (c :: text).takeWhile (· ≠ null) = c :: text.takeWhile (· ≠ null) := by
          simp [hc]
        rw [utf8_cons, List.takeWhile_append_of_pos hall, ih, hcons, utf8_cons]

/-- The first characters of two texts are the same if the bytes of one begin those of the other. -/
theorem eq_of_prefix_utf8 {c d : Char} {text : List Char} (h : utf8 [c] <+: utf8 (d :: text)) :
    c = d := by
  obtain ⟨bytes, hbytes⟩ := h
  rw [utf8_cons, utf8_nil, List.append_nil, utf8_cons] at hbytes
  have hdecode := congrArg (fun bs => ByteArray.utf8DecodeChar? bs.toByteArray 0) hbytes
  simp only [List.toByteArray_append, ByteArray.utf8DecodeChar?_utf8EncodeChar_append] at hdecode
  exact Option.some.inj hdecode

/-- A mark at the front is a mark among the bytes. -/
theorem unmarked_utf8 (text : List Char) :
    (if utf8 [mark] <+: utf8 text then (utf8 text).drop 3 else utf8 text) = utf8 (unmarked text) := by
  cases text with
  | nil => rfl
  | cons c text =>
      unfold unmarked
      rw [List.head?_cons, List.tail_cons]
      by_cases hc : c = mark
      · rw [hc, if_pos rfl, if_pos (by simp), utf8_cons]
        rfl
      · rw [if_neg (fun h => hc (eq_of_prefix_utf8 h).symm), if_neg (by simpa using hc)]

/-- No text in UTF-8 begins with a mark of UTF-16. -/
theorem not_prefix_utf8 {b : UInt8} (hb : 247 < b.toNat) (b' : UInt8) (text : List Char) :
    ¬ [b, b'] <+: utf8 text := by
  rintro ⟨bytes, hbytes⟩
  cases text with
  | nil => cases hbytes
  | cons c text =>
      rw [utf8_cons] at hbytes
      rcases utf8EncodeChar_cases c with ⟨hlt, heq⟩ | ⟨-, d, ds, heq, hle, -⟩
      · rw [heq] at hbytes
        have hnat := congrArg UInt8.toNat (List.cons.inj hbytes).1
        rw [UInt8.toNat_ofNat', Nat.mod_eq_of_lt (by omega)] at hnat
        omega
      · rw [heq] at hbytes
        obtain rfl := (List.cons.inj hbytes).1
        omega

/-! ### The decoder -/

/-- What is made of a text in UTF-8. -/
theorem transcode_utf8 (text : List Char) : transcode (utf8 text) = utf8 (visible text) := by
  rw [transcode, if_neg (not_prefix_utf8 (by decide) _ _), if_neg (not_prefix_utf8 (by decide) _ _),
    unmarked_utf8, takeWhile_utf8, visible]

/-- A unit is read from its bytes. -/
theorem readUnits_unit (bigEndian : Bool) {us : List ℕ} (h : ∀ u ∈ us, u < 0x10000) :
    readUnits bigEndian (us.flatMap (unit bigEndian)) = us := by
  induction us with
  | nil => rfl
  | cons u us ih =>
      have hu : u < 0x10000 := h u List.mem_cons_self
      have ih := ih fun v hv => h v (List.mem_cons_of_mem u hv)
      have hsum : 256 * (u / 256 % 2 ^ 8) + u % 2 ^ 8 = u := by omega
      have hsum' : u % 2 ^ 8 + 256 * (u / 256 % 2 ^ 8) = u := by omega
      rw [List.flatMap_cons]
      cases bigEndian with
      | true =>
          simp only [unit, if_true, List.cons_append, List.nil_append, readUnits, UInt8.toNat_ofNat',
            hsum, ih]
      | false =>
          simp only [unit, Bool.false_eq_true, if_false, List.cons_append, List.nil_append, readUnits,
            UInt8.toNat_ofNat', hsum', ih]

/-- What is no high surrogate is a character by itself. -/
theorem ofUnits_cons {u : ℕ} (h : ¬ IsHigh u) (us : List ℕ) :
    ofUnits (u :: us) = Char.ofNat u :: ofUnits us := by
  cases us with
  | nil => rfl
  | cons v us => rw [ofUnits, if_neg fun hpair => h hpair.1]

/-- No character is a surrogate, and none is beyond what surrogates can say. -/
theorem toNat_cases (c : Char) : c.toNat < 0xD800 ∨ 0xDFFF < c.toNat ∧ c.toNat < 0x110000 :=
  c.valid

theorem units_lt {c : Char} : ∀ u ∈ units c, u < 0x10000 := by
  intro u hu
  have hvalid := toNat_cases c
  rw [units] at hu
  split at hu
  · rw [List.mem_singleton] at hu
    omega
  · rw [List.mem_pair] at hu
    omega

theorem ofUnits_units (text : List Char) : ofUnits (text.flatMap units) = text := by
  induction text with
  | nil => rfl
  | cons c text ih =>
      have hvalid := toNat_cases c
      rw [List.flatMap_cons, units]
      split
      · -- no character is a surrogate
        have hsingle : ¬ IsHigh c.toNat := by
          rintro ⟨hle, hlt⟩
          omega
        rw [List.singleton_append, ofUnits_cons hsingle, ih, Char.ofNat_toNat]
      · next hlarge =>
          -- the two surrogates have the quotient and the remainder
          have hhigh : IsHigh (0xD800 + (c.toNat - 0x10000) / 0x400) := by
            constructor <;> omega
          have hlow : IsLow (0xDC00 + (c.toNat - 0x10000) % 0x400) := by
            constructor <;> omega
          have hsum : 0x10000 + 0x400 * (0xD800 + (c.toNat - 0x10000) / 0x400 - 0xD800) +
              (0xDC00 + (c.toNat - 0x10000) % 0x400 - 0xDC00) = c.toNat := by
            omega
          rw [List.cons_append, List.cons_append, List.nil_append, ofUnits, if_pos ⟨hhigh, hlow⟩,
            hsum, ih, Char.ofNat_toNat]

/-- A text is read from its UTF-16. -/
theorem ofUnits_utf16 (bigEndian : Bool) (text : List Char) :
    ofUnits (readUnits bigEndian (utf16 bigEndian text)) = text := by
  have hlt : ∀ u ∈ text.flatMap units, u < 0x10000 := by
    intro u hu
    obtain ⟨c, -, hu⟩ := List.mem_flatMap.1 hu
    exact units_lt u hu
  rw [utf16, readUnits_unit bigEndian hlt, ofUnits_units]

/-- What is made of a text in UTF-16 that has a mark. -/
theorem transcode_utf16 (bigEndian : Bool) (text : List Char) :
    transcode (utf16 bigEndian (mark :: text)) = utf8 (visible (mark :: text)) := by
  have hcons : utf16 bigEndian (mark :: text) = unit bigEndian 0xFEFF ++ utf16 bigEndian text :=
    rfl
  have hvisible : visible (mark :: text) = text.takeWhile (· ≠ null) := by
    rw [visible, unmarked, List.head?_cons, if_pos rfl, List.tail_cons]
  have hdrop : ∀ b b' : UInt8, List.drop 2 ([b, b'] ++ utf16 bigEndian text) =
      utf16 bigEndian text := fun _ _ => rfl
  rw [hcons, hvisible]
  cases bigEndian with
  | true =>
      have hmark : unit true 0xFEFF = [254, 255] := by decide
      rw [hmark, transcode, if_pos (List.prefix_append _ _), hdrop, ofUnits_utf16]
  | false =>
      have hmark : unit false 0xFEFF = [255, 254] := by decide
      rw [hmark, transcode, if_neg (by simp), if_pos (List.prefix_append _ _), hdrop, ofUnits_utf16]

example : transcode [254, 255, 0xD8, 0x3D, 0xDE, 0x00] = utf8 [Char.ofNat 0x1F600] := by
  decide +kernel

/-- A conversion of surrogates too is UTF-8. -/
theorem convert_utf8EncodeChar (text : List Char) : convert String.utf8EncodeChar text = utf8 text := by
  simp only [convert, ite_self, utf8]

end Unicode
