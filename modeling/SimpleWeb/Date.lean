/-
**The cache of formatted dates.**

`Date::to_string` keeps the last string that it has made, and the time point that it was last called
with and did not answer from the cache.  It answers from the cache when the difference to that time
point, truncated to seconds, is zero.  This is not what makes two time points have the same string:
two of them less than a second apart can lie in different seconds, and a time point whose conversion
fails is remembered without its string.

The cache is compared with a history that knows which second has been formatted last.

Main definitions:

* `SimpleWeb.Date.format`, `SimpleWeb.Date.toString`, `SimpleWeb.Date.calls` — the formatting, a call,
  and a sequence of calls;
* `SimpleWeb.Date.History`, `SimpleWeb.Date.History.Allows` — what a sequence of calls leaves behind,
  and the calls that the cache does not change the answer of.

Main results:

* `SimpleWeb.Date.format_inj` — a date can be read off its string;
* `SimpleWeb.Date.toString_refines` — a call refines a step of the history;
* `SimpleWeb.Date.cache_transparent` — **which sequences of calls are answered as if there were no
  cache**;
* `SimpleWeb.Date.answers_within_second` — no answer is off by more than a second.
-/

import SimpleWeb.Strings

set_option relaxedAutoImplicit false
set_option autoImplicit false

namespace SimpleWeb.Date

/-! ### Formatting -/

/-- `struct tm`, as far as it is read. -/
structure Tm where
  sec : ℤ
  min : ℤ
  hour : ℤ
  mday : ℤ
  mon : ℤ
  year : ℤ
  wday : ℤ
  deriving DecidableEq, Repr

/-- `static_cast<char>(n + 48)`. -/
def digit (n : ℤ) : UInt8 := UInt8.ofInt (n + 48)

def twoDigits (n : ℤ) : Bytes := [if n < 10 then 48 else digit (n.tdiv 10), digit (n.tmod 10)]

def weekday (wday : ℤ) : Bytes :=
  match wday with
  | 0 => ascii "Sun, "
  | 1 => ascii "Mon, "
  | 2 => ascii "Tue, "
  | 3 => ascii "Wed, "
  | 4 => ascii "Thu, "
  | 5 => ascii "Fri, "
  | 6 => ascii "Sat, "
  | _ => []

def month (mon : ℤ) : Bytes :=
  match mon with
  | 0 => ascii " Jan "
  | 1 => ascii " Feb "
  | 2 => ascii " Mar "
  | 3 => ascii " Apr "
  | 4 => ascii " May "
  | 5 => ascii " Jun "
  | 6 => ascii " Jul "
  | 7 => ascii " Aug "
  | 8 => ascii " Sep "
  | 9 => ascii " Oct "
  | 10 => ascii " Nov "
  | 11 => ascii " Dec "
  | _ => []

def fourDigits (year : ℤ) : Bytes :=
  [digit (year.tdiv 1000), digit ((year.tdiv 100).tmod 10), digit ((year.tdiv 10).tmod 10),
    digit (year.tmod 10)]

/-- The string that is made of `gmtime`. -/
def format (gmtime : Tm) : Bytes :=
  weekday gmtime.wday ++ twoDigits gmtime.mday ++ month gmtime.mon ++
    fourDigits (gmtime.year + 1900) ++ [32] ++ twoDigits gmtime.hour ++ [58] ++
    twoDigits gmtime.min ++ [58] ++ twoDigits gmtime.sec ++ ascii " GMT"

theorem format_ne_nil (gmtime : Tm) : format gmtime ≠ [] := by
  simp [format, ascii]

/-- The values that are documented for the fields, in a year of four digits. -/
structure Tm.Valid (gmtime : Tm) : Prop where
  sec : 0 ≤ gmtime.sec ∧ gmtime.sec ≤ 60
  min : 0 ≤ gmtime.min ∧ gmtime.min < 60
  hour : 0 ≤ gmtime.hour ∧ gmtime.hour < 24
  mday : 1 ≤ gmtime.mday ∧ gmtime.mday ≤ 31
  mon : 0 ≤ gmtime.mon ∧ gmtime.mon < 12
  year : 0 ≤ gmtime.year + 1900 ∧ gmtime.year + 1900 < 10000
  wday : 0 ≤ gmtime.wday ∧ gmtime.wday < 7

/-- A statement about the numbers below a bound can be checked for each of them. -/
theorem forall_lt_of_nat {bound : ℕ} {P : ℤ → ℤ → Prop} (h : ∀ m < bound, ∀ n < bound, P m n)
    {a b : ℤ} (ha : 0 ≤ a ∧ a < bound) (hb : 0 ≤ b ∧ b < bound) : P a b := by
  obtain ⟨m, rfl⟩ := Int.eq_ofNat_of_zero_le ha.1
  obtain ⟨n, rfl⟩ := Int.eq_ofNat_of_zero_le hb.1
  exact h m (by omega) n (by omega)

theorem digit_inj {a b : ℤ} (ha : 0 ≤ a ∧ a < 10) (hb : 0 ≤ b ∧ b < 10) (h : digit a = digit b) :
    a = b := by
  have hall : ∀ m < 10, ∀ n < 10, digit (m : ℕ) = digit (n : ℕ) → ((m : ℕ) : ℤ) = n := by decide
  exact forall_lt_of_nat (P := fun a b => digit a = digit b → a = b) hall ha hb h

theorem weekday_spec {a b : ℤ} (ha : 0 ≤ a ∧ a < 7) (hb : 0 ≤ b ∧ b < 7) :
    (weekday a).length = (weekday b).length ∧ (weekday a = weekday b → a = b) := by
  have hall : ∀ m < 7, ∀ n < 7, (weekday (m : ℕ)).length = (weekday (n : ℕ)).length ∧
      (weekday (m : ℕ) = weekday (n : ℕ) → ((m : ℕ) : ℤ) = n) := by decide
  exact forall_lt_of_nat (P := fun a b => (weekday a).length = (weekday b).length ∧
    (weekday a = weekday b → a = b)) hall ha hb

theorem month_spec {a b : ℤ} (ha : 0 ≤ a ∧ a < 12) (hb : 0 ≤ b ∧ b < 12) :
    (month a).length = (month b).length ∧ (month a = month b → a = b) := by
  have hall : ∀ m < 12, ∀ n < 12, (month (m : ℕ)).length = (month (n : ℕ)).length ∧
      (month (m : ℕ) = month (n : ℕ) → ((m : ℕ) : ℤ) = n) := by decide
  exact forall_lt_of_nat (P := fun a b => (month a).length = (month b).length ∧
    (month a = month b → a = b)) hall ha hb

theorem twoDigits_inj {a b : ℤ} (ha : 0 ≤ a ∧ a < 100) (hb : 0 ≤ b ∧ b < 100)
    (h : twoDigits a = twoDigits b) : a = b := by
  have hzero : ∀ n : ℤ, 0 ≤ n → (if n < 10 then (48 : UInt8) else digit (n.tdiv 10)) =
      digit (n / 10) := by
    intro n hn
    split
    · rw [show n / 10 = 0 by omega]
      rfl
    · rw [Int.tdiv_eq_ediv_of_nonneg hn]
  rw [twoDigits, twoDigits, hzero a ha.1, hzero b hb.1, Int.tmod_eq_emod_of_nonneg ha.1,
    Int.tmod_eq_emod_of_nonneg hb.1] at h
  obtain ⟨htens, hones⟩ := List.cons.inj h
  have htens' := digit_inj (by omega) (by omega) htens
  have hones' := digit_inj (by omega) (by omega) (List.cons.inj hones).1
  omega

theorem fourDigits_inj {a b : ℤ} (ha : 0 ≤ a ∧ a < 10000) (hb : 0 ≤ b ∧ b < 10000)
    (h : fourDigits a = fourDigits b) : a = b := by
  have hpos : ∀ n : ℤ, 0 ≤ n → fourDigits n =
      [digit (n / 1000), digit (n / 100 % 10), digit (n / 10 % 10), digit (n % 10)] := by
    intro n hn
    rw [fourDigits, Int.tdiv_eq_ediv_of_nonneg hn, Int.tdiv_eq_ediv_of_nonneg hn,
      Int.tdiv_eq_ediv_of_nonneg hn, Int.tmod_eq_emod_of_nonneg (by omega),
      Int.tmod_eq_emod_of_nonneg (by omega), Int.tmod_eq_emod_of_nonneg hn]
  rw [hpos a ha.1, hpos b hb.1] at h
  simp only [List.cons.injEq, and_true] at h
  obtain ⟨h₃, h₂, h₁, h₀⟩ := h
  have h₃' := digit_inj (by omega) (by omega) h₃
  have h₂' := digit_inj (by omega) (by omega) h₂
  have h₁' := digit_inj (by omega) (by omega) h₁
  have h₀' := digit_inj (by omega) (by omega) h₀
  omega

/-- **A date can be read off its string.** -/
theorem format_inj {g g' : Tm} (hg : g.Valid) (hg' : g'.Valid) (h : format g = format g') :
    g = g' := by
  simp only [format, List.append_assoc] at h
  obtain ⟨hwdayLen, hwday⟩ := weekday_spec hg.wday hg'.wday
  obtain ⟨hmonLen, hmon⟩ := month_spec hg.mon hg'.mon
  obtain ⟨hweekday, h⟩ := List.append_inj h hwdayLen
  obtain ⟨hmday, h⟩ := List.append_inj h rfl
  obtain ⟨hmonth, h⟩ := List.append_inj h hmonLen
  obtain ⟨hyear, h⟩ := List.append_inj h rfl
  obtain ⟨-, h⟩ := List.append_inj h rfl
  obtain ⟨hhour, h⟩ := List.append_inj h rfl
  obtain ⟨-, h⟩ := List.append_inj h rfl
  obtain ⟨hmin, h⟩ := List.append_inj h rfl
  obtain ⟨-, h⟩ := List.append_inj h rfl
  obtain ⟨hsec, -⟩ := List.append_inj h rfl
  have hboundSec := hg.sec
  have hboundSec' := hg'.sec
  have hboundMin := hg.min
  have hboundMin' := hg'.min
  have hboundHour := hg.hour
  have hboundHour' := hg'.hour
  have hboundMday := hg.mday
  have hboundMday' := hg'.mday
  have hyear' := fourDigits_inj hg.year hg'.year hyear
  obtain ⟨sec, min, hour, mday, mon, year, wday⟩ := g
  obtain ⟨sec', min', hour', mday', mon', year', wday'⟩ := g'
  simp only at *
  rw [hwday hweekday, hmon hmonth, twoDigits_inj (by omega) (by omega) hmday,
    twoDigits_inj (by omega) (by omega) hhour, twoDigits_inj (by omega) (by omega) hmin,
    twoDigits_inj (by omega) (by omega) hsec, show year = year' by omega]

/-! ### Calls -/

/-- `std::chrono::system_clock`, and the conversion to UTC, which is `none` if it fails. -/
structure Clock where
  ticks : ℕ
  ticks_pos : 0 < ticks
  gmtime : ℤ → Option Tm

/-- The count of a `time_point`. -/
abbrev TimePoint := Int64

namespace Clock

/-- `to_time_t`, which rounds towards negative infinity. -/
def toTimeT (clock : Clock) (timePoint : TimePoint) : ℤ := timePoint.toInt / clock.ticks

/-- `duration_cast<seconds>(d).count()`, which truncates. -/
def seconds (clock : Clock) (d : ℤ) : ℤ := d.tdiv clock.ticks

/-- What a second is formatted as. -/
def formatSecond (clock : Clock) (second : ℤ) : Bytes :=
  match clock.gmtime second with
  | none => []
  | some gmtime => format gmtime

end Clock

/-- The static variables. -/
structure Cache where
  resultCache : Bytes := []
  lastTimePoint : TimePoint := 0
  deriving DecidableEq, Repr

/-- The difference of two counts; it is undefined if it does not fit. -/
def difference (a b : TimePoint) : Except Fault ℤ :=
  if -2 ^ 63 ≤ a.toInt - b.toInt ∧ a.toInt - b.toInt < 2 ^ 63 then .ok (a.toInt - b.toInt)
  else .error .overflow

/-- `Date::to_string`. -/
def toString (clock : Clock) (s : Cache) (timePoint : TimePoint) : Except Fault (Bytes × Cache) := do
  let d ← difference timePoint s.lastTimePoint
  if clock.seconds d = 0 ∧ s.resultCache ≠ [] then return (s.resultCache, s)
  else
    let s := { s with lastTimePoint := timePoint }
    match clock.gmtime (clock.toTimeT timePoint) with
    | none => return ([], s)
    | some gmtime =>
        let result := format gmtime
        return (result, { s with resultCache := result })

/-- One call after the other: what they return, and the static variables behind them. -/
def calls (clock : Clock) : Cache → List TimePoint → Except Fault (List Bytes × Cache)
  | s, [] => .ok ([], s)
  | s, t :: ts => do
      let (result, s) ← toString clock s t
      let (results, s) ← calls clock s ts
      return (result :: results, s)

/-- What a call returns if there is nothing in the cache. -/
def firstCall (clock : Clock) (timePoint : TimePoint) : Except Fault Bytes :=
  Prod.fst <$> toString clock {} timePoint

variable {clock : Clock} {t : TimePoint} {ts : List TimePoint} {s : Cache}

theorem difference_zero (t : TimePoint) : difference t 0 = .ok t.toInt := by
  have hge := t.le_toInt
  have hlt := t.toInt_lt
  simp only [difference, Int64.toInt_zero, Int.sub_zero]
  exact if_pos ⟨hge, hlt⟩

/-- **A first call formats the whole second.** -/
theorem firstCall_eq (clock : Clock) (t : TimePoint) :
    firstCall clock t = .ok (clock.formatSecond (clock.toTimeT t)) := by
  simp only [firstCall, toString, difference_zero, ok_bind, ne_eq, not_true_eq_false, and_false,
    if_false, Clock.formatSecond]
  cases clock.gmtime (clock.toTimeT t) <;> rfl

/-! ### The history behind the cache -/

/-- The last time point that was not answered from the cache, and the second that was formatted
last. -/
structure History where
  lastTimePoint : TimePoint := 0
  second : Option ℤ := none

namespace History

/-- A call that is answered from the cache. -/
def Near (clock : Clock) (h : History) (t : TimePoint) : Prop :=
  h.second.isSome ∧ clock.seconds (t.toInt - h.lastTimePoint.toInt) = 0

instance (clock : Clock) (h : History) (t : TimePoint) : Decidable (h.Near clock t) :=
  inferInstanceAs (Decidable (_ ∧ _))

def next (clock : Clock) (h : History) (t : TimePoint) : History :=
  if h.Near clock t then h
  else
    ⟨t, if (clock.gmtime (clock.toTimeT t)).isSome then some (clock.toTimeT t) else h.second⟩

/-- What the call returns. -/
def answer (clock : Clock) (h : History) (t : TimePoint) : Bytes :=
  if h.Near clock t then h.second.elim [] clock.formatSecond
  else clock.formatSecond (clock.toTimeT t)

/-- The difference fits, and a call that is answered from the cache is one for the second that was
formatted last. -/
structure Allows (clock : Clock) (h : History) (t : TimePoint) : Prop where
  fits : -2 ^ 63 ≤ t.toInt - h.lastTimePoint.toInt ∧ t.toInt - h.lastTimePoint.toInt < 2 ^ 63
  second : h.Near clock t → h.second = some (clock.toTimeT t)

/-- Every call of a sequence is allowed by the history behind it. -/
def AllowsAll (clock : Clock) : History → List TimePoint → Prop
  | _, [] => True
  | h, t :: ts => h.Allows clock t ∧ (h.next clock t).AllowsAll clock ts

end History

/-- Different seconds are formatted differently. -/
def Clock.TellsApart (clock : Clock) : Prop :=
  ∀ a b gmtimeA gmtimeB, clock.gmtime a = some gmtimeA → clock.gmtime b = some gmtimeB →
    format gmtimeA = format gmtimeB → a = b

/-- They are where the conversion gives dates, and different ones. -/
theorem Clock.TellsApart.of_injective {clock : Clock}
    (hvalid : ∀ second gmtime, clock.gmtime second = some gmtime → gmtime.Valid)
    (hinj : ∀ a b gmtime, clock.gmtime a = some gmtime → clock.gmtime b = some gmtime → a = b) :
    clock.TellsApart := by
  intro a b gmtimeA gmtimeB ha hb h
  obtain rfl := format_inj (hvalid a gmtimeA ha) (hvalid b gmtimeB hb) h
  exact hinj a b gmtimeA ha hb

/-- What is in the cache is the string of the second that was formatted last. -/
structure Represents (clock : Clock) (s : Cache) (h : History) : Prop where
  lastTimePoint : s.lastTimePoint = h.lastTimePoint
  empty : h.second = none → s.resultCache = []
  formatted : ∀ second, h.second = some second →
    ∃ gmtime, clock.gmtime second = some gmtime ∧ s.resultCache = format gmtime

variable {h : History}

theorem represents_empty (clock : Clock) : Represents clock {} {} :=
  ⟨rfl, fun _ => rfl, nofun⟩

theorem Represents.isSome_iff (hs : Represents clock s h) :
    s.resultCache ≠ [] ↔ h.second.isSome := by
  cases hsecond : h.second with
  | none => simp [hs.empty hsecond]
  | some second =>
      obtain ⟨gmtime, -, hcache⟩ := hs.formatted second hsecond
      simp [hcache, format_ne_nil]

theorem Represents.resultCache_eq (hs : Represents clock s h) :
    s.resultCache = h.second.elim [] clock.formatSecond := by
  cases hsecond : h.second with
  | none => exact hs.empty hsecond
  | some second =>
      obtain ⟨gmtime, hgmtime, hcache⟩ := hs.formatted second hsecond
      simp [hcache, Clock.formatSecond, hgmtime]

/-- **A call refines a step of the history**, if the difference fits. -/
theorem toString_refines (hs : Represents clock s h)
    (hfits : -2 ^ 63 ≤ t.toInt - h.lastTimePoint.toInt ∧
      t.toInt - h.lastTimePoint.toInt < 2 ^ 63) :
    ∃ s', toString clock s t = .ok (h.answer clock t, s') ∧ Represents clock s' (h.next clock t) := by
  have hdifference : difference t s.lastTimePoint = .ok (t.toInt - h.lastTimePoint.toInt) := by
    rw [difference, hs.lastTimePoint, if_pos hfits]
  have hnear : (clock.seconds (t.toInt - h.lastTimePoint.toInt) = 0 ∧ s.resultCache ≠ []) ↔
      h.Near clock t := by
    rw [hs.isSome_iff, History.Near, and_comm]
  simp only [toString, hdifference, ok_bind, hnear, History.answer, History.next]
  by_cases hn : h.Near clock t
  · rw [if_pos hn, if_pos hn, if_pos hn, hs.resultCache_eq, pure_eq_ok]
    exact ⟨s, rfl, hs⟩
  · rw [if_neg hn, if_neg hn, if_neg hn, Clock.formatSecond]
    cases hgmtime : clock.gmtime (clock.toTimeT t) with
    | none =>
        -- the time point is remembered, and the string stays what it was
        exact ⟨_, rfl, rfl, hs.empty, hs.formatted⟩
    | some gmtime =>
        refine ⟨_, rfl, rfl, nofun, ?_⟩
        intro second hsecond
        obtain rfl := Option.some.inj hsecond
        exact ⟨gmtime, hgmtime, rfl⟩

/-- A difference that does not fit is not survived. -/
theorem toString_fits (hs : Represents clock s h) {p : Bytes × Cache}
    (hcall : toString clock s t = .ok p) :
    -2 ^ 63 ≤ t.toInt - h.lastTimePoint.toInt ∧ t.toInt - h.lastTimePoint.toInt < 2 ^ 63 := by
  obtain ⟨d, hd, -⟩ := exists_of_bind hcall
  rw [difference, hs.lastTimePoint] at hd
  split at hd
  · assumption
  · cases hd

/-! ### Sequences of calls -/

/-- Each call returns what a first call with the same time point returns. -/
def Transparent (clock : Clock) (s : Cache) (ts : List TimePoint) : Prop :=
  ∃ results s', calls clock s ts = .ok (results, s') ∧
    List.Forall₂ (fun t result => firstCall clock t = .ok result) ts results

/-- A sequence is answered transparently call by call. -/
theorem transparent_cons {s' : Cache} {result : Bytes}
    (hcall : toString clock s t = .ok (result, s')) :
    Transparent clock s (t :: ts) ↔
      result = clock.formatSecond (clock.toTimeT t) ∧ Transparent clock s' ts := by
  constructor
  · rintro ⟨results, s'', hcalls, hfirst⟩
    rw [calls, hcall, ok_bind] at hcalls
    obtain ⟨⟨results', s₁⟩, hrest, hresults⟩ := exists_of_bind hcalls
    obtain ⟨rfl, rfl⟩ := Prod.mk.inj (Except.ok.inj hresults)
    obtain ⟨hhead, htail⟩ := List.forall₂_cons.1 hfirst
    rw [firstCall_eq, Except.ok.injEq] at hhead
    exact ⟨hhead.symm, results', s₁, hrest, htail⟩
  · rintro ⟨rfl, results, s'', hcalls, hfirst⟩
    refine ⟨_ :: results, s'', ?_, List.forall₂_cons.2 ⟨firstCall_eq clock t, hfirst⟩⟩
    simp only [calls, hcall, hcalls, ok_bind, pure_eq_ok]

/-- An allowed call is answered as a first call is. -/
theorem History.Allows.answer_eq (hallows : h.Allows clock t) :
    h.answer clock t = clock.formatSecond (clock.toTimeT t) := by
  unfold History.answer
  split
  · next hn => rw [hallows.second hn, Option.elim_some]
  · rfl

/-- A call that is answered as a first call is, is an allowed one, if seconds are told apart. -/
theorem second_of_answer (hs : Represents clock s h) (hapart : clock.TellsApart)
    (hanswer : h.answer clock t = clock.formatSecond (clock.toTimeT t)) (hn : h.Near clock t) :
    h.second = some (clock.toTimeT t) := by
  obtain ⟨second, hsecond⟩ := Option.isSome_iff_exists.1 hn.1
  obtain ⟨gmtime, hgmtime, -⟩ := hs.formatted second hsecond
  rw [History.answer, if_pos hn, hsecond, Option.elim_some, Clock.formatSecond, hgmtime,
    Clock.formatSecond] at hanswer
  cases hgmtime' : clock.gmtime (clock.toTimeT t) with
  | none =>
      rw [hgmtime'] at hanswer
      exact absurd hanswer (format_ne_nil gmtime)
  | some gmtime' =>
      rw [hgmtime'] at hanswer
      rw [hsecond, hapart _ _ _ _ hgmtime hgmtime' hanswer]

/-- **The run**: allowed calls are answered transparently. -/
theorem transparent_of_allowsAll (hs : Represents clock s h) (hallows : h.AllowsAll clock ts) :
    Transparent clock s ts := by
  induction ts generalizing s h with
  | nil => exact ⟨[], s, rfl, .nil⟩
  | cons t ts ih =>
      obtain ⟨ht, hts⟩ := hallows
      obtain ⟨s', hcall, hs'⟩ := toString_refines hs ht.fits
      exact (transparent_cons hcall).2 ⟨ht.answer_eq, ih hs' hts⟩

theorem allowsAll_of_transparent (hapart : clock.TellsApart) (hs : Represents clock s h)
    (htransparent : Transparent clock s ts) : h.AllowsAll clock ts := by
  induction ts generalizing s h with
  | nil => trivial
  | cons t ts ih =>
      obtain ⟨results, s₁, hcalls, -⟩ := id htransparent
      obtain ⟨p, hp, -⟩ := exists_of_bind hcalls
      have hfits := toString_fits hs hp
      obtain ⟨s', hcall, hs'⟩ := toString_refines hs hfits
      obtain ⟨hanswer, hrest⟩ := (transparent_cons hcall).1 htransparent
      exact ⟨⟨hfits, second_of_answer hs hapart hanswer⟩, ih hs' hrest⟩

/-- **Which sequences of calls are answered as if there were no cache.**  A first call formats the whole
second.  Every sequence of allowed calls is answered so; and if different seconds are formatted
differently, no other sequence is. -/
theorem cache_transparent (clock : Clock) (ts : List TimePoint) :
    (∀ t, firstCall clock t = .ok (clock.formatSecond (clock.toTimeT t))) ∧
    (History.AllowsAll clock {} ts → Transparent clock {} ts) ∧
    (clock.TellsApart → Transparent clock {} ts → History.AllowsAll clock {} ts) :=
  ⟨firstCall_eq clock, transparent_of_allowsAll (represents_empty clock),
    fun hapart => allowsAll_of_transparent hapart (represents_empty clock)⟩

/-! ### How far an answer is off -/

/-- Time points less than a second apart lie in the same second or in adjacent ones. -/
theorem toTimeT_near {t' : TimePoint} (h : clock.seconds (t.toInt - t'.toInt) = 0) :
    clock.toTimeT t' ≤ clock.toTimeT t + 1 ∧ clock.toTimeT t ≤ clock.toTimeT t' + 1 := by
  have hpos : (0 : ℤ) < clock.ticks := by exact_mod_cast clock.ticks_pos
  have hnext : ∀ n : ℤ, (n + clock.ticks) / clock.ticks = n / clock.ticks + 1 := by
    intro n
    rw [Int.add_ediv_of_dvd_right (Int.dvd_refl _), Int.ediv_self hpos.ne']
  have hsplit := Int.mul_tdiv_add_tmod (t.toInt - t'.toInt) clock.ticks
  rw [Clock.seconds] at h
  rw [h, Int.mul_zero, Int.zero_add] at hsplit
  have hlt := Int.tmod_lt_of_pos (t.toInt - t'.toInt) hpos
  have hgt := Int.lt_tmod_of_pos (t.toInt - t'.toInt) hpos
  constructor
  · rw [Clock.toTimeT, Clock.toTimeT, ← hnext]
    exact Int.ediv_le_ediv hpos (by omega)
  · rw [Clock.toTimeT, Clock.toTimeT, ← hnext]
    exact Int.ediv_le_ediv hpos (by omega)

/-- The second that was formatted last is that of the last time point. -/
def History.Current (clock : Clock) (h : History) : Prop :=
  ∀ second, h.second = some second → second = clock.toTimeT h.lastTimePoint

theorem History.Current.next (hcurrent : h.Current clock)
    (hconverted : (clock.gmtime (clock.toTimeT t)).isSome) : (h.next clock t).Current clock := by
  rw [History.next, if_pos hconverted]
  split
  · exact hcurrent
  · intro second hsecond
    exact (Option.some.inj hsecond).symm

/-- The answer is the string of a second that is the right one or next to it. -/
theorem History.Current.answer (hcurrent : h.Current clock) (t : TimePoint) :
    ∃ second, h.answer clock t = clock.formatSecond second ∧
      second ≤ clock.toTimeT t + 1 ∧ clock.toTimeT t ≤ second + 1 := by
  rw [History.answer]
  split
  · next hn =>
      obtain ⟨second, hsecond⟩ := Option.isSome_iff_exists.1 hn.1
      refine ⟨second, by rw [hsecond, Option.elim_some], ?_⟩
      rw [hcurrent second hsecond]
      exact toTimeT_near hn.2
  · exact ⟨_, rfl, by omega, by omega⟩

theorem calls_within_second {results : List Bytes} {s' : Cache} (hs : Represents clock s h)
    (hcurrent : h.Current clock)
    (hconverted : ∀ t ∈ ts, (clock.gmtime (clock.toTimeT t)).isSome)
    (hcalls : calls clock s ts = .ok (results, s')) :
    List.Forall₂ (fun t result => ∃ second, result = clock.formatSecond second ∧
      second ≤ clock.toTimeT t + 1 ∧ clock.toTimeT t ≤ second + 1) ts results := by
  induction ts generalizing s h results with
  | nil =>
      obtain ⟨rfl, -⟩ := Prod.mk.inj (Except.ok.inj hcalls)
      exact .nil
  | cons t ts ih =>
      obtain ⟨p, hp, -⟩ := exists_of_bind hcalls
      obtain ⟨s₁, hcall, hs₁⟩ := toString_refines hs (toString_fits hs hp)
      rw [calls, hcall, ok_bind] at hcalls
      obtain ⟨⟨results', s₂⟩, hrest, hresults⟩ := exists_of_bind hcalls
      obtain ⟨rfl, rfl⟩ := Prod.mk.inj (Except.ok.inj hresults)
      obtain ⟨ht, hts⟩ := List.forall_mem_cons.1 hconverted
      exact .cons (hcurrent.answer t) (ih hs₁ (hcurrent.next ht) hts hrest)

/-- **No answer is off by more than a second**, if all conversions succeed. -/
theorem answers_within_second (hconverted : ∀ t ∈ ts, (clock.gmtime (clock.toTimeT t)).isSome)
    {results : List Bytes} {s' : Cache} (hcalls : calls clock {} ts = .ok (results, s')) :
    List.Forall₂ (fun t result => ∃ second, result = clock.formatSecond second ∧
      second ≤ clock.toTimeT t + 1 ∧ clock.toTimeT t ≤ second + 1) ts results :=
  calls_within_second (represents_empty clock) nofun hconverted hcalls

/-! ### A day -/

/-- A clock that counts nanoseconds, with the conversion of the first day of 1970; no earlier second is
converted. -/
def Clock.firstDay : Clock where
  ticks := 1000000000
  ticks_pos := by decide
  gmtime := fun second =>
    if 0 ≤ second ∧ second < 86400 then
      some ⟨second % 60, second / 60 % 60, second / 3600, 1, 0, 70, 4⟩
    else none

/-- The conversions of that day. -/
theorem Clock.gmtime_firstDay {second : ℤ} {gmtime : Tm}
    (h : Clock.firstDay.gmtime second = some gmtime) :
    (0 ≤ second ∧ second < 86400) ∧
      gmtime = ⟨second % 60, second / 60 % 60, second / 3600, 1, 0, 70, 4⟩ := by
  obtain ⟨hday, hgmtime⟩ := Option.ite_none_right_eq_some.1 h
  exact ⟨hday, (Option.some.inj hgmtime).symm⟩

theorem Clock.tellsApart_firstDay : Clock.firstDay.TellsApart := by
  refine Clock.TellsApart.of_injective ?_ ?_
  · intro second gmtime h
    obtain ⟨hday, rfl⟩ := Clock.gmtime_firstDay h
    constructor <;> simp only <;> omega
  · intro a b gmtime ha hb
    obtain ⟨hdayA, rfl⟩ := Clock.gmtime_firstDay ha
    obtain ⟨hdayB, heq⟩ := Clock.gmtime_firstDay hb
    obtain ⟨hsec, hmin, hhour, -⟩ := Tm.mk.inj heq
    omega

/-- Two calls in one second, and one in a later second. -/
theorem cache_transparent_firstDay :
    Transparent .firstDay {} [500000000, 900000000, 2000000000] :=
  (cache_transparent .firstDay [500000000, 900000000, 2000000000]).2.1
    ⟨⟨by decide, by decide⟩, ⟨by decide, by decide⟩, ⟨by decide, by decide⟩, trivial⟩

/-- The second call is less than a second after the first one, and in the next second. -/
theorem next_second_missed :
    calls .firstDay {} [900000000, 1100000000] =
      .ok ([ascii "Thu, 01 Jan 1970 00:00:00 GMT", ascii "Thu, 01 Jan 1970 00:00:00 GMT"],
        ⟨ascii "Thu, 01 Jan 1970 00:00:00 GMT", 900000000⟩) ∧
    firstCall .firstDay 1100000000 = .ok (ascii "Thu, 01 Jan 1970 00:00:01 GMT") ∧
    ¬ Transparent .firstDay {} [900000000, 1100000000] := by
  have hcalls : calls .firstDay {} [900000000, 1100000000] =
      .ok ([ascii "Thu, 01 Jan 1970 00:00:00 GMT", ascii "Thu, 01 Jan 1970 00:00:00 GMT"],
        ⟨ascii "Thu, 01 Jan 1970 00:00:00 GMT", 900000000⟩) := by
    decide +kernel
  have hfirst : firstCall .firstDay 1100000000 = .ok (ascii "Thu, 01 Jan 1970 00:00:01 GMT") := by
    decide +kernel
  refine ⟨hcalls, hfirst, ?_⟩
  rintro ⟨results, s', hresults, htransparent⟩
  rw [hcalls] at hresults
  obtain ⟨rfl, -⟩ := Prod.mk.inj (Except.ok.inj hresults)
  obtain ⟨-, hsecond⟩ := List.forall₂_cons.1 htransparent
  have hanswer := (List.forall₂_cons.1 hsecond).1
  rw [hfirst] at hanswer
  revert hanswer
  decide +kernel

/-- A time point whose conversion fails leaves the old string behind for the next call. -/
example : (calls .firstDay {} [5000000000, -3000000000, -2500000000]).map Prod.fst =
    .ok [ascii "Thu, 01 Jan 1970 00:00:05 GMT", [], ascii "Thu, 01 Jan 1970 00:00:05 GMT"] := by
  decide +kernel

end SimpleWeb.Date
