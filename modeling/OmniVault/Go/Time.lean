import OmniVault.Go.Strconv

/-!
Go's `time.Time` as the store formats and parses it. A time is an instant,
Unix seconds and nanoseconds, with the offset its zone has at that instant;
the zone's name and the monotonic clock reading play no part in formatting
and are left out. Dates are proleptic Gregorian, computed by the
civil-from-days conversion, which gives the dates Go's `absDate` gives.

Two layouts are written: `RFC3339` by `vault.Timestamp.MarshalJSON` and
`RFC3339Nano` by `Time.MarshalJSON`. `time.Parse` with either layout is
modelled by its fast path `parseRFC3339`; its fallback to the general parser
and the texts of its errors are not modelled.
-/

namespace OmniVault

open Strconv

/-- A `time.Time`: an instant and the offset, in seconds east of UTC, of its zone. -/
@[ext] structure Time where
  unix : Int
  nsec : Nat
  offset : Int
  nsec_lt : nsec < 1000000000
  deriving DecidableEq, Repr

namespace Time

/-! ## The calendar -/

def isLeap (y : Int) : Bool := y % 4 = 0 && (y % 100 ≠ 0 || y % 400 = 0)

/-- `daysIn(m, year)`. -/
def daysIn (m : Nat) (y : Int) : Nat :=
  if m = 2 then (if isLeap y then 29 else 28)
  else if m = 4 ∨ m = 6 ∨ m = 9 ∨ m = 11 then 30
  else 31

theorem isLeap_iff (y : Int) : isLeap y ↔ y % 4 = 0 ∧ (y % 100 ≠ 0 ∨ y % 400 = 0) := by
  simp [isLeap]

theorem daysIn_feb (y : Int) : daysIn 2 y = if isLeap y then 29 else 28 := rfl

theorem daysIn_of_ne {m : Nat} (hm : m ≠ 2) (y : Int) :
    daysIn m y = if m = 4 ∨ m = 6 ∨ m = 9 ∨ m = 11 then 30 else 31 := by
  simp [daysIn, hm]

/-- The year of a 400-year era starting on 1 March and the day within that
year, for the `doe`-th day of the era: whole centuries first (the last one a
day longer), then four-year cycles (each ending on a leap day), then years
(the fourth a day longer). -/
def yearOfEra (doe : Nat) : Nat × Nat :=
  let c := min (doe / 36524) 3
  let r := doe - 36524 * c
  let n := min (r % 1461 / 365) 3
  (100 * c + 4 * (r / 1461) + n, r % 1461 - 365 * n)

/-- The month, counted from March, of the `doy`-th day of a year starting on 1 March. -/
def monthOfYear (doy : Nat) : Nat := (5 * doy + 2) / 153

/-- The day of the year on which month `mp`, counted from March, starts. -/
def monthStart (mp : Nat) : Nat := (153 * mp + 2) / 5

/-- Year, month and day of the `z`-th day after 1970-01-01. -/
def civilFromDays (z : Int) : Int × Nat × Nat :=
  let yd := yearOfEra ((z + 719468) % 146097).toNat
  let mp := monthOfYear yd.2
  let m := if mp < 10 then mp + 3 else mp - 9
  ((yd.1 : Int) + (z + 719468) / 146097 * 400 + (if m ≤ 2 then 1 else 0), m,
    yd.2 - monthStart mp + 1)

/-- The day number of a valid date, as `time.Date` computes it. -/
def daysFromCivil (y : Int) (m d : Nat) : Int :=
  let y' := y - (if m ≤ 2 then 1 else 0)
  let yoe := (y' % 400).toNat
  let mp := if 2 < m then m - 3 else m + 9
  y' / 400 * 146097 + ((365 * yoe + yoe / 4 - yoe / 100 + (monthStart mp + d - 1) : Nat) : Int) -
    719468

theorem yearOfEra_spec {doe : Nat} (h : doe < 146097) :
    365 * (yearOfEra doe).1 + (yearOfEra doe).1 / 4 - (yearOfEra doe).1 / 100 + (yearOfEra doe).2 =
      doe ∧ (yearOfEra doe).1 < 400 ∧ (yearOfEra doe).2 ≤ 365 ∧
    ((yearOfEra doe).2 = 365 →
      (yearOfEra doe).1 % 4 = 3 ∧ ((yearOfEra doe).1 % 100 ≠ 99 ∨ (yearOfEra doe).1 = 399)) := by
  simp only [yearOfEra]
  generalize hc : min (doe / 36524) 3 = c
  have hcr : c ≤ 3 ∧ 36524 * c ≤ doe ∧ doe - 36524 * c ≤ 36524 ∧
      (c < 3 → doe - 36524 * c ≤ 36523) := by omega
  generalize hr : doe - 36524 * c = r at *
  generalize hq : r / 1461 = q
  generalize hs : r % 1461 = s
  have hqs : r = 1461 * q + s ∧ s < 1461 := by omega
  generalize hn : min (s / 365) 3 = n
  have hn3 : n ≤ 3 ∧ 365 * n ≤ s ∧ (n < 3 → s < 365 * n + 365) := by omega
  have hd4 : (100 * c + 4 * q + n) / 4 = 25 * c + q := by omega
  have hd100 : (100 * c + 4 * q + n) / 100 = c := by omega
  rw [hd4, hd100]
  omega

/-- Months counted from March: the month of a day and where it starts agree,
and each month is as long as `daysIn` says, February ending on the year's
last day. -/
theorem monthOfYear_spec {doy : Nat} (h : doy ≤ 365) :
    monthOfYear doy ≤ 11 ∧ monthStart (monthOfYear doy) ≤ doy ∧
    (monthOfYear doy = 11 → doy - monthStart 11 + 1 ≤ 28 ∨ doy = 365) ∧
    (monthOfYear doy < 11 → doy - monthStart (monthOfYear doy) + 1 ≤
      (if monthOfYear doy = 1 ∨ monthOfYear doy = 3 ∨ monthOfYear doy = 6 ∨
        monthOfYear doy = 8 then 30 else 31)) := by
  have hmp : monthOfYear doy ≤ 11 := by simp only [monthOfYear]; omega
  have hcases : monthOfYear doy = 0 ∨ monthOfYear doy = 1 ∨ monthOfYear doy = 2 ∨
      monthOfYear doy = 3 ∨ monthOfYear doy = 4 ∨ monthOfYear doy = 5 ∨ monthOfYear doy = 6 ∨
      monthOfYear doy = 7 ∨ monthOfYear doy = 8 ∨ monthOfYear doy = 9 ∨
      monthOfYear doy = 10 ∨ monthOfYear doy = 11 := by omega
  have hdef : monthOfYear doy = (5 * doy + 2) / 153 := rfl
  rcases hcases with h0 | h0 | h0 | h0 | h0 | h0 | h0 | h0 | h0 | h0 | h0 | h0 <;>
    simp [h0, monthStart] <;> omega

/-- `time.Date` on the date of the `doy`-th day of year `yoe` of an era. -/
theorem daysFromCivil_of_yearOfEra {era : Int} {yoe doy : Nat} (hyoe : yoe < 400)
    (hdoy : doy ≤ 365) :
    daysFromCivil ((yoe : Int) + era * 400 +
        (if (if monthOfYear doy < 10 then monthOfYear doy + 3 else monthOfYear doy - 9) ≤ 2
          then 1 else 0))
      (if monthOfYear doy < 10 then monthOfYear doy + 3 else monthOfYear doy - 9)
      (doy - monthStart (monthOfYear doy) + 1) =
    era * 146097 + ((365 * yoe + yoe / 4 - yoe / 100 + doy : Nat) : Int) - 719468 := by
  obtain ⟨hmp, hstart, -, -⟩ := monthOfYear_spec hdoy
  generalize monthOfYear doy = mp at *
  have hy : ((yoe : Int) + era * 400) / 400 = era := by omega
  have hy' : (((yoe : Int) + era * 400) % 400).toNat = yoe := by omega
  have hday : monthStart mp + (doy - monthStart mp + 1) - 1 = doy := by omega
  by_cases h10 : mp < 10
  · have hm : ¬ (mp + 3 ≤ 2) := by omega
    have hm' : 2 < mp + 3 := by omega
    simp only [daysFromCivil, h10, if_true, hm, if_false, Int.add_zero, Int.sub_zero, hy, hy', hm',
      Nat.add_sub_cancel, hday]
  · have hm : mp - 9 ≤ 2 := by omega
    have hm' : ¬ 2 < mp - 9 := by omega
    have h9 : mp - 9 + 9 = mp := by omega
    simp only [daysFromCivil, h10, if_true, hm, if_false, hm', h9, Int.add_sub_cancel, hy, hy',
      hday]

/-- The days-to-date conversion is undone by `time.Date`. -/
theorem daysFromCivil_civilFromDays (z : Int) :
    daysFromCivil (civilFromDays z).1 (civilFromDays z).2.1 (civilFromDays z).2.2 = z := by
  have hdoe : ((z + 719468) % 146097).toNat < 146097 := by omega
  obtain ⟨hsum, hyoe, hdoy, -⟩ := yearOfEra_spec hdoe
  have := @daysFromCivil_of_yearOfEra ((z + 719468) / 146097) _ _ hyoe hdoy
  simp only [civilFromDays]
  rw [this]
  omega

/-- Every date the conversion gives is valid. -/
theorem civilFromDays_valid (z : Int) :
    1 ≤ (civilFromDays z).2.1 ∧ (civilFromDays z).2.1 ≤ 12 ∧ 1 ≤ (civilFromDays z).2.2 ∧
      (civilFromDays z).2.2 ≤ daysIn (civilFromDays z).2.1 (civilFromDays z).1 := by
  have hdoe : ((z + 719468) % 146097).toNat < 146097 := by omega
  obtain ⟨-, -, hdoy, hleap⟩ := yearOfEra_spec hdoe
  obtain ⟨hmp, hstart, hfeb, hrest⟩ := monthOfYear_spec hdoy
  simp only [civilFromDays]
  generalize yearOfEra ((z + 719468) % 146097).toNat = yd at *
  generalize monthOfYear yd.2 = mp at *
  by_cases h11 : mp = 11
  · subst h11
    have hm : (if 11 < 10 then 11 + 3 else 11 - 9) = 2 := rfl
    have h337 : monthStart 11 = 337 := rfl
    rw [hm, daysIn_feb]
    rcases hfeb rfl with h | h
    · have key : ∀ b : Bool, 28 ≤ (if b = true then 29 else 28) := by decide
      have := key (isLeap ((yd.1 : Int) + (z + 719468) / 146097 * 400 + 1))
      simp only [show (2 : Nat) ≤ 2 from le_refl 2, if_true]
      omega
    · obtain ⟨h4, h100⟩ := hleap h
      have hl : isLeap ((yd.1 : Int) + (z + 719468) / 146097 * 400 + if 2 ≤ 2 then 1 else 0) := by
        rw [isLeap_iff]; omega
      rw [if_pos hl]
      omega
  · have h11' : mp < 11 := by omega
    have hm : (if mp < 10 then mp + 3 else mp - 9) ≠ 2 := by split <;> omega
    have hlen := hrest h11'
    rw [daysIn_of_ne hm]
    refine ⟨by split <;> omega, by split <;> omega, by omega, ?_⟩
    by_cases h10 : mp < 10
    · simp only [h10, if_true] at hlen ⊢
      split <;> split at hlen <;> omega
    · have : mp = 10 := by omega
      subst this
      simpa using hlen

/-- Seconds since 1970-01-01 00:00:00 on the wall clock of the time's zone. -/
def wallSec (t : Time) : Int := t.unix + t.offset

/-- `absDate`: year, month and day on the wall clock. -/
def date (t : Time) : Int × Nat × Nat := civilFromDays (t.wallSec / 86400)

/-- `absClock`: hour, minute and second on the wall clock. -/
def clock (t : Time) : Nat × Nat × Nat :=
  let s := (t.wallSec % 86400).toNat
  (s / 3600, s / 60 % 60, s % 60)

/-- `time.Date(year, month, day, hour, min, sec, nsec, time.UTC)` on the
values the parser passes it; `nsec` is normalised into seconds as `Date` does. -/
def dateUTC (year : Int) (month day hour min sec nsec : Nat) : Time :=
  ⟨daysFromCivil year month day * 86400 + hour * 3600 + min * 60 + sec + nsec / 1000000000,
    nsec % 1000000000, 0, Nat.mod_lt _ (by decide)⟩

/-- `t.addSec(-offset)` followed by `t.setLoc` to a zone with that offset. -/
def withOffset (t : Time) (offset : Int) : Time :=
  { t with unix := t.unix - offset, offset := offset }

/-- The zero `time.Time`: January 1 of year 1, 00:00:00 UTC. -/
def zero : Time := ⟨-62135596800, 0, 0, by decide⟩

/-- `t.Truncate(time.Second)`, the instant `RFC3339` keeps. -/
def truncSec (t : Time) : Time := ⟨t.unix, 0, t.offset, by decide⟩

/-! ## Writing -/

/-- `appendInt(b, x, width)`: the digits of `|x|` zero-padded to `width`,
after a `-` when `x` is negative. -/
def appendInt (x : Int) (width : Nat) : Bytes :=
  (if x < 0 then [0x2D] else []) ++ fixedDigits (max width (digitCount x.natAbs x.natAbs)) x.natAbs

/-- `appendNano` for `.999999999`: nothing for a whole second, else a dot and
the nine digits without their trailing zeros. -/
def appendNano (nsec : Nat) : Bytes :=
  if nsec = 0 then []
  else 0x2E :: ((fixedDigits 9 nsec).reverse.dropWhile (· = 0x30)).reverse

/-- The zone of `Z07:00`: `Z` at offset zero, else the offset in hours and
minutes, its seconds dropped. -/
def appendZone (offset : Int) : Bytes :=
  if offset = 0 then [0x5A]
  else
    let zone := offset.tdiv 60
    (if zone < 0 then [0x2D] else [0x2B]) ++ appendInt ((zone.natAbs / 60 : Nat) : Int) 2 ++
      [0x3A] ++ appendInt ((zone.natAbs % 60 : Nat) : Int) 2

/-- `appendFormatRFC3339`: `Format(RFC3339)` without the fraction,
`Format(RFC3339Nano)` with it. -/
def appendFormatRFC3339 (t : Time) (nanos : Bool) : Bytes :=
  appendInt t.date.1 4 ++ [0x2D] ++ appendInt t.date.2.1 2 ++ [0x2D] ++ appendInt t.date.2.2 2 ++
    [0x54] ++ appendInt t.clock.1 2 ++ [0x3A] ++ appendInt t.clock.2.1 2 ++ [0x3A] ++
    appendInt t.clock.2.2 2 ++ (if nanos then appendNano t.nsec else []) ++ appendZone t.offset

/-- `t.Format(time.RFC3339)`. -/
def format (t : Time) : Bytes := appendFormatRFC3339 t false

/-- `t.Format(time.RFC3339Nano)`. -/
def formatNano (t : Time) : Bytes := appendFormatRFC3339 t true

/-- Whether the last six bytes `±hh:mm` of a text carry a zone of 24 hours or
more, or of more than two digits. -/
def zoneHourBad : Bytes → Bool
  | c :: h1 :: h2 :: _ => Bytes.isDigit c || 24 ≤ 10 * (h1.toNat - 0x30) + (h2.toNat - 0x30)
  | _ => false

/-- `appendStrictRFC3339`: the `RFC3339Nano` text, refused when it is not
RFC 3339 (a year that is not four digits, a zone of 24 hours or more). -/
def appendStrictRFC3339 (t : Time) : Except Bytes Bytes :=
  let b := formatNano t
  if b[4]? ≠ some 0x2D then .error (Bytes.ofString "year outside of range [0,9999]")
  else if b.getLast? ≠ some 0x5A ∧ zoneHourBad (b.drop (b.length - 6)) then
    .error (Bytes.ofString "timezone hour outside of range [0,23]")
  else .ok b

/-- `Time.MarshalJSON`: the quoted `RFC3339Nano` text. -/
def marshalJSON (t : Time) : Except Bytes Bytes :=
  match appendStrictRFC3339 t with
  | .ok b => .ok (0x22 :: b ++ [0x22])
  | .error e => .error (Bytes.ofString "Time.MarshalJSON: " ++ e)

/-! ## Reading -/

/-- `s[i:j]`. -/
def slice (s : Bytes) (i j : Nat) : Bytes := (s.drop i).take (j - i)

/-- `parseUint(s, min, max)` of `parseRFC3339`. -/
def parseUint (s : Bytes) (lo hi : Nat) : Option Nat :=
  if s.all Bytes.isDigit ∧ lo ≤ digitsValue s ∧ digitsValue s ≤ hi then some (digitsValue s)
  else none

/-- The optional fraction after the seconds: its nanoseconds and what follows
it. At most nine digits count, as in `parseNanoseconds`. -/
def parseFraction (s : Bytes) : Nat × Bytes :=
  match s with
  | 0x2E :: d :: rest =>
    if Bytes.isDigit d then
      let ds := (d :: rest).takeWhile Bytes.isDigit
      (digitsValue (ds.take 9) * 10 ^ (9 - min ds.length 9), (d :: rest).dropWhile Bytes.isDigit)
    else (0, s)
  | _ => (0, s)

/-- The zone after the clock: `Z`, or a sign, hours below 24 and minutes
below 60. -/
def parseZone (s : Bytes) : Option Int :=
  if s = [0x5A] then some 0
  else match s with
    | [sign, h1, h2, 0x3A, m1, m2] => do
      let hr ← parseUint [h1, h2] 0 23
      let mm ← parseUint [m1, m2] 0 59
      if sign = 0x2B then some ((hr * 60 + mm) * 60)
      else if sign = 0x2D then some (-(((hr * 60 + mm) * 60 : Nat) : Int))
      else none
    | _ => none

/-- `parseRFC3339`, the parser `time.Parse` runs first for `RFC3339` and
`RFC3339Nano`. -/
def parseRFC3339 (s : Bytes) : Option Time := do
  if s.length < 19 then none
  let year ← parseUint (slice s 0 4) 0 9999
  let month ← parseUint (slice s 5 7) 1 12
  let day ← parseUint (slice s 8 10) 1 (daysIn month year)
  let hour ← parseUint (slice s 11 13) 0 23
  let min ← parseUint (slice s 14 16) 0 59
  let sec ← parseUint (slice s 17 19) 0 59
  if s.get? 4 = some 0x2D ∧ s.get? 7 = some 0x2D ∧ s.get? 10 = some 0x54 ∧
      s.get? 13 = some 0x3A ∧ s.get? 16 = some 0x3A then
    let (nsec, rest) := parseFraction (s.drop 19)
    let offset ← parseZone rest
    some ((dateUTC year month day hour min sec nsec).withOffset offset)
  else none

/-! ## Digits -/

theorem parseUint_fixedDigits {w n lo hi : Nat} (hn : n < 10 ^ w) (hlo : lo ≤ n) (hhi : n ≤ hi) :
    parseUint (fixedDigits w n) lo hi = some n := by
  have hv : digitsValue (fixedDigits w n) = n := by rw [digitsValue_fixedDigits, Nat.mod_eq_of_lt hn]
  simp [parseUint, hv, hlo, hhi, List.all_eq_true.mpr (fixedDigits_isDigit w n)]

/-- A non-negative number below `10 ^ width` is written in exactly `width` digits. -/
theorem appendInt_of_lt {x : Int} {w : Nat} (h0 : 0 ≤ x) (hx : x.toNat < 10 ^ w) (hw : 1 ≤ w) :
    appendInt x w = fixedDigits w x.toNat := by
  have hlt : x.natAbs < 10 ^ w := by omega
  simp only [appendInt, show ¬ x < 0 from Int.not_lt.mpr h0, if_false, List.nil_append,
    Nat.max_eq_left (digitCount_le hlt hw _)]
  congr 1
  omega

theorem appendInt_natCast {n w : Nat} (hn : n < 10 ^ w) (hw : 1 ≤ w) :
    appendInt (n : Int) w = fixedDigits w n :=
  appendInt_of_lt (by omega) (by simpa using hn) hw

/-! ## Fractions and zones -/

/-- A run of digits followed by something that is not one is split there. -/
theorem takeWhile_digits {ds rest : Bytes} (hds : ∀ c ∈ ds, Bytes.isDigit c)
    (hrest : ∀ c ∈ rest.head?, Bytes.isDigit c = false) :
    (ds ++ rest).takeWhile Bytes.isDigit = ds ∧ (ds ++ rest).dropWhile Bytes.isDigit = rest := by
  induction ds with
  | nil =>
      cases rest with
      | nil => exact ⟨rfl, rfl⟩
      | cons c rest => simp [List.takeWhile_cons, List.dropWhile_cons, hrest c rfl]
  | cons d ds ih =>
      have hd := hds d (List.mem_cons_self d ds)
      obtain ⟨h1, h2⟩ := ih fun c hc => hds c (List.mem_cons_of_mem d hc)
      simp [List.takeWhile_cons, List.dropWhile_cons, hd, h1, h2]

/-- The digits `appendNano` keeps: a non-empty run whose value, scaled by the
trailing zeros it dropped, is the nanosecond count. -/
theorem appendNano_digits {nsec : Nat} (h0 : nsec ≠ 0) (hlt : nsec < 1000000000) :
    ∃ ds z, appendNano nsec = 0x2E :: ds ∧ ds ≠ [] ∧ (∀ c ∈ ds, Bytes.isDigit c) ∧
      ds.length + z = 9 ∧ digitsValue ds * 10 ^ z = nsec := by
  set S := fixedDigits 9 nsec with hS
  have hsplit := List.takeWhile_append_dropWhile (fun c => decide (c = (0x30 : UInt8))) S.reverse
  set Z := (S.reverse.takeWhile fun c => decide (c = (0x30 : UInt8))).reverse
  set ds := (S.reverse.dropWhile fun c => decide (c = (0x30 : UInt8))).reverse
  have hSds : S = ds ++ Z := by
    rw [← List.reverse_reverse S, ← hsplit, List.reverse_append]
  have hZ : Z = List.replicate Z.length 0x30 := List.eq_replicate_iff.mpr ⟨rfl, fun b hb => by
    have := List.mem_takeWhile_imp (List.mem_reverse.mp hb)
    simpa using this⟩
  have hval : digitsValue ds * 10 ^ Z.length = nsec := by
    rw [← digitsValue_append_zeros, ← hZ, ← hSds, hS, digitsValue_fixedDigits,
      Nat.mod_eq_of_lt (by omega)]
  have hlen : ds.length + Z.length = 9 := by
    rw [← List.length_append, ← hSds, hS, fixedDigits_length]
  refine ⟨ds, Z.length, by simp [appendNano, h0, ds, S], ?_, ?_, hlen, hval⟩
  · rintro hnil
    rw [hnil] at hval
    simp [digitsValue] at hval
    exact h0 hval.symm
  · intro c hc
    exact fixedDigits_isDigit 9 nsec c (by rw [← hS, hSds]; exact List.mem_append_left Z hc)

theorem parseFraction_appendNano {nsec : Nat} (hlt : nsec < 1000000000) {rest : Bytes}
    (hrest : ∀ c ∈ rest.head?, Bytes.isDigit c = false ∧ c ≠ 0x2E) :
    parseFraction (appendNano nsec ++ rest) = (nsec, rest) := by
  by_cases h0 : nsec = 0
  · subst h0
    match rest, hrest with
    | [], _ => rfl
    | c :: rest, hrest => simp [appendNano, parseFraction, (hrest c rfl).2]
  · obtain ⟨ds, z, hds, hne, hdig, hlen, hval⟩ := appendNano_digits h0 hlt
    obtain ⟨d, ds', rfl⟩ := List.exists_cons_of_ne_nil hne
    obtain ⟨htake, hdrop⟩ := takeWhile_digits hdig (fun c hc => (hrest c hc).1)
    have hd := hdig d (List.mem_cons_self d ds')
    rw [hds, List.cons_append, List.cons_append]
    simp only [parseFraction, hd, if_true]
    rw [← List.cons_append, htake, hdrop, List.take_of_length_le (by omega),
      Nat.min_eq_left (by omega), show 9 - (d :: ds').length = z by omega, hval]

theorem parseFraction_of_head {rest : Bytes} (hrest : ∀ c ∈ rest.head?, c ≠ 0x2E) :
    parseFraction rest = (0, rest) := by
  match rest, hrest with
  | [], _ => rfl
  | [c], _ => unfold parseFraction; split <;> simp_all
  | c :: d :: rest, hrest => simp [parseFraction, hrest c rfl]

/-- The zone offsets `RFC3339` keeps: whole minutes, less than a day. -/
def ZoneInRange (offset : Int) : Prop := offset % 60 = 0 ∧ offset.natAbs < 86400

instance (offset : Int) : Decidable (ZoneInRange offset) := inferInstanceAs (Decidable (_ ∧ _))

theorem appendZone_head (offset : Int) :
    ∀ c ∈ (appendZone offset).head?, Bytes.isDigit c = false ∧ c ≠ 0x2E := by
  intro c hc
  simp only [appendZone] at hc
  split at hc
  · obtain rfl := Option.mem_some_iff.mp hc; decide
  · split at hc <;> (obtain rfl := Option.mem_some_iff.mp hc; decide)

/-- The offset `appendZone` writes: the zone cut toward zero to whole minutes. -/
def zoneMinutes (offset : Int) : Int := offset.tdiv 60 * 60

theorem zoneMinutes_of_dvd {offset : Int} (h : offset % 60 = 0) : zoneMinutes offset = offset :=
  Int.tdiv_mul_cancel (Int.dvd_of_emod_eq_zero h)

/-- `parseZone` reads back what `appendZone` wrote of a zone under a day:
the zone cut to whole minutes. -/
theorem parseZone_appendZone {offset : Int} (hday : offset.natAbs < 86400) :
    parseZone (appendZone offset) = some (zoneMinutes offset) := by
  by_cases h0 : offset = 0
  · subst h0; rfl
  have hzone : (offset.tdiv 60).natAbs < 1440 := by
    have := Int.natAbs_tdiv offset 60
    change _ = offset.natAbs / 60 at this
    omega
  have hhr : (offset.tdiv 60).natAbs / 60 < 24 := by omega
  have hmm : (offset.tdiv 60).natAbs % 60 < 60 := Nat.mod_lt _ (by decide)
  obtain ⟨h1, h2, hh⟩ : ∃ a b, fixedDigits 2 ((offset.tdiv 60).natAbs / 60) = [a, b] := ⟨_, _, rfl⟩
  obtain ⟨m1, m2, hm⟩ : ∃ a b, fixedDigits 2 ((offset.tdiv 60).natAbs % 60) = [a, b] := ⟨_, _, rfl⟩
  have hph := @parseUint_fixedDigits 2 _ 0 23 (by omega) (Nat.zero_le _)
    (Nat.le_of_lt_succ hhr)
  have hpm := @parseUint_fixedDigits 2 _ 0 59 (by omega) (Nat.zero_le _)
    (Nat.le_of_lt_succ hmm)
  rw [hh] at hph
  rw [hm] at hpm
  have ha := appendInt_natCast (n := (offset.tdiv 60).natAbs / 60) (w := 2) (by omega) (by decide)
  have hb := appendInt_natCast (n := (offset.tdiv 60).natAbs % 60) (w := 2) (by omega) (by decide)
  simp only [appendZone, h0, if_false, ha, hb, hh, hm, zoneMinutes]
  by_cases hneg : offset.tdiv 60 < 0
  · have hn := Int.ofNat_natAbs_of_nonpos (Int.le_of_lt hneg)
    generalize (offset.tdiv 60).natAbs = n at hn hph hpm
    simp only [hneg, if_true]
    simp [parseZone, hph, hpm]
    omega
  · have hn := Int.natAbs_of_nonneg (Int.not_lt.mp hneg)
    generalize (offset.tdiv 60).natAbs = n at hn hph hpm
    simp only [hneg, if_false]
    simp [parseZone, hph, hpm]
    omega

/-! ## Round trips -/

/-- `parseRFC3339` reads its fields at fixed positions. -/
theorem parseRFC3339_layout {Y M D h i s : Bytes} (hY : Y.length = 4) (hM : M.length = 2)
    (hD : D.length = 2) (hh : h.length = 2) (hi : i.length = 2) (hs : s.length = 2)
    (rest : Bytes) :
    parseRFC3339 (Y ++ [0x2D] ++ M ++ [0x2D] ++ D ++ [0x54] ++ h ++ [0x3A] ++ i ++ [0x3A] ++ s ++
        rest) =
      (do
        let year ← parseUint Y 0 9999
        let month ← parseUint M 1 12
        let day ← parseUint D 1 (daysIn month year)
        let hour ← parseUint h 0 23
        let min ← parseUint i 0 59
        let sec ← parseUint s 0 59
        let offset ← parseZone (parseFraction rest).2
        some ((dateUTC year month day hour min sec (parseFraction rest).1).withOffset offset)) := by
  match Y, M, D, h, i, s, hY, hM, hD, hh, hi, hs with
  | [_, _, _, _], [_, _], [_, _], [_, _], [_, _], [_, _], _, _, _, _, _, _ =>
    simp only [List.cons_append, List.nil_append]
    unfold parseRFC3339
    simp only [List.length_cons, slice, Nat.reduceSub, List.drop_succ_cons, List.take_succ_cons, List.drop_zero,
      List.take_zero, List.get?_cons_succ, List.get?_cons_zero]
    rw [if_neg (by omega)]
    simp only [and_self, if_true]
    rfl

theorem daysIn_le (m : Nat) (y : Int) : daysIn m y ≤ 31 := by
  unfold daysIn; split
  · split <;> omega
  · split <;> omega

/-- The times `RFC3339` writes and reads back: a wall-clock year of four
digits and a zone offset of whole minutes under a day. -/
def InRange (t : Time) : Prop := 0 ≤ t.date.1 ∧ t.date.1 ≤ 9999 ∧ ZoneInRange t.offset

instance (t : Time) : Decidable t.InRange := inferInstanceAs (Decidable (_ ∧ _ ∧ _))

theorem zero_inRange : zero.InRange := by decide

/-- The times `RFC3339` writes and reads back as some time: a wall-clock
year of four digits and a zone offset under a day. -/
def Writable (t : Time) : Prop := 0 ≤ t.date.1 ∧ t.date.1 ≤ 9999 ∧ t.offset.natAbs < 86400

instance (t : Time) : Decidable t.Writable := inferInstanceAs (Decidable (_ ∧ _ ∧ _))

theorem InRange.writable {t : Time} (h : t.InRange) : t.Writable := ⟨h.1, h.2.1, h.2.2.2⟩

/-- What `RFC3339` reads back of a time: the same wall clock, in its zone cut
to whole minutes. -/
def rezone (t : Time) : Time :=
  { t with unix := t.wallSec - zoneMinutes t.offset, offset := zoneMinutes t.offset }

theorem rezone_of_dvd {t : Time} (h : t.offset % 60 = 0) : t.rezone = t := by
  ext <;> simp [rezone, wallSec, zoneMinutes_of_dvd h]

theorem clock_lt (t : Time) : t.clock.1 < 24 ∧ t.clock.2.1 < 60 ∧ t.clock.2.2 < 60 := by
  simp only [clock]; omega

/-- What `parseRFC3339` reads back from `appendFormatRFC3339`: the time
with the fraction, the time cut to its second without, each on the same wall
clock in its zone cut to whole minutes. -/
theorem parseRFC3339_appendFormatRFC3339_rezone {t : Time} (ht : Writable t) (nanos : Bool) :
    parseRFC3339 (appendFormatRFC3339 t nanos) = some (if nanos then t else t.truncSec).rezone := by
  obtain ⟨hy0, hy9, hzone⟩ := ht
  obtain ⟨hm1, hm12, hd1, hdim⟩ := civilFromDays_valid (t.wallSec / 86400)
  have hdays := daysFromCivil_civilFromDays (t.wallSec / 86400)
  have hdle := daysIn_le (civilFromDays (t.wallSec / 86400)).2.1 (civilFromDays (t.wallSec / 86400)).1
  obtain ⟨hh, hi, hs⟩ := clock_lt t
  have hY := appendInt_of_lt hy0 (show t.date.1.toNat < 10 ^ 4 by omega) (by decide)
  have hM := appendInt_natCast (n := t.date.2.1) (w := 2) (by simp only [date]; omega) (by decide)
  have hD := appendInt_natCast (n := t.date.2.2) (w := 2) (by simp only [date]; omega) (by decide)
  have hH := appendInt_natCast (n := t.clock.1) (w := 2) (by omega) (by decide)
  have hI := appendInt_natCast (n := t.clock.2.1) (w := 2) (by omega) (by decide)
  have hS := appendInt_natCast (n := t.clock.2.2) (w := 2) (by omega) (by decide)
  have hfrac : parseFraction ((if nanos then appendNano t.nsec else []) ++ appendZone t.offset) =
      (if nanos then t.nsec else 0, appendZone t.offset) := by
    cases nanos
    · exact parseFraction_of_head fun c hc => (appendZone_head _ c hc).2
    · exact parseFraction_appendNano t.nsec_lt (appendZone_head _)
  rw [appendFormatRFC3339, hY, hM, hD, hH, hI, hS, List.append_assoc _ (if nanos then _ else _),
    parseRFC3339_layout (by simp) (by simp) (by simp) (by simp) (by simp) (by simp), hfrac,
    parseUint_fixedDigits (show t.date.1.toNat < 10 ^ 4 by omega) (Nat.zero_le _) (by omega),
    parseUint_fixedDigits (show t.date.2.1 < 10 ^ 2 by simp only [date]; omega)
      (by simp only [date]; omega) (by simp only [date]; omega)]
  simp only [Option.bind_eq_bind, Option.some_bind, Int.toNat_of_nonneg hy0]
  rw [parseUint_fixedDigits (show t.date.2.2 < 10 ^ 2 by simp only [date]; omega)
      (by simp only [date]; omega) (by simp only [date]; omega),
    parseUint_fixedDigits (show t.clock.1 < 10 ^ 2 by omega) (Nat.zero_le _) (by omega),
    parseUint_fixedDigits (show t.clock.2.1 < 10 ^ 2 by omega) (Nat.zero_le _) (by omega),
    parseUint_fixedDigits (show t.clock.2.2 < 10 ^ 2 by omega) (Nat.zero_le _) (by omega),
    parseZone_appendZone hzone]
  simp only [Option.some_bind]
  congr 1
  have hdays' : daysFromCivil t.date.1 t.date.2.1 t.date.2.2 = t.wallSec / 86400 := hdays
  have hclock : t.clock.1 * 3600 + t.clock.2.1 * 60 + t.clock.2.2 = (t.wallSec % 86400).toNat := by
    simp only [clock]; omega
  have hwall : t.wallSec = t.unix + t.offset := rfl
  have hn := t.nsec_lt
  cases nanos <;> ext <;> simp only [dateUTC, withOffset, truncSec, rezone, wallSec, hdays', if_true,
    if_false, Bool.false_eq_true] <;> omega

/-- A time in range reads back as itself with the fraction, cut to its
second without. -/
theorem parseRFC3339_appendFormatRFC3339 {t : Time} (ht : InRange t) (nanos : Bool) :
    parseRFC3339 (appendFormatRFC3339 t nanos) = some (if nanos then t else t.truncSec) := by
  rw [parseRFC3339_appendFormatRFC3339_rezone ht.writable, rezone_of_dvd (by cases nanos <;> exact ht.2.2.1)]

/-- The zone a time in range is written with: `Z`, or a sign, two digits of
hours under 24, a colon and two digits of minutes. -/
theorem appendZone_shape {offset : Int} (h : ZoneInRange offset) (h0 : offset ≠ 0) :
    ∃ sign hr mm, appendZone offset = sign :: fixedDigits 2 hr ++ 0x3A :: fixedDigits 2 mm ∧
      (sign = 0x2B ∨ sign = 0x2D) ∧ hr < 24 := by
  obtain ⟨h60, hday⟩ := h
  have ha := appendInt_natCast (n := (offset.tdiv 60).natAbs / 60) (w := 2)
    (by rw [Int.tdiv_eq_ediv_of_dvd (Int.dvd_of_emod_eq_zero h60)]; omega) (by decide)
  have hb := appendInt_natCast (n := (offset.tdiv 60).natAbs % 60) (w := 2) (by omega) (by decide)
  refine ⟨if offset.tdiv 60 < 0 then 0x2D else 0x2B, (offset.tdiv 60).natAbs / 60,
    (offset.tdiv 60).natAbs % 60, ?_, by split <;> simp, ?_⟩
  · simp only [appendZone, h0, if_false, ha, hb]
    split <;> rfl
  · rw [Int.tdiv_eq_ediv_of_dvd (Int.dvd_of_emod_eq_zero h60)]; omega

theorem zoneHourBad_shape {sign : UInt8} (hsign : sign = 0x2B ∨ sign = 0x2D) {hr : Nat}
    (hhr : hr < 24) (rest : Bytes) : zoneHourBad (sign :: fixedDigits 2 hr ++ rest) = false := by
  have hv := digitsValue_fixedDigits 2 hr
  obtain ⟨h1, h2, hh⟩ : ∃ a b, fixedDigits 2 hr = [a, b] := ⟨_, _, rfl⟩
  rw [hh] at hv ⊢
  simp only [digitsValue, List.foldl_cons, List.foldl_nil, Nat.zero_mul, Nat.zero_add] at hv
  have hsd : Bytes.isDigit sign = false := by rcases hsign with rfl | rfl <;> rfl
  simp only [List.cons_append, zoneHourBad, hsd, Bool.false_or, decide_eq_false_iff_not]
  omega

/-- `Time.MarshalJSON` accepts every time in range and writes its quoted
`RFC3339Nano` text. -/
theorem marshalJSON_of_inRange {t : Time} (ht : InRange t) :
    marshalJSON t = .ok (0x22 :: formatNano t ++ [0x22]) := by
  obtain ⟨hy0, hy9, hzr⟩ := ht
  have hY := appendInt_of_lt hy0 (show t.date.1.toNat < 10 ^ 4 by omega) (by decide)
  obtain ⟨y1, y2, y3, y4, hy⟩ : ∃ a b c d, fixedDigits 4 t.date.1.toNat = [a, b, c, d] :=
    ⟨_, _, _, _, rfl⟩
  have h4 : (formatNano t)[4]? = some 0x2D := by
    simp [formatNano, appendFormatRFC3339, hY, hy]
  obtain ⟨P, hP⟩ : ∃ P, formatNano t = P ++ appendZone t.offset := ⟨_, rfl⟩
  have hzone : ¬ ((formatNano t).getLast? ≠ some 0x5A ∧
      zoneHourBad ((formatNano t).drop ((formatNano t).length - 6))) := by
    rintro ⟨hlast, hbad⟩
    rw [hP] at hlast hbad
    by_cases h0 : t.offset = 0
    · simp [appendZone, h0, List.getLast?_append] at hlast
    · obtain ⟨sign, hr, mm, hz, hsign, hhr⟩ := appendZone_shape hzr h0
      rw [hz] at hbad
      have hlen : (P ++ (sign :: fixedDigits 2 hr ++ 0x3A :: fixedDigits 2 mm)).length - 6 =
          P.length := by simp
      rw [hlen, List.drop_left, zoneHourBad_shape hsign hhr] at hbad
      exact Bool.false_ne_true hbad
  unfold marshalJSON appendStrictRFC3339
  simp only [h4, ne_eq, not_true_eq_false, if_false, hzone]

/-! ## The texts written are ASCII -/

theorem ascii_of_isDigit {c : UInt8} (h : Bytes.isDigit c) : c.toNat < 0x80 := by
  simp only [Bytes.isDigit, Bool.and_eq_true, decide_eq_true_eq] at h
  omega

theorem appendInt_ascii (x : Int) (w : Nat) : ∀ c ∈ appendInt x w, c.toNat < 0x80 := by
  intro c hc
  rcases List.mem_append.mp hc with hc | hc
  · split at hc
    · rw [List.mem_singleton.mp hc]; decide
    · simp at hc
  · exact ascii_of_isDigit (fixedDigits_isDigit _ _ c hc)

theorem appendNano_ascii (nsec : Nat) : ∀ c ∈ appendNano nsec, c.toNat < 0x80 := by
  intro c hc
  unfold appendNano at hc
  split at hc
  · simp at hc
  · rcases List.mem_cons.mp hc with rfl | hc
    · decide
    · have hmem := (List.dropWhile_sublist _).subset (List.mem_reverse.mp hc)
      exact ascii_of_isDigit (fixedDigits_isDigit 9 nsec c (List.mem_reverse.mp hmem))

theorem appendZone_ascii (offset : Int) : ∀ c ∈ appendZone offset, c.toNat < 0x80 := by
  unfold appendZone
  split
  · decide
  · simp only [List.forall_mem_append]
    refine ⟨⟨⟨?_, appendInt_ascii _ _⟩, by decide⟩, appendInt_ascii _ _⟩
    split <;> decide

/-- Every text `appendFormatRFC3339` writes is ASCII. -/
theorem appendFormatRFC3339_ascii (t : Time) (nanos : Bool) :
    ∀ c ∈ appendFormatRFC3339 t nanos, c.toNat < 0x80 := by
  have hnano : ∀ c ∈ (if nanos then appendNano t.nsec else []), c.toNat < 0x80 := by
    split
    · exact appendNano_ascii _
    · simp
  intro c hc
  simp only [appendFormatRFC3339, List.mem_append, List.mem_singleton] at hc
  repeat' rcases hc with hc | hc
  all_goals first
    | exact appendInt_ascii _ _ c hc | exact hnano c hc | exact appendZone_ascii _ c hc
    | decide

end Time

end OmniVault
