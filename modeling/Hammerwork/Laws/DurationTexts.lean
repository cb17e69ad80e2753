/-
Durations that configuration files are read and written with.

A text is a duration of a format if it is, but for surrounding white
space, a decimal number, with or without a unit after it (`Form`). What
the parsers accept is a little more (`parseDuration_value_iff`,
`parseChronoDuration_value_iff`): a sign before the number. What they do
not survive is a text that ends in a character of several bytes, which is
cut in two to see whether its last byte is a unit
(`parseDuration_panicked_iff`, `parseChronoDuration_panicked_iff`).

What is written is a number and a unit that are exact but for what the
format does not hold (`serialize_eq`, `formatChronoDuration_natCast`), so
reading them gives the duration back (`keepsDurations`).
-/
import Hammerwork.ConfigDurations
import Hammerwork.Laws.SplitStability

namespace Hammerwork

namespace ConfigDurations

open PayloadTemplate (isWhitespace trim)
open SqlSplit (Blank Trimmed exists_trim trimmed_trim)
open Retry (maxDuration fromMillis)

variable {text s digits gap suffix : List Char} {c : Char} {n unit : Nat}

-- == numbers

theorem parseDigits_eq_some : parseDigits digits = some n ↔
    digits ≠ [] ∧ (∀ c ∈ digits, c.isDigit) ∧ Nat.ofDigitChars 10 digits 0 = n := by
  unfold parseDigits
  split
  case isTrue h =>
    rw [Option.some.injEq]
    exact ⟨fun hn => ⟨h.1, List.all_eq_true.1 h.2, hn⟩, fun hn => hn.2.2⟩
  case isFalse h =>
    refine ⟨fun hn => ?_, fun hn => absurd ⟨hn.1, List.all_eq_true.2 hn.2.1⟩ h⟩
    cases hn

theorem parseDigits_digitsOf (n : Nat) : parseDigits (digitsOf n) = some n := by
  refine parseDigits_eq_some.2 ⟨Nat.toDigits_ne_nil, fun c hc => ?_, ?_⟩
  · exact Nat.isDigit_of_mem_toDigits (by decide) (by decide) hc
  · exact Nat.ofDigitChars_toDigits (by decide) (by decide)

/-- A number may be written with a plus sign. -/
def Signed (text digits : List Char) : Prop := text = digits ∨ text = '+' :: digits

theorem parseU64_eq_some : parseU64 text = some n ↔
    (∃ digits, Signed text digits ∧ parseDigits digits = some n) ∧ n < 2 ^ 64 := by
  unfold parseU64
  rw [Option.filter_eq_some_iff, decide_eq_true_iff, and_congr_left_iff]
  intro _
  split
  case h_1 digits =>
    refine ⟨fun h => ⟨digits, .inr rfl, h⟩, ?_⟩
    rintro ⟨digits', rfl | heq, h⟩
    · have hplus := (parseDigits_eq_some.1 h).2.1 '+' (List.mem_cons_self ..)
      cases hplus
    · cases heq
      exact h
  case h_2 digits hplus =>
    refine ⟨fun h => ⟨text, .inl rfl, h⟩, ?_⟩
    rintro ⟨digits', rfl | rfl, h⟩
    · exact h
    · exact absurd rfl (hplus _)

/-- A text that is read as a number ends in a digit. -/
theorem last_of_parseDigits (hdigits : parseDigits digits = some n) (hs : Signed s digits) :
    ∃ c, s.getLast? = some c ∧ c.isDigit := by
  obtain ⟨hne, hall, -⟩ := parseDigits_eq_some.1 hdigits
  refine ⟨digits.getLast hne, ?_, hall _ (List.getLast_mem hne)⟩
  rcases hs with rfl | rfl
  · exact List.getLast?_eq_some_getLast hne
  · rw [List.getLast?_cons_of_ne_nil hne]
    exact List.getLast?_eq_some_getLast hne

theorem utf8Size_of_isDigit (h : c.isDigit) : c.utf8Size = 1 := by
  rw [Char.isDigit_iff_toNat] at h
  refine Char.utf8Size_eq_one_iff.2 ?_
  rw [UInt32.le_iff_toNat_le]
  exact Nat.le_trans h.2 (by decide)

theorem isWhitespace_of_isDigit (h : c.isDigit) : isWhitespace c = false := by
  have hrange : 48 ≤ c.toNat ∧ c.toNat ≤ 57 := Char.isDigit_iff_toNat.1 h
  simp [isWhitespace]
  omega

/-- A number is not surrounded by white space. -/
theorem trimmed_of_parseDigits (hdigits : parseDigits digits = some n) (hs : Signed s digits) :
    Trimmed s := by
  constructor
  · intro c hc
    obtain ⟨hne, hall, -⟩ := parseDigits_eq_some.1 hdigits
    rcases hs with rfl | rfl
    · exact isWhitespace_of_isDigit (hall c (List.mem_of_head? hc))
    · cases hc
      decide
  · intro c hc
    obtain ⟨last, hlast, hdigit⟩ := last_of_parseDigits hdigits hs
    rw [hlast] at hc
    cases hc
    exact isWhitespace_of_isDigit hdigit

-- == forms

/-- The units of `serde_duration`, in nanoseconds. -/
def stdUnits : List (List Char × Nat) :=
  [([], 1000000000), (['m', 's'], 1000000), (['s'], 1000000000), (['m'], 60 * 1000000000),
    (['h'], 3600 * 1000000000), (['d'], 86400 * 1000000000)]

/-- The units of `chrono_duration_days`. -/
def chronoUnits : List (List Char × Nat) :=
  [([], 86400 * 1000000000), (['d'], 86400 * 1000000000), (['h'], 3600 * 1000000000),
    (['m'], 60 * 1000000000), (['s'], 1000000000)]

/-- A decimal number and a unit. White space may surround a number of
milliseconds as it may the text. -/
def Form (units : List (List Char × Nat)) (s : List Char) (n unit : Nat) : Prop :=
  ∃ digits gap suffix, s = digits ++ (gap ++ suffix) ∧ parseDigits digits = some n ∧
    (suffix, unit) ∈ units ∧ (gap = [] ∨ suffix = ['m', 's'] ∧ Blank gap)

/-- What follows a signed number follows the number. -/
theorem Signed.append (h : Signed s digits) (rest : List Char) :
    Signed (s ++ rest) (digits ++ rest) := by
  rcases h with rfl | rfl
  · exact .inl rfl
  · exact .inr rfl

/-- What follows the number follows the signed number. -/
theorem signed_append {rest : List Char} (h : Signed text (digits ++ rest)) :
    ∃ s, text = s ++ rest ∧ Signed s digits := by
  rcases h with rfl | rfl
  · exact ⟨digits, rfl, .inl rfl⟩
  · exact ⟨'+' :: digits, rfl, .inr rfl⟩

-- == cutting off

theorem stripMs_eq_some {rest : List Char} : stripMs s = some rest ↔ s = rest ++ ['m', 's'] := by
  unfold stripMs
  constructor
  · intro h
    split at h
    case isTrue hsuffix =>
      obtain ⟨front, rfl⟩ := hsuffix
      obtain rfl := Option.some.inj h
      simp
    case isFalse _ => cases h
  · rintro rfl
    rw [if_pos (List.suffix_append ..)]
    simp

theorem stripMs_eq_none (h : ∀ rest, s ≠ rest ++ ['m', 's']) : stripMs s = none := by
  cases hstrip : stripMs s with
  | none => rfl
  | some rest => exact absurd (stripMs_eq_some.1 hstrip) (h rest)

theorem splitLast_eq_some {front : List Char} :
    splitLast s = some (front, c) ↔ s = front ++ [c] ∧ c.utf8Size = 1 := by
  unfold splitLast
  constructor
  · intro h
    split at h
    case h_1 last hlast =>
      split at h
      case isTrue hsize =>
        obtain ⟨rfl, rfl⟩ := Prod.mk.inj (Option.some.inj h)
        obtain ⟨front, rfl⟩ := List.getLast?_eq_some_iff.1 hlast
        exact ⟨by rw [List.dropLast_concat], hsize⟩
      case isFalse _ => cases h
    case h_2 => cases h
  · rintro ⟨rfl, hsize⟩
    rw [List.getLast?_concat]
    dsimp only
    rw [if_pos hsize, List.dropLast_concat]

/-- The last byte is not a character. -/
theorem splitLast_eq_none (hs : s ≠ []) :
    splitLast s = none ↔ ∃ c, s.getLast? = some c ∧ c.utf8Size ≠ 1 := by
  unfold splitLast
  rw [List.getLast?_eq_some_getLast hs]
  dsimp only
  constructor
  · intro h
    split at h
    case isTrue _ => cases h
    case isFalse hsize => exact ⟨_, rfl, hsize⟩
  · rintro ⟨c, hc, hsize⟩
    cases hc
    exact if_neg hsize

theorem byteLen_append (a b : List Char) : byteLen (a ++ b) = byteLen a + byteLen b := by
  unfold byteLen
  rw [List.map_append, List.sum_append]

theorem byteLen_pos (hs : s ≠ []) : 0 < byteLen s := by
  obtain ⟨c, rest, rfl⟩ := List.exists_cons_of_ne_nil hs
  unfold byteLen
  rw [List.map_cons, List.sum_cons]
  exact Nat.add_pos_left (Char.utf8Size_pos c) _

-- == serde_duration

variable {duration : Duration}

theorem checkedSecs_eq_value {num : Nat} : checkedSecs num unit = .value duration ↔
    num * (unit * 1000000000) ≤ maxDuration ∧ duration = num * (unit * 1000000000) := by
  unfold checkedSecs fromSecs
  rw [← Nat.mul_assoc]
  generalize num * unit = secs
  unfold maxDuration
  constructor
  · intro h
    split at h
    case isTrue hlt =>
      cases h
      exact ⟨by omega, rfl⟩
    case isFalse _ => cases h
  · rintro ⟨hle, rfl⟩
    exact if_pos (by omega)

theorem lead_eq_nil {lead rest : List Char} (h : Trimmed (lead ++ rest)) (hlead : Blank lead) :
    lead = [] := by
  cases lead with
  | nil => rfl
  | cons c lead =>
      have hc := h.head c rfl
      rw [hlead c (List.mem_cons_self ..)] at hc
      cases hc

/-- What is accepted is a number and a unit. -/
theorem form_of_parseDuration (h : parseDuration text = .value duration) :
    ∃ s n unit, Signed (trim text) s ∧ Form stdUnits s n unit ∧ n < 2 ^ 64 ∧
      n * unit ≤ maxDuration ∧ duration = n * unit := by
  have htrimmed := trimmed_trim text
  unfold parseDuration at h
  dsimp only at h
  generalize trim text = s at h htrimmed ⊢
  split at h
  case h_1 secs hsecs =>
    obtain ⟨⟨digits, hsigned, hdigits⟩, hlt⟩ := parseU64_eq_some.1 hsecs
    cases h
    refine ⟨digits, secs, _, hsigned,
      ⟨digits, [], [], ?_, hdigits, List.mem_cons_self .., .inl rfl⟩, hlt, ?_, rfl⟩
    · simp
    · unfold maxDuration
      omega
  case h_2 =>
    split at h
    case h_1 millis hmillis =>
      split at h
      case h_1 num hnum =>
        obtain ⟨⟨digits, hsigned, hdigits⟩, hlt⟩ := parseU64_eq_some.1 hnum
        obtain ⟨lead, trail, heq, hlead, htrail⟩ := exists_trim millis
        obtain rfl := stripMs_eq_some.1 hmillis
        rw [heq, List.append_assoc] at htrimmed
        obtain rfl := lead_eq_nil htrimmed hlead
        cases h
        refine ⟨digits ++ (trail ++ ['m', 's']), num, _, ?_, ⟨digits, trail, _, rfl, hdigits,
          List.mem_cons_of_mem _ (List.mem_cons_self ..), .inr ⟨rfl, htrail⟩⟩, hlt, ?_, rfl⟩
        · rw [heq, List.nil_append, List.append_assoc]
          exact hsigned.append _
        · unfold maxDuration
          omega
      case h_2 => cases h
    case h_2 =>
      split at h
      case isTrue => cases h
      case isFalse hlen =>
        split at h
        case h_1 => cases h
        case h_2 numStr suffix hsplit =>
          split at h
          case h_1 => cases h
          case h_2 num hnum =>
            obtain ⟨⟨digits, hsigned, hdigits⟩, hlt⟩ := parseU64_eq_some.1 hnum
            obtain ⟨rfl, -⟩ := splitLast_eq_some.1 hsplit
            have hform {unit : Nat} (hunit : ([suffix], unit) ∈ stdUnits) :
                Form stdUnits (digits ++ [suffix]) num unit :=
              ⟨digits, [], [suffix], rfl, hdigits, hunit, .inl rfl⟩
            have hsuffix := hsigned.append [suffix]
            split at h
            case h_1 =>
              cases h
              refine ⟨_, num, _, hsuffix, hform (by simp [stdUnits]), hlt, ?_, rfl⟩
              unfold maxDuration
              omega
            case h_2 =>
              obtain ⟨hle, rfl⟩ := checkedSecs_eq_value.1 h
              exact ⟨_, num, _, hsuffix, hform (by simp [stdUnits]), hlt, hle, rfl⟩
            case h_3 =>
              obtain ⟨hle, rfl⟩ := checkedSecs_eq_value.1 h
              exact ⟨_, num, _, hsuffix, hform (by simp [stdUnits]), hlt, hle, rfl⟩
            case h_4 =>
              obtain ⟨hle, rfl⟩ := checkedSecs_eq_value.1 h
              exact ⟨_, num, _, hsuffix, hform (by simp [stdUnits]), hlt, hle, rfl⟩
            case h_5 => cases h

/-- A text that does not end in a digit is no number. -/
theorem parseU64_eq_none (hlast : s.getLast? = some c) (hc : c.isDigit = false) :
    parseU64 s = none := by
  cases hnum : parseU64 s with
  | none => rfl
  | some n =>
      obtain ⟨⟨digits, hsigned, hdigits⟩, -⟩ := parseU64_eq_some.1 hnum
      obtain ⟨last, hlast', hdigit⟩ := last_of_parseDigits hdigits hsigned
      rw [hlast] at hlast'
      cases hlast'
      rw [hc] at hdigit
      cases hdigit

/-- How a number and a unit of one character is read. -/
theorem parseDuration_unit (hs : trim text = s ++ [c]) (hsigned : Signed s digits)
    (hdigits : parseDigits digits = some n) (hlt : n < 2 ^ 64) (hsize : c.utf8Size = 1)
    (hc : c.isDigit = false) :
    parseDuration text = match c with
      | 's' => .value (fromSecs n)
      | 'm' => checkedSecs n 60
      | 'h' => checkedSecs n 3600
      | 'd' => checkedSecs n 86400
      | _ => .error s!"Invalid duration suffix: {c}. Use s, m, h, or d" := by
  have hnum : parseU64 s = some n := parseU64_eq_some.2 ⟨⟨digits, hsigned, hdigits⟩, hlt⟩
  obtain ⟨last, hlast, hdigit⟩ := last_of_parseDigits hdigits hsigned
  have hstrip : stripMs (s ++ [c]) = none := by
    refine stripMs_eq_none fun rest heq => ?_
    -- the character before the unit is a digit, not `m`
    have heq' : s ++ [c] = (rest ++ ['m']) ++ ['s'] := by rw [heq]; simp
    have hfront := (List.append_inj' heq' rfl).1
    rw [hfront, List.getLast?_concat] at hlast
    cases hlast
    cases hdigit
  have hne : s ≠ [] := by
    rintro rfl
    cases hlast
  have hlen : ¬ byteLen (s ++ [c]) < 2 := by
    have hpos := byteLen_pos hne
    have hpos' := byteLen_pos (List.cons_ne_nil c [])
    rw [byteLen_append]
    omega
  unfold parseDuration
  dsimp only
  rw [hs, parseU64_eq_none (List.getLast?_concat ..) hc]
  dsimp only
  rw [hstrip]
  dsimp only
  rw [if_neg hlen, splitLast_eq_some.2 ⟨rfl, hsize⟩]
  dsimp only
  exact hnum ▸ rfl

/-- A number and a unit is accepted, also with a plus sign before it. -/
theorem parseDuration_of_form (hsigned : Signed (trim text) s) (hform : Form stdUnits s n unit)
    (hlt : n < 2 ^ 64) (hle : n * unit ≤ maxDuration) :
    parseDuration text = .value (n * unit) := by
  obtain ⟨digits, gap, suffix, rfl, hdigits, hunit, hgap⟩ := hform
  obtain ⟨number, heq, hnumber⟩ := signed_append hsigned
  simp only [stdUnits, List.mem_cons, Prod.mk.injEq, List.not_mem_nil, or_false] at hunit
  have hone {c : Char} (hsuffix : suffix = [c]) : trim text = number ++ [c] := by
    rcases hgap with rfl | ⟨hms, -⟩
    · rw [heq, hsuffix]
      rfl
    · rw [hms] at hsuffix
      cases hsuffix
  rcases hunit with ⟨rfl, rfl⟩ | ⟨rfl, rfl⟩ | ⟨rfl, rfl⟩ | ⟨rfl, rfl⟩ | ⟨rfl, rfl⟩ | ⟨rfl, rfl⟩
  · have hnum : parseU64 (trim text) = some n := by
      rcases hgap with rfl | ⟨hms, -⟩
      · rw [heq, List.append_nil, List.append_nil]
        exact parseU64_eq_some.2 ⟨⟨digits, hnumber, hdigits⟩, hlt⟩
      · cases hms
    unfold parseDuration
    dsimp only
    rw [hnum]
    rfl
  · -- the gap before `ms` is trimmed away
    have hblank : Blank gap := by
      rcases hgap with rfl | ⟨-, hblank⟩
      · exact fun c hc => by cases hc
      · exact hblank
    have hne : number ≠ [] := by
      rintro rfl
      obtain ⟨last, hlast, -⟩ := last_of_parseDigits hdigits hnumber
      cases hlast
    have htext : trim text = number ++ gap ++ ['m', 's'] := by
      rw [heq, List.append_assoc]
    have hlast : (number ++ gap ++ ['m', 's']).getLast? = some 's' := by
      rw [show ['m', 's'] = ['m'] ++ ['s'] from rfl, ← List.append_assoc, List.getLast?_concat]
    have hnum : parseU64 (trim (number ++ gap)) = some n := by
      rw [(trimmed_of_parseDigits hdigits hnumber).trim_append hne hblank]
      exact parseU64_eq_some.2 ⟨⟨digits, hnumber, hdigits⟩, hlt⟩
    unfold parseDuration
    dsimp only
    rw [htext, parseU64_eq_none hlast (by decide)]
    dsimp only
    rw [stripMs_eq_some.2 rfl]
    dsimp only
    rw [hnum]
    rfl
  · rw [parseDuration_unit (hone rfl) hnumber hdigits hlt (by decide) (by decide)]
    rfl
  · rw [parseDuration_unit (hone rfl) hnumber hdigits hlt (by decide) (by decide)]
    exact checkedSecs_eq_value.2 ⟨hle, rfl⟩
  · rw [parseDuration_unit (hone rfl) hnumber hdigits hlt (by decide) (by decide)]
    exact checkedSecs_eq_value.2 ⟨hle, rfl⟩
  · rw [parseDuration_unit (hone rfl) hnumber hdigits hlt (by decide) (by decide)]
    exact checkedSecs_eq_value.2 ⟨hle, rfl⟩

/-- What `serde_duration` reads, and as what. -/
theorem parseDuration_value_iff : parseDuration text = .value duration ↔
    ∃ s n unit, Signed (trim text) s ∧ Form stdUnits s n unit ∧ n < 2 ^ 64 ∧
      n * unit ≤ maxDuration ∧ duration = n * unit := by
  refine ⟨form_of_parseDuration, ?_⟩
  rintro ⟨s, n, unit, hsigned, hform, hlt, hle, rfl⟩
  exact parseDuration_of_form hsigned hform hlt hle

theorem checkedSecs_ne_panicked (num unit : Nat) : checkedSecs num unit ≠ .panicked := by
  unfold checkedSecs
  split <;> nofun

/-- A character of several bytes is no digit and no unit, and is not cut
off. -/
theorem not_digit_of_utf8Size (h : c.utf8Size ≠ 1) : c.isDigit = false := by
  cases hc : c.isDigit with
  | false => rfl
  | true => exact absurd (utf8Size_of_isDigit hc) h

theorem byteLen_of_last (hlast : s.getLast? = some c) (hsize : c.utf8Size ≠ 1) :
    ¬ byteLen s < 2 := by
  obtain ⟨front, rfl⟩ := List.getLast?_eq_some_iff.1 hlast
  have hpos := Char.utf8Size_pos c
  have hlen : byteLen [c] = c.utf8Size := Nat.add_zero _
  rw [byteLen_append, hlen]
  omega

/-- It panics where the last byte of the text is not a character. -/
theorem parseDuration_panicked_iff : parseDuration text = .panicked ↔
    ∃ c, (trim text).getLast? = some c ∧ c.utf8Size ≠ 1 := by
  constructor
  · intro h
    unfold parseDuration at h
    dsimp only at h
    generalize trim text = s at h ⊢
    split at h
    case h_1 => cases h
    case h_2 =>
      split at h
      case h_1 =>
        split at h
        case h_1 => cases h
        case h_2 => cases h
      case h_2 =>
        split at h
        case isTrue => cases h
        case isFalse hlen =>
          have hne : s ≠ [] := by
            rintro rfl
            exact hlen (by decide)
          split at h
          case h_1 hsplit => exact (splitLast_eq_none hne).1 hsplit
          case h_2 =>
            split at h
            case h_1 => cases h
            case h_2 =>
              split at h
              case h_1 => cases h
              case h_2 => exact absurd h (checkedSecs_ne_panicked _ _)
              case h_3 => exact absurd h (checkedSecs_ne_panicked _ _)
              case h_4 => exact absurd h (checkedSecs_ne_panicked _ _)
              case h_5 => cases h
  · rintro ⟨c, hc, hsize⟩
    have hne : trim text ≠ [] := by
      intro heq
      rw [heq] at hc
      cases hc
    have hstrip : stripMs (trim text) = none := by
      refine stripMs_eq_none fun rest heq => ?_
      rw [heq, show ['m', 's'] = ['m'] ++ ['s'] from rfl, ← List.append_assoc,
        List.getLast?_concat] at hc
      cases hc
      exact hsize (by decide)
    unfold parseDuration
    dsimp only
    rw [parseU64_eq_none hc (not_digit_of_utf8Size hsize)]
    dsimp only
    rw [hstrip]
    dsimp only
    rw [if_neg (byteLen_of_last hc hsize), (splitLast_eq_none hne).2 ⟨c, hc, hsize⟩]

-- == chrono_duration_days

variable {delta : TimeDelta}

/-- A number may be written with a plus sign, and zero with a minus
sign. -/
def ZeroSigned (n : Nat) (text digits : List Char) : Prop :=
  Signed text digits ∨ (text = '-' :: digits ∧ n = 0)

theorem ZeroSigned.append (h : ZeroSigned n s digits) (rest : List Char) :
    ZeroSigned n (s ++ rest) (digits ++ rest) := by
  rcases h with h | ⟨rfl, hn⟩
  · exact .inl (h.append rest)
  · exact .inr ⟨rfl, hn⟩

theorem zeroSigned_append {rest : List Char} (h : ZeroSigned n text (digits ++ rest)) :
    ∃ s, text = s ++ rest ∧ ZeroSigned n s digits := by
  rcases h with h | ⟨rfl, hn⟩
  · obtain ⟨s, heq, hs⟩ := signed_append h
    exact ⟨s, heq, .inl hs⟩
  · exact ⟨'-' :: digits, rfl, .inr ⟨rfl, hn⟩⟩

theorem parseI64_plus : parseI64 ('+' :: digits)
    = ((parseDigits digits).filter (· < 2 ^ 63)).map Int.ofNat := rfl

theorem parseI64_minus : parseI64 ('-' :: digits)
    = ((parseDigits digits).filter (· ≤ 2 ^ 63)).map fun n : Nat => -(n : Int) := rfl

theorem parseI64_bare (h : ∀ rest, text ≠ '-' :: rest ∧ text ≠ '+' :: rest) : parseI64 text
    = ((parseDigits text).filter (· < 2 ^ 63)).map Int.ofNat := by
  unfold parseI64
  split
  case h_1 rest => exact absurd rfl (h rest).1
  case h_2 rest => exact absurd rfl (h rest).2
  case h_3 => rfl

/-- Digits have no sign. -/
theorem bare_of_parseDigits (hdigits : parseDigits digits = some n) (rest : List Char) :
    digits ≠ '-' :: rest ∧ digits ≠ '+' :: rest := by
  obtain ⟨-, hall, -⟩ := parseDigits_eq_some.1 hdigits
  constructor
  · rintro rfl
    cases hall '-' (List.mem_cons_self ..)
  · rintro rfl
    cases hall '+' (List.mem_cons_self ..)

theorem filter_map_eq_some {found : Option Nat} {limit : Nat} :
    (found.filter (· < limit)).map Int.ofNat = some (n : Int)
      ↔ found = some n ∧ n < limit := by
  rw [Option.map_eq_some_iff]
  constructor
  · rintro ⟨m, hm, heq⟩
    obtain rfl := Int.ofNat.inj heq
    rw [Option.filter_eq_some_iff, decide_eq_true_iff] at hm
    exact hm
  · intro h
    refine ⟨n, ?_, rfl⟩
    rw [Option.filter_eq_some_iff, decide_eq_true_iff]
    exact h

theorem parseI64_eq_natCast : parseI64 text = some (n : Int) ↔
    (∃ digits, ZeroSigned n text digits ∧ parseDigits digits = some n) ∧ n < 2 ^ 63 := by
  constructor
  · intro h
    unfold parseI64 at h
    split at h
    case h_1 digits =>
      rw [Option.map_eq_some_iff] at h
      obtain ⟨m, hm, heq⟩ := h
      rw [Option.filter_eq_some_iff] at hm
      obtain ⟨rfl, rfl⟩ : m = 0 ∧ n = 0 := by omega
      exact ⟨⟨digits, .inr ⟨rfl, rfl⟩, hm.1⟩, by decide⟩
    case h_2 digits =>
      obtain ⟨hdigits, hlt⟩ := filter_map_eq_some.1 h
      exact ⟨⟨digits, .inl (.inr rfl), hdigits⟩, hlt⟩
    case h_3 =>
      obtain ⟨hdigits, hlt⟩ := filter_map_eq_some.1 h
      exact ⟨⟨text, .inl (.inl rfl), hdigits⟩, hlt⟩
  · rintro ⟨⟨digits, (rfl | rfl) | ⟨rfl, rfl⟩, hdigits⟩, hlt⟩
    · rw [parseI64_bare (bare_of_parseDigits hdigits)]
      exact filter_map_eq_some.2 ⟨hdigits, hlt⟩
    · rw [parseI64_plus]
      exact filter_map_eq_some.2 ⟨hdigits, hlt⟩
    · rw [parseI64_minus, hdigits]
      rfl

/-- What is short enough for a span does not overflow before. -/
theorem checkedMul_bind_trySeconds (n unit : Nat) : (checkedMul n unit).bind trySeconds
    = if ((n * (unit * 1000000000) : Nat) : Int) ≤ maxTimeDelta then
        some ((n * (unit * 1000000000) : Nat) : Int)
      else none := by
  have hpos : 0 ≤ ((n * unit : Nat) : Int) := Int.natCast_nonneg _
  obtain ⟨limit, hlimit, hmax⟩ : ∃ limit : Int, maxTimeDelta = limit ∧
      limit = 9223372036854775807 * 1000000 := ⟨_, rfl, rfl⟩
  rw [← Nat.mul_assoc, Int.natCast_mul (n * unit)]
  unfold checkedMul trySeconds
  rw [← Int.natCast_mul n unit, hlimit]
  generalize ((n * unit : Nat) : Int) = secs at hpos
  by_cases hle : secs * 1000000000 ≤ limit
  · have hrange : -2 ^ 63 ≤ secs ∧ secs < 2 ^ 63 := by omega
    have hspan : -limit ≤ secs * 1000000000 := by omega
    rw [if_pos hrange]
    exact (if_pos ⟨hspan, hle⟩).trans (if_pos hle).symm
  · refine Eq.trans ?_ (if_neg hle).symm
    split
    case isTrue => exact if_neg fun h => hle h.2
    case isFalse => rfl

/-- The spans of a number that is not negative. -/
theorem chronoOf_eq_value {numStr : List Char} : chronoOf s numStr unit = .value delta ↔
    ∃ n : Nat, parseI64 numStr = some (n : Int) ∧
      ((n * (unit * 1000000000) : Nat) : Int) ≤ maxTimeDelta ∧
      delta = (n * (unit * 1000000000) : Nat) := by
  unfold chronoOf
  cases hnum : parseI64 numStr with
  | none =>
      constructor
      · intro h
        cases h
      · rintro ⟨n, h, -⟩
        cases h
  | some num =>
      dsimp only
      split
      case isTrue hneg =>
        constructor
        · intro h
          cases h
        · rintro ⟨n, h, -⟩
          have heq := Option.some.inj h
          omega
      case isFalse hneg =>
        obtain ⟨n, rfl⟩ := Int.eq_ofNat_of_zero_le (Int.not_lt.1 hneg)
        rw [checkedMul_bind_trySeconds]
        constructor
        · intro h
          split at h
          case h_1 found hfound =>
            split at hfound
            case isTrue hle =>
              cases hfound
              cases h
              exact ⟨n, rfl, hle, rfl⟩
            case isFalse => cases hfound
          case h_2 => cases h
        · rintro ⟨m, heq, hle, rfl⟩
          obtain rfl := Int.ofNat.inj (Option.some.inj heq)
          rw [if_pos hle]

/-- A text that is read as a number ends in a digit. -/
theorem last_of_parseI64 {num : Int} (h : parseI64 s = some num) :
    ∃ c, s.getLast? = some c ∧ c.isDigit := by
  have hlast {digits : List Char} (sign : Char) (hsome : (parseDigits digits).isSome) :
      ∃ c, (sign :: digits).getLast? = some c ∧ c.isDigit := by
    obtain ⟨n, hdigits⟩ := Option.isSome_iff_exists.1 hsome
    rw [List.getLast?_cons_of_ne_nil (parseDigits_eq_some.1 hdigits).1]
    exact last_of_parseDigits hdigits (.inl rfl)
  have hsome {p : Nat → Bool} {f : Nat → Int} {digits : List Char}
      (h : ((parseDigits digits).filter p).map f = some num) : (parseDigits digits).isSome := by
    cases hdigits : parseDigits digits with
    | none =>
        rw [hdigits] at h
        cases h
    | some n => rfl
  unfold parseI64 at h
  split at h
  case h_1 => exact hlast '-' (hsome h)
  case h_2 => exact hlast '+' (hsome h)
  case h_3 =>
    obtain ⟨n, hdigits⟩ := Option.isSome_iff_exists.1 (hsome h)
    exact last_of_parseDigits hdigits (.inl rfl)

theorem parseI64_eq_none (hlast : s.getLast? = some c) (hc : c.isDigit = false) :
    parseI64 s = none := by
  cases hnum : parseI64 s with
  | none => rfl
  | some num =>
      obtain ⟨last, hlast', hdigit⟩ := last_of_parseI64 hnum
      rw [hlast] at hlast'
      cases hlast'
      rw [hc] at hdigit
      cases hdigit

theorem mem_chronoUnits {secs : Int} (h : unitSecs c = some secs) :
    ∃ unit : Nat, secs = unit ∧ ([c], unit * 1000000000) ∈ chronoUnits := by
  unfold unitSecs at h
  split at h
  case h_1 => cases h; exact ⟨86400, rfl, by simp [chronoUnits]⟩
  case h_2 => cases h; exact ⟨3600, rfl, by simp [chronoUnits]⟩
  case h_3 => cases h; exact ⟨60, rfl, by simp [chronoUnits]⟩
  case h_4 => cases h; exact ⟨1, rfl, by simp [chronoUnits]⟩
  case h_5 => cases h

theorem form_of_parseChronoDuration (h : parseChronoDuration text = .value delta) :
    ∃ s n unit, ZeroSigned n (trim text) s ∧ Form chronoUnits s n unit ∧
      ((n * unit : Nat) : Int) ≤ maxTimeDelta ∧ delta = (n * unit : Nat) := by
  unfold parseChronoDuration at h
  dsimp only at h
  generalize trim text = s at h ⊢
  split at h
  case isTrue =>
    have hdays : chronoOf s s (86400 : Nat) = .value delta := h
    obtain ⟨n, hn, hle, rfl⟩ := chronoOf_eq_value.1 hdays
    obtain ⟨⟨digits, hsigned, hdigits⟩, -⟩ := parseI64_eq_natCast.1 hn
    refine ⟨digits, n, _, hsigned, ⟨digits, [], [], ?_, hdigits, List.mem_cons_self .., .inl rfl⟩,
      hle, rfl⟩
    simp
  case isFalse =>
    split at h
    case isTrue => cases h
    case isFalse =>
      split at h
      case h_1 => cases h
      case h_2 numStr suffix hsplit =>
        split at h
        case h_1 secs hsecs =>
          obtain ⟨unit, rfl, hunit⟩ := mem_chronoUnits hsecs
          obtain ⟨n, hn, hle, rfl⟩ := chronoOf_eq_value.1 h
          obtain ⟨⟨digits, hsigned, hdigits⟩, -⟩ := parseI64_eq_natCast.1 hn
          obtain ⟨rfl, -⟩ := splitLast_eq_some.1 hsplit
          exact ⟨_, n, _, hsigned.append [suffix],
            ⟨digits, [], [suffix], rfl, hdigits, hunit, .inl rfl⟩, hle, rfl⟩
        case h_2 => cases h

/-- How a number and a unit of one character is read. -/
theorem parseChronoDuration_unit (hs : trim text = s ++ [c]) (hne : s ≠ [])
    (hsize : c.utf8Size = 1) (hc : c.isDigit = false) :
    parseChronoDuration text = match unitSecs c with
      | some unit => chronoOf (s ++ [c]) s unit
      | none => .error s!"Invalid duration suffix: {c}. Use d, h, m or s" := by
  have hlen : ¬ byteLen (s ++ [c]) < 2 := by
    have hpos := byteLen_pos hne
    have hpos' := byteLen_pos (List.cons_ne_nil c [])
    rw [byteLen_append]
    omega
  have hbare : ¬ (parseI64 (s ++ [c])).isSome := by
    rw [parseI64_eq_none (List.getLast?_concat ..) hc]
    decide
  unfold parseChronoDuration
  dsimp only
  rw [hs, if_neg hbare, if_neg hlen]
  have hsplit : splitLast (s ++ [c]) = some (s, c) := splitLast_eq_some.2 ⟨rfl, hsize⟩
  exact hsplit ▸ rfl

theorem parseChronoDuration_of_form (hsigned : ZeroSigned n (trim text) s)
    (hform : Form chronoUnits s n unit) (hle : ((n * unit : Nat) : Int) ≤ maxTimeDelta) :
    parseChronoDuration text = .value ((n * unit : Nat) : Int) := by
  obtain ⟨digits, gap, suffix, rfl, hdigits, hunit, hgap⟩ := hform
  obtain ⟨number, heq, hnumber⟩ := zeroSigned_append hsigned
  have hgap' : gap = [] := by
    refine hgap.resolve_right ?_
    rintro ⟨rfl, -⟩
    simp [chronoUnits] at hunit
  subst hgap'
  have hpos : 1000000000 ≤ unit := by
    simp only [chronoUnits, List.mem_cons, Prod.mk.injEq, List.not_mem_nil, or_false] at hunit
    omega
  have hlt : n < 2 ^ 63 := by
    have hmul := Nat.mul_le_mul_left n hpos
    unfold maxTimeDelta at hle
    omega
  have hnum : parseI64 number = some (n : Int) :=
    parseI64_eq_natCast.2 ⟨⟨digits, hnumber, hdigits⟩, hlt⟩
  have hne : number ≠ [] := by
    rintro rfl
    obtain ⟨last, hlast, -⟩ := last_of_parseI64 hnum
    cases hlast
  have hone {c : Char} (secs : Nat) (hsuffix : suffix = [c]) (hsize : c.utf8Size = 1)
      (hc : c.isDigit = false) (hsecs : unitSecs c = some (secs : Int))
      (hunit : unit = secs * 1000000000) :
      parseChronoDuration text = .value ((n * unit : Nat) : Int) := by
    rw [hsuffix] at heq
    rw [parseChronoDuration_unit heq hne hsize hc, hsecs]
    dsimp only
    rw [hunit] at hle ⊢
    exact chronoOf_eq_value.2 ⟨n, hnum, hle, rfl⟩
  simp only [chronoUnits, List.mem_cons, Prod.mk.injEq, List.not_mem_nil, or_false] at hunit
  rcases hunit with ⟨rfl, rfl⟩ | ⟨rfl, rfl⟩ | ⟨rfl, rfl⟩ | ⟨rfl, rfl⟩ | ⟨rfl, rfl⟩
  · rw [List.append_nil, List.append_nil] at heq
    unfold parseChronoDuration
    dsimp only
    rw [heq, if_pos (by rw [hnum]; rfl)]
    show chronoOf number number (86400 : Nat) = _
    exact chronoOf_eq_value.2 ⟨n, hnum, hle, rfl⟩
  · exact hone 86400 rfl (by decide) (by decide) rfl rfl
  · exact hone 3600 rfl (by decide) (by decide) rfl rfl
  · exact hone 60 rfl (by decide) (by decide) rfl rfl
  · exact hone 1 rfl (by decide) (by decide) rfl rfl

/-- What `chrono_duration_days` reads, and as what. -/
theorem parseChronoDuration_value_iff : parseChronoDuration text = .value delta ↔
    ∃ s n unit, ZeroSigned n (trim text) s ∧ Form chronoUnits s n unit ∧
      ((n * unit : Nat) : Int) ≤ maxTimeDelta ∧ delta = (n * unit : Nat) := by
  refine ⟨form_of_parseChronoDuration, ?_⟩
  rintro ⟨s, n, unit, hsigned, hform, hle, rfl⟩
  exact parseChronoDuration_of_form hsigned hform hle

theorem chronoOf_ne_panicked {numStr : List Char} {secs : Int} :
    chronoOf s numStr secs ≠ .panicked := by
  unfold chronoOf
  split
  case h_1 => nofun
  case h_2 =>
    split
    case isTrue => nofun
    case isFalse => split <;> nofun

/-- It panics where the last byte of the text is not a character. -/
theorem parseChronoDuration_panicked_iff : parseChronoDuration text = .panicked ↔
    ∃ c, (trim text).getLast? = some c ∧ c.utf8Size ≠ 1 := by
  constructor
  · intro h
    unfold parseChronoDuration at h
    dsimp only at h
    generalize trim text = s at h ⊢
    split at h
    case isTrue => exact absurd h chronoOf_ne_panicked
    case isFalse =>
      split at h
      case isTrue => cases h
      case isFalse hlen =>
        have hne : s ≠ [] := by
          rintro rfl
          exact hlen (by decide)
        split at h
        case h_1 hsplit => exact (splitLast_eq_none hne).1 hsplit
        case h_2 =>
          split at h
          case h_1 => exact absurd h chronoOf_ne_panicked
          case h_2 => cases h
  · rintro ⟨c, hc, hsize⟩
    have hne : trim text ≠ [] := by
      intro heq
      rw [heq] at hc
      cases hc
    have hbare : ¬ (parseI64 (trim text)).isSome := by
      rw [parseI64_eq_none hc (not_digit_of_utf8Size hsize)]
      decide
    unfold parseChronoDuration
    dsimp only
    rw [if_neg hbare, if_neg (byteLen_of_last hc hsize),
      (splitLast_eq_none hne).2 ⟨c, hc, hsize⟩]

-- == safe reading

/-- A text is read safely: as the value of its number and unit if it is of
the format and that value can be represented, and as an error if not. -/
structure ReadSafely {α : Type} (ofNanos : Nat → α) (longest : Nat)
    (units : List (List Char × Nat)) (parse : List Char → Parsed α) (text : List Char) : Prop where
  survives : parse text ≠ .panicked
  reads : ∀ a, parse text = .value a ↔
    ∃ n unit, Form units (trim text) n unit ∧ n * unit ≤ longest ∧ a = ofNanos (n * unit)

/-- No unit begins with a digit. -/
def UnitsApart (units : List (List Char × Nat)) : Prop :=
  ∀ entry ∈ units, ∀ c, entry.1.head? = some c → c.isDigit = false

variable {units : List (List Char × Nat)} {n' unit' : Nat}

theorem unitsApart_std : UnitsApart stdUnits := by
  simp [UnitsApart, stdUnits]

theorem unitsApart_chrono : UnitsApart chronoUnits := by
  simp [UnitsApart, chronoUnits]

theorem not_digit_of_isWhitespace (h : isWhitespace c = true) : c.isDigit = false := by
  cases hc : c.isDigit with
  | false => rfl
  | true =>
      rw [isWhitespace_of_isDigit hc] at h
      cases h

/-- The number is all the digits that the text begins with. -/
theorem Form.takeWhile (hunits : UnitsApart units) (h : Form units s n unit) :
    parseDigits (s.takeWhile (·.isDigit)) = some n := by
  obtain ⟨digits, gap, suffix, rfl, hdigits, hunit, hgap⟩ := h
  have hrest : (gap ++ suffix).takeWhile (·.isDigit) = [] := by
    cases hrest : gap ++ suffix with
    | nil => rfl
    | cons c rest =>
        have hc : c.isDigit = false := by
          cases gap with
          | nil =>
              refine hunits _ hunit c ?_
              rw [show suffix = c :: rest from hrest]
              rfl
          | cons g gap =>
              obtain ⟨rfl, -⟩ := List.cons.inj hrest
              obtain ⟨-, hblank⟩ := hgap.resolve_left (List.cons_ne_nil _ _)
              exact not_digit_of_isWhitespace (hblank _ (List.mem_cons_self ..))
        exact List.takeWhile_cons_of_neg (by rw [hc]; decide)
  rw [List.takeWhile_append_of_pos (parseDigits_eq_some.1 hdigits).2.1, hrest, List.append_nil]
  exact hdigits

theorem Form.number_eq (hunits : UnitsApart units) (h : Form units s n unit)
    (h' : Form units s n' unit') : n = n' :=
  Option.some.inj ((h.takeWhile hunits).symm.trans (h'.takeWhile hunits))

/-- A text of the format begins with a digit. -/
theorem Form.head (h : Form units (c :: s) n unit) : c.isDigit := by
  obtain ⟨digits, gap, suffix, heq, hdigits, -⟩ := h
  obtain ⟨hne, hall, -⟩ := parseDigits_eq_some.1 hdigits
  cases digits with
  | nil => exact absurd rfl hne
  | cons d digits =>
      obtain ⟨rfl, -⟩ := List.cons.inj heq
      exact hall c (List.mem_cons_self ..)

/-- A parser that also accepts signs, and only numbers that fit, reads a
text safely if it does not panic, the text is none with a sign that is
accepted, and its number fits if its value does. -/
theorem readSafely_iff {α : Type} {ofNanos : Nat → α} {longest : Nat}
    {parse : List Char → Parsed α} {signed : Nat → List Char → Prop} {fits : Nat → Prop}
    (hunits : UnitsApart units)
    (hsigned : ∀ n s, signed n s → ∃ sign rest, trim text = sign :: rest ∧ sign.isDigit = false)
    (hvalue : ∀ a, parse text = .value a ↔ ∃ s n unit, (trim text = s ∨ signed n s) ∧
      Form units s n unit ∧ fits n ∧ n * unit ≤ longest ∧ a = ofNanos (n * unit)) :
    ReadSafely ofNanos longest units parse text ↔ parse text ≠ .panicked ∧
      (∀ s n unit, signed n s → Form units s n unit → fits n → longest < n * unit) ∧
      (∀ n unit, Form units (trim text) n unit → n * unit ≤ longest → fits n) := by
  have hnot {n n' unit : Nat} {s : List Char} (h : signed n s) :
      ¬ Form units (trim text) n' unit := by
    intro hform
    obtain ⟨sign, rest, heq, hsign⟩ := hsigned n s h
    rw [heq] at hform
    rw [hform.head] at hsign
    cases hsign
  constructor
  · rintro ⟨hsurvives, hreads⟩
    refine ⟨hsurvives, fun s n unit h hform hfits => ?_, fun n unit hform hle => ?_⟩
    · by_contra hle
      have haccepted := (hvalue _).2
        ⟨s, n, unit, .inr h, hform, hfits, Nat.le_of_not_lt hle, rfl⟩
      obtain ⟨n', unit', hform', -⟩ := (hreads _).1 haccepted
      exact hnot h hform'
    · obtain ⟨s, n', unit', hs, hform', hfits, -⟩ :=
        (hvalue _).1 ((hreads _).2 ⟨n, unit, hform, hle, rfl⟩)
      obtain rfl := hs.resolve_right fun h => hnot h hform
      rwa [hform.number_eq hunits hform']
  · rintro ⟨hsurvives, hsigns, hlimits⟩
    refine ⟨hsurvives, fun a => (hvalue a).trans ⟨?_, ?_⟩⟩
    · rintro ⟨s, n, unit, rfl | h, hform, hfits, hle, rfl⟩
      · exact ⟨n, unit, hform, hle, rfl⟩
      · exact absurd hle (Nat.not_le.2 (hsigns s n unit h hform hfits))
    · rintro ⟨n, unit, hform, hle, rfl⟩
      exact ⟨_, n, unit, .inl rfl, hform, hlimits n unit hform hle, hle, rfl⟩

/-- The last byte of the text is a character. -/
def EndsInByte (text : List Char) : Prop :=
  ∀ c, (trim text).getLast? = some c → c.utf8Size = 1

/-- The texts that `serde_duration` reads safely: they end in a character
of one byte, are none of the format with a plus sign before it, and have
no number of 2⁶⁴ or more whose value can be represented. -/
structure StdPlain (text : List Char) : Prop where
  ends : EndsInByte text
  sign : ∀ s n unit, trim text = '+' :: s → Form stdUnits s n unit → n < 2 ^ 64 →
    maxDuration < n * unit
  limit : ∀ n unit, Form stdUnits (trim text) n unit → n * unit ≤ maxDuration → n < 2 ^ 64

/-- The texts that `chrono_duration_days` reads safely. -/
structure ChronoPlain (text : List Char) : Prop where
  ends : EndsInByte text
  sign : ∀ s n unit, trim text = '+' :: s ∨ (trim text = '-' :: s ∧ n = 0) →
    Form chronoUnits s n unit → maxTimeDelta.toNat < n * unit

theorem not_exists_last_iff : (¬ ∃ c, (trim text).getLast? = some c ∧ c.utf8Size ≠ 1)
    ↔ EndsInByte text := by
  unfold EndsInByte
  push Not
  exact Iff.rfl

theorem parseDuration_readSafely_iff :
    ReadSafely id maxDuration stdUnits parseDuration text ↔ StdPlain text := by
  have hvalue (a : Duration) : parseDuration text = .value a ↔ ∃ s n unit,
      (trim text = s ∨ trim text = '+' :: s) ∧ Form stdUnits s n unit ∧ n < 2 ^ 64 ∧
        n * unit ≤ maxDuration ∧ a = id (n * unit) := parseDuration_value_iff
  rw [readSafely_iff unitsApart_std (fun n s h => ⟨'+', s, h, by decide⟩) hvalue,
    Ne, parseDuration_panicked_iff, not_exists_last_iff]
  exact ⟨fun ⟨hends, hsign, hlimit⟩ => ⟨hends, hsign, hlimit⟩,
    fun ⟨hends, hsign, hlimit⟩ => ⟨hends, hsign, hlimit⟩⟩

theorem parseChronoDuration_readSafely_iff :
    ReadSafely Int.ofNat maxTimeDelta.toNat chronoUnits parseChronoDuration text
      ↔ ChronoPlain text := by
  have hvalue (a : TimeDelta) : parseChronoDuration text = .value a ↔ ∃ s n unit,
      (trim text = s ∨ trim text = '+' :: s ∨ (trim text = '-' :: s ∧ n = 0)) ∧
        Form chronoUnits s n unit ∧ True ∧ n * unit ≤ maxTimeDelta.toNat ∧
        a = Int.ofNat (n * unit) := by
    have hle (nanos : Nat) : nanos ≤ maxTimeDelta.toNat ↔ (nanos : Int) ≤ maxTimeDelta :=
      Int.le_toNat (by decide)
    simp only [parseChronoDuration_value_iff, ZeroSigned, Signed, or_assoc, hle, true_and]
    exact Iff.rfl
  have hsigned : ∀ n s, (trim text = '+' :: s ∨ (trim text = '-' :: s ∧ n = 0)) →
      ∃ sign rest, trim text = sign :: rest ∧ sign.isDigit = false := by
    rintro n s (h | ⟨h, -⟩)
    · exact ⟨'+', s, h, by decide⟩
    · exact ⟨'-', s, h, by decide⟩
  rw [readSafely_iff unitsApart_chrono hsigned hvalue, Ne, parseChronoDuration_panicked_iff,
    not_exists_last_iff]
  exact ⟨fun ⟨hends, hsign, _⟩ => ⟨hends, fun s n unit h hform => hsign s n unit h hform trivial⟩,
    fun ⟨hends, hsign⟩ => ⟨hends, fun s n unit h hform _ => hsign s n unit h hform,
      fun _ _ _ _ => trivial⟩⟩

/-- When configuration durations are read safely. -/
theorem configDurations_readSafely_iff (text : List Char) :
    (ReadSafely id maxDuration stdUnits parseDuration text ↔ StdPlain text) ∧
      (ReadSafely Int.ofNat maxTimeDelta.toNat chronoUnits parseChronoDuration text
        ↔ ChronoPlain text) :=
  ⟨parseDuration_readSafely_iff, parseChronoDuration_readSafely_iff⟩

/-- Five of a unit beyond ASCII is a panic. -/
theorem not_readSafely_micro :
    ¬ ReadSafely id maxDuration stdUnits parseDuration ['5', 'µ'] ∧
      ¬ ReadSafely Int.ofNat maxTimeDelta.toNat chronoUnits parseChronoDuration ['5', 'µ'] := by
  have hlast : ∃ c, (trim ['5', 'µ']).getLast? = some c ∧ c.utf8Size ≠ 1 :=
    ⟨'µ', by decide, by decide⟩
  exact ⟨fun h => h.survives (parseDuration_panicked_iff.2 hlast),
    fun h => h.survives (parseChronoDuration_panicked_iff.2 hlast)⟩

-- == round trips

/-- What is written has no white space around it. -/
theorem trim_digitsOf (n : Nat) (hsuffix : ∀ c ∈ suffix, isWhitespace c = false) :
    trim (digitsOf n ++ suffix) = digitsOf n ++ suffix := by
  have hdigits := parseDigits_eq_some.1 (parseDigits_digitsOf n)
  have hwhite : ∀ c ∈ digitsOf n ++ suffix, isWhitespace c = false := by
    intro c hc
    rcases List.mem_append.1 hc with hc | hc
    · exact isWhitespace_of_isDigit (hdigits.2.1 c hc)
    · exact hsuffix c hc
  have htrimmed : Trimmed (digitsOf n ++ suffix) :=
    ⟨fun c hc => hwhite c (List.mem_of_head? hc), fun c hc => hwhite c (List.mem_of_getLast? hc)⟩
  refine htrimmed.trim_eq fun hempty => hdigits.1 ?_
  exact (List.append_eq_nil_iff.1 hempty).1

theorem form_digitsOf (n : Nat) (hunit : (suffix, unit) ∈ units) :
    Form units (digitsOf n ++ suffix) n unit :=
  ⟨digitsOf n, [], suffix, rfl, parseDigits_digitsOf n, hunit, .inl rfl⟩

theorem unit_not_white (hunit : (suffix, unit) ∈ stdUnits ∨ (suffix, unit) ∈ chronoUnits) :
    ∀ c ∈ suffix, isWhitespace c = false := by
  have hall : (stdUnits ++ chronoUnits).all (fun u => u.1.all fun c => !isWhitespace c) = true :=
    rfl
  intro c hc
  have hunits := List.all_eq_true.1 hall _ (List.mem_append.2 hunit)
  rw [← Bool.not_eq_true']
  exact List.all_eq_true.1 hunits c hc

theorem parseDuration_digitsOf (hunit : (suffix, unit) ∈ stdUnits) (hlt : n < 2 ^ 64)
    (hle : n * unit ≤ maxDuration) :
    parseDuration (digitsOf n ++ suffix) = .value (n * unit) := by
  refine parseDuration_of_form (.inl ?_) (form_digitsOf n hunit) hlt hle
  exact trim_digitsOf n (unit_not_white (.inl hunit))

theorem parseChronoDuration_digitsOf (hunit : (suffix, unit) ∈ chronoUnits)
    (hle : ((n * unit : Nat) : Int) ≤ maxTimeDelta) :
    parseChronoDuration (digitsOf n ++ suffix) = .value ((n * unit : Nat) : Int) := by
  refine parseChronoDuration_of_form (.inl (.inl ?_)) (form_digitsOf n hunit) hle
  exact trim_digitsOf n (unit_not_white (.inr hunit))

/-- A duration is written as a number and a unit: those that make it up, if
it is whole milliseconds, and not as nothing, unless it is nothing. -/
theorem serialize_eq (duration : Nat) : ∃ n suffix unit,
    serialize duration = digitsOf n ++ suffix ∧ (suffix, unit) ∈ stdUnits ∧
      (duration ≠ 0 → 0 < n * unit) ∧ (duration % 1000000 = 0 → n * unit = duration) := by
  dsimp only [serialize, Duration]
  split
  case isTrue hsub =>
    refine ⟨_, _, 1000000, rfl, by simp [stdUnits], fun _ => ?_, fun hmillis => ?_⟩
    · omega
    · omega
  case isFalse hwhole =>
    split
    case isTrue hzero =>
      have hnone : duration = 0 := by omega
      refine ⟨0, ['s'], 1000000000, rfl, by simp [stdUnits], fun hne => absurd hnone hne,
        fun _ => ?_⟩
      rw [hnone, Nat.zero_mul]
    case isFalse hne =>
      split
      case isTrue hhours =>
        refine ⟨_, _, 3600 * 1000000000, rfl, by simp [stdUnits], fun _ => ?_, fun _ => ?_⟩
        · omega
        · omega
      case isFalse =>
        split
        case isTrue hminutes =>
          refine ⟨_, _, 60 * 1000000000, rfl, by simp [stdUnits], fun _ => ?_, fun _ => ?_⟩
          · omega
          · omega
        case isFalse =>
          refine ⟨_, _, 1000000000, rfl, by simp [stdUnits], fun _ => ?_, fun _ => ?_⟩
          · omega
          · omega

theorem le_of_mem_stdUnits (hunit : (suffix, unit) ∈ stdUnits) : 1000000 ≤ unit := by
  simp only [stdUnits, List.mem_cons, Prod.mk.injEq, List.not_mem_nil, or_false] at hunit
  omega

/-- A duration of whole milliseconds is read back. -/
theorem parseDuration_serialize {millis : Nat} (h : millis < 2 ^ 64) :
    parseDuration (serialize (fromMillis millis)) = .value (fromMillis millis) := by
  obtain ⟨n, suffix, unit, heq, hunit, -, hwhole⟩ := serialize_eq (fromMillis millis)
  have hvalue : n * unit = millis * 1000000 := hwhole (Nat.mul_mod_left millis 1000000)
  have hunit' := Nat.mul_le_mul_left n (le_of_mem_stdUnits hunit)
  rw [heq, parseDuration_digitsOf hunit (by omega) (by unfold maxDuration; omega), hvalue]
  rfl

/-- A duration that is not zero is not read back as zero. -/
theorem parseDuration_serialize_ne_zero {duration : Duration} (h : duration ≠ 0) :
    parseDuration (serialize duration) ≠ .value 0 := by
  obtain ⟨n, suffix, unit, heq, hunit, hpos, -⟩ := serialize_eq duration
  intro hzero
  rw [heq] at hzero
  obtain ⟨s, n', unit', hsigned, hform, -, -, hvalue⟩ := parseDuration_value_iff.1 hzero
  rw [trim_digitsOf n (unit_not_white (.inl hunit))] at hsigned
  have hwritten := form_digitsOf n hunit
  rcases hsigned with rfl | hplus
  · have hunit' : 1000000 ≤ unit' := by
      obtain ⟨-, -, suffix', -, -, hmem, -⟩ := hform
      exact le_of_mem_stdUnits hmem
    obtain rfl | hzero' := Nat.mul_eq_zero.1 hvalue.symm
    · rw [hwritten.number_eq unitsApart_std hform, Nat.zero_mul] at hpos
      exact Nat.lt_irrefl 0 (hpos h)
    · omega
  · rw [hplus] at hwritten
    cases hwritten.head

/-- A span that is not negative is written as its whole seconds. -/
theorem formatChronoDuration_natCast (nanos : Nat) : ∃ n suffix unit,
    formatChronoDuration (nanos : Int) = digitsOf n ++ suffix ∧ (suffix, unit) ∈ chronoUnits ∧
      n * unit = nanos / 1000000000 * 1000000000 := by
  have hdigits (n : Nat) : intDigitsOf (n : Int) = digitsOf n :=
    if_neg (Int.not_lt.2 (Int.natCast_nonneg n))
  have hsecs : (nanos : Int).tdiv 1000000000 = ((nanos / 1000000000 : Nat) : Int) := rfl
  unfold formatChronoDuration
  dsimp only
  rw [hsecs]
  generalize nanos / 1000000000 = secs
  have hdays : (secs : Int).tdiv 86400 = ((secs / 86400 : Nat) : Int) ∧
      (secs : Int).tmod 86400 = ((secs % 86400 : Nat) : Int) := ⟨rfl, rfl⟩
  have hhours : (secs : Int).tdiv 3600 = ((secs / 3600 : Nat) : Int) ∧
      (secs : Int).tmod 3600 = ((secs % 3600 : Nat) : Int) := ⟨rfl, rfl⟩
  have hminutes : (secs : Int).tdiv 60 = ((secs / 60 : Nat) : Int) ∧
      (secs : Int).tmod 60 = ((secs % 60 : Nat) : Int) := ⟨rfl, rfl⟩
  rw [hdays.1, hdays.2, hhours.1, hhours.2, hminutes.1, hminutes.2, hdigits, hdigits, hdigits,
    hdigits]
  split
  case isTrue hexact =>
    refine ⟨_, _, 86400 * 1000000000, rfl, by simp [chronoUnits], ?_⟩
    omega
  case isFalse =>
    split
    case isTrue hexact =>
      refine ⟨_, _, 3600 * 1000000000, rfl, by simp [chronoUnits], ?_⟩
      omega
    case isFalse =>
      split
      case isTrue hexact =>
        refine ⟨_, _, 60 * 1000000000, rfl, by simp [chronoUnits], ?_⟩
        omega
      case isFalse => exact ⟨_, _, 1000000000, rfl, by simp [chronoUnits], rfl⟩

/-- It is read back without its sub-second part. -/
theorem parseChronoDuration_format {delta : TimeDelta} (hpos : 0 ≤ delta)
    (hle : delta ≤ maxTimeDelta) :
    parseChronoDuration (formatChronoDuration delta) = .value (delta - delta % 1000000000) := by
  obtain ⟨nanos, rfl⟩ := Int.eq_ofNat_of_zero_le hpos
  obtain ⟨n, suffix, unit, heq, hunit, hvalue⟩ := formatChronoDuration_natCast nanos
  have hfits : ((n * unit : Nat) : Int) ≤ maxTimeDelta := by
    refine Int.le_trans ?_ hle
    rw [hvalue]
    exact Int.ofNat_le.2 (Nat.div_mul_le_self nanos 1000000000)
  rw [heq, parseChronoDuration_digitsOf hunit hfits, hvalue]
  refine congrArg Parsed.value ?_
  show ((nanos / 1000000000 * 1000000000 : Nat) : Int) = (nanos : Int) - nanos % 1000000000
  omega

/-- A negative span is not read back as a shorter one. -/
theorem parseChronoDuration_format_neg {delta later : TimeDelta} (hneg : delta < 0)
    (h : parseChronoDuration (formatChronoDuration delta) = .value later) : delta < later := by
  obtain ⟨s, n, unit, -, -, -, rfl⟩ := parseChronoDuration_value_iff.1 h
  exact Int.lt_of_lt_of_le hneg (Int.natCast_nonneg _)

/-- Saving and loading a configuration keeps its durations, but for the
sub-second part of a span. -/
structure KeepsDurations : Prop where
  whole : ∀ millis < 2 ^ 64,
    parseDuration (serialize (fromMillis millis)) = .value (fromMillis millis)
  nonzero : ∀ duration ≠ 0, parseDuration (serialize duration) ≠ .value 0
  chrono : ∀ delta : TimeDelta, 0 ≤ delta → delta ≤ maxTimeDelta →
    parseChronoDuration (formatChronoDuration delta) = .value (delta - delta % 1000000000)
  negative : ∀ delta : TimeDelta, delta < 0 → ∀ later,
    parseChronoDuration (formatChronoDuration delta) = .value later → delta < later

theorem keepsDurations : KeepsDurations where
  whole _ h := parseDuration_serialize h
  nonzero _ h := parseDuration_serialize_ne_zero h
  chrono _ hpos hle := parseChronoDuration_format hpos hle
  negative _ hneg _ h := parseChronoDuration_format_neg hneg h

/-- A second and a half is read back as a second, which is earlier. -/
theorem sub_second_dropped :
    parseChronoDuration (formatChronoDuration 1500000000) = .value 1000000000 ∧
      (1000000000 : TimeDelta) < 1500000000 := by
  refine ⟨parseChronoDuration_format ?_ ?_, ?_⟩
  · decide
  · decide
  · decide

end ConfigDurations

end Hammerwork
