import EstateServer.Common
import Mathlib.Algebra.Order.Field.Power
import Mathlib.Data.Rat.Floor
import Mathlib.Tactic.GCongr
import Mathlib.Tactic.Linarith
import Mathlib.Tactic.NormNum
import Mathlib.Tactic.Ring

/-!
# JavaScript numbers

A `Number` is not a number, infinite, or a finite double, given by its rational value; nothing below
tells `-0` from `0`.  `Number.ofString` is the conversion `Number(s)`: it accepts a decimal literal with
an optional sign, `Infinity`, or an integer in the base 2, 8 or 16, between white space.  What it gives
is a double (`double_of_ofOptional`), and from a fraction above 1 one can be taken without rounding
(`sub_one_of_fraction`).
-/

namespace EstateServer.Js

inductive Number
  | nan
  | infinity (negative : Bool)
  | finite (value : ℚ)
  deriving DecidableEq, Repr

/-- `a % b`: the remainder has the sign of `a`. -/
def rem (a b : ℚ) : ℚ :=
  let quotient := a / b
  a - b * (if 0 ≤ quotient then quotient.floor else quotient.ceil : ℤ)

/-- An integer that is not negative. -/
theorem exists_natCast {q : ℚ} (integer : q.den = 1) (nonneg : 0 ≤ q) : ∃ n : ℕ, q = n := by
  have same : ((q.num.toNat : ℤ) : ℚ) = q := by
    rw [Int.toNat_of_nonneg (Rat.num_nonneg.2 nonneg), Rat.coe_int_num_of_den_eq_one integer]
  exact ⟨q.num.toNat, by exact_mod_cast same.symm⟩

namespace Number

/-! ## Doubles -/

/-- The nearest integer, the even one of two. -/
def roundEven (q : ℚ) : ℤ :=
  let below := q.floor
  if q - below < 1 / 2 then below
  else if 1 / 2 < q - below then below + 1
  else below + below % 2

/-- The exponent of the leading binary digit of a positive rational. -/
def exponent (q : ℚ) : ℤ :=
  let k : ℤ := Nat.log2 q.num.natAbs - Nat.log2 q.den
  if 2 ^ k ≤ q then k else k - 1

/-- The double for a rational: 53 binary digits, none below `2 ^ -1074`. -/
def round (q : ℚ) : Number :=
  let unit : ℚ := 2 ^ max (exponent |q| - 52) (-1074)
  let rounded := roundEven (q / unit) * unit
  if 2 ^ 1024 ≤ |rounded| then infinity (rounded < 0) else finite rounded

def neg : Number → Number
  | nan => nan
  | infinity negative => infinity !negative
  | finite value => finite (-value)

/-! ## `Number(s)` -/

/-- A digit in a base up to 36. -/
def digit (base : ℕ) (c : Char) : Option ℕ :=
  let value :=
    if c.isDigit then c.toNat - '0'.toNat
    else if c.isAlpha ∧ c.toNat < 128 then c.toLower.toNat - 'a'.toNat + 10
    else base
  if value < base then some value else none

/-- The value of some digits, possibly none. -/
def digits (base : ℕ) (s : List Char) : Option ℕ :=
  (s.mapM (digit base)).map (·.foldl (fun value d => base * value + d) 0)

/-- The value of at least one digit. -/
def natural (base : ℕ) (s : List Char) : Option ℕ := if s = [] then none else digits base s

/-- An integer with an optional sign. -/
def integer : List Char → Option ℤ
  | '+' :: s => (natural 10 s).map (·)
  | '-' :: s => (natural 10 s).map (-·)
  | s => (natural 10 s).map (·)

/-- `StrUnsignedDecimalLiteral` without `Infinity`: digits with an optional point, and an optional
exponent. -/
def decimal (s : List Char) : Option ℚ :=
  let mantissa := s.takeWhile fun c => c ≠ 'e' ∧ c ≠ 'E'
  let whole := mantissa.takeWhile (· ≠ '.')
  let fraction := (mantissa.drop whole.length).tail
  let scale := match s.drop mantissa.length with
    | [] => some 0
    | _ :: rest => integer rest
  match natural 10 (whole ++ fraction), scale with
  | some value, some scale => some (value * 10 ^ (scale - fraction.length))
  | _, _ => none

/-- `StrUnsignedDecimalLiteral`. -/
def unsigned (s : List Char) : Option Number :=
  if s = "Infinity".toList then some (infinity false) else (decimal s).map round

/-- `StringNumericLiteral`, without the white space around it. -/
def literal : List Char → Option Number
  | [] => some (finite 0)
  | '0' :: 'b' :: s | '0' :: 'B' :: s => (natural 2 s).map fun value => round value
  | '0' :: 'o' :: s | '0' :: 'O' :: s => (natural 8 s).map fun value => round value
  | '0' :: 'x' :: s | '0' :: 'X' :: s => (natural 16 s).map fun value => round value
  | '+' :: s => unsigned s
  | '-' :: s => (unsigned s).map neg
  | s => unsigned s

/-- `Number(s)`. -/
def ofString (s : String) : Number := (literal (trim s).toList).getD nan

/-- `Number(s)` of a string that may be `undefined`. -/
def ofOptional (s : Option String) : Number := s.elim nan ofString

/-! ## Operators -/

/-- `a || b`. -/
def or : Number → Number → Number
  | nan, b => b
  | finite value, b => if value = 0 then b else finite value
  | infinity negative, _ => infinity negative

/-- `Math.min(a, b)`. -/
def min : Number → Number → Number
  | nan, _ => nan
  | _, nan => nan
  | infinity true, _ => infinity true
  | _, infinity true => infinity true
  | infinity false, b => b
  | a, infinity false => a
  | finite a, finite b => finite (if a ≤ b then a else b)

/-- `a - b`. -/
def sub : Number → Number → Number
  | finite a, finite b => round (a - b)
  | infinity negative, finite _ => infinity negative
  | finite _, infinity negative => infinity !negative
  | infinity negative, infinity negative' => if negative = negative' then nan else infinity negative
  | nan, _ => nan
  | _, nan => nan

/-- `a + b`. -/
def add (a b : Number) : Number := sub a (neg b)

/-- `a < b`. -/
def lt : Number → Number → Bool
  | nan, _ => false
  | _, nan => false
  | infinity true, b => b ≠ infinity true
  | infinity false, _ => false
  | finite _, infinity negative => !negative
  | finite a, finite b => a < b

/-- `Number.isFinite(a)`. -/
def isFinite : Number → Bool
  | finite _ => true
  | _ => false

/-- `Number.isInteger(a)`. -/
def isInteger : Number → Bool
  | finite value => value.den = 1
  | _ => false

/-- The value of a number that is finite. -/
def value : Number → ℚ
  | finite value => value
  | _ => 0

/-- The number as a 64-bit integer, if it is one. -/
def int64 : Number → Option ℤ
  | finite value =>
    if value.den = 1 ∧ -2 ^ 63 ≤ value.num ∧ value.num < 2 ^ 63 then some value.num else none
  | _ => none

/-- The number without its fraction, if that is a 64-bit integer. -/
def trunc64 : Number → Option ℤ
  | finite value =>
    let whole := if 0 ≤ value then value.floor else value.ceil
    if -2 ^ 63 ≤ whole ∧ whole < 2 ^ 63 then some whole else none
  | _ => none

/-! ## `String(a)` -/

/-- The power of ten above a positive rational. -/
def magnitude (q : ℚ) : ℤ :=
  let k : ℤ := (toString q.num.natAbs).length - (toString q.den).length
  if 10 ^ k ≤ q then k + 1 else k

/-- The nearest of the decimals with `k` digits that convert to a positive double. -/
def decimalOf (q : ℚ) (k : ℕ) : Option (ℕ × ℤ) :=
  let scale := magnitude q - k
  let unit : ℚ := 10 ^ scale
  let below := (q / unit).floor.toNat
  let distance (s : ℕ) : ℚ := |q - s * unit|
  let fits (s : ℕ) : Bool := round (s * unit) = finite q
  match fits below, fits (below + 1) with
  | true, true => some (if distance (below + 1) < distance below then below + 1 else below, scale)
  | true, false => some (below, scale)
  | false, true => some (below + 1, scale)
  | false, false => none

/-- The text of the decimal `significand * 10 ^ scale`. -/
def written (significand : ℕ) (scale : ℤ) : List Char :=
  let all := (toString significand).toList
  let point : ℤ := all.length + scale
  let digits := (all.reverse.dropWhile (· = '0')).reverse
  let zeros (n : ℤ) := List.replicate n.toNat '0'
  if digits.length ≤ point ∧ point ≤ 21 then digits ++ zeros (point - digits.length)
  else if 0 < point ∧ point ≤ 21 then
    digits.take point.toNat ++ '.' :: digits.drop point.toNat
  else if -6 < point ∧ point ≤ 0 then '0' :: '.' :: zeros (-point) ++ digits
  else
    let fraction := if digits.length = 1 then [] else '.' :: digits.tail
    digits.take 1 ++ fraction ++ 'e' :: (if point < 1 then '-' else '+') ::
      (toString (point - 1).natAbs).toList

/-- The shortest text that converts to a positive double. -/
def positive (q : ℚ) : List Char :=
  match (List.range 17).findSome? fun k => decimalOf q (k + 1) with
  | some (significand, scale) => written significand scale
  | none => []

/-- `String(a)`. -/
def text : Number → String
  | nan => "NaN"
  | infinity negative => if negative then "-Infinity" else "Infinity"
  | finite value =>
    if value = 0 then "0"
    else String.ofList (if value < 0 then '-' :: positive |value| else positive value)

/-! ## The doubles that strings convert to -/

/-- An integer of at most 53 binary digits times a power of two that is not below `2 ^ -1074`. -/
def Double (v : ℚ) : Prop := ∃ n e : ℤ, |n| ≤ 2 ^ 53 ∧ -1074 ≤ e ∧ v = n * 2 ^ e

theorem log2_bounds {n : ℕ} (nonzero : n ≠ 0) :
    (2 : ℚ) ^ (n.log2 : ℤ) ≤ n ∧ (n : ℚ) < 2 ^ ((n.log2 : ℤ) + 1) := by
  constructor
  · rw [zpow_natCast]
    exact_mod_cast Nat.log2_self_le nonzero
  · rw [← Nat.cast_succ, zpow_natCast]
    exact_mod_cast Nat.lt_log2_self (n := n)

/-- The leading binary digit. -/
theorem exponent_bounds {q : ℚ} (pos : 0 < q) : 2 ^ exponent q ≤ q ∧ q < 2 ^ (exponent q + 1) := by
  have two : (2 : ℚ) ≠ 0 := by norm_num
  obtain ⟨num_low, num_high⟩ := log2_bounds (Int.natAbs_ne_zero.2 (Rat.num_pos.2 pos).ne')
  obtain ⟨den_low, den_high⟩ := log2_bounds q.den_nz
  have den : (0 : ℚ) < q.den := by exact_mod_cast q.den_pos
  have num : (q.num.natAbs : ℚ) = q * q.den := by
    rw [Rat.mul_den_eq_num, Nat.cast_natAbs, abs_of_pos (Rat.num_pos.2 pos)]
  rw [num] at num_low num_high
  unfold exponent
  generalize (q.num.natAbs.log2 : ℤ) = a at *
  generalize (q.den.log2 : ℤ) = b at *
  have low : (2 : ℚ) ^ (a - b - 1) ≤ q := by
    refine le_of_mul_le_mul_right ?_ den
    calc (2 : ℚ) ^ (a - b - 1) * q.den ≤ 2 ^ (a - b - 1) * 2 ^ (b + 1) := by gcongr
      _ = 2 ^ a := by rw [← zpow_add₀ two]; congr 1; omega
      _ ≤ q * q.den := num_low
  have high : q < 2 ^ (a - b + 1) := by
    refine lt_of_mul_lt_mul_right ?_ den.le
    calc q * q.den < 2 ^ (a + 1) := num_high
      _ = 2 ^ (a - b + 1) * 2 ^ b := by rw [← zpow_add₀ two]; congr 1; omega
      _ ≤ 2 ^ (a - b + 1) * q.den := by gcongr
  dsimp only
  split_ifs with digit
  · exact ⟨digit, high⟩
  · rw [Int.sub_add_cancel]
    exact ⟨low, not_le.1 digit⟩

theorem roundEven_intCast (n : ℤ) : roundEven n = n := by
  simp [roundEven, Rat.floor_intCast]

theorem roundEven_le {q : ℚ} {n : ℤ} (le : q ≤ n) : roundEven q ≤ n := by
  have below : q.floor ≤ n := by
    have floor := Rat.floor_monotone le
    rwa [Rat.floor_intCast] at floor
  rcases below.lt_or_eq with lt | eq
  · unfold roundEven
    dsimp only
    split_ifs <;> omega
  · have same : q = n := le_antisymm le (eq ▸ Rat.floor_le q)
    rw [same, roundEven_intCast]

theorem le_roundEven {q : ℚ} {n : ℤ} (le : n ≤ q) : n ≤ roundEven q := by
  have floor : n ≤ q.floor := Rat.le_floor_iff.2 le
  unfold roundEven
  dsimp only
  split_ifs <;> omega

/-- The last binary digit of a double. -/
def unit (q : ℚ) : ℚ := 2 ^ max (exponent |q| - 52) (-1074)

theorem round_eq (q : ℚ) : round q =
    if 2 ^ 1024 ≤ |roundEven (q / unit q) * unit q| then
      infinity (roundEven (q / unit q) * unit q < 0)
    else finite (roundEven (q / unit q) * unit q) := rfl

theorem unit_pos (q : ℚ) : 0 < unit q := zpow_pos (by norm_num) _

theorem abs_div_unit_le (q : ℚ) : |q / unit q| ≤ 2 ^ 53 := by
  rw [abs_div, abs_of_pos (unit_pos q), div_le_iff₀ (unit_pos q)]
  rcases (abs_nonneg q).eq_or_lt with zero | pos
  · rw [← zero]
    exact mul_nonneg (by norm_num) (unit_pos q).le
  · calc |q| ≤ 2 ^ (exponent |q| + 1) := (exponent_bounds pos).2.le
      _ = 2 ^ (53 : ℤ) * 2 ^ (exponent |q| - 52) := by
        rw [← zpow_add₀ (by norm_num)]
        congr 1
        omega
      _ ≤ 2 ^ 53 * unit q := by
        refine mul_le_mul_of_nonneg_left ?_ (by norm_num)
        exact zpow_le_zpow_right₀ (by norm_num) (le_max_left ..)

theorem double_of_round {q v : ℚ} (h : round q = finite v) : Double v := by
  rw [round_eq] at h
  split_ifs at h
  refine ⟨roundEven (q / unit q), _, ?_, le_max_right .., (finite.inj h).symm⟩
  obtain ⟨low, high⟩ := abs_le.1 (abs_div_unit_le q)
  refine abs_le.2 ⟨le_roundEven ?_, roundEven_le ?_⟩
  · exact_mod_cast low
  · exact_mod_cast high

/-- Rounding leaves a double as it is. -/
theorem round_of_double {n e : ℤ} (pos : 0 < n) (few : n < 2 ^ 53) (low : -1074 ≤ e)
    (small : (n * 2 ^ e : ℚ) < 2 ^ 1024) : round (n * 2 ^ e) = finite (n * 2 ^ e) := by
  have positive : (0 : ℚ) < n * 2 ^ e := mul_pos (by exact_mod_cast pos) (zpow_pos (by norm_num) e)
  generalize value : (n * 2 ^ e : ℚ) = q at *
  have exponent_lt : exponent q < 53 + e := by
    refine (zpow_lt_zpow_iff_right₀ (by norm_num : (1 : ℚ) < 2)).1 ?_
    calc (2 : ℚ) ^ exponent q ≤ q := (exponent_bounds positive).1
      _ = n * 2 ^ e := value.symm
      _ < 2 ^ (53 : ℤ) * 2 ^ e := by
        refine mul_lt_mul_of_pos_right ?_ (zpow_pos (by norm_num) e)
        exact_mod_cast few
      _ = 2 ^ (53 + e) := (zpow_add₀ (by norm_num) ..).symm
  obtain ⟨k, scale⟩ : ∃ k : ℕ, e = k + max (exponent |q| - 52) (-1074) := by
    rw [abs_of_pos positive]
    exact ⟨(e - max (exponent q - 52) (-1074)).toNat, by omega⟩
  have whole : q / unit q = ((n * 2 ^ k : ℤ) : ℚ) := by
    rw [div_eq_iff (unit_pos q).ne', unit, Int.cast_mul, Int.cast_pow, Int.cast_ofNat, mul_assoc,
      ← zpow_natCast, ← zpow_add₀ (by norm_num), ← scale, value]
  rw [round_eq, whole, roundEven_intCast, ← whole, div_mul_cancel₀ _ (unit_pos q).ne',
    abs_of_pos positive, if_neg (not_le.2 small)]

theorem Double.neg {v : ℚ} (double : Double v) : Double (-v) := by
  obtain ⟨n, e, few, low, rfl⟩ := double
  exact ⟨-n, e, (abs_neg n).symm ▸ few, low, by push_cast; ring⟩

theorem double_of_unsigned {s : List Char} {v : ℚ} (h : unsigned s = some (finite v)) : Double v := by
  unfold unsigned at h
  split_ifs at h
  · cases h
  · obtain ⟨q, -, rounded⟩ := Option.map_eq_some_iff.1 h
    exact double_of_round rounded

theorem double_of_ofOptional {s : Option String} {v : ℚ} (h : ofOptional s = finite v) : Double v := by
  cases s with
  | none => cases h
  | some s =>
    change (literal (trim s).toList).getD nan = finite v at h
    cases number : literal (trim s).toList with
    | none =>
      rw [number] at h
      cases h
    | some a =>
      obtain rfl : a = finite v := by rwa [number] at h
      have based : ∀ {value : Option ℕ}, (value.map fun value => round value) = some (finite v) →
          Double v := by
        intro value number
        obtain ⟨value, -, rounded⟩ := Option.map_eq_some_iff.1 number
        exact double_of_round rounded
      unfold literal at number
      split at number
      · obtain rfl := finite.inj (Option.some.inj number)
        exact ⟨0, 0, by norm_num, by norm_num, by norm_num⟩
      iterate 6 exact based number
      · exact double_of_unsigned number
      · obtain ⟨a, unsigned, negated⟩ := Option.map_eq_some_iff.1 number
        cases a with
        | nan => cases negated
        | infinity negative => cases negated
        | finite w =>
          obtain rfl := finite.inj negated
          exact (double_of_unsigned unsigned).neg
      · exact double_of_unsigned number

theorem not_integer_sub_one {v : ℚ} (fraction : v.den ≠ 1) : (v - 1).den ≠ 1 := by
  intro integer
  refine fraction ?_
  have whole : v = ((v - 1).num + 1 : ℤ) := by
    rw [Int.cast_add, Rat.coe_int_num_of_den_eq_one integer, Int.cast_one, sub_add_cancel]
  rw [whole]
  rfl

/-- A fraction stays one when one is taken from it. -/
theorem sub_one_of_fraction {v : ℚ} (double : Double v) (low : 1 ≤ v) (high : v < 2 ^ 53)
    (fraction : v.den ≠ 1) : (finite v).sub (finite 1) = finite (v - 1) := by
  obtain ⟨n, e, few, le, rfl⟩ := double
  obtain ⟨j, rfl⟩ : ∃ j : ℕ, e = -j := by
    rcases le_total e 0 with neg | nonneg
    · exact ⟨e.natAbs, by omega⟩
    · refine absurd ?_ fraction
      obtain ⟨i, rfl⟩ := Int.eq_ofNat_of_zero_le nonneg
      have whole : (n * 2 ^ (i : ℤ) : ℚ) = (n * 2 ^ i : ℤ) := by
        push_cast
        rw [zpow_natCast]
      rw [whole]
      rfl
  have scale : (0 : ℚ) < 2 ^ (-(j : ℤ)) := zpow_pos (by norm_num) _
  have one : (1 : ℚ) = 2 ^ j * 2 ^ (-(j : ℤ)) := by
    rw [← zpow_natCast, ← zpow_add₀ (by norm_num), add_neg_cancel, zpow_zero]
  have same : (n * 2 ^ (-(j : ℤ)) - 1 : ℚ) = ((n - 2 ^ j : ℤ) : ℚ) * 2 ^ (-(j : ℤ)) := by
    push_cast
    rw [sub_mul, ← one]
  have above : (1 : ℚ) < n * 2 ^ (-(j : ℤ)) := lt_of_le_of_ne low fun whole => fraction (whole ▸ rfl)
  show round _ = _
  rw [same]
  refine round_of_double ?_ ?_ le ?_
  · have pos : (0 : ℚ) < ((n - 2 ^ j : ℤ) : ℚ) * 2 ^ (-(j : ℤ)) := by
      rw [← same]
      linarith
    exact_mod_cast pos_of_mul_pos_left pos scale.le
  · have least : (1 : ℤ) ≤ 2 ^ j := one_le_pow₀ (by norm_num)
    have := (abs_le.1 few).2
    omega
  · rw [← same]
    exact (sub_lt_self _ one_pos).trans
      (high.trans_le (pow_le_pow_right₀ one_le_two (by norm_num)))

end Number

end EstateServer.Js
