import TradeRecommender.Lib.Python
import TradeRecommender.Lib.Rounding

/-!
# Decimals that may be special

The numbers of the decimal module: finite ones by their value, infinities, and the quiet and the
signaling NaN. A context rounds a result to its digits, and traps invalid operations, divisions by
zero and overflows.

1. numbers and the texts that write them;
2. comparison;
3. arithmetic;
4. the default context, on finite numbers.
-/

namespace Decimals

open Py

/-! ## Numbers -/

inductive Decimal
  | finite (value : ℚ)
  | infinity (negative : Bool)
  | nan (signaling : Bool)
  deriving DecidableEq

namespace Decimal

def isNan : Decimal → Bool
  | .nan _ => true
  | _ => false

def isSignaling : Decimal → Bool
  | .nan signaling => signaling
  | _ => false

end Decimal

/-- The first of each run of ten decimal digits. -/
def digitRuns : List ℕ :=
  [0x30, 0x660, 0x6F0, 0x7C0, 0x966, 0x9E6, 0xA66, 0xAE6, 0xB66, 0xBE6, 0xC66, 0xCE6, 0xD66, 0xDE6,
    0xE50, 0xED0, 0xF20, 0x1040, 0x1090, 0x17E0, 0x1810, 0x1946, 0x19D0, 0x1A80, 0x1A90, 0x1B50,
    0x1BB0, 0x1C40, 0x1C50, 0xA620, 0xA8D0, 0xA900, 0xA9D0, 0xA9F0, 0xAA50, 0xABF0, 0xFF10, 0x104A0,
    0x10D30, 0x11066, 0x110F0, 0x11136, 0x111D0, 0x112F0, 0x11450, 0x114D0, 0x11650, 0x116C0,
    0x11730, 0x118E0, 0x11950, 0x11C50, 0x11D50, 0x11DA0, 0x11F50, 0x16A60, 0x16AC0, 0x16B50,
    0x1D7CE, 0x1D7D8, 0x1D7E2, 0x1D7EC, 0x1D7F6, 0x1E140, 0x1E2F0, 0x1E4F0, 0x1E950, 0x1FBF0]

/-- The value of a decimal digit. -/
def digit? (c : Char) : Option ℕ :=
  (digitRuns.find? fun first => first ≤ c.toNat ∧ c.toNat < first + 10).map fun first =>
    c.toNat - first

/-- The digits at the front, and what follows them. -/
def takeDigits : List Char → List ℕ × List Char
  | [] => ([], [])
  | c :: text =>
    match digit? c with
    | some d => ((takeDigits text).1.cons d, (takeDigits text).2)
    | none => ([], c :: text)

/-- The number decimal digits write. -/
def ofDigits (digits : List ℕ) : ℕ := digits.foldl (fun n d => 10 * n + d) 0

/-- An optional sign: whether it is a minus, and what follows it. -/
def takeSign : List Char → Bool × List Char
  | '-' :: text => (true, text)
  | '+' :: text => (false, text)
  | text => (false, text)

/-- `[indicator [sign] digits]` -/
def exponent? : List Char → Option ℤ
  | [] => some 0
  | c :: text =>
    let (negative, text) := takeSign text
    let (digits, rest) := takeDigits text
    if (c = 'e' ∨ c = 'E') ∧ digits ≠ [] ∧ rest = [] then
      some (if negative then -(ofDigits digits : ℤ) else ofDigits digits)
    else none

/-- The largest exponent of a first digit, and the least of a last one. -/
def maxExponent : ℤ := 999999999999999999

def minExponent : ℤ := -1999999999999999997

/-- An unsigned finite number. -/
def magnitude? (text : List Char) : Option ℚ := do
  let (whole, rest) := takeDigits text
  let (fraction, rest) := match rest with
    | '.' :: rest => takeDigits rest
    | _ => ([], rest)
  if whole = [] ∧ fraction = [] then none
  else do
    let exponent ← exponent? rest
    let coefficient := ofDigits (whole ++ fraction)
    let last := exponent - fraction.length
    if last < minExponent ∨ maxExponent < last + Nat.log 10 coefficient then none
    else return coefficient * (10 : ℚ) ^ last

/-- `str.isspace` -/
def isSpace (c : Char) : Bool :=
  let n := c.toNat
  (0x09 ≤ n && n ≤ 0x0D) || (0x1C ≤ n && n ≤ 0x20) || n = 0x85 || n = 0xA0 || n = 0x1680 ||
    (0x2000 ≤ n && n ≤ 0x200A) || n = 0x2028 || n = 0x2029 || n = 0x202F || n = 0x205F || n = 0x3000

/-- `Decimal(text)`, which is none where the syntax is invalid. -/
def parse (text : String) : Option Decimal :=
  let chars := ((text.toList.dropWhile isSpace).reverse.dropWhile isSpace).reverse.filter (· ≠ '_')
  let (negative, chars) := takeSign chars
  let word := chars.map Char.toLower
  let payload (front : List Char) : Bool :=
    front.isPrefixOf word && (takeDigits (word.drop front.length)).2.isEmpty
  if word = "inf".toList ∨ word = "infinity".toList then some (.infinity negative)
  else if payload "nan".toList then some (.nan false)
  else if payload "snan".toList then some (.nan true)
  else (magnitude? chars).map fun value => .finite (if negative then -value else value)

/-! ## Comparison -/

namespace Decimal

/-- The order of numbers that are not NaN. -/
def below : Decimal → Decimal → Bool
  | .infinity true, _ => true
  | _, .infinity false => true
  | .finite a, .finite b => a ≤ b
  | _, _ => false

/-- `a <= b` -/
def le (a b : Decimal) : Except Exc Bool :=
  if a.isNan ∨ b.isNan then raise .invalidOperation else .ok (a.below b)

/-- `a < b` -/
def lt (a b : Decimal) : Except Exc Bool :=
  if a.isNan ∨ b.isNan then raise .invalidOperation else .ok (!b.below a)

/-- `a == b` -/
def eq (a b : Decimal) : Except Exc Bool :=
  if a.isSignaling ∨ b.isSignaling then raise .invalidOperation
  else .ok (!a.isNan && !b.isNan && a = b)

end Decimal

/-! ## Arithmetic -/

structure Context where
  prec : ℕ
  emax : ℤ
  emin : ℤ

namespace Context

variable (ctx : Context)

/-- A value on the grid of the context's digits, no finer than its least subnormal. -/
def rounded (value : ℚ) : ℚ :=
  Rounding.quantize Rounding.halfEven
    (max (Rounding.lastDigit ctx.prec value) (ctx.emin - (ctx.prec - 1))) value

/-- The rounded value does not overflow. -/
def Fits (value : ℚ) : Prop := Int.log 10 |ctx.rounded value| ≤ ctx.emax

instance (value : ℚ) : Decidable (ctx.Fits value) := inferInstanceAs (Decidable (_ ≤ _))

def round (value : ℚ) : Except Exc Decimal :=
  if ctx.Fits value then .ok (.finite (ctx.rounded value)) else raise (.other "Overflow")

/-- What an operation makes of a NaN. -/
def special (a b : Decimal) (otherwise : Except Exc Decimal) : Except Exc Decimal :=
  if a.isSignaling ∨ b.isSignaling then raise .invalidOperation
  else if a.isNan ∨ b.isNan then .ok (.nan false)
  else otherwise

/-- `a - b` -/
def sub (a b : Decimal) : Except Exc Decimal :=
  special a b <| match a, b with
    | .finite x, .finite y => ctx.round (x - y)
    | .infinity s, .infinity t => if s = t then raise .invalidOperation else .ok (.infinity s)
    | .infinity s, _ => .ok (.infinity s)
    | _, .infinity t => .ok (.infinity !t)
    | _, _ => raise .invalidOperation

/-- `a * b` -/
def mul (a b : Decimal) : Except Exc Decimal :=
  special a b <| match a, b with
    | .finite x, .finite y => ctx.round (x * y)
    | .infinity s, .infinity t => .ok (.infinity (s != t))
    | .infinity s, .finite y =>
      if y = 0 then raise .invalidOperation else .ok (.infinity (s != decide (y < 0)))
    | .finite x, .infinity t =>
      if x = 0 then raise .invalidOperation else .ok (.infinity (t != decide (x < 0)))
    | _, _ => raise .invalidOperation

/-- `a / b` -/
def div (a b : Decimal) : Except Exc Decimal :=
  special a b <| match a, b with
    | .finite x, .finite y =>
      if y = 0 then raise (if x = 0 then .invalidOperation else .other "DivisionByZero")
      else ctx.round (x / y)
    | .infinity _, .infinity _ => raise .invalidOperation
    | .infinity s, .finite y => .ok (.infinity (s != decide (y < 0)))
    | .finite _, .infinity _ => .ok (.finite 0)
    | _, _ => raise .invalidOperation

/-- The value on a grid has no more digits than the context. -/
def Holds (e : ℤ) (value : ℚ) : Prop := |Rounding.halfEven (value / 10 ^ e)| < 10 ^ ctx.prec

instance (e : ℤ) (value : ℚ) : Decidable (ctx.Holds e value) := inferInstanceAs (Decidable (_ < _))

/-- `a.quantize(Decimal(10) ** e)` -/
def quantize (e : ℤ) : Decimal → Except Exc Decimal
  | .finite value =>
    if ctx.Holds e value then .ok (.finite (Rounding.quantize Rounding.halfEven e value))
    else raise .invalidOperation
  | .infinity _ => raise .invalidOperation
  | .nan signaling => if signaling then raise .invalidOperation else .ok (.nan false)

/-- `a.normalize()` -/
def normalize : Decimal → Except Exc Decimal
  | .finite value => ctx.round value
  | .infinity negative => .ok (.infinity negative)
  | .nan signaling => if signaling then raise .invalidOperation else .ok (.nan false)

end Context

/-! ## The default context -/

/-- The context of `decimal` by default. -/
def standard : Context where
  prec := 28
  emax := 999999
  emin := -999999

/-- `value.quantize(Decimal(10) ** e)` -/
def quantized (e : ℤ) (value : ℚ) : Except Exc ℚ :=
  if standard.Holds e value then .ok (Rounding.quantize Rounding.halfEven e value)
  else raise .invalidOperation

/-- `a / b` of plain numbers -/
def divided (a b : ℚ) : Except Exc ℚ :=
  if b = 0 then raise (if a = 0 then .invalidOperation else .other "DivisionByZero")
  else .ok (Rounding.div 28 a b)

theorem quantized_eq_ok {e : ℤ} {value result : ℚ} : quantized e value = .ok result ↔
    standard.Holds e value ∧ Rounding.quantize Rounding.halfEven e value = result := by
  unfold quantized
  by_cases holds : standard.Holds e value
  · rw [if_pos holds, Except.ok.injEq, and_iff_right holds]
  · rw [if_neg holds]
    exact ⟨fun h => (by cases h), fun h => absurd h.1 holds⟩

theorem divided_eq_ok {a b result : ℚ} :
    divided a b = .ok result ↔ b ≠ 0 ∧ Rounding.div 28 a b = result := by
  unfold divided
  by_cases zero : b = 0
  · rw [if_pos zero]
    exact ⟨fun h => (by cases h), fun h => absurd zero h.1⟩
  · rw [if_neg zero, Except.ok.injEq, and_iff_right zero]

theorem quantized_mono {e : ℤ} {a b a' b' : ℚ} (le : a ≤ b) (ha : quantized e a = .ok a')
    (hb : quantized e b = .ok b') : a' ≤ b' := by
  obtain ⟨-, rfl⟩ := quantized_eq_ok.mp ha
  obtain ⟨-, rfl⟩ := quantized_eq_ok.mp hb
  exact Rounding.quantize_mono Rounding.halfEven_monotone e le

theorem divided_mono {a b c a' b' : ℚ} (nonneg : 0 ≤ c) (le : a ≤ b) (ha : divided a c = .ok a')
    (hb : divided b c = .ok b') : a' ≤ b' := by
  obtain ⟨-, rfl⟩ := divided_eq_ok.mp ha
  obtain ⟨-, rfl⟩ := divided_eq_ok.mp hb
  exact Rounding.fl_mono (by decide) (div_le_div_of_nonneg_right le nonneg)

end Decimals
