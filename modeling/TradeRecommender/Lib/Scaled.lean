import Mathlib.Data.Nat.Log
import TradeRecommender.Lib.Decimals

/-!
# Decimals with their exponent

A finite decimal as its coefficient and its exponent, which together are what `str` writes. A sum is
exact on the finer of two exponents, and then rounded to the digits and the exponents of the context.

1. numbers and the texts that write them;
2. the rounding of a result;
3. sums, and those that are not rounded.
-/

namespace Decimals

open Py

/-! ## Numbers -/

/-- The number `coefficient * 10 ^ exponent`; there is no negative zero. -/
structure Scaled where
  coefficient : ℤ
  exponent : ℤ
  deriving DecidableEq

namespace Scaled

def value (d : Scaled) : ℚ := d.coefficient * 10 ^ d.exponent

/-- The number of digits of the coefficient. -/
def digits (d : Scaled) : ℕ := Nat.log 10 d.coefficient.natAbs + 1

/-- `d.adjusted()`: the exponent of the first digit. -/
def adjusted (d : Scaled) : ℤ := d.exponent + d.digits - 1

/-- `str(d)` -/
def str (d : Scaled) : String :=
  let int := (toString d.coefficient.natAbs).toList
  let left := d.exponent + int.length
  let dot := if d.exponent ≤ 0 ∧ -6 < left then left else 1
  let text :=
    if dot ≤ 0 then '0' :: '.' :: List.replicate (-dot).toNat '0' ++ int
    else if int.length ≤ dot then int ++ List.replicate (dot - int.length).toNat '0'
    else int.take dot.toNat ++ '.' :: int.drop dot.toNat
  let power :=
    if left = dot then "" else "E" ++ (if dot < left then "+" else "") ++ toString (left - dot)
  (if d.coefficient < 0 then "-" else "") ++ String.ofList text ++ power

end Scaled

/-! ## Rounding -/

namespace Context

variable (ctx : Context)

/-- `Etiny`: the exponent of the least subnormal number. -/
def tiny : ℤ := ctx.emin - (ctx.prec - 1)

/-- `_fix`: a result in the digits and exponents of the context. -/
def fix (d : Scaled) : Except Exc Scaled :=
  let least := max (d.exponent + d.digits - ctx.prec) ctx.tiny
  if d.coefficient = 0 then .ok ⟨0, min (max d.exponent ctx.tiny) ctx.emax⟩
  else if ctx.emax < d.adjusted then raise (.other "Overflow")
  else if least ≤ d.exponent then .ok d
  else
    let kept := Rounding.halfEven (d.coefficient / 10 ^ (least - d.exponent).toNat)
    let result : Scaled :=
      -- a carry into one more digit
      if kept.natAbs = 10 ^ ctx.prec then ⟨kept / 10, least + 1⟩ else ⟨kept, least⟩
    if ctx.emax - (ctx.prec - 1) < result.exponent then raise (.other "Overflow") else .ok result

/-- The context has the digits and the exponent of the number. -/
def Writes (d : Scaled) : Prop :=
  d.coefficient.natAbs < 10 ^ ctx.prec ∧ ctx.tiny ≤ d.exponent ∧ d.adjusted ≤ ctx.emax

variable {ctx}

theorem fix_of_writes {d : Scaled} (writes : ctx.Writes d) : ctx.fix d = .ok d := by
  obtain ⟨short, fine, small⟩ := writes
  unfold fix
  by_cases zero : d.coefficient = 0
  · have one : d.digits = 1 := by
      unfold Scaled.digits
      rw [zero]
      rfl
    rw [Scaled.adjusted, one] at small
    have exponent : min (max d.exponent ctx.tiny) ctx.emax = d.exponent := by omega
    rw [if_pos zero, exponent, ← zero]
  · have digits : d.digits ≤ ctx.prec := by
      unfold Scaled.digits
      exact Nat.log_lt_of_lt_pow (Int.natAbs_ne_zero.mpr zero) short
    have least : max (d.exponent + d.digits - ctx.prec) ctx.tiny ≤ d.exponent := by omega
    rw [if_neg zero, if_neg (by omega), if_pos least]

/-- A result is rounded or overflows. -/
theorem fix_or_overflow (d : Scaled) :
    (∃ result, ctx.fix d = .ok result) ∨ ctx.fix d = raise (.other "Overflow") := by
  unfold fix
  simp only
  split_ifs
  · exact .inl ⟨_, rfl⟩
  · exact .inr rfl
  · exact .inl ⟨_, rfl⟩
  · exact .inr rfl
  · exact .inl ⟨_, rfl⟩
  · exact .inr rfl
  · exact .inl ⟨_, rfl⟩

end Context

/-! ## Sums -/

namespace Scaled

/-- The coefficient on a finer exponent. -/
def on (e : ℤ) (d : Scaled) : ℤ := d.coefficient * 10 ^ (d.exponent - e).toNat

/-- The exact sum, on the finer of the two exponents. -/
def sum (a b : Scaled) : Scaled :=
  let e := min a.exponent b.exponent
  ⟨a.on e + b.on e, e⟩

theorem on_sum {a b : Scaled} {e : ℤ} (ha : e ≤ a.exponent) (hb : e ≤ b.exponent) :
    (a.sum b).on e = a.on e + b.on e := by
  have power : ∀ d : Scaled, min a.exponent b.exponent ≤ d.exponent →
      d.on (min a.exponent b.exponent) * 10 ^ (min a.exponent b.exponent - e).toNat = d.on e := by
    intro d finer
    unfold on
    rw [mul_assoc, ← pow_add]
    congr 2
    omega
  show (a.on _ + b.on _) * 10 ^ (min a.exponent b.exponent - e).toNat = _
  rw [add_mul, power a (min_le_left _ _), power b (min_le_right _ _)]

theorem sum_sum (a b c : Scaled) : (a.sum b).sum c =
    (let e := min (min a.exponent b.exponent) c.exponent
    ⟨a.on e + b.on e + c.on e, e⟩) := by
  have coarser : min (min a.exponent b.exponent) c.exponent ≤ min a.exponent b.exponent :=
    min_le_left _ _
  show (⟨(a.sum b).on (min (min a.exponent b.exponent) c.exponent) + _, _⟩ : Scaled) = _
  rw [on_sum (coarser.trans (min_le_left _ _)) (coarser.trans (min_le_right _ _))]
  rfl

theorem sum_right_comm (a b c : Scaled) : (a.sum b).sum c = (a.sum c).sum b := by
  rw [sum_sum, sum_sum, min_right_comm]
  simp only [add_right_comm]

theorem value_on {e : ℤ} {d : Scaled} (finer : e ≤ d.exponent) :
    (d.on e : ℚ) * 10 ^ e = d.value := by
  unfold on value
  push_cast
  rw [mul_assoc, ← zpow_natCast, ← zpow_add₀ (by norm_num)]
  congr 2
  omega

theorem value_sum (a b : Scaled) : (a.sum b).value = a.value + b.value := by
  rw [← value_on (min_le_left a.exponent b.exponent), ← value_on (min_le_right a.exponent b.exponent)]
  unfold sum value
  push_cast
  ring

/-- The exact sum of all values. -/
def total (first : Scaled) (values : List Scaled) : Scaled := values.foldl sum first

theorem total_perm {first : Scaled} {values values' : List Scaled} (perm : values.Perm values') :
    total first values = total first values' :=
  perm.foldl_eq' (fun x _ y _ z => sum_right_comm z x y) first

theorem value_total {first : Scaled} {values : List Scaled} :
    (total first values).value = first.value + (values.map value).sum := by
  induction values generalizing first with
  | nil => exact (add_zero _).symm
  | cons x values ih =>
    show (total (first.sum x) values).value = _
    rw [ih, value_sum, List.map_cons, List.sum_cons, add_assoc]

end Scaled

namespace Context

variable (ctx : Context)

/-- `a + b` -/
def plus (a b : Scaled) : Except Exc Scaled := ctx.fix (a.sum b)

theorem plus_or_overflow (a b : Scaled) :
    (∃ result, ctx.plus a b = .ok result) ∨ ctx.plus a b = raise (.other "Overflow") :=
  fix_or_overflow (a.sum b)

/-- No partial sum has to be rounded. -/
def Exact (first : Scaled) : List Scaled → Prop
  | [] => True
  | x :: values => ctx.Writes (first.sum x) ∧ Exact (first.sum x) values

variable {ctx}

/-- **Sums that are not rounded** are the exact ones. -/
theorem plus_of_exact {first : Scaled} {values : List Scaled} (exact_ : ctx.Exact first values) :
    values.foldlM ctx.plus first = .ok (Scaled.total first values) := by
  induction values generalizing first with
  | nil => rfl
  | cons x values ih =>
    obtain ⟨writes, rest⟩ := exact_
    have here : ctx.plus first x = .ok (first.sum x) := fix_of_writes writes
    rw [List.foldlM_cons, here]
    exact ih rest

end Context

end Decimals
