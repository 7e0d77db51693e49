/-
**Numbers of double precision.**

A number is a whole multiple of a power of two.  Decimal fractions are rounded to the nearest number,
a half to the even neighbour.  The text of a number has the fewest digits that read back as the same
number, and of those the nearest; it is positional, whatever the magnitude.

All arithmetic is exact, on natural numbers: a positive fraction is a numerator and a denominator.

Main definitions:

* `Upkeep.Data.Binary64` — the numbers;
* `Upkeep.Data.Binary64.ofDecimal` — the number nearest to a decimal fraction;
* `Upkeep.Data.Binary64.text` — the text of a number;
* `Upkeep.Data.Binary64.toWord` — the nearest natural number that fits into 64 bits.
-/

import Upkeep.Text.Integer
import Upkeep.Text.Search

set_option relaxedAutoImplicit false
set_option autoImplicit false

namespace Upkeep

namespace Data

/-- A number of double precision.  A finite number is `m * 2 ^ q` with a sign. -/
inductive Binary64 where
  | finite (negative : Bool) (m : Nat) (q : Int)
  | infinity (negative : Bool)
  | nan
deriving DecidableEq, Repr, Inhabited

namespace Binary64

/-- The number of bits of a multiple. -/
def precision : Nat := 53

/-- The least exponent. -/
def minExponent : Int := -1074

/-- The greatest exponent. -/
def maxExponent : Int := 971

/-- A power of two. -/
def twoPow (k : Nat) : Nat := Nat.pow 2 k

/-- A power of ten. -/
def tenPow (k : Nat) : Nat := Nat.pow 10 k

/-! ### Rounding -/

/-- The fraction `n / d` as numerator and denominator after multiplication with a power of two. -/
def scaleBinary (n d : Nat) (q : Int) : Nat × Nat :=
  if q ≥ 0 then (n * twoPow q.toNat, d) else (n, d * twoPow (-q).toNat)

/-- The natural number nearest to a fraction, a half going to the even one. -/
def roundEven (n d : Nat) : Nat :=
  let low := n / d
  let rest := 2 * (n % d)
  if rest < d then low else if d < rest then low + 1 else low + low % 2

/-- The exponent of the greatest power of two that is at most a positive fraction. -/
def binaryOrder (n d : Nat) : Int :=
  let e : Int := (n.log2 : Int) - d.log2
  let (n', d') := scaleBinary n d (-e)
  if d' ≤ n' then e else e - 1

/-- The number nearest to a positive fraction. -/
def ofFraction (negative : Bool) (n d : Nat) : Binary64 :=
  let q := max (binaryOrder n d - (precision - 1 : Nat)) minExponent
  let (n', d') := scaleBinary n d (-q)
  let m := roundEven n' d'
  let (m, q) := if m = twoPow precision then (twoPow (precision - 1), q + 1) else (m, q)
  if maxExponent < q then infinity negative else finite negative m q

/-- The number nearest to `digits * 10 ^ e`. -/
def ofDecimal (negative : Bool) (digits : Nat) (e : Int) : Binary64 :=
  if digits = 0 then finite negative 0 minExponent
  else
    let size : Int := e + (Nat.toDigits 10 digits).length
    -- Beyond these sizes every number is rounded in the same way.
    if 400 < size then infinity negative
    else if size < -400 then finite negative 0 minExponent
    else if e ≥ 0 then ofFraction negative (digits * tenPow e.toNat) 1
    else ofFraction negative digits (tenPow (-e).toNat)

/-! ### Digits -/

/-- What reads back as `m * 2 ^ q`: the fractions from the first to the second, counted in quarters of
`2 ^ q`. -/
def interval (m : Nat) (q : Int) : Nat × Nat :=
  let below := if m = twoPow (precision - 1) && minExponent < q then 1 else 2
  (4 * m - below, 4 * m + 2)

/-- Whether the decimal fraction `c * 10 ^ k` reads back as `m * 2 ^ q`. -/
def readsBack (m : Nat) (q : Int) (c : Nat) (k : Int) : Bool :=
  let (low, high) := interval m q
  let (n, d) := if k ≥ 0 then (c * tenPow k.toNat, 1) else (c, tenPow (-k).toNat)
  -- Compare `n / d` with quarters of `2 ^ q`.
  let (n, d) := scaleBinary (4 * n) d (-q)
  if m % 2 = 0 then low * d ≤ n && n ≤ high * d else low * d < n && n < high * d

/-- The exponent of the greatest power of ten that is at most `n / d`, searched upwards from `k`. -/
def decimalOrderFrom (n d : Nat) : (budget : Nat) → (k : Int) → Int
  | 0, k => k
  | budget + 1, k =>
    let (n', d') :=
      if k + 1 ≥ 0 then (n, d * tenPow (k + 1).toNat) else (n * tenPow (-(k + 1)).toNat, d)
    if d' ≤ n' then decimalOrderFrom n d budget (k + 1) else k

/-- The number as a fraction. -/
def fraction (m : Nat) (q : Int) : Nat × Nat := scaleBinary m 1 q

/-- The decimal fraction with a given number of digits that reads back as `m * 2 ^ q`, if there is
one, as a whole number and the exponent of its last digit. -/
def withDigits? (m : Nat) (q : Int) (order : Int) (size : Nat) : Option (Nat × Int) :=
  let k := order - size + 1
  let (n, d) := fraction m q
  let (n, d) := if k ≥ 0 then (n, d * tenPow k.toNat) else (n * tenPow (-k).toNat, d)
  let low := n / d
  let candidates := if 2 * (n % d) ≤ d then [low, low + 1] else [low + 1, low]
  (candidates.find? fun c => readsBack m q c k).map fun c => (c, k)

/-- The number of digits that is always enough. -/
def maxDigits : Nat := 17

/-- The shortest decimal fraction that reads back as `m * 2 ^ q`, for a positive `m`. -/
def shortest (m : Nat) (q : Int) : Nat × Int :=
  let (n, d) := fraction m q
  let order := decimalOrderFrom n d 700 (-330)
  ((List.range maxDigits).findSome? fun i => withDigits? m q order (i + 1)).getD (0, 0)

/-! ### Text -/

/-- The text of `c * 10 ^ k` without an exponent. -/
def positional (c : Nat) (k : Int) : String :=
  let digits := Nat.toDigits 10 c
  if k ≥ 0 then String.ofList (digits ++ List.replicate k.toNat '0')
  else
    let places := (-k).toNat
    let padded := List.replicate (places + 1 - digits.length) '0' ++ digits
    let whole := padded.take (padded.length - places)
    let part := (padded.drop (padded.length - places)).reverse.dropWhile (· == '0') |>.reverse
    if part.isEmpty then String.ofList whole else String.ofList (whole ++ '.' :: part)

/-- The text of a number. -/
def text : Binary64 → String
  | nan => "NaN"
  | infinity negative => if negative then "-inf" else "inf"
  | finite negative m q =>
    let body := if m = 0 then "0" else
      let (c, k) := shortest m q
      positional c k
    if negative then "-" ++ body else body

/-! ### Words -/

/-- The greatest number of 64 bits. -/
def maxWord : Nat := Text.wordCount - 1

/-- The nearest natural number that fits into 64 bits; a half goes up, and no number is zero. -/
def toWord : Binary64 → Nat
  | nan => 0
  | infinity negative => if negative then 0 else maxWord
  | finite negative m q =>
    if negative then 0
    else
      let (n, d) := fraction m q
      min ((2 * n + d) / (2 * d)) maxWord

@[simp] theorem text_zero (q : Int) : (finite false 0 q).text = "0" := rfl

@[simp] theorem toWord_negative (m : Nat) (q : Int) : (finite true m q).toWord = 0 := rfl

end Binary64

end Data

end Upkeep
