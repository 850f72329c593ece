import Mathlib.Algebra.GroupWithZero.Nat

/-!
# JavaScript numbers

A JavaScript number is an IEEE 754 binary64 value: NaN, the two infinities, the two zeros, and the
finite values, kept here as the exact rationals they are. Every operation computes the exact
rational result and rounds it once, to nearest with ties to even (`Number.ofRat`).

`Number.parse` is `Number(text)` and `Number.toText` is `String(n)`, with the shortest digits that
read back as the same value.
-/

namespace Js

inductive Number where
  | nan
  | infinity (negative : Bool)
  /-- `-0`; `+0` is `finite 0`. -/
  | negZero
  | finite (q : Rat)
  deriving DecidableEq

namespace Number

/-! ## Rounding -/

def pow2 : Int → Rat
  | .ofNat n => ((2 ^ n : Nat) : Rat)
  | .negSucc n => mkRat 1 (2 ^ (n + 1))

def pow10 : Int → Rat
  | .ofNat n => ((10 ^ n : Nat) : Rat)
  | .negSucc n => mkRat 1 (10 ^ (n + 1))

/-- The `e` with `2 ^ e ≤ q < 2 ^ (e + 1)`, for `0 < q`. -/
def binaryExponent (q : Rat) : Int :=
  let e : Int := (Nat.log2 q.num.natAbs : Int) - (Nat.log2 q.den : Int)
  if pow2 e ≤ q then e else e - 1

/-- Nearest integer, ties to even. -/
def roundHalfEven (q : Rat) : Int :=
  let f := q.floor
  let r := q - (f : Rat)
  if r < mkRat 1 2 then f else if mkRat 1 2 < r then f + 1 else if f % 2 = 0 then f else f + 1

def absRat (q : Rat) : Rat := if q < 0 then -q else q

/-- Round an exact result to binary64: 53 significant bits, exponents from -1022, overflow to infinity. -/
def ofRat (q : Rat) : Number :=
  if q = 0 then .finite 0
  else
    let ulp := pow2 (max (binaryExponent (absRat q)) (-1022) - 52)
    let v := (roundHalfEven (absRat q / ulp) : Rat) * ulp
    if pow2 1024 ≤ v then .infinity (q < 0)
    else if v = 0 then (if q < 0 then .negZero else .finite 0)
    else .finite (if q < 0 then -v else v)

def ofInt (n : Int) : Number := ofRat (n : Rat)

/-! ## Operators -/

def isNaN : Number → Bool
  | .nan => true
  | _ => false

def isZero : Number → Bool
  | .negZero => true
  | .finite q => q = 0
  | _ => false

/-- The sign bit; NaN counts as positive. -/
def signBit : Number → Bool
  | .nan => false
  | .infinity s => s
  | .negZero => true
  | .finite q => q < 0

/-- The rational a finite value stands for. -/
def toRat? : Number → Option Rat
  | .negZero => some 0
  | .finite q => some q
  | _ => none

def neg : Number → Number
  | .nan => .nan
  | .infinity s => .infinity !s
  | .negZero => .finite 0
  | .finite q => if q = 0 then .negZero else .finite (-q)

def add (x y : Number) : Number :=
  match x, y with
  | .nan, _ | _, .nan => .nan
  | .infinity s, .infinity t => if s = t then .infinity s else .nan
  | .infinity s, _ | _, .infinity s => .infinity s
  | .negZero, .negZero => .negZero
  | _, _ => ofRat ((x.toRat?.getD 0) + (y.toRat?.getD 0))

def sub (x y : Number) : Number := add x (neg y)

def signedZero (negative : Bool) : Number := if negative then .negZero else .finite 0

def mul (x y : Number) : Number :=
  let negative := x.signBit != y.signBit
  match x.toRat?, y.toRat? with
  | some a, some b => if a * b = 0 then signedZero negative else ofRat (a * b)
  | _, _ => if x.isNaN || y.isNaN || x.isZero || y.isZero then .nan else .infinity negative

def div (x y : Number) : Number :=
  let negative := x.signBit != y.signBit
  match x.toRat?, y.toRat? with
  | some a, some b =>
    if b = 0 then (if a = 0 then .nan else .infinity negative)
    else if a = 0 then signedZero negative else
      match ofRat (a / b) with
      | .finite 0 => signedZero negative
      | r => r
  | none, some _ => if x.isNaN then .nan else .infinity negative
  | some _, none => if y.isNaN then .nan else signedZero negative
  | none, none => .nan

/-- `x % y`, which needs no rounding; the sign is that of `x`. -/
def rem (x y : Number) : Number :=
  match x.toRat?, y.toRat? with
  | some a, some b =>
    if b = 0 then .nan
    else
      let r := a - b * (if 0 ≤ a / b then (a / b).floor else (a / b).ceil : Int)
      if r = 0 then signedZero x.signBit else .finite r
  | some _, none => if y.isNaN then .nan else x
  | none, _ => .nan

def lt (x y : Number) : Bool :=
  match x, y with
  | .nan, _ | _, .nan => false
  | .infinity s, .infinity t => s && !t
  | .infinity s, _ => s
  | _, .infinity t => !t
  | _, _ => x.toRat?.getD 0 < y.toRat?.getD 0

/-- `===` on numbers: NaN differs from itself, the zeros are equal. -/
def eq (x y : Number) : Bool :=
  match x, y with
  | .nan, _ | _, .nan => false
  | .infinity s, .infinity t => s = t
  | .infinity _, _ | _, .infinity _ => false
  | _, _ => x.toRat?.getD 0 = y.toRat?.getD 0

def le (x y : Number) : Bool := lt x y || eq x y

/-- `[x].includes(y)`: as `===`, but NaN is the same as itself. -/
def sameValueZero (x y : Number) : Bool := eq x y || x.isNaN && y.isNaN

/-- `Number.isInteger(n)`. -/
def isInteger : Number → Bool
  | .negZero => true
  | .finite q => q.den = 1
  | _ => false

/-- `Boolean(n)`. -/
def truthy (n : Number) : Bool := !(n.isNaN || n.isZero)

/-! ## `Number(text)` -/

/-- JavaScript white space and line terminators (`/\s/`, `String.prototype.trim`). -/
def isSpace (c : Char) : Bool :=
  let n := c.toNat
  (9 ≤ n && n ≤ 13) || n = 32 || n = 0xA0 || n = 0x1680 || (0x2000 ≤ n && n ≤ 0x200A) ||
    n = 0x2028 || n = 0x2029 || n = 0x202F || n = 0x205F || n = 0x3000 || n = 0xFEFF

def trim (cs : List Char) : List Char := ((cs.dropWhile isSpace).reverse.dropWhile isSpace).reverse

def digitValue (c : Char) : Option Nat :=
  if '0' ≤ c ∧ c ≤ '9' then some (c.toNat - '0'.toNat)
  else if 'a' ≤ c ∧ c ≤ 'f' then some (c.toNat - 'a'.toNat + 10)
  else if 'A' ≤ c ∧ c ≤ 'F' then some (c.toNat - 'A'.toNat + 10)
  else none

def isDigit (c : Char) : Bool := '0' ≤ c ∧ c ≤ '9'

/-- All characters are digits of the base, and there is at least one. -/
def digitsIn (base : Nat) (cs : List Char) : Option Nat :=
  if cs = [] then none
  else cs.foldl (fun acc c => do
    let n ← acc
    let d ← digitValue c
    if d < base then some (n * base + d) else none) (some 0)

def splitSign : List Char → Bool × List Char
  | '-' :: cs => (true, cs)
  | '+' :: cs => (false, cs)
  | cs => (false, cs)

/-- An unsigned decimal literal `digits [. digits] [e [sign] digits]`, one of the digit parts nonempty. -/
def decimalLiteral (cs : List Char) : Option Rat :=
  let whole := cs.takeWhile isDigit
  let rest := cs.dropWhile isDigit
  let (frac, rest) := match rest with
    | '.' :: r => (r.takeWhile isDigit, r.dropWhile isDigit)
    | r => ([], r)
  if whole = [] ∧ frac = [] then none
  else
    let mantissa := ((digitsIn 10 (whole ++ frac)).getD 0 : Rat) * pow10 (-(frac.length : Int))
    match rest with
    | [] => some mantissa
    | c :: r =>
      if c = 'e' ∨ c = 'E' then
        let (negative, r) := splitSign r
        (digitsIn 10 r).map fun e => mantissa * pow10 (if negative then -(e : Int) else e)
      else none

/-- `Number(text)`. -/
def parse (text : String) : Number :=
  match trim text.toList with
  | [] => .finite 0
  | '0' :: 'x' :: cs | '0' :: 'X' :: cs => ((digitsIn 16 cs).map fun n => ofInt n).getD .nan
  | '0' :: 'o' :: cs | '0' :: 'O' :: cs => ((digitsIn 8 cs).map fun n => ofInt n).getD .nan
  | '0' :: 'b' :: cs | '0' :: 'B' :: cs => ((digitsIn 2 cs).map fun n => ofInt n).getD .nan
  | cs =>
    let (negative, cs) := splitSign cs
    if cs = "Infinity".toList then .infinity negative
    else match decimalLiteral cs with
      | none => .nan
      | some q => if negative then neg (ofRat q) else ofRat q

/-! ## `String(n)` -/

/-- The `n` with `10 ^ (n - 1) ≤ q < 10 ^ n`, searched upwards from `k` in `fuel` steps. -/
def decimalPoint (q : Rat) : Nat → Int → Int
  | 0, k => k
  | fuel + 1, k => if q < pow10 k then k else decimalPoint q fuel (k + 1)

/-- The fewest significant digits `s` (with `s * 10 ^ (n - k)`) that round back to `q`: tries
`k = 1, 2, …` digits and, of the two neighbours, the closer one that reads back. -/
def shortestDigits (q : Rat) (n : Int) : Nat → Nat → Nat × Nat
  | 0, k => ((roundHalfEven (q / pow10 (n - k))).toNat, k)
  | fuel + 1, k =>
    let x := q / pow10 (n - k)
    let lo := x.floor
    let good (s : Int) : Bool := ofRat ((s : Rat) * pow10 (n - k)) = .finite q
    let near := roundHalfEven x
    let far := if near = lo then lo + 1 else lo
    if good near then (near.toNat, k) else if good far then (far.toNat, k) else shortestDigits q n fuel (k + 1)

def zeros (n : Nat) : List Char := List.replicate n '0'

/-- `Number::toString` of a positive finite value. -/
def positiveToText (q : Rat) : List Char :=
  let n := decimalPoint q 640 (-323)
  let (s, k) := shortestDigits q n 16 1
  -- the shortest digits may round up to the next power of ten
  let (s, n) := if s = 10 ^ k then (1, n + 1) else (s, n)
  let ds := Nat.toDigits 10 s
  if (k : Int) ≤ n ∧ n ≤ 21 then ds ++ zeros (n - k).toNat
  else if 0 < n ∧ n ≤ 21 then ds.take n.toNat ++ '.' :: ds.drop n.toNat
  else if -6 < n ∧ n ≤ 0 then '0' :: '.' :: zeros (-n).toNat ++ ds
  else
    let e := n - 1
    let exponent := (if e < 0 then '-' else '+') :: Nat.toDigits 10 e.natAbs
    match ds with
    | [d] => d :: 'e' :: exponent
    | d :: ds => d :: '.' :: ds ++ 'e' :: exponent
    | [] => []

/-- `String(n)`. -/
def toText : Number → String
  | .nan => "NaN"
  | .infinity s => if s then "-Infinity" else "Infinity"
  | .negZero => "0"
  | .finite q =>
    if q = 0 then "0"
    else if q < 0 then String.ofList ('-' :: positiveToText (-q))
    else String.ofList (positiveToText q)

end Number

end Js
