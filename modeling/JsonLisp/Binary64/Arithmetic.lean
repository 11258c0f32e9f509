import JsonLisp.Binary64.Basic

/-!
# Arithmetic and order of floating point numbers

Each operation computes the exact result in integers and rounds once. Comparison is exact, also
against integers of any size.
-/

namespace JsonLisp.Binary64

def neg : Binary64 → Binary64
  | .nan p => .nan p
  | .infinity s => .infinity (!s)
  | .finite x => .finite x.neg

/-- An exact sum of zero is negative only if both operands are. -/
def add : Binary64 → Binary64 → Binary64
  | .nan p, _ => .nan p
  | _, .nan p => .nan p
  | .infinity s, .infinity t => if s = t then .infinity s else .nan 0
  | .infinity s, .finite _ => .infinity s
  | .finite _, .infinity s => .infinity s
  | .finite x, .finite y =>
    let e := min x.exponent y.exponent
    let sum := x.units e + y.units e
    if sum = 0 then zero (x.negative && y.negative)
    else roundScaled (sum < 0) sum.natAbs e

def sub (x y : Binary64) : Binary64 := add x (neg y)

def mul : Binary64 → Binary64 → Binary64
  | .nan p, _ => .nan p
  | _, .nan p => .nan p
  | .infinity s, .infinity t => .infinity (s != t)
  | .infinity s, .finite y => if y.isZero then .nan 0 else .infinity (s != y.negative)
  | .finite x, .infinity t => if x.isZero then .nan 0 else .infinity (x.negative != t)
  | .finite x, .finite y =>
    roundScaled (x.negative != y.negative) (x.significand * y.significand)
      (x.exponent + y.exponent)

def div : Binary64 → Binary64 → Binary64
  | .nan p, _ => .nan p
  | _, .nan p => .nan p
  | .infinity _, .infinity _ => .nan 0
  | .infinity s, .finite y => .infinity (s != y.negative)
  | .finite x, .infinity t => zero (x.negative != t)
  | .finite x, .finite y =>
    let s := x.negative != y.negative
    if y.isZero then
      if x.isZero then .nan 0 else .infinity s
    else
      let (num, den) := scaled x.significand y.significand (y.exponent - x.exponent)
      round s num den

def isZero : Binary64 → Bool
  | .finite x => x.isZero
  | _ => false

/-! ### Order -/

/-- The order of `a * 2 ^ e` and `b * 2 ^ f`. -/
def compareScaled (a e b f : Int) : Ordering :=
  let g := min e f
  compare (a * Nat.pow 2 (e - g).toNat) (b * Nat.pow 2 (f - g).toNat)

/-- The order of two numbers; there is none with not-a-number. -/
def compare? : Binary64 → Binary64 → Option Ordering
  | .nan _, _ => none
  | _, .nan _ => none
  | .infinity s, .infinity t =>
    some (if s = t then .eq else if s then .lt else .gt)
  | .infinity s, .finite _ => some (if s then .lt else .gt)
  | .finite _, .infinity t => some (if t then .gt else .lt)
  | .finite x, .finite y =>
    some (compareScaled (x.units x.exponent) x.exponent (y.units y.exponent) y.exponent)

/-- The order of an integer and a number. -/
def compareInt? (n : Int) : Binary64 → Option Ordering
  | .nan _ => none
  | .infinity t => some (if t then .gt else .lt)
  | .finite y => some (compareScaled n 0 (y.units y.exponent) y.exponent)

end JsonLisp.Binary64
