/-
The exact value of a double, as integers.

A finite double is a sign, a natural mantissa and a power of two. Everything
the library prints or rounds goes through that triple: `Exact.ofFloat?` reads
it off the bits, and from there on there is only arithmetic on `Nat`, about
which facts can be stated for every double at once. The way back,
`Exact.toFloat`, uses that a power of one half is a decimal fraction,
`2⁻ᵏ = 5ᵏ · 10⁻ᵏ`, so the decimal reader rounds it correctly.
-/
set_option autoImplicit false

namespace VectorPage

/-- The value `(-1)^negative * mantissa * 2^exponent`. -/
structure Exact where
  negative : Bool
  mantissa : Nat
  exponent : Int
  deriving DecidableEq, Repr

/-! ## Rounding a quotient -/

/-- The integer nearest to `n / d`; halfway between two, the even one. -/
def divHalfEven (n d : Nat) : Nat :=
  let q := n / d
  let r := n % d
  if 2 * r < d ∨ (2 * r = d ∧ q % 2 = 0) then q else q + 1

/-- The integer nearest to `n / d`; halfway between two, the larger one. -/
def divHalfUp (n d : Nat) : Nat :=
  let q := n / d
  let r := n % d
  if 2 * r < d then q else q + 1

namespace Exact

/-! ## From bits to integers and back -/

/-- The bit that stands in front of the stored mantissa of a normal
double. -/
def hiddenBit : Nat := 1 <<< 52

/-- The triple held by the bits of a double: one sign bit, eleven bits of
exponent, fifty-two bits of mantissa. The all-ones exponent marks the
infinities and the values that are not numbers, which have no triple. -/
def ofFloat? (x : Float) : Option Exact :=
  let bits := x.toBits.toNat
  let negative := bits >>> 63 == 1
  let exponent : Nat := (bits >>> 52) % 2048
  let mantissa := bits % hiddenBit
  if exponent = 2047 then none
  else if exponent = 0 then some ⟨negative, mantissa, -1074⟩
  else some ⟨negative, mantissa + hiddenBit, (exponent : Int) - 1075⟩

/-- The magnitude as a fraction: numerator and denominator. -/
def magnitude (v : Exact) : Nat × Nat :=
  if 0 ≤ v.exponent then (v.mantissa <<< v.exponent.toNat, 1)
  else (v.mantissa, 1 <<< (-v.exponent).toNat)

/-- The double nearest to the value. -/
def toFloat (v : Exact) : Float :=
  let size :=
    if 0 ≤ v.exponent then Float.ofScientific (v.mantissa <<< v.exponent.toNat) false 0
    else
      let k := (-v.exponent).toNat
      Float.ofScientific (v.mantissa * Nat.pow 5 k) true k
  if v.negative then -size else size

/-- The mantissa once the exponent is lowered to `e`, for `e` at most the
exponent. -/
def mantissaAt (v : Exact) (e : Int) : Nat :=
  v.mantissa <<< (v.exponent - e).toNat

end Exact

end VectorPage
