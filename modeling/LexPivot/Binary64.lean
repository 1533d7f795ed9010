/-!
# Double precision numbers as fractions

A finite double is `± m * 2 ^ s / 2 ^ 1074` for a significand `m` below `2 ^ 53` and a scale `s`,
and its 63 magnitude bits, read as a number, are `s * 2 ^ 52 + m`. A significand rounded up to
`2 ^ 53` therefore carries into the next scale by itself.
-/
namespace LexPivot.Binary64

/-- The sign bit. It is set for `-0` too. -/
def signBit (x : Float) : Bool := x.toBits >>> 63 == 1

/-- The quotient `a / b` rounded to the nearest integer, a half to the even neighbour. -/
def roundDiv (a b : Nat) : Nat :=
  let q := a / b
  let r := a % b
  if 2 * r < b || (2 * r == b && q % 2 == 0) then q else q + 1

/-- The exponent `k` with `2 ^ k ≤ n / d < 2 ^ (k + 1)`, for positive `n` and `d`. -/
def exponent (n d : Nat) : Int :=
  let k : Int := n.log2 - d.log2
  if d <<< k.toNat ≤ n <<< (-k).toNat then k else k - 1

/-- The magnitude bits of infinity, above those of every finite double. -/
def infinityBits : Nat := 0x7ff0000000000000

/-- The magnitude bits of the double nearest to `n / d`. The scale is the least that keeps the
significand below `2 ^ 53`, and zero below the normal range. -/
def magnitudeBits (n d : Nat) : Nat :=
  if n = 0 then 0
  else
    let scale := (exponent n d + 1022).toNat
    min infinityBits (scale <<< 52 + roundDiv (n <<< 1074) (d <<< scale))

/-- The double nearest to a fraction, a tie to the even significand. A negative fraction that
rounds to zero gives `-0`. -/
def nearest (q : Rat) : Float :=
  let magnitude := magnitudeBits q.num.natAbs q.den
  Float.ofBits (UInt64.ofNat (if q < 0 then magnitude + 1 <<< 63 else magnitude))

/-- The value of a double, if it is finite. -/
def toRat? (x : Float) : Option Rat :=
  let bits := x.toBits.toNat
  let field := (bits >>> 52) % 2048
  let fraction := bits % (1 <<< 52)
  if field = 2047 then none
  else
    let significand := if field = 0 then fraction else fraction + 1 <<< 52
    let magnitude := mkRat (significand <<< (field - 1)) (1 <<< 1074)
    some (if signBit x then -magnitude else magnitude)

end LexPivot.Binary64
