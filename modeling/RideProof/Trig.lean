/-!
# Sine and cosine of 16-bit angles

An angle is a signed 16-bit word, 65536 steps to the turn. Sine and cosine are signed 32-bit
fractions of `amplitude`.

* `quarterSine i` — the sine of `i` steps, for a first quadrant of 16384 steps: the alternating
  series over the integers, scaled by `2^62`.
* `sine`, `cosine` — the other quadrants by reflection.
-/

namespace RideProof

/-- A full turn in radians, scaled by `2^62` and rounded down. -/
def fullTurn : Nat := 0x1921FB54442D18469

/-- One, in the sine series: `2^62`. -/
def sineUnit : Nat := 4611686018427387904

/-- The greatest value of sine and cosine. -/
def amplitude : Int := 2147483647

/-- The number of steps in a quarter turn, with both ends. -/
def quarterSineCount : Nat := 16385

/-- From the term `θ^n / n!` of the sine series to `θ^(n+2) / (n+2)!`, all scaled by `2^62`. -/
def nextSineTerm (theta n term : Nat) : Nat :=
  term * theta / sineUnit * theta / sineUnit / ((n + 1) * (n + 2))

/-- The alternating sum of the sine series from the term of degree `n` on, cut off after `count`
terms or at the first term that vanishes. -/
def sineSeries (theta : Nat) : (count n term : Nat) → Int
  | 0, _, _ => 0
  | count + 1, n, term =>
    if term = 0 then 0
    else term - sineSeries theta count (n + 2) (nextSineTerm theta n term)

/-- The sine of `i` steps, for `i` up to a quarter turn: no term after the twelfth is left at this
scale, and the sixteen allowed here change nothing. -/
def quarterSine (i : Nat) : Int32 :=
  let theta := i * fullTurn / 65536
  Int32.ofInt (amplitude * sineSeries theta 16 1 theta / sineUnit)

/-- The sine of an angle: the second quadrant is the first in reverse, and the sign is that of the
angle. -/
def sine (a : Int16) : Int32 :=
  let m := a.toInt.natAbs
  let s := quarterSine (if m < 16384 then m else 32768 - m)
  if a.toInt < 0 then -s else s

/-- The cosine of an angle: the sine of what is missing to a quarter turn. -/
def cosine (a : Int16) : Int32 :=
  let m := a.toInt.natAbs
  if m < 16384 then quarterSine (16384 - m) else -quarterSine (m - 16384)

end RideProof
