/-!
# The blend weight

For a fraction `t` of a cell, `smooth t = 3 t^2 - 2 t^3` runs from 0 to 1 with slope 0 at both
ends. `smoothSlope t = 3 t (1 - t)` is half its derivative. Both read and write 16-bit weights.
-/

namespace RideProof

/-- The blend weight of a fraction of a cell. -/
def smooth (t : UInt16) : UInt16 :=
  let i := t.toNat
  UInt16.ofNat (i * i * (196608 - 2 * i) / 4294967296)

/-- Half the slope of the blend weight. -/
def smoothSlope (t : UInt16) : UInt16 :=
  let i := t.toNat
  UInt16.ofNat (3 * i * (65536 - i) / 65536)

end RideProof
