import MetalPool.Text.Bytes
/-!
# Variable-length numbers

A number as bytes of seven bits each, the lowest first, every byte but the last
with its high bit set. Reading takes at most ten bytes and what fits 64 bits;
a longer form than needed is read too.
-/

namespace MetalPool.Wire

def writeVarint (n : Nat) : Bytes :=
  if n < 128 then [UInt8.ofNat n] else UInt8.ofNat (n % 128 + 128) :: writeVarint (n / 128)
termination_by n
decreasing_by omega

/-- Reads up to `left` more bytes of a number. The tenth of ten holds one bit. -/
def readVarintWithin : Nat → Bytes → Option (Nat × Bytes)
  | 0, _ => none
  | _ + 1, [] => none
  | left + 1, b :: bs =>
    if b < 128 then if left = 0 ∧ 1 < b then none else some (b.toNat, bs)
    else do
      let (n, bs) ← readVarintWithin left bs
      return (b.toNat - 128 + 128 * n, bs)

/-- The number at the head of the bytes, and the bytes after it. -/
def readVarint (bs : Bytes) : Option (Nat × Bytes) := readVarintWithin 10 bs

end MetalPool.Wire
