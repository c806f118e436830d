import Gambit.Lib.ByteImages

/-!
# The checksums of a mapped column
-/

set_option autoImplicit false

namespace Gambit

open ByteImages

def checksumBytes (data : List UInt8) : UInt64 :=
  data.foldl (fun hash byte => (hash ^^^ byte.toUInt64) * 1099511628211) 1469598103934665603

def rotateLeft (value bits : UInt64) : UInt64 := (value <<< bits) ||| (value >>> (64 - bits))

namespace Xxh64

def prime1 : UInt64 := 11400714785074694791
def prime2 : UInt64 := 14029467366897019727
def prime3 : UInt64 := 1609587929392839161
def prime4 : UInt64 := 9650029242287828579
def prime5 : UInt64 := 2870177450012600261

def round (accumulator input : UInt64) : UInt64 :=
  rotateLeft (accumulator + input * prime2) 31 * prime1

def merge (accumulator value : UInt64) : UInt64 :=
  (accumulator ^^^ round 0 value) * prime1 + prime4

/-- The four lanes over the whole 32-byte stripes, and the words left after them. -/
def stripes (v1 v2 v3 v4 : UInt64) :
    List UInt64 → (UInt64 × UInt64 × UInt64 × UInt64) × List UInt64
  | w1 :: w2 :: w3 :: w4 :: rest =>
      stripes (round v1 w1) (round v2 w2) (round v3 w3) (round v4 w4) rest
  | rest => ((v1, v2, v3, v4), rest)

def lanes : UInt64 × UInt64 × UInt64 × UInt64 → UInt64
  | (v1, v2, v3, v4) =>
      merge (merge (merge (merge (rotateLeft v1 1 + rotateLeft v2 7 + rotateLeft v3 12 +
        rotateLeft v4 18) v1) v2) v3) v4

def absorbWord (hash word : UInt64) : UInt64 :=
  rotateLeft (hash ^^^ round 0 word) 27 * prime1 + prime4

def absorbHalf (hash : UInt64) (half : UInt32) : UInt64 :=
  rotateLeft (hash ^^^ half.toUInt64 * prime1) 23 * prime2 + prime3

def absorbByte (hash : UInt64) (byte : UInt8) : UInt64 :=
  rotateLeft (hash ^^^ byte.toUInt64 * prime5) 11 * prime1

/-- The last bytes, fewer than eight. -/
def absorbTail (hash : UInt64) (tail : List UInt8) : UInt64 :=
  if 4 ≤ tail.length then
    (tail.drop 4).foldl absorbByte (absorbHalf hash (word32 (tail.take 4)))
  else tail.foldl absorbByte hash

def avalanche (hash : UInt64) : UInt64 :=
  let hash := (hash ^^^ (hash >>> 33)) * prime2
  let hash := (hash ^^^ (hash >>> 29)) * prime3
  hash ^^^ (hash >>> 32)

end Xxh64

open Xxh64 in
def checksumBytesFast (data : List UInt8) : UInt64 :=
  let whole := readWords data 0 (data.length / 8)
  let (hash, rest) :=
    if 32 ≤ data.length then
      let (accumulators, rest) := stripes (prime1 + prime2) prime2 0 (0 - prime1) whole
      (lanes accumulators, rest)
    else (prime5, whole)
  let hash := rest.foldl absorbWord (hash + UInt64.ofNat data.length)
  avalanche (absorbTail hash (data.drop (8 * (data.length / 8))))

/-- The two checksum functions of the format versions. -/
structure Checksums where
  bytes : List UInt8 → UInt64
  bytesFast : List UInt8 → UInt64

def checksums : Checksums := ⟨checksumBytes, checksumBytesFast⟩

def Checksums.forVersion (checksums : Checksums) (version : UInt32) (data : List UInt8) : UInt64 :=
  if version = 3 then checksums.bytesFast data else checksums.bytes data

end Gambit
