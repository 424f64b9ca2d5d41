/-!
# The XXH3 hash

The 64-bit XXH3 hash of a byte string, with the standard secret and seed zero. Inputs of up to 16,
128 and 240 bytes have formulas of their own; longer ones are folded stripe by stripe into eight
lanes.
-/

namespace StreamSql.Xxh3

/-- The standard secret. -/
def secret : Array UInt8 := #[
  0xb8, 0xfe, 0x6c, 0x39, 0x23, 0xa4, 0x4b, 0xbe, 0x7c, 0x01, 0x81, 0x2c, 0xf7, 0x21, 0xad, 0x1c,
  0xde, 0xd4, 0x6d, 0xe9, 0x83, 0x90, 0x97, 0xdb, 0x72, 0x40, 0xa4, 0xa4, 0xb7, 0xb3, 0x67, 0x1f,
  0xcb, 0x79, 0xe6, 0x4e, 0xcc, 0xc0, 0xe5, 0x78, 0x82, 0x5a, 0xd0, 0x7d, 0xcc, 0xff, 0x72, 0x21,
  0xb8, 0x08, 0x46, 0x74, 0xf7, 0x43, 0x24, 0x8e, 0xe0, 0x35, 0x90, 0xe6, 0x81, 0x3a, 0x26, 0x4c,
  0x3c, 0x28, 0x52, 0xbb, 0x91, 0xc3, 0x00, 0xcb, 0x88, 0xd0, 0x65, 0x8b, 0x1b, 0x53, 0x2e, 0xa3,
  0x71, 0x64, 0x48, 0x97, 0xa2, 0x0d, 0xf9, 0x4e, 0x38, 0x19, 0xef, 0x46, 0xa9, 0xde, 0xac, 0xd8,
  0xa8, 0xfa, 0x76, 0x3f, 0xe3, 0x9c, 0x34, 0x3f, 0xf9, 0xdc, 0xbb, 0xc7, 0xc7, 0x0b, 0x4f, 0x1d,
  0x8a, 0x51, 0xe0, 0x4b, 0xcd, 0xb4, 0x59, 0x31, 0xc8, 0x9f, 0x7e, 0xc9, 0xd9, 0x78, 0x73, 0x64,
  0xea, 0xc5, 0xac, 0x83, 0x34, 0xd3, 0xeb, 0xc3, 0xc5, 0x81, 0xa0, 0xff, 0xfa, 0x13, 0x63, 0xeb,
  0x17, 0x0d, 0xdd, 0x51, 0xb7, 0xf0, 0xda, 0x49, 0xd3, 0x16, 0x55, 0x26, 0x29, 0xd4, 0x68, 0x9e,
  0x2b, 0x16, 0xbe, 0x58, 0x7d, 0x47, 0xa1, 0xfc, 0x8f, 0xf8, 0xb8, 0xd1, 0x7a, 0xd0, 0x31, 0xce,
  0x45, 0xcb, 0x3a, 0x8f, 0x95, 0x16, 0x04, 0x28, 0xaf, 0xd7, 0xfb, 0xca, 0xbb, 0x4b, 0x40, 0x7e]

def prime32_1 : UInt64 := 0x9e3779b1
def prime32_2 : UInt64 := 0x85ebca77
def prime32_3 : UInt64 := 0xc2b2ae3d
def prime64_1 : UInt64 := 0x9e3779b185ebca87
def prime64_2 : UInt64 := 0xc2b2ae3d27d4eb4f
def prime64_3 : UInt64 := 0x165667b19e3779f9
def prime64_4 : UInt64 := 0x85ebca77c2b2ae63
def prime64_5 : UInt64 := 0x27d4eb2f165667c5

/-! ## Words -/

/-- The number in `count` bytes from `start`, the lowest byte first. Past the end all is zero. -/
def read (bytes : Array UInt8) (start count : Nat) : UInt64 :=
  (List.range count).foldr (fun i high => (bytes.getD (start + i) 0).toUInt64 + (high <<< 8)) 0

def read32 (bytes : Array UInt8) (start : Nat) : UInt64 := read bytes start 4

def read64 (bytes : Array UInt8) (start : Nat) : UInt64 := read bytes start 8

def rotateLeft (n count : UInt64) : UInt64 := (n <<< count) ||| (n >>> (64 - count))

/-- The bytes of a word in opposite order. -/
def swapBytes (n : UInt64) : UInt64 :=
  (List.range 8).foldl (fun out i => (out <<< 8) ||| ((n >>> (8 * i).toUInt64) &&& 0xff)) 0

/-- The exclusive or of both halves of a 128-bit product. -/
def foldedProduct (a b : UInt64) : UInt64 :=
  let product := a.toNat * b.toNat
  .ofNat (product % UInt64.size) ^^^ .ofNat (product / UInt64.size)

/-! ## Final mixing -/

def avalanche (h : UInt64) : UInt64 :=
  let h := (h ^^^ (h >>> 37)) * 0x165667919e3779f9
  h ^^^ (h >>> 32)

/-- The mixing of inputs of at most three bytes. -/
def avalancheShort (h : UInt64) : UInt64 :=
  let h := (h ^^^ (h >>> 33)) * prime64_2
  let h := (h ^^^ (h >>> 29)) * prime64_3
  h ^^^ (h >>> 32)

/-- The mixing of inputs of four to eight bytes. -/
def avalancheWord (h length : UInt64) : UInt64 :=
  let h := (h ^^^ rotateLeft h 49 ^^^ rotateLeft h 24) * 0x9fb21c651e98df25
  let h := (h ^^^ ((h >>> 35) + length)) * 0x9fb21c651e98df25
  h ^^^ (h >>> 28)

/-! ## Inputs of up to 240 bytes -/

/-- Mixes the 16 bytes of the input from `offset` with the secret from `key`. -/
def mix16 (bytes : Array UInt8) (offset key : Nat) : UInt64 :=
  foldedProduct (read64 bytes offset ^^^ read64 secret key)
    (read64 bytes (offset + 8) ^^^ read64 secret (key + 8))

/-- At most 16 bytes. -/
def hashShort (bytes : Array UInt8) : UInt64 :=
  let n := bytes.size
  let length := n.toUInt64
  if n > 8 then
    let low := read64 bytes 0 ^^^ read64 secret 24 ^^^ read64 secret 32
    let high := read64 bytes (n - 8) ^^^ read64 secret 40 ^^^ read64 secret 48
    avalanche (length + swapBytes low + high + foldedProduct low high)
  else if n ≥ 4 then
    let input := read32 bytes (n - 4) + (read32 bytes 0 <<< 32)
    avalancheWord (input ^^^ read64 secret 8 ^^^ read64 secret 16) length
  else if n > 0 then
    let first := read bytes 0 1
    let middle := read bytes (n / 2) 1
    let last := read bytes (n - 1) 1
    let combined := (first <<< 16) ||| (middle <<< 24) ||| last ||| (length <<< 8)
    avalancheShort (combined ^^^ read32 secret 0 ^^^ read32 secret 4)
  else avalancheShort (read64 secret 56 ^^^ read64 secret 64)

/-- 17 to 128 bytes: up to four pairs of 16 bytes, taken from both ends. -/
def hashMedium (bytes : Array UInt8) : UInt64 :=
  let n := bytes.size
  let pairs := (n - 1) / 32 + 1
  avalanche <| (List.range pairs).foldl (fun sum i =>
    sum + mix16 bytes (16 * i) (32 * i) + mix16 bytes (n - 16 * (i + 1)) (32 * i + 16))
    (n.toUInt64 * prime64_1)

/-- 129 to 240 bytes: every 16 bytes in turn, with a mixing after the first eight. -/
def hashUpper (bytes : Array UInt8) : UInt64 :=
  let n := bytes.size
  let start := (List.range 8).foldl (fun sum i => sum + mix16 bytes (16 * i) (16 * i))
    (n.toUInt64 * prime64_1)
  let rest := (List.range (n / 16 - 8)).foldl (fun sum i =>
    sum + mix16 bytes (16 * (i + 8)) (16 * i + 3)) (avalanche start)
  avalanche (rest + mix16 bytes (n - 16) 119)

/-! ## Longer inputs -/

/-- The eight lanes that stripes are folded into. -/
abbrev Lanes := Array UInt64

def startLanes : Lanes :=
  #[prime32_3, prime64_1, prime64_2, prime64_3, prime64_4, prime32_2, prime64_5, prime32_1]

/-- The lane that the plain word of lane `i` is added to. -/
def partner (i : Nat) : Nat := if i % 2 = 0 then i + 1 else i - 1

/-- Folds in the stripe of 64 bytes at `offset`, with the secret from `key`. -/
def accumulate (bytes : Array UInt8) (offset key : Nat) (lanes : Lanes) : Lanes :=
  (Array.range 8).map fun i =>
    let word := read64 bytes (offset + 8 * i) ^^^ read64 secret (key + 8 * i)
    let product := (word &&& (0xffffffff : UInt64)) * (word >>> (32 : UInt64))
    lanes.getD i 0 + read64 bytes (offset + 8 * partner i) + product

/-- Folds in `count` stripes from `offset`. -/
def accumulateStripes (bytes : Array UInt8) (offset count : Nat) (lanes : Lanes) : Lanes :=
  (List.range count).foldl (fun lanes i => accumulate bytes (offset + 64 * i) (8 * i) lanes) lanes

def scramble (lanes : Lanes) : Lanes :=
  (Array.range 8).map fun i =>
    let lane := lanes.getD i 0
    (lane ^^^ (lane >>> 47) ^^^ read64 secret (128 + 8 * i)) * prime32_1

/-- The lanes reduced to one word. -/
def merge (lanes : Lanes) (start : UInt64) : UInt64 :=
  avalanche <| (List.range 4).foldl (fun sum i =>
    sum + foldedProduct (lanes.getD (2 * i) 0 ^^^ read64 secret (11 + 16 * i))
      (lanes.getD (2 * i + 1) 0 ^^^ read64 secret (19 + 16 * i))) start

/-- More than 240 bytes: blocks of 16 stripes, the stripes left over, then the last 64 bytes. -/
def hashLong (bytes : Array UInt8) : UInt64 :=
  let n := bytes.size
  let blocks := (n - 1) / 1024
  let lanes := (List.range blocks).foldl
    (fun lanes i => scramble (accumulateStripes bytes (1024 * i) 16 lanes)) startLanes
  let lanes := accumulateStripes bytes (1024 * blocks) ((n - 1 - 1024 * blocks) / 64) lanes
  merge (accumulate bytes (n - 64) 121 lanes) (n.toUInt64 * prime64_1)

def hash (bytes : List UInt8) : UInt64 :=
  let bytes := bytes.toArray
  if bytes.size ≤ 16 then hashShort bytes
  else if bytes.size ≤ 128 then hashMedium bytes
  else if bytes.size ≤ 240 then hashUpper bytes
  else hashLong bytes

end StreamSql.Xxh3
