import Kanban.Integrations.S3

/-!
# The digests of a signature

What the signature of a URL takes from other crates, as they document it: SHA-256, HMAC, hexadecimal
digits, and a time stamp in the basic form of ISO 8601.

## Main definitions

* `sha256`, `hmacSha256` — the digests.
* `formatIso8601` — a time stamp.
* `documentedCrypto` — the functions together.
-/

namespace Kanban.Integrations

open Kanban.Services (asBytes)

namespace Digest

/-! ## Bytes -/

/-- A number as `n` bytes, the highest first. -/
def toBytes : ℕ → ℕ → List UInt8
  | 0, _ => []
  | n + 1, v => UInt8.ofNat (v / 256 ^ n) :: toBytes n v

/-- The number that the bytes spell. -/
def ofBytes (bytes : List UInt8) : ℕ := bytes.foldl (fun v b => 256 * v + b.toNat) 0

/-- The bytes in `count` blocks of `size`. -/
def blocks (size : ℕ) : ℕ → List UInt8 → List (List UInt8)
  | 0, _ => []
  | count + 1, bytes => bytes.take size :: blocks size count (bytes.drop size)

def hexDigit (n : ℕ) : Char := if n < 10 then Char.ofNat (48 + n) else Char.ofNat (87 + n)

def hexEncode (bytes : List UInt8) : String :=
  String.ofList (bytes.flatMap fun b => [hexDigit (b.toNat / 16), hexDigit (b.toNat % 16)])

/-! ## SHA-256 -/

/-- The constants of the rounds. -/
def roundConstants : List (BitVec 32) :=
  [0x428a2f98, 0x71374491, 0xb5c0fbcf, 0xe9b5dba5, 0x3956c25b, 0x59f111f1, 0x923f82a4, 0xab1c5ed5,
    0xd807aa98, 0x12835b01, 0x243185be, 0x550c7dc3, 0x72be5d74, 0x80deb1fe, 0x9bdc06a7, 0xc19bf174,
    0xe49b69c1, 0xefbe4786, 0x0fc19dc6, 0x240ca1cc, 0x2de92c6f, 0x4a7484aa, 0x5cb0a9dc, 0x76f988da,
    0x983e5152, 0xa831c66d, 0xb00327c8, 0xbf597fc7, 0xc6e00bf3, 0xd5a79147, 0x06ca6351, 0x14292967,
    0x27b70a85, 0x2e1b2138, 0x4d2c6dfc, 0x53380d13, 0x650a7354, 0x766a0abb, 0x81c2c92e, 0x92722c85,
    0xa2bfe8a1, 0xa81a664b, 0xc24b8b70, 0xc76c51a3, 0xd192e819, 0xd6990624, 0xf40e3585, 0x106aa070,
    0x19a4c116, 0x1e376c08, 0x2748774c, 0x34b0bcb5, 0x391c0cb3, 0x4ed8aa4a, 0x5b9cca4f, 0x682e6ff3,
    0x748f82ee, 0x78a5636f, 0x84c87814, 0x8cc70208, 0x90befffa, 0xa4506ceb, 0xbef9a3f7, 0xc67178f2]

/-- The eight words of the state. -/
structure State where
  a : BitVec 32
  b : BitVec 32
  c : BitVec 32
  d : BitVec 32
  e : BitVec 32
  f : BitVec 32
  g : BitVec 32
  h : BitVec 32

def State.start : State :=
  ⟨0x6a09e667, 0xbb67ae85, 0x3c6ef372, 0xa54ff53a, 0x510e527f, 0x9b05688c, 0x1f83d9ab, 0x5be0cd19⟩

/-- The next word of the schedule; the newest word stands first. -/
def nextWord (ws : List (BitVec 32)) : BitVec 32 :=
  let x := ws.getD 1 0
  let y := ws.getD 14 0
  (x.rotateRight 17 ^^^ x.rotateRight 19 ^^^ x >>> 10) + ws.getD 6 0 +
    (y.rotateRight 7 ^^^ y.rotateRight 18 ^^^ y >>> 3) + ws.getD 15 0

/-- The words of a block, sixteen of its own and forty-eight more. -/
def schedule (block : List UInt8) : List (BitVec 32) :=
  let words := (blocks 4 16 block).map fun bytes => BitVec.ofNat 32 (ofBytes bytes)
  ((fun ws => nextWord ws :: ws)^[48] words.reverse).reverse

def State.round (s : State) (k w : BitVec 32) : State :=
  let t₁ := s.h + (s.e.rotateRight 6 ^^^ s.e.rotateRight 11 ^^^ s.e.rotateRight 25) +
    (s.e &&& s.f ^^^ ~~~s.e &&& s.g) + k + w
  let t₂ := (s.a.rotateRight 2 ^^^ s.a.rotateRight 13 ^^^ s.a.rotateRight 22) +
    (s.a &&& s.b ^^^ s.a &&& s.c ^^^ s.b &&& s.c)
  ⟨t₁ + t₂, s.a, s.b, s.c, s.d + t₁, s.e, s.f, s.g⟩

def State.compress (s : State) (block : List UInt8) : State :=
  let t := (roundConstants.zip (schedule block)).foldl (fun t (k, w) => t.round k w) s
  ⟨s.a + t.a, s.b + t.b, s.c + t.c, s.d + t.d, s.e + t.e, s.f + t.f, s.g + t.g, s.h + t.h⟩

/-- The message with its padding: a one, zeros, and the number of its bits. -/
def padded (message : List UInt8) : List UInt8 :=
  message ++ 0x80 :: List.replicate ((119 - message.length % 64) % 64) 0 ++
    toBytes 8 (8 * message.length)

def sha256 (message : List UInt8) : List UInt8 :=
  let bytes := padded message
  let s := (blocks 64 (bytes.length / 64) bytes).foldl State.compress State.start
  [s.a, s.b, s.c, s.d, s.e, s.f, s.g, s.h].flatMap fun word => toBytes 4 word.toNat

example : hexEncode (sha256 (asBytes "abc")) =
    "ba7816bf8f01cfea414140de5dae2223b00361a396177a9cb410ff61f20015ad" := by decide +kernel

/-- A key longer than a block is replaced by its digest. -/
def hmacSha256 (key message : List UInt8) : List UInt8 :=
  let key := if 64 < key.length then sha256 key else key
  let key := key ++ List.replicate (64 - key.length) 0
  sha256 (key.map (0x5c ^^^ ·) ++ sha256 (key.map (0x36 ^^^ ·) ++ message))

/-! ## Time stamps -/

/-- The year, the month and the day of a day after 1 January 1970; the years begin in March. -/
def civil (days : ℕ) : ℕ × ℕ × ℕ :=
  let day := (days + 719468) % 146097
  let year := (day - day / 1460 + day / 36524 - day / 146096) / 365
  let day := day - (365 * year + year / 4 - year / 100)
  let month := (5 * day + 2) / 153
  let year := year + 400 * ((days + 719468) / 146097)
  (if month < 10 then year else year + 1, if month < 10 then month + 3 else month - 9,
    day - (153 * month + 2) / 5 + 1)

/-- The number with zeros before it. -/
def zeroPad (width n : ℕ) : String :=
  let digits := Nat.toDigits 10 n
  String.ofList (List.replicate (width - digits.length) '0' ++ digits)

def formatIso8601 (secs : ℕ) : String :=
  let (year, month, day) := civil (secs / 86400)
  zeroPad 4 year ++ zeroPad 2 month ++ zeroPad 2 day ++ "T" ++ zeroPad 2 (secs / 3600 % 24) ++
    zeroPad 2 (secs / 60 % 60) ++ zeroPad 2 (secs % 60) ++ "Z"

example : formatIso8601 1704110400 = "20240101T120000Z" := by decide +kernel

end Digest

/-- The functions of the other crates. -/
def documentedCrypto : Crypto :=
  ⟨Digest.sha256, Digest.hmacSha256, Digest.hexEncode, Digest.formatIso8601⟩

end Kanban.Integrations
