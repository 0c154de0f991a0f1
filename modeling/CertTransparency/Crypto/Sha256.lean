/-
  CertTransparency.Crypto.Sha256 — SHA-256 (FIPS 180-4) as Go's `crypto/sha256`
  computes it, and the slice of the `hash.Hash` interface that `fixchain` uses.

  `fixchain` only ever calls `sha256.New()`, `Write` and `Sum`.  The one thing
  to keep in mind is that `Sum(b)` does NOT hash `b`: it APPENDS the digest of
  everything written so far to `b` and returns the longer slice.  `Hasher.sum`
  below says exactly that, and `Fixchain.Hash` builds `hash`/`hashChain` on it.

  The digest is checked by evaluation against the two FIPS 180-4 test vectors
  for the empty message and for the 56-byte two-block message, and `sha256_length` (every digest is 32 bytes) is proved once
  from the shape of the compression function.
-/
import Mathlib.Data.List.Basic

namespace CertTransparency.Crypto

/-! ## §1. Constants. -/

/-- The round constants `K₀ … K₆₃`. -/
def roundConstants : List UInt32 := [
  0x428a2f98, 0x71374491, 0xb5c0fbcf, 0xe9b5dba5, 0x3956c25b, 0x59f111f1, 0x923f82a4, 0xab1c5ed5,
  0xd807aa98, 0x12835b01, 0x243185be, 0x550c7dc3, 0x72be5d74, 0x80deb1fe, 0x9bdc06a7, 0xc19bf174,
  0xe49b69c1, 0xefbe4786, 0x0fc19dc6, 0x240ca1cc, 0x2de92c6f, 0x4a7484aa, 0x5cb0a9dc, 0x76f988da,
  0x983e5152, 0xa831c66d, 0xb00327c8, 0xbf597fc7, 0xc6e00bf3, 0xd5a79147, 0x06ca6351, 0x14292967,
  0x27b70a85, 0x2e1b2138, 0x4d2c6dfc, 0x53380d13, 0x650a7354, 0x766a0abb, 0x81c2c92e, 0x92722c85,
  0xa2bfe8a1, 0xa81a664b, 0xc24b8b70, 0xc76c51a3, 0xd192e819, 0xd6990624, 0xf40e3585, 0x106aa070,
  0x19a4c116, 0x1e376c08, 0x2748774c, 0x34b0bcb5, 0x391c0cb3, 0x4ed8aa4a, 0x5b9cca4f, 0x682e6ff3,
  0x748f82ee, 0x78a5636f, 0x84c87814, 0x8cc70208, 0x90befffa, 0xa4506ceb, 0xbef9a3f7, 0xc67178f2]

/-- The initial hash value `H⁽⁰⁾`. -/
def initialHash : List UInt32 :=
  [0x6a09e667, 0xbb67ae85, 0x3c6ef372, 0xa54ff53a, 0x510e527f, 0x9b05688c, 0x1f83d9ab, 0x5be0cd19]

/-! ## §2. One 64-byte block. -/

/-- Rotate right by `n < 32`. -/
def rotr (x n : UInt32) : UInt32 := (x >>> n) ||| (x <<< (32 - n))

/-- The big-endian 32-bit words of a block. -/
def blockWords : List UInt8 → List UInt32
  | a :: b :: c :: d :: rest =>
    ((a.toUInt32 <<< 24) ||| (b.toUInt32 <<< 16) ||| (c.toUInt32 <<< 8) ||| d.toUInt32) ::
      blockWords rest
  | _ => []

/-- The message schedule: the block's 16 words extended `n` times by `σ₀`/`σ₁`. -/
def schedule (w : List UInt32) : Nat → List UInt32
  | 0 => w
  | n + 1 =>
    let w := schedule w n
    let i := w.length
    let w15 := w.getD (i - 15) 0
    let w2 := w.getD (i - 2) 0
    let s0 := rotr w15 7 ^^^ rotr w15 18 ^^^ (w15 >>> 3)
    let s1 := rotr w2 17 ^^^ rotr w2 19 ^^^ (w2 >>> 10)
    w ++ [w.getD (i - 16) 0 + s0 + w.getD (i - 7) 0 + s1]

/-- One compression round on the working variables `a … h`, with `(Kₜ, Wₜ)`. -/
def round (st : List UInt32) (kw : UInt32 × UInt32) : List UInt32 :=
  match st with
  | [a, b, c, d, e, f, g, h] =>
    let t1 := h + (rotr e 6 ^^^ rotr e 11 ^^^ rotr e 25) + ((e &&& f) ^^^ (~~~e &&& g)) + kw.1 + kw.2
    let t2 := (rotr a 2 ^^^ rotr a 13 ^^^ rotr a 22) + ((a &&& b) ^^^ (a &&& c) ^^^ (b &&& c))
    [t1 + t2, a, b, c, d + t1, e, f, g]
  | st => st

/-- Fold one block into the intermediate hash value. -/
def compress (h : List UInt32) (block : List UInt8) : List UInt32 :=
  List.zipWith (· + ·) h ((roundConstants.zip (schedule (blockWords block) 48)).foldl round h)

/-! ## §3. Padding and the digest. -/

/-- `m ‖ 0x80 ‖ 0…0 ‖ bitlen(m)` (64-bit big-endian), a multiple of 64 bytes. -/
def pad (m : List UInt8) : List UInt8 :=
  let lenBytes : List UInt8 := (List.range 8).reverse.map fun i => UInt8.ofNat ((m.length * 8) >>> (8 * i))
  m ++ [(0x80 : UInt8)] ++ List.replicate ((119 - m.length % 64) % 64) (0 : UInt8) ++ lenBytes

/-- The 64-byte blocks of a padded message (`fuel` bounds the number of blocks). -/
def blocks : Nat → List UInt8 → List (List UInt8)
  | 0, _ => []
  | fuel + 1, l => if l.isEmpty then [] else l.take 64 :: blocks fuel (l.drop 64)

/-- The big-endian bytes of the final hash value. -/
def wordsBytes : List UInt32 → List UInt8
  | [] => []
  | x :: xs => (x >>> 24).toUInt8 :: (x >>> 16).toUInt8 :: (x >>> 8).toUInt8 :: x.toUInt8 :: wordsBytes xs

/-- **SHA-256** of a byte string. -/
def sha256 (m : List UInt8) : List UInt8 :=
  wordsBytes ((blocks (pad m).length (pad m)).foldl compress initialHash)

set_option maxRecDepth 100000 in
/-- FIPS 180-4: `SHA-256("") = e3b0c442 98fc1c14 9afbf4c8 996fb924 27ae41e4 649b934c a495991b 7852b855`.
Rewriting with it lets later evaluations hash literal byte lists only. -/
theorem sha256_nil : sha256 [] = [0xe3, 0xb0, 0xc4, 0x42, 0x98, 0xfc, 0x1c, 0x14, 0x9a, 0xfb, 0xf4, 0xc8,
    0x99, 0x6f, 0xb9, 0x24, 0x27, 0xae, 0x41, 0xe4, 0x64, 0x9b, 0x93, 0x4c, 0xa4, 0x95, 0x99, 0x1b,
    0x78, 0x52, 0xb8, 0x55] := by decide

set_option maxRecDepth 100000 in
/-- FIPS 180-4, the two-block example: `SHA-256("abcdbcdecdefdefgefghfghighijhijkijkljklmklmnlmnomnopnopq")
= 248d6a61 d20638b8 e5c02693 0c3e6039 a33ce459 64ff2167 f6ecedd4 19db06c1`.  Its 56 bytes fill
the first block past the length field, so this also checks `pad`'s second block and the
high bytes of the bit length. -/
theorem sha256_abc448 :
    sha256 [0x61, 0x62, 0x63, 0x64, 0x62, 0x63, 0x64, 0x65, 0x63, 0x64, 0x65, 0x66, 0x64, 0x65,
      0x66, 0x67, 0x65, 0x66, 0x67, 0x68, 0x66, 0x67, 0x68, 0x69, 0x67, 0x68, 0x69, 0x6a, 0x68,
      0x69, 0x6a, 0x6b, 0x69, 0x6a, 0x6b, 0x6c, 0x6a, 0x6b, 0x6c, 0x6d, 0x6b, 0x6c, 0x6d, 0x6e,
      0x6c, 0x6d, 0x6e, 0x6f, 0x6d, 0x6e, 0x6f, 0x70, 0x6e, 0x6f, 0x70, 0x71] =
    [0x24, 0x8d, 0x6a, 0x61, 0xd2, 0x06, 0x38, 0xb8, 0xe5, 0xc0, 0x26, 0x93, 0x0c, 0x3e, 0x60, 0x39,
      0xa3, 0x3c, 0xe4, 0x59, 0x64, 0xff, 0x21, 0x67, 0xf6, 0xec, 0xed, 0xd4, 0x19, 0xdb, 0x06, 0xc1] := by
  decide

/-! ## §4. Every digest is 32 bytes. -/

theorem round_length (st : List UInt32) (kw : UInt32 × UInt32) :
    (round st kw).length = st.length := by
  unfold round; split <;> rfl

theorem compress_length (h : List UInt32) (block : List UInt8) :
    (compress h block).length = h.length := by
  have hfold : ∀ (l : List (UInt32 × UInt32)) (st : List UInt32),
      (l.foldl round st).length = st.length := by
    intro l; induction l with
    | nil => intro st; rfl
    | cons kw l ih => intro st; rw [List.foldl_cons, ih, round_length]
  simp [compress, List.length_zipWith, hfold]

theorem foldl_compress_length (bs : List (List UInt8)) (h : List UInt32) :
    (bs.foldl compress h).length = h.length := by
  induction bs generalizing h with
  | nil => rfl
  | cons b bs ih => rw [List.foldl_cons, ih, compress_length]

theorem wordsBytes_length (ws : List UInt32) : (wordsBytes ws).length = 4 * ws.length := by
  induction ws with
  | nil => rfl
  | cons w ws ih => simp only [wordsBytes, List.length_cons, ih]; omega

@[simp] theorem sha256_length (m : List UInt8) : (sha256 m).length = 32 := by
  rw [sha256, wordsBytes_length, foldl_compress_length]; rfl

/-! ## §5. The `hash.Hash` interface. -/

/-- A `hash.Hash` from `sha256.New()`, as the bytes written to it so far. -/
structure Hasher where
  written : List UInt8
  deriving DecidableEq, Repr

/-- `sha256.New()`. -/
def newHash : Hasher := ⟨[]⟩

/-- `h.Write(p)`. -/
def Hasher.write (h : Hasher) (p : List UInt8) : Hasher := ⟨h.written ++ p⟩

/-- `h.Sum(b)`: appends the digest of what was written to `b`. -/
def Hasher.sum (h : Hasher) (b : List UInt8) : List UInt8 := b ++ sha256 h.written

@[simp] theorem newHash_written : newHash.written = [] := rfl

@[simp] theorem Hasher.write_written (h : Hasher) (p : List UInt8) :
    (h.write p).written = h.written ++ p := rfl

@[simp] theorem Hasher.sum_eq (h : Hasher) (b : List UInt8) : h.sum b = b ++ sha256 h.written := rfl

end CertTransparency.Crypto
