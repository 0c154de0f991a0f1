/-
  CertTransparency.Fixchain.Hash — the content-addressed keys of fixchain's
  caches, `hash` (one certificate) and `hashChain` (a chain, in order), as
  `functions.go` computes them on top of `crypto/sha256`.

  `hash(c)` is `copy(hash[:], newHash().Sum(c.Raw))`.  `Sum` APPENDS the digest
  of the (empty) written stream to `c.Raw`, and `copy` keeps 32 bytes, so the key
  is the first 32 bytes of the DER itself (`hash_eq_raw_take`): certificates that
  agree there share a key (`hash_eq_of_raw_take_eq`).

  `hashChain(ch)` writes `c.Raw ‖ SHA-256("")` for every certificate and hashes
  the concatenation (`hashChain_eq`).  That input decodes uniquely as soon as no
  `Raw` is a proper prefix of another (`chainInput_injective`), so equal chain
  hashes mean equal chains or a SHA-256 collision on the two inputs
  (`raws_eq_or_collision_of_hashChain_eq`).  The condition is needed: a `Raw`
  that ends in `SHA-256("") ‖ B` hashes as two certificates (`hashChain_merge_pair`).
-/
import CertTransparency.Crypto.Sha256

namespace CertTransparency.Fixchain

open CertTransparency.Crypto

/-! ## §1. Certificates and 32-byte keys. -/

/-- `hashSize = sha256.Size`. -/
def hashSize : Nat := 32

/-- An `*x509.Certificate`, as the hashes and the Logger read it: its DER bytes `Raw`. -/
structure Certificate where
  raw : List UInt8
  deriving DecidableEq, Repr

/-- A `[hashSize]byte` key. -/
structure Digest where
  bytes : List UInt8
  length_eq : bytes.length = hashSize
  deriving DecidableEq

/-- `copy(d[:], src)` into a zeroed `[hashSize]byte`: the first `hashSize` bytes of `src`. -/
def Digest.copy (src : List UInt8) : Digest :=
  ⟨src.take hashSize ++ List.replicate (hashSize - src.length) 0, by
    simp only [List.length_append, List.length_take, List.length_replicate]; omega⟩

theorem Digest.copy_bytes_of_le {src : List UInt8} (h : hashSize ≤ src.length) :
    (Digest.copy src).bytes = src.take hashSize := by
  simp [Digest.copy, Nat.sub_eq_zero_of_le h]

theorem Digest.copy_injective {a b : List UInt8} (ha : a.length = hashSize)
    (hb : b.length = hashSize) (h : Digest.copy a = Digest.copy b) : a = b := by
  have := congrArg Digest.bytes h
  rwa [Digest.copy_bytes_of_le ha.ge, Digest.copy_bytes_of_le hb.ge, List.take_of_length_le ha.le,
    List.take_of_length_le hb.le] at this

/-! ## §2. `hash`. -/

/-- `hash(c)`: `copy(hash[:], newHash().Sum(c.Raw))`. -/
def hash (c : Certificate) : Digest := Digest.copy (newHash.sum c.raw)

/-- The key of a certificate of at least 32 bytes is its first 32 bytes. -/
theorem hash_eq_raw_take (c : Certificate) (h : hashSize ≤ c.raw.length) :
    (hash c).bytes = c.raw.take hashSize := by
  rw [hash, Digest.copy_bytes_of_le (by simp; omega)]
  simp [List.take_append_of_le_length h]

/-- Two certificates that agree on their first 32 bytes have the same key. -/
theorem hash_eq_of_raw_take_eq {c₁ c₂ : Certificate} (h₁ : hashSize ≤ c₁.raw.length)
    (h₂ : hashSize ≤ c₂.raw.length) (h : c₁.raw.take hashSize = c₂.raw.take hashSize) :
    hash c₁ = hash c₂ := by
  have := (hash_eq_raw_take c₁ h₁).trans (h.trans (hash_eq_raw_take c₂ h₂).symm)
  cases hc₁ : hash c₁; cases hc₂ : hash c₂
  simp_all

/-- A DER prefix two certificates of one issuer can share: the outer and TBS
`SEQUENCE` headers, version 3, serial number `01`, `sha256WithRSAEncryption`. -/
def sharedDerPrefix : List UInt8 :=
  [0x30, 0x82, 0x01, 0x0a, 0x30, 0x81, 0xf1, 0xa0, 0x03, 0x02, 0x01, 0x02, 0x02, 0x01, 0x01, 0x30,
   0x0d, 0x06, 0x09, 0x2a, 0x86, 0x48, 0x86, 0xf7, 0x0d, 0x01, 0x01, 0x0b, 0x05, 0x00, 0x30, 0x12]

/-- Two certificates that differ only after their first 32 DER bytes. -/
def prefixTwinA : Certificate := ⟨sharedDerPrefix ++ [0x31, 0x10]⟩

/-- The twin of `prefixTwinA`. -/
def prefixTwinB : Certificate := ⟨sharedDerPrefix ++ [0x31, 0x11]⟩

set_option maxRecDepth 100000 in
/-- SHA-256 of `prefixTwinA`'s 34 DER bytes: `7d412020 38142e5d 586cace8 9ef71d81
ebf612ab 0ec60097 8f3fa13c 48209700`. -/
theorem sha256_prefixTwinA : sha256 prefixTwinA.raw =
    [0x7d, 0x41, 0x20, 0x20, 0x38, 0x14, 0x2e, 0x5d, 0x58, 0x6c, 0xac, 0xe8, 0x9e, 0xf7, 0x1d, 0x81,
      0xeb, 0xf6, 0x12, 0xab, 0x0e, 0xc6, 0x00, 0x97, 0x8f, 0x3f, 0xa1, 0x3c, 0x48, 0x20, 0x97, 0x00] := by
  decide

set_option maxRecDepth 100000 in
/-- SHA-256 of `prefixTwinB`'s 34 DER bytes: `db5d35ea bd0b4223 da04f378 3ce0b2d9
4ef39fe2 0b674ca2 85c6b675 cb2a9063`. -/
theorem sha256_prefixTwinB : sha256 prefixTwinB.raw =
    [0xdb, 0x5d, 0x35, 0xea, 0xbd, 0x0b, 0x42, 0x23, 0xda, 0x04, 0xf3, 0x78, 0x3c, 0xe0, 0xb2, 0xd9,
      0x4e, 0xf3, 0x9f, 0xe2, 0x0b, 0x67, 0x4c, 0xa2, 0x85, 0xc6, 0xb6, 0x75, 0xcb, 0x2a, 0x90, 0x63] := by
  decide

/-- `hash` merges the twins although their DER encodings, and their SHA-256
digests, differ. -/
theorem hash_merges_prefix_twins :
    hash prefixTwinA = hash prefixTwinB ∧ prefixTwinA.raw ≠ prefixTwinB.raw ∧
      sha256 prefixTwinA.raw ≠ sha256 prefixTwinB.raw :=
  ⟨hash_eq_of_raw_take_eq (by decide) (by decide) (by decide), by decide,
    by rw [sha256_prefixTwinA, sha256_prefixTwinB]; decide⟩

/-! ## §3. `hashChain`. -/

/-- One pass of `hashChain`'s loop: `h.Write(newHash().Sum(c.Raw))`. -/
def writeCert (h : Hasher) (c : Certificate) : Hasher := h.write (newHash.sum c.raw)

/-- `hashChain(ch)`: write `newHash().Sum(c.Raw)` for every `c`, then `Sum(nil)`. -/
def hashChain (ch : List Certificate) : Digest :=
  Digest.copy ((ch.foldl writeCert newHash).sum [])

/-- The bytes `hashChain` hashes: every `Raw` followed by `SHA-256("")`. -/
def chainInput (ch : List Certificate) : List UInt8 :=
  (ch.map fun c => c.raw ++ sha256 []).flatten

@[simp] theorem chainInput_nil : chainInput [] = [] := rfl

@[simp] theorem chainInput_cons (c : Certificate) (ch : List Certificate) :
    chainInput (c :: ch) = c.raw ++ (sha256 [] ++ chainInput ch) := by
  simp [chainInput]

theorem foldl_writeCert_written (ch : List Certificate) (h : Hasher) :
    (ch.foldl writeCert h).written = h.written ++ chainInput ch := by
  induction ch generalizing h with
  | nil => simp
  | cons c ch ih => simp [ih, writeCert]

theorem hashChain_eq (ch : List Certificate) : hashChain ch = Digest.copy (sha256 (chainInput ch)) := by
  simp [hashChain, foldl_writeCert_written]

/-- Equal chain hashes mean equal SHA-256 digests of the two inputs. -/
theorem sha256_eq_of_hashChain_eq {ch₁ ch₂ : List Certificate} (h : hashChain ch₁ = hashChain ch₂) :
    sha256 (chainInput ch₁) = sha256 (chainInput ch₂) := by
  rw [hashChain_eq, hashChain_eq] at h
  exact Digest.copy_injective (sha256_length _) (sha256_length _) h

/-- Without prefix-freeness two chains share an input: a `Raw` that ends in another's
`Raw ‖ SHA-256("")` hashes as that certificate followed by the rest. -/
theorem hashChain_merge_pair (a b : Certificate) :
    hashChain [⟨a.raw ++ sha256 [] ++ b.raw⟩] = hashChain [a, b] := by
  simp [hashChain_eq]

/-! ## §4. Unique decoding of the `hashChain` input. -/

/-- No byte string of the list is a proper prefix of another (true of complete DER encodings). -/
def PrefixFree (rs : List (List UInt8)) : Prop := ∀ a ∈ rs, ∀ b ∈ rs, a <+: b → a = b

instance : DecidablePred PrefixFree :=
  fun rs => inferInstanceAs (Decidable (∀ a ∈ rs, ∀ b ∈ rs, a <+: b → a = b))

theorem PrefixFree.mono {rs qs : List (List UInt8)} (h : PrefixFree rs) (hsub : ∀ a ∈ qs, a ∈ rs) :
    PrefixFree qs :=
  fun a ha b hb hab => h a (hsub a ha) b (hsub b hb) hab

/-- Cancelling two heads of which neither is a proper prefix of the other. -/
theorem append_cancel_of_prefix {x y s t : List UInt8} (hxy : x <+: y → x = y)
    (hyx : y <+: x → y = x) (h : x ++ s = y ++ t) : x = y ∧ s = t := by
  obtain ⟨a, rfl, hs⟩ | ⟨c, rfl, ht⟩ := List.append_eq_append_iff.1 h
  · have ha : a = [] := by simpa using hxy (List.prefix_append x a)
    subst ha; simpa using hs
  · have hc : c = [] := by simpa using hyx (List.prefix_append y c)
    subst hc; simpa using ht.symm

theorem chainInput_ne_nil {c : Certificate} {ch : List Certificate} : chainInput (c :: ch) ≠ [] := by
  simp [← List.length_pos]

/-- **Unique decoding**: over prefix-free `Raw`s, `chainInput` is injective. -/
theorem chainInput_injective : ∀ {ch₁ ch₂ : List Certificate},
    PrefixFree ((ch₁ ++ ch₂).map Certificate.raw) → chainInput ch₁ = chainInput ch₂ → ch₁ = ch₂
  | [], [], _, _ => rfl
  | [], _ :: _, _, h => absurd h.symm chainInput_ne_nil
  | _ :: _, [], _, h => absurd h chainInput_ne_nil
  | c :: ch₁, d :: ch₂, hpf, h => by
    have hmem : ∀ x ∈ [c.raw, d.raw], x ∈ ((c :: ch₁) ++ (d :: ch₂)).map Certificate.raw := by simp
    have hcd := hpf.mono hmem
    obtain ⟨hraw, hrest⟩ := append_cancel_of_prefix (hcd c.raw (by simp) d.raw (by simp))
      (hcd d.raw (by simp) c.raw (by simp)) (by simpa using h)
    have htail := chainInput_injective (hpf.mono fun x hx => by
      simp only [List.map_append, List.map_cons, List.mem_append, List.mem_cons] at hx ⊢; tauto)
      (List.append_cancel_left hrest)
    cases c; cases d; simp_all

/-- Over prefix-free `Raw`s, equal chain hashes mean one `Raw` sequence, or two different
inputs with one SHA-256 digest. -/
theorem raws_eq_or_collision_of_hashChain_eq {ch₁ ch₂ : List Certificate}
    (hpf : PrefixFree ((ch₁ ++ ch₂).map Certificate.raw)) (h : hashChain ch₁ = hashChain ch₂) :
    ch₁.map Certificate.raw = ch₂.map Certificate.raw ∨
      (chainInput ch₁ ≠ chainInput ch₂ ∧ sha256 (chainInput ch₁) = sha256 (chainInput ch₂)) := by
  by_cases hin : chainInput ch₁ = chainInput ch₂
  · exact .inl (congrArg _ (chainInput_injective hpf hin))
  · exact .inr ⟨hin, sha256_eq_of_hashChain_eq h⟩

end CertTransparency.Fixchain
