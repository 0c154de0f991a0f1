/-
  CertTransparency.Fixchain.Bag — `hashBag`: the chain hash of a chain's
  certificates in `bag.Less` order.

  `bag.Less` compares `Raw`s shorter-first, then at the first differing byte.
  It is a strict total order on `Raw` (`bagLess_irrefl`, `bagLess_trans`,
  `bagLess_trichotomy`), and within one length it is `List.Lex` by unsigned
  byte (`lessBytes_iff_lex`).  `sort.Sort` is not stable, so no one algorithm is
  fixed: `SortResult` is every permutation that `b.Less` leaves in order, and
  `HashBag` every key `hashBag` can return.  Since the order is total on `Raw`
  (and a certificate is its `Raw` here) all sort results coincide
  (`sortResult_unique`), which makes `hashBag` a function of the multiset of
  `Raw`s: blind to order, not to multiplicity (`hashBag_order_insensitive`).
-/
import CertTransparency.Fixchain.Hash
import Mathlib.Data.List.Lex
import Mathlib.Data.List.Sort

namespace CertTransparency.Fixchain

open CertTransparency.Crypto

/-! ## §1. `bag.Less`. -/

/-- The byte loop of `bag.Less`, run on two `Raw`s of one length. -/
def lessBytes : List UInt8 → List UInt8 → Bool
  | a :: as, b :: bs => if a < b then true else if a > b then false else lessBytes as bs
  | _, _ => false

/-- `bag.Less` on two certificates: the shorter `Raw` first, then `lessBytes`. -/
def bagLess (ci cj : Certificate) : Bool :=
  if ci.raw.length ≠ cj.raw.length then decide (ci.raw.length < cj.raw.length)
  else lessBytes ci.raw cj.raw

/-- A `bag`: certificates, possibly duplicated, that `sort.Sort` orders by `Less`. -/
structure Bag where
  certs : List Certificate

/-- `b.Less(i, j)`. -/
def Bag.less (b : Bag) (i j : Fin b.certs.length) : Bool := bagLess (b.certs.get i) (b.certs.get j)

theorem lessBytes_cons_iff (x y : UInt8) (xs ys : List UInt8) :
    lessBytes (x :: xs) (y :: ys) = true ↔ x.toNat < y.toNat ∨ (x = y ∧ lessBytes xs ys = true) := by
  have hxy : x = y ↔ x.toNat = y.toNat := ⟨congrArg _, UInt8.toNat.inj⟩
  have hlt : x < y ↔ x.toNat < y.toNat := Iff.rfl
  have hgt : x > y ↔ y.toNat < x.toNat := Iff.rfl
  simp only [lessBytes, hxy]
  by_cases h₁ : x.toNat < y.toNat
  · simp [hlt.2 h₁, h₁]
  · by_cases h₂ : y.toNat < x.toNat
    · have hne : x.toNat ≠ y.toNat := by omega
      simp [mt hlt.1 h₁, hgt.2 h₂, h₁, hne]
    · have heq : x.toNat = y.toNat := by omega
      simp [mt hlt.1 h₁, mt hgt.1 h₂, heq]

@[simp] theorem lessBytes_nil_left (b : List UInt8) : lessBytes [] b = false := rfl

@[simp] theorem lessBytes_nil_right (a : List UInt8) : lessBytes a [] = false := by cases a <;> rfl

theorem lessBytes_irrefl : ∀ a : List UInt8, lessBytes a a = false
  | [] => rfl
  | x :: xs => by
    have := lessBytes_irrefl xs
    cases h : lessBytes (x :: xs) (x :: xs)
    · rfl
    · simp_all [lessBytes_cons_iff]

theorem lessBytes_trans : ∀ {a b c : List UInt8},
    lessBytes a b = true → lessBytes b c = true → lessBytes a c = true
  | x :: xs, y :: ys, z :: zs, hab, hbc => by
    rw [lessBytes_cons_iff] at hab hbc ⊢
    rcases hab with hab | ⟨rfl, hab⟩ <;> rcases hbc with hbc | ⟨rfl, hbc⟩
    · exact .inl (by omega)
    · exact .inl hab
    · exact .inl hbc
    · exact .inr ⟨rfl, lessBytes_trans hab hbc⟩
  | [], _, _, hab, _ | _ :: _, [], _, hab, _ => by simp at hab
  | _ :: _, _ :: _, [], _, hbc => by simp at hbc

theorem lessBytes_total : ∀ {a b : List UInt8}, a.length = b.length → a ≠ b →
    lessBytes a b = true ∨ lessBytes b a = true
  | [], [], _, hne => absurd rfl hne
  | x :: xs, y :: ys, hlen, hne => by
    simp only [lessBytes_cons_iff]
    rcases Nat.lt_trichotomy x.toNat y.toNat with h | h | h
    · exact .inl (.inl h)
    · have hxy : x = y := UInt8.toNat.inj h
      subst hxy
      rcases lessBytes_total (by simpa using hlen) (fun h => hne (by rw [h])) with h' | h'
      · exact .inl (.inr ⟨rfl, h'⟩)
      · exact .inr (.inr ⟨rfl, h'⟩)
    · exact .inr (.inl h)
  | [], _ :: _, hlen, _ | _ :: _, [], hlen, _ => by simp at hlen

theorem bagLess_iff (a b : Certificate) : bagLess a b = true ↔
    a.raw.length < b.raw.length ∨ (a.raw.length = b.raw.length ∧ lessBytes a.raw b.raw = true) := by
  unfold bagLess
  by_cases h : a.raw.length = b.raw.length <;> simp [h]

theorem bagLess_irrefl (a : Certificate) : bagLess a a = false := by
  simp [bagLess, lessBytes_irrefl]

theorem bagLess_trans {a b c : Certificate} (hab : bagLess a b = true) (hbc : bagLess b c = true) :
    bagLess a c = true := by
  rw [bagLess_iff] at hab hbc ⊢
  rcases hab with hab | ⟨hab, hab'⟩ <;> rcases hbc with hbc | ⟨hbc, hbc'⟩
  · exact .inl (by omega)
  · exact .inl (by omega)
  · exact .inl (by omega)
  · exact .inr ⟨hab.trans hbc, lessBytes_trans hab' hbc'⟩

theorem bagLess_asymm {a b : Certificate} (hab : bagLess a b = true) : bagLess b a = false := by
  cases h : bagLess b a
  · rfl
  · simpa [bagLess_irrefl] using bagLess_trans hab h

theorem bagLess_trichotomous {a b : Certificate} (hne : a.raw ≠ b.raw) :
    bagLess a b = true ∨ bagLess b a = true := by
  simp only [bagLess_iff]
  rcases Nat.lt_trichotomy a.raw.length b.raw.length with h | h | h
  · exact .inl (.inl h)
  · rcases lessBytes_total h hne with h' | h'
    · exact .inl (.inr ⟨h, h'⟩)
    · exact .inr (.inr ⟨h.symm, h'⟩)
  · exact .inr (.inl h)

/-- On two `Raw`s of one length the byte loop is `List.Lex` by unsigned byte. -/
theorem lessBytes_iff_lex : ∀ {a b : List UInt8}, a.length = b.length →
    (lessBytes a b = true ↔ List.Lex (· < ·) a b)
  | [], [], _ => by simp
  | x :: xs, y :: ys, hlen => by
    rw [lessBytes_cons_iff, lessBytes_iff_lex (by simpa using hlen)]
    constructor
    · rintro (h | ⟨rfl, h⟩)
      exacts [.rel h, .cons h]
    · intro h
      cases h with
      | cons h => exact .inr ⟨rfl, h⟩
      | rel h => exact .inl h
  | [], _ :: _, hlen | _ :: _, [], hlen => by simp at hlen

theorem bagLess_iff_lex (a b : Certificate) : bagLess a b = true ↔ a.raw.length < b.raw.length ∨
    (a.raw.length = b.raw.length ∧ List.Lex (· < ·) a.raw b.raw) := by
  rw [bagLess_iff]
  exact or_congr_right (and_congr_right lessBytes_iff_lex)

/-- Of `a` before `b`, `b` before `a` and equal `Raw`s, exactly one holds. -/
theorem bagLess_trichotomy (a b : Certificate) :
    (bagLess a b = true ∧ bagLess b a = false ∧ a.raw ≠ b.raw) ∨
    (bagLess b a = true ∧ bagLess a b = false ∧ a.raw ≠ b.raw) ∨
    (bagLess a b = false ∧ bagLess b a = false ∧ a.raw = b.raw) := by
  obtain ⟨x⟩ := a
  obtain ⟨y⟩ := b
  by_cases hr : x = y
  · subst hr
    exact .inr (.inr ⟨bagLess_irrefl _, bagLess_irrefl _, rfl⟩)
  · rcases bagLess_trichotomous hr with h | h
    · exact .inl ⟨h, bagLess_asymm h, hr⟩
    · exact .inr (.inl ⟨h, bagLess_asymm h, hr⟩)

theorem bagLess_incomparable_iff (a b : Certificate) :
    bagLess a b = false ∧ bagLess b a = false ↔ a.raw = b.raw := by
  rcases bagLess_trichotomy a b with ⟨h, -, hr⟩ | ⟨h, -, hr⟩ | ⟨h₁, h₂, hr⟩ <;> simp [*]

/-- **`b.Less` is a strict total order on `Raw`.**  For every bag and indices `i`, `j`,
`k`: `Less(i, j)` is shorter-first, then lexicographic by unsigned byte; it is
irreflexive and transitive; exactly one of `Less(i, j)`, `Less(j, i)` and equal `Raw`s
holds, so `i` and `j` are incomparable exactly when their `Raw`s are equal. -/
theorem bag_less_strict_total_order (b : Bag) (i j k : Fin b.certs.length) :
    (b.less i j = true ↔ (b.certs.get i).raw.length < (b.certs.get j).raw.length ∨
      ((b.certs.get i).raw.length = (b.certs.get j).raw.length ∧
        List.Lex (· < ·) (b.certs.get i).raw (b.certs.get j).raw)) ∧
    b.less i i = false ∧
    (b.less i j = true → b.less j k = true → b.less i k = true) ∧
    ((b.less i j = true ∧ b.less j i = false ∧ (b.certs.get i).raw ≠ (b.certs.get j).raw) ∨
      (b.less j i = true ∧ b.less i j = false ∧ (b.certs.get i).raw ≠ (b.certs.get j).raw) ∨
      (b.less i j = false ∧ b.less j i = false ∧ (b.certs.get i).raw = (b.certs.get j).raw)) ∧
    (b.less i j = false ∧ b.less j i = false ↔ (b.certs.get i).raw = (b.certs.get j).raw) :=
  ⟨bagLess_iff_lex _ _, bagLess_irrefl _, bagLess_trans, bagLess_trichotomy _ _,
    bagLess_incomparable_iff _ _⟩

/-! ## §2. `sort.Sort` and `hashBag`. -/

/-- `c` may stand after `a` in a sorted bag: `Less(c, a)` is false. -/
def bagLe (a c : Certificate) : Prop := bagLess c a = false

instance : DecidableRel bagLe := fun a c => inferInstanceAs (Decidable (bagLess c a = false))

instance : IsTotal Certificate bagLe :=
  ⟨fun a b => by
    cases h : bagLess a b
    · exact .inr h
    · exact .inl (bagLess_asymm h)⟩

instance : IsTrans Certificate bagLe :=
  ⟨fun a b c hab hbc => by
    unfold bagLe at *
    cases h : bagLess c a
    · rfl
    · by_cases hba : a.raw = b.raw
      · have : a = b := by cases a; cases b; simp_all
        subst this; simp_all
      · rcases bagLess_trichotomous hba with h' | h'
        · simp [bagLess_trans h h'] at hbc
        · simp [h'] at hab⟩

instance : IsAntisymm Certificate bagLe :=
  ⟨fun a b hab hba => by
    by_contra hne
    have : a.raw ≠ b.raw := fun h => hne (by cases a; cases b; simp_all)
    rcases bagLess_trichotomous this with h | h <;> simp_all [bagLe]⟩

/-- The orders `sort.Sort` may leave `certs` in: a permutation sorted by `b.Less`. -/
def SortResult (certs sorted : List Certificate) : Prop :=
  sorted.Perm certs ∧ sorted.Sorted bagLe

/-- `hashBag(chain) = d`: `d` is `hashChain` of the chain as `sort.Sort` leaves it. -/
def HashBag (chain : List Certificate) (d : Digest) : Prop :=
  ∃ sorted, SortResult chain sorted ∧ hashChain sorted = d

/-- `sort.Sort` has a result: insertion sort by `b.Less` is one. -/
theorem sortResult_insertionSort (certs : List Certificate) :
    SortResult certs (certs.insertionSort bagLe) :=
  ⟨List.perm_insertionSort _ _, List.sorted_insertionSort _ _⟩

theorem hashBag_exists (chain : List Certificate) : ∃ d, HashBag chain d :=
  ⟨_, _, sortResult_insertionSort chain, rfl⟩

/-- However `sort.Sort` arranges equal elements, permuted inputs sort alike. -/
theorem sortResult_unique {l₁ l₂ s₁ s₂ : List Certificate} (hp : l₁.Perm l₂)
    (h₁ : SortResult l₁ s₁) (h₂ : SortResult l₂ s₂) : s₁ = s₂ :=
  List.eq_of_perm_of_sorted (h₁.1.trans (hp.trans h₂.1.symm)) h₁.2 h₂.2

theorem SortResult.mem_iff {l s : List Certificate} (h : SortResult l s) {c : Certificate} :
    c ∈ s ↔ c ∈ l :=
  h.1.mem_iff

/-- **`hashBag` is order-insensitive and multiplicity-sensitive.**  Permuted
chains get the same key whatever `sort.Sort` does with ties; equal keys mean
the same multiset of `Raw`s, or a SHA-256 collision on the two sorted inputs. -/
theorem hashBag_order_insensitive {l₁ l₂ : List Certificate} {d₁ d₂ : Digest}
    (hpf : PrefixFree ((l₁ ++ l₂).map Certificate.raw)) (h₁ : HashBag l₁ d₁) (h₂ : HashBag l₂ d₂) :
    (l₁.Perm l₂ → d₁ = d₂) ∧
    (d₁ = d₂ → (l₁.map Certificate.raw).Perm (l₂.map Certificate.raw) ∨
      ∃ s₁ s₂, SortResult l₁ s₁ ∧ SortResult l₂ s₂ ∧ chainInput s₁ ≠ chainInput s₂ ∧
        sha256 (chainInput s₁) = sha256 (chainInput s₂)) := by
  obtain ⟨s₁, hs₁, rfl⟩ := h₁
  obtain ⟨s₂, hs₂, rfl⟩ := h₂
  refine ⟨fun hp => by rw [sortResult_unique hp hs₁ hs₂], fun hd => ?_⟩
  by_cases hin : chainInput s₁ = chainInput s₂
  · have hpf' : PrefixFree ((s₁ ++ s₂).map Certificate.raw) := hpf.mono fun x hx => by
      simp only [List.map_append, List.mem_append, List.mem_map] at hx ⊢
      rcases hx with ⟨c, hc, rfl⟩ | ⟨c, hc, rfl⟩
      · exact .inl ⟨c, hs₁.mem_iff.1 hc, rfl⟩
      · exact .inr ⟨c, hs₂.mem_iff.1 hc, rfl⟩
    have hs : s₁ = s₂ := chainInput_injective hpf' hin
    subst hs
    exact .inl ((hs₁.1.symm.trans hs₂.1).map _)
  · exact .inr ⟨s₁, s₂, hs₁, hs₂, hin, sha256_eq_of_hashChain_eq hd⟩

/-- Two orders of two distinct certificates. -/
def bagWitnessA : Certificate := ⟨[0x01]⟩

/-- The second certificate of the `hashBag` witness. -/
def bagWitnessB : Certificate := ⟨[0x02]⟩

theorem hashBag_order_insensitive_swap :
    PrefixFree (([bagWitnessA, bagWitnessB] ++ [bagWitnessB, bagWitnessA]).map Certificate.raw) ∧
    HashBag [bagWitnessA, bagWitnessB] (hashChain [bagWitnessA, bagWitnessB]) ∧
    HashBag [bagWitnessB, bagWitnessA] (hashChain [bagWitnessA, bagWitnessB]) ∧
    ([bagWitnessA, bagWitnessB].Perm [bagWitnessB, bagWitnessA] →
      hashChain [bagWitnessA, bagWitnessB] = hashChain [bagWitnessA, bagWitnessB]) :=
  have hpf : PrefixFree (([bagWitnessA, bagWitnessB] ++ [bagWitnessB, bagWitnessA]).map
      Certificate.raw) := by decide
  have h₁ : HashBag [bagWitnessA, bagWitnessB] (hashChain [bagWitnessA, bagWitnessB]) :=
    ⟨_, ⟨by decide, by decide⟩, rfl⟩
  have h₂ : HashBag [bagWitnessB, bagWitnessA] (hashChain [bagWitnessA, bagWitnessB]) :=
    ⟨[bagWitnessA, bagWitnessB], ⟨by decide, by decide⟩, rfl⟩
  ⟨hpf, h₁, h₂, (hashBag_order_insensitive hpf h₁ h₂).1⟩

end CertTransparency.Fixchain
