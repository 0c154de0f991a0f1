/-
  CertTransparency.Scanner.Fetcher.Termination — when `genRanges` closes
  `ranges` without `Continuous`.

  Receivers that keep receiving and a context that is never cancelled leave the
  generator every step but `<-ctx.Done()` (`Generator.LiveStep`).  Without
  `Continuous` the generator never waits for an STH, so its run is the loop
  `for start < end { ...; start = batchEnd }` (`loopStart`), and it closes
  `ranges` exactly when that loop ends.  Whether it does depends on `BatchSize`:

    * `BatchSize ≥ 1`: every pass moves `start` up into `(start, end]`, also when
      `end - start` wraps, for `batchEnd` is then `end` itself
      (`nextRange_advances`); the loop ends within `end - start` passes.
    * `BatchSize < 0`: a pass moves `start` by the batch modulo 2^64, or to `end`
      when `end - start` wraps below the batch.  Stepping by `b` modulo 2^64
      meets every interval of length `gcd(b, 2^64)` (`exists_walk_mem`), and for
      `b ≠ -2^63` one such interval ends the loop, so it ends within 2^64
      passes (`loopStart_ends_of_neg`).
    * `BatchSize = 0` stalls at `batchEnd = start`, and `-2^63` swaps `start`
      between two values: from `start = 0` and `end = 1` neither ever closes
      `ranges` (`genRanges_never_closes_zero_or_min_batch`).

  Over the loop, `Generator.PassInv` bounds the passes left, and the rank
  `Generator.rank` drops on every live step, which bounds every run
  (`genRanges_closes_unless_zero_or_min_batch`).
-/
import CertTransparency.Scanner.Fetcher.Generator
import Mathlib.Data.Int.GCD
import Mathlib.Data.Nat.Prime.Basic
import Mathlib.Tactic.LinearCombination

namespace CertTransparency.Scanner

/-! ## §1. The loop's `start`s. -/

/-- `for start < end { ...; start = batchEnd }` without `Continuous`, run for at most `n`
passes from `start = s` with batch `b` and `end = e`: the `start` it stops at. -/
def loopStart (b e : Int64) : Nat → Int64 → Int64
  | 0, s => s
  | n + 1, s => if s < e then loopStart b e n (nextRange b s e).2 else s

@[simp] theorem loopStart_zero (b e s : Int64) : loopStart b e 0 s = s := rfl

theorem loopStart_succ_of_lt {b e s : Int64} (n : Nat) (h : s < e) :
    loopStart b e (n + 1) s = loopStart b e n (nextRange b s e).2 := if_pos h

theorem loopStart_of_le {b e s : Int64} (h : e ≤ s) : ∀ n, loopStart b e n s = s
  | 0 => rfl
  | _ + 1 => if_neg (by simp only [Int64.lt_iff, Int64.le_iff] at h ⊢; omega)

/-- A loop whose `start` is not below `end` has ended. -/
theorem loopStart_ends_of_not_lt {b e s : Int64} (hs : ¬ s < e) (n : Nat) : e ≤ loopStart b e n s := by
  have hle : e ≤ s := by simp only [Int64.lt_iff, Int64.le_iff] at hs ⊢; omega
  rw [loopStart_of_le hle]
  exact hle

/-- A loop that has ended within `n` passes has ended within any more. -/
theorem loopStart_ends_mono {b e : Int64} :
    ∀ {n m : Nat} {s : Int64}, e ≤ loopStart b e n s → n ≤ m → e ≤ loopStart b e m s
  | 0, m, s, h, _ => by rw [loopStart_zero] at h; rwa [loopStart_of_le h]
  | n + 1, m, s, h, hnm => by
    by_cases hs : s < e
    · obtain ⟨m, rfl⟩ : ∃ m', m = m' + 1 := ⟨m - 1, by omega⟩
      rw [loopStart_succ_of_lt _ hs] at h ⊢
      exact loopStart_ends_mono h (by omega)
    · exact loopStart_ends_of_not_lt hs m

/-! ## §2. A positive batch. -/

/-- With a positive batch and `start < end`, a pass moves `start` into `(start, end]`:
by at most a batch if `end - start` does not wrap, to `end` if it does. -/
theorem nextRange_advances {b start e : Int64} (hb : 1 ≤ b.toInt) (hlt : start.toInt < e.toInt) :
    start.toInt < (nextRange b start e).2.toInt ∧ (nextRange b start e).2.toInt ≤ e.toInt := by
  have := e.lt_max; have := start.min_le; have := b.lt_max
  simp only [nextRange, Int64.toInt_add, Int64.toInt_sub, toInt_min]
  split_ifs <;> omega

/-- With a positive batch the loop ends within `end - start` passes. -/
theorem loopStart_ends_of_pos {b e : Int64} (hb : 1 ≤ b.toInt) :
    ∀ (n : Nat) (s : Int64), (e.toInt - s.toInt).toNat ≤ n → e ≤ loopStart b e n s
  | 0, s, h => by simp only [loopStart_zero, Int64.le_iff]; omega
  | n + 1, s, h => by
    by_cases hs : s < e
    · have := nextRange_advances hb (Int64.lt_iff.1 hs)
      rw [loopStart_succ_of_lt _ hs]
      exact loopStart_ends_of_pos hb n _ (by omega)
    · exact loopStart_ends_of_not_lt hs _

/-! ## §3. A negative batch. -/

/-- `end - start` wraps to below the batch: the pass sets `start = end`.  (`start` lies in
`(end - b - 2^64, end - 2^63]`, the wrap window.) -/
theorem nextRange_eq_end_of_wrap {b s e : Int64}
    (h₁ : e.toInt - b.toInt - 18446744073709551616 < s.toInt)
    (h₂ : s.toInt ≤ e.toInt - 9223372036854775808) : (nextRange b s e).2 = e := by
  have := e.lt_max; have := s.min_le; have := b.lt_max; have := b.min_le
  apply Int64.ext
  simp only [nextRange, Int64.toInt_add, Int64.toInt_sub, toInt_min]
  split_ifs <;> omega

/-- Outside the wrap window a negative batch moves `start` by the batch. -/
theorem nextRange_eq_add_batch {b s e : Int64} (hb : b.toInt < 0) (hs : s.toInt < e.toInt)
    (hW : ¬ (e.toInt - b.toInt - 18446744073709551616 < s.toInt ∧
      s.toInt ≤ e.toInt - 9223372036854775808)) : (nextRange b s e).2 = s + b := by
  have := e.lt_max; have := s.min_le; have := b.lt_max; have := b.min_le
  apply Int64.ext
  simp only [nextRange, Int64.toInt_add, Int64.toInt_sub, toInt_min]
  split_ifs <;> omega

/-- The wrap window, or `[end, 2^63)`: a `start` there ends the loop within a pass. -/
def LoopExit (b e s : Int64) : Prop :=
  e.toInt ≤ s.toInt ∨
    (e.toInt - b.toInt - 18446744073709551616 < s.toInt ∧ s.toInt ≤ e.toInt - 9223372036854775808)

theorem Int64.wrap_toInt (a : Int64) : Int64.wrap a.toInt = a :=
  Int64.ext (Int64.toInt_wrap_of_mem a.min_le a.lt_max)

/-- One more pass from `s` is a pass from `s + b`, `k` passes on. -/
theorem wrap_add_succ_mul (s b : Int64) (k : Nat) :
    Int64.wrap ((s + b).toInt + k * b.toInt) = Int64.wrap (s.toInt + (k + 1 : Nat) * b.toInt) := by
  apply Int64.ext
  simp only [Int64.toInt_wrap, Int64.toInt_add, Nat.cast_succ, Int.add_mul, Int.one_mul]
  omega

/-- A `start` in `LoopExit` ends the loop within one pass. -/
theorem loopStart_ends_of_exit {b e s : Int64} (h : LoopExit b e s) : e ≤ loopStart b e 1 s := by
  by_cases hs : s < e
  · rcases h with h | h
    · exact absurd hs (by simp only [Int64.lt_iff]; omega)
    · rw [loopStart_succ_of_lt _ hs, nextRange_eq_end_of_wrap h.1 h.2]
      exact Int64.le_iff.2 (Int.le_refl _)
  · exact loopStart_ends_of_not_lt hs 1

/-- With a negative batch, a pass from `s` ends the loop or goes on from `s + b`. -/
theorem loopStart_ends_of_add_batch {b e s : Int64} (hb : b.toInt < 0) {n : Nat}
    (h : e ≤ loopStart b e n (s + b)) : e ≤ loopStart b e (n + 1) s := by
  by_cases hs : s < e
  · rw [loopStart_succ_of_lt _ hs]
    by_cases hW : e.toInt - b.toInt - 18446744073709551616 < s.toInt ∧
        s.toInt ≤ e.toInt - 9223372036854775808
    · rw [nextRange_eq_end_of_wrap hW.1 hW.2]
      exact loopStart_ends_of_not_lt (Int.lt_irrefl e.toInt) n
    · rwa [nextRange_eq_add_batch hb hs hW]
  · exact loopStart_ends_of_not_lt hs _

/-- With a negative batch, if `k` batch steps from `s` land in `LoopExit`, the loop ends
within `k + 1` passes. -/
theorem loopStart_ends_of_walk {b e : Int64} (hb : b.toInt < 0) :
    ∀ (k : Nat) (s : Int64), LoopExit b e (Int64.wrap (s.toInt + k * b.toInt)) →
      e ≤ loopStart b e (k + 1) s
  | 0, s, h => loopStart_ends_of_exit (by rwa [Nat.cast_zero, Int.zero_mul, Int.add_zero,
      Int64.wrap_toInt] at h)
  | k + 1, s, h => loopStart_ends_of_add_batch hb
      (loopStart_ends_of_walk hb k (s + b) (by rwa [wrap_add_succ_mul]))

/-- Stepping by `b ≠ 0` modulo 2^64 from any `s` meets every interval of length at least
`gcd(b, 2^64)`, within 2^64 steps (Bezout: `b x ≡ gcd(b, 2^64)`). -/
theorem exists_walk_mem {b : Int} (hb : b ≠ 0) (s a L : Int) (hL : (Int.gcd b (2 ^ 64) : Int) ≤ L) :
    ∃ k : Nat, k < 2 ^ 64 ∧ ∃ t q : Int, a ≤ t ∧ t < a + L ∧ s + k * b = t + 2 ^ 64 * q := by
  obtain ⟨g, x, y, hbez, hg, hgL⟩ : ∃ g x y : Int, g = b * x + 2 ^ 64 * y ∧ 0 < g ∧ g ≤ L :=
    ⟨_, _, _, Int.gcd_eq_gcd_ab b (2 ^ 64), Int.ofNat_pos.2 (Int.gcd_pos_of_ne_zero_left _ hb), hL⟩
  -- `s - a = r + g m` with `0 ≤ r < g`; the target is `a + r`, reached after `k ≡ -x m` steps.
  have hr₀ := Int.emod_nonneg (s - a) hg.ne'
  have hr₁ := Int.emod_lt_of_pos (s - a) hg
  have hm := Int.emod_add_ediv (s - a) g
  generalize (s - a) % g = r at hr₀ hr₁ hm
  generalize (s - a) / g = m at hm
  have hk₀ := Int.emod_nonneg (-(x * m)) (show (2 : Int) ^ 64 ≠ 0 by norm_num)
  have hk₁ := Int.emod_lt_of_pos (-(x * m)) (show (0 : Int) < 2 ^ 64 by norm_num)
  have hk := Int.emod_add_ediv (-(x * m)) (2 ^ 64)
  generalize -(x * m) % 2 ^ 64 = k at hk₀ hk₁ hk
  generalize -(x * m) / 2 ^ 64 = p at hk
  refine ⟨k.toNat, by omega, a + r, m * y - p * b, by omega, by omega, ?_⟩
  rw [Int.toNat_of_nonneg hk₀]
  linear_combination -hm + b * hk + m * hbez

/-- For `b` strictly between `-2^63` and 0, `gcd(b, 2^64)` divides `2^63`. -/
theorem gcd_dvd_two_pow_63 {b : Int} (hb : b < 0) (hbm : -9223372036854775808 < b) :
    (Int.gcd b (2 ^ 64) : Int) ∣ 2 ^ 63 := by
  have h64 : Int.gcd b (2 ^ 64) ∣ 2 ^ 64 := Nat.gcd_dvd_right _ _
  obtain ⟨j, -, hj⟩ := (Nat.dvd_prime_pow Nat.prime_two).1 h64
  have hle : Int.gcd b (2 ^ 64) ≤ b.natAbs :=
    Nat.le_of_dvd (by omega) (Nat.gcd_dvd_left _ _)
  have hj63 : j ≤ 63 := by
    by_contra h
    have := Nat.pow_le_pow_right (show 0 < 2 by norm_num) (show 64 ≤ j by omega)
    omega
  rw [hj]
  exact_mod_cast Nat.pow_dvd_pow 2 hj63

/-- With a negative batch other than `-2^63`, some `k < 2^64` batch steps from `s` land in
`LoopExit`: in `[end, end + g)` if that fits below 2^63, else in the wrap window, which is
`2^63 + b ≥ g` long. -/
theorem exists_walk_exit {b e : Int64} (hb : b.toInt < 0) (hbm : b.toInt ≠ -9223372036854775808)
    (s : Int64) : ∃ k : Nat, k < 2 ^ 64 ∧ LoopExit b e (Int64.wrap (s.toInt + k * b.toInt)) := by
  have := e.lt_max; have := e.min_le; have := b.min_le
  have hg : (0 : Int) < Int.gcd b.toInt (2 ^ 64) := Int.ofNat_pos.2 (Int.gcd_pos_of_ne_zero_left _ hb.ne)
  have hgb : (Int.gcd b.toInt (2 ^ 64) : Int) ≤ -b.toInt :=
    Int.le_of_dvd (by omega) (Int.dvd_neg.2 Int.gcd_dvd_left)
  have hgw : (Int.gcd b.toInt (2 ^ 64) : Int) ≤ 9223372036854775808 + b.toInt :=
    Int.le_of_dvd (by omega) (Int.dvd_add (gcd_dvd_two_pow_63 hb (by omega)) Int.gcd_dvd_left)
  by_cases hA : e.toInt + Int.gcd b.toInt (2 ^ 64) ≤ 9223372036854775808
  · obtain ⟨k, hk, t, q, ht₁, ht₂, heq⟩ := exists_walk_mem hb.ne s.toInt e.toInt _ (Int.le_refl _)
    refine ⟨k, hk, .inl ?_⟩
    rw [Int64.toInt_wrap]
    omega
  · obtain ⟨k, hk, t, q, ht₁, ht₂, heq⟩ := exists_walk_mem hb.ne s.toInt
      (e.toInt - b.toInt - 18446744073709551616 + 1) _ hgw
    refine ⟨k, hk, .inr ?_⟩
    rw [Int64.toInt_wrap]
    omega

/-- With a negative batch other than `-2^63` the loop ends within 2^64 passes. -/
theorem loopStart_ends_of_neg {b e : Int64} (hb : b.toInt < 0) (hbm : b.toInt ≠ -9223372036854775808)
    (s : Int64) : e ≤ loopStart b e (2 ^ 64) s :=
  let ⟨k, hk, hexit⟩ := exists_walk_exit hb hbm s
  loopStart_ends_mono (loopStart_ends_of_walk hb k s hexit) hk

/-- Every batch but 0 and `-2^63` ends the loop from `S` within `K ≤ 2^64` passes, and
within `E - S` passes when positive. -/
theorem loopStart_ends {b S E : Int64} (hb₀ : b.toInt ≠ 0) (hbm : b.toInt ≠ -9223372036854775808) :
    ∃ K : Nat, K ≤ 2 ^ 64 ∧ (1 ≤ b.toInt → K = (E.toInt - S.toInt).toNat) ∧
      E ≤ loopStart b E K S := by
  by_cases hb : 1 ≤ b.toInt
  · have := E.lt_max; have := S.min_le
    exact ⟨_, by omega, fun _ => rfl, loopStart_ends_of_pos hb _ S (Nat.le_refl _)⟩
  · exact ⟨2 ^ 64, Nat.le_refl _, fun h => absurd h hb, loopStart_ends_of_neg (by omega) hbm S⟩

/-! ## §4. The generator: every live run ends with `ranges` closed. -/

/-- A step of `genRanges` other than `<-ctx.Done()`: the steps it takes while receivers
keep receiving and the context is not cancelled. -/
def Generator.LiveStep (o : FetcherOptions) (g g' : Generator) : Prop :=
  ∃ e, e ≠ .cancel ∧ Generator.Step o g e g'

/-- What is left of a run that ends within `K` passes: two steps (`select`,
`ranges <- next`) per pass left, and one to leave the loop. -/
def Generator.rank (K : Nat) (g : Generator) : Nat :=
  match g.pc with
  | .loop => 2 * (K - g.sent.length) + 1
  | .select => 2 * (K - g.sent.length)
  | .updateSTH _ _ _ | .done => 0

section Live

variable {o : FetcherOptions} {K : Nat}

/-- Without `Continuous`, from `start = StartIndex`: the loop ends within `K` passes, of
which one has run per range sent. -/
structure Generator.PassInv (o : FetcherOptions) (K : Nat) (g : Generator) : Prop where
  batch : g.BatchInv o o.startIndex o.endIndex
  sent_le : g.sent.length ≤ K
  ends : o.endIndex ≤ loopStart o.batchSize o.endIndex (K - g.sent.length) g.start

theorem Generator.passInv_init (hK : o.endIndex ≤ loopStart o.batchSize o.endIndex K o.startIndex) :
    (Generator.init o).PassInv o K :=
  ⟨Generator.batchInv_init o, Nat.zero_le _, hK⟩

/-- At `select` a pass is left. -/
theorem Generator.PassInv.sent_lt {g : Generator} (hi : g.PassInv o K) (hp : g.pc = .select) :
    g.sent.length < K := by
  have hlt := hi.batch.select_lt hp
  have hends := hi.ends
  by_contra hK
  rw [show K - g.sent.length = 0 by omega, loopStart_zero, Int64.le_iff] at hends
  omega

/-- The send step: one pass more has run. -/
theorem Generator.PassInv.send {g : Generator} (hi : g.PassInv o K) (hp : g.pc = .select) :
    ({ g with start := (nextRange o.batchSize g.start g.end_).2, pc := .loop,
               sent := g.sent ++ [(nextRange o.batchSize g.start g.end_).1] } : Generator).PassInv o K := by
  have hK := hi.sent_lt hp
  have hends := hi.ends
  rw [show K - g.sent.length = K - (g.sent.length + 1) + 1 by omega,
    loopStart_succ_of_lt _ (hi.batch.select_lt hp)] at hends
  refine ⟨hi.batch.send hp, ?_, ?_⟩ <;>
    simp only [List.length_append, List.length_singleton]
  · omega
  · rwa [hi.batch.end_eq]

theorem Generator.PassInv.step {g g' : Generator} {e : GenEvent} (hc : o.continuous = false)
    (hi : g.PassInv o K) (h : Generator.Step o g e g') : g'.PassInv o K := by
  have hb := hi.batch.step hc h
  cases h with
  | send hp => exact hi.send hp
  | sth _ _ _ _ hp _ => exact absurd hp (hi.batch.pc_ne _ _ _)
  | exit | enter | wait | deadline | cancel => exact ⟨hb, hi.sent_le, hi.ends⟩

/-- Every live step lowers the rank. -/
theorem Generator.PassInv.rank_lt {g g' : Generator} {e : GenEvent} (hc : o.continuous = false)
    (hi : g.PassInv o K) (h : Generator.Step o g e g') (he : e ≠ .cancel) : g'.rank K < g.rank K := by
  cases h with
  | exit hp _ | enter hp _ _ => simp only [Generator.rank, hp]; omega
  | wait _ hlt heq => simp [hc, heq] at hlt
  | deadline _ _ hp | sth _ _ _ _ hp _ => exact absurd hp (hi.batch.pc_ne _ _ _)
  | send hp =>
    have := hi.sent_lt hp
    simp only [Generator.rank, hp, List.length_append, List.length_singleton]
    omega
  | cancel _ => exact absurd rfl he

/-- A live run from a state of the invariant is at most its rank long. -/
theorem Generator.PassInv.chain_length_le {g : Generator} {gs : List Generator}
    (hc : o.continuous = false) (hi : g.PassInv o K) (hgs : List.Chain (Generator.LiveStep o) g gs) :
    gs.length ≤ g.rank K := by
  induction hgs with
  | nil => exact Nat.zero_le _
  | cons hstep _ ih =>
    obtain ⟨e, he, h⟩ := hstep
    have hlt := hi.rank_lt hc h he
    have hrest := ih (hi.step hc h)
    rw [List.length_cons]
    omega

theorem Generator.PassInv.of_reach {g : Generator} (hc : o.continuous = false)
    (hK : o.endIndex ≤ loopStart o.batchSize o.endIndex K o.startIndex)
    (hg : Relation.ReflTransGen (Generator.LiveStep o) (Generator.init o) g) : g.PassInv o K := by
  induction hg with
  | refl => exact Generator.passInv_init hK
  | tail _ hstep ih =>
    obtain ⟨e, -, h⟩ := hstep
    exact ih.step hc h

/-- A state of the batch invariant has closed `ranges`, or has a live step. -/
theorem Generator.BatchInv.progress {S E : Int64} {g : Generator} (hc : o.continuous = false)
    (hi : g.BatchInv o S E) : g.pc = .done ∨ ∃ g', Generator.LiveStep o g g' := by
  cases hpc : g.pc with
  | loop =>
    by_cases hlt : g.start < g.end_ ∨ o.continuous = true
    · have hne : g.start ≠ g.end_ := fun heq => by simp [heq, hc] at hlt
      exact .inr ⟨_, .internal, nofun, .enter g hpc hlt hne⟩
    · exact .inr ⟨_, .internal, nofun, .exit g hpc hlt⟩
  | updateSTH l t q => exact absurd hpc (hi.pc_ne l t q)
  | select => exact .inr ⟨_, _, by nofun, .send g hpc⟩
  | done => exact .inl rfl

end Live

/-- **`genRanges` closes `ranges` unless `BatchSize` is 0 or `-2^63`.**  Without
`Continuous`, for every `StartIndex` and `EndIndex` and every other `BatchSize`, while
receivers keep receiving and the context is not cancelled, there is a `K ≤ 2^64`
(`EndIndex - StartIndex` when `BatchSize ≥ 1`) such that every run of the generator is at
most `2K + 1` steps long, and every state it reaches has sent at most `K` ranges and has
closed `ranges` or can move on.  So every run ends, and ends with `ranges` closed. -/
theorem genRanges_closes_unless_zero_or_min_batch {o : FetcherOptions} (hc : o.continuous = false)
    (hb₀ : o.batchSize.toInt ≠ 0) (hbm : o.batchSize.toInt ≠ -9223372036854775808) :
    ∃ K : Nat, K ≤ 2 ^ 64 ∧
      (1 ≤ o.batchSize.toInt → K = (o.endIndex.toInt - o.startIndex.toInt).toNat) ∧
      (∀ gs, List.Chain (Generator.LiveStep o) (Generator.init o) gs → gs.length ≤ 2 * K + 1) ∧
      ∀ g, Relation.ReflTransGen (Generator.LiveStep o) (Generator.init o) g →
        g.sent.length ≤ K ∧ (g.pc = .done ∨ ∃ g', Generator.LiveStep o g g') :=
  let ⟨K, hK, hpos, hends⟩ := loopStart_ends (S := o.startIndex) (E := o.endIndex) hb₀ hbm
  ⟨K, hK, hpos, fun _ hgs => (Generator.passInv_init hends).chain_length_le hc hgs, fun _ hg =>
    have hi := Generator.PassInv.of_reach hc hends hg
    ⟨hi.sent_le, hi.batch.progress hc⟩⟩

/-- The theorem at the default options (`BatchSize` 1000) after an STH of 3 entries. -/
theorem genRanges_closes_unless_zero_or_min_batch_default :
    (defaultFetcherOptions.prepare 3).continuous = false ∧
    (defaultFetcherOptions.prepare 3).batchSize.toInt ≠ 0 ∧
    (defaultFetcherOptions.prepare 3).batchSize.toInt ≠ -9223372036854775808 ∧
    ∃ K : Nat, K ≤ 2 ^ 64 ∧
      (1 ≤ (defaultFetcherOptions.prepare 3).batchSize.toInt →
        K = ((defaultFetcherOptions.prepare 3).endIndex.toInt -
          (defaultFetcherOptions.prepare 3).startIndex.toInt).toNat) ∧
      (∀ gs, List.Chain (Generator.LiveStep (defaultFetcherOptions.prepare 3))
        (Generator.init (defaultFetcherOptions.prepare 3)) gs → gs.length ≤ 2 * K + 1) ∧
      ∀ g, Relation.ReflTransGen (Generator.LiveStep (defaultFetcherOptions.prepare 3))
          (Generator.init (defaultFetcherOptions.prepare 3)) g →
        g.sent.length ≤ K ∧
          (g.pc = .done ∨ ∃ g', Generator.LiveStep (defaultFetcherOptions.prepare 3) g g') :=
  have hc : (defaultFetcherOptions.prepare 3).continuous = false := by decide
  have hb₀ : (defaultFetcherOptions.prepare 3).batchSize.toInt ≠ 0 := by decide
  have hbm : (defaultFetcherOptions.prepare 3).batchSize.toInt ≠ -9223372036854775808 := by decide
  ⟨hc, hb₀, hbm, genRanges_closes_unless_zero_or_min_batch hc hb₀ hbm⟩

/-! ## §5. `BatchSize` 0 and `-2^63`. -/

section Stuck

variable {o : FetcherOptions} {A : Int64 → Prop}

/-- A live run from `start` in a set `A` of `start`s below `EndIndex` that a pass keeps: it
stays in `A`, at the loop head or at `select`. -/
theorem Generator.stays_of_closed (hS : A o.startIndex)
    (hA : ∀ s, A s → s < o.endIndex ∧ A (nextRange o.batchSize s o.endIndex).2) {g : Generator}
    (hg : Relation.ReflTransGen (Generator.LiveStep o) (Generator.init o) g) :
    A g.start ∧ g.end_ = o.endIndex ∧ (g.pc = .loop ∨ g.pc = .select) := by
  induction hg with
  | refl => exact ⟨hS, rfl, .inl rfl⟩
  | @tail g₁ g₂ _ hstep ih =>
    obtain ⟨hAg, hend, hpc⟩ := ih
    obtain ⟨e, he, h⟩ := hstep
    have hlt : g₁.start < g₁.end_ := hend ▸ (hA _ hAg).1
    cases h with
    | exit _ hc => exact absurd (.inl hlt) hc
    | enter _ _ _ => exact ⟨hAg, hend, .inr rfl⟩
    | wait _ _ heq => exact absurd (heq ▸ hlt) (Int.lt_irrefl _)
    | deadline _ _ hp | sth _ _ _ _ hp _ => rcases hpc with hpc | hpc <;> rw [hpc] at hp <;> cases hp
    | send _ =>
      refine ⟨?_, hend, .inl rfl⟩
      dsimp only
      rw [hend]
      exact (hA _ hAg).2
    | cancel _ => exact absurd rfl he

/-- Such a run sends every number of ranges. -/
theorem Generator.sends_unbounded_of_closed (hS : A o.startIndex)
    (hA : ∀ s, A s → s < o.endIndex ∧ A (nextRange o.batchSize s o.endIndex).2) :
    ∀ n : Nat, ∃ g, Relation.ReflTransGen (Generator.LiveStep o) (Generator.init o) g ∧
      g.pc = .loop ∧ g.sent.length = n
  | 0 => ⟨_, .refl, rfl, rfl⟩
  | n + 1 => by
    obtain ⟨g, hg, hpc, hlen⟩ := Generator.sends_unbounded_of_closed hS hA n
    obtain ⟨hAg, hend, -⟩ := Generator.stays_of_closed hS hA hg
    have hlt : g.start < g.end_ := hend ▸ (hA _ hAg).1
    have hne : g.start ≠ g.end_ := fun heq => Int.lt_irrefl _ (heq ▸ hlt)
    refine ⟨_, (hg.tail ⟨_, by nofun, .enter g hpc (.inl hlt) hne⟩).tail
      ⟨_, by nofun, .send { g with pc := .select } rfl⟩, rfl, ?_⟩
    simp [hlen]

/-- So such a run never closes `ranges`, and sends every number of ranges. -/
theorem Generator.never_closes_of_closed (hS : A o.startIndex)
    (hA : ∀ s, A s → s < o.endIndex ∧ A (nextRange o.batchSize s o.endIndex).2) :
    (∀ g, Relation.ReflTransGen (Generator.LiveStep o) (Generator.init o) g → g.pc ≠ .done) ∧
    ∀ n : Nat, ∃ g, Relation.ReflTransGen (Generator.LiveStep o) (Generator.init o) g ∧
      g.sent.length = n :=
  ⟨fun _ hg => by rcases (Generator.stays_of_closed hS hA hg).2.2 with h | h <;> rw [h] <;> exact nofun,
    fun n => let ⟨g, hg, _, hlen⟩ := Generator.sends_unbounded_of_closed hS hA n; ⟨g, hg, hlen⟩⟩

end Stuck

/-- One entry to fetch, with `BatchSize = 0`. -/
def zeroBatchOptions : FetcherOptions := { defaultFetcherOptions with batchSize := 0, endIndex := 1 }

/-- One entry to fetch, with `BatchSize = -2^63`. -/
def minBatchOptions : FetcherOptions :=
  { defaultFetcherOptions with batchSize := -9223372036854775808, endIndex := 1 }

/-- **`BatchSize` 0 and `-2^63` never close `ranges`.**  With one entry to fetch, a zero
batch keeps `batchEnd = start = 0` and sends `{0, -1}` again and again; a batch of
`-2^63` moves `start` from 0 to `-2^63` and back.  Neither live run ever closes
`ranges`, and each sends every number of ranges. -/
theorem genRanges_never_closes_zero_or_min_batch :
    (∀ g, Relation.ReflTransGen (Generator.LiveStep zeroBatchOptions)
      (Generator.init zeroBatchOptions) g → g.pc ≠ .done) ∧
    (∀ n : Nat, ∃ g, Relation.ReflTransGen (Generator.LiveStep zeroBatchOptions)
      (Generator.init zeroBatchOptions) g ∧ g.sent.length = n) ∧
    (∀ g, Relation.ReflTransGen (Generator.LiveStep minBatchOptions)
      (Generator.init minBatchOptions) g → g.pc ≠ .done) ∧
    (∀ n : Nat, ∃ g, Relation.ReflTransGen (Generator.LiveStep minBatchOptions)
      (Generator.init minBatchOptions) g ∧ g.sent.length = n) := by
  have hz : ∀ s, s = 0 → s < zeroBatchOptions.endIndex ∧
      (nextRange zeroBatchOptions.batchSize s zeroBatchOptions.endIndex).2 = 0 := by
    rintro _ rfl; decide
  have hm : ∀ s, (s = 0 ∨ s = -9223372036854775808) → s < minBatchOptions.endIndex ∧
      ((nextRange minBatchOptions.batchSize s minBatchOptions.endIndex).2 = 0 ∨
        (nextRange minBatchOptions.batchSize s minBatchOptions.endIndex).2 = -9223372036854775808) := by
    rintro _ (rfl | rfl) <;> decide
  obtain ⟨hz₁, hz₂⟩ := Generator.never_closes_of_closed (A := (· = 0)) rfl hz
  obtain ⟨hm₁, hm₂⟩ := Generator.never_closes_of_closed
    (A := fun s => s = 0 ∨ s = -9223372036854775808) (.inl rfl) hm
  exact ⟨hz₁, hz₂, hm₁, hm₂⟩

end CertTransparency.Scanner
