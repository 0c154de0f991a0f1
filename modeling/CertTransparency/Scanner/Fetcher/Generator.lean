/-
  CertTransparency.Scanner.Fetcher.Generator — the ranges `genRanges` sends.

  `batchEnd := start + min(end-start, batch)` is computed in `int64`.  With a
  positive batch and a non-negative `start` below `end` it stays in range, and
  the ranges tile `[StartIndex, end)` (`nextRange_of_pos`).  Otherwise it wraps
  or runs backwards, and then every range it sends that is not empty holds an
  index no log has: a negative one, or `2^63-1` (`nextRange_of_nonpos`,
  `nextRange_of_neg`).

    * `Generator.BatchInv` — without `Continuous`, one field per regime of
      `BatchSize` and `StartIndex`; `BatchInv.sent_cover` draws the
      consequence `Run` needs: if every non-empty range sent can be completed,
      the ranges sent tile `[StartIndex, e)` for an `e ≤ EndIndex`.
    * In continuous mode, a `StartIndex` beyond the first STH's tree size makes
      the generator send an inverted range and then restart below `StartIndex`
      (`genRanges_restarts_below_startIndex`), although `FetcherOptions` calls
      `[StartIndex, EndIndex)` the range to fetch; with `StartIndex ≤ EndIndex`,
      `BatchSize ≥ 1` and tree sizes below 2^63 the ranges are non-empty, at
      most `BatchSize` long, below `EndIndex`, and contiguous from `StartIndex`
      (`genRanges_contiguous_from_startIndex`).
-/
import CertTransparency.Scanner.Fetcher.Basic
import Mathlib.Data.List.Chain

namespace CertTransparency.Scanner

/-! ## §1. One range. -/

theorem toInt_min (a b : Int64) :
    (min a b).toInt = if a.toInt < b.toInt then a.toInt else b.toInt := by
  unfold min
  by_cases h : a.toInt < b.toInt
  · rw [if_pos (show a < b from h), if_pos h]
  · rw [if_neg (show ¬ a < b from h), if_neg h]

/-- With a positive batch and `0 ≤ start < end`, the next range is `[start, batchEnd)`,
non-empty, inside `[start, end)` and at most a batch long. -/
theorem nextRange_of_pos {b start e : Int64} (hb : 1 ≤ b.toInt) (hs : 0 ≤ start.toInt)
    (hlt : start.toInt < e.toInt) :
    (nextRange b start e).1.start = start ∧
    (nextRange b start e).1.end_.toInt = (nextRange b start e).2.toInt - 1 ∧
    start.toInt < (nextRange b start e).2.toInt ∧ (nextRange b start e).2.toInt ≤ e.toInt ∧
    (nextRange b start e).2.toInt - start.toInt ≤ b.toInt := by
  have := e.lt_max
  refine ⟨rfl, ?_⟩
  simp only [nextRange, Int64.toInt_add, Int64.toInt_sub, toInt_min, Int64.toInt_one]
  split_ifs <;> omega

/-- With a batch `≤ 0`, a non-empty range starts below 0 or ends at `2^63-1`. -/
theorem nextRange_of_nonpos {b start e : Int64} (hb : b.toInt ≤ 0)
    (hne : (nextRange b start e).1.start.toInt ≤ (nextRange b start e).1.end_.toInt) :
    (nextRange b start e).1.start.toInt < 0 ∨
      (nextRange b start e).1.end_.toInt = 9223372036854775807 := by
  have := e.lt_max; have := e.min_le; have := start.lt_max; have := start.min_le; have := b.min_le
  simp only [nextRange, Int64.toInt_add, Int64.toInt_sub, toInt_min, Int64.toInt_one] at hne ⊢
  split_ifs at hne ⊢ <;> omega

/-- With a positive batch and `start < min(0, end)`, the range is non-empty. -/
theorem nextRange_of_neg {b start e : Int64} (hb : 1 ≤ b.toInt) (hs : start.toInt < 0)
    (hlt : start.toInt < e.toInt) :
    (nextRange b start e).1.start = start ∧
    (nextRange b start e).1.start.toInt ≤ (nextRange b start e).1.end_.toInt := by
  have := e.lt_max; have := start.min_le; have := b.lt_max
  refine ⟨rfl, ?_⟩
  simp only [nextRange, Int64.toInt_add, Int64.toInt_sub, toInt_min, Int64.toInt_one]
  split_ifs <;> omega

/-- Adding a range `[a, z]` to a cover of `[S, a)` covers `[S, z + 1)`. -/
theorem countP_covers_append {rs : List FetchRange} {r : FetchRange} {S a : Int} {i : Int}
    (hcov : rs.countP (·.covers i) = if S ≤ i ∧ i < a then 1 else 0) (hS : S ≤ a)
    (hr : r.start.toInt = a) (hz : a ≤ r.end_.toInt + 1) :
    (rs ++ [r]).countP (·.covers i) = if S ≤ i ∧ i < r.end_.toInt + 1 then 1 else 0 := by
  rw [List.countP_append, hcov]
  simp only [List.countP_singleton, FetchRange.covers, decide_eq_true_eq, hr]
  split_ifs <;> omega

/-- Every index from `S` below `start` lies in a range sent.  This holds in every mode and
for every batch size, however `batchEnd` wraps: a send that moves `start` up to `batchEnd`
sends `[start, batchEnd - 1]`. -/
def Generator.Covers (S : Int64) (g : Generator) : Prop :=
  ∀ i, S.toInt ≤ i → i < g.start.toInt → ∃ r ∈ g.sent, r.covers i = true

theorem Generator.covers_init (o : FetcherOptions) : (Generator.init o).Covers o.startIndex :=
  fun _ h₁ h₂ => absurd h₁ (Int.not_le.2 h₂)

theorem Generator.Covers.step {o : FetcherOptions} {S : Int64} {g g' : Generator} {e : GenEvent}
    (hi : g.Covers S) (h : Generator.Step o g e g') : g'.Covers S := by
  cases h with
  | send hp =>
    intro i hS hlt
    dsimp only at hlt
    by_cases hold : i < g.start.toInt
    · obtain ⟨r, hr, hc⟩ := hi i hS hold
      exact ⟨r, List.mem_append_left _ hr, hc⟩
    · refine ⟨_, List.mem_append_right _ (List.mem_singleton_self _), ?_⟩
      have hstart : (nextRange o.batchSize g.start g.end_).1.start = g.start := rfl
      have hend : (nextRange o.batchSize g.start g.end_).1.end_ =
          (nextRange o.batchSize g.start g.end_).2 - 1 := rfl
      have := (nextRange o.batchSize g.start g.end_).2.lt_max
      simp only [FetchRange.covers, hstart, hend, Int64.toInt_sub, Int64.toInt_one, decide_eq_true_eq]
      omega
  | exit | enter | wait | deadline | sth | cancel => exact fun i h₁ h₂ => hi i h₁ h₂

/-! ## §2. Without `Continuous`. -/

section NonContinuous

variable {o : FetcherOptions} {S E : Int64}

/-- What the generator has sent, from `start = S` with `end = E`, by regime. -/
structure Generator.BatchInv (o : FetcherOptions) (S E : Int64) (g : Generator) : Prop where
  end_eq : g.end_ = E
  pc_ne : ∀ l t q, g.pc ≠ .updateSTH l t q
  select_lt : g.pc = .select → g.start.toInt < E.toInt
  start_eq : g.sent = [] → g.start = S
  /-- `BatchSize ≤ 0`: no range sent can be completed. -/
  nonpos : o.batchSize.toInt ≤ 0 → ∀ r ∈ g.sent, r.start.toInt ≤ r.end_.toInt →
    r.start.toInt < 0 ∨ r.end_.toInt = 9223372036854775807
  /-- `BatchSize ≥ 1`, `StartIndex < 0`: the first range is non-empty and starts below 0. -/
  neg : 1 ≤ o.batchSize.toInt → S.toInt < 0 → ∀ r ∈ g.sent.head?,
    r.start.toInt < 0 ∧ r.start.toInt ≤ r.end_.toInt
  /-- `BatchSize ≥ 1`, `StartIndex ≥ 0`: the ranges tile `[S, start)`, below `E`. -/
  pos : 1 ≤ o.batchSize.toInt → 0 ≤ S.toInt →
    S.toInt ≤ g.start.toInt ∧ (S.toInt ≤ E.toInt → g.start.toInt ≤ E.toInt) ∧
    (E.toInt < S.toInt → g.sent = []) ∧
    (∀ i, g.sent.countP (·.covers i) = if S.toInt ≤ i ∧ i < g.start.toInt then 1 else 0) ∧
    ∀ r ∈ g.sent, 0 ≤ r.start.toInt ∧ r.start.toInt ≤ r.end_.toInt ∧ r.end_.toInt < E.toInt

theorem Generator.batchInv_init (o : FetcherOptions) :
    (Generator.init o).BatchInv o' o.startIndex o.endIndex where
  end_eq := rfl
  pc_ne := by simp [Generator.init]
  select_lt := by simp [Generator.init]
  start_eq _ := rfl
  nonpos := by simp [Generator.init]
  neg := by simp [Generator.init]
  pos _ _ := by
    refine ⟨Int.le_refl _, fun _ => ?_, fun _ => rfl, fun i => ?_, by simp [Generator.init]⟩
    · assumption
    · simp only [Generator.init, List.countP_nil]; split_ifs <;> omega

/-- The send step, the one that changes what was sent. -/
theorem Generator.BatchInv.send {g : Generator} (hi : g.BatchInv o S E) (hp : g.pc = .select) :
    ({ g with start := (nextRange o.batchSize g.start g.end_).2, pc := .loop,
               sent := g.sent ++ [(nextRange o.batchSize g.start g.end_).1] } : Generator).BatchInv o S E := by
  obtain ⟨hend, _, hsel, hstart, hnp, hneg, hpos⟩ := hi
  have hlt := hsel hp
  subst hend
  refine ⟨rfl, by simp, by simp, by simp, fun hb r hr hne => ?_, fun hb hS r hr => ?_, fun hb hS => ?_⟩
  · rcases List.mem_append.1 hr with hr | hr
    · exact hnp hb r hr hne
    · obtain rfl := List.mem_singleton.1 hr
      exact nextRange_of_nonpos hb hne
  · rcases hsent : g.sent with _ | ⟨x, xs⟩
    · obtain ⟨hrs, hne⟩ := nextRange_of_neg hb ((hstart hsent).symm ▸ hS) hlt
      simp only [hsent, List.nil_append, List.head?_cons, Option.mem_def, Option.some.injEq] at hr
      subst hr
      exact ⟨hrs ▸ (hstart hsent).symm ▸ hS, hne⟩
    · exact hneg hb hS r (by simpa [hsent] using hr)
  · dsimp only
    obtain ⟨hSs, -, -, hcov, hrs⟩ := hpos hb hS
    obtain ⟨hrs', hre, hlt', hle, -⟩ := nextRange_of_pos hb (Int.le_trans hS hSs) hlt
    refine ⟨by omega, fun _ => hle, fun _ => by omega, fun i => ?_, fun r hr => ?_⟩
    · rw [countP_covers_append (hcov i) hSs (by rw [hrs']) (by omega), hre]
      simp only [Int.sub_add_cancel]
    · rcases List.mem_append.1 hr with hr | hr
      · exact hrs r hr
      · obtain rfl := List.mem_singleton.1 hr
        rw [hrs', hre]
        omega

theorem Generator.BatchInv.step {g g' : Generator} {e : GenEvent} (hc : o.continuous = false)
    (hi : g.BatchInv o S E) (h : Generator.Step o g e g') : g'.BatchInv o S E := by
  cases h with
  | exit _ _ => exact { hi with pc_ne := by simp, select_lt := by simp }
  | enter _ hlt _ =>
    simp only [hc, Bool.false_eq_true, or_false, Int64.lt_iff] at hlt
    exact { hi with pc_ne := by simp, select_lt := fun _ => hi.end_eq ▸ hlt }
  | wait _ hlt heq => simp [hc, heq] at hlt
  | deadline l t hp => exact absurd hp (hi.pc_ne _ _ _)
  | sth l t q _ hp _ => exact absurd hp (hi.pc_ne _ _ _)
  | send hp => exact hi.send hp
  | cancel _ => exact { hi with pc_ne := by simp, select_lt := by simp }

/-- **What `Run` needs of the generator.**  If every non-empty range sent so far can be
completed (starts at 0 or above, ends below `2^63-1`), the ranges sent cover each index
at most once, and cover nothing or exactly `[S, e)` for some `e ≤ E`. -/
theorem Generator.BatchInv.sent_cover {g : Generator} (hi : g.BatchInv o S E)
    (hgood : ∀ r ∈ g.sent, r.start.toInt ≤ r.end_.toInt →
      0 ≤ r.start.toInt ∧ r.end_.toInt < 9223372036854775807) :
    (∀ i, g.sent.countP (·.covers i) ≤ 1) ∧
    ((∀ i, g.sent.countP (·.covers i) = 0) ∨
      ∃ e : Int, e ≤ E.toInt ∧ ∀ i, 0 < g.sent.countP (·.covers i) ↔ S.toInt ≤ i ∧ i < e) := by
  have hnone : (∀ r ∈ g.sent, ¬ r.start.toInt ≤ r.end_.toInt) →
      ∀ i, g.sent.countP (·.covers i) = 0 := fun hne i =>
    List.countP_eq_zero.2 fun r hr hc => hne r hr (by
      simp only [FetchRange.covers, decide_eq_true_eq] at hc; omega)
  by_cases hb : 1 ≤ o.batchSize.toInt
  · by_cases hS : 0 ≤ S.toInt
    · obtain ⟨hSs, hsE, hES, hcov, -⟩ := hi.pos hb hS
      by_cases hle : S.toInt ≤ E.toInt
      · refine ⟨fun i => by rw [hcov]; split_ifs <;> omega, .inr ⟨g.start.toInt, hsE hle, fun i => ?_⟩⟩
        rw [hcov]; split_ifs <;> simp_all
      · have h0 := hnone (by simp [hES (by omega)])
        exact ⟨fun i => by simp [h0], .inl h0⟩
    · have h0 := hnone fun r hr hne => by
        obtain ⟨x, xs, hx⟩ := List.exists_cons_of_ne_nil (List.ne_nil_of_mem hr)
        have := hi.neg hb (by omega) x (by simp [hx])
        have := hgood x (by simp [hx]) this.2
        omega
      exact ⟨fun i => by simp [h0], .inl h0⟩
  · have h0 := hnone fun r hr hne => by
      have := hi.nonpos (by omega) r hr hne
      have := hgood r hr hne
      omega
    exact ⟨fun i => by simp [h0], .inl h0⟩

end NonContinuous

/-! ## §3. In continuous mode. -/

/-- Continuous options whose `StartIndex` lies beyond the log's first STH. -/
def lateStartOptions : FetcherOptions :=
  { defaultFetcherOptions with batchSize := 5, startIndex := 10, continuous := true }

/-- The first STH has 5 entries, so `Prepare` sets `EndIndex = 5 < StartIndex = 10`: the
generator sends the inverted range `{10, 4}` and goes on from `start = 5`; once an STH of
20 entries is accepted it sends `{5, 9}`, below `StartIndex`. -/
theorem genRanges_restarts_below_startIndex :
    ∃ g : Generator, Generator.Reachable (lateStartOptions.prepare 5) (fun _ => True) g ∧
      g.sent = [⟨10, 4⟩, ⟨5, 9⟩] ∧ (∃ r ∈ g.sent, r.end_ < r.start) ∧
      ∃ r ∈ g.sent, r.start ≤ r.end_ ∧ r.start < lateStartOptions.startIndex := by
  have hrun : Relation.ReflTransGen
      (fun g g' => ∃ e, e.AllowedBy (fun _ => True) ∧ Generator.Step (lateStartOptions.prepare 5) g e g')
      (Generator.init (lateStartOptions.prepare 5)) _ :=
    .tail (.tail (.tail (.tail (.tail .refl
      ⟨_, by trivial, .enter _ rfl (.inr rfl) (by decide)⟩)
      ⟨_, by trivial, .send _ rfl⟩)
      ⟨_, by trivial, .wait _ rfl (.inr rfl) (by decide)⟩)
      ⟨_, by trivial, .sth _ _ _ _ 20 rfl (by decide)⟩)
      ⟨_, by trivial, .send _ rfl⟩
  exact ⟨_, hrun, by decide, by decide, by decide⟩

/-- The tree sizes that `int64(sth.TreeSize)` keeps. -/
def Int64Sized (t : UInt64) : Prop := t.toNat < 9223372036854775808

section Continuous

variable {o : FetcherOptions} {S : Int64}

/-- What the generator has sent in continuous mode, from `start = S`. -/
structure Generator.ContInv (o : FetcherOptions) (S : Int64) (g : Generator) : Prop where
  le_start : S.toInt ≤ g.start.toInt
  start_le : g.start.toInt ≤ g.end_.toInt
  end_eq : g.end_ = g.endIndex
  select_lt : g.pc = .select → g.start.toInt < g.end_.toInt
  wait_eq : ∀ l t q, g.pc = .updateSTH l t q → l = g.endIndex.toUInt64 ∧ g.start = g.end_
  start_eq : g.sent = [] → g.start = S
  head_eq : ∀ r ∈ g.sent.head?, r.start = S
  last_eq : ∀ r ∈ g.sent.getLast?, r.end_.toInt + 1 = g.start.toInt
  chain : g.sent.Chain' fun r r' => r'.start.toInt = r.end_.toInt + 1
  cover : ∀ i, g.sent.countP (·.covers i) = if S.toInt ≤ i ∧ i < g.start.toInt then 1 else 0
  ranges : ∀ r ∈ g.sent, r.start.toInt ≤ r.end_.toInt ∧
    r.end_.toInt - r.start.toInt + 1 ≤ o.batchSize.toInt ∧ r.end_.toInt < g.endIndex.toInt

theorem Generator.contInv_init {o' : FetcherOptions} (h : o.startIndex.toInt ≤ o.endIndex.toInt) :
    (Generator.init o).ContInv o' o.startIndex where
  le_start := Int.le_refl _
  start_le := h
  end_eq := rfl
  select_lt := by simp [Generator.init]
  wait_eq := by simp [Generator.init]
  start_eq _ := rfl
  head_eq := by simp [Generator.init]
  last_eq := by simp [Generator.init]
  chain := List.chain'_nil
  cover i := by simp only [Generator.init, List.countP_nil]; split_ifs <;> omega
  ranges := by simp [Generator.init]

/-- An accepted STH within `int64` moves `end` past `start`. -/
theorem Generator.ContInv.sth {g : Generator} {l t : UInt64} {q : Bool} {size : UInt64}
    (hi : g.ContInv o S) (hS : 0 ≤ S.toInt) (hp : g.pc = .updateSTH l t q)
    (ha : sthAccepted l t size q = true) (hsize : Int64Sized size) :
    ({ g with endIndex := .ofUInt64 size, end_ := .ofUInt64 size, pc := .select } : Generator).ContInv o S := by
  obtain ⟨rfl, heq⟩ := hi.wait_eq l t q hp
  have hend := hi.end_eq
  have h0 : 0 ≤ g.endIndex.toInt := by have := hi.le_start; rw [heq, hend] at this; omega
  have hlt : g.endIndex.toInt < (Int64.ofUInt64 size).toInt := by
    simp only [sthAccepted, Bool.not_eq_true', Bool.or_eq_false_iff, decide_eq_false_iff_not,
      uint64_le_iff, Nat.not_le] at ha
    rw [Int64.toInt_ofUInt64_of_lt hsize]
    have := Int64.toNat_toUInt64_of_nonneg h0
    omega
  have hse : g.start.toInt = g.endIndex.toInt := by rw [heq, hend]
  exact { hi with
    start_le := by dsimp only; omega
    end_eq := rfl
    select_lt := fun _ => by dsimp only; omega
    wait_eq := by simp
    ranges := fun r hr => by have := hi.ranges r hr; dsimp only; omega }

/-- The send step. -/
theorem Generator.ContInv.send {g : Generator} (hi : g.ContInv o S) (hb : 1 ≤ o.batchSize.toInt)
    (hS : 0 ≤ S.toInt) (hp : g.pc = .select) :
    ({ g with start := (nextRange o.batchSize g.start g.end_).2, pc := .loop,
               sent := g.sent ++ [(nextRange o.batchSize g.start g.end_).1] } : Generator).ContInv o S := by
  have hlt := hi.select_lt hp
  obtain ⟨hrs, hre, hlt', hle, hlen⟩ := nextRange_of_pos hb (Int.le_trans hS hi.le_start) hlt
  have hend := hi.end_eq
  refine ⟨by dsimp only; have := hi.le_start; omega, by dsimp only; omega, hend, by simp, by simp,
    by simp, fun r hr => ?_, fun r hr => ?_, ?_, fun i => ?_, fun r hr => ?_⟩
  · rcases hsent : g.sent with _ | ⟨x, xs⟩
    · simp only [hsent, List.nil_append, List.head?_cons, Option.mem_def, Option.some.injEq] at hr
      rw [← hr, hrs, hi.start_eq hsent]
    · exact hi.head_eq r (by simpa [hsent] using hr)
  · simp only [List.getLast?_append, List.getLast?_singleton, Option.mem_def] at hr
    obtain rfl := Option.some.inj hr
    dsimp only
    omega
  · refine List.chain'_append.2 ⟨hi.chain, List.chain'_singleton _, fun x hx y hy => ?_⟩
    simp only [List.head?_cons, Option.mem_def, Option.some.injEq] at hy
    rw [← hy, hrs, hi.last_eq x hx]
  · rw [countP_covers_append (hi.cover i) hi.le_start (by rw [hrs]) (by omega), hre]
    simp only [Int.sub_add_cancel]
  · rcases List.mem_append.1 hr with hr | hr
    · exact hi.ranges r hr
    · obtain rfl := List.mem_singleton.1 hr
      rw [hrs, hre, ← hend]
      omega

theorem Generator.ContInv.step {g g' : Generator} {e : GenEvent} (hc : o.continuous = true)
    (hb : 1 ≤ o.batchSize.toInt) (hS : 0 ≤ S.toInt) (hi : g.ContInv o S)
    (he : e.AllowedBy Int64Sized) (h : Generator.Step o g e g') : g'.ContInv o S := by
  cases h with
  | exit _ hc' => simp [hc] at hc'
  | enter _ _ hne =>
    have : g.start.toInt ≠ g.end_.toInt := fun h => hne (Int64.ext h)
    exact { hi with select_lt := fun _ => by have := hi.start_le; dsimp only; omega, wait_eq := by simp }
  | wait _ _ heq => exact { hi with select_lt := by simp, wait_eq := by simp [heq] }
  | deadline l t hp =>
    exact { hi with select_lt := by simp, wait_eq := by simpa using hi.wait_eq l t true hp }
  | sth l t q size hp ha => exact hi.sth hS hp ha he
  | send hp => exact hi.send hb hS hp
  | cancel _ => exact { hi with select_lt := by simp, wait_eq := by simp }

theorem Generator.Reachable.contInv {g : Generator} (hc : o.continuous = true)
    (hb : 1 ≤ o.batchSize.toInt) (hS : 0 ≤ o.startIndex.toInt)
    (hse : o.startIndex.toInt ≤ o.endIndex.toInt) (hg : g.Reachable o Int64Sized) :
    g.ContInv o o.startIndex := by
  induction hg with
  | refl => exact Generator.contInv_init hse
  | tail _ h ih =>
    obtain ⟨e, he, h⟩ := h
    exact ih.step hc hb hS he h

end Continuous

/-- **The ranges of a continuous fetch.**  With `BatchSize ≥ 1`, `0 ≤ StartIndex ≤ EndIndex`
as `Prepare` set it, and tree sizes below 2^63: the first range sent starts at
`StartIndex`; every range sent is non-empty, at most `BatchSize` long, and ends below
`EndIndex` (the one configured, or the latest accepted STH's size); each range starts one
past the end of the one before; so no index below `StartIndex` is requested, and none twice. -/
theorem genRanges_contiguous_from_startIndex {o : FetcherOptions} {t : UInt64} {g : Generator}
    (hc : o.continuous = true) (hb : 1 ≤ o.batchSize.toInt) (hS : 0 ≤ o.startIndex.toInt)
    (hse : o.startIndex.toInt ≤ (o.prepare t).endIndex.toInt)
    (hg : g.Reachable (o.prepare t) Int64Sized) :
    (∀ r ∈ g.sent.head?, r.start = o.startIndex) ∧
    (∀ r ∈ g.sent, r.start.toInt ≤ r.end_.toInt ∧
      r.end_.toInt - r.start.toInt + 1 ≤ o.batchSize.toInt ∧ r.end_.toInt < g.endIndex.toInt) ∧
    g.sent.Chain' (fun r r' => r'.start.toInt = r.end_.toInt + 1) ∧
    (∀ r ∈ g.sent, o.startIndex.toInt ≤ r.start.toInt) ∧
    ∀ i, g.sent.countP (·.covers i) ≤ 1 := by
  have hi := hg.contInv (by simpa using hc) (by simpa using hb) (by simpa using hS) (by simpa using hse)
  simp only [FetcherOptions.prepare_startIndex] at hi
  refine ⟨hi.head_eq, fun r hr => by simpa using hi.ranges r hr, hi.chain, fun r hr => ?_, fun i => ?_⟩
  · have hpos : 0 < g.sent.countP (·.covers r.start.toInt) :=
      List.countP_pos_iff.2 ⟨r, hr, by simp [FetchRange.covers, (hi.ranges r hr).1]⟩
    rw [hi.cover] at hpos
    split_ifs at hpos with h <;> omega
  · rw [hi.cover]; split_ifs <;> omega

end CertTransparency.Scanner
