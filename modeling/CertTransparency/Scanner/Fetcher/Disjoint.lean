/-
  CertTransparency.Scanner.Fetcher.Disjoint — against a log that may truncate its
  answers, the batches `Run` passes to `fn` never overlap, and a graceful `Stop`
  leaves no hole.

  A worker's batches tile `[orig.start, reached)` of its range: each starts where the
  last ended, since `r.start` moves by the length of the response (`FetchInv`).  So
  the batches count each index as often as the completed ranges and the workers'
  spans do (`CountInv.count`).  A range is completed only if it can be: a log has no
  entry at a negative index, so a worker on such a range only ever gets empty
  responses, and `r.start` never passes `2^63-1` (`FetchInv.good`).  When `Run`
  returns every range sent was completed, so each was good, and
  `Generator.BatchInv.sent_cover` says how they tile.
-/
import CertTransparency.Scanner.Fetcher.Run

namespace CertTransparency.Scanner

/-! ## §1. A worker against a truncating log. -/

/-- The worker has passed index `i` to `fn` for the range it holds. -/
def WorkerPc.holds (i : Int) : WorkerPc → Bool
  | .fetching orig _ reached => decide (orig.start.toInt ≤ i ∧ i < reached)
  | _ => false

/-- What a worker on `orig`, now at `r`, keeps: its batches tile `[orig.start, reached)`,
and `r.start` is `reached` unless it wrapped past `2^63-1`, after which it is stuck. -/
structure FetchInv (orig r : FetchRange) (reached : Int) : Prop where
  end_eq : r.end_ = orig.end_
  orig_le : orig.start.toInt ≤ reached
  le_end : reached = orig.start.toInt ∨ reached ≤ orig.end_.toInt + 1
  at_start : reached = r.start.toInt ∨ r.start.toInt < 0 ∧ r.start.toInt ≤ r.end_.toInt
  /-- a range from a negative index gets no entry -/
  neg : orig.start.toInt < 0 → r = orig

/-- The invariant of each worker. -/
def WorkerPc.Inv : WorkerPc → Prop
  | .fetching orig r reached => FetchInv orig r reached
  | _ => True

section FetchInv

variable {log : List LeafEntry} {orig r : FetchRange} {reached : Int} {es : List LeafEntry}

theorem fetchInv_handOff (r : FetchRange) : FetchInv r r r.start.toInt :=
  ⟨rfl, Int.le_refl _, .inl rfl, .inl rfl, fun _ => rfl⟩

theorem FetchInv.fetch (h : FetchInv orig r reached) (hr : r.start ≤ r.end_)
    (ha : LogAnswers log r es) :
    FetchInv orig { r with start := r.start + .ofNat es.length } (reached + es.length) := by
  obtain ⟨rs, re⟩ := r
  obtain ⟨hlen, rfl | ⟨hs, -⟩⟩ := ha
  · simpa using h
  · have hst := Int64.toInt_add rs (.ofNat es.length)
    rw [show (Int64.ofNat es.length).toInt = _ from Int64.toInt_wrap _] at hst
    have := re.lt_max
    obtain ⟨he, ho, hle, hat, hneg⟩ := h
    dsimp only at he hat hneg hr hlen hs
    simp only [Int64.le_iff] at hr
    show FetchInv orig ⟨rs + .ofNat es.length, re⟩ (reached + es.length)
    refine ⟨he, by omega, by subst he; omega, by dsimp only; omega, fun hn => ?_⟩
    cases hneg hn
    dsimp only at hn
    omega

/-- `fn(EntryBatch{r.start, es})` adds to the worker's span exactly the indices of the batch. -/
theorem FetchInv.holds_fetch (h : FetchInv orig r reached) (ha : LogAnswers log r es) (i : Int) :
    (if (WorkerPc.fetching orig { r with start := r.start + .ofNat es.length }
        (reached + es.length)).holds i then 1 else 0) =
      (if (WorkerPc.fetching orig r reached).holds i then 1 else 0) +
        (if (⟨r.start, es⟩ : EntryBatch).covers i then 1 else 0) := by
  simp only [WorkerPc.holds, EntryBatch.covers, decide_eq_true_eq]
  obtain ⟨-, rfl | ⟨hs, -⟩⟩ := ha
  · simp [Int.not_lt]
  · have : reached = r.start.toInt := h.at_start.resolve_right (by omega)
    have := h.orig_le
    split_ifs <;> omega

/-- On `r.start > r.end` the worker's span is its whole range. -/
theorem FetchInv.holds_done (h : FetchInv orig r reached) (hr : ¬ r.start ≤ r.end_) (i : Int) :
    (WorkerPc.fetching orig r reached).holds i = orig.covers i := by
  obtain ⟨he, ho, hle, hat, -⟩ := h
  have he' : r.end_.toInt = orig.end_.toInt := by rw [he]
  simp only [Int64.le_iff, Int.not_le] at hr
  simp only [WorkerPc.holds, FetchRange.covers]
  congr 1
  apply propext
  omega

/-- A range is completed only if a log can serve it: it starts at 0 or above and ends
below `2^63-1`. -/
theorem FetchInv.good (h : FetchInv orig r reached) (hr : ¬ r.start ≤ r.end_)
    (hne : orig.start.toInt ≤ orig.end_.toInt) :
    0 ≤ orig.start.toInt ∧ orig.end_.toInt < 9223372036854775807 := by
  have := r.start.lt_max
  simp only [Int64.le_iff, h.end_eq, Int.not_le] at hr
  refine ⟨Int.not_lt.1 fun hn => ?_, by omega⟩
  cases h.neg hn
  omega

end FetchInv

/-! ## §2. The counting invariant. -/

/-- Each batch of an index `i` is counted by a completed range or a worker's span. -/
structure RunState.CountInv (s : RunState) : Prop where
  workers : ∀ w ∈ s.workers, w.Inv
  good : ∀ r ∈ s.completed, r.start.toInt ≤ r.end_.toInt →
    0 ≤ r.start.toInt ∧ r.end_.toInt < 9223372036854775807
  count : ∀ i, s.batches.countP (·.covers i) =
    s.completed.countP (·.covers i) + s.workers.countP (·.holds i)

section CountInv

variable {o : FetcherOptions} {log : List LeafEntry} {s t : RunState}

theorem RunState.countInv_init (o : FetcherOptions) : (RunState.init o).CountInv where
  workers := by simp [RunState.init, WorkerPc.Inv]
  good := by simp [RunState.init]
  count i := by simp [RunState.init, List.countP_replicate, WorkerPc.holds]

theorem RunState.CountInv.step (hi : s.CountInv) (h : RunState.Step o (LogAnswers log) s t)
    (hc : t.ctxDone = false) : t.CountInv := by
  have hreceiving : ∀ i, (if WorkerPc.receiving.holds i = true then 1 else 0) = 0 := fun _ => rfl
  cases h with
  | gen | genCancel | stop | cancelCtx => exact ⟨hi.workers, hi.good, hi.count⟩
  | handOff r _ pre post _ hw =>
    have hws := hi.workers; rw [hw] at hws
    refine ⟨forall_mem_replace hws (fetchInv_handOff r), hi.good, fun i => ?_⟩
    have h1 := hi.count i
    have h2 : (WorkerPc.fetching r r r.start.toInt).holds i = false := by
      simp only [WorkerPc.holds, decide_eq_false_iff_not]; omega
    dsimp only
    simp only [hw, List.countP_append, List.countP_cons, h2, hreceiving] at h1 ⊢
    exact h1
  | close pre post _ hw =>
    have hws := hi.workers; rw [hw] at hws
    refine ⟨forall_mem_replace hws trivial, hi.good, fun i => ?_⟩
    have h1 := hi.count i
    dsimp only
    simp only [hw, List.countP_append, List.countP_cons, hreceiving,
      show WorkerPc.exited.holds i = false from rfl] at h1 ⊢
    exact h1
  | ctxErr _ _ _ _ _ _ _ hc' => simp_all
  | rangeDone orig r reached pre post hw hr =>
    have hws := hi.workers; rw [hw] at hws
    have hx : FetchInv orig r reached := hws (.fetching orig r reached) (by simp)
    refine ⟨forall_mem_replace hws trivial, fun r' hr' => ?_, fun i => ?_⟩
    · rcases List.mem_append.1 hr' with hr' | hr'
      · exact hi.good r' hr'
      · obtain rfl := List.mem_singleton.1 hr'
        exact hx.good hr
    · have h1 := hi.count i
      dsimp only
      simp only [hw, List.countP_append, List.countP_cons, List.countP_nil,
        hx.holds_done hr i, hreceiving] at h1 ⊢
      omega
  | fetch orig r reached pre post es hw hr ha =>
    have hws := hi.workers; rw [hw] at hws
    have hx : FetchInv orig r reached := hws (.fetching orig r reached) (by simp)
    refine ⟨forall_mem_replace hws (hx.fetch hr ha), hi.good, fun i => ?_⟩
    have h1 := hi.count i
    have h2 := hx.holds_fetch ha i
    dsimp only
    simp only [hw, List.countP_append, List.countP_cons, List.countP_nil] at h1 ⊢
    omega

theorem RunState.Reachable.countInv {tsz : UInt64} (hs : s.Reachable o (LogAnswers log) tsz)
    (hc : s.ctxDone = false) : s.CountInv := by
  induction hs with
  | refl => exact RunState.countInv_init _
  | tail _ h ih => exact (ih (h.ctxDone_of hc)).step h hc

end CountInv

/-! ## §3. What `fn` has seen when `Run` returns. -/

/-- Items that no index lies in twice are pairwise disjoint. -/
theorem pairwise_disjoint_of_countP_le_one {α : Type} {l : List α} {p : α → Int → Bool}
    (h : ∀ i, l.countP (p · i) ≤ 1) :
    l.Pairwise fun a b => ∀ i, ¬ (p a i = true ∧ p b i = true) := by
  induction l with
  | nil => exact .nil
  | cons a l ih =>
    refine List.pairwise_cons.2 ⟨fun b hb i ⟨ha, hb'⟩ => ?_, ih fun i => ?_⟩
    · have h1 := h i
      have : 0 < l.countP (p · i) := List.countP_pos_iff.2 ⟨b, hb, hb'⟩
      simp only [List.countP_cons, ha, if_true] at h1
      omega
    · have := h i
      simp only [List.countP_cons] at this
      omega

/-- **The batches never overlap, and a graceful `Stop` leaves no hole.**  Without
`Continuous`, for every option value, every log that answers `GetRawEntries(start, end)`
with its entries from `start` on, possibly fewer than asked, every interleaving of the
workers and every moment of `Stop`, the caller's `ctx` never cancelled: when `Run` returns,
the spans of the batches passed to `fn` are pairwise disjoint, and their union is empty or
`[StartIndex, e)` for some `e ≤ EndIndex` (as `Prepare` set it). -/
theorem run_batches_disjoint_gapless {o : FetcherOptions} {log : List LeafEntry} {t : UInt64}
    {s : RunState} (hc : o.continuous = false) (hs : s.Reachable o (LogAnswers log) t)
    (hctx : s.ctxDone = false) (hr : s.Returned) :
    s.batches.Pairwise (fun b b' => ∀ i, ¬ (b.covers i = true ∧ b'.covers i = true)) ∧
    ((∀ i, ¬ ∃ b ∈ s.batches, b.covers i = true) ∨
      ∃ e : Int, e ≤ (o.prepare t).endIndex.toInt ∧
        ∀ i, (∃ b ∈ s.batches, b.covers i = true) ↔ o.startIndex.toInt ≤ i ∧ i < e) := by
  have hperm := (hs.runInv hctx).completed_perm hr
  have hcnt := hs.countInv hctx
  have hb : s.gen.BatchInv o (o.prepare t).startIndex (o.prepare t).endIndex :=
    hs.gen (P := fun g => g.BatchInv o (o.prepare t).startIndex (o.prepare t).endIndex)
      (Generator.batchInv_init _) fun _ _ _ hg h => hg.step hc h
  have heq : ∀ i, s.batches.countP (·.covers i) = s.gen.sent.countP (·.covers i) := fun i => by
    have h0 : s.workers.countP (·.holds i) = 0 :=
      List.countP_eq_zero.2 fun w hw => by rw [hr w hw]; simp [WorkerPc.holds]
    rw [hcnt.count i, h0, Nat.add_zero, hperm.countP_eq]
  obtain ⟨hle, hcov⟩ := hb.sent_cover fun r hr' => hcnt.good r (hperm.mem_iff.2 hr')
  have hmem : ∀ i, (∃ b ∈ s.batches, b.covers i = true) ↔ 0 < s.gen.sent.countP (·.covers i) :=
    fun i => by rw [← heq, List.countP_pos_iff]
  refine ⟨pairwise_disjoint_of_countP_le_one fun i => heq i ▸ hle i, ?_⟩
  rcases hcov with h0 | ⟨e, he, hcov⟩
  · exact .inl fun i => by rw [hmem, h0]; omega
  · exact .inr ⟨e, he, fun i => by rw [hmem, hcov]; simp⟩

/-- The theorem on a run that passes two batches to `fn`: one entry per batch against a
two-entry log. -/
theorem run_batches_disjoint_gapless_two_batches :
    ∃ s : RunState, oneEntryBatchOptions.continuous = false ∧
      s.Reachable oneEntryBatchOptions (LogAnswers twoEntryLog) 2 ∧ s.ctxDone = false ∧
      s.Returned ∧ s.batches = [⟨0, [⟨[0], []⟩]⟩, ⟨1, [⟨[1], []⟩]⟩] ∧
      s.batches.Pairwise (fun b b' => ∀ i, ¬ (b.covers i = true ∧ b'.covers i = true)) ∧
      ((∀ i, ¬ ∃ b ∈ s.batches, b.covers i = true) ∨
        ∃ e : Int, e ≤ (oneEntryBatchOptions.prepare 2).endIndex.toInt ∧
          ∀ i, (∃ b ∈ s.batches, b.covers i = true) ↔
            oneEntryBatchOptions.startIndex.toInt ≤ i ∧ i < e) :=
  let ⟨s, hs, _, hctx, hr, hb⟩ := twoBatchRun_returns
  ⟨s, rfl, hs, hctx, hr, hb, run_batches_disjoint_gapless rfl hs hctx hr⟩

end CertTransparency.Scanner
