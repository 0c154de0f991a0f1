/-
  CertTransparency.Scanner.Fetcher.Complete — with a worker, `Run` never reports
  success with work left undone.

  A worker completes a range only once `fn` has had every index of it: its batches
  start at `r.start`, `r.start` moves by their length, and a length that carries
  `r.start` past `2^63-1` has covered the rest of the range (`DeliverInv`).  With a
  worker, `Run` returns without `Stop` or `ctx` only after the generator's loop ended
  at `start ≥ EndIndex` and every range sent was completed; the ranges sent cover
  `[StartIndex, start)` for every batch size (`Generator.Covers`).  So every index of
  `[StartIndex, EndIndex)` was delivered, whatever the log answered.

  With `ParallelFetch ≤ 0` no worker starts and `Run` returns at once with
  nothing fetched (`run_returns_without_workers`), although its doc comment says
  it blocks until scanning is complete, `ctx` is cancelled or `Stop` is called.
-/
import CertTransparency.Scanner.Fetcher.Run

namespace CertTransparency.Scanner

open Relation

/-! ## §1. What a worker has delivered. -/

/-- Index `i` was passed to `fn` in some batch. -/
def Delivered (bs : List EntryBatch) (i : Int) : Prop := ∃ b ∈ bs, b.covers i = true

theorem Delivered.mono {bs bs' : List EntryBatch} {i : Int} (h : Delivered bs i) :
    Delivered (bs ++ bs') i :=
  let ⟨b, hb, hc⟩ := h
  ⟨b, List.mem_append_left _ hb, hc⟩

/-- A worker on `orig` has delivered `[orig.start, r.start)`, or all of `orig`. -/
def WorkerPc.Delivering (bs : List EntryBatch) : WorkerPc → Prop
  | .fetching orig r _ => r.end_ = orig.end_ ∧
      ((orig.start.toInt ≤ r.start.toInt ∧
          ∀ i, orig.start.toInt ≤ i → i < r.start.toInt → Delivered bs i) ∨
        ∀ i, orig.covers i = true → Delivered bs i)
  | _ => True

section Delivering

variable {bs : List EntryBatch} {orig r : FetchRange} {reached : Int}

theorem WorkerPc.Delivering.mono {bs' : List EntryBatch} :
    ∀ {w : WorkerPc}, w.Delivering bs → w.Delivering (bs ++ bs')
  | .fetching .., ⟨he, .inl ⟨hs, h⟩⟩ => ⟨he, .inl ⟨hs, fun i h₁ h₂ => (h i h₁ h₂).mono⟩⟩
  | .fetching .., ⟨he, .inr h⟩ => ⟨he, .inr fun i hi => (h i hi).mono⟩
  | .receiving, _ | .exited, _ => trivial

/-- `fn(EntryBatch{r.start, es})` then `r.start += int64(len(es))`, for any `es`. -/
theorem WorkerPc.Delivering.fetch {es : List LeafEntry}
    (h : (WorkerPc.fetching orig r reached).Delivering bs) :
    (WorkerPc.fetching orig { r with start := r.start + .ofNat es.length }
      (reached + es.length)).Delivering (bs ++ [⟨r.start, es⟩]) := by
  obtain ⟨he, h⟩ := h
  have hnew : ∀ i, r.start.toInt ≤ i → i < r.start.toInt + es.length →
      Delivered (bs ++ [⟨r.start, es⟩]) i := fun i h₁ h₂ =>
    ⟨_, List.mem_append_right _ (List.mem_singleton_self _), by simp [EntryBatch.covers, h₁, h₂]⟩
  refine ⟨he, ?_⟩
  rcases h with ⟨hs, hd⟩ | hd
  · by_cases hn : r.start.toInt + es.length < 9223372036854775808
    · left
      dsimp only
      rw [Int64.toInt_add_ofNat hn]
      refine ⟨by omega, fun i h₁ h₂ => ?_⟩
      by_cases hi : i < r.start.toInt
      · exact (hd i h₁ hi).mono
      · exact hnew i (by omega) h₂
    · -- the length carried `r.start` past `2^63-1`: the batch covers the rest of `orig`
      refine .inr fun i hi => ?_
      simp only [FetchRange.covers, decide_eq_true_eq] at hi
      have := orig.end_.lt_max
      by_cases hi' : i < r.start.toInt
      · exact (hd i hi.1 hi').mono
      · exact hnew i (by omega) (by omega)
  · exact .inr fun i hi => (hd i hi).mono

/-- `r.start > r.end`: the whole range was delivered. -/
theorem WorkerPc.Delivering.done (h : (WorkerPc.fetching orig r reached).Delivering bs)
    (hr : ¬ r.start ≤ r.end_) : ∀ i, orig.covers i = true → Delivered bs i := by
  obtain ⟨he, ⟨-, hd⟩ | hd⟩ := h
  · intro i hi
    simp only [FetchRange.covers, decide_eq_true_eq] at hi
    simp only [Int64.le_iff, he, Int.not_le] at hr
    exact hd i hi.1 (by omega)
  · exact hd

end Delivering

/-! ## §2. The delivery invariant. -/

section DeliverInv

variable {o : FetcherOptions} {answers : FetchRange → List LeafEntry → Prop} {s t : RunState}

/-- Each worker's progress, and every completed range, was delivered. -/
structure RunState.DeliverInv (s : RunState) : Prop where
  workers : ∀ w ∈ s.workers, w.Delivering s.batches
  completed : ∀ r ∈ s.completed, ∀ i, r.covers i = true → Delivered s.batches i

theorem RunState.deliverInv_init (o : FetcherOptions) : (RunState.init o).DeliverInv :=
  ⟨by simp [RunState.init, WorkerPc.Delivering], by simp [RunState.init]⟩

theorem RunState.DeliverInv.step (hi : s.DeliverInv) (h : RunState.Step o answers s t) :
    t.DeliverInv := by
  cases h with
  | gen | genCancel | stop | cancelCtx => exact ⟨hi.workers, hi.completed⟩
  | handOff r _ pre post _ hw =>
    have hws := hi.workers; rw [hw] at hws
    exact ⟨forall_mem_replace hws ⟨rfl, .inl ⟨Int.le_refl _, fun _ _ h₂ => absurd h₂ (by omega)⟩⟩,
      hi.completed⟩
  | close pre post _ hw | ctxErr _ _ _ pre post hw _ _ =>
    have hws := hi.workers; rw [hw] at hws
    exact ⟨forall_mem_replace hws trivial, hi.completed⟩
  | rangeDone orig r reached pre post hw hr =>
    have hws := hi.workers; rw [hw] at hws
    refine ⟨forall_mem_replace hws trivial, fun r' hr' => ?_⟩
    rcases List.mem_append.1 hr' with hr' | hr'
    · exact hi.completed r' hr'
    · obtain rfl := List.mem_singleton.1 hr'
      exact (hws (.fetching _ r reached) (by simp)).done hr
  | fetch orig r reached pre post es hw _ _ =>
    have hws := hi.workers; rw [hw] at hws
    exact ⟨forall_mem_replace (fun w hm => (hws w hm).mono) (hws _ (by simp)).fetch,
      fun r' hr' i hc => (hi.completed r' hr' i hc).mono⟩

theorem RunState.Reachable.deliverInv {tsz : UInt64} (hs : s.Reachable o answers tsz) :
    s.DeliverInv := by
  induction hs with
  | refl => exact RunState.deliverInv_init _
  | tail _ h ih => exact ih.step h

end DeliverInv

/-! ## §3. `Run` returns with everything delivered. -/

/-- Default options with no worker. -/
def noWorkerOptions : FetcherOptions := { defaultFetcherOptions with parallelFetch := 0 }

/-- With `ParallelFetch = 0` no worker starts: `wg.Wait()` returns at once, before any
fetch.  The log of one entry answers every request it can serve with that entry, yet its
index 0 is never delivered. -/
theorem run_returns_without_workers :
    (∀ r es, 0 ≤ r.start.toInt → r.start.toInt ≤ r.end_.toInt →
      r.end_.toInt < (oneEntryLog.length : Int) → (fun (_ : FetchRange) es => es = oneEntryLog) r es →
      es ≠ [] ∧ LogAnswers oneEntryLog r es) ∧
    ∃ s : RunState, s.Reachable noWorkerOptions (fun _ es => es = oneEntryLog) 1 ∧
      s.stopped = false ∧ s.ctxDone = false ∧ s.Returned ∧
      ∃ i, noWorkerOptions.startIndex.toInt ≤ i ∧ i < (noWorkerOptions.prepare 1).endIndex.toInt ∧
        ¬ ∃ b ∈ s.batches, b.covers i = true := by
  refine ⟨fun r es h₀ h₁ h₂ hes => ?_, _, .refl, rfl, rfl,
    by simp [RunState.Returned, RunState.init, noWorkerOptions, defaultFetcherOptions],
    0, by decide, by decide, by simp [RunState.init]⟩
  subst hes
  have h0 : r.start.toInt = 0 := by simp only [oneEntryLog, List.length_singleton] at h₂; omega
  refine ⟨List.cons_ne_nil _ _, by simp only [oneEntryLog, List.length_singleton] at h₂ ⊢; omega,
    .inr ⟨h₀, ?_⟩⟩
  rw [h0]
  exact List.prefix_refl _

/-- **`Run` never reports success with work left undone.**  Without `Continuous`, with
`ParallelFetch ≥ 1`, for every `BatchSize`, `StartIndex` and `EndIndex` and whatever the log
answers: when `Run` returns and neither `Stop` nor the caller's `ctx` cancelled it, every
index of `[StartIndex, EndIndex)` (`EndIndex` as `Prepare` set it) has been passed to `fn`. -/
theorem run_delivers_all_when_returned {o : FetcherOptions}
    {answers : FetchRange → List LeafEntry → Prop} {t : UInt64} {s : RunState}
    (hc : o.continuous = false) (hp : 1 ≤ o.parallelFetch.toInt)
    (hs : s.Reachable o answers t) (hst : s.stopped = false) (hctx : s.ctxDone = false)
    (hr : s.Returned) :
    ∀ i, o.startIndex.toInt ≤ i → i < (o.prepare t).endIndex.toInt →
      ∃ b ∈ s.batches, b.covers i = true := by
  intro i hS hE
  have hi := hs.runInv hctx
  have hend := hi.loop_ended hr hp hst hctx
  have hE' : s.gen.end_ = (o.prepare t).endIndex :=
    (hs.gen (P := fun g => g.BatchInv o (o.prepare t).startIndex (o.prepare t).endIndex)
      (Generator.batchInv_init _) fun _ _ _ hg h => hg.step hc h).end_eq
  have hcov : s.gen.Covers o.startIndex := by
    simpa using hs.gen (P := Generator.Covers (o.prepare t).startIndex) (Generator.covers_init _)
      fun _ _ _ hg h => hg.step h
  simp only [hc, hE', Int64.lt_iff, Bool.false_eq_true, or_false, Int.not_lt] at hend
  obtain ⟨r, hr', hcr⟩ := hcov i hS (by omega)
  exact hs.deliverInv.completed r ((hi.completed_perm hr).mem_iff.2 hr') i hcr

/-- The theorem on the run of the default options against a one-entry log. -/
theorem run_delivers_all_when_returned_one_entry :
    ∃ s : RunState, defaultFetcherOptions.continuous = false ∧
      1 ≤ defaultFetcherOptions.parallelFetch.toInt ∧
      s.Reachable defaultFetcherOptions (LogAnswers oneEntryLog) 1 ∧ s.stopped = false ∧
      s.ctxDone = false ∧ s.Returned ∧
      ∀ i, defaultFetcherOptions.startIndex.toInt ≤ i →
        i < (defaultFetcherOptions.prepare 1).endIndex.toInt → ∃ b ∈ s.batches, b.covers i = true :=
  let ⟨s, hs, hst, hctx, hr⟩ := oneEntryRun_returns
  ⟨s, rfl, by decide, hs, hst, hctx, hr,
    run_delivers_all_when_returned rfl (by decide) hs hst hctx hr⟩

end CertTransparency.Scanner
