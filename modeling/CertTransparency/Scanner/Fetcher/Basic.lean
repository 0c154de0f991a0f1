/-
  CertTransparency.Scanner.Fetcher.Basic — `Fetcher.Run` of `fetcher.go` as a
  transition system over every interleaving of its goroutines.

  The range generator (`genRanges`, with `updateSTH` in continuous mode) is a
  labelled transition system of its own: a step is internal, takes an STH, sends
  a range, or ends on cancellation.  `Run` composes it with `ParallelFetch`
  workers (`runWorker`): a send is one joint step with a worker at
  `range ranges`, a cancellation needs `Stop` or the caller's `ctx`, and a fetch
  is one step per `GetRawEntries` response the log may give.  A failed
  `GetRawEntries` call, and an STH that `updateSTH` rejects, change nothing and
  are left out.

  Ghost data: the ranges the generator sent, the ranges whose fetch completed,
  and for a worker its range as received and the end of the span it delivered.
-/
import CertTransparency.Scanner.Int64
import Mathlib.Logic.Relation
import Mathlib.Data.List.Infix

namespace CertTransparency.Scanner

/-! ## §1. Options, ranges and batches. -/

/-- `FetcherOptions`. -/
structure FetcherOptions where
  batchSize : Int64
  parallelFetch : Int64
  startIndex : Int64
  endIndex : Int64
  continuous : Bool
  deriving DecidableEq

/-- `DefaultFetcherOptions()`. -/
def defaultFetcherOptions : FetcherOptions := ⟨1000, 1, 0, 0, false⟩

/-- `ct.LeafEntry`. -/
structure LeafEntry where
  leafInput : List UInt8
  extraData : List UInt8
  deriving DecidableEq

/-- `fetchRange`, both ends inclusive (`end_` is the source's `end`, a Lean keyword). -/
structure FetchRange where
  start : Int64
  end_ : Int64
  deriving DecidableEq

/-- `EntryBatch`. -/
structure EntryBatch where
  start : Int64
  entries : List LeafEntry
  deriving DecidableEq

/-- Index `i` lies in the range. -/
def FetchRange.covers (r : FetchRange) (i : Int) : Bool :=
  decide (r.start.toInt ≤ i ∧ i ≤ r.end_.toInt)

/-- Index `i` lies in the batch's span `[Start, Start + len(Entries))`. -/
def EntryBatch.covers (b : EntryBatch) (i : Int) : Bool :=
  decide (b.start.toInt ≤ i ∧ i < b.start.toInt + b.entries.length)

/-- `Prepare` after `GetSTH` returned an STH of `treeSize` entries: `EndIndex` is reset to
`int64(sth.TreeSize)` when it is 0 or beyond it. -/
def FetcherOptions.prepare (o : FetcherOptions) (treeSize : UInt64) : FetcherOptions :=
  if o.endIndex = 0 ∨ Int64.ofUInt64 treeSize < o.endIndex then
    { o with endIndex := Int64.ofUInt64 treeSize }
  else o

@[simp] theorem FetcherOptions.prepare_batchSize (o : FetcherOptions) (t : UInt64) :
    (o.prepare t).batchSize = o.batchSize := by
  unfold FetcherOptions.prepare; split <;> rfl

@[simp] theorem FetcherOptions.prepare_parallelFetch (o : FetcherOptions) (t : UInt64) :
    (o.prepare t).parallelFetch = o.parallelFetch := by
  unfold FetcherOptions.prepare; split <;> rfl

@[simp] theorem FetcherOptions.prepare_startIndex (o : FetcherOptions) (t : UInt64) :
    (o.prepare t).startIndex = o.startIndex := by
  unfold FetcherOptions.prepare; split <;> rfl

@[simp] theorem FetcherOptions.prepare_continuous (o : FetcherOptions) (t : UInt64) :
    (o.prepare t).continuous = o.continuous := by
  unfold FetcherOptions.prepare; split <;> rfl

/-- The file's `min(a, b int64)`. -/
def min (a b : Int64) : Int64 := if a < b then a else b

/-- `batchEnd := start + min(end-start, batch)` and `next := fetchRange{start, batchEnd - 1}`:
the range `genRanges` sends next, and the `start` it goes on from. -/
def nextRange (batch start end_ : Int64) : FetchRange × Int64 :=
  (⟨start, start + min (end_ - start) batch - 1⟩, start + min (end_ - start) batch)

/-- `updateSTH`'s test of an STH of `treeSize` entries: `sth.TreeSize <= lastSize ||
quick && sth.TreeSize < targetSize` rejects it. -/
def sthAccepted (lastSize targetSize treeSize : UInt64) (quick : Bool) : Bool :=
  !(decide (treeSize ≤ lastSize) || quick && decide (treeSize < targetSize))

/-! ## §2. The range generator. -/

/-- Where `genRanges`' goroutine is. -/
inductive GenPc where
  /-- at `for start < end || f.opts.Continuous` -/
  | loop
  /-- in `updateSTH`, calling `GetSTH` until an STH passes; `quick` until `quickDeadline` -/
  | updateSTH (lastSize targetSize : UInt64) (quick : Bool)
  /-- at `select`, with `next` computed -/
  | select
  /-- returned: `ranges` is closed -/
  | done
  deriving DecidableEq

/-- `genRanges`' goroutine: its `start` and `end`, `f.opts.EndIndex` (which `updateSTH`
advances), and (ghost) the ranges sent so far, in order. -/
structure Generator where
  start : Int64
  end_ : Int64
  endIndex : Int64
  pc : GenPc
  sent : List FetchRange

/-- `start, end := f.opts.StartIndex, f.opts.EndIndex`. -/
def Generator.init (o : FetcherOptions) : Generator :=
  ⟨o.startIndex, o.endIndex, o.endIndex, .loop, []⟩

/-- What a generator step shows its environment. -/
inductive GenEvent where
  | internal
  /-- `GetSTH` returned an STH of `treeSize` entries that `updateSTH` accepts -/
  | sth (treeSize : UInt64)
  /-- `ranges <- next` -/
  | send (r : FetchRange)
  /-- `<-ctx.Done()`, in `select` or in `updateSTH`'s retries -/
  | cancel
  deriving DecidableEq

/-- One step of `genRanges` with the options' `BatchSize` and `Continuous`. -/
inductive Generator.Step (o : FetcherOptions) : Generator → GenEvent → Generator → Prop where
  /-- The loop ends; `defer close(ranges)`. -/
  | exit (g : Generator) (hpc : g.pc = .loop) (hc : ¬ (g.start < g.end_ ∨ o.continuous = true)) :
      Step o g .internal { g with pc := .done }
  | enter (g : Generator) (hpc : g.pc = .loop) (hc : g.start < g.end_ ∨ o.continuous = true)
      (hne : g.start ≠ g.end_) :
      Step o g .internal { g with pc := .select }
  /-- `start == end`, so continuous: `updateSTH` sets `lastSize` and `targetSize`. -/
  | wait (g : Generator) (hpc : g.pc = .loop) (hc : g.start < g.end_ ∨ o.continuous = true)
      (heq : g.start = g.end_) :
      Step o g .internal
        { g with pc := .updateSTH g.endIndex.toUInt64 (g.endIndex.toUInt64 + o.batchSize.toUInt64) true }
  /-- `quickDeadline` passes. -/
  | deadline (g : Generator) (lastSize targetSize : UInt64)
      (hpc : g.pc = .updateSTH lastSize targetSize true) :
      Step o g .internal { g with pc := .updateSTH lastSize targetSize false }
  /-- An STH passes: `f.opts.EndIndex = int64(sth.TreeSize)`, then `end = f.opts.EndIndex`. -/
  | sth (g : Generator) (lastSize targetSize : UInt64) (quick : Bool) (treeSize : UInt64)
      (hpc : g.pc = .updateSTH lastSize targetSize quick)
      (ha : sthAccepted lastSize targetSize treeSize quick = true) :
      Step o g (.sth treeSize)
        { g with endIndex := .ofUInt64 treeSize, end_ := .ofUInt64 treeSize, pc := .select }
  | send (g : Generator) (hpc : g.pc = .select) :
      Step o g (.send (nextRange o.batchSize g.start g.end_).1)
        { g with start := (nextRange o.batchSize g.start g.end_).2, pc := .loop,
                 sent := g.sent ++ [(nextRange o.batchSize g.start g.end_).1] }
  | cancel (g : Generator) (hpc : g.pc = .select ∨ ∃ l t q, g.pc = .updateSTH l t q) :
      Step o g .cancel { g with pc := .done }

/-- The log serves an STH of this size. -/
def GenEvent.AllowedBy (sizes : UInt64 → Prop) : GenEvent → Prop
  | .sth t => sizes t
  | _ => True

/-- The generator's states with options `o` (as `Prepare` left them), when `GetSTH`
returns sizes in `sizes`. -/
def Generator.Reachable (o : FetcherOptions) (sizes : UInt64 → Prop) (g : Generator) : Prop :=
  Relation.ReflTransGen (fun g g' => ∃ e, e.AllowedBy sizes ∧ Generator.Step o g e g')
    (Generator.init o) g

/-! ## §3. `Run`: the generator, the workers, `Stop`. -/

/-- Where a `runWorker` goroutine is. -/
inductive WorkerPc where
  /-- at `for r := range ranges` -/
  | receiving
  /-- in the inner loop on `r`; ghost: `orig` the range as received, `reached` the end of the
  span delivered for it -/
  | fetching (orig r : FetchRange) (reached : Int)
  /-- returned -/
  | exited
  deriving DecidableEq

/-- `Run(ctx, fn)` past `Prepare`: the generator, the workers, whether `Stop` was called
(cancelling `cctx`) and whether `ctx` was cancelled (which cancels `cctx` too), the
batches passed to `fn` in order, and (ghost) the ranges whose fetch completed. -/
structure RunState where
  gen : Generator
  workers : List WorkerPc
  stopped : Bool
  ctxDone : Bool
  batches : List EntryBatch
  completed : List FetchRange

/-- The generator started, and `ParallelFetch` workers (none when it is not positive). -/
def RunState.init (o : FetcherOptions) : RunState :=
  ⟨Generator.init o, List.replicate o.parallelFetch.toInt.toNat .receiving, false, false, [], []⟩

/-- One step of `Run` against a log whose `GetRawEntries(r.start, r.end)` may return `es`
when `answers r es`. -/
inductive RunState.Step (o : FetcherOptions) (answers : FetchRange → List LeafEntry → Prop) :
    RunState → RunState → Prop where
  /-- The generator moves on its own, or takes an STH. -/
  | gen (s : RunState) (e : GenEvent) (g : Generator) (h : Generator.Step o s.gen e g)
      (he : e = .internal ∨ ∃ t, e = .sth t) :
      Step o answers s { s with gen := g }
  /-- `<-cctx.Done()` ends the generator. -/
  | genCancel (s : RunState) (g : Generator) (h : Generator.Step o s.gen .cancel g)
      (hc : s.stopped = true ∨ s.ctxDone = true) :
      Step o answers s { s with gen := g }
  /-- `ranges <- next` meets a worker at `range ranges`. -/
  | handOff (s : RunState) (r : FetchRange) (g : Generator) (pre post : List WorkerPc)
      (h : Generator.Step o s.gen (.send r) g) (hw : s.workers = pre ++ .receiving :: post) :
      Step o answers s { s with gen := g, workers := pre ++ .fetching r r r.start.toInt :: post }
  /-- `ranges` is closed: the worker's `for` ends and it returns (`wg.Done()`). -/
  | close (s : RunState) (pre post : List WorkerPc) (hpc : s.gen.pc = .done)
      (hw : s.workers = pre ++ .receiving :: post) :
      Step o answers s { s with workers := pre ++ .exited :: post }
  /-- `r.start > r.end`: the range is done. -/
  | rangeDone (s : RunState) (orig r : FetchRange) (reached : Int) (pre post : List WorkerPc)
      (hw : s.workers = pre ++ .fetching orig r reached :: post) (hr : ¬ r.start ≤ r.end_) :
      Step o answers s
        { s with workers := pre ++ .receiving :: post, completed := s.completed ++ [orig] }
  /-- `ctx.Err() != nil`: the worker returns. -/
  | ctxErr (s : RunState) (orig r : FetchRange) (reached : Int) (pre post : List WorkerPc)
      (hw : s.workers = pre ++ .fetching orig r reached :: post) (hr : r.start ≤ r.end_)
      (hc : s.ctxDone = true) :
      Step o answers s { s with workers := pre ++ .exited :: post }
  /-- `GetRawEntries(ctx, r.start, r.end)` returns `es` (a cancellation racing the request
  may or may not stop it): `fn(EntryBatch{r.start, es})`, `r.start += int64(len(es))`. -/
  | fetch (s : RunState) (orig r : FetchRange) (reached : Int) (pre post : List WorkerPc)
      (es : List LeafEntry) (hw : s.workers = pre ++ .fetching orig r reached :: post)
      (hr : r.start ≤ r.end_) (ha : answers r es) :
      Step o answers s
        { s with workers := pre ++ .fetching orig { r with start := r.start + .ofNat es.length }
                   (reached + es.length) :: post,
                 batches := s.batches ++ [⟨r.start, es⟩] }
  /-- `Stop()`: `cctx` is cancelled. -/
  | stop (s : RunState) : Step o answers s { s with stopped := true }
  /-- The caller cancels `ctx`. -/
  | cancelCtx (s : RunState) : Step o answers s { s with ctxDone := true }

/-- The states of `Run(ctx, fn)` with options `o`, after `Prepare` saw an STH of
`treeSize` entries. -/
def RunState.Reachable (o : FetcherOptions) (answers : FetchRange → List LeafEntry → Prop)
    (treeSize : UInt64) (s : RunState) : Prop :=
  Relation.ReflTransGen (RunState.Step o answers) (RunState.init (o.prepare treeSize)) s

/-- `wg.Wait()` has returned, so `Run` returns `nil`: every worker has exited. -/
def RunState.Returned (s : RunState) : Prop := ∀ w ∈ s.workers, w = .exited

/-- A log that may truncate: `GetRawEntries(start, end)` returns its entries at
`start, …, start+k-1` for some `0 ≤ k ≤ end-start+1`. -/
def LogAnswers (log : List LeafEntry) (r : FetchRange) (es : List LeafEntry) : Prop :=
  (es.length : Int) ≤ r.end_.toInt - r.start.toInt + 1 ∧
    (es = [] ∨ 0 ≤ r.start.toInt ∧ es <+: log.drop r.start.toInt.toNat)

end CertTransparency.Scanner
