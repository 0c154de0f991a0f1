/-
  CertTransparency.Scanner.Fetcher.Run — what every run of `Fetcher.Run` keeps,
  whatever the log answers.

  While the caller's `ctx` is live a worker never drops a range: each range the
  generator sent is completed or held by exactly one worker (`sent_perm`).  A
  worker returns only once `ranges` is closed, and the generator closes it only on
  `Stop` (or `ctx`) or when its loop ends.  So when `Run` returns with at least one
  worker, neither `Stop` nor `ctx`, every range sent was completed and the
  generator's loop ended (`RunInv.loop_ended`).

  A zero-length `GetRawEntries` response is not a failed attempt: `fn` gets an
  empty batch and the same request is made again (`fetch_empty_repeats`).
-/
import CertTransparency.Scanner.Fetcher.Generator

namespace CertTransparency.Scanner

open Relation List

/-! ## §1. Steps of the generator seen from `Run`. -/

section GenSteps

variable {o : FetcherOptions} {g g' : Generator} {e : GenEvent}

/-- A returned generator takes no step. -/
theorem Generator.Step.pc_ne_done (h : Generator.Step o g e g') : g.pc ≠ .done := by
  cases h <;> intro hd <;> simp_all

theorem Generator.Step.sent_of_not_send (h : Generator.Step o g e g') (he : ∀ r, e ≠ .send r) :
    g'.sent = g.sent := by
  cases h
  case send => exact absurd rfl (he _)
  all_goals rfl

theorem Generator.Step.sent_of_send {r : FetchRange} (h : Generator.Step o g (.send r) g') :
    g'.sent = g.sent ++ [r] := by
  cases h; rfl

/-- The generator returns on cancellation, or when its loop ends. -/
theorem Generator.Step.cancel_or_exit (h : Generator.Step o g e g') (hd : g'.pc = .done) :
    e = .cancel ∨ ¬ (g'.start < g'.end_ ∨ o.continuous = true) := by
  cases h <;> simp_all

end GenSteps

/-! ## §2. Steps of `Run`. -/

section RunSteps

variable {o : FetcherOptions} {answers : FetchRange → List LeafEntry → Prop} {s t : RunState}

/-- Replacing one worker keeps a property all workers had, if the new one has it. -/
theorem forall_mem_replace {P : WorkerPc → Prop} {pre post : List WorkerPc} {x y : WorkerPc}
    (h : ∀ w ∈ pre ++ x :: post, P w) (hy : P y) : ∀ w ∈ pre ++ y :: post, P w := by
  simp only [List.forall_mem_append, List.forall_mem_cons] at h ⊢
  exact ⟨h.1, hy, h.2.2⟩

/-- The range a worker is fetching, as the generator sent it. -/
def WorkerPc.orig? : WorkerPc → Option FetchRange
  | .fetching orig _ _ => some orig
  | _ => none

theorem RunState.Step.gen_eq_or_step (h : RunState.Step o answers s t) :
    t.gen = s.gen ∨ ∃ e, Generator.Step o s.gen e t.gen := by
  cases h <;> first | exact .inl rfl | exact .inr ⟨_, ‹_›⟩

/-- `ctx` once cancelled stays cancelled. -/
theorem RunState.Step.ctxDone_of (h : RunState.Step o answers s t) (hc : t.ctxDone = false) :
    s.ctxDone = false := by
  cases h <;> first | exact hc | simp at hc

theorem RunState.Step.length_eq (h : RunState.Step o answers s t) :
    t.workers.length = s.workers.length := by
  cases h <;> simp_all

/-- Each range sent is completed or held by one worker, while `ctx` is live. -/
theorem RunState.Step.sent_perm (h : RunState.Step o answers s t) (hc : t.ctxDone = false)
    (hp : (s.completed ++ s.workers.filterMap WorkerPc.orig?).Perm s.gen.sent) :
    (t.completed ++ t.workers.filterMap WorkerPc.orig?).Perm t.gen.sent := by
  cases h with
  | gen e _ hg he =>
    rw [hg.sent_of_not_send (by rintro r rfl; simp at he)]; exact hp
  | genCancel _ hg _ => rw [hg.sent_of_not_send (by simp)]; exact hp
  | handOff r _ pre post hg hw =>
    rw [hw] at hp
    simp only [hg.sent_of_send, List.filterMap_append, List.filterMap_cons, WorkerPc.orig?] at hp ⊢
    have hmid := @List.perm_middle _ r (s.completed ++ pre.filterMap WorkerPc.orig?)
      (post.filterMap WorkerPc.orig?)
    rw [List.append_assoc, List.append_assoc] at hmid
    exact hmid.trans ((hp.cons r).trans (List.perm_append_singleton _ _).symm)
  | rangeDone orig _ _ pre post hw _ =>
    rw [hw] at hp
    simp only [List.filterMap_append, List.filterMap_cons, WorkerPc.orig?] at hp ⊢
    rw [List.append_assoc, List.singleton_append]
    exact (List.perm_middle.symm.append_left _).trans hp
  | ctxErr _ _ _ _ _ _ _ hc' => simp_all
  | close _ _ _ hw | fetch _ _ _ _ _ _ hw _ _ =>
    rw [hw] at hp
    simpa [List.filterMap_append, WorkerPc.orig?] using hp
  | stop | cancelCtx => exact hp

/-- A worker returns only once `ranges` is closed, or on `ctx.Err()`. -/
theorem RunState.Step.exited_inv (h : RunState.Step o answers s t)
    (hi : WorkerPc.exited ∈ s.workers → s.gen.pc = .done ∨ s.ctxDone = true) :
    WorkerPc.exited ∈ t.workers → t.gen.pc = .done ∨ t.ctxDone = true := by
  cases h with
  | gen _ _ hg _ | genCancel _ hg _ => exact fun hm => .inr ((hi hm).resolve_left hg.pc_ne_done)
  | handOff _ _ _ _ hg hw =>
    exact fun hm => .inr ((hi (by simp_all)).resolve_left hg.pc_ne_done)
  | close _ _ hpc _ => exact fun _ => .inl hpc
  | ctxErr _ _ _ _ _ _ _ hc => exact fun _ => .inr hc
  | rangeDone _ _ _ _ _ hw _ | fetch _ _ _ _ _ _ hw _ _ => exact fun hm => hi (by simp_all)
  | stop => exact hi
  | cancelCtx => exact fun _ => .inr rfl

/-- The generator returns on `Stop`, on `ctx`, or when its loop ends. -/
theorem RunState.Step.done_inv (h : RunState.Step o answers s t)
    (hi : s.gen.pc = .done →
      s.stopped = true ∨ s.ctxDone = true ∨ ¬ (s.gen.start < s.gen.end_ ∨ o.continuous = true)) :
    t.gen.pc = .done →
      t.stopped = true ∨ t.ctxDone = true ∨ ¬ (t.gen.start < t.gen.end_ ∨ o.continuous = true) := by
  cases h with
  | gen _ _ hg he =>
    refine fun hd => (hg.cancel_or_exit hd).elim (fun h => ?_) (.inr ∘ .inr)
    simp [h] at he
  | genCancel _ _ hc => exact fun _ => hc.elim .inl (.inr ∘ .inl)
  | handOff _ _ _ _ hg _ => exact fun hd => (hg.cancel_or_exit hd).elim (nomatch ·) (.inr ∘ .inr)
  | stop => exact fun _ => .inl rfl
  | cancelCtx => exact fun _ => .inr (.inl rfl)
  | close | rangeDone | ctxErr | fetch => exact hi

end RunSteps

/-! ## §3. The run invariant. -/

section RunInv

variable {o : FetcherOptions} {answers : FetchRange → List LeafEntry → Prop} {s t : RunState}

/-- What `Run` keeps while `ctx` is live, whatever the log answers. -/
structure RunState.RunInv (o : FetcherOptions) (s : RunState) : Prop where
  sent_perm : (s.completed ++ s.workers.filterMap WorkerPc.orig?).Perm s.gen.sent
  exited : WorkerPc.exited ∈ s.workers → s.gen.pc = .done ∨ s.ctxDone = true
  done : s.gen.pc = .done →
    s.stopped = true ∨ s.ctxDone = true ∨ ¬ (s.gen.start < s.gen.end_ ∨ o.continuous = true)
  length : s.workers.length = o.parallelFetch.toInt.toNat

theorem RunState.runInv_init (o : FetcherOptions) (t : UInt64) :
    (RunState.init (o.prepare t)).RunInv o where
  sent_perm := by simp [RunState.init, Generator.init, List.filterMap_replicate, WorkerPc.orig?]
  exited := by simp [RunState.init]
  done := by simp [RunState.init, Generator.init]
  length := by simp [RunState.init]

theorem RunState.RunInv.step (hi : s.RunInv o) (h : RunState.Step o answers s t)
    (hc : t.ctxDone = false) : t.RunInv o :=
  ⟨h.sent_perm hc hi.sent_perm, h.exited_inv hi.exited, h.done_inv hi.done, h.length_eq ▸ hi.length⟩

theorem RunState.Reachable.runInv {tsz : UInt64} (hs : s.Reachable o answers tsz)
    (hc : s.ctxDone = false) : s.RunInv o := by
  induction hs with
  | refl => exact RunState.runInv_init o tsz
  | tail _ h ih => exact (ih (h.ctxDone_of hc)).step h hc

/-- A property of the generator that its steps keep holds all along `Run`. -/
theorem RunState.Reachable.gen {tsz : UInt64} {P : Generator → Prop}
    (h0 : P (Generator.init (o.prepare tsz)))
    (hstep : ∀ g e g', P g → Generator.Step o g e g' → P g')
    (hs : s.Reachable o answers tsz) : P s.gen := by
  induction hs with
  | refl => exact h0
  | tail _ h ih =>
    rcases h.gen_eq_or_step with he | ⟨e, he⟩
    · exact he ▸ ih
    · exact hstep _ _ _ ih he

/-- When `Run` returns with `ctx` live, every range sent has been completed. -/
theorem RunState.RunInv.completed_perm (hi : s.RunInv o) (hr : s.Returned) :
    s.completed.Perm s.gen.sent := by
  have h0 : s.workers.filterMap WorkerPc.orig? = [] :=
    List.filterMap_eq_nil_iff.2 fun w hw => by rw [hr w hw]; rfl
  simpa [h0] using hi.sent_perm

/-- When `Run` returns with at least one worker, neither `Stop` nor `ctx`, the generator's
loop has ended. -/
theorem RunState.RunInv.loop_ended (hi : s.RunInv o) (hr : s.Returned)
    (hp : 1 ≤ o.parallelFetch.toInt) (hst : s.stopped = false) (hc : s.ctxDone = false) :
    ¬ (s.gen.start < s.gen.end_ ∨ o.continuous = true) := by
  obtain ⟨w, hw⟩ := List.exists_mem_of_ne_nil s.workers fun h0 => by
    have := hi.length; simp only [h0, List.length_nil] at this; omega
  have hd := (hi.exited (hr w hw ▸ hw)).resolve_right (by simp [hc])
  simpa [hst, hc] using hi.done hd

end RunInv

/-! ## §4. A zero-length response. -/

/-- **A zero-length response is not a failed attempt.**  While a worker fetches a range
`r` with `r.start ≤ r.end`, a log that answers `GetRawEntries(r.start, r.end)` with no
entries makes it call `fn(EntryBatch{r.start, nil})` and ask again, with `r` unchanged:
any number `n` of calls of `fn` with an empty batch, none of which moves `r.start`. -/
theorem fetch_empty_repeats {o : FetcherOptions} {answers : FetchRange → List LeafEntry → Prop}
    {s : RunState} {orig r : FetchRange} {reached : Int} {pre post : List WorkerPc}
    (hw : s.workers = pre ++ .fetching orig r reached :: post) (hr : r.start ≤ r.end_)
    (ha : answers r []) (n : Nat) :
    ReflTransGen (RunState.Step o answers) s
      { s with batches := s.batches ++ List.replicate n ⟨r.start, []⟩ } := by
  obtain ⟨rs, re⟩ := r
  induction n with
  | zero => simpa using ReflTransGen.refl
  | succ n ih =>
    refine ih.tail ?_
    have h : RunState.Step o answers _ _ :=
      .fetch { s with batches := s.batches ++ List.replicate n ⟨rs, []⟩ } orig _ reached pre post [] hw hr ha
    simpa [← hw, List.replicate_succ'] using h

/-- One worker on `{0, 0}`, before any fetch. -/
def emptyFetchState : RunState :=
  { RunState.init defaultFetcherOptions with workers := [.fetching ⟨0, 0⟩ ⟨0, 0⟩ 0] }

/-- A log that answers every request with no entries makes that worker call `fn` three
times with an empty batch. -/
theorem fetch_empty_repeats_three :
    emptyFetchState.workers = [] ++ .fetching ⟨0, 0⟩ ⟨0, 0⟩ 0 :: [] ∧
    (⟨0, 0⟩ : FetchRange).start ≤ (⟨0, 0⟩ : FetchRange).end_ ∧
    (fun (_ : FetchRange) (es : List LeafEntry) => es = []) ⟨0, 0⟩ [] ∧
    ReflTransGen (RunState.Step defaultFetcherOptions fun _ es => es = []) emptyFetchState
      { emptyFetchState with batches := emptyFetchState.batches ++ List.replicate 3 ⟨0, []⟩ } :=
  have hw : emptyFetchState.workers = [] ++ .fetching ⟨0, 0⟩ ⟨0, 0⟩ 0 :: [] := rfl
  have hr : (⟨0, 0⟩ : FetchRange).start ≤ (⟨0, 0⟩ : FetchRange).end_ := by decide
  ⟨hw, hr, rfl, fetch_empty_repeats hw hr rfl 3⟩

/-! ## §5. A run that returns. -/

/-- A log of one entry. -/
def oneEntryLog : List LeafEntry := [⟨[], []⟩]

/-- With the default options and a one-entry log, `Run` sends `{0, 0}`, gets the entry,
completes the range, closes `ranges` and returns. -/
theorem oneEntryRun_returns :
    ∃ s : RunState, s.Reachable defaultFetcherOptions (LogAnswers oneEntryLog) 1 ∧
      s.stopped = false ∧ s.ctxDone = false ∧ s.Returned := by
  have hrun : ReflTransGen (RunState.Step defaultFetcherOptions (LogAnswers oneEntryLog))
      (RunState.init (defaultFetcherOptions.prepare 1)) _ :=
    .tail (.tail (.tail (.tail (.tail (.tail .refl
      (.gen _ _ _ (.enter _ rfl (.inl (by decide)) (by decide)) (.inl rfl)))
      (.handOff _ _ _ [] [] (.send _ rfl) rfl))
      (.fetch _ _ _ _ [] [] oneEntryLog rfl (by decide)
        ⟨by decide, .inr ⟨by decide, List.prefix_refl _⟩⟩))
      (.rangeDone _ _ _ _ [] [] rfl (by decide)))
      (.gen _ _ _ (.exit _ rfl (by decide)) (.inl rfl)))
      (.close _ [] [] rfl rfl)
  exact ⟨_, hrun, rfl, rfl, fun w hw => by simpa using hw⟩

/-- A log of two entries. -/
def twoEntryLog : List LeafEntry := [⟨[0], []⟩, ⟨[1], []⟩]

/-- The default options with one entry per batch. -/
def oneEntryBatchOptions : FetcherOptions := { defaultFetcherOptions with batchSize := 1 }

/-- With one entry per batch and a two-entry log, `Run` sends `{0, 0}` and `{1, 1}`, its
worker fetches each in one batch, and `Run` returns. -/
theorem twoBatchRun_returns :
    ∃ s : RunState, s.Reachable oneEntryBatchOptions (LogAnswers twoEntryLog) 2 ∧
      s.stopped = false ∧ s.ctxDone = false ∧ s.Returned ∧
      s.batches = [⟨0, [⟨[0], []⟩]⟩, ⟨1, [⟨[1], []⟩]⟩] := by
  have hrun : ReflTransGen (RunState.Step oneEntryBatchOptions (LogAnswers twoEntryLog))
      (RunState.init (oneEntryBatchOptions.prepare 2)) _ :=
    .tail (.tail (.tail (.tail (.tail (.tail (.tail (.tail (.tail (.tail .refl
      (.gen _ _ _ (.enter _ rfl (.inl (by decide)) (by decide)) (.inl rfl)))
      (.handOff _ _ _ [] [] (.send _ rfl) rfl))
      (.fetch _ _ _ _ [] [] [⟨[0], []⟩] rfl (by decide)
        ⟨by decide, .inr ⟨by decide, [⟨[1], []⟩], rfl⟩⟩))
      (.rangeDone _ _ _ _ [] [] rfl (by decide)))
      (.gen _ _ _ (.enter _ rfl (.inl (by decide)) (by decide)) (.inl rfl)))
      (.handOff _ _ _ [] [] (.send _ rfl) rfl))
      (.fetch _ _ _ _ [] [] [⟨[1], []⟩] rfl (by decide) ⟨by decide, .inr ⟨by decide, [], rfl⟩⟩))
      (.rangeDone _ _ _ _ [] [] rfl (by decide)))
      (.gen _ _ _ (.exit _ rfl (by decide)) (.inl rfl)))
      (.close _ [] [] rfl rfl)
  exact ⟨_, hrun, rfl, rfl, fun w hw => by simpa using hw, rfl⟩

end CertTransparency.Scanner
