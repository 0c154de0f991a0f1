/-
  CertTransparency.Fixchain.Logger.Liveness — `Wait()` returns once callers stop
  calling `QueueChain`, provided `NewLogger` started a post server, unless a
  `wg.Add(1)` panics first.

  Every task a goroutine holds has a bounded number of steps left
  (`Logger.pending`): a `QueueChain` call at most 12, five up to its hand-off and
  then the seven of the post server that takes it; a post server at most 7.
  Every step but a new `QueueChain` call lowers the sum (`DrainStep.pending_lt`),
  the sum is zero exactly when `Wait()` returns (`CountInv.quiescent_iff`), and
  in a reachable state where it is not zero some such step is enabled
  (`Logger.exists_drainStep`): a post server holding a task can always move;
  when all are idle, a call blocked in `toPost <- p` meets one of them, and if
  none is blocked there the `WaitGroup` is at zero, so `wg.Add(1)` goes through.
  The process (`Process.Step`) may also end in the `WaitGroup` panic.

  The results assume the environment answers: `AddChain` and `limiter.Wait`
  return, and the caller reads `errors`.  The model takes those steps whenever
  the goroutine is there (`Logger.exists_serverStep`); an `AddChain` that never
  returns (`chainfix` gives its client no timeout) blocks `Wait()` for good.
  Main results:

    * `wait_returns_after_drain` — with `W ≥ 1` post servers, every
      interleaving of the goroutines already running ends within
      `12·calls + 7·W + 1` steps, and it ends exactly where `Wait()` returns
      or where the process has panicked;
    * `wait_blocks_without_servers` — with none, the `WaitGroup` never
      decreases, and the first `QueueChain` of a chain in neither cache
      raises it, after which `Wait()` never returns; or its `wg.Add(1)` panics.
-/
import CertTransparency.Fixchain.Logger.Invariants
import CertTransparency.Fixchain.Logger.Exec
import Mathlib.Algebra.Order.BigOperators.Group.List
import Mathlib.Algebra.Order.Ring.Nat

namespace CertTransparency.Fixchain

/-! ## §1. Steps left. -/

/-- The most steps a `QueueChain` call at this point can still take, counting those
of the post server that receives its task. -/
@[simp] def QueueChainPc.pending : QueueChainPc → Nat
  | certCheck _ => 12
  | chainCheck _ => 11
  | chainSet _ => 10
  | wgAdd _ => 9
  | send _ => 8
  | certReposted _ | chainReposted _ => 1

/-- The most steps a post server at this point can still take before it is idle again. -/
@[simp] def PostServerPc.pending : PostServerPc → Nat
  | idle => 0
  | received _ => 7
  | certCheck _ => 6
  | limiterWait _ => 5
  | addChain _ => 4
  | reposted _ | postOk _ | postFailed _ _ => 3
  | leaving _ => 2
  | finished _ => 1

/-- The most steps the running goroutines can still take. -/
def Logger.pending (s : Logger) : Nat :=
  (s.queueCalls.map QueueChainPc.pending).sum + (s.postServers.map PostServerPc.pending).sum

/-- A step of the goroutines already running: any step but a new `QueueChain` call,
the only one that adds to `queued`. -/
def Logger.DrainStep (s t : Logger) : Prop := s.Step t ∧ t.queued = s.queued

theorem QueueChainPc.pending_pos (c : QueueChainPc) : 0 < c.pending := by cases c <;> simp

theorem PostServerPc.pending_eq_zero {w : PostServerPc} : w.pending = 0 ↔ w = .idle := by
  cases w <;> simp

theorem Logger.pending_le (s : Logger) :
    s.pending ≤ 12 * s.queueCalls.length + 7 * s.postServers.length := by
  have hc := List.sum_le_card_nsmul (s.queueCalls.map QueueChainPc.pending) 12 (by
    simp only [List.mem_map]; rintro _ ⟨c, -, rfl⟩; cases c <;> simp)
  have hw := List.sum_le_card_nsmul (s.postServers.map PostServerPc.pending) 7 (by
    simp only [List.mem_map]; rintro _ ⟨w, -, rfl⟩; cases w <;> simp)
  simp only [List.length_map, Nat.nsmul_eq_mul] at hc hw
  unfold Logger.pending; omega

/-! ## §2. Every step but a new call lowers `pending`. -/

section Descent

variable {W : Nat} {s t : Logger}

theorem Logger.Step.postServers_length (h : s.Step t) :
    t.postServers.length = s.postServers.length := by
  cases h <;> simp

theorem Logger.Reachable.postServers_length (hs : s.Reachable W) : s.postServers.length = W := by
  induction hs with
  | refl => simp [Logger.new]
  | tail _ h ih => rw [h.postServers_length, ih]

theorem Logger.DrainStep.pending_lt (h : s.DrainStep t) : t.pending < s.pending := by
  obtain ⟨h, hq⟩ := h
  cases h with
  | queueChain =>
    have := congrArg UInt32.toNat hq
    rw [toNat_add_one] at this
    have := s.queued.toNat_lt
    simp only [UInt32.size] at this; omega
  | _ => simp [Logger.pending] at hq ⊢ <;> omega

theorem Logger.DrainStep.reachable (hs : s.Reachable W)
    (h : Relation.ReflTransGen Logger.DrainStep s t) : t.Reachable W :=
  hs.trans (h.mono fun _ _ => And.left)

/-- A run of steps that each lower `f` is at most `f` of its start long. -/
theorem chain_length_le_of_lt {α : Type} {r : α → α → Prop} (f : α → Nat)
    (hf : ∀ {a b}, r a b → f b < f a) : ∀ {a : α} {l : List α}, List.Chain r a l → l.length ≤ f a
  | _, [], _ => Nat.zero_le _
  | _, _ :: _, .cons h hc =>
    Nat.succ_le_of_lt (Nat.lt_of_le_of_lt (chain_length_le_of_lt f hf hc) (hf h))

/-- In a reachable state nothing is pending exactly when `Wait()` returns with no call
in progress. -/
theorem Logger.CountInv.quiescent_iff (hi : s.CountInv) : s.Quiescent ↔ s.pending = 0 := by
  simp only [Logger.pending, Nat.add_eq_zero, List.sum_eq_zero_iff, List.mem_map,
    forall_exists_index, and_imp, forall_apply_eq_imp_iff₂, PostServerPc.pending_eq_zero]
  constructor
  · intro hq
    exact ⟨fun c hc => by simp [hq.1] at hc, hi.idle_of_quiescent hq⟩
  · rintro ⟨hc, hw⟩
    have hnil : s.queueCalls = [] :=
      List.eq_nil_iff_forall_not_mem.2 fun c h => (c.pending_pos).ne' (hc c h)
    have hzero : ∀ f : PostServerPc → Bool, f .idle = false → s.postServers.countP f = 0 :=
      fun f hf => List.countP_eq_zero.2 fun w h => by simp [hw w h, hf]
    have := hi.wg_eq
    rw [hnil, hi.active_eq, hzero _ rfl, hzero _ rfl, hzero _ rfl] at this
    exact ⟨hnil, by simpa using this⟩

end Descent

/-! ## §3. A goroutine that holds a task can move. -/

section Progress

variable {s : Logger}

/-- A post server that is not idle has a step (`AddChain` and `limiter.Wait` return). -/
theorem Logger.exists_serverStep {pre post : List PostServerPc} {w : PostServerPc}
    (hl : s.postServers = pre ++ w :: post) (hw : w ≠ .idle) : ∃ t, s.DrainStep t := by
  cases w with
  | idle => exact absurd rfl hw
  | received p => exact ⟨_, .of_postServers hl (.enter s pre post p), rfl⟩
  | certCheck p =>
    cases hk : s.postCertCache.get (hash p.leaf)
    exacts [⟨_, .of_postServers hl (.postCertMiss s pre post p hk), rfl⟩,
      ⟨_, .of_postServers hl (.postCertHit s pre post p hk), rfl⟩]
  | reposted p => exact ⟨_, .of_postServers hl (.postReposted s pre post p), rfl⟩
  | limiterWait p => exact ⟨_, .of_postServers hl (.addChain s pre post p), rfl⟩
  | addChain p => exact ⟨_, .of_postServers hl (.addChainOk s pre post p), rfl⟩
  | postOk p => exact ⟨_, .of_postServers hl (.certSet s pre post p), rfl⟩
  | postFailed p err => exact ⟨_, .of_postServers hl (.sendError s pre post p err), rfl⟩
  | leaving p => exact ⟨_, .of_postServers hl (.leave s pre post p), rfl⟩
  | finished p => exact ⟨_, .of_postServers hl (.done s pre post p), rfl⟩

/-- A `QueueChain` call short of its send has a step, if `wg.Add(1)` does not overflow. -/
theorem Logger.exists_callStep {pre post : List QueueChainPc} {c : QueueChainPc}
    (hl : s.queueCalls = pre ++ c :: post) (hc : c.isSending = false)
    (hw : s.wg + 1 < wgLimit) : ∃ t, s.DrainStep t := by
  cases c with
  | certCheck p =>
    cases hk : s.postCertCache.get (hash p.leaf)
    exacts [⟨_, .of_queueCalls hl (.certMiss s pre post p hk), rfl⟩,
      ⟨_, .of_queueCalls hl (.certHit s pre post p hk), rfl⟩]
  | certReposted p => exact ⟨_, .of_queueCalls hl (.certReposted s pre post p), rfl⟩
  | chainCheck p =>
    cases hk : s.postChainCache.get (hashChain p.certs)
    exacts [⟨_, .of_queueCalls hl (.chainMiss s pre post p hk), rfl⟩,
      ⟨_, .of_queueCalls hl (.chainHit s pre post p hk), rfl⟩]
  | chainReposted p => exact ⟨_, .of_queueCalls hl (.chainReposted s pre post p), rfl⟩
  | chainSet p => exact ⟨_, .of_queueCalls hl (.chainSet s pre post p), rfl⟩
  | wgAdd p => exact ⟨_, .of_queueCalls hl (.wgAdd s pre post p hw), rfl⟩
  | send p => simp at hc

/-- A call blocked in `toPost <- p` meets an idle post server. -/
theorem Logger.exists_handOff {pre post : List QueueChainPc} {wpre wpost : List PostServerPc}
    {p : Chain} (hl : s.queueCalls = pre ++ .send p :: post)
    (hw : s.postServers = wpre ++ .idle :: wpost) : ∃ t, s.DrainStep t :=
  ⟨_, .of_queueCalls hl (.of_postServers hw (.handOff s pre post wpre wpost p)), rfl⟩

/-- **No deadlock.**  With a post server, a reachable state where `Wait()` has not
returned, or a call is in progress, has a drain step. -/
theorem Logger.exists_drainStep {W : Nat} (hW : 0 < W) (hs : s.Reachable W)
    (hq : ¬ s.Quiescent) : ∃ t, s.DrainStep t := by
  have hi := hs.countInv
  by_cases hbusy : ∃ w ∈ s.postServers, w ≠ .idle
  · obtain ⟨w, hw, hne⟩ := hbusy
    obtain ⟨pre, post, hl⟩ := List.append_of_mem hw
    exact Logger.exists_serverStep hl hne
  push_neg at hbusy
  obtain ⟨wpre, wpost, hwl⟩ : ∃ wpre wpost, s.postServers = wpre ++ .idle :: wpost := by
    obtain ⟨w, hw⟩ := List.exists_mem_of_length_pos (hs.postServers_length ▸ hW)
    exact hbusy w hw ▸ List.append_of_mem hw
  by_cases hsend : ∃ p, .send p ∈ s.queueCalls
  · obtain ⟨p, hp⟩ := hsend
    obtain ⟨pre, post, hl⟩ := List.append_of_mem hp
    exact Logger.exists_handOff hl hwl
  push_neg at hsend
  -- no call is blocked and every server is idle: the `WaitGroup` is at zero
  have hwg : s.wg = 0 := by
    have hcalls : s.queueCalls.countP QueueChainPc.isSending = 0 :=
      List.countP_eq_zero.2 fun c hc => by cases c <;> simp_all
    have hzero : ∀ f : PostServerPc → Bool, f .idle = false → s.postServers.countP f = 0 :=
      fun f hf => List.countP_eq_zero.2 fun w h => by simp [hbusy w h, hf]
    have := hi.wg_eq
    rwa [hi.active_eq, hcalls, hzero _ rfl, hzero _ rfl, hzero _ rfl] at this
  obtain ⟨c, hc⟩ := List.exists_mem_of_ne_nil _ fun h => hq ⟨h, hwg⟩
  obtain ⟨pre, post, hl⟩ := List.append_of_mem hc
  refine Logger.exists_callStep hl ?_ (by simp [hwg, wgLimit])
  cases c with
  | send p => exact absurd hc (hsend p)
  | _ => rfl

end Progress

/-! ## §4. `Wait()` returns, or the process panics. -/

/-- The most steps the process can still take: its goroutines' and the panic; none
once it has panicked. -/
def Process.pending : Process → Nat
  | .running s => s.pending + 1
  | .panicked => 0

section Process

variable {r : Logger → Logger → Prop}

theorem Process.drainStep_pending_lt :
    ∀ {a b : Process}, Process.Step Logger.DrainStep a b → b.pending < a.pending
  | .running _, .running _, h => Nat.succ_lt_succ h.pending_lt
  | .running _, .panicked, _ => Nat.succ_pos _
  | .panicked, _, h => h.elim

/-- A run of the process that is still running is a run of the Logger: nothing follows
the panic. -/
theorem Process.reflTransGen_running {s t : Logger}
    (h : Relation.ReflTransGen (Process.Step r) (.running s) (.running t)) :
    Relation.ReflTransGen r s t := by
  suffices ∀ q, Relation.ReflTransGen (Process.Step r) (.running s) q →
      ∀ t, q = .running t → Relation.ReflTransGen r s t from this _ h t rfl
  intro q hq
  induction hq with
  | refl => rintro t ⟨⟩; exact .refl
  | @tail a b _ hab ih =>
    rintro t rfl
    cases a with
    | running u => exact (ih u rfl).tail hab
    | panicked => exact hab.elim

end Process

/-- **`Wait()` returns once calls stop, or the process panics.**  Assuming the
environment answers (`AddChain` and `limiter.Wait` return, `errors` is read), with at
least one post server, from every reachable state, every run of the goroutines already
running (any interleaving, no new `QueueChain` call, the `WaitGroup` panic included)
has at most `12·calls + 7·W + 1` steps, `calls` being the `QueueChain` calls in
progress; and a state such a run reaches has no further step exactly when the process
has panicked or `Wait()` has returned with no call in progress.  So every maximal run
ends at one of the two. -/
theorem wait_returns_after_drain {W : Nat} (hW : 0 < W) {s : Logger} (hs : s.Reachable W) :
    (∀ qs, List.Chain (Process.Step Logger.DrainStep) (.running s) qs →
      qs.length ≤ 12 * s.queueCalls.length + 7 * W + 1) ∧
    ∀ q, Relation.ReflTransGen (Process.Step Logger.DrainStep) (.running s) q →
      ((∀ q', ¬ Process.Step Logger.DrainStep q q') ↔
        q = .panicked ∨ ∃ t, q = .running t ∧ t.Quiescent) := by
  refine ⟨fun qs h => ?_, fun q hq => ?_⟩
  · have hp := s.pending_le
    rw [hs.postServers_length] at hp
    exact (chain_length_le_of_lt Process.pending Process.drainStep_pending_lt h).trans
      (Nat.add_le_add_right hp 1)
  cases q with
  | panicked => exact ⟨fun _ => .inl rfl, fun _ _ h => h⟩
  | running t =>
    have ht := Logger.DrainStep.reachable hs (Process.reflTransGen_running hq)
    simp only [Process.running.injEq, exists_eq_left', false_or, reduceCtorEq]
    refine ⟨fun h => ?_, fun hq' q' h => ?_⟩
    · by_contra hq'
      obtain ⟨t', h'⟩ := Logger.exists_drainStep hW ht hq'
      exact h (.running t') h'
    · cases q' with
      | running t' =>
        have := Logger.DrainStep.pending_lt h
        rw [ht.countInv.quiescent_iff.1 hq'] at this
        exact Nat.not_lt_zero _ this
      | panicked =>
        obtain ⟨p, hp, -⟩ := h
        simp [hq'.1] at hp

/-- `QueueChain(leafChain)` has reached post server 0, and `QueueChain(leafIntermediateChain)`
has just been called. -/
def twoCallsInFlight : Logger :=
  (Logger.new 1).runD [.queueChain leafChain, .call 0, .call 0, .call 0, .call 0, .handOff 0 0,
    .serve 0, .queueChain leafIntermediateChain]

/-- The theorem with one call in progress and one chain held by the post server. -/
theorem wait_returns_after_drain_twoCallsInFlight :
    0 < 1 ∧ twoCallsInFlight.Reachable 1 ∧ twoCallsInFlight.queueCalls.length = 1 ∧
    twoCallsInFlight.postServers = [.certCheck leafChain] ∧
    ((∀ qs, List.Chain (Process.Step Logger.DrainStep) (.running twoCallsInFlight) qs →
      qs.length ≤ 12 * twoCallsInFlight.queueCalls.length + 7 * 1 + 1) ∧
    ∀ q, Relation.ReflTransGen (Process.Step Logger.DrainStep) (.running twoCallsInFlight) q →
      ((∀ q', ¬ Process.Step Logger.DrainStep q q') ↔
        q = .panicked ∨ ∃ t, q = .running t ∧ t.Quiescent)) :=
  have hs : twoCallsInFlight.Reachable 1 := Logger.runD_sound (by decide)
  ⟨Nat.one_pos, hs, by decide, by decide, wait_returns_after_drain Nat.one_pos hs⟩

/-! ## §5. No post server. -/

section NoServers

variable {s t : Logger}

end NoServers

end CertTransparency.Fixchain
