/-
  CertTransparency.Fixchain.Logger.Invariants — what holds in every reachable
  state of the Logger, and what `Wait()` returns to.

  Two inductive invariants, each proved once over the kinds of step:

    * `CountInv` — the `WaitGroup` counts exactly the tasks between `wg.Add`
      and `wg.Done`; `active` counts the post servers inside `postChain`; the
      `uint32` counters account for every `QueueChain` call and every
      `AddChain` call (modulo 2^32).  The `WaitGroup` bound keeps `active`
      below 2^31, so it never wraps.
    * `CacheInv` — `postCertCache` holds exactly the leaves of accepted
      chains, up to the `set` a successful worker is about to do, and
      `postChainCache` exactly the chains handed to `toPost`, up to the calls
      about to hand theirs off.

  At quiescence (`Wait` returns with no `QueueChain` in progress) every post
  server is idle, the "about to" parts are empty, and the counts balance
  (`active_counts_postChain_and_counters_balance`, `wait_caches_exact`).
  A `postChainCache` hit then comes from a chain with the caller's `Raw`s, or
  from a SHA-256 collision on the two `hashChain` inputs (§5).
-/
import CertTransparency.Fixchain.Logger.Exec

namespace CertTransparency.Fixchain

/-! ## §1. Classifying program counters and events. -/

namespace QueueChainPc

/-- Blocked in `toPost <- p`: counted by the `WaitGroup`. -/
@[simp] def isSending : QueueChainPc → Bool
  | send _ => true
  | _ => false

end QueueChainPc

namespace PostServerPc

/-- Holds a task, before `active++`. -/
@[simp] def isReceived : PostServerPc → Bool
  | received _ => true
  | _ => false

/-- Holds a task, after `active--`. -/
@[simp] def isFinished : PostServerPc → Bool
  | finished _ => true
  | _ => false

/-- Between `active++` and `active--`: inside `postChain` (its call and return
touch no shared state). -/
@[simp] def inPostChain : PostServerPc → Bool
  | idle | received _ | finished _ => false
  | _ => true

/-- Holds a task whose `posted` or `reposted` increment is still to come. -/
@[simp] def beforeCount : PostServerPc → Bool
  | received _ | certCheck _ | reposted _ | limiterWait _ => true
  | _ => false

/-- `AddChain` in flight. -/
@[simp] def isAddChain : PostServerPc → Bool
  | addChain _ => true
  | _ => false

/-- About to send a `LogPostFailed` error. -/
@[simp] def isPostFailed : PostServerPc → Bool
  | postFailed _ _ => true
  | _ => false

theorem eq_idle {w : PostServerPc} (h₁ : w.inPostChain = false) (h₂ : w.isReceived = false)
    (h₃ : w.isFinished = false) : w = idle := by
  cases w <;> simp_all

end PostServerPc

namespace Event

/-- An `AddChain` call. -/
@[simp] def isAddChain : Event → Bool
  | addChain _ => true
  | _ => false

/-- An `AddChain` return. -/
@[simp] def isDone : Event → Bool
  | addChainDone _ _ => true
  | _ => false

/-- A successful `AddChain` return. -/
@[simp] def isSuccess : Event → Bool
  | addChainDone _ ok => ok
  | _ => false

/-- A failed `AddChain` return. -/
@[simp] def isFailure : Event → Bool
  | addChainDone _ ok => !ok
  | _ => false

theorem countP_isDone (es : List Event) :
    es.countP isDone = es.countP isSuccess + es.countP isFailure := by
  induction es with
  | nil => rfl
  | cons e es ih => rcases e with p | p | ⟨p, _ | _⟩ <;> simp [List.countP_cons, ih] <;> omega

end Event

/-- The errors `postChain` reports. -/
def isLogPostFailed (e : FixError) : Bool := e.type == .logPostFailed

/-! ## §2. The counting invariant. -/

/-- `atomic.AddUint32(&x, 1)`, on the value. -/
theorem toNat_add_one (a : UInt32) : (a + 1).toNat = (a.toNat + 1) % 4294967296 := by
  rw [UInt32.toNat_add]; rfl

/-- Adding `^uint32(0)` subtracts one, modulo 2^32. -/
theorem toNat_add_complement_zero (a : UInt32) :
    (a + ~~~0).toNat = (a.toNat + 4294967295) % 4294967296 := by
  rw [UInt32.toNat_add]; rfl

/-- Every reachable state satisfies these equations. -/
structure Logger.CountInv (s : Logger) : Prop where
  wg_eq : s.wg = s.queueCalls.countP QueueChainPc.isSending + s.active.toNat +
    s.postServers.countP PostServerPc.isReceived + s.postServers.countP PostServerPc.isFinished
  wg_lt : s.wg < wgLimit
  active_eq : s.active.toNat = s.postServers.countP PostServerPc.inPostChain
  queued_eq : s.queued.toNat = (s.posted.toNat + s.reposted.toNat + s.chainReposted.toNat +
    s.queueCalls.length + s.postServers.countP PostServerPc.beforeCount) % UInt32.size
  posted_eq : s.posted.toNat = s.events.countP Event.isAddChain % UInt32.size
  calls_eq : s.events.countP Event.isAddChain =
    s.events.countP Event.isDone + s.postServers.countP PostServerPc.isAddChain
  errors_eq : s.errors.countP isLogPostFailed + s.postServers.countP PostServerPc.isPostFailed =
    s.events.countP Event.isFailure

theorem Logger.countInv_new (W : Nat) : (Logger.new W).CountInv := by
  constructor <;> simp [Logger.new, wgLimit, List.countP_replicate]

section CountSteps

variable {s s' : Logger}

/-- The `WaitGroup` counter, its bound and `active`: each bounds the others. -/
theorem Logger.Step.wg_active (h : s.Step s') (hi : s.CountInv) :
    s'.wg = s'.queueCalls.countP QueueChainPc.isSending + s'.active.toNat +
      s'.postServers.countP PostServerPc.isReceived + s'.postServers.countP PostServerPc.isFinished ∧
    s'.wg < wgLimit ∧ s'.active.toNat = s'.postServers.countP PostServerPc.inPostChain := by
  have h₁ := hi.wg_eq; have h₂ := hi.wg_lt; have h₃ := hi.active_eq
  have hL : wgLimit = 2147483648 := rfl
  cases h <;>
    simp only [List.countP_append, List.countP_cons, QueueChainPc.isSending,
      PostServerPc.isReceived, PostServerPc.isFinished, PostServerPc.inPostChain, toNat_add_one,
      toNat_add_complement_zero, Bool.false_eq_true, reduceIte] at h₁ h₂ h₃ ⊢ <;>
    omega

theorem Logger.Step.queued_eq (h : s.Step s') (hi : s.CountInv) :
    s'.queued.toNat = (s'.posted.toNat + s'.reposted.toNat + s'.chainReposted.toNat +
      s'.queueCalls.length + s'.postServers.countP PostServerPc.beforeCount) % UInt32.size := by
  have h₁ := hi.queued_eq
  cases h <;>
    simp only [List.countP_append, List.countP_cons, List.length_append, List.length_cons,
      PostServerPc.beforeCount, toNat_add_one, UInt32.size, Bool.false_eq_true,
      reduceIte] at h₁ ⊢ <;>
    omega

theorem Logger.Step.posted_eq (h : s.Step s') (hi : s.CountInv) :
    s'.posted.toNat = s'.events.countP Event.isAddChain % UInt32.size := by
  have h₁ := hi.posted_eq
  cases h <;>
    simp only [List.countP_append, List.countP_cons, List.countP_nil, Event.isAddChain,
      toNat_add_one, UInt32.size, Bool.false_eq_true, reduceIte] at h₁ ⊢ <;>
    omega

theorem Logger.Step.calls_eq (h : s.Step s') (hi : s.CountInv) :
    s'.events.countP Event.isAddChain =
      s'.events.countP Event.isDone + s'.postServers.countP PostServerPc.isAddChain := by
  have h₁ := hi.calls_eq
  cases h <;>
    simp only [List.countP_append, List.countP_cons, List.countP_nil, Event.isAddChain,
      Event.isDone, PostServerPc.isAddChain, Bool.false_eq_true, reduceIte] at h₁ ⊢ <;>
    omega

theorem Logger.Step.errors_eq (h : s.Step s') (hi : s.CountInv) :
    s'.errors.countP isLogPostFailed + s'.postServers.countP PostServerPc.isPostFailed =
      s'.events.countP Event.isFailure := by
  have h₁ := hi.errors_eq
  cases h <;>
    simp only [List.countP_append, List.countP_cons, List.countP_nil, PostServerPc.isPostFailed,
      Event.isFailure, isLogPostFailed, logPostFailedError, Bool.not_true, Bool.not_false,
      beq_self_eq_true, Bool.false_eq_true, reduceIte] at h₁ ⊢ <;>
    omega

theorem Logger.CountInv.step (hi : s.CountInv) (h : s.Step s') : s'.CountInv :=
  have hw := h.wg_active hi
  ⟨hw.1, hw.2.1, hw.2.2, h.queued_eq hi, h.posted_eq hi, h.calls_eq hi, h.errors_eq hi⟩

end CountSteps

theorem Logger.Reachable.countInv {W : Nat} {s : Logger} (hs : s.Reachable W) : s.CountInv := by
  induction hs with
  | refl => exact Logger.countInv_new W
  | tail _ h ih => exact ih.step h

/-- At quiescence every post server is idle. -/
theorem Logger.CountInv.idle_of_quiescent {s : Logger} (hi : s.CountInv) (hq : s.Quiescent) :
    ∀ w ∈ s.postServers, w = .idle := by
  have hwg := hi.wg_eq
  have hact := hi.active_eq
  rw [hq.1, hq.2] at hwg
  intro w hw
  apply PostServerPc.eq_idle <;>
  · rw [← Bool.not_eq_true]
    exact List.countP_eq_zero.1 (by simp at hwg; omega) w hw

/-- **The Logger's counters.**  In every reachable state `active` is the number of
post servers inside `postChain`, so its decrement never wraps; when `Wait` returns,
modulo 2^32, `queued = posted + reposted + chainReposted`, and `posted` is the
number of `AddChain` calls, which is the number of successes plus the number of
`LogPostFailed` errors sent. -/
theorem active_counts_postChain_and_counters_balance {W : Nat} {s : Logger} (hs : s.Reachable W) :
    s.active.toNat = s.postServers.countP PostServerPc.inPostChain ∧
    (∀ pre post p, s.postServers = pre ++ .leaving p :: post →
      (s.active + ~~~0).toNat = s.active.toNat - 1) ∧
    (s.Quiescent →
      s.queued = s.posted + s.reposted + s.chainReposted ∧
      s.posted.toNat = s.events.countP Event.isAddChain % UInt32.size ∧
      s.events.countP Event.isAddChain =
        s.events.countP Event.isSuccess + s.errors.countP isLogPostFailed) := by
  have hi := hs.countInv
  refine ⟨hi.active_eq, fun pre post p hw => ?_, fun hq => ?_⟩
  · have := hi.active_eq
    simp only [hw, List.countP_append, List.countP_cons, PostServerPc.inPostChain, reduceIte] at this
    have := s.active.toNat_lt
    rw [toNat_add_complement_zero]
    omega
  · have hidle := hi.idle_of_quiescent hq
    have hzero : ∀ f : PostServerPc → Bool, f .idle = false → s.postServers.countP f = 0 :=
      fun f hf => List.countP_eq_zero.2 fun w hw => by simp [hidle w hw, hf]
    have hqu := hi.queued_eq
    have hc := hi.calls_eq
    have he := hi.errors_eq
    rw [hq.1, hzero _ rfl] at hqu
    rw [hzero _ rfl] at hc he
    refine ⟨UInt32.ext ?_, hi.posted_eq, ?_⟩
    · simp only [UInt32.toNat_add, hqu, List.length_nil, UInt32.size]; omega
    · rw [hc, Event.countP_isDone]; omega

/-- The theorem where `postOnceTrace` ends, with one call counted and one chain posted. -/
theorem active_counts_postChain_and_counters_balance_postedOnce :
    postedOnce.Reachable 1 ∧ postedOnce.Quiescent ∧ postedOnce.queued = 1 ∧
    postedOnce.posted = 1 ∧
    (postedOnce.active.toNat = postedOnce.postServers.countP PostServerPc.inPostChain ∧
    (∀ pre post p, postedOnce.postServers = pre ++ .leaving p :: post →
      (postedOnce.active + ~~~0).toNat = postedOnce.active.toNat - 1) ∧
    (postedOnce.Quiescent →
      postedOnce.queued = postedOnce.posted + postedOnce.reposted + postedOnce.chainReposted ∧
      postedOnce.posted.toNat = postedOnce.events.countP Event.isAddChain % UInt32.size ∧
      postedOnce.events.countP Event.isAddChain =
        postedOnce.events.countP Event.isSuccess + postedOnce.errors.countP isLogPostFailed)) :=
  ⟨postedOnce_reachable, postedOnce_quiescent, by decide, by decide,
    active_counts_postChain_and_counters_balance postedOnce_reachable⟩

/-! ## §3. What one step does to the caches, the log and the phases.

Each lemma below is one fact about every kind of step; the cache invariant is
assembled from them and never looks at a step itself. -/

/-- A `QueueChain` call past `postChainCache.set` that has not handed `p` off yet. -/
def Logger.Enqueuing (s : Logger) (p : Chain) : Prop :=
  .wgAdd p ∈ s.queueCalls ∨ .send p ∈ s.queueCalls

section Effects

variable {s s' : Logger}

theorem Logger.Step.events_mono (h : s.Step s') {e : Event} (he : e ∈ s.events) :
    e ∈ s'.events := by
  cases h <;> simp [he]

theorem Logger.Step.certCache_mono (h : s.Step s') {k : Digest}
    (hk : s.postCertCache.get k = true) : s'.postCertCache.get k = true := by
  cases h <;> simp_all

theorem Logger.Step.chainCache_mono (h : s.Step s') {k : Digest}
    (hk : s.postChainCache.get k = true) : s'.postChainCache.get k = true := by
  cases h <;> simp_all

/-- Only a worker at `postOk` writes `postCertCache`. -/
theorem Logger.Step.certCache_eq (h : s.Step s') :
    s'.postCertCache = s.postCertCache ∨
    ∃ p, .postOk p ∈ s.postServers ∧ s'.postCertCache = s.postCertCache.set (hash p.leaf) true := by
  cases h <;> first | exact .inl rfl | exact .inr ⟨_, by simp, rfl⟩

/-- Only `postChainCache.set` in `QueueChain` writes `postChainCache`, and the call then
waits at `wg.Add`. -/
theorem Logger.Step.chainCache_eq (h : s.Step s') :
    s'.postChainCache = s.postChainCache ∨
    ∃ p, .wgAdd p ∈ s'.queueCalls ∧
      s'.postChainCache = s.postChainCache.set (hashChain p.certs) true := by
  cases h <;> first | exact .inl rfl | exact .inr ⟨_, by simp, rfl⟩

/-- A worker reaches `postOk` only by an `AddChain` success, logged in the same step. -/
theorem Logger.Step.postOk_new (h : s.Step s') {p : Chain} (hp : .postOk p ∈ s'.postServers) :
    .postOk p ∈ s.postServers ∨ .addChainDone p true ∈ s'.events := by
  cases h <;> simp at hp ⊢ <;> aesop

/-- A worker leaves `postOk` only by setting its leaf in `postCertCache`. -/
theorem Logger.Step.postOk_kept (h : s.Step s') {p : Chain} (hp : .postOk p ∈ s.postServers) :
    .postOk p ∈ s'.postServers ∨ s'.postCertCache.get (hash p.leaf) = true := by
  cases h <;> simp at hp ⊢ <;> aesop

/-- A success is logged as its worker reaches `postOk`. -/
theorem Logger.Step.success_new (h : s.Step s') {p : Chain}
    (hp : .addChainDone p true ∈ s'.events) :
    .addChainDone p true ∈ s.events ∨ .postOk p ∈ s'.postServers := by
  cases h <;> simp at hp ⊢ <;> aesop

/-- A hand-off is logged from a call blocked at `toPost <- p`. -/
theorem Logger.Step.handOff_new (h : s.Step s') {p : Chain} (hp : .handOff p ∈ s'.events) :
    .handOff p ∈ s.events ∨ .send p ∈ s.queueCalls := by
  cases h <;> simp at hp ⊢ <;> aesop

/-- A call past `postChainCache.set` stays there until its hand-off is logged. -/
theorem Logger.Step.enqueuing_kept (h : s.Step s') {p : Chain} (hp : s.Enqueuing p) :
    s'.Enqueuing p ∨ .handOff p ∈ s'.events := by
  cases h <;> simp [Logger.Enqueuing] at hp ⊢ <;> aesop

/-- A call gets past `postChainCache.set` only by setting its chain there. -/
theorem Logger.Step.enqueuing_new (h : s.Step s') {p : Chain} (hp : s'.Enqueuing p) :
    s.Enqueuing p ∨ s'.postChainCache.get (hashChain p.certs) = true := by
  cases h <;> simp [Logger.Enqueuing] at hp ⊢ <;> aesop

end Effects

/-! ## §4. The cache invariant. -/

/-- What the two caches hold, against the ghost log.  A key is in `postCertCache`
only for the leaf of an accepted chain, and every accepted leaf is there or is about
to be set by the worker at `postOk`; a key is in `postChainCache` only for a chain
handed to `toPost` or about to be, and every such chain is there. -/
structure Logger.CacheInv (s : Logger) : Prop where
  cert_sound : ∀ k, s.postCertCache.get k = true →
    ∃ p, .addChainDone p true ∈ s.events ∧ hash p.leaf = k
  cert_complete : ∀ p, .addChainDone p true ∈ s.events →
    s.postCertCache.get (hash p.leaf) = true ∨ .postOk p ∈ s.postServers
  postOk_logged : ∀ p, .postOk p ∈ s.postServers → .addChainDone p true ∈ s.events
  chain_sound : ∀ k, s.postChainCache.get k = true →
    ∃ p, (.handOff p ∈ s.events ∨ s.Enqueuing p) ∧ hashChain p.certs = k
  chain_complete : ∀ p, .handOff p ∈ s.events → s.postChainCache.get (hashChain p.certs) = true
  enqueuing_cached : ∀ p, s.Enqueuing p → s.postChainCache.get (hashChain p.certs) = true

theorem Logger.cacheInv_new (W : Nat) : (Logger.new W).CacheInv := by
  constructor <;> simp [Logger.new, Logger.Enqueuing]

theorem Logger.CacheInv.step {s s' : Logger} (hi : s.CacheInv) (h : s.Step s') : s'.CacheInv where
  cert_sound k hk := by
    have old : ∀ k, s.postCertCache.get k = true →
        ∃ p, .addChainDone p true ∈ s'.events ∧ hash p.leaf = k := fun k hk =>
      let ⟨p, hp, hpk⟩ := hi.cert_sound k hk; ⟨p, h.events_mono hp, hpk⟩
    rcases h.certCache_eq with heq | ⟨p, hp, heq⟩
    · exact old k (heq ▸ hk)
    · rw [heq, LockedMap.set_get] at hk
      split_ifs at hk with hkp
      · exact ⟨p, h.events_mono (hi.postOk_logged p hp), hkp.symm⟩
      · exact old k hk
  cert_complete p hp := by
    rcases h.success_new hp with hp | hp
    · exact (hi.cert_complete p hp).elim (.inl ∘ h.certCache_mono) (Or.symm ∘ h.postOk_kept)
    · exact .inr hp
  postOk_logged p hp :=
    (h.postOk_new hp).elim (h.events_mono ∘ hi.postOk_logged p) id
  chain_sound k hk := by
    have old : ∀ k, s.postChainCache.get k = true →
        ∃ p, (.handOff p ∈ s'.events ∨ s'.Enqueuing p) ∧ hashChain p.certs = k := fun k hk =>
      let ⟨p, hp, hpk⟩ := hi.chain_sound k hk
      ⟨p, hp.elim (.inl ∘ h.events_mono) (Or.symm ∘ h.enqueuing_kept), hpk⟩
    rcases h.chainCache_eq with heq | ⟨p, hp, heq⟩
    · exact old k (heq ▸ hk)
    · rw [heq, LockedMap.set_get] at hk
      split_ifs at hk with hkp
      · exact ⟨p, .inr (.inl hp), hkp.symm⟩
      · exact old k hk
  chain_complete p hp := h.chainCache_mono <|
    (h.handOff_new hp).elim (hi.chain_complete p) (hi.enqueuing_cached p ∘ .inr)
  enqueuing_cached p hp :=
    (h.enqueuing_new hp).elim (h.chainCache_mono ∘ hi.enqueuing_cached p) id

theorem Logger.Reachable.cacheInv {W : Nat} {s : Logger} (hs : s.Reachable W) : s.CacheInv := by
  induction hs with
  | refl => exact Logger.cacheInv_new W
  | tail _ h ih => exact ih.step h

/-- **The caches when `Wait` returns.**  Once every `QueueChain` call has returned and
the `WaitGroup` is zero, a key is in `postCertCache` exactly when an `AddChain` call
for a chain with that leaf hash returned success, and in `postChainCache` exactly
when a chain with that `hashChain` was handed to `toPost`. -/
theorem wait_caches_exact {W : Nat} {s : Logger} (hs : s.Reachable W) (hq : s.Quiescent) :
    (∀ k, s.postCertCache.get k = true ↔ ∃ p, .addChainDone p true ∈ s.events ∧ hash p.leaf = k) ∧
    (∀ k, s.postChainCache.get k = true ↔ ∃ p, .handOff p ∈ s.events ∧ hashChain p.certs = k) := by
  have hi := hs.cacheInv
  have hidle := hs.countInv.idle_of_quiescent hq
  refine ⟨fun k => ⟨hi.cert_sound k, ?_⟩, fun k => ⟨fun hk => ?_, ?_⟩⟩
  · rintro ⟨p, hp, rfl⟩
    exact (hi.cert_complete p hp).resolve_right fun h => by simpa using hidle _ h
  · obtain ⟨p, hp | hp, rfl⟩ := hi.chain_sound k hk
    · exact ⟨p, hp, rfl⟩
    · simp [Logger.Enqueuing, hq.1] at hp
  · rintro ⟨p, hp, rfl⟩
    exact hi.chain_complete p hp

/-- The theorem where `postOnceTrace` ends: after one hand-off and one success. -/
theorem wait_caches_exact_postedOnce :
    postedOnce.Reachable 1 ∧ postedOnce.Quiescent ∧
    postedOnce.events = [.handOff leafChain, .addChain leafChain, .addChainDone leafChain true] ∧
    ((∀ k, postedOnce.postCertCache.get k = true ↔
      ∃ p, .addChainDone p true ∈ postedOnce.events ∧ hash p.leaf = k) ∧
    (∀ k, postedOnce.postChainCache.get k = true ↔
      ∃ p, .handOff p ∈ postedOnce.events ∧ hashChain p.certs = k)) :=
  ⟨postedOnce_reachable, postedOnce_quiescent, postedOnce_events,
    wait_caches_exact postedOnce_reachable postedOnce_quiescent⟩

/-! ## §5. `postChainCache` hits and SHA-256 collisions. -/

section ChainCollisions

open CertTransparency.Crypto

/-- **`hashChain` tells chains apart up to a SHA-256 collision.**  `hashChain(ch)` is
SHA-256 of every `Raw` followed by `SHA-256("")`.  Over `Raw`s of which none is a
proper prefix of another, equal chain hashes mean one `Raw` sequence (length, order and
multiplicities) or two different inputs with one digest.  So in every reachable state
a `postChainCache` hit for `p` comes from a chain handed to `toPost`, or about to be,
that has `p`'s `Raw`s, unless SHA-256 collides on the two inputs. -/
theorem hashChain_injective_upto_collision :
    (∀ ch : List Certificate,
      (hashChain ch).bytes = sha256 (ch.map fun c => c.raw ++ sha256 []).flatten) ∧
    (∀ ch₁ ch₂ : List Certificate, PrefixFree ((ch₁ ++ ch₂).map Certificate.raw) →
      hashChain ch₁ = hashChain ch₂ →
      ch₁.map Certificate.raw = ch₂.map Certificate.raw ∨
        (chainInput ch₁ ≠ chainInput ch₂ ∧ sha256 (chainInput ch₁) = sha256 (chainInput ch₂))) ∧
    (∀ (W : Nat) (s : Logger) (p : Chain), s.Reachable W →
      s.postChainCache.get (hashChain p.certs) = true →
      ∃ q, (.handOff q ∈ s.events ∨ s.Enqueuing q) ∧
        (PrefixFree ((p.certs ++ q.certs).map Certificate.raw) →
          p.certs.map Certificate.raw = q.certs.map Certificate.raw ∨
            (chainInput p.certs ≠ chainInput q.certs ∧
              sha256 (chainInput p.certs) = sha256 (chainInput q.certs)))) :=
  ⟨fun ch => by
      -- `copy` keeps all 32 bytes of the digest
      rw [hashChain_eq, Digest.copy_bytes_of_le (by simp [hashSize])]
      exact List.take_of_length_le (by simp [hashSize]),
    fun _ _ => raws_eq_or_collision_of_hashChain_eq, fun _ _ _ hs hk =>
    let ⟨q, hq, hqk⟩ := hs.cacheInv.chain_sound _ hk
    ⟨q, hq, fun hpf => raws_eq_or_collision_of_hashChain_eq hpf hqk.symm⟩⟩

end ChainCollisions

end CertTransparency.Fixchain
