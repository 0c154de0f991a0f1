/-
  CertTransparency.Fixchain.Logger.Races — what the Logger's two caches prevent,
  and what they do not, when its goroutines interleave.

  Each `lockedMap` is read and written in separate critical sections, so a cache
  is a check made before an action, not a lock held across it:

    * a post server reads `postCertCache`, waits on the limiter, and only then
      posts.  A success for the same leaf in between does not stop it, even with
      the `QueueChain` calls made one after the other
      (`addChain_after_success_same_leaf`).  What the cache does give: once the
      leaf's key is set, only the servers already waiting on the limiter post for
      it (`addChain_for_posted_leaf_bounded`).
    * two concurrent `QueueChain` calls on one chain can both read
      `postChainCache` before either sets it, and the chain is posted twice
      (`concurrent_queueChain_posts_twice`).  With the calls made one after
      another, `AddChain` is called at most once per `hashChain` value
      (`addChain_once_per_chainHash_sequential`).
-/
import CertTransparency.Fixchain.Logger.Exec
import CertTransparency.Fixchain.Logger.Invariants

namespace CertTransparency.Fixchain

/-! ## §1. Callers that make one `QueueChain` call at a time. -/

/-- A step after which at most one `QueueChain` call is in progress: the calls are made
one after another (by one goroutine), while the post servers run concurrently. -/
def Logger.SeqStep (s t : Logger) : Prop := s.Step t ∧ t.queueCalls.length ≤ 1

/-- The states of a Logger with `W` post servers fed by one sequential caller. -/
def Logger.SeqReachable (W : Nat) (s : Logger) : Prop :=
  Relation.ReflTransGen Logger.SeqStep (Logger.new W) s

theorem Logger.SeqReachable.reachable {W : Nat} {s : Logger} (hs : s.SeqReachable W) :
    s.Reachable W :=
  Relation.ReflTransGen.mono (fun _ _ h => h.1) hs

/-- `exec`, refusing a step that would leave two `QueueChain` calls in progress. -/
def Logger.execSeq (s : Logger) (a : Action) : Option Logger :=
  (s.exec a).bind fun t => if t.queueCalls.length ≤ 1 then some t else none

/-- `run` over `execSeq`. -/
def Logger.runSeq (s : Logger) : List Action → Option Logger
  | [] => some s
  | a :: as => (s.execSeq a).bind (·.runSeq as)

theorem Logger.runSeq_sound : ∀ {s t : Logger} {as : List Action},
    s.runSeq as = some t → Relation.ReflTransGen Logger.SeqStep s t
  | _, _, [], h => by cases h; exact .refl
  | _, _, _ :: _, h => by
    simp only [Logger.runSeq, Logger.execSeq, Option.bind_eq_some, Option.ite_none_right_eq_some,
      Option.some.injEq] at h
    obtain ⟨_, ⟨u, hu, hlen, rfl⟩, h⟩ := h
    exact .head ⟨Logger.exec_sound hu, hlen⟩ (Logger.runSeq_sound h)

theorem Logger.seq_reach_of_run {W : Nat} {l : List Action} {p : Logger → Bool}
    (h : ((Logger.new W).runSeq l).map p = some true) : ∃ s, s.SeqReachable W ∧ p s = true := by
  cases hr : (Logger.new W).runSeq l with
  | none => simp [hr] at h
  | some s =>
    simp only [hr, Option.map_some', Option.some.injEq] at h
    exact ⟨s, Logger.runSeq_sound hr, h⟩

/-! ## §2. A success does not stop the servers already past their check. -/

/-- `QueueChain(leafChain)` runs to its hand-off to server 0, then
`QueueChain(leafIntermediateChain)` to server 1.  Both servers pass the
`postCertCache` check; server 0 posts, succeeds and sets the cache; then server 1,
already past its check, posts. -/
def leafRaceTrace : List Action :=
  [.queueChain leafChain, .call 0, .call 0, .call 0, .call 0, .handOff 0 0,
   .queueChain leafIntermediateChain, .call 0, .call 0, .call 0, .call 0, .handOff 0 1,
   .serve 0, .serve 0, .serve 1, .serve 1,
   .serve 0, .addChainReturns 0 none, .serve 0, .serve 1]

set_option maxRecDepth 100000 in
/-- With two post servers and two `QueueChain` calls made one after the other, an
`AddChain` call for a chain with leaf `L` starts after one for another chain with
leaf `L` has returned success. -/
theorem addChain_after_success_same_leaf :
    ∃ s : Logger, s.SeqReachable 2 ∧ ∃ p₁ p₂ : Chain, p₁.leaf = p₂.leaf ∧
      ∃ pre mid post, s.events = pre ++ .addChainDone p₁ true :: mid ++ .addChain p₂ :: post := by
  obtain ⟨s, hs, hp⟩ := Logger.seq_reach_of_run (W := 2) (l := leafRaceTrace)
    (p := fun s : Logger => s.events == [Event.handOff leafChain, .handOff leafIntermediateChain,
      .addChain leafChain, .addChainDone leafChain true, .addChain leafIntermediateChain])
    (by decide)
  refine ⟨s, hs, leafChain, leafIntermediateChain, rfl,
    [Event.handOff leafChain, .handOff leafIntermediateChain, .addChain leafChain], [], [], ?_⟩
  simpa using hp

/-- An `AddChain` call for a chain whose leaf has key `k`. -/
def Event.isAddChainForLeaf (k : Digest) : Event → Bool
  | .addChain p => decide (hash p.leaf = k)
  | _ => false

/-- A post server in `limiter.Wait` with a chain whose leaf has key `k`. -/
def PostServerPc.isWaitingForLeaf (k : Digest) : PostServerPc → Bool
  | .limiterWait p => decide (hash p.leaf = k)
  | _ => false

/-- While `postCertCache` holds `k`, a step adds an `AddChain` call for key `k` only by
taking a waiting server out of `limiter.Wait`: a server that checks the cache now
goes to `reposted`. -/
theorem Logger.Step.addChainForLeaf_le {s t : Logger} {k : Digest} (h : s.Step t)
    (hk : s.postCertCache.get k = true) :
    t.events.countP (Event.isAddChainForLeaf k) + t.postServers.countP (PostServerPc.isWaitingForLeaf k) ≤
      s.events.countP (Event.isAddChainForLeaf k) +
        s.postServers.countP (PostServerPc.isWaitingForLeaf k) := by
  cases h
  case postCertMiss s pre post p hc =>
    have hne : hash p.leaf ≠ k := by rintro rfl; simp_all
    simp [List.countP_append, Event.isAddChainForLeaf, PostServerPc.isWaitingForLeaf, hne]
  all_goals
    simp only [List.countP_append, List.countP_cons, List.countP_nil, Event.isAddChainForLeaf,
      PostServerPc.isWaitingForLeaf, Bool.false_eq_true, reduceIte]
    omega

/-- **What `postCertCache` does guarantee.**  From any state in which `postCertCache`
holds the key `k` of a leaf (set once an `AddChain` call for a chain with that leaf
returned success, `wait_caches_exact`), every run starts at most as many further
`AddChain` calls for chains whose leaf has key `k` as there were post servers then
waiting in `limiter.Wait` with such a chain. -/
theorem addChain_for_posted_leaf_bounded {s t : Logger} {k : Digest}
    (hk : s.postCertCache.get k = true) (hrun : Relation.ReflTransGen Logger.Step s t) :
    t.events.countP (Event.isAddChainForLeaf k) ≤
      s.events.countP (Event.isAddChainForLeaf k) +
        s.postServers.countP (PostServerPc.isWaitingForLeaf k) := by
  suffices t.events.countP (Event.isAddChainForLeaf k) +
      t.postServers.countP (PostServerPc.isWaitingForLeaf k) ≤
        s.events.countP (Event.isAddChainForLeaf k) +
          s.postServers.countP (PostServerPc.isWaitingForLeaf k) ∧
      t.postCertCache.get k = true by omega
  induction hrun with
  | refl => exact ⟨le_rfl, hk⟩
  | tail _ h ih => exact ⟨(h.addChainForLeaf_le ih.2).trans ih.1, h.certCache_mono ih.2⟩

/-- Two `QueueChain(leafChain)` calls hand the chain to both servers, which both pass
the `postCertCache` check; server 0's `AddChain` succeeds and it caches the leaf, while
server 1 still waits on the limiter. -/
def cachedRaceTrace : List Action :=
  [.queueChain leafChain, .queueChain leafChain, .call 0, .call 1, .call 0, .call 1,
   .call 0, .call 1, .call 0, .call 1, .handOff 0 0, .handOff 0 1,
   .serve 0, .serve 0, .serve 1, .serve 1, .serve 0, .addChainReturns 0 none, .serve 0]

/-- Where `cachedRaceTrace` ends. -/
def cachedRace : Logger := (Logger.new 2).runD cachedRaceTrace

/-- The bound where `cachedRaceTrace` ends and server 1 then calls `AddChain`: the leaf
is cached, one server was waiting, and the one further call reaches the bound. -/
theorem addChain_for_posted_leaf_bounded_cachedRace :
    cachedRace.Reachable 2 ∧ cachedRace.postCertCache.get (hash raceLeaf) = true ∧
    Relation.ReflTransGen Logger.Step cachedRace (cachedRace.runD [.serve 1]) ∧
    cachedRace.events.countP (Event.isAddChainForLeaf (hash raceLeaf)) = 1 ∧
    (cachedRace.runD [.serve 1]).events.countP (Event.isAddChainForLeaf (hash raceLeaf)) = 2 ∧
    (cachedRace.runD [.serve 1]).events.countP (Event.isAddChainForLeaf (hash raceLeaf)) ≤
      cachedRace.events.countP (Event.isAddChainForLeaf (hash raceLeaf)) +
        cachedRace.postServers.countP (PostServerPc.isWaitingForLeaf (hash raceLeaf)) :=
  have hk : cachedRace.postCertCache.get (hash raceLeaf) = true := by
    rw [show cachedRace.postCertCache = LockedMap.empty.set (hash raceLeaf) true from rfl,
      LockedMap.set_get, if_pos rfl]
  have hrun : Relation.ReflTransGen Logger.Step cachedRace (cachedRace.runD [.serve 1]) :=
    Logger.runD_sound (by decide)
  have he : cachedRace.events =
      [.handOff leafChain, .handOff leafChain, .addChain leafChain, .addChainDone leafChain true] := by
    decide
  have he' : (cachedRace.runD [.serve 1]).events = cachedRace.events ++ [.addChain leafChain] := by
    decide
  ⟨Logger.runD_sound (by decide), hk, hrun, by simp [he, Event.isAddChainForLeaf],
    by simp [he', he, Event.isAddChainForLeaf], addChain_for_posted_leaf_bounded hk hrun⟩

/-! ## §3. `postChainCache` against concurrent and sequential callers. -/

/-- An `AddChain` call for a chain with `hashChain` key `k`. -/
def Event.isAddChainForChain (k : Digest) : Event → Bool
  | .addChain p => decide (hashChain p.certs = k)
  | _ => false

/-- A hand-off of a chain with key `k`. -/
def Event.isHandOffForChain (k : Digest) : Event → Bool
  | .handOff p => decide (hashChain p.certs = k)
  | _ => false

/-- A post server holding a chain with key `k` that it may still post. -/
def PostServerPc.isPendingForChain (k : Digest) : PostServerPc → Bool
  | .received p | .certCheck p | .limiterWait p => decide (hashChain p.certs = k)
  | _ => false

/-- A `QueueChain` call past its `postChainCache` check, with a chain with key `k`. -/
def QueueChainPc.isClaimingChain (k : Digest) : QueueChainPc → Bool
  | .chainSet p | .wgAdd p | .send p => decide (hashChain p.certs = k)
  | _ => false

/-- Two `QueueChain(leafChain)` calls both read `postChainCache` before either sets
it; both hand the chain off, and both servers post it. -/
def chainRaceTrace : List Action :=
  [.queueChain leafChain, .queueChain leafChain, .call 0, .call 1, .call 0, .call 1,
   .call 0, .call 1, .call 0, .call 1, .handOff 0 0, .handOff 0 1,
   .serve 0, .serve 0, .serve 1, .serve 1, .serve 0, .serve 1]

/-- With two concurrent `QueueChain` calls on one chain, `AddChain` is called twice for
its `hashChain` value. -/
theorem concurrent_queueChain_posts_twice :
    ∃ s : Logger, s.Reachable 2 ∧ ∃ p : Chain,
      1 < s.events.countP (Event.isAddChainForChain (hashChain p.certs)) := by
  obtain ⟨s, hs, hp⟩ := Logger.reach_of_run (W := 2) (l := chainRaceTrace)
    (p := fun s : Logger => s.events == [Event.handOff leafChain, .handOff leafChain,
      .addChain leafChain, .addChain leafChain])
    (by decide)
  refine ⟨s, hs, leafChain, ?_⟩
  simp only [beq_iff_eq] at hp
  simp [hp, Event.isAddChainForChain]

/-- Every `AddChain` call for key `k`, and every server that may still make one, is
matched by a hand-off of a chain with key `k`. -/
theorem Logger.Step.addChainForChain_le {s t : Logger} {k : Digest} (h : s.Step t)
    (hi : s.events.countP (Event.isAddChainForChain k) +
      s.postServers.countP (PostServerPc.isPendingForChain k) ≤
        s.events.countP (Event.isHandOffForChain k)) :
    t.events.countP (Event.isAddChainForChain k) +
      t.postServers.countP (PostServerPc.isPendingForChain k) ≤
        t.events.countP (Event.isHandOffForChain k) := by
  cases h <;>
    simp only [List.countP_append, List.countP_cons, List.countP_nil, Event.isAddChainForChain,
      Event.isHandOffForChain, PostServerPc.isPendingForChain, Bool.false_eq_true, reduceIte] at hi ⊢ <;>
    omega

theorem Logger.Reachable.addChainForChain_le {W : Nat} {s : Logger} (hs : s.Reachable W) (k : Digest) :
    s.events.countP (Event.isAddChainForChain k) +
      s.postServers.countP (PostServerPc.isPendingForChain k) ≤
        s.events.countP (Event.isHandOffForChain k) := by
  induction hs with
  | refl => simp [Logger.new, List.countP_replicate, PostServerPc.isPendingForChain]
  | tail _ h ih => exact h.addChainForChain_le ih

/-- With one `QueueChain` call in progress at a time, a call passes the
`postChainCache` check for key `k` only when no chain with key `k` was handed off or
claimed: the cache holds every such key (`Logger.CacheInv`). -/
theorem Logger.SeqStep.handOffForChain_le {s t : Logger} {k : Digest} (hc : s.CacheInv)
    (h : s.SeqStep t)
    (hi : s.events.countP (Event.isHandOffForChain k) +
      s.queueCalls.countP (QueueChainPc.isClaimingChain k) ≤ 1) :
    t.events.countP (Event.isHandOffForChain k) +
      t.queueCalls.countP (QueueChainPc.isClaimingChain k) ≤ 1 := by
  obtain ⟨h, hlen⟩ := h
  cases h
  case chainMiss s pre post p hmiss =>
    simp only [List.length_append, List.length_cons] at hlen
    obtain ⟨rfl, rfl⟩ : pre = [] ∧ post = [] :=
      ⟨List.eq_nil_of_length_eq_zero (by omega), List.eq_nil_of_length_eq_zero (by omega)⟩
    by_cases hk : hashChain p.certs = k
    · have hnone : s.events.countP (Event.isHandOffForChain k) = 0 := by
        refine List.countP_eq_zero.2 fun e he hek => ?_
        rcases e with q | q | ⟨q, _⟩ <;> simp only [Event.isHandOffForChain, decide_eq_true_eq,
          Bool.false_eq_true] at hek
        have := hc.chain_complete q he
        simp_all
      simp [hnone, QueueChainPc.isClaimingChain, hk]
    · simpa [QueueChainPc.isClaimingChain, hk] using hi
  all_goals
    simp only [List.countP_append, List.countP_cons, List.countP_nil, Event.isHandOffForChain,
      QueueChainPc.isClaimingChain, Bool.false_eq_true, reduceIte] at hi ⊢
    omega

/-- **`postChainCache` with a sequential caller.**  When `QueueChain` is called from one
goroutine at a time, over any number of post servers and any interleaving of them,
`AddChain` is called at most once for each value of `hashChain`. -/
theorem addChain_once_per_chainHash_sequential {W : Nat} {s : Logger} (hs : s.SeqReachable W)
    (k : Digest) : s.events.countP (Event.isAddChainForChain k) ≤ 1 := by
  have hclaim : s.events.countP (Event.isHandOffForChain k) +
      s.queueCalls.countP (QueueChainPc.isClaimingChain k) ≤ 1 := by
    induction hs with
    | refl => simp [Logger.new]
    | tail hr h ih => exact h.handOffForChain_le (Logger.SeqReachable.reachable hr).cacheInv ih
  have := hs.reachable.addChainForChain_le k
  omega

/-- The bound where `postOnceTrace` ends, a run of one call at a time that posts
`leafChain` once. -/
theorem addChain_once_per_chainHash_sequential_postedOnce :
    postedOnce.SeqReachable 1 ∧
      postedOnce.events.countP (Event.isAddChainForChain (hashChain leafChain.certs)) = 1 ∧
      postedOnce.events.countP (Event.isAddChainForChain (hashChain leafChain.certs)) ≤ 1 :=
  have hs : postedOnce.SeqReachable 1 :=
    Logger.runSeq_sound (by rfl : (Logger.new 1).runSeq postOnceTrace = some postedOnce)
  ⟨hs, by simp [postedOnce_events, Event.isAddChainForChain],
    addChain_once_per_chainHash_sequential hs _⟩

end CertTransparency.Fixchain
