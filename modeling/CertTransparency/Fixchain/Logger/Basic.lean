/-
  CertTransparency.Fixchain.Logger.Basic — the asynchronous `Logger` of
  `logger.go` as a transition system over every interleaving of its goroutines.

  State: the two `lockedMap` caches, the five `uint32` counters, the
  `sync.WaitGroup` counter, one program counter per `QueueChain` call in
  progress (`QueueChainPc`) and per `postServer` goroutine (`PostServerPc`), the
  `FixError`s sent on `errors`, and a ghost log of what a run does towards the
  log, in order: hand-offs on `toPost`, `AddChain` calls and their returns.

  A step is ONE access to shared state by one goroutine: a `lockedMap` get or
  set, an atomic add, a channel operation, a `WaitGroup` operation, or an
  `AddChain` call or return.  The hand-off on the unbuffered `toPost` channel
  is one joint step of a sender and an idle `postServer`.  Local computation
  (`hash`, building `derChain`, the `nil` test) is folded into the next shared
  access.  `Reachable W` is every state of a Logger with `W` post servers.

  `wg.Add(1)` at the `WaitGroup`'s limit panics, and the panic ends the
  process: `Logger.Step` takes the `Add` only below the limit, and
  `Process.Step` adds the panic as the one step out of the running states.
-/
import CertTransparency.Fixchain.Hash
import Mathlib.Data.String.Basic
import Mathlib.Logic.Relation

namespace CertTransparency.Fixchain

/-! ## §1. Data. -/

/-- A non-nil chain handed to `Logger.QueueChain`: `certs[0]` is the leaf.  (A nil
chain makes `QueueChain` return before it touches shared state.) -/
structure Chain where
  certs : List Certificate
  certs_ne : certs ≠ []
  deriving DecidableEq

/-- `chain[0]`. -/
def Chain.leaf (p : Chain) : Certificate := p.certs.head p.certs_ne

/-- Modelled from the spec: `lockedMap` (§4.2), a map from 32-byte keys to booleans
under one mutex; `get` of an absent key is `false`, `set` inserts or overwrites. -/
structure LockedMap where
  get : Digest → Bool

/-- `newLockedMap()`. -/
def LockedMap.empty : LockedMap := ⟨fun _ => false⟩

/-- `m.set(k, v)`. -/
def LockedMap.set (m : LockedMap) (k : Digest) (v : Bool) : LockedMap :=
  ⟨fun k' => if k' = k then v else m.get k'⟩

@[simp] theorem LockedMap.empty_get (k : Digest) : LockedMap.empty.get k = false := rfl

@[simp] theorem LockedMap.set_get (m : LockedMap) (k k' : Digest) (v : Bool) :
    (m.set k v).get k' = if k' = k then v else m.get k' := rfl

/-- Modelled from the spec: the closed `errorType` taxonomy of §7. -/
inductive ErrorType where
  | none | parseFailure | cannotFetchURL | badURL | failedHTTPRequest | logPostFailed
  | verifyFailed | fixFailed
  deriving DecidableEq, Repr

/-- Modelled from the spec: a `FixError` (§3, §7): its type, the chain, the cause. -/
structure FixError where
  type : ErrorType
  chain : List Certificate
  error : String
  deriving DecidableEq

/-- One thing a run does towards the log, recorded in the ghost log. -/
inductive Event where
  /-- A `toPost` task for `p` was received by a `postServer`. -/
  | handOff (p : Chain)
  /-- A `postServer` called `AddChain` on `p`. -/
  | addChain (p : Chain)
  /-- That call returned, successfully or not. -/
  | addChainDone (p : Chain) (ok : Bool)
  deriving DecidableEq

/-- Where a `QueueChain(p)` call is (after its `queued++`). -/
inductive QueueChainPc where
  /-- before `postCertCache.get(hash(chain[0]))` -/
  | certCheck (p : Chain)
  /-- the leaf was posted: before `reposted++; return` -/
  | certReposted (p : Chain)
  /-- before `postChainCache.get(hashChain(chain))` -/
  | chainCheck (p : Chain)
  /-- the chain was tried: before `chainReposted++; return` -/
  | chainReposted (p : Chain)
  /-- before `postChainCache.set(h, true)` -/
  | chainSet (p : Chain)
  /-- in `postToLog`, before `wg.Add(1)` -/
  | wgAdd (p : Chain)
  /-- blocked in `l.toPost <- p` -/
  | send (p : Chain)
  deriving DecidableEq

/-- Where a `postServer` goroutine is. -/
inductive PostServerPc where
  /-- blocked in `c := <-l.toPost` -/
  | idle
  /-- holds `p`, before `active++` -/
  | received (p : Chain)
  /-- in `postChain(p)`, before `postCertCache.get(h)` -/
  | certCheck (p : Chain)
  /-- the leaf was posted: before `reposted++; return` -/
  | reposted (p : Chain)
  /-- in `limiter.Wait`; then `posted++` and `AddChain` -/
  | limiterWait (p : Chain)
  /-- `AddChain(derChain)` in flight -/
  | addChain (p : Chain)
  /-- `AddChain` succeeded: before `postCertCache.set(h, true)` -/
  | postOk (p : Chain)
  /-- `AddChain` failed with `err`: before `l.errors <- &FixError{...}` -/
  | postFailed (p : Chain) (err : String)
  /-- `postChain` is done: before `active += ^uint32(0)` -/
  | leaving (p : Chain)
  /-- before `l.wg.Done()` -/
  | finished (p : Chain)
  deriving DecidableEq

/-- The `Logger` and the goroutines running its methods. -/
structure Logger where
  postCertCache : LockedMap
  postChainCache : LockedMap
  active : UInt32
  queued : UInt32
  posted : UInt32
  reposted : UInt32
  chainReposted : UInt32
  /-- the `sync.WaitGroup` counter -/
  wg : Nat
  queueCalls : List QueueChainPc
  postServers : List PostServerPc
  /-- the `FixError`s sent on `errors`, in order -/
  errors : List FixError
  /-- ghost: the observable events, in order -/
  events : List Event

/-- `NewLogger` with `workerCount` post servers (a negative count starts none). -/
def Logger.new (workerCount : Nat) : Logger where
  postCertCache := .empty
  postChainCache := .empty
  active := 0
  queued := 0
  posted := 0
  reposted := 0
  chainReposted := 0
  wg := 0
  queueCalls := []
  postServers := List.replicate workerCount .idle
  errors := []
  events := []

/-- `IsPosted(cert)`. -/
def Logger.isPosted (l : Logger) (c : Certificate) : Bool := l.postCertCache.get (hash c)

/-- `sync.WaitGroup` keeps its counter in 32 signed bits: an `Add` that would make it
`2^31` panics ("negative WaitGroup counter") and ends the process. -/
def wgLimit : Nat := 2 ^ 31

/-- The `LogPostFailed` error `postChain` sends when `AddChain` fails with `err`. -/
def logPostFailedError (p : Chain) (err : String) : FixError :=
  ⟨.logPostFailed, p.certs, "add-chain failed: " ++ err⟩

/-! ## §2. Steps. -/

/-- One step of one goroutine (or the `toPost` hand-off of two).  The thread that
moves is written out in the pre-state: `pre ++ pc :: post`. -/
inductive Logger.Step : Logger → Logger → Prop where
  /-- `QueueChain(p)` is called on a non-nil chain: `queued++`. -/
  | queueChain (s : Logger) (p : Chain) :
      Step s { s with queued := s.queued + 1, queueCalls := .certCheck p :: s.queueCalls }
  | certHit (s : Logger) (pre post : List QueueChainPc) (p : Chain)
      (hc : s.postCertCache.get (hash p.leaf) = true) :
      Step { s with queueCalls := pre ++ .certCheck p :: post }
        { s with queueCalls := pre ++ .certReposted p :: post }
  | certMiss (s : Logger) (pre post : List QueueChainPc) (p : Chain)
      (hc : s.postCertCache.get (hash p.leaf) = false) :
      Step { s with queueCalls := pre ++ .certCheck p :: post }
        { s with queueCalls := pre ++ .chainCheck p :: post }
  | certReposted (s : Logger) (pre post : List QueueChainPc) (p : Chain) :
      Step { s with queueCalls := pre ++ .certReposted p :: post }
        { s with reposted := s.reposted + 1, queueCalls := pre ++ post }
  | chainHit (s : Logger) (pre post : List QueueChainPc) (p : Chain)
      (hc : s.postChainCache.get (hashChain p.certs) = true) :
      Step { s with queueCalls := pre ++ .chainCheck p :: post }
        { s with queueCalls := pre ++ .chainReposted p :: post }
  | chainMiss (s : Logger) (pre post : List QueueChainPc) (p : Chain)
      (hc : s.postChainCache.get (hashChain p.certs) = false) :
      Step { s with queueCalls := pre ++ .chainCheck p :: post }
        { s with queueCalls := pre ++ .chainSet p :: post }
  | chainReposted (s : Logger) (pre post : List QueueChainPc) (p : Chain) :
      Step { s with queueCalls := pre ++ .chainReposted p :: post }
        { s with chainReposted := s.chainReposted + 1, queueCalls := pre ++ post }
  | chainSet (s : Logger) (pre post : List QueueChainPc) (p : Chain) :
      Step { s with queueCalls := pre ++ .chainSet p :: post }
        { s with postChainCache := s.postChainCache.set (hashChain p.certs) true,
                 queueCalls := pre ++ .wgAdd p :: post }
  /-- `wg.Add(1)` below the limit; at the limit it panics (`Process.Step`). -/
  | wgAdd (s : Logger) (pre post : List QueueChainPc) (p : Chain) (hw : s.wg + 1 < wgLimit) :
      Step { s with queueCalls := pre ++ .wgAdd p :: post }
        { s with wg := s.wg + 1, queueCalls := pre ++ .send p :: post }
  /-- `l.toPost <- p` meets an idle `c := <-l.toPost`; `QueueChain` returns. -/
  | handOff (s : Logger) (pre post : List QueueChainPc) (wpre wpost : List PostServerPc) (p : Chain) :
      Step { s with queueCalls := pre ++ .send p :: post, postServers := wpre ++ .idle :: wpost }
        { s with queueCalls := pre ++ post, postServers := wpre ++ .received p :: wpost,
                 events := s.events ++ [.handOff p] }
  | enter (s : Logger) (pre post : List PostServerPc) (p : Chain) :
      Step { s with postServers := pre ++ .received p :: post }
        { s with active := s.active + 1, postServers := pre ++ .certCheck p :: post }
  | postCertHit (s : Logger) (pre post : List PostServerPc) (p : Chain)
      (hc : s.postCertCache.get (hash p.leaf) = true) :
      Step { s with postServers := pre ++ .certCheck p :: post }
        { s with postServers := pre ++ .reposted p :: post }
  | postCertMiss (s : Logger) (pre post : List PostServerPc) (p : Chain)
      (hc : s.postCertCache.get (hash p.leaf) = false) :
      Step { s with postServers := pre ++ .certCheck p :: post }
        { s with postServers := pre ++ .limiterWait p :: post }
  | postReposted (s : Logger) (pre post : List PostServerPc) (p : Chain) :
      Step { s with postServers := pre ++ .reposted p :: post }
        { s with reposted := s.reposted + 1, postServers := pre ++ .leaving p :: post }
  /-- `limiter.Wait` returns (its error is only logged), `posted++`, `AddChain` is called. -/
  | addChain (s : Logger) (pre post : List PostServerPc) (p : Chain) :
      Step { s with postServers := pre ++ .limiterWait p :: post }
        { s with posted := s.posted + 1, postServers := pre ++ .addChain p :: post,
                 events := s.events ++ [.addChain p] }
  | addChainOk (s : Logger) (pre post : List PostServerPc) (p : Chain) :
      Step { s with postServers := pre ++ .addChain p :: post }
        { s with postServers := pre ++ .postOk p :: post, events := s.events ++ [.addChainDone p true] }
  | addChainErr (s : Logger) (pre post : List PostServerPc) (p : Chain) (err : String) :
      Step { s with postServers := pre ++ .addChain p :: post }
        { s with postServers := pre ++ .postFailed p err :: post,
                 events := s.events ++ [.addChainDone p false] }
  | certSet (s : Logger) (pre post : List PostServerPc) (p : Chain) :
      Step { s with postServers := pre ++ .postOk p :: post }
        { s with postCertCache := s.postCertCache.set (hash p.leaf) true,
                 postServers := pre ++ .leaving p :: post }
  | sendError (s : Logger) (pre post : List PostServerPc) (p : Chain) (err : String) :
      Step { s with postServers := pre ++ .postFailed p err :: post }
        { s with errors := s.errors ++ [logPostFailedError p err],
                 postServers := pre ++ .leaving p :: post }
  /-- `atomic.AddUint32(&l.active, ^uint32(0))`. -/
  | leave (s : Logger) (pre post : List PostServerPc) (p : Chain) :
      Step { s with postServers := pre ++ .leaving p :: post }
        { s with active := s.active + ~~~0, postServers := pre ++ .finished p :: post }
  | done (s : Logger) (pre post : List PostServerPc) (p : Chain) :
      Step { s with postServers := pre ++ .finished p :: post }
        { s with wg := s.wg - 1, postServers := pre ++ .idle :: post }

/-- The states of a Logger with `workerCount` post servers, over every interleaving. -/
def Logger.Reachable (workerCount : Nat) (s : Logger) : Prop :=
  Relation.ReflTransGen Logger.Step (Logger.new workerCount) s

/-- `Wait()` returns, no `QueueChain` call being in progress: the `WaitGroup` is at zero. -/
def Logger.Quiescent (s : Logger) : Prop := s.queueCalls = [] ∧ s.wg = 0

/-! ## §3. The `WaitGroup` panic. -/

/-- A `QueueChain` call is at `wg.Add(1)` with the counter at `2^31 - 1`: if it moves,
`Add` panics. -/
def Logger.WgAddPanics (s : Logger) : Prop := ∃ p, .wgAdd p ∈ s.queueCalls ∧ wgLimit ≤ s.wg + 1

/-- The process the Logger runs in: running, in a Logger state, or ended by the
`WaitGroup` panic, after which nothing runs. -/
inductive Process where
  | running (s : Logger)
  | panicked

/-- A step of the process whose Logger moves by `r` (`Logger.Step`, or some of its steps):
an `r` step, or the panicking `wg.Add(1)`. -/
def Process.Step (r : Logger → Logger → Prop) : Process → Process → Prop
  | .running s, .running t => r s t
  | .running s, .panicked => s.WgAddPanics
  | .panicked, _ => False

end CertTransparency.Fixchain
