/-
  CertTransparency.Fixchain.Logger.Exec — the Logger's steps as an interpreter.

  `Logger.exec s a` takes the step that the action `a` names (which goroutine
  moves and, when `AddChain` returns, with what result) and fails when that
  goroutine cannot move.  It has exactly the steps of `Logger.Step`
  (`Logger.step_iff_exec`), so a list of actions replays a run, and a state is
  reachable exactly when some list of actions leads to it
  (`Logger.reachable_iff_run`).  The races of `Races`, and the runs that
  exercise the theorems about reachable states, are such lists, checked by
  evaluation.
-/
import CertTransparency.Fixchain.Logger.Basic

namespace CertTransparency.Fixchain

/-! ## §1. Picking one goroutine. -/

/-- Split a list at position `i`: the elements before it, the element, the rest. -/
def pick {α : Type} : List α → Nat → Option (List α × α × List α)
  | [], _ => none
  | x :: xs, 0 => some ([], x, xs)
  | x :: xs, i + 1 => (pick xs i).map fun (pre, y, post) => (x :: pre, y, post)

theorem pick_eq {α : Type} : ∀ {l : List α} {i : Nat} {pre : List α} {x : α} {post : List α},
    pick l i = some (pre, x, post) → l = pre ++ x :: post
  | [], _, _, _, _, h => by simp [pick] at h
  | _ :: _, 0, _, _, _, h => by
    simp only [pick, Option.some.injEq, Prod.mk.injEq] at h
    obtain ⟨rfl, rfl, rfl⟩ := h
    rfl
  | y :: ys, i + 1, pre, x, post, h => by
    simp only [pick, Option.map_eq_some', Prod.exists, Prod.mk.injEq] at h
    obtain ⟨pre', x', post', hp, rfl, rfl, rfl⟩ := h
    simp [pick_eq hp]

theorem pick_append {α : Type} (pre : List α) (x : α) (post : List α) :
    pick (pre ++ x :: post) pre.length = some (pre, x, post) := by
  induction pre with
  | nil => rfl
  | cons y pre ih => simp [pick, ih]

/-! ## §2. One action. -/

/-- Which goroutine takes the next step. -/
inductive Action where
  /-- a new `QueueChain(p)` call -/
  | queueChain (p : Chain)
  /-- the `i`-th `QueueChain` call in progress, short of its send -/
  | call (i : Nat)
  /-- call `i`'s `toPost <- p` meets post server `j` -/
  | handOff (i j : Nat)
  /-- post server `j`, short of the return of `AddChain` -/
  | serve (j : Nat)
  /-- `AddChain` returns to post server `j`: `none` for success, `some err` for an error -/
  | addChainReturns (j : Nat) (err : Option String)
  deriving DecidableEq

/-- The next step of a `QueueChain` call at `c`, the other calls being `pre` and `post`;
a call blocked in its send waits for `Action.handOff`. -/
def Logger.callStep (s : Logger) (pre post : List QueueChainPc) : QueueChainPc → Option Logger
  | .certCheck p =>
    if s.postCertCache.get (hash p.leaf) then some { s with queueCalls := pre ++ .certReposted p :: post }
    else some { s with queueCalls := pre ++ .chainCheck p :: post }
  | .certReposted _ => some { s with reposted := s.reposted + 1, queueCalls := pre ++ post }
  | .chainCheck p =>
    if s.postChainCache.get (hashChain p.certs) then
      some { s with queueCalls := pre ++ .chainReposted p :: post }
    else some { s with queueCalls := pre ++ .chainSet p :: post }
  | .chainReposted _ =>
    some { s with chainReposted := s.chainReposted + 1, queueCalls := pre ++ post }
  | .chainSet p =>
    some { s with postChainCache := s.postChainCache.set (hashChain p.certs) true,
                  queueCalls := pre ++ .wgAdd p :: post }
  | .wgAdd p =>
    if s.wg + 1 < wgLimit then some { s with wg := s.wg + 1, queueCalls := pre ++ .send p :: post }
    else none
  | .send _ => none

/-- The next step of a post server at `w`, the others being `pre` and `post`; an idle
server waits for `Action.handOff`, one in `AddChain` for `Action.addChainReturns`. -/
def Logger.serverStep (s : Logger) (pre post : List PostServerPc) : PostServerPc → Option Logger
  | .idle => none
  | .received p => some { s with active := s.active + 1, postServers := pre ++ .certCheck p :: post }
  | .certCheck p =>
    if s.postCertCache.get (hash p.leaf) then some { s with postServers := pre ++ .reposted p :: post }
    else some { s with postServers := pre ++ .limiterWait p :: post }
  | .reposted p =>
    some { s with reposted := s.reposted + 1, postServers := pre ++ .leaving p :: post }
  | .limiterWait p =>
    some { s with posted := s.posted + 1, postServers := pre ++ .addChain p :: post,
                  events := s.events ++ [.addChain p] }
  | .addChain _ => none
  | .postOk p =>
    some { s with postCertCache := s.postCertCache.set (hash p.leaf) true,
                  postServers := pre ++ .leaving p :: post }
  | .postFailed p err =>
    some { s with errors := s.errors ++ [logPostFailedError p err],
                  postServers := pre ++ .leaving p :: post }
  | .leaving p => some { s with active := s.active + ~~~0, postServers := pre ++ .finished p :: post }
  | .finished _ => some { s with wg := s.wg - 1, postServers := pre ++ .idle :: post }

/-- The step an action names, if that goroutine can take it. -/
def Logger.exec (s : Logger) : Action → Option Logger
  | .queueChain p => some { s with queued := s.queued + 1, queueCalls := .certCheck p :: s.queueCalls }
  | .call i => (pick s.queueCalls i).bind fun (pre, c, post) => s.callStep pre post c
  | .handOff i j =>
    match pick s.queueCalls i, pick s.postServers j with
    | some (pre, .send p, post), some (wpre, .idle, wpost) =>
      some { s with queueCalls := pre ++ post, postServers := wpre ++ .received p :: wpost,
                    events := s.events ++ [.handOff p] }
    | _, _ => none
  | .serve j => (pick s.postServers j).bind fun (pre, w, post) => s.serverStep pre post w
  | .addChainReturns j err =>
    match pick s.postServers j, err with
    | some (pre, .addChain p, post), none =>
      some { s with postServers := pre ++ .postOk p :: post,
                    events := s.events ++ [.addChainDone p true] }
    | some (pre, .addChain p, post), some e =>
      some { s with postServers := pre ++ .postFailed p e :: post,
                    events := s.events ++ [.addChainDone p false] }
    | _, _ => none

/-- The actions in order, stopping at the first that cannot be taken. -/
def Logger.run (s : Logger) : List Action → Option Logger
  | [] => some s
  | a :: as => (s.exec a).bind (·.run as)

/-! ## §3. `exec` takes exactly the steps of `Logger.Step`. -/

section Sound

variable {s t : Logger}

theorem Logger.Step.of_queueCalls {l : List QueueChainPc} (hl : s.queueCalls = l)
    (h : Step { s with queueCalls := l } t) : s.Step t := by
  subst hl; exact h

theorem Logger.Step.of_postServers {l : List PostServerPc} (hl : s.postServers = l)
    (h : Step { s with postServers := l } t) : s.Step t := by
  subst hl; exact h

theorem Logger.callStep_sound {pre post : List QueueChainPc} {c : QueueChainPc}
    (hl : s.queueCalls = pre ++ c :: post) (h : s.callStep pre post c = some t) : s.Step t := by
  refine .of_queueCalls hl ?_
  cases c with
  | certCheck p =>
    cases hc : s.postCertCache.get (hash p.leaf) <;> simp only [Logger.callStep, hc] at h <;> cases h
    exacts [.certMiss s pre post p hc, .certHit s pre post p hc]
  | certReposted p => cases h; exact .certReposted s pre post p
  | chainCheck p =>
    cases hc : s.postChainCache.get (hashChain p.certs) <;> simp only [Logger.callStep, hc] at h <;> cases h
    exacts [.chainMiss s pre post p hc, .chainHit s pre post p hc]
  | chainReposted p => cases h; exact .chainReposted s pre post p
  | chainSet p => cases h; exact .chainSet s pre post p
  | wgAdd p =>
    by_cases hw : s.wg + 1 < wgLimit <;> simp only [Logger.callStep, hw] at h <;> cases h
    exact .wgAdd s pre post p hw
  | send p => cases h

theorem Logger.serverStep_sound {pre post : List PostServerPc} {w : PostServerPc}
    (hl : s.postServers = pre ++ w :: post) (h : s.serverStep pre post w = some t) : s.Step t := by
  refine .of_postServers hl ?_
  cases w with
  | idle => cases h
  | received p => cases h; exact .enter s pre post p
  | certCheck p =>
    cases hc : s.postCertCache.get (hash p.leaf) <;> simp only [Logger.serverStep, hc] at h <;> cases h
    exacts [.postCertMiss s pre post p hc, .postCertHit s pre post p hc]
  | reposted p => cases h; exact .postReposted s pre post p
  | limiterWait p => cases h; exact .addChain s pre post p
  | addChain p => cases h
  | postOk p => cases h; exact .certSet s pre post p
  | postFailed p err => cases h; exact .sendError s pre post p err
  | leaving p => cases h; exact .leave s pre post p
  | finished p => cases h; exact .done s pre post p

theorem Logger.exec_sound {a : Action} (h : s.exec a = some t) : s.Step t := by
  cases a with
  | queueChain p => cases h; exact .queueChain s p
  | call i =>
    simp only [Logger.exec, Option.bind_eq_some, Prod.exists] at h
    obtain ⟨pre, c, post, hp, h⟩ := h
    exact Logger.callStep_sound (pick_eq hp) h
  | handOff i j =>
    simp only [Logger.exec] at h
    split at h
    · rename_i pre p post wpre wpost hq hw
      cases h
      exact .of_queueCalls (pick_eq hq) (.of_postServers (pick_eq hw) (.handOff s pre post wpre wpost p))
    · cases h
  | serve j =>
    simp only [Logger.exec, Option.bind_eq_some, Prod.exists] at h
    obtain ⟨pre, w, post, hp, h⟩ := h
    exact Logger.serverStep_sound (pick_eq hp) h
  | addChainReturns j err =>
    simp only [Logger.exec] at h
    split at h
    · rename_i pre p post hw
      cases h
      exact .of_postServers (pick_eq hw) (.addChainOk s pre post p)
    · rename_i pre p post e hw
      cases h
      exact .of_postServers (pick_eq hw) (.addChainErr s pre post p e)
    · cases h

theorem Logger.Step.exists_exec (h : s.Step t) : ∃ a, s.exec a = some t := by
  cases h with
  | queueChain s p => exact ⟨.queueChain p, rfl⟩
  | certHit s pre post p hc =>
    exact ⟨.call pre.length, by simp [Logger.exec, pick_append, Logger.callStep, hc]⟩
  | certMiss s pre post p hc =>
    exact ⟨.call pre.length, by simp [Logger.exec, pick_append, Logger.callStep, hc]⟩
  | certReposted s pre post p => exact ⟨.call pre.length, by simp [Logger.exec, pick_append, Logger.callStep]⟩
  | chainHit s pre post p hc =>
    exact ⟨.call pre.length, by simp [Logger.exec, pick_append, Logger.callStep, hc]⟩
  | chainMiss s pre post p hc =>
    exact ⟨.call pre.length, by simp [Logger.exec, pick_append, Logger.callStep, hc]⟩
  | chainReposted s pre post p => exact ⟨.call pre.length, by simp [Logger.exec, pick_append, Logger.callStep]⟩
  | chainSet s pre post p => exact ⟨.call pre.length, by simp [Logger.exec, pick_append, Logger.callStep]⟩
  | wgAdd s pre post p hw =>
    exact ⟨.call pre.length, by simp [Logger.exec, pick_append, Logger.callStep, hw]⟩
  | handOff s pre post wpre wpost p =>
    exact ⟨.handOff pre.length wpre.length, by simp [Logger.exec, pick_append]⟩
  | enter s pre post p => exact ⟨.serve pre.length, by simp [Logger.exec, pick_append, Logger.serverStep]⟩
  | postCertHit s pre post p hc =>
    exact ⟨.serve pre.length, by simp [Logger.exec, pick_append, Logger.serverStep, hc]⟩
  | postCertMiss s pre post p hc =>
    exact ⟨.serve pre.length, by simp [Logger.exec, pick_append, Logger.serverStep, hc]⟩
  | postReposted s pre post p => exact ⟨.serve pre.length, by simp [Logger.exec, pick_append, Logger.serverStep]⟩
  | addChain s pre post p => exact ⟨.serve pre.length, by simp [Logger.exec, pick_append, Logger.serverStep]⟩
  | addChainOk s pre post p => exact ⟨.addChainReturns pre.length none, by simp [Logger.exec, pick_append]⟩
  | addChainErr s pre post p err =>
    exact ⟨.addChainReturns pre.length (some err), by simp [Logger.exec, pick_append]⟩
  | certSet s pre post p => exact ⟨.serve pre.length, by simp [Logger.exec, pick_append, Logger.serverStep]⟩
  | sendError s pre post p err =>
    exact ⟨.serve pre.length, by simp [Logger.exec, pick_append, Logger.serverStep]⟩
  | leave s pre post p => exact ⟨.serve pre.length, by simp [Logger.exec, pick_append, Logger.serverStep]⟩
  | done s pre post p => exact ⟨.serve pre.length, by simp [Logger.exec, pick_append, Logger.serverStep]⟩

/-- The interpreter and the step relation agree. -/
theorem Logger.step_iff_exec : s.Step t ↔ ∃ a, s.exec a = some t :=
  ⟨Logger.Step.exists_exec, fun ⟨_, h⟩ => Logger.exec_sound h⟩

end Sound

/-! ## §4. Runs. -/

theorem Logger.run_sound : ∀ {s t : Logger} {as : List Action},
    s.run as = some t → Relation.ReflTransGen Logger.Step s t
  | _, _, [], h => by cases h; exact .refl
  | _, _, _ :: _, h => by
    simp only [Logger.run, Option.bind_eq_some] at h
    obtain ⟨_, h₁, h₂⟩ := h
    exact .head (Logger.exec_sound h₁) (Logger.run_sound h₂)

theorem Logger.exists_run {s t : Logger} (h : Relation.ReflTransGen Logger.Step s t) :
    ∃ as, s.run as = some t := by
  induction h using Relation.ReflTransGen.head_induction_on with
  | refl => exact ⟨[], rfl⟩
  | head h _ ih =>
    obtain ⟨a, ha⟩ := h.exists_exec
    obtain ⟨as, has⟩ := ih
    exact ⟨a :: as, by simp [Logger.run, ha, has]⟩

/-- **Reachability is replay.**  The states of a Logger with `W` post servers are
exactly those some list of actions leads to. -/
theorem Logger.reachable_iff_run {W : Nat} {s : Logger} :
    s.Reachable W ↔ ∃ as, (Logger.new W).run as = some s :=
  ⟨Logger.exists_run, fun ⟨_, h⟩ => Logger.run_sound h⟩

/-- The state a list of actions leads to, or `s` when one of them cannot be taken. -/
def Logger.runD (s : Logger) (as : List Action) : Logger := (s.run as).getD s

/-- A list of actions that can all be taken is a run to `runD`. -/
theorem Logger.runD_sound {s : Logger} {as : List Action} (h : (s.run as).isSome) :
    Relation.ReflTransGen Logger.Step s (s.runD as) := by
  obtain ⟨t, ht⟩ := Option.isSome_iff_exists.1 h
  rw [Logger.runD, ht]
  exact Logger.run_sound ht

/-- A list of actions that runs to a state where `p` holds exhibits a reachable one. -/
theorem Logger.reach_of_run {W : Nat} {l : List Action} {p : Logger → Bool}
    (h : ((Logger.new W).run l).map p = some true) : ∃ s, s.Reachable W ∧ p s = true := by
  cases hr : (Logger.new W).run l with
  | none => simp [hr] at h
  | some s =>
    simp only [hr, Option.map_some', Option.some.injEq] at h
    exact ⟨s, Logger.run_sound hr, h⟩

/-! ## §5. Chains for the runs. -/

/-- A leaf certificate and an intermediate. -/
def raceLeaf : Certificate := ⟨[0x01]⟩

def raceIntermediate : Certificate := ⟨[0x02]⟩

/-- Two chains for `raceLeaf`. -/
def leafChain : Chain := ⟨[raceLeaf], List.cons_ne_nil _ _⟩

def leafIntermediateChain : Chain := ⟨[raceLeaf, raceIntermediate], List.cons_ne_nil _ _⟩

@[simp] theorem leafChain_leaf : leafChain.leaf = raceLeaf := rfl

@[simp] theorem leafIntermediateChain_leaf : leafIntermediateChain.leaf = raceLeaf := rfl

/-- `QueueChain(leafChain)` with one post server, run to completion: the call hands the
chain off, the server posts it, `AddChain` succeeds, the server caches the leaf and
calls `wg.Done()`. -/
def postOnceTrace : List Action :=
  [.queueChain leafChain, .call 0, .call 0, .call 0, .call 0, .handOff 0 0,
   .serve 0, .serve 0, .serve 0, .addChainReturns 0 none, .serve 0, .serve 0, .serve 0]

/-- Where `postOnceTrace` ends: `Wait()` returns, one chain posted. -/
def postedOnce : Logger := (Logger.new 1).runD postOnceTrace

theorem postedOnce_reachable : postedOnce.Reachable 1 := Logger.runD_sound (by decide)

theorem postedOnce_quiescent : postedOnce.Quiescent := ⟨by decide, by decide⟩

theorem postedOnce_events : postedOnce.events =
    [.handOff leafChain, .addChain leafChain, .addChainDone leafChain true] := by decide

end CertTransparency.Fixchain
