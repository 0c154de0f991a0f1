/-
  CertTransparency.Integration.Hammer — the state `hammerState` keeps between operations,
  and the operations of `hammer.go` that read or write it: `getSTH`'s shift of the last
  `sthCount` STHs, `chooseSTHs` and `getEntries` with the operations they queue through
  `needOps`, `chooseOp` that pops them, and the pending certs that `addChain` appends and a
  verified `getProofByHash` drops; and the requests of `getSTHConsistency`.

  `performOp` and `chooseOp` hold `hammerState.mu`, and the parallel adds of `addMultiple`
  each hold `pendingCerts.mu`, so the state changes one step at a time.  Server responses
  and random draws are inputs of a step.  A run is any sequence of steps: the order the
  hammer follows (`chooseOp`, then the operation it chose) is one of them, so what holds
  of every run holds of the hammer's.

  Main results:
    * `run_sth` — after any run, `sth` holds the get-sth responses of the run, most recent
      first, over what it held before, cut to `sthCount`; a failed get-sth leaves `nil`.
    * `run_inv` — over every run from the initial state, `nextOp` holds only `GetSTHName`
      and `AddChainName`, and the pending certs stay packed;
    * `chooseSTHs_recent` — an earlier STH that `chooseSTHs` returns is one of the last
      `sthCount` get-sth responses, of non-zero size other than the current one;
    * `getSTHConsistency_request` — get-sth-consistency asks from the size of one of the
      last `sthCount` get-sth responses, or, unless `StrictSTHConsistencySize`, from an
      invented size in `[1, second]` whose proof it does not check;
    * `getEntries_range` — once `newHammerState` has set the defaults, `getEntries` never
      panics, and asks for `[first, last]` with `0 ≤ first < lastTreeSize`, `first ≤ last`,
      fewer than `MaxGetEntries` entries past `first`, and, unless `OversizedGetEntries`,
      `last < lastTreeSize`;
    * `entriesResult_request` — get-entries accepts a response exactly when its `i`-th entry
      is the entry `first + i` of a timestamped X509 or precert leaf, however many entries
      come back; otherwise it reports the first entry that fails;
    * `hammerCTLog_runs_operations_minus_one` — without errors, `HammerCTLog` runs
      `Operations - 1` operations, and the line it logs then says `Operations`.
-/
import CertTransparency.Integration.Config
import CertTransparency.Integration.Pending

namespace CertTransparency.Integration

open CertTransparency.Scanner (Int64)

/-! ## §1. The state and its operations -/

/-- `sthCount`: how many STHs `hammerState` keeps. -/
def sthCount : Nat := 10

/-- `ct.SignedTreeHead`, with the two fields the hammer reads; the root hash and the
signature are left out. -/
structure STH where
  treeSize : UInt64
  timestamp : UInt64
  deriving DecidableEq, Repr

/-- The fields of `hammerState` that its operations change under `mu`: the STHs from the
most recent back (`nil` where there is none), the pending certs, and `nextOp`. -/
structure HammerState where
  sth : List (Option STH)
  length_eq : sth.length = sthCount
  pending : PendingCerts
  nextOp : List EntrypointName

/-- `rand.Intn(n)`: a panic unless `0 < n`; the draw `r` picks the value in `[0, n)`. -/
def randIntn (n : Int64) (r : Nat) : Option Int64 :=
  if 0 < n.toInt then some (Int64.ofNat (r % n.toInt.toNat)) else none

/-- How `chooseSTHs` ends: get-sth failed; `errSkip{}`, with the current STH; or an earlier
STH with the current one. -/
inductive Chosen where
  | failed
  | skip (now : STH)
  | ok (old now : STH)
  deriving DecidableEq, Repr

/-- What `getEntries` does before it reads a response: skip, or call `GetEntries(first, last)`. -/
inductive EntriesCall where
  | skip
  | request (first last : Int64)
  deriving DecidableEq

/-- What `getSTHConsistency` does before it checks a proof: get-sth failed, `errSkip{}`, or
call `GetSTHConsistency(first, second)`, whose proof is checked when `check` holds. -/
inductive ConsistencyCall where
  | failed
  | skip
  | request (first second : UInt64) (check : Bool)
  deriving DecidableEq, Repr

namespace HammerState

/-- The state `newHammerState` returns: no STH, no pending cert, `nextOp` empty. -/
def new : HammerState := ⟨List.replicate sthCount none, List.length_replicate _ _, PendingCerts.zero, []⟩

/-- `lastTreeSize()`: the size of `sth[0]`, 0 if it is `nil`. -/
def lastTreeSize (s : HammerState) : UInt64 :=
  match s.sth.getD 0 none with
  | none => 0
  | some sth => sth.treeSize

/-- `needOps(ops...)`: the operations are queued after those already in `nextOp`. -/
def needOps (s : HammerState) (ops : List EntrypointName) : HammerState :=
  { s with nextOp := s.nextOp ++ ops }

/-- One turn of getSTH's loop `for i := sthCount - 1; i > 0; i--`, at `i = j + 1`:
`s.sth[i] = s.sth[i-1]`. -/
def shiftSTH (a : List (Option STH)) (j : Nat) : List (Option STH) := a.set (j + 1) (a.getD j none)

theorem length_foldl_shiftSTH (a : List (Option STH)) (l : List Nat) :
    (l.foldl shiftSTH a).length = a.length := by
  induction l generalizing a with
  | nil => rfl
  | cons j l ih => rw [List.foldl_cons, ih, shiftSTH, List.length_set]

/-- `getSTH`, `rsp` being the response of `GetSTH` (`none` for an error): the loop shifts the
STHs along, then `s.sth[0]` takes the response, which is `nil` after an error. -/
def getSTH (s : HammerState) (rsp : Option STH) : HammerState :=
  { s with
    sth := ((List.range (sthCount - 1)).reverse.foldl shiftSTH s.sth).set 0 rsp
    length_eq := by rw [List.length_set, length_foldl_shiftSTH, s.length_eq] }

section Deps

variable (getSTHName addChainName : EntrypointName)

/-- `chooseSTHs`, `now` being the response of `GetSTH` and `which` the draw of
`rand.Intn(sthCount)`. -/
def chooseSTHs (s : HammerState) (now : Option STH) (which : Fin sthCount) : HammerState × Chosen :=
  match now with
  | none => (s, .failed)
  | some now =>
    match s.sth.getD which none with
    | none => (s.needOps [getSTHName], .skip now)
    | some old =>
      if old.treeSize = 0 then (s.needOps [addChainName, getSTHName], .skip now)
      else if old.treeSize = now.treeSize then (s.needOps [addChainName, getSTHName], .skip now)
      else (s, .ok old now)

/-- `getEntries` up to its call of `GetEntries`, `r₁` and `r₂` being the draws of
`rand.Intn(int(lastSize))` and `rand.Intn(int(span))`; `none` is a panic of `rand.Intn`. -/
def getEntries (cfg : HammerConfig) (s : HammerState) (r₁ r₂ : Nat) :
    Option (EntriesCall × HammerState) :=
  match s.sth.getD 0 none with
  | none => some (.skip, s.needOps [getSTHName])
  | some _ =>
    let lastSize := s.lastTreeSize
    if lastSize = 0 then
      if s.pending.empty then some (.skip, s.needOps [addChainName, getSTHName])
      else some (.skip, s.needOps [getSTHName])
    else do
      let first ← randIntn (Int64.ofUInt64 lastSize) r₁
      let span := cfg.maxGetEntries - cfg.minGetEntries
      let count := cfg.minGetEntries + (← randIntn span r₂)
      let last := first + count
      let last := if !cfg.oversizedGetEntries && Int64.ofUInt64 lastSize ≤ last then
        Int64.ofUInt64 lastSize - 1 else last
      pure (.request first last, s)

/-- `getSTHConsistency` up to its call of `GetSTHConsistency`, under
`cfg.StrictSTHConsistencySize`: what `chooseSTHs` returns, and, when it skips and the flag is
off, an earlier STH it invents, of size `1 + rand.Int63n(int64(sthNow.TreeSize))` and
timestamp 0.  `r` is the draw of `rand.Int63n`, which, as `rand.Intn`, panics (`none`) unless
its bound is positive.  The proof is checked unless the earlier STH's timestamp is 0, so
never for an invented one. -/
def getSTHConsistency (strict : Bool) (s : HammerState) (now : Option STH) (which : Fin sthCount)
    (r : Nat) : Option (HammerState × ConsistencyCall) :=
  match s.chooseSTHs getSTHName addChainName now which with
  | (t, .failed) => some (t, .failed)
  | (t, .skip now) =>
    if strict then some (t, .skip)
    else if now.treeSize < 2 then some (t, .skip)
    else (randIntn (Int64.ofUInt64 now.treeSize) r).map fun v =>
      (t, .request (1 + v).toUInt64 now.treeSize false)
  | (t, .ok old now) => some (t, .request old.treeSize now.treeSize (old.timestamp != 0))

end Deps

end HammerState

/-- The fields of a `ct.LogEntry` that `getEntries` checks: `Index`, and of `Leaf` its
`Version`, `LeafType` and `TimestampedEntry.EntryType`. -/
structure LogEntry where
  index : Int64
  version : UInt8
  leafType : UInt8
  entryType : UInt16
  deriving DecidableEq

/-- The error `getEntries` returns for the `i`-th entry of the response, with the value it
read (and, for the index, the value it wanted). -/
inductive EntryError where
  | leafIndex (i : Nat) (got want : Int64)
  | version (i : Nat) (got : UInt8)
  | leafType (i : Nat) (got : UInt8)
  | entryType (i : Nat) (got : UInt16)
  deriving DecidableEq

/-- The entry an error is about. -/
def EntryError.index : EntryError → Nat
  | .leafIndex i .. | .version i .. | .leafType i .. | .entryType i .. => i

/-- The field path the message prints after `leaf[i].`; the leaf-type check prints
`Version`, as the version check does. -/
def EntryError.path : EntryError → String
  | .leafIndex .. => "LeafIndex"
  | .version .. => "Version"
  | .leafType .. => "Version"
  | .entryType .. => "ts.EntryType"

/-- The checks of `getEntries` on the `i`-th entry, in order: `Index` is `int64(first + i)`,
`Version` is `V1` (0), `LeafType` is `TimestampedEntryLeafType` (0), `EntryType` is
`X509LogEntryType` (0) or `PrecertLogEntryType` (1). -/
def checkEntry (first : Int64) (i : Nat) (e : LogEntry) : Option EntryError :=
  if e.index ≠ first + Int64.ofNat i then some (.leafIndex i e.index (first + Int64.ofNat i))
  else if e.version ≠ 0 then some (.version i e.version)
  else if e.leafType ≠ 0 then some (.leafType i e.leafType)
  else if e.entryType ≠ 0 ∧ e.entryType ≠ 1 then some (.entryType i e.entryType)
  else none

/-- What the checks of `getEntries` accept as the `i`-th entry of a response to a request
starting at `first`. -/
def LogEntry.Valid (first : Int64) (i : Nat) (e : LogEntry) : Prop :=
  e.index = first + Int64.ofNat i ∧ e.version = 0 ∧ e.leafType = 0 ∧ (e.entryType = 0 ∨ e.entryType = 1)

/-- The loop `for i, entry := range entries` of `getEntries`, from the `i`-th entry on: the
first failed check returns. -/
def checkEntries (first : Int64) : Nat → List LogEntry → Option EntryError
  | _, [] => none
  | i, e :: es =>
    match checkEntry first i e with
    | some err => some err
    | none => checkEntries first (i + 1) es

/-- How `getEntries` ends: `errSkip{}`, the error of the `GetEntries` call, the error of an
entry, or `nil`. -/
inductive EntriesResult where
  | skip
  | callFailed
  | badEntry (e : EntryError)
  | ok
  deriving DecidableEq

/-- The end of `getEntries`, from what it did before its call and the response of
`GetEntries` (`none` for an error). -/
def entriesResult (call : EntriesCall) (rsp : Option (List LogEntry)) : EntriesResult :=
  match call, rsp with
  | .skip, _ => .skip
  | .request _ _, none => .callFailed
  | .request first _, some entries =>
    match checkEntries first 0 entries with
    | some e => .badEntry e
    | none => .ok

/-- One step of the hammer on its state, with the responses and draws it reads:
`chooseOp`; one add of `addMultiple` whose `AddChain` returned the SCT of `c` at time
`now`, which `tryAppendCert` may keep; a get-sth; a `chooseSTHs` (of get-sth-consistency,
valid or with inverted parameters); a `getProofByHash` at time `now` whose inclusion proof
`verified`; and a `getEntries`. -/
inductive HammerOp where
  | chooseOp (which r : Int64)
  | addCert (now : Int) (c : SubmittedCert)
  | getSTH (rsp : Option STH)
  | chooseSTHs (now : Option STH) (which : Fin sthCount)
  | getProofByHash (now : Int) (verified : Bool)
  | getEntries (r₁ r₂ : Nat)

/-- The get-sth response of a step, if it is a get-sth. -/
def HammerOp.sthResponse : HammerOp → Option (Option STH)
  | .getSTH rsp => some rsp
  | _ => none

namespace HammerState

section Run

variable (timeFromMS : UInt64 → Int) (entrypoints : List EntrypointName)
  (getSTHName addChainName : EntrypointName) (cfg : HammerConfig) (mmd : Int64)

/-- A step; `none` is a panic, of `Choose` or of `rand.Intn`. -/
def step (s : HammerState) : HammerOp → Option HammerState
  | .chooseOp which r =>
    (chooseOp entrypoints cfg.epBias s.nextOp which r).map fun c => { s with nextOp := c.2.2 }
  | .addCert now c => (s.pending.tryAppendCert timeFromMS now mmd c).map fun pc => { s with pending := pc }
  | .getSTH rsp => some (s.getSTH rsp)
  | .chooseSTHs now which => some (s.chooseSTHs getSTHName addChainName now which).1
  | .getProofByHash now verified =>
    some (if (s.pending.oldestIfMMDPassed now).isSome && verified then
      { s with pending := s.pending.dropOldest } else s)
  | .getEntries r₁ r₂ => (s.getEntries getSTHName addChainName cfg r₁ r₂).map Prod.snd

/-- The steps of `ops` in turn, stopping at a panic. -/
def run (s : HammerState) : List HammerOp → Option HammerState
  | [] => some s
  | op :: ops => (s.step timeFromMS entrypoints getSTHName addChainName cfg mmd op).bind fun t =>
    t.run ops

end Run

end HammerState

/-! ## §2. The STHs of a run -/

namespace HammerState

/-- getSTH's loop, run down from `i = k` to `i = 1`, copies `a[0], …, a[k-1]` one place up. -/
theorem foldl_shiftSTH_get : ∀ (k : Nat) (a : List (Option STH)), k < a.length → ∀ i,
    ((List.range k).reverse.foldl shiftSTH a)[i]? = if i = 0 ∨ k < i then a[i]? else a[i - 1]?
  | 0, a, _, i => by rw [if_pos (by omega)]; rfl
  | k + 1, a, hk, i => by
    rw [List.range_succ, List.reverse_append, List.reverse_singleton, List.singleton_append,
      List.foldl_cons, foldl_shiftSTH_get k _ (by rw [shiftSTH, List.length_set]; omega)]
    simp only [shiftSTH, List.getElem?_set, List.getD_eq_getElem?_getD,
      List.getElem?_eq_getElem (show k < a.length by omega), Option.getD_some]
    split_ifs <;> first | rfl | omega | (subst_vars; exact (List.getElem?_eq_getElem _).symm)

/-- After `getSTH` the response is `sth[0]`, and `sth[1..]` is what `sth[..9]` was. -/
theorem getSTH_sth (s : HammerState) (rsp : Option STH) :
    (s.getSTH rsp).sth = rsp :: s.sth.take (sthCount - 1) := by
  apply List.ext_getElem?
  intro i
  have hl := s.length_eq
  simp only [getSTH]
  rw [List.getElem?_set, length_foldl_shiftSTH, foldl_shiftSTH_get _ _ (by rw [hl]; decide),
    List.getElem?_cons, List.getElem?_take, hl]
  unfold sthCount at *
  -- index 0 is the response; below 10 the shifted slot; from 10 on, nothing
  split_ifs <;> first | rfl | omega | exact List.getElem?_eq_none (by omega)

/-- `chooseSTHs` leaves the state as it was, or queues get-sth, after add-chain if the
earlier STH was there. -/
theorem chooseSTHs_state (getSTHName addChainName : EntrypointName) (s : HammerState)
    (now : Option STH) (which : Fin sthCount) :
    (s.chooseSTHs getSTHName addChainName now which).1 = s ∨
    (s.chooseSTHs getSTHName addChainName now which).1 = s.needOps [getSTHName] ∨
    (s.chooseSTHs getSTHName addChainName now which).1 = s.needOps [addChainName, getSTHName] := by
  unfold chooseSTHs
  split
  · exact .inl rfl
  · split
    · exact .inr (.inl rfl)
    · split_ifs
      exacts [.inr (.inr rfl), .inr (.inr rfl), .inl rfl]

/-- `getEntries` leaves the state as it was, or queues get-sth, after add-chain if no cert
is pending. -/
theorem getEntries_state {getSTHName addChainName : EntrypointName} {cfg : HammerConfig}
    {s t : HammerState} {r₁ r₂ : Nat} {c : EntriesCall}
    (h : s.getEntries getSTHName addChainName cfg r₁ r₂ = some (c, t)) :
    t = s ∨ t = s.needOps [getSTHName] ∨ t = s.needOps [addChainName, getSTHName] := by
  unfold getEntries at h
  split at h
  · cases h; exact .inr (.inl rfl)
  · by_cases h0 : s.lastTreeSize = 0
    · rw [if_pos h0] at h
      split_ifs at h <;> cases h
      exacts [.inr (.inr rfl), .inr (.inl rfl)]
    · rw [if_neg h0] at h
      obtain ⟨first, -, h⟩ := Option.bind_eq_some.1 h
      obtain ⟨n, -, h⟩ := Option.bind_eq_some.1 h
      cases h; exact .inl rfl

theorem take_append_take {α : Type} (l m : List α) (n : Nat) : (l ++ m.take n).take n = (l ++ m).take n := by
  rw [List.take_append_eq_append_take, List.take_append_eq_append_take, List.take_take]
  congr 2
  omega

section Run

variable {timeFromMS : UInt64 → Int} {entrypoints : List EntrypointName}
  {getSTHName addChainName : EntrypointName} {cfg : HammerConfig} {mmd : Int64}

/-- Only a get-sth step changes `sth`, pushing its response on. -/
theorem step_sth {s t : HammerState} {op : HammerOp}
    (h : s.step timeFromMS entrypoints getSTHName addChainName cfg mmd op = some t) :
    t.sth = (op.sthResponse.toList ++ s.sth).take sthCount := by
  have hs : s.sth.take sthCount = s.sth := List.take_of_length_le s.length_eq.le
  cases op with
  | chooseOp which r =>
    obtain ⟨c, -, rfl⟩ := Option.map_eq_some'.1 h
    exact hs.symm
  | addCert now c =>
    obtain ⟨pc, -, rfl⟩ := Option.map_eq_some'.1 h
    exact hs.symm
  | getSTH rsp =>
    obtain rfl := Option.some.inj h
    rw [getSTH_sth]
    rfl
  | chooseSTHs now which =>
    cases h
    rcases chooseSTHs_state getSTHName addChainName s now which with h | h | h <;>
      rw [h] <;> exact hs.symm
  | getProofByHash now verified =>
    cases h
    split_ifs <;> exact hs.symm
  | getEntries r₁ r₂ =>
    obtain ⟨⟨c, t'⟩, h', rfl⟩ := Option.map_eq_some'.1 h
    rcases getEntries_state h' with rfl | rfl | rfl <;> exact hs.symm

theorem run_sth_eq {s t : HammerState} {ops : List HammerOp}
    (h : s.run timeFromMS entrypoints getSTHName addChainName cfg mmd ops = some t) :
    t.sth = ((ops.filterMap HammerOp.sthResponse).reverse ++ s.sth).take sthCount := by
  induction ops generalizing s with
  | nil => cases h; exact (List.take_of_length_le (le_of_eq (HammerState.length_eq _))).symm
  | cons op ops ih =>
    obtain ⟨s', hs', h⟩ := Option.bind_eq_some.1 h
    rw [ih h, step_sth hs', take_append_take, ← List.append_assoc]
    congr 2
    cases hr : op.sthResponse <;> simp [List.filterMap_cons, hr]

end Run

end HammerState

/-! ## §3. What every run keeps -/

namespace HammerState

/-- What every reachable state keeps: `nextOp` holds only get-sth and add-chain, and the
pending certs are packed. -/
structure Inv (getSTHName addChainName : EntrypointName) (s : HammerState) : Prop where
  nextOp_mem : ∀ ep ∈ s.nextOp, ep = getSTHName ∨ ep = addChainName
  packed : s.pending.Packed

section Inv

variable {getSTHName addChainName : EntrypointName}

theorem Inv.needOps {s : HammerState} (hi : s.Inv getSTHName addChainName) {ops : List EntrypointName}
    (hops : ∀ ep ∈ ops, ep = getSTHName ∨ ep = addChainName) :
    (s.needOps ops).Inv getSTHName addChainName :=
  ⟨fun ep hep => (List.mem_append.1 hep).elim (hi.nextOp_mem ep) (hops ep), hi.packed⟩

/-- The operations `chooseSTHs` and `getEntries` queue keep the invariant. -/
theorem Inv.needOps_deps {s t : HammerState} (hi : s.Inv getSTHName addChainName)
    (ht : t = s ∨ t = s.needOps [getSTHName] ∨ t = s.needOps [addChainName, getSTHName]) :
    t.Inv getSTHName addChainName := by
  rcases ht with rfl | rfl | rfl
  · exact hi
  · exact hi.needOps (by simp)
  · exact hi.needOps (by simp)

end Inv

/-- `chooseOp` pops the head of `nextOp`, if there is one. -/
theorem chooseOp_rest {entrypoints : List EntrypointName} {hb : HammerBias}
    {nextOp : List EntrypointName} {which r : Int64} {c : EntrypointName × Bool × List EntrypointName}
    (h : chooseOp entrypoints hb nextOp which r = some c) : c.2.2 = nextOp.tail := by
  cases nextOp with
  | nil => obtain ⟨e, -, rfl⟩ := Option.map_eq_some'.1 h; rfl
  | cons x rest =>
    simp only [chooseOp] at h
    split_ifs at h
    · cases h; rfl
    · obtain ⟨e, -, rfl⟩ := Option.map_eq_some'.1 h; rfl

section Run

variable {timeFromMS : UInt64 → Int} {entrypoints : List EntrypointName}
  {getSTHName addChainName : EntrypointName} {cfg : HammerConfig} {mmd : Int64}

theorem step_inv {s t : HammerState} {op : HammerOp} (hi : s.Inv getSTHName addChainName)
    (h : s.step timeFromMS entrypoints getSTHName addChainName cfg mmd op = some t) :
    t.Inv getSTHName addChainName := by
  cases op with
  | chooseOp which r =>
    obtain ⟨c, hc, rfl⟩ := Option.map_eq_some'.1 h
    refine ⟨fun ep hep => hi.nextOp_mem ep ?_, hi.packed⟩
    rw [chooseOp_rest hc] at hep
    exact List.mem_of_mem_tail hep
  | addCert now c =>
    obtain ⟨pc, hpc, rfl⟩ := Option.map_eq_some'.1 h
    obtain ⟨pc', hpc', hp', -⟩ := @PendingCerts.Packed.tryAppendCert_eq timeFromMS _
      ⟨s.pending.queue, hi.packed.length_le⟩ hi.packed rfl now mmd c
    exact ⟨hi.nextOp_mem, by rw [hpc] at hpc'; cases hpc'; exact hp'⟩
  | getSTH rsp =>
    obtain rfl := Option.some.inj h
    unfold getSTH
    exact ⟨hi.nextOp_mem, hi.packed⟩
  | chooseSTHs now which => cases h; exact hi.needOps_deps (chooseSTHs_state _ _ s now which)
  | getProofByHash now verified =>
    cases h
    split_ifs
    · exact ⟨hi.nextOp_mem, hi.packed.dropOldest.1⟩
    · exact hi
  | getEntries r₁ r₂ =>
    obtain ⟨⟨c, t'⟩, h', rfl⟩ := Option.map_eq_some'.1 h
    exact hi.needOps_deps (getEntries_state h')

theorem run_inv_of {s t : HammerState} {ops : List HammerOp} (hi : s.Inv getSTHName addChainName)
    (h : s.run timeFromMS entrypoints getSTHName addChainName cfg mmd ops = some t) :
    t.Inv getSTHName addChainName := by
  induction ops generalizing s with
  | nil => cases h; exact hi
  | cons op ops ih =>
    obtain ⟨s', hs', h⟩ := Option.bind_eq_some.1 h
    exact ih (step_inv hi hs') h

end Run

end HammerState

/-! ## §4. Runs of the hammer -/

namespace HammerState

/-- `rand.Intn(n)` with `0 < n` does not panic, and draws in `[0, n)`. -/
theorem randIntn_eq {n : Int64} (hn : 0 < n.toInt) (r : Nat) :
    ∃ v, randIntn n r = some v ∧ 0 ≤ v.toInt ∧ v.toInt < n.toInt := by
  have hlt : r % n.toInt.toNat < n.toInt.toNat := Nat.mod_lt _ (by omega)
  have hmax := n.lt_max
  refine ⟨_, if_pos hn, ?_⟩
  rw [Int64.toInt_ofNat_of_lt (by omega)]
  omega

theorem lastTreeSize_eq (s : HammerState) :
    s.lastTreeSize = ((s.sth.getD 0 none).map STH.treeSize).getD 0 := by
  unfold lastTreeSize
  split <;> simp_all

/-- **The last STHs.**  After any run, `sth` holds the run's get-sth responses, the most
recent first, over what it held before, cut to `sthCount`; a failed get-sth leaves `nil`.
So `lastTreeSize` is the size in the run's last get-sth response, and 0 if that one
failed. -/
theorem run_sth (timeFromMS : UInt64 → Int) (entrypoints : List EntrypointName)
    (getSTHName addChainName : EntrypointName) (cfg : HammerConfig) (mmd : Int64)
    (s t : HammerState) (ops : List HammerOp)
    (h : s.run timeFromMS entrypoints getSTHName addChainName cfg mmd ops = some t) :
    t.sth = ((ops.filterMap HammerOp.sthResponse).reverse ++ s.sth).take sthCount ∧
    ∀ rsp, (ops.filterMap HammerOp.sthResponse).getLast? = some rsp →
      t.lastTreeSize = (rsp.map STH.treeSize).getD 0 := by
  have ht := run_sth_eq h
  refine ⟨ht, fun rsp hr => ?_⟩
  obtain ⟨pre, hpre⟩ := List.getLast?_eq_some_iff.1 hr
  rw [lastTreeSize_eq, ht, hpre, List.reverse_append, List.reverse_singleton, List.singleton_append,
    List.cons_append]
  rfl

theorem run_sth_two :
    ∃ t, new.run (fun _ => 0) [] "GetSTH" "AddChain" zeroMirrorConfig 0
        [.getSTH (some ⟨5, 1⟩), .getSTH none] = some t ∧
      (t.sth = (([HammerOp.getSTH (some ⟨5, 1⟩), .getSTH none].filterMap HammerOp.sthResponse).reverse ++
          new.sth).take sthCount ∧
        ∀ rsp, ([HammerOp.getSTH (some ⟨5, 1⟩), .getSTH none].filterMap HammerOp.sthResponse).getLast? =
          some rsp → t.lastTreeSize = (rsp.map STH.treeSize).getD 0) :=
  ⟨_, rfl, run_sth (fun _ => 0) [] "GetSTH" "AddChain" zeroMirrorConfig 0 new _
    [.getSTH (some ⟨5, 1⟩), .getSTH none] rfl⟩

/-- **What a run keeps.**  Over every run from the state `newHammerState` returns, the
operations queued in `nextOp` are get-sth and add-chain only, and the pending certs are
packed: the slots in use come first. -/
theorem run_inv (timeFromMS : UInt64 → Int) (entrypoints : List EntrypointName)
    (getSTHName addChainName : EntrypointName) (cfg : HammerConfig) (mmd : Int64)
    (ops : List HammerOp) (t : HammerState)
    (h : new.run timeFromMS entrypoints getSTHName addChainName cfg mmd ops = some t) :
    (∀ ep ∈ t.nextOp, ep = getSTHName ∨ ep = addChainName) ∧ t.pending.Packed := by
  have hi := run_inv_of (⟨nofun, PendingCerts.zero_packed.1⟩ : new.Inv getSTHName addChainName) h
  exact ⟨hi.nextOp_mem, hi.packed⟩

theorem run_inv_deps :
    ∃ t, new.run (fun _ => 0) [] "GetSTH" "AddChain" zeroMirrorConfig 0
        [.chooseSTHs (some ⟨7, 2⟩) ⟨0, by decide⟩, .getSTH (some ⟨5, 1⟩)] = some t ∧
      ((∀ ep ∈ t.nextOp, ep = "GetSTH" ∨ ep = "AddChain") ∧ t.pending.Packed) :=
  ⟨_, rfl, run_inv (fun _ => 0) [] "GetSTH" "AddChain" zeroMirrorConfig 0
    [.chooseSTHs (some ⟨7, 2⟩) ⟨0, by decide⟩, .getSTH (some ⟨5, 1⟩)] _ rfl⟩

/-- `chooseSTHs` ends with get-sth's error when there is no current STH; with `errSkip{}` and
the current STH; or with an earlier STH from `sth`, of non-zero size other than the current
one. -/
theorem chooseSTHs_cases (getSTHName addChainName : EntrypointName) (s : HammerState)
    (now : Option STH) (which : Fin sthCount) :
    (now = none ∧ (s.chooseSTHs getSTHName addChainName now which).2 = .failed) ∨
    (∃ now', now = some now' ∧ (s.chooseSTHs getSTHName addChainName now which).2 = .skip now') ∨
    (∃ old now', now = some now' ∧ (s.chooseSTHs getSTHName addChainName now which).2 = .ok old now' ∧
      some old ∈ s.sth ∧ old.treeSize ≠ 0 ∧ old.treeSize ≠ now'.treeSize) := by
  unfold chooseSTHs
  split
  · exact .inl ⟨rfl, rfl⟩
  rename_i now'
  split
  · exact .inr (.inl ⟨now', rfl, rfl⟩)
  rename_i old hget
  split_ifs with h₀ h₁
  · exact .inr (.inl ⟨now', rfl, rfl⟩)
  · exact .inr (.inl ⟨now', rfl, rfl⟩)
  refine .inr (.inr ⟨old, now', rfl, rfl, ?_, h₀, h₁⟩)
  rw [← hget, List.getD_eq_getElem?_getD, List.getElem?_eq_getElem (by rw [s.length_eq]; exact which.2),
    Option.getD_some]
  exact List.getElem_mem _

/-- An STH in `sth` after a run from the initial state is one of the run's last `sthCount`
get-sth responses. -/
theorem mem_sth_of_run {timeFromMS : UInt64 → Int} {entrypoints : List EntrypointName}
    {getSTHName addChainName : EntrypointName} {cfg : HammerConfig} {mmd : Int64}
    {ops : List HammerOp} {t : HammerState}
    (h : new.run timeFromMS entrypoints getSTHName addChainName cfg mmd ops = some t) {x : STH}
    (hx : some x ∈ t.sth) : some x ∈ (ops.filterMap HammerOp.sthResponse).reverse.take sthCount := by
  rw [run_sth_eq h, List.take_append_eq_append_take] at hx
  rcases List.mem_append.1 hx with hm | hm
  · exact hm
  · exact absurd (List.eq_of_mem_replicate (List.mem_of_mem_take hm)) nofun

/-- **`chooseSTHs` picks a recent STH.**  Over every run from the state `newHammerState`
returns, an earlier STH that `chooseSTHs` returns is one of the run's last `sthCount`
get-sth responses, its size is not 0, and differs from the size of the current STH, which
get-sth returned. -/
theorem chooseSTHs_recent (timeFromMS : UInt64 → Int) (entrypoints : List EntrypointName)
    (getSTHName addChainName : EntrypointName) (cfg : HammerConfig) (mmd : Int64)
    (ops : List HammerOp) (t : HammerState)
    (h : new.run timeFromMS entrypoints getSTHName addChainName cfg mmd ops = some t)
    (now : Option STH) (which : Fin sthCount) (old now' : STH)
    (hc : (t.chooseSTHs getSTHName addChainName now which).2 = .ok old now') :
    some old ∈ (ops.filterMap HammerOp.sthResponse).reverse.take sthCount ∧
      old.treeSize ≠ 0 ∧ old.treeSize ≠ now'.treeSize ∧ now = some now' := by
  rcases chooseSTHs_cases getSTHName addChainName t now which with
    ⟨-, hc'⟩ | ⟨_, -, hc'⟩ | ⟨_, _, hn, hc', hmem, h0, hne⟩ <;> rw [hc'] at hc <;> cases hc
  exact ⟨mem_sth_of_run h hmem, h0, hne, hn⟩

theorem chooseSTHs_recent_one :
    ∃ t, new.run (fun _ => 0) [] "GetSTH" "AddChain" zeroMirrorConfig 0 [.getSTH (some ⟨5, 1⟩)] = some t ∧
      (t.chooseSTHs "GetSTH" "AddChain" (some ⟨7, 2⟩) ⟨0, by decide⟩).2 = .ok ⟨5, 1⟩ ⟨7, 2⟩ ∧
      (some ⟨5, 1⟩ ∈ ([HammerOp.getSTH (some ⟨5, 1⟩)].filterMap HammerOp.sthResponse).reverse.take sthCount ∧
        (⟨5, 1⟩ : STH).treeSize ≠ 0 ∧ (⟨5, 1⟩ : STH).treeSize ≠ (⟨7, 2⟩ : STH).treeSize ∧
        some (⟨7, 2⟩ : STH) = some ⟨7, 2⟩) :=
  ⟨_, rfl, rfl, chooseSTHs_recent (fun _ => 0) [] "GetSTH" "AddChain" zeroMirrorConfig 0
    [.getSTH (some ⟨5, 1⟩)] _ rfl _ ⟨0, by decide⟩ _ _ rfl⟩

/-- The size `getSTHConsistency` invents, `1 + rand.Int63n(int64(size))`: drawn only when
`int64(size)` is positive, and then in `[1, size]`. -/
theorem invented_size {size : UInt64} {r : Nat} {v : Int64}
    (hv : randIntn (Int64.ofUInt64 size) r = some v) :
    1 ≤ (1 + v).toUInt64.toNat ∧ (1 + v).toUInt64.toNat ≤ size.toNat := by
  have hpos : 0 < (Int64.ofUInt64 size).toInt := by
    by_contra hn
    rw [randIntn, if_neg hn] at hv
    cases hv
  obtain ⟨v', hv', h0, hlt⟩ := randIntn_eq hpos r
  rw [hv] at hv'
  cases hv'
  have hsize := size.toNat_lt_size
  unfold UInt64.size at hsize
  have hsz : (Int64.ofUInt64 size).toInt = size.toNat := by
    apply Int64.toInt_ofUInt64_of_lt
    rw [Int64.ofUInt64, Int64.toInt_wrap] at hpos
    omega
  have hmax := (Int64.ofUInt64 size).lt_max
  have h1 : (1 + v).toInt = 1 + v.toInt :=
    Int64.toInt_add_of_mem (by rw [Int64.toInt_one]; omega) (by rw [Int64.toInt_one]; omega)
  rw [Int64.toNat_toUInt64_of_nonneg (by omega)]
  omega

/-- **get-sth-consistency asks from a known size, or from an invented one.**  Over every run
from the state `newHammerState` returns, `getSTHConsistency` panics only on a current tree
size of `2^63` or more, and leaves the state as `chooseSTHs` does.  A request
`GetSTHConsistency(first, second)` it makes has `second` the current size, and `first` either
the size of one of the last `sthCount` get-sth responses, non-zero and other than `second`,
with the proof checked unless that STH's timestamp is 0; or, only with
`StrictSTHConsistencySize` off, an invented size in `[1, second]`, which can be `second`
itself, with the proof not checked. -/
theorem getSTHConsistency_request (timeFromMS : UInt64 → Int) (entrypoints : List EntrypointName)
    (getSTHName addChainName : EntrypointName) (cfg : HammerConfig) (mmd : Int64)
    (ops : List HammerOp) (t : HammerState)
    (h : new.run timeFromMS entrypoints getSTHName addChainName cfg mmd ops = some t)
    (strict : Bool) (now : Option STH) (which : Fin sthCount) (r : Nat) :
    ((∀ now', now = some now' → now'.treeSize.toNat < 9223372036854775808) →
      (t.getSTHConsistency getSTHName addChainName strict now which r).isSome) ∧
    ∀ u c, t.getSTHConsistency getSTHName addChainName strict now which r = some (u, c) →
      u = (t.chooseSTHs getSTHName addChainName now which).1 ∧
      ∀ first second check, c = .request first second check →
        ∃ now', now = some now' ∧ second = now'.treeSize ∧
          ((∃ old, some old ∈ (ops.filterMap HammerOp.sthResponse).reverse.take sthCount ∧
              first = old.treeSize ∧ old.treeSize ≠ 0 ∧ old.treeSize ≠ second ∧
              check = (old.timestamp != 0)) ∨
            (strict = false ∧ check = false ∧ 1 ≤ first.toNat ∧ first.toNat ≤ second.toNat)) := by
  unfold getSTHConsistency
  have hcases := chooseSTHs_cases getSTHName addChainName t now which
  generalize t.chooseSTHs getSTHName addChainName now which = p at hcases ⊢
  obtain ⟨u₀, c₀⟩ := p
  dsimp only at hcases
  rcases hcases with ⟨hn, rfl⟩ | ⟨now', hn, rfl⟩ | ⟨old, now', hn, rfl, hmem, h0, hne⟩ <;> dsimp only
  · -- get-sth failed
    refine ⟨fun _ => rfl, ?_⟩
    rintro u c ⟨⟩
    exact ⟨rfl, nofun⟩
  · -- `errSkip{}`: skip, or invent an earlier size
    refine ⟨fun hbound => ?_, fun u c hu => ?_⟩
    · split_ifs with hs h2
      · rfl
      · rfl
      have hsize : (Int64.ofUInt64 now'.treeSize).toInt = now'.treeSize.toNat :=
        Int64.toInt_ofUInt64_of_lt (hbound now' hn)
      have h2' : ¬now'.treeSize.toNat < 2 := h2
      obtain ⟨v, hv, -⟩ := randIntn_eq (by rw [hsize]; omega) r
      rw [hv]
      rfl
    · split_ifs at hu with hs h2
      · cases hu; exact ⟨rfl, nofun⟩
      · cases hu; exact ⟨rfl, nofun⟩
      · obtain ⟨v, hv, hu⟩ := Option.map_eq_some'.1 hu
        cases hu
        refine ⟨rfl, ?_⟩
        rintro first second check ⟨⟩
        exact ⟨now', hn, rfl, .inr ⟨by simpa using hs, rfl, invented_size hv⟩⟩
  · -- an earlier STH of the run
    refine ⟨fun _ => rfl, ?_⟩
    rintro u c ⟨⟩
    refine ⟨rfl, ?_⟩
    rintro first second check ⟨⟩
    exact ⟨now', hn, rfl, .inl ⟨old, mem_sth_of_run h hmem, rfl, h0, hne, rfl⟩⟩

theorem getSTHConsistency_request_invented :
    ∃ t, new.run (fun _ => 0) [] "GetSTH" "AddChain" zeroMirrorConfig 0 [.getSTH (some ⟨5, 1⟩)] = some t ∧
      ((∀ now', some (⟨7, 2⟩ : STH) = some now' → now'.treeSize.toNat < 9223372036854775808) →
        (t.getSTHConsistency "GetSTH" "AddChain" false (some ⟨7, 2⟩) ⟨1, by decide⟩ 3).isSome) ∧
      ∀ u c, t.getSTHConsistency "GetSTH" "AddChain" false (some ⟨7, 2⟩) ⟨1, by decide⟩ 3 = some (u, c) →
        u = (t.chooseSTHs "GetSTH" "AddChain" (some ⟨7, 2⟩) ⟨1, by decide⟩).1 ∧
        ∀ first second check, c = .request first second check →
          ∃ now', some (⟨7, 2⟩ : STH) = some now' ∧ second = now'.treeSize ∧
            ((∃ old, some old ∈ ([HammerOp.getSTH (some ⟨5, 1⟩)].filterMap HammerOp.sthResponse).reverse.take
                sthCount ∧ first = old.treeSize ∧ old.treeSize ≠ 0 ∧ old.treeSize ≠ second ∧
                check = (old.timestamp != 0)) ∨
              (false = false ∧ check = false ∧ 1 ≤ first.toNat ∧ first.toNat ≤ second.toNat)) :=
  ⟨_, rfl, getSTHConsistency_request (fun _ => 0) [] "GetSTH" "AddChain" zeroMirrorConfig 0
    [.getSTH (some ⟨5, 1⟩)] _ rfl false (some ⟨7, 2⟩) ⟨1, by decide⟩ 3⟩

/-- The invented size is not always smaller: on a tree of size 2 it can be 2. -/
example : (new.getSTHConsistency "GetSTH" "AddChain" false (some ⟨2, 1⟩) ⟨0, by decide⟩ 1).map Prod.snd =
    some (.request 2 2 false) := rfl

/-- The arithmetic of `getEntries`' range on the values of its `int`s: `first` drawn below the
tree size `L`, the count `mn + d` with `d` drawn below `mx - mn`, and the clamp to `L - 1`. -/
theorem entries_arith {L f mn mx d : Int} (hf₁ : f < L) (hmn : 1 ≤ mn) (hd₀ : 0 ≤ d)
    (hd₁ : d < mx - mn) :
    (L ≤ f + (mn + d) → f ≤ L - 1 ∧ L - 1 - f < mx ∧ L - 1 < L) ∧
      f ≤ f + (mn + d) ∧ f + (mn + d) - f < mx := by
  omega

/-- **get-entries asks for a range in the tree.**  Once `newHammerState` has set the defaults
(`MinGetEntries + 300` not overflowing), and unless the tree size plus `MaxGetEntries`
overflows an `int64`, `getEntries` never panics, and a request `GetEntries(first, last)` it
makes has `0 ≤ first < lastTreeSize`, `first ≤ last`, fewer than `MaxGetEntries` entries
past `first`, and `last < lastTreeSize` unless `OversizedGetEntries`. -/
theorem getEntries_range (getSTHName addChainName addPreChainName : EntrypointName)
    (cfg₀ : HammerConfig) (hmin : cfg₀.minGetEntries.toInt < 9223372036854775508)
    (s : HammerState) (r₁ r₂ : Nat)
    (hsize : (s.lastTreeSize.toNat : Int) +
      (newHammerState addChainName addPreChainName cfg₀).maxGetEntries.toInt < 9223372036854775808) :
    (s.getEntries getSTHName addChainName (newHammerState addChainName addPreChainName cfg₀) r₁ r₂).isSome ∧
    ∀ first last t, s.getEntries getSTHName addChainName (newHammerState addChainName addPreChainName cfg₀)
        r₁ r₂ = some (.request first last, t) →
      t = s ∧ 0 ≤ first.toInt ∧ first.toInt < s.lastTreeSize.toNat ∧ first.toInt ≤ last.toInt ∧
      last.toInt - first.toInt < (newHammerState addChainName addPreChainName cfg₀).maxGetEntries.toInt ∧
      ((newHammerState addChainName addPreChainName cfg₀).oversizedGetEntries = false →
        last.toInt < s.lastTreeSize.toNat) := by
  obtain ⟨hmin₁, hmin₂, hmax⟩ := @newHammerState_entries addChainName addPreChainName cfg₀ hmin
  set c := newHammerState addChainName addPreChainName cfg₀
  unfold getEntries
  split
  · exact ⟨rfl, fun _ _ _ h => by cases h⟩
  by_cases h0 : s.lastTreeSize = 0
  · rw [if_pos h0]
    split_ifs <;> exact ⟨rfl, fun _ _ _ h => by cases h⟩
  rw [if_neg h0]
  have hL : 0 < s.lastTreeSize.toNat := Nat.pos_of_ne_zero fun h => h0 (UInt64.toNat.inj h)
  have hLt : (Int64.ofUInt64 s.lastTreeSize).toInt = s.lastTreeSize.toNat :=
    Int64.toInt_ofUInt64_of_lt (by omega)
  obtain ⟨first, hf, hf₀, hf₁⟩ := randIntn_eq (show 0 < (Int64.ofUInt64 s.lastTreeSize).toInt by omega) r₁
  have hspan : (c.maxGetEntries - c.minGetEntries).toInt = c.maxGetEntries.toInt - c.minGetEntries.toInt :=
    Int64.toInt_sub_of_mem (by have := c.minGetEntries.lt_max; omega) (by have := c.maxGetEntries.lt_max; omega)
  obtain ⟨d, hd, hd₀, hd₁⟩ := randIntn_eq (show 0 < (c.maxGetEntries - c.minGetEntries).toInt by omega) r₂
  have hcount : (c.minGetEntries + d).toInt = c.minGetEntries.toInt + d.toInt :=
    Int64.toInt_add_of_mem (by omega) (by have := c.maxGetEntries.lt_max; omega)
  have hlast : (first + (c.minGetEntries + d)).toInt = first.toInt + (c.minGetEntries.toInt + d.toInt) :=
    by rw [Int64.toInt_add_of_mem (by omega) (by omega), hcount]
  have hclamp : (Int64.ofUInt64 s.lastTreeSize - 1).toInt = s.lastTreeSize.toNat - 1 :=
    by rw [Int64.toInt_sub_of_mem (by simp; omega) (by simp; omega), hLt, Int64.toInt_one]
  simp only [hf, hd, Option.bind_eq_bind, Option.some_bind]
  refine ⟨rfl, fun first' last t h => ?_⟩
  simp only [pure, Option.some.injEq, Prod.mk.injEq, EntriesCall.request.injEq] at h
  obtain ⟨⟨rfl, rfl⟩, rfl⟩ := h
  have hf₁' := lt_of_lt_of_eq hf₁ hLt
  have ha := entries_arith hf₁' hmin₁ hd₀ (lt_of_lt_of_eq hd₁ hspan)
  split_ifs with hB
  · have hle : (s.lastTreeSize.toNat : Int) ≤ first.toInt + (c.minGetEntries.toInt + d.toInt) := by
      simp only [Bool.and_eq_true, Bool.not_eq_true', decide_eq_true_eq, Int64.le_iff, hLt, hlast] at hB
      exact hB.2
    rw [hclamp]
    exact ⟨rfl, hf₀, hf₁', (ha.1 hle).1, (ha.1 hle).2.1, fun _ => (ha.1 hle).2.2⟩
  · rw [hlast]
    refine ⟨rfl, hf₀, hf₁', ha.2.1, ha.2.2, fun ho => ?_⟩
    simp only [ho, Bool.not_false, Bool.true_and, decide_eq_true_eq, Int64.le_iff, hLt, hlast,
      not_le] at hB
    exact hB
theorem getEntries_range_five :
    zeroMirrorConfig.minGetEntries.toInt < 9223372036854775508 ∧
    ((new.getSTH (some ⟨5, 1⟩)).lastTreeSize.toNat : Int) +
      (newHammerState "AddChain" "AddPreChain" zeroMirrorConfig).maxGetEntries.toInt < 9223372036854775808 ∧
    (((new.getSTH (some ⟨5, 1⟩)).getEntries "GetSTH" "AddChain"
        (newHammerState "AddChain" "AddPreChain" zeroMirrorConfig) 3 4).isSome ∧
      ∀ first last t, (new.getSTH (some ⟨5, 1⟩)).getEntries "GetSTH" "AddChain"
          (newHammerState "AddChain" "AddPreChain" zeroMirrorConfig) 3 4 = some (.request first last, t) →
        t = new.getSTH (some ⟨5, 1⟩) ∧ 0 ≤ first.toInt ∧
        first.toInt < (new.getSTH (some ⟨5, 1⟩)).lastTreeSize.toNat ∧ first.toInt ≤ last.toInt ∧
        last.toInt - first.toInt < (newHammerState "AddChain" "AddPreChain" zeroMirrorConfig).maxGetEntries.toInt ∧
        ((newHammerState "AddChain" "AddPreChain" zeroMirrorConfig).oversizedGetEntries = false →
          last.toInt < (new.getSTH (some ⟨5, 1⟩)).lastTreeSize.toNat)) :=
  have hmin : zeroMirrorConfig.minGetEntries.toInt < 9223372036854775508 := by decide
  have hsize : ((new.getSTH (some ⟨5, 1⟩)).lastTreeSize.toNat : Int) +
      (newHammerState "AddChain" "AddPreChain" zeroMirrorConfig).maxGetEntries.toInt < 9223372036854775808 := by
    decide
  ⟨hmin, hsize, getEntries_range "GetSTH" "AddChain" "AddPreChain" zeroMirrorConfig hmin _ 3 4 hsize⟩

end HammerState

/-! ## §5. The response of get-entries -/

theorem checkEntry_eq_none_iff {first : Int64} {i : Nat} {e : LogEntry} :
    checkEntry first i e = none ↔ e.Valid first i := by
  unfold checkEntry LogEntry.Valid
  split_ifs <;> simp_all [or_iff_not_imp_left]

theorem checkEntry_index {first : Int64} {i : Nat} {e : LogEntry} {err : EntryError}
    (h : checkEntry first i e = some err) : err.index = i := by
  unfold checkEntry at h
  split_ifs at h <;> cases h <;> rfl

theorem checkEntries_eq_none_iff (first : Int64) :
    ∀ (i : Nat) (es : List LogEntry),
      checkEntries first i es = none ↔ ∀ j (h : j < es.length), es[j].Valid first (i + j)
  | i, [] => by simp [checkEntries]
  | i, e :: es => by
    unfold checkEntries
    rcases he : checkEntry first i e with _ | err
    · rw [checkEntries_eq_none_iff first (i + 1) es]
      refine ⟨fun h j hj => ?_, fun h j hj => ?_⟩
      · cases j with
        | zero => exact checkEntry_eq_none_iff.1 he
        | succ j => exact Nat.add_right_comm i 1 j ▸ h j (Nat.lt_of_succ_lt_succ hj)
      · exact (Nat.add_right_comm i 1 j).symm ▸ h (j + 1) (Nat.succ_lt_succ hj)
    · refine iff_of_false nofun fun h => ?_
      have : checkEntry first i e = none := checkEntry_eq_none_iff.2 (h 0 (Nat.zero_lt_succ _))
      rw [he] at this
      cases this

theorem checkEntries_eq_some (first : Int64) :
    ∀ (i : Nat) (es : List LogEntry) (err : EntryError), checkEntries first i es = some err →
      ∃ j, ∃ h : j < es.length, (∀ k (hk : k < j), es[k].Valid first (i + k)) ∧
        checkEntry first (i + j) es[j] = some err
  | i, [], err, h => by cases h
  | i, e :: es, err, h => by
    unfold checkEntries at h
    rcases he : checkEntry first i e with _ | err'
    · rw [he] at h
      obtain ⟨j, hj, hpre, hj'⟩ := checkEntries_eq_some first (i + 1) es err h
      refine ⟨j + 1, Nat.succ_lt_succ hj, fun k hk => ?_, Nat.add_right_comm i 1 j ▸ hj'⟩
      cases k with
      | zero => exact checkEntry_eq_none_iff.1 he
      | succ k => exact Nat.add_right_comm i 1 k ▸ hpre k (Nat.lt_of_succ_lt_succ hk)
    · rw [he] at h
      cases h
      exact ⟨0, Nat.zero_lt_succ _, fun _ hk => absurd hk (Nat.not_lt_zero _), he⟩

/-- **get-entries checks what comes back, not how much.**  For a request from `first`, the
hammer accepts a response exactly when, for every `i`, its `i`-th entry has `Index` equal to
`first + i`, `Version` V1, leaf type `TimestampedEntryLeafType` and entry type X509 or
precert: the number of entries is never compared with `last`, so a short or an empty
response passes.  Otherwise the error is about the first entry that fails, and names the
first check it fails. -/
theorem entriesResult_request (first last : Int64) (entries : List LogEntry) :
    (entriesResult (.request first last) (some entries) = .ok ↔
      ∀ i (h : i < entries.length), entries[i].Valid first i) ∧
    ∀ err, entriesResult (.request first last) (some entries) = .badEntry err →
      ∃ i, ∃ h : i < entries.length, err.index = i ∧ (∀ j (hj : j < i), entries[j].Valid first j) ∧
        checkEntry first i entries[i] = some err := by
  have hnone := checkEntries_eq_none_iff first 0 entries
  simp only [Nat.zero_add] at hnone
  simp only [entriesResult]
  rcases h : checkEntries first 0 entries with _ | e
  · exact ⟨iff_of_true rfl (hnone.1 h), fun _ h' => by cases h'⟩
  · refine ⟨iff_of_false nofun fun hv => (by rw [hnone.2 hv] at h; cases h), fun err h' => ?_⟩
    cases h'
    obtain ⟨i, hi, hpre, hi'⟩ := checkEntries_eq_some first 0 entries _ h
    simp only [Nat.zero_add] at hpre hi'
    exact ⟨i, hi, checkEntry_index hi', hpre, hi'⟩

/-! ## §6. The driver loop -/

section Loop

variable {σ ε : Type} (retry : Nat → σ → Except ε σ) (ctxErr : Nat → Option ε) (operations : Nat)

/-- The loop of `HammerCTLog`, `for count := uint64(1); count < cfg.Operations; count++`, from
`count` on: `retry count` is that call of `retryOneOp`, `ctxErr count` what `ctx.Err()` returns
after it.  The first error ends the loop; otherwise it returns the state and the number of
operations it ran.  `count` stays below `Operations`, so `count++` never wraps. -/
def hammerLoop (count : Nat) (s : σ) : Except ε (σ × Nat) :=
  if count < operations then
    match retry count s with
    | .error e => .error e
    | .ok s' =>
      match ctxErr count with
      | some e => .error e
      | none => (hammerLoop (count + 1) s').map fun p => (p.1, p.2 + 1)
  else .ok (s, 0)
termination_by operations - count

/-- The line `HammerCTLog` logs once its loop is done,
`klog.Infof("%s: completed %d operations on log", cfg.LogCfg.Prefix, cfg.Operations)`. -/
def completedLine (logPrefix : String) (operations : UInt64) : String :=
  logPrefix ++ ": completed " ++ toString operations ++ " operations on log"

example : completedLine "ct" 3 = "ct: completed 3 operations on log" := by decide

/-- `HammerCTLog(ctx, cfg)` once `newHammerState` has returned the state `s`, with
`cfg.LogCfg.Prefix` as `logPrefix` and `cfg.Operations` as `operations`: its loop from
`count = 1`, then the line it logs before returning `nil`. -/
def hammerCTLog (logPrefix : String) (operations : UInt64) (s : σ) : Except ε (σ × Nat × String) :=
  (hammerLoop retry ctxErr operations.toNat 1 s).map fun p => (p.1, p.2, completedLine logPrefix operations)

variable {retry ctxErr operations}

/-- With no error, the loop from `count` runs `Operations - count` operations. -/
theorem hammerLoop_count (hr : ∀ k s, ∃ s', retry k s = .ok s') (hc : ∀ k, ctxErr k = none) :
    ∀ (count : Nat) (s : σ), ∃ s', hammerLoop retry ctxErr operations count s = .ok (s', operations - count) := by
  intro count
  obtain ⟨n, h⟩ : ∃ n, operations - count = n := ⟨_, rfl⟩
  induction n generalizing count with
  | zero =>
    intro s
    refine ⟨s, ?_⟩
    rw [hammerLoop, if_neg (by omega), h]
  | succ n ih =>
    intro s
    obtain ⟨s', hs'⟩ := hr count s
    obtain ⟨s'', hs''⟩ := ih (count + 1) (by omega) s'
    refine ⟨s'', ?_⟩
    rw [hammerLoop, if_pos (by omega)]
    simp only [hs', hc, hs'', Except.map]
    congr 2
    omega

/-- **`HammerCTLog` runs one operation fewer than configured.**  When no `retryOneOp` fails
and the context is never cancelled, the loop, which starts at `count = 1`, returns after
`Operations - 1` operations (none for an `Operations` of 0 or 1), and the line then logged
reports `Operations` operations completed. -/
theorem hammerCTLog_runs_operations_minus_one (retry : Nat → σ → Except ε σ) (ctxErr : Nat → Option ε)
    (logPrefix : String) (operations : UInt64) (s : σ) (hr : ∀ k s, ∃ s', retry k s = .ok s')
    (hc : ∀ k, ctxErr k = none) :
    ∃ s', hammerCTLog retry ctxErr logPrefix operations s =
      .ok (s', operations.toNat - 1,
        logPrefix ++ ": completed " ++ toString operations ++ " operations on log") := by
  obtain ⟨s', h⟩ := hammerLoop_count hr hc 1 s
  exact ⟨s', by rw [hammerCTLog, h]; rfl⟩

end Loop

/-- Three configured operations: two run, and the line says three. -/
theorem hammerCTLog_runs_operations_minus_one_three :
    (∀ (k : Nat) (s : Unit), ∃ s', (fun _ s => .ok s : Nat → Unit → Except String Unit) k s = .ok s') ∧
    (∀ k, (fun _ => none : Nat → Option String) k = none) ∧
    ∃ s', hammerCTLog (fun _ s => .ok s : Nat → Unit → Except String Unit) (fun _ => none) "ct"
      3 () = .ok (s', (3 : UInt64).toNat - 1,
        "ct" ++ ": completed " ++ toString (3 : UInt64) ++ " operations on log") :=
  have hr : ∀ (k : Nat) (s : Unit), ∃ s', (fun _ s => .ok s : Nat → Unit → Except String Unit) k s = .ok s' :=
    fun _ s => ⟨s, rfl⟩
  have hc : ∀ k, (fun _ => none : Nat → Option String) k = none := fun _ => rfl
  ⟨hr, hc, hammerCTLog_runs_operations_minus_one _ _ "ct" 3 () hr hc⟩

end CertTransparency.Integration
