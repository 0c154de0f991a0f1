/-
  CertTransparency.Integration.Pending — `pendingCerts` of `hammer.go`: the
  submitted certificates the hammer keeps, to ask for an inclusion proof of each
  once the log's maximum merge delay has passed.

  The Go value is an array of `sctCount` nil-able slots under a mutex, so every
  call is atomic and a run is a sequence of calls.  `tryAppendCert` writes the
  first nil slot when `canAppend` allows it (the array is not full, and it is
  empty or its newest SCT is `MMD / sctCount` old); `dropOldest` shifts every
  slot one to the left; `empty` and `oldestIfMMDPassed` read slot 0.

  The array is a bounded FIFO padded with nils.  Main results:

    * `tryAppendCert_ne_none` — on every array, neither the `last` loop of
      `canAppend` nor the `which` loop of `tryAppendCert` leaves the array;
    * `pendingCerts_refines_certQueue` — over every sequence of calls from the
      zero array, the slots in use are a prefix (`Packed`) holding exactly the
      `CertQueue` that the same calls build, and the two reads agree with it.

  A `time.Time` is a count of nanoseconds; `timeFromMS`, defined outside
  `hammer.go`, is a parameter.
-/
import CertTransparency.Scanner.Int64
import Mathlib.Data.List.Basic

namespace CertTransparency.Integration

open CertTransparency.Scanner (Int64)

/-! ## §1. The array and its calls. -/

/-- `sctCount`: how many SCTs to hold on to. -/
def sctCount : Nat := 10

/-- The fields of a `submittedCert` that `pendingCerts` reads: the timestamp of its SCT
(milliseconds) and `integrateBy`. -/
structure SubmittedCert where
  sctTimestamp : UInt64
  integrateBy : Int
  deriving DecidableEq

/-- `pendingCerts`: the array `certs [sctCount]*submittedCert`, oldest first. -/
structure PendingCerts where
  certs : List (Option SubmittedCert)
  length_eq : certs.length = sctCount
  deriving DecidableEq

/-- One step of the loop of `dropOldest`: `certs[i] = certs[i+1]`. -/
def shiftStep (cs : List (Option SubmittedCert)) (i : Nat) : List (Option SubmittedCert) :=
  cs.set i (cs.getD (i + 1) none)

/-- The loop of `dropOldest`, `i` from `0` to `sctCount - 2`. -/
def shiftLoop (cs : List (Option SubmittedCert)) : List (Option SubmittedCert) :=
  (List.range (sctCount - 1)).foldl shiftStep cs

/-- The loop `last` of `canAppend`: counting down from `i - 1` to `0`, the first index whose
slot is not nil, or `-1`. -/
def lastLoop (cs : List (Option SubmittedCert)) : Nat → Int
  | 0 => -1
  | i + 1 => if (cs.getD i none).isSome then i else lastLoop cs i

theorem foldl_shiftStep : ∀ (k : Nat) (cs : List (Option SubmittedCert)), k < cs.length →
    (List.range k).foldl shiftStep cs = (cs.drop 1).take k ++ cs.drop k
  | 0, cs, _ => by simp
  | k + 1, cs, h => by
    rw [List.range_succ, List.foldl_append, foldl_shiftStep k cs (by omega)]
    obtain ⟨x, y, rest, hxy⟩ : ∃ x y rest, cs.drop k = x :: y :: rest := by
      match h' : cs.drop k with
      | x :: y :: rest => exact ⟨x, y, rest, rfl⟩
      | [] | [_] => have := congrArg List.length h'; simp at this; omega
    have hd : cs.drop (k + 1) = y :: rest := by rw [← List.tail_drop, hxy]; rfl
    have hA : ((cs.drop 1).take k).length = k := by simp; omega
    have ht : (cs.drop 1).take (k + 1) = (cs.drop 1).take k ++ [y] := by
      rw [List.take_succ, ← List.head?_drop, List.drop_drop, Nat.add_comm, hd]; rfl
    simp only [List.foldl_cons, List.foldl_nil, shiftStep, List.getD_eq_getElem?_getD,
      List.getElem?_append_right (Nat.le_succ_of_le hA.le), hA, List.set_append_right _ _ hA.le,
      hxy, hd, ht]
    simp

/-- The loop moves every slot one to the left and leaves the last one as it was. -/
theorem shiftLoop_eq {cs : List (Option SubmittedCert)} (h : cs.length = sctCount) :
    shiftLoop cs = cs.tail ++ cs.drop (sctCount - 1) := by
  rw [shiftLoop, foldl_shiftStep _ _ (by rw [h]; decide), List.drop_one,
    List.take_of_length_le (by simp [h])]

namespace PendingCerts

/-- The zero value: every slot nil. -/
def zero : PendingCerts := ⟨List.replicate sctCount none, List.length_replicate _ _⟩

/-- `pc.certs[i]`, at an index the code keeps in range. -/
def slot (pc : PendingCerts) (i : Nat) : Option SubmittedCert := pc.certs.getD i none

/-- `empty()`. -/
def empty (pc : PendingCerts) : Bool := (pc.slot 0).isNone

/-- `oldestIfMMDPassed(now)`: the oldest cert, if `now` is after its `integrateBy`. -/
def oldestIfMMDPassed (pc : PendingCerts) (now : Int) : Option SubmittedCert :=
  match pc.slot 0 with
  | none => none
  | some c => if c.integrateBy < now then some c else none

/-- `dropOldest()`: the shift, then `certs[sctCount-1] = nil`. -/
def dropOldest (pc : PendingCerts) : PendingCerts :=
  ⟨(shiftLoop pc.certs).set (sctCount - 1) none, by
    rw [List.length_set, shiftLoop_eq pc.length_eq]; simp [pc.length_eq, sctCount]⟩

/-- The loop `which` of `tryAppendCert`: the first nil slot, `sctCount` if there is none. -/
def firstNil (pc : PendingCerts) : Nat := pc.certs.findIdx Option.isNone

section Time

variable (timeFromMS : UInt64 → Int)

/-- `canAppend(now, mmd)`; `none` is a panic, `pc.certs[last]` out of range or nil. -/
def canAppend (pc : PendingCerts) (now : Int) (mmd : Int64) : Option Bool :=
  if (pc.slot (sctCount - 1)).isSome then some false
  else if (pc.slot 0).isNone then some true
  else
    let last := lastLoop pc.certs sctCount
    if 0 ≤ last then
      (pc.certs.getD last.toNat none).map fun c =>
        decide (timeFromMS c.sctTimestamp + mmd.toInt.tdiv sctCount < now)
    else none

/-- `tryAppendCert(now, mmd, submitted)`; `none` is a panic, of `canAppend` or of
`pc.certs[which]` with `which = sctCount`. -/
def tryAppendCert (pc : PendingCerts) (now : Int) (mmd : Int64) (c : SubmittedCert) :
    Option PendingCerts :=
  (pc.canAppend timeFromMS now mmd).bind fun ok =>
    if ok then
      if pc.firstNil < sctCount then
        some ⟨pc.certs.set pc.firstNil (some c), by rw [List.length_set, pc.length_eq]⟩
      else none
    else some pc

end Time

/-! ## §2. No call leaves the array. -/

/-- When slot 0 holds a cert, the loop `last` stops on a cert. -/
theorem lastLoop_spec {cs : List (Option SubmittedCert)} (h : (cs.getD 0 none).isSome)
    (m : Nat) (hm : 0 < m) : 0 ≤ lastLoop cs m ∧ (cs.getD (lastLoop cs m).toNat none).isSome := by
  induction m with
  | zero => exact absurd hm (lt_irrefl 0)
  | succ m ih =>
    rw [lastLoop]
    split_ifs with hs
    · exact ⟨Int.natCast_nonneg m, by simpa using hs⟩
    · rcases Nat.eq_zero_or_pos m with rfl | hpos
      · exact absurd h hs
      · exact ih hpos

theorem canAppend_ne_none (timeFromMS : UInt64 → Int) (pc : PendingCerts) (now : Int)
    (mmd : Int64) : pc.canAppend timeFromMS now mmd ≠ none := by
  unfold canAppend
  split_ifs with h₁ h₂
  · exact Option.some_ne_none _
  · exact Option.some_ne_none _
  · have h₀ : (pc.slot 0).isSome := by cases hs : pc.slot 0 <;> simp_all
    have hl := lastLoop_spec h₀ sctCount (by decide)
    simp only [if_pos hl.1, Ne, Option.map_eq_none']
    exact Option.ne_none_iff_isSome.2 hl.2

/-- `canAppend` allows an append only when the last slot is nil. -/
theorem slot_last_of_canAppend {timeFromMS : UInt64 → Int} {pc : PendingCerts} {now : Int}
    {mmd : Int64} (h : pc.canAppend timeFromMS now mmd = some true) :
    pc.slot (sctCount - 1) = none := by
  by_contra hs
  rw [canAppend, if_pos (Option.ne_none_iff_isSome.1 hs)] at h
  cases h

/-- With the last slot nil, the loop `which` stops inside the array. -/
theorem firstNil_lt {pc : PendingCerts} (h : pc.slot (sctCount - 1) = none) :
    pc.firstNil < sctCount := by
  have hlt : sctCount - 1 < pc.certs.length := by rw [pc.length_eq]; decide
  have hmem := List.getElem_mem hlt
  rw [← Option.getD_some (a := pc.certs[sctCount - 1]) (b := none), ← List.getElem?_eq_getElem hlt,
    ← List.getD_eq_getElem?_getD] at hmem
  exact pc.length_eq ▸ List.findIdx_lt_length_of_exists ⟨none, (h : _ = none) ▸ hmem, rfl⟩

/-- **No index leaves the array.**  On every array, `tryAppendCert` never panics: `canAppend`
never does, and it allows an append only when slot `sctCount - 1` is nil, so the loop `which`
stops inside the array. -/
theorem tryAppendCert_ne_none (timeFromMS : UInt64 → Int) (pc : PendingCerts) (now : Int)
    (mmd : Int64) (c : SubmittedCert) : pc.tryAppendCert timeFromMS now mmd c ≠ none := by
  obtain ⟨ok, hok⟩ := Option.ne_none_iff_exists'.1 (canAppend_ne_none timeFromMS pc now mmd)
  cases ok
  · simp [tryAppendCert, hok]
  · simp [tryAppendCert, hok, firstNil_lt (slot_last_of_canAppend hok)]

/-! ## §3. The slots in use are a prefix. -/

/-- The certs in use, oldest first. -/
def queue (pc : PendingCerts) : List SubmittedCert := pc.certs.filterMap id

/-- The slots in use are a prefix of the array: `queue` padded with nils. -/
def Packed (pc : PendingCerts) : Prop :=
  pc.certs = pc.queue.map some ++ List.replicate (sctCount - pc.queue.length) none

section Padding

variable (l : List SubmittedCert)

theorem getD_pad (k i : Nat) : (l.map some ++ List.replicate k none).getD i none = l[i]? := by
  rw [List.getD_eq_getElem?_getD]
  by_cases h : i < l.length
  · rw [List.getElem?_append_left (by simpa using h), List.getElem?_map]
    cases l[i]? <;> rfl
  · rw [List.getElem?_append_right (by simpa using h), List.getElem?_eq_none (not_lt.1 h)]
    simp only [List.getElem?_replicate, List.length_map]
    split_ifs <;> rfl

theorem findIdx_pad (k : Nat) :
    (l.map some ++ List.replicate (k + 1) none).findIdx Option.isNone = l.length := by
  induction l <;> simp_all [List.findIdx_cons, List.replicate_succ]

theorem set_pad (k : Nat) (c : SubmittedCert) :
    (l.map some ++ List.replicate (k + 1) none).set l.length (some c) =
      (l ++ [c]).map some ++ List.replicate k none := by
  rw [List.set_append_right _ _ (by simp)]; simp [List.replicate_succ]

theorem lastLoop_pad (k : Nat) (hl : 0 < l.length) :
    ∀ m, l.length ≤ m → lastLoop (l.map some ++ List.replicate k none) m = (l.length - 1 : Nat)
  | 0, h => absurd h (by omega)
  | m + 1, h => by
    rw [lastLoop, getD_pad]
    by_cases hm : m < l.length
    · rw [if_pos (by simp [hm])]; congr 1; omega
    · rw [if_neg (by simp; omega), lastLoop_pad k hl m (by omega)]

end Padding

/-- An array that is `l` padded with nils is packed, with queue `l`. -/
theorem packed_of_eq {pc : PendingCerts} {l : List SubmittedCert}
    (h : pc.certs = l.map some ++ List.replicate (sctCount - l.length) none) :
    pc.Packed ∧ pc.queue = l := by
  have hq : pc.queue = l := by simp [queue, h, List.filterMap_append]
  exact ⟨by unfold Packed; rw [hq]; exact h, hq⟩

theorem Packed.length_le {pc : PendingCerts} (hp : pc.Packed) : pc.queue.length ≤ sctCount := by
  have h := pc.length_eq
  rw [hp] at h
  simp only [List.length_append, List.length_map, List.length_replicate] at h
  omega

theorem Packed.slot_eq {pc : PendingCerts} (hp : pc.Packed) (i : Nat) : pc.slot i = pc.queue[i]? := by
  rw [slot, hp, getD_pad]

end PendingCerts

/-! ## §4. The queue `pendingCerts` is for. -/

/-- What `pendingCerts` is for: at most `sctCount` submitted certs, oldest first.  A cert
joins only when there is room and the newest cert's SCT is more than `MMD / sctCount` before
`now`; the oldest leaves once its inclusion proof checked. -/
structure CertQueue where
  items : List SubmittedCert
  length_le : items.length ≤ sctCount
  deriving DecidableEq

namespace CertQueue

/-- No cert. -/
def nil : CertQueue := ⟨[], Nat.zero_le _⟩

section Time

variable (timeFromMS : UInt64 → Int)

/-- The newest cert, if any, has an SCT more than `MMD / sctCount` before `now`. -/
def spaced (q : CertQueue) (now : Int) (mmd : Int64) : Bool :=
  q.items.getLast?.all fun last => decide (timeFromMS last.sctTimestamp + mmd.toInt.tdiv sctCount < now)

/-- Append `c` if there is room and the queue is spaced. -/
def push (q : CertQueue) (now : Int) (mmd : Int64) (c : SubmittedCert) : CertQueue :=
  if h : q.items.length < sctCount ∧ q.spaced timeFromMS now mmd = true then
    ⟨q.items ++ [c], by simp only [List.length_append, List.length_singleton]; omega⟩
  else q

end Time

/-- Remove the oldest cert. -/
def pop (q : CertQueue) : CertQueue :=
  ⟨q.items.tail, by rw [List.length_tail]; exact (Nat.sub_le _ _).trans q.length_le⟩

/-- The oldest cert, if `now` is after its `integrateBy`. -/
def oldestDue (q : CertQueue) (now : Int) : Option SubmittedCert :=
  q.items.head?.filter fun c => decide (c.integrateBy < now)

end CertQueue

/-- A call that changes `pendingCerts`: `tryAppendCert` from `addChain` and `addPreChain`,
`dropOldest` from `getProofByHash`.  The mutex orders them. -/
inductive PendingOp where
  | tryAppendCert (now : Int) (mmd : Int64) (c : SubmittedCert)
  | dropOldest

section Runs

variable (timeFromMS : UInt64 → Int)

/-- The calls in order on the array; `none` if one panics. -/
def PendingCerts.run (pc : PendingCerts) : List PendingOp → Option PendingCerts
  | [] => some pc
  | .tryAppendCert now mmd c :: ops => (pc.tryAppendCert timeFromMS now mmd c).bind (·.run ops)
  | .dropOldest :: ops => pc.dropOldest.run ops

/-- The calls in order on the queue. -/
def CertQueue.run (q : CertQueue) : List PendingOp → CertQueue
  | [] => q
  | .tryAppendCert now mmd c :: ops => (q.push timeFromMS now mmd c).run ops
  | .dropOldest :: ops => q.pop.run ops

end Runs

/-! ## §5. The array simulates the queue. -/

namespace PendingCerts

section Simulation

variable {timeFromMS : UInt64 → Int} {pc : PendingCerts} {q : CertQueue}

/-- On a packed array `canAppend` is the queue's guard. -/
theorem Packed.canAppend_eq (hp : pc.Packed) (hq : pc.queue = q.items) (now : Int) (mmd : Int64) :
    pc.canAppend timeFromMS now mmd =
      some (decide (q.items.length < sctCount) && q.spaced timeFromMS now mmd) := by
  have hcerts : pc.certs = q.items.map some ++ List.replicate (sctCount - q.items.length) none :=
    hq ▸ hp
  have hle := q.length_le
  unfold canAppend
  rw [slot, slot, hcerts, getD_pad, getD_pad]
  rcases Nat.lt_or_ge q.items.length sctCount with hlt | hge
  · rw [if_neg (by simp; omega)]
    rcases Nat.eq_zero_or_pos q.items.length with h0 | hn
    · simp [List.eq_nil_of_length_eq_zero h0, CertQueue.spaced, sctCount]
    · obtain ⟨last, hlast⟩ : ∃ last, q.items[q.items.length - 1]? = some last :=
        ⟨_, List.getElem?_eq_getElem (by omega)⟩
      rw [if_neg (by simp [hn]), lastLoop_pad _ _ hn _ hlt.le, if_pos (Int.natCast_nonneg _),
        Int.toNat_ofNat, getD_pad, hlast, CertQueue.spaced, List.getLast?_eq_getElem?, hlast]
      simp [hlt]
  · have h9 : q.items[sctCount - 1]?.isSome = true := by
      rw [List.getElem?_eq_getElem (by unfold sctCount at *; omega)]; rfl
    rw [if_pos h9]
    simp [show ¬ q.items.length < sctCount by omega]

/-- On a packed array `tryAppendCert` is the queue's `push`, and the array stays packed. -/
theorem Packed.tryAppendCert_eq (hp : pc.Packed) (hq : pc.queue = q.items) (now : Int)
    (mmd : Int64) (c : SubmittedCert) :
    ∃ pc', pc.tryAppendCert timeFromMS now mmd c = some pc' ∧ pc'.Packed ∧
      pc'.queue = (q.push timeFromMS now mmd c).items := by
  have hcerts : pc.certs = q.items.map some ++ List.replicate (sctCount - q.items.length) none :=
    hq ▸ hp
  by_cases hg : q.items.length < sctCount ∧ q.spaced timeFromMS now mmd = true
  · have hk : sctCount - q.items.length = (sctCount - q.items.length - 1) + 1 := by omega
    have hf : pc.firstNil = q.items.length := by rw [firstNil, hcerts, hk, findIdx_pad]
    have hset : pc.certs.set pc.firstNil (some c) =
        (q.items ++ [c]).map some ++ List.replicate (sctCount - (q.items ++ [c]).length) none := by
      rw [hf, hcerts, hk, set_pad]; simp only [List.length_append, List.length_singleton]; congr 2
    refine ⟨⟨pc.certs.set pc.firstNil (some c), by rw [List.length_set, pc.length_eq]⟩, ?_,
      (packed_of_eq hset).1, by rw [(packed_of_eq hset).2, CertQueue.push, dif_pos hg]⟩
    simp only [tryAppendCert, hp.canAppend_eq hq, Option.some_bind, hg.1, hg.2, decide_true_eq_true,
      Bool.and_self, if_true, hf]
  · have hb : (decide (q.items.length < sctCount) && q.spaced timeFromMS now mmd) = false := by
      simpa using hg
    refine ⟨pc, ?_, hp, by rw [CertQueue.push, dif_neg hg, hq]⟩
    simp only [tryAppendCert, hp.canAppend_eq hq, Option.some_bind, hb, Bool.false_eq_true, if_false]

/-- `dropOldest` drops the oldest cert and keeps the array packed. -/
theorem Packed.dropOldest (hp : pc.Packed) : pc.dropOldest.Packed ∧ pc.dropOldest.queue = pc.queue.tail := by
  apply packed_of_eq
  show (shiftLoop pc.certs).set (sctCount - 1) none = _
  have htl : pc.certs.tail.length = sctCount - 1 := by simp [pc.length_eq]
  obtain ⟨x, hx⟩ := List.length_eq_one.1 (show (pc.certs.drop (sctCount - 1)).length = 1 by
    simp [pc.length_eq, sctCount])
  rw [shiftLoop_eq pc.length_eq, List.set_append_right _ _ htl.le, htl, Nat.sub_self, hx,
    List.set_cons_zero, hp]
  have hle := hp.length_le
  generalize pc.queue = l at hle ⊢
  rcases l with _ | ⟨a, l⟩
  · rfl
  · simp only [List.length_cons] at hle
    rw [List.length_tail, List.length_cons, Nat.add_sub_cancel,
      show sctCount - l.length = (sctCount - (l.length + 1)) + 1 by omega, List.replicate_succ']
    simp

theorem Packed.empty_eq (hp : pc.Packed) : pc.empty = pc.queue.isEmpty := by
  rw [empty, hp.slot_eq]; cases pc.queue <;> simp

theorem Packed.oldestIfMMDPassed_eq (hp : pc.Packed) (hq : pc.queue = q.items) (now : Int) :
    pc.oldestIfMMDPassed now = q.oldestDue now := by
  rw [oldestIfMMDPassed, hp.slot_eq, hq, CertQueue.oldestDue]
  rcases q.items with _ | ⟨c, _⟩
  · rfl
  · by_cases h : c.integrateBy < now <;> simp [Option.filter, h]

/-- The run lemma: from a packed array, every sequence of calls runs without a panic, to a
packed array holding what the queue holds after the same calls. -/
theorem Packed.run (hp : pc.Packed) (hq : pc.queue = q.items) (ops : List PendingOp) :
    ∃ pc', pc.run timeFromMS ops = some pc' ∧ pc'.Packed ∧ pc'.queue = (q.run timeFromMS ops).items := by
  induction ops generalizing pc q with
  | nil => exact ⟨pc, rfl, hp, hq⟩
  | cons op ops ih =>
    cases op with
    | tryAppendCert now mmd c =>
      obtain ⟨pc₁, h₁, hp₁, hq₁⟩ := hp.tryAppendCert_eq hq now mmd c
      obtain ⟨pc', h', hrest⟩ := ih hp₁ hq₁
      exact ⟨pc', by rw [PendingCerts.run, h₁, Option.some_bind, h'], hrest⟩
    | dropOldest =>
      obtain ⟨hp₁, hq₁⟩ := hp.dropOldest
      exact ih hp₁ (hq₁.trans (congrArg List.tail hq))

end Simulation

theorem zero_packed : zero.Packed ∧ zero.queue = [] := packed_of_eq rfl

/-- **`pendingCerts` is a bounded FIFO.**  Over every sequence of `tryAppendCert` and
`dropOldest` calls from the zero array (any times, any `MMD`, any certs), no call panics; the
slots in use are a prefix holding, oldest first, exactly the certs of the `CertQueue` run
through the same calls; and `empty` and `oldestIfMMDPassed` read that queue. -/
theorem pendingCerts_refines_certQueue (timeFromMS : UInt64 → Int) (ops : List PendingOp) :
    ∃ pc, zero.run timeFromMS ops = some pc ∧ pc.Packed ∧
      pc.queue = (CertQueue.nil.run timeFromMS ops).items ∧
      pc.empty = (CertQueue.nil.run timeFromMS ops).items.isEmpty ∧
      ∀ now, pc.oldestIfMMDPassed now = (CertQueue.nil.run timeFromMS ops).oldestDue now := by
  obtain ⟨pc, h, hp, hq⟩ := zero_packed.1.run (q := CertQueue.nil) zero_packed.2 ops
  exact ⟨pc, h, hp, hq, hq ▸ hp.empty_eq, hp.oldestIfMMDPassed_eq hq⟩


end PendingCerts

end CertTransparency.Integration
