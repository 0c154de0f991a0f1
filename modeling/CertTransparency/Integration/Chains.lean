/-
  CertTransparency.Integration.Chains — the chains `hammerState` keeps under `chainMu`, and
  `getChain` and `getPreChain` that read and write them.

  For each kind of submission the hammer keeps the first chain it generated, the last one,
  and when the first one is integrated: `firstChain`, `lastChain` and `firstChainIntegrated`
  for add-chain; `firstPreChain`, `lastPreChain` and `firstPreChainIntegrated` for
  add-pre-chain, with `firstTBS` and `lastTBS` set beside the pre-chains.  `getChain` and
  `getPreChain` are one function of these fields (`ChainSlot.get`): the choice of
  `chooseCertToAdd` becomes `NewCert` while there is no last chain or the first one is not
  integrated yet; `NewCert` asks the generator and keeps its chain as the last one, and as
  the first while the first is `nil`; `FirstCert` and `LastCert` hand out the kept chain.
  A pre-chain and its TBS are kept as one pair, `nil` when the pre-chain is.

  Each call holds `chainMu`, so the parallel adds of `addMultiple` call one after another.
  The draws, the readings of `time.Now()` and what the generator returns are inputs of a
  call, and a run is any sequence of calls.

  Main result:
    * `ChainSlot.run_duplicate_first` — over every run from the zero fields, no call hands
      out the last chain, and each duplicate a call hands out is the first non-nil chain the
      run generated, at least `MMD` after the call that generated it.
-/
import CertTransparency.Integration.Hammer

namespace CertTransparency.Integration

open CertTransparency.Scanner (Int64)

/-! ## §1. The chains and the calls -/

/-- The values of `Choice` that `chooseCertToAdd` returns and `getChain` switches on. -/
inductive Choice where
  | newCert
  | lastCert
  | firstCert
  deriving DecidableEq, Repr

/-- `chooseCertToAdd()`, `r` being the draw of `rand.Intn(DuplicateChance)`, made only when
`DuplicateChance > 0`. -/
def chooseCertToAdd (duplicateChance : Int64) (r : Nat) : Choice :=
  if 0 < duplicateChance.toInt ∧ randIntn duplicateChance r = some 0 then .firstCert else .newCert

/-- What tells the two kinds of chain apart: the chain's `== nil`, and the text that wraps
the generator's error. -/
structure ChainKind (α : Type) where
  isNil : α → Bool
  fresh : String

/-- The fields of `hammerState` for one kind of chain: the first chain, the last one, and
`time.Now().Add(MMD)` at the call that set the first. -/
structure ChainSlot (α : Type) where
  first : α
  last : α
  firstIntegrated : Int

/-- What a call reads besides the fields: the draw of `chooseCertToAdd`, the `time.Now()` of
the `Before` test, the `time.Now()` of `firstChainIntegrated`, and what the chain generator
returns if the call asks it. -/
structure ChainInput (α : Type) where
  draw : Nat
  now : Int
  nowAfter : Int
  gen : Except String α

namespace ChainSlot

variable {α : Type} (k : ChainKind α) (duplicateChance mmd : Int64)

/-- The body of `getChain` and `getPreChain`: the fields after the call, the choice, and the
chain handed out or the error. -/
def get (s : ChainSlot α) (i : ChainInput α) : ChainSlot α × Choice × Except String α :=
  let choice := chooseCertToAdd duplicateChance i.draw
  let choice := if k.isNil s.last then .newCert else choice
  let choice := if choice = .firstCert ∧ i.now < s.firstIntegrated then .newCert else choice
  match choice with
  | .newCert =>
    match i.gen with
    | .error e => (s, .newCert, .error (k.fresh ++ e))
    | .ok chain =>
      let s := if k.isNil s.first then
        { s with first := chain, firstIntegrated := i.nowAfter + mmd.toInt } else s
      ({ s with last := chain }, .newCert, .ok chain)
  | .firstCert => (s, .firstCert, .ok s.first)
  | .lastCert => (s, .lastCert, .ok s.last)

/-- The calls of `ins` in turn, with what each returned. -/
def run (s : ChainSlot α) : List (ChainInput α) → ChainSlot α × List (Choice × Except String α)
  | [] => (s, [])
  | i :: ins =>
    let t := s.get k duplicateChance mmd i
    let u := t.1.run ins
    (u.1, t.2 :: u.2)

end ChainSlot

/-- `[]ct.ASN1Cert`, `none` being `nil`. -/
def CertChain : Type := Option (List (List UInt8))

/-- Chains for add-chain. -/
def chainKind : ChainKind CertChain := ⟨Option.isNone, "failed to make fresh cert: "⟩

/-- Pre-chains for add-pre-chain, with their TBS. -/
def preChainKind : ChainKind (CertChain × Option (List UInt8)) :=
  ⟨fun p => Option.isNone p.1, "failed to make fresh pre-cert: "⟩

/-- `getChain()`, under `cfg.DuplicateChance` and `cfg.MMD`. -/
def getChain (duplicateChance mmd : Int64) (s : ChainSlot CertChain) (i : ChainInput CertChain) :
    ChainSlot CertChain × Choice × Except String CertChain :=
  s.get chainKind duplicateChance mmd i

/-- `getPreChain()`, under `cfg.DuplicateChance` and `cfg.MMD`. -/
def getPreChain (duplicateChance mmd : Int64) (s : ChainSlot (CertChain × Option (List UInt8)))
    (i : ChainInput (CertChain × Option (List UInt8))) :
    ChainSlot (CertChain × Option (List UInt8)) × Choice ×
      Except String (CertChain × Option (List UInt8)) :=
  s.get preChainKind duplicateChance mmd i

/-! ## §2. One call -/

theorem chooseCertToAdd_ne_lastCert (duplicateChance : Int64) (r : Nat) :
    chooseCertToAdd duplicateChance r ≠ .lastCert := by
  unfold chooseCertToAdd; split <;> nofun

namespace ChainSlot

variable {α : Type} {k : ChainKind α} {duplicateChance mmd : Int64}

/-- A call hands out the first chain, once there is a last one and the first is integrated;
or returns the generator's error; or generates a chain, kept as the last one, and as the
first while the first is nil. -/
theorem get_cases (s : ChainSlot α) (i : ChainInput α) :
    (s.get k duplicateChance mmd i = (s, .firstCert, .ok s.first) ∧
      k.isNil s.last = false ∧ s.firstIntegrated ≤ i.now) ∨
    (∃ e, s.get k duplicateChance mmd i = (s, .newCert, .error (k.fresh ++ e))) ∨
    (∃ c, s.get k duplicateChance mmd i =
      (⟨if k.isNil s.first then c else s.first, c,
        if k.isNil s.first then i.nowAfter + mmd.toInt else s.firstIntegrated⟩, .newCert, .ok c)) := by
  unfold get
  have hc := chooseCertToAdd_ne_lastCert duplicateChance i.draw
  generalize chooseCertToAdd duplicateChance i.draw = c at hc
  dsimp only
  split
  · -- `NewCert`: the generator's error, or its chain
    rcases i with ⟨draw, now, nowAfter, e | chain⟩
    · exact .inr (.inl ⟨e, rfl⟩)
    · refine .inr (.inr ⟨chain, ?_⟩)
      dsimp only
      split <;> rfl
  · -- `FirstCert`, once there is a last chain and the first is integrated
    rename_i h
    split_ifs at h
    rename_i hlast hnow
    exact .inl ⟨rfl, Bool.of_not_eq_true hlast, Int.not_lt.1 fun hlt => hnow ⟨h, hlt⟩⟩
  · -- `LastCert` is never the choice
    rename_i h
    split_ifs at h
    exact absurd h hc

/-! ## §3. Runs -/

theorem length_run (s : ChainSlot α) (ins : List (ChainInput α)) :
    (s.run k duplicateChance mmd ins).2.length = ins.length := by
  induction ins generalizing s with
  | nil => rfl
  | cons i ins ih => simp only [run, List.length_cons, ih]

theorem run_append (s : ChainSlot α) (a b : List (ChainInput α)) :
    s.run k duplicateChance mmd (a ++ b) =
      (((s.run k duplicateChance mmd a).1.run k duplicateChance mmd b).1,
        (s.run k duplicateChance mmd a).2 ++ ((s.run k duplicateChance mmd a).1.run k duplicateChance mmd b).2) := by
  induction a generalizing s with
  | nil => rfl
  | cons i a ih => rw [List.cons_append]; simp only [run, ih, List.cons_append]

/-- The `n`-th call of a run is a call from the fields the calls before it left. -/
theorem getElem?_run (s : ChainSlot α) (ins : List (ChainInput α)) (n : Nat) :
    (s.run k duplicateChance mmd ins).2[n]? =
      ins[n]?.map fun i => ((s.run k duplicateChance mmd (ins.take n)).1.get k duplicateChance mmd i).2 := by
  rcases Nat.lt_or_ge n ins.length with h | h
  · have hn : (ins.take n).length = n := by rw [List.length_take]; omega
    conv_lhs => rw [← List.take_append_drop n ins, List.drop_eq_getElem_cons h, run_append]
    rw [List.getElem?_append_right (by rw [length_run, hn]), length_run, hn, Nat.sub_self,
      List.getElem?_eq_getElem h]
    simp only [run, List.getElem?_cons_zero, Option.map_some']
  · rw [List.getElem?_eq_none (by rw [length_run]; exact h), List.getElem?_eq_none h]
    rfl

/-- The calls before the `j`-th generated only nil chains. -/
def FreshNil (k : ChainKind α) (outs : List (Choice × Except String α)) (j : Nat) : Prop :=
  ∀ i < j, ∀ c, outs[i]? = some (.newCert, .ok c) → k.isNil c = true

/-- What the fields hold after the calls `ins`, which returned `outs`, from the zero fields:
a last chain comes with a first one; the first chain is the first non-nil chain that `outs`
generated, and `firstIntegrated` is `MMD` after the second `time.Now()` of its call; while
the first chain is nil, so is every chain `outs` generated. -/
structure Inv (k : ChainKind α) (mmd : Int64) (s : ChainSlot α) (ins : List (ChainInput α))
    (outs : List (Choice × Except String α)) : Prop where
  first_of_last : k.isNil s.last = false → k.isNil s.first = false
  first_eq : k.isNil s.first = false → ∃ j inp, outs[j]? = some (.newCert, .ok s.first) ∧
    FreshNil k outs j ∧ ins[j]? = some inp ∧ s.firstIntegrated = inp.nowAfter + mmd.toInt
  nil_of_first : k.isNil s.first = true → FreshNil k outs outs.length

theorem FreshNil.snoc {outs : List (Choice × Except String α)} {j : Nat} (h : FreshNil k outs j)
    (hj : j ≤ outs.length) (o : Choice × Except String α) : FreshNil k (outs ++ [o]) j :=
  fun i hi c hc => h i hi c (by rwa [List.getElem?_append_left (by omega)] at hc)

theorem FreshNil.snoc_length {outs : List (Choice × Except String α)} (h : FreshNil k outs outs.length)
    {o : Choice × Except String α} (ho : ∀ c, o = (.newCert, .ok c) → k.isNil c = true) :
    FreshNil k (outs ++ [o]) (outs ++ [o]).length := by
  intro i hi c hc
  rw [List.length_append, List.length_singleton] at hi
  rcases Nat.lt_or_ge i outs.length with hlt | hge
  · exact h i hlt c (by rwa [List.getElem?_append_left hlt] at hc)
  · obtain rfl : i = outs.length := by omega
    rw [List.getElem?_concat_length] at hc
    exact ho c (Option.some.inj hc)

section Inv

variable {s t : ChainSlot α} {ins : List (ChainInput α)} {outs : List (Choice × Except String α)}

/-- A call that keeps the first chain and its time, keeps a last chain only beside a first
one, and generates no non-nil chain while the first is nil, keeps `Inv`. -/
theorem Inv.frame (hI : Inv k mmd s ins outs) (hlen : outs.length = ins.length) (i : ChainInput α)
    {o : Choice × Except String α} (hfirst : t.first = s.first)
    (hint : t.firstIntegrated = s.firstIntegrated) (hlast : k.isNil t.last = false → k.isNil s.first = false)
    (ho : k.isNil s.first = true → ∀ c, o = (.newCert, .ok c) → k.isNil c = true) :
    Inv k mmd t (ins ++ [i]) (outs ++ [o]) := by
  refine ⟨fun h => hfirst ▸ hlast h, fun h => ?_, fun h => ?_⟩
  · rw [hfirst] at h ⊢
    obtain ⟨j, inp, hj, hpre, hinp, hfi⟩ := hI.first_eq h
    obtain ⟨hjl, -⟩ := List.getElem?_eq_some_iff.1 hj
    refine ⟨j, inp, ?_, hpre.snoc hjl.le o, ?_, hint ▸ hfi⟩
    · rwa [List.getElem?_append_left hjl]
    · rwa [List.getElem?_append_left (hlen ▸ hjl)]
  · rw [hfirst] at h
    exact (hI.nil_of_first h).snoc_length (ho h)

/-- The step lemma: every call keeps `Inv`. -/
theorem Inv.get (hI : Inv k mmd s ins outs) (hlen : outs.length = ins.length) (i : ChainInput α) :
    Inv k mmd (s.get k duplicateChance mmd i).1 (ins ++ [i]) (outs ++ [(s.get k duplicateChance mmd i).2]) := by
  rcases @get_cases α k duplicateChance mmd s i with ⟨h, -, -⟩ | ⟨e, h⟩ | ⟨c, h⟩ <;> rw [h]
  -- handing out the first chain, or an error, changes no field and generates no chain
  iterate 2 exact hI.frame hlen i rfl rfl hI.first_of_last nofun
  cases hf : k.isNil s.first
  · -- a first chain was there, and stays
    simp only [hf, Bool.false_eq_true, ↓reduceIte]
    exact hI.frame hlen i rfl rfl (fun _ => hf) (fun h => absurd h (by rw [hf]; decide))
  · -- no first chain was there: the generated chain is the first
    simp only [↓reduceIte]
    have hnil := hI.nil_of_first hf
    refine ⟨id, fun hc => ⟨outs.length, i, List.getElem?_concat_length _ _, hnil.snoc le_rfl _,
      hlen ▸ List.getElem?_concat_length _ _, rfl⟩, fun hc => hnil.snoc_length ?_⟩
    rintro c' ⟨⟩
    exact hc

/-- The run lemma: from the zero fields, where both chains are nil, every run keeps `Inv`. -/
theorem run_keeps_inv (s : ChainSlot α) (hfirst : k.isNil s.first = true) (hlast : k.isNil s.last = true)
    (ins : List (ChainInput α)) :
    Inv k mmd (s.run k duplicateChance mmd ins).1 ins (s.run k duplicateChance mmd ins).2 := by
  induction ins using List.reverseRecOn with
  | nil =>
    show Inv k mmd s [] []
    exact ⟨fun h => absurd hlast (by rw [h]; decide), fun h => absurd hfirst (by rw [h]; decide),
      fun _ _ hi => absurd hi (Nat.not_lt_zero _)⟩
  | append_singleton ins i ih =>
    rw [run_append]
    exact ih.get (length_run s ins) i

end Inv

/-- A call of a run returns what it returned in any longer run. -/
theorem getElem?_run_of_take {s : ChainSlot α} {ins : List (ChainInput α)} {n j : Nat}
    (hj : j < (s.run k duplicateChance mmd (ins.take n)).2.length) :
    (s.run k duplicateChance mmd ins).2[j]? = (s.run k duplicateChance mmd (ins.take n)).2[j]? := by
  conv_lhs => rw [← List.take_append_drop n ins, run_append]
  exact List.getElem?_append_left hj

/-! ## §4. Duplicates -/

/-- **A duplicate is the first chain, once it is integrated.**  Over every run of `getChain`
(or `getPreChain`) calls from the zero fields, no call hands out the last chain: `LastCert` is
never chosen.  A call that hands out a duplicate (`FirstCert`) hands out the first non-nil
chain an earlier call generated, and is made no earlier than `MMD` after the second
`time.Now()` of that call. -/
theorem run_duplicate_first (k : ChainKind α) (duplicateChance mmd : Int64) (s : ChainSlot α)
    (ins : List (ChainInput α)) (hfirst : k.isNil s.first = true) (hlast : k.isNil s.last = true) :
    (∀ (n : Nat) (r : Except String α), (s.run k duplicateChance mmd ins).2[n]? ≠ some (.lastCert, r)) ∧
    ∀ (n : Nat) (r : Except String α), (s.run k duplicateChance mmd ins).2[n]? = some (.firstCert, r) →
      ∃ j < n, ∃ c : α, r = .ok c ∧ k.isNil c = false ∧
        (s.run k duplicateChance mmd ins).2[j]? = some (.newCert, .ok c) ∧
        (∀ i < j, ∀ c' : α, (s.run k duplicateChance mmd ins).2[i]? = some (.newCert, .ok c') →
          k.isNil c' = true) ∧
        ∃ inj inn : ChainInput α, ins[j]? = some inj ∧ ins[n]? = some inn ∧
          inj.nowAfter + mmd.toInt ≤ inn.now := by
  refine ⟨fun n r h => ?_, fun n r h => ?_⟩ <;> rw [getElem?_run] at h <;>
    obtain ⟨inn, hinn, ho⟩ := Option.map_eq_some'.1 h
  · rcases @get_cases α k duplicateChance mmd (s.run k duplicateChance mmd (ins.take n)).1 inn with
      ⟨he, -⟩ | ⟨e, he⟩ | ⟨c, he⟩ <;> rw [he] at ho <;> cases ho
  rcases @get_cases α k duplicateChance mmd (s.run k duplicateChance mmd (ins.take n)).1 inn with
    ⟨he, hl, hint⟩ | ⟨e, he⟩ | ⟨c, he⟩ <;> rw [he] at ho <;> cases ho
  -- the call handed out the first chain of the fields the calls before it left
  have hI := @run_keeps_inv α k duplicateChance mmd s hfirst hlast (ins.take n)
  have hf := hI.first_of_last hl
  obtain ⟨j, inp, hj, hpre, hinp, hfi⟩ := hI.first_eq hf
  obtain ⟨hjl, -⟩ := List.getElem?_eq_some_iff.1 hj
  have hjn : j < n := by rw [length_run, List.length_take] at hjl; omega
  refine ⟨j, hjn, _, rfl, hf, by rwa [getElem?_run_of_take hjl], fun i hi c' hc' => ?_,
    inp, inn, by rwa [List.getElem?_take_of_lt hjn] at hinp, hinn, hfi ▸ hint⟩
  exact hpre i hi c' (by rwa [getElem?_run_of_take (hi.trans hjl)] at hc')

end ChainSlot

/-- Two calls of `getChain` with `DuplicateChance` 1 and `MMD` 5: the first generates a chain,
the second, 5 later, hands it out again. -/
theorem run_duplicate_first_getChain :
    chainKind.isNil (⟨none, none, 0⟩ : ChainSlot CertChain).first = true ∧
    chainKind.isNil (⟨none, none, 0⟩ : ChainSlot CertChain).last = true ∧
    ((∀ (n : Nat) (r : Except String CertChain), ((⟨none, none, 0⟩ : ChainSlot CertChain).run chainKind 1 5
        [⟨0, 0, 0, .ok (some [[48]])⟩, ⟨0, 5, 5, .ok none⟩]).2[n]? ≠ some (.lastCert, r)) ∧
    ∀ (n : Nat) (r : Except String CertChain), ((⟨none, none, 0⟩ : ChainSlot CertChain).run chainKind 1 5
        [⟨0, 0, 0, .ok (some [[48]])⟩, ⟨0, 5, 5, .ok none⟩]).2[n]? = some (.firstCert, r) →
      ∃ j < n, ∃ c : CertChain, r = .ok c ∧ chainKind.isNil c = false ∧
        ((⟨none, none, 0⟩ : ChainSlot CertChain).run chainKind 1 5
          [⟨0, 0, 0, .ok (some [[48]])⟩, ⟨0, 5, 5, .ok none⟩]).2[j]? = some (.newCert, .ok c) ∧
        (∀ i < j, ∀ c' : CertChain, ((⟨none, none, 0⟩ : ChainSlot CertChain).run chainKind 1 5
          [⟨0, 0, 0, .ok (some [[48]])⟩, ⟨0, 5, 5, .ok none⟩]).2[i]? = some (.newCert, .ok c') →
            chainKind.isNil c' = true) ∧
        ∃ inj inn : ChainInput CertChain,
          [(⟨0, 0, 0, .ok (some [[48]])⟩ : ChainInput CertChain), ⟨0, 5, 5, .ok none⟩][j]? = some inj ∧
          [(⟨0, 0, 0, .ok (some [[48]])⟩ : ChainInput CertChain), ⟨0, 5, 5, .ok none⟩][n]? = some inn ∧
          inj.nowAfter + (5 : Int64).toInt ≤ inn.now) :=
  ⟨rfl, rfl, ChainSlot.run_duplicate_first chainKind 1 5 ⟨none, none, 0⟩ _ rfl rfl⟩

end CertTransparency.Integration
