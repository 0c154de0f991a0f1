/-
  CertTransparency.Ctfe.Oids — `parseOIDs` of trillian/ctfe/instance.go, which reads the
  `RejectExtensions` of a log's config, and the `strconv.Atoi` it calls on each part.

  A Go string is a sequence of bytes, so a config string is a `List UInt8`.  `parseOIDs`
  splits each string at its dots (`strings.Split`) and reads every part with `Atoi`; the
  first part that fails stops it with Atoi's `*NumError`.  `Atoi` has two paths: a fast
  one for inputs of 1 to 18 bytes, whose `int` accumulator cannot overflow, and
  `ParseInt(s, 10, 0)` for the rest, which runs `ParseUint`'s digit loop with its two
  overflow checks and then checks the range of the signed value.

  Main results:
    * `atoi_eq_parseInt` — the fast path returns what `ParseInt` returns.
    * `parseOIDs_eq_ok_iff` — `parseOIDs` accepts a config exactly when every dotted part
      of every string is a decimal numeral, with an optional sign, whose value fits an
      int64; and it returns those values.
    * `parseOIDs_eq_error` — an error is that of the first part that is not such a
      numeral, and names it; a numeral fails only for its range.
    * `parseOIDs_oidString` — the dotted decimal form of non-empty OIDs reads back as them.
-/
import CertTransparency.Scanner.Int64
import Mathlib.Data.List.Basic
import Mathlib.Data.Nat.Digits

namespace CertTransparency.Ctfe

open CertTransparency.Scanner (Int64)

/-! ## §1. strconv and parseOIDs -/

/-- The `Err` of a `*strconv.NumError`: `ErrSyntax` ("invalid syntax") or `ErrRange`
("value out of range"). -/
inductive NumErr where
  | invalid
  | outOfRange
  deriving DecidableEq, Repr

/-- `*strconv.NumError`: the function that failed, its input, and why. -/
structure NumError where
  func : String
  num : List UInt8
  err : NumErr
  deriving DecidableEq, Repr

/-- Go's `'0' <= c && c <= '9'` on a byte. -/
def isDigit (c : UInt8) : Bool := decide (48 ≤ c) && decide (c ≤ 57)

/-- `maxUint64/10 + 1`, `ParseUint`'s base-10 cutoff: the least `n` with `n * 10 > maxUint64`. -/
def cutoff10 : Nat := 1844674407370955162

/-- `maxUint64`, `ParseUint`'s `maxVal` at bit size 64. -/
def maxUint64 : Nat := 18446744073709551615

/-- The digit loop of `strconv.ParseUint(s, 10, 64)` over the bytes left, from the value
`n` read so far.  It returns the value with the error, as Go does: `maxVal` beside
`ErrRange`, 0 beside `ErrSyntax`.  In base 10 a letter is a digit not below the base, so
it fails as any other non-digit does. -/
def parseUintLoop (n : Nat) : List UInt8 → Nat × Option NumErr
  | [] => (n, none)
  | c :: cs =>
    if isDigit c then
      if cutoff10 ≤ n then (maxUint64, some .outOfRange)
      else if maxUint64 < n * 10 + (c - 48).toNat then (maxUint64, some .outOfRange)
      else parseUintLoop (n * 10 + (c - 48).toNat) cs
    else (0, some .invalid)

/-- `strconv.ParseUint(s, 10, 64)`, as `ParseInt` calls it (no underscores in base 10). -/
def parseUint (s : List UInt8) : Nat × Option NumErr :=
  if s = [] then (0, some .invalid) else parseUintLoop 0 s

/-- `ParseInt`'s leading sign: whether it is `-`, and the bytes after it. -/
def splitSign : List UInt8 → Bool × List UInt8
  | [] => (false, [])
  | c :: t => if c = 43 then (false, t) else if c = 45 then (true, t) else (false, c :: t)

/-- `strconv.ParseInt(s, 10, 0)` where `int` has 64 bits.  A syntax error of `ParseUint`
is returned as `ParseInt`'s; after a range error `un` is `maxVal`, which both range checks
reject.  The value Go returns beside an error is left out: `parseOIDs` drops it. -/
def parseInt (s : List UInt8) : Except NumError Int64 :=
  if s = [] then .error ⟨"ParseInt", s, .invalid⟩ else
  let (neg, t) := splitSign s
  let (un, err) := parseUint t
  if err = some .invalid then .error ⟨"ParseInt", s, .invalid⟩
  else if !neg && 9223372036854775808 ≤ un then .error ⟨"ParseInt", s, .outOfRange⟩
  else if neg && 9223372036854775808 < un then .error ⟨"ParseInt", s, .outOfRange⟩
  else .ok (if neg then -Int64.ofNat un else Int64.ofNat un)

/-- The loop of `Atoi`'s fast path: `ch -= '0'` on the byte, then `n = n*10 + int(ch)` in
`int`, whose wrap is `Int64.wrap`'s. -/
def atoiLoop (n : Int64) : List UInt8 → Option Int64
  | [] => some n
  | ch :: t => if 9 < ch - 48 then none else atoiLoop (Int64.wrap (n.toInt * 10 + (ch - 48).toNat)) t

/-- `strconv.Atoi(s)` where `int` has 64 bits: the fast path for 1 to 18 bytes, else
`ParseInt(s, 10, 0)` with the error's `Func` set to `Atoi`. -/
def atoi (s : List UInt8) : Except NumError Int64 :=
  if 0 < s.length ∧ s.length < 19 then
    let signed := s.head? = some 45 ∨ s.head? = some 43
    if signed ∧ s.tail = [] then .error ⟨"Atoi", s, .invalid⟩
    else match atoiLoop 0 (if signed then s.tail else s) with
      | none => .error ⟨"Atoi", s, .invalid⟩
      | some n => .ok (if s.head? = some 45 then -n else n)
  else (parseInt s).mapError fun e => { e with func := "Atoi" }

/-- `strings.Split(s, ".")`. -/
def splitDots (s : List UInt8) : List (List UInt8) := s.splitOn 46

/-- `parseOIDs(oids)`: every string split at its dots, every part read by `Atoi`; the
first error is returned. -/
def parseOIDs (oids : List (List UInt8)) : Except NumError (List (List Int64)) :=
  oids.mapM fun s => (splitDots s).mapM atoi


/-! ## §2. Decimal numerals and their dotted form

What the code is for: a part is read as the integer its decimal numeral denotes, when that
fits an `int64`; an OID's string is its components in decimal, joined by dots. -/

/-- One decimal digit more: `n * 10` plus the value of the digit byte `c`. -/
def decStep (n : Nat) (c : UInt8) : Nat := n * 10 + (c.toNat - 48)

/-- The value of a string of decimal digits. -/
def digitsValue (t : List UInt8) : Nat := t.foldl decStep 0

/-- The integer a decimal numeral denotes: an optional `+` or `-`, then one or more digits.
Any other string is no numeral. -/
def decimalValue (s : List UInt8) : Option Int :=
  let t := (splitSign s).2
  if t ≠ [] ∧ t.all isDigit then
    some (if (splitSign s).1 then -(digitsValue t : Int) else digitsValue t)
  else none

/-- The `int64` a decimal numeral denotes, if it has one. -/
def decimalInt64 (s : List UInt8) : Option Int64 :=
  (decimalValue s).bind fun x =>
    if h : -9223372036854775808 ≤ x ∧ x < 9223372036854775808 then some ⟨x, h.1, h.2⟩ else none

/-- The OIDs a config's strings denote, if every dotted part is an `int64` numeral. -/
def oidsValue (oids : List (List UInt8)) : Option (List (List Int64)) :=
  oids.mapM fun s => (splitDots s).mapM decimalInt64

/-- `strconv.FormatUint(n, 10)`: the decimal digits of `n`, most significant first. -/
def formatNat (n : Nat) : List UInt8 :=
  if n = 0 then [48] else (Nat.digits 10 n).reverse.map fun d => UInt8.ofNat (48 + d)

/-- `strconv.FormatInt(x, 10)`. -/
def formatInt (x : Int) : List UInt8 :=
  if x < 0 then 45 :: formatNat x.natAbs else formatNat x.toNat

/-- `asn1.ObjectIdentifier.String()`: the components in decimal, joined by dots. -/
def oidString (oid : List Int64) : List UInt8 :=
  [46].intercalate (oid.map fun v => formatInt v.toInt)

/-! ## §3. Bytes and digits -/

theorem isDigit_iff {c : UInt8} : isDigit c = true ↔ 48 ≤ c.toNat ∧ c.toNat ≤ 57 := by
  simp [isDigit, UInt8.le_def, BitVec.le_def, UInt8.toNat]

/-- The fast path's `ch -= '0'; ch > 9` on a byte is the test for a non-digit. -/
theorem nine_lt_sub_iff {c : UInt8} : 9 < c - 48 ↔ isDigit c = false := by
  have := c.toNat_lt_size
  simp only [UInt8.toNat, UInt8.size] at this
  simp only [UInt8.lt_def, BitVec.lt_def, UInt8.sub_def, BitVec.toNat_sub, isDigit,
    UInt8.le_def, BitVec.le_def, Bool.and_eq_false_iff, decide_eq_false_iff_not,
    UInt8.toBitVec_ofNat, BitVec.toNat_ofNat]
  omega

theorem toNat_sub_of_isDigit {c : UInt8} (h : isDigit c = true) : (c - 48).toNat = c.toNat - 48 :=
  UInt8.toNat_sub_of_le _ _ (by simp only [isDigit, Bool.and_eq_true, decide_eq_true_eq] at h; exact h.1)

theorem le_foldl_decStep (t : List UInt8) (n : Nat) : n ≤ t.foldl decStep n := by
  induction t generalizing n with
  | nil => exact le_rfl
  | cons c t ih => exact le_trans (by unfold decStep; omega) (ih _)

/-- A string of `k` digits read from `n` stays below `(n + 1) * 10 ^ k`. -/
theorem foldl_decStep_lt {t : List UInt8} (h : t.all isDigit) (n : Nat) :
    t.foldl decStep n < (n + 1) * 10 ^ t.length := by
  induction t generalizing n with
  | nil => simp
  | cons c t ih =>
    simp only [List.all_cons, Bool.and_eq_true] at h
    have hc := isDigit_iff.1 h.1
    calc (c :: t).foldl decStep n = t.foldl decStep (decStep n c) := rfl
      _ < (decStep n c + 1) * 10 ^ t.length := ih h.2 _
      _ ≤ (n + 1) * 10 * 10 ^ t.length := Nat.mul_le_mul_right _ (by unfold decStep; omega)
      _ = (n + 1) * 10 ^ (c :: t).length := by rw [List.length_cons, pow_succ]; ring

/-! ## §4. The digit loops -/

/-- `ParseUint`'s loop succeeds exactly on digits whose value stays within `maxUint64`. -/
theorem parseUintLoop_eq_ok_iff {t : List UInt8} {n v : Nat} (hn : n ≤ maxUint64) :
    parseUintLoop n t = (v, none) ↔ t.all isDigit ∧ t.foldl decStep n = v ∧ v ≤ maxUint64 := by
  induction t generalizing n with
  | nil => simp only [parseUintLoop, Prod.mk.injEq, and_true, List.all_nil, List.foldl_nil,
      true_and]; constructor <;> intro h <;> omega
  | cons c t ih =>
    have hle := le_foldl_decStep t (decStep n c)
    simp only [List.all_cons, Bool.and_eq_true, List.foldl_cons]
    unfold parseUintLoop
    by_cases hc : isDigit c = true
    · rw [if_pos hc, toNat_sub_of_isDigit hc]
      rw [show decStep n c = n * 10 + (c.toNat - 48) from rfl] at hle ⊢
      unfold cutoff10 maxUint64 at *
      split_ifs with h₁ h₂
      · simp only [Prod.mk.injEq, reduceCtorEq, and_false, false_iff]; omega
      · simp only [Prod.mk.injEq, reduceCtorEq, and_false, false_iff]; omega
      · rw [ih (by omega)]; simp [hc]
    · simp [hc]

/-- A range error of `ParseUint`'s loop comes with `maxVal`. -/
theorem parseUintLoop_range {t : List UInt8} {n v : Nat}
    (h : parseUintLoop n t = (v, some .outOfRange)) : v = maxUint64 := by
  induction t generalizing n with
  | nil => simp [parseUintLoop] at h
  | cons c t ih =>
    unfold parseUintLoop at h
    split_ifs at h
    · exact (Prod.mk.inj h).1.symm
    · exact (Prod.mk.inj h).1.symm
    · exact ih h
    · simp at h

/-- `ParseUint`'s loop meets `ErrSyntax` only at a non-digit. -/
theorem parseUintLoop_invalid {t : List UInt8} {n v : Nat}
    (h : parseUintLoop n t = (v, some .invalid)) : t.all isDigit = false := by
  induction t generalizing n with
  | nil => simp [parseUintLoop] at h
  | cons c t ih =>
    unfold parseUintLoop at h
    split_ifs at h with hc
    · simp at h
    · simp at h
    · simp [hc, ih h]
    · simp [hc]

/-- From a small start over few bytes, `ParseUint`'s loop never reaches its overflow checks. -/
theorem parseUintLoop_of_small {t : List UInt8} {n : Nat}
    (h : (n + 1) * 10 ^ t.length ≤ 1000000000000000000) :
    parseUintLoop n t = if t.all isDigit then (t.foldl decStep n, none) else (0, some .invalid) := by
  induction t generalizing n with
  | nil => rfl
  | cons c t ih =>
    have h' : (n + 1) * 10 * 10 ^ t.length ≤ 1000000000000000000 := by
      rwa [List.length_cons, pow_succ', ← Nat.mul_assoc] at h
    have h10 : (n + 1) * 10 ≤ 1000000000000000000 :=
      le_trans (Nat.le_mul_of_pos_right _ (Nat.pos_pow_of_pos _ (by norm_num))) h'
    unfold parseUintLoop
    by_cases hc : isDigit c = true
    · have hd := isDigit_iff.1 hc
      rw [if_pos hc, toNat_sub_of_isDigit hc]
      unfold cutoff10 maxUint64
      rw [if_neg (by omega), if_neg (by omega), ih]
      · simp [hc, decStep]
      · calc (n * 10 + (c.toNat - 48) + 1) * 10 ^ t.length ≤ (n + 1) * 10 * 10 ^ t.length :=
              Nat.mul_le_mul_right _ (by omega)
          _ ≤ 1000000000000000000 := h'
    · simp [hc]

/-- `Atoi`'s fast loop reads the digits into `int`, or fails at the first non-digit. -/
theorem atoiLoop_ofNat (t : List UInt8) (n : Nat) :
    atoiLoop (Int64.ofNat n) t = if t.all isDigit then some (Int64.ofNat (t.foldl decStep n)) else none := by
  induction t generalizing n with
  | nil => rfl
  | cons c t ih =>
    unfold atoiLoop
    by_cases hc : isDigit c = true
    · rw [if_neg (by rw [nine_lt_sub_iff, hc]; decide), toNat_sub_of_isDigit hc]
      have hwrap : Int64.wrap ((Int64.ofNat n).toInt * 10 + ↑(c.toNat - 48)) =
          Int64.ofNat (n * 10 + (c.toNat - 48)) := by
        apply Int64.ext
        show (Int64.wrap _).toInt = (Int64.wrap _).toInt
        rw [Int64.toInt_wrap, Int64.toInt_wrap, show (Int64.ofNat n).toInt = _ from Int64.toInt_wrap n]
        push_cast; omega
      rw [hwrap, ih]; simp [hc, decStep]
    · rw [if_pos (nine_lt_sub_iff.2 (by simpa using hc))]; simp [hc]

/-! ## §5. ParseInt and Atoi -/

theorem splitSign_cons (c : UInt8) (t : List UInt8) :
    splitSign (c :: t) = (decide (c = 45), if c = 45 ∨ c = 43 then t else c :: t) := by
  unfold splitSign
  by_cases h₁ : c = 43
  · subst h₁; rfl
  · by_cases h₂ : c = 45 <;> simp [h₁, h₂]

theorem parseUint_eq_ok_iff {t : List UInt8} {v : Nat} :
    parseUint t = (v, none) ↔ t ≠ [] ∧ t.all isDigit ∧ digitsValue t = v ∧ v ≤ maxUint64 := by
  unfold parseUint
  by_cases ht : t = []
  · simp [ht]
  · rw [if_neg ht, parseUintLoop_eq_ok_iff (by unfold maxUint64; omega)]
    simp [ht, digitsValue]

theorem parseUint_range {t : List UInt8} {v : Nat} (h : parseUint t = (v, some .outOfRange)) :
    v = maxUint64 := by
  unfold parseUint at h
  split_ifs at h
  · simp at h
  · exact parseUintLoop_range h

theorem parseUint_invalid {t : List UInt8} {v : Nat} (h : parseUint t = (v, some .invalid)) :
    ¬ (t ≠ [] ∧ t.all isDigit) := by
  unfold parseUint at h
  split_ifs at h with ht
  · simp [ht]
  · simp [parseUintLoop_invalid h]

/-- `ParseInt`'s range checks and sign, from the unsigned value `un`: they accept exactly
when the signed value is an `int64`'s. -/
theorem rangeCheck_eq_ok_iff {neg : Bool} {un : Nat} {v : Int64} {e₁ e₂ : Except NumError Int64}
    (h₁ : e₁ ≠ .ok v) (h₂ : e₂ ≠ .ok v) :
    (if (!neg && decide (9223372036854775808 ≤ un)) = true then e₁
      else if (neg && decide (9223372036854775808 < un)) = true then e₂
      else .ok (if neg then -Int64.ofNat un else Int64.ofNat un)) = .ok v ↔
      (if neg then -(un : Int) else un) = v.toInt := by
  have hv₁ := v.min_le
  have hv₂ := v.lt_max
  cases neg
  · by_cases h : un < 9223372036854775808
    · simp only [Bool.not_false, Bool.true_and, Bool.false_and, decide_eq_true_eq, Bool.false_eq_true,
        ↓reduceIte, if_neg (Nat.not_le.2 h), Except.ok.injEq, ← Int64.toInt_ofNat_of_lt h]
      exact ⟨congrArg _, Int64.ext⟩
    · simp only [Bool.not_false, Bool.true_and, decide_eq_true_eq, if_pos (Nat.not_lt.1 h),
        Bool.false_eq_true, ↓reduceIte]
      exact iff_of_false h₁ (by omega)
  · by_cases h : un ≤ 9223372036854775808
    · simp only [Bool.not_true, Bool.false_and, Bool.true_and, decide_eq_true_eq, Bool.false_eq_true,
        ↓reduceIte, if_neg (Nat.not_lt.2 h), Except.ok.injEq, ← Int64.toInt_neg_ofNat_of_le h]
      exact ⟨congrArg _, Int64.ext⟩
    · simp only [Bool.not_true, Bool.false_and, Bool.true_and, decide_eq_true_eq, Bool.false_eq_true,
        ↓reduceIte, if_pos (Nat.not_le.1 h)]
      exact iff_of_false h₂ (by omega)

/-- `ParseInt(s, 10, 0)` succeeds exactly on the numerals whose value fits an `int64`, and
returns that value. -/
theorem parseInt_eq_ok_iff {s : List UInt8} {v : Int64} :
    parseInt s = .ok v ↔ decimalValue s = some v.toInt := by
  unfold parseInt decimalValue
  by_cases hs : s = []
  · subst hs; simp [splitSign]
  rw [if_neg hs]
  rcases splitSign s with ⟨neg, t⟩
  dsimp only
  rcases hp : parseUint t with ⟨un, _ | _ | _⟩
  · obtain ⟨ht, hd, rfl, -⟩ := parseUint_eq_ok_iff.1 hp
    have hc : t ≠ [] ∧ t.all isDigit = true := ⟨ht, hd⟩
    rw [if_neg (show (none : Option NumErr) ≠ some .invalid from nofun), if_pos hc, Option.some.injEq]
    exact rangeCheck_eq_ok_iff nofun nofun
  · rw [if_pos rfl, if_neg (parseUint_invalid hp)]
    simp
  · obtain rfl := parseUint_range hp
    have hv₁ := v.min_le
    have hv₂ := v.lt_max
    refine iff_of_false (by cases neg <;> simp [maxUint64]) fun h => ?_
    by_cases hc : t ≠ [] ∧ t.all isDigit = true
    · rw [if_pos hc, Option.some.injEq] at h
      have hle : digitsValue t ≤ maxUint64 := by
        unfold maxUint64; cases neg <;> simp at h <;> omega
      simp [parseUint_eq_ok_iff.2 ⟨hc.1, hc.2, rfl, hle⟩] at hp
    · rw [if_neg hc] at h; cases h

/-- A `ParseInt` error names its input, and a numeral fails only for its range. -/
theorem parseInt_error {s : List UInt8} {e : NumError} (h : parseInt s = .error e) :
    e.func = "ParseInt" ∧ e.num = s ∧ (decimalValue s ≠ none → e.err = .outOfRange) := by
  unfold parseInt at h
  unfold decimalValue
  by_cases hs : s = []
  · rw [if_pos hs] at h; cases h; simp [hs, splitSign]
  rw [if_neg hs] at h
  generalize splitSign s = p at h ⊢
  rcases p with ⟨neg, t⟩
  dsimp only at h ⊢
  generalize hp : parseUint t = r at h
  rcases r with ⟨un, err⟩
  dsimp only at h
  split_ifs at h with h₁ <;> cases h <;> simp only [true_and, implies_true]
  subst h₁
  rw [if_neg (parseUint_invalid hp)]
  exact fun h => absurd rfl h

/-- On 1 to 18 bytes `Atoi`'s fast path returns what `ParseInt` does, with `Func` renamed. -/
theorem atoi_of_short {s : List UInt8} (h : 0 < s.length ∧ s.length < 19) :
    atoi s = (parseInt s).mapError fun e => { e with func := "Atoi" } := by
  obtain ⟨c, cs, rfl⟩ := List.exists_cons_of_length_pos h.1
  unfold atoi parseInt
  rw [if_pos h, if_neg (List.cons_ne_nil c cs), splitSign_cons]
  simp only [List.head?_cons, Option.some.injEq, List.tail_cons]
  set t := if c = 45 ∨ c = 43 then cs else c :: cs with ht
  have hlen : t.length ≤ 18 := by rw [ht]; split_ifs <;> simp only [List.length_cons] at h ⊢ <;> omega
  have hnil : t = [] ↔ (c = 45 ∨ c = 43) ∧ cs = [] := by rw [ht]; split_ifs with hs <;> simp [hs]
  by_cases hn : (c = 45 ∨ c = 43) ∧ cs = []
  · rw [if_pos hn, hnil.2 hn]; rfl
  have hpow : 10 ^ t.length ≤ 1000000000000000000 :=
    le_trans (Nat.pow_le_pow_right (by norm_num) hlen) (by norm_num)
  have hsmall : (0 + 1) * 10 ^ t.length ≤ 1000000000000000000 := by rwa [Nat.zero_add, Nat.one_mul]
  have hp : parseUint t = if t.all isDigit then (digitsValue t, none) else (0, some .invalid) := by
    rw [parseUint, if_neg (mt hnil.1 hn), parseUintLoop_of_small hsmall]; rfl
  rw [if_neg hn, hp, show (0 : Int64) = Int64.ofNat 0 from rfl, atoiLoop_ofNat]
  by_cases hd : t.all isDigit = true
  · have hv : digitsValue t < 9223372036854775808 := by
      have := foldl_decStep_lt hd 0
      unfold digitsValue; omega
    simp only [hd, ↓reduceIte, digitsValue] at hv ⊢
    simp [Nat.not_le.2 hv, Nat.not_lt.2 hv.le]
    rfl
  · simp [hd]
    rfl

/-- `Atoi` is `ParseInt(s, 10, 0)` with the error's `Func` renamed: its fast path for
short inputs, whose accumulator is never checked for overflow, returns what `ParseInt`'s
checked loop returns. -/
theorem atoi_eq_parseInt (s : List UInt8) :
    atoi s = (parseInt s).mapError fun e => { e with func := "Atoi" } := by
  by_cases h : 0 < s.length ∧ s.length < 19
  · exact atoi_of_short h
  · rw [atoi, if_neg h]

/-- `"-9223372036854775808"` takes the slow path, and is the least `int64`. -/
example : atoi [45, 57, 50, 50, 51, 51, 55, 50, 48, 51, 54, 56, 53, 52, 55, 55, 53, 56, 48, 56] =
    .ok ⟨-9223372036854775808, by omega, by omega⟩ := rfl

theorem mapError_eq_ok_iff {ε ε' α : Type} {f : ε → ε'} {x : Except ε α} {v : α} :
    x.mapError f = .ok v ↔ x = .ok v := by
  cases x <;> simp [Except.mapError]

theorem mapError_eq_error_iff {ε ε' α : Type} {f : ε → ε'} {x : Except ε α} {e : ε'} :
    x.mapError f = .error e ↔ ∃ e', x = .error e' ∧ f e' = e := by
  cases x <;> simp [Except.mapError]

theorem decimalInt64_eq_some_iff {s : List UInt8} {v : Int64} :
    decimalInt64 s = some v ↔ decimalValue s = some v.toInt := by
  unfold decimalInt64
  rcases decimalValue s with _ | x
  · simp
  · simp only [Option.some_bind, Option.some.injEq]
    split_ifs with h
    · simp only [Option.some.injEq]
      exact ⟨fun e => e ▸ rfl, fun e => Int64.ext e⟩
    · exact iff_of_false nofun fun e => h (e ▸ ⟨v.min_le, v.lt_max⟩)

theorem atoi_eq_ok_iff {s : List UInt8} {v : Int64} : atoi s = .ok v ↔ decimalInt64 s = some v := by
  rw [atoi_eq_parseInt, mapError_eq_ok_iff, parseInt_eq_ok_iff, decimalInt64_eq_some_iff]

/-- An `Atoi` error names its input, and a numeral fails only for its range. -/
theorem atoi_error {s : List UInt8} {e : NumError} (h : atoi s = .error e) :
    e.func = "Atoi" ∧ e.num = s ∧ (decimalValue s ≠ none → e.err = .outOfRange) := by
  obtain ⟨e', he', rfl⟩ := mapError_eq_error_iff.1 (atoi_eq_parseInt s ▸ h)
  obtain ⟨-, hn, hr⟩ := parseInt_error he'
  exact ⟨rfl, hn, hr⟩

/-! ## §6. parseOIDs -/

section MapM

variable {α β ε : Type}

/-- A `mapM` in `Except` succeeds exactly where a `mapM` in `Option` with the same successes
does. -/
theorem mapM_eq_ok_iff {f : α → Except ε β} {g : α → Option β}
    (hfg : ∀ a b, f a = .ok b ↔ g a = some b) {l : List α} {r : List β} :
    l.mapM f = .ok r ↔ l.mapM g = some r := by
  induction l generalizing r with
  | nil => simp only [List.mapM_nil]; exact ⟨fun h => by cases h; rfl, fun h => by cases h; rfl⟩
  | cons a l ih =>
    simp only [List.mapM_cons]
    rcases hf : f a with e | b
    · have hg : g a = none := by
        rcases hga : g a with _ | b
        · rfl
        · exact absurd ((hfg a b).2 hga) (by rw [hf]; exact nofun)
      simp only [hg]
      exact iff_of_false nofun nofun
    · rw [(hfg a b).1 hf]
      rcases hm : l.mapM f with e | rs
      · have hn : l.mapM g = none := by
          rcases hgm : l.mapM g with _ | rs
          · rfl
          · exact absurd (ih.2 hgm) (by rw [hm]; exact nofun)
        simp only [hn]
        exact iff_of_false nofun nofun
      · rw [ih.1 hm]
        exact ⟨fun h => by cases h; rfl, fun h => by cases h; rfl⟩

/-- A `mapM` that fails stops at the first element that fails, with its error. -/
theorem mapM_eq_error {f : α → Except ε β} {l : List α} {e : ε} (h : l.mapM f = .error e) :
    ∃ pre a post, l = pre ++ a :: post ∧ (∀ b ∈ pre, ∃ r, f b = .ok r) ∧ f a = .error e := by
  induction l with
  | nil => cases h
  | cons a l ih =>
    simp only [List.mapM_cons] at h
    rcases hf : f a with e' | b
    · rw [hf] at h
      cases h
      exact ⟨[], a, l, rfl, nofun, hf⟩
    · rw [hf] at h
      rcases hm : l.mapM f with e' | rs
      · rw [hm] at h
        cases h
        obtain ⟨pre, c, post, rfl, hpre, hc⟩ := ih hm
        refine ⟨a :: pre, c, post, rfl, ?_, hc⟩
        rintro x (_ | ⟨_, hx⟩)
        exacts [⟨b, hf⟩, hpre x hx]
      · rw [hm] at h
        cases h

/-- `mapM` over the images of `g` returns the originals when `f` undoes `g`. -/
theorem mapM_map_eq_ok {f : β → Except ε α} {g : α → β} {l : List α}
    (h : ∀ a ∈ l, f (g a) = .ok a) : (l.map g).mapM f = .ok l := by
  induction l with
  | nil => rfl
  | cons a l ih =>
    simp only [List.map_cons, List.mapM_cons, h a (List.mem_cons_self a l),
      ih fun b hb => h b (List.mem_cons_of_mem a hb)]
    rfl

end MapM

/-- `parseOIDs` computes `oidsValue`: it accepts a config exactly when every dotted part of
every string is a decimal numeral of an `int64`, and returns their values. -/
theorem parseOIDs_eq_ok_iff {oids : List (List UInt8)} {r : List (List Int64)} :
    parseOIDs oids = .ok r ↔ oidsValue oids = some r :=
  mapM_eq_ok_iff fun _ _ => mapM_eq_ok_iff fun _ _ => atoi_eq_ok_iff

/-- A failed `parseOIDs` returns the error of the first dotted part, in the first string,
that is no `int64` numeral: every string before it and every part before it in its string
parse.  A part that is a numeral fails only with `ErrRange`. -/
theorem parseOIDs_eq_error {oids : List (List UInt8)} {e : NumError} (h : parseOIDs oids = .error e) :
    e.func = "Atoi" ∧ decimalInt64 e.num = none ∧ (decimalValue e.num ≠ none → e.err = .outOfRange) ∧
    ∃ pre s post bpre bpost, oids = pre ++ s :: post ∧ splitDots s = bpre ++ e.num :: bpost ∧
      (∀ s' ∈ pre, ((splitDots s').mapM decimalInt64).isSome) ∧ ∀ b ∈ bpre, (decimalInt64 b).isSome := by
  obtain ⟨pre, s, post, rfl, hpre, hs⟩ := mapM_eq_error h
  obtain ⟨bpre, b, bpost, hsplit, hbpre, hb⟩ := mapM_eq_error hs
  obtain ⟨hf, rfl, hr⟩ := atoi_error hb
  refine ⟨hf, ?_, hr, pre, s, post, bpre, bpost, rfl, hsplit, fun s' hs' => ?_, fun b' hb' => ?_⟩
  · rcases hd : decimalInt64 e.num with _ | v
    · rfl
    · rw [← atoi_eq_ok_iff] at hd; rw [hd] at hb; cases hb
  · obtain ⟨oid, hoid⟩ := hpre s' hs'
    rw [(mapM_eq_ok_iff fun _ _ => atoi_eq_ok_iff).1 hoid]; rfl
  · obtain ⟨v, hv⟩ := hbpre b' hb'
    rw [atoi_eq_ok_iff.1 hv]; rfl

theorem parseOIDs_eq_error_one :
    parseOIDs [[49, 46, 50], [111, 110, 101, 46, 50]] = .error ⟨"Atoi", [111, 110, 101], .invalid⟩ ∧
    ((⟨"Atoi", [111, 110, 101], .invalid⟩ : NumError).func = "Atoi" ∧
      decimalInt64 [111, 110, 101] = none ∧
      (decimalValue [111, 110, 101] ≠ none → NumErr.invalid = .outOfRange) ∧
      ∃ pre s post bpre bpost, [[49, 46, 50], [111, 110, 101, 46, 50]] = pre ++ s :: post ∧
        splitDots s = bpre ++ [111, 110, 101] :: bpost ∧
        (∀ s' ∈ pre, ((splitDots s').mapM decimalInt64).isSome) ∧
        ∀ b ∈ bpre, (decimalInt64 b).isSome) :=
  ⟨rfl, parseOIDs_eq_error rfl⟩

/-! ## §7. The dotted form reads back -/

section Format

variable {d : Nat}

theorem toNat_digitByte (hd : d < 10) : (UInt8.ofNat (48 + d)).toNat = 48 + d :=
  UInt8.toNat_ofNat_of_lt (by unfold UInt8.size; omega)

theorem isDigit_digitByte (hd : d < 10) : isDigit (UInt8.ofNat (48 + d)) = true :=
  isDigit_iff.2 (by rw [toNat_digitByte hd]; omega)

/-- Read from the least significant end, digit bytes give `Nat.ofDigits`. -/
theorem foldr_decStep_digitByte {L : List Nat} (hL : ∀ d ∈ L, d < 10) :
    L.foldr (fun d m => decStep m (UInt8.ofNat (48 + d))) 0 = Nat.ofDigits 10 L := by
  induction L with
  | nil => rfl
  | cons d L ih =>
    rw [List.foldr_cons, ih fun d hd => hL d (List.mem_cons_of_mem _ hd), Nat.ofDigits_cons, decStep,
      toNat_digitByte (hL d (List.mem_cons_self d L))]
    omega

theorem isDigit_of_mem_formatNat {n : Nat} {c : UInt8} (h : c ∈ formatNat n) : isDigit c = true := by
  unfold formatNat at h
  split_ifs at h
  · rw [List.mem_singleton.1 h]; rfl
  · obtain ⟨d, hd, rfl⟩ := List.mem_map.1 h
    exact isDigit_digitByte (Nat.digits_lt_base (by norm_num) (List.mem_reverse.1 hd))

theorem formatNat_ne_nil (n : Nat) : formatNat n ≠ [] := by
  unfold formatNat
  split_ifs with h
  · exact List.cons_ne_nil _ _
  · simpa using Nat.digits_ne_nil_iff_ne_zero.2 h

theorem digitsValue_formatNat (n : Nat) : digitsValue (formatNat n) = n := by
  unfold formatNat digitsValue
  split_ifs with h
  · subst h; rfl
  · rw [List.foldl_map, List.foldl_reverse,
      foldr_decStep_digitByte fun d hd => Nat.digits_lt_base (by norm_num) hd, Nat.ofDigits_digits]

/-- Digits carry no sign. -/
theorem splitSign_of_all_isDigit {t : List UInt8} (h : t.all isDigit) : splitSign t = (false, t) := by
  cases t with
  | nil => rfl
  | cons c t =>
    have hc : isDigit c = true := (List.all_eq_true.1 h) c (List.mem_cons_self c t)
    rw [splitSign_cons, if_neg (by rintro (rfl | rfl) <;> exact absurd hc (by decide)),
      decide_eq_false (by rintro rfl; exact absurd hc (by decide))]

end Format

theorem decimalValue_formatInt (x : Int) : decimalValue (formatInt x) = some x := by
  have hd : ∀ n, (formatNat n).all isDigit := fun n =>
    List.all_eq_true.2 fun _ => isDigit_of_mem_formatNat
  have hn : ∀ n, formatNat n ≠ [] ∧ (formatNat n).all isDigit = true := fun n =>
    ⟨formatNat_ne_nil n, hd n⟩
  unfold formatInt
  by_cases hx : x < 0
  · rw [if_pos hx, decimalValue, splitSign_cons]
    simp only [decide_True, true_or, ↓reduceIte, if_pos (hn _), digitsValue_formatNat, Option.some.injEq]
    omega
  · rw [if_neg hx, decimalValue, splitSign_of_all_isDigit (hd _)]
    simp only [if_pos (hn _), digitsValue_formatNat, Bool.false_eq_true, ↓reduceIte, Option.some.injEq]
    omega

theorem dot_not_mem_formatInt (x : Int) : (46 : UInt8) ∉ formatInt x := by
  have h : (46 : UInt8) ∉ formatNat x.natAbs ∧ (46 : UInt8) ∉ formatNat x.toNat :=
    ⟨fun h => absurd (isDigit_of_mem_formatNat h) (by decide),
      fun h => absurd (isDigit_of_mem_formatNat h) (by decide)⟩
  unfold formatInt
  split_ifs
  · exact List.not_mem_cons_of_ne_of_not_mem (by decide) h.1
  · exact h.2

/-- The round trip: the dotted decimal strings of non-empty OIDs parse back to those OIDs.
(An empty OID has the empty string, which `Atoi` rejects.) -/
theorem parseOIDs_oidString (oids : List (List Int64)) (h : ∀ oid ∈ oids, oid ≠ []) :
    parseOIDs (oids.map oidString) = .ok oids := by
  refine mapM_map_eq_ok fun oid hoid => ?_
  have hsplit : splitDots (oidString oid) = oid.map fun v => formatInt v.toInt :=
    List.splitOn_intercalate _ _ (by simpa using fun (v : Int64) _ => dot_not_mem_formatInt v.toInt)
      (by simpa using h oid hoid)
  rw [hsplit]
  exact mapM_map_eq_ok fun v _ => atoi_eq_ok_iff.2 (decimalInt64_eq_some_iff.2 (decimalValue_formatInt _))

theorem parseOIDs_oidString_rsa :
    (∀ oid ∈ [[(1 : Int64), 2, 840, 113549]], oid ≠ []) ∧
    parseOIDs ([[(1 : Int64), 2, 840, 113549]].map oidString) = .ok [[1, 2, 840, 113549]] :=
  ⟨by decide, parseOIDs_oidString _ (by decide)⟩

end CertTransparency.Ctfe
