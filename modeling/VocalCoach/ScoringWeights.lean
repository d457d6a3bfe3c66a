/-
# The weights of the overall score

`ScoringWeights.parse` reads `SCORING_WEIGHTS_*`, and `weighted_overall_score` sums with what
it read, over the values a `float` can hold and in any arithmetic that rounds as theirs does.
The parser checks the aspects and, up to a tolerance, the sum.

The range of the weighted sum depends on each weight: with scores between `0` and `100` it
runs from a hundred times the negative weights to a hundred times the positive ones
(`weighted_range`).  An accepted string therefore gives a score the column takes, whatever the
aspect scores are, when its weights are numbers and those two sums stay, after rounding to a
tenth, between `0` and `100`; and only then (`accepted_storable`).  Where a sum comes closer to a
half tenth than `edge`, the rounding errors decide.  Weights that are numbers and not negative
always stay within the scale (`withinScale_of_nonneg`); nothing in the parser asks for either.
-/
import VocalCoach.AspectScores
import VocalCoach.Floats
import Mathlib.Algebra.BigOperators.Ring.List
import Mathlib.Algebra.Order.BigOperators.Group.List

namespace VocalCoach

open Interpolation Pipeline Pipeline.Completion

/-! ## Reading text -/

/-- `str.isspace`, on one character. -/
def isSpace (c : Char) : Bool :=
  let n := c.toNat
  decide (9 ≤ n ∧ n ≤ 13) || decide (28 ≤ n ∧ n ≤ 32) || decide (n = 0x85) || decide (n = 0xA0) ||
    decide (n = 0x1680) || decide (0x2000 ≤ n ∧ n ≤ 0x200A) || decide (n = 0x2028) ||
    decide (n = 0x2029) || decide (n = 0x202F) || decide (n = 0x205F) || decide (n = 0x3000)

/-- `str.strip`. -/
def strip (text : List Char) : List Char :=
  ((text.dropWhile isSpace).reverse.dropWhile isSpace).reverse

/-- `str.partition(":")`, without the separator. -/
def partitionColon (item : List Char) : List Char × List Char :=
  (item.takeWhile (· ≠ ':'), (item.dropWhile (· ≠ ':')).tail)

/-- The digits in front, with an underscore between two of them at most. -/
def leadingDigits : List Char → List Char × List Char
  | [] => ([], [])
  | c :: rest =>
      if c.isDigit then
        let (digits, tail) := leadingDigits rest
        (c :: digits, tail)
      else if c = '_' ∧ rest.head?.any Char.isDigit then leadingDigits rest
      else ([], c :: rest)

/-- At least one digit. -/
def digitPart (text : List Char) : Option (List Char × List Char) :=
  if text.head?.any Char.isDigit then some (leadingDigits text) else none

def digitsValue (digits : List Char) : ℕ :=
  digits.foldl (fun n c => 10 * n + (c.toNat - '0'.toNat)) 0

/-- The optional sign in front. -/
def signed (text : List Char) : Bool × List Char :=
  match text with
  | '-' :: rest => (true, rest)
  | '+' :: rest => (false, rest)
  | _ => (false, text)

/-- The exponent, up to the end of the text. -/
def exponentPart (text : List Char) : Option ℤ :=
  match text with
  | [] => some 0
  | c :: rest =>
      if c = 'e' ∨ c = 'E' then
        let (negative, rest) := signed rest
        match digitPart rest with
        | some (digits, []) =>
            some (if negative then -(digitsValue digits : ℤ) else digitsValue digits)
        | _ => none
      else none

/-- A decimal number without a sign. -/
def decimal (text : List Char) : Option ℚ :=
  let (whole, rest) := (digitPart text).getD ([], text)
  let (fraction, rest) := match rest with
    | '.' :: more => (digitPart more).getD ([], more)
    | _ => ([], rest)
  if whole.isEmpty && fraction.isEmpty then none
  else do
    let exponent ← exponentPart rest
    pure (digitsValue (whole ++ fraction) * (10 : ℚ) ^ (exponent - fraction.length))

/-- The least number that rounds to infinity. -/
def floatOverflow : ℚ := 2 ^ 1024 - 2 ^ 970

/-- `float(text)`, on ASCII; `none` is its `ValueError`. -/
def readFloat (text : List Char) : Option Floating :=
  let (negative, magnitude) := signed (strip text)
  let lower := String.ofList (magnitude.map Char.toLower)
  if lower = "inf" ∨ lower = "infinity" then some (.infinite negative)
  else if lower = "nan" then some .nan
  else (decimal magnitude).map fun x =>
    if floatOverflow ≤ x then .infinite negative
    else .finite (nearestDouble (if negative then -x else x))

example : readFloat " -1_0.25e1 ".toList = some (.finite (-205 / 2)) ∧
    readFloat "0.1".toList = some (.finite (3602879701896397 / 2 ^ 55)) := by
  decide +kernel

/-! ## The parser -/

/-- The `ValueError`s of `ScoringWeights.parse`. -/
inductive WeightsError
  /-- `... entry ... is not 'aspect:weight'`. -/
  | notAPair (item : List Char)
  /-- `... has an aspect ... does not score: ...`. -/
  | notScored (name : String)
  /-- `... weight for ... is not a number: ...`. -/
  | notANumber (name : String) (value : List Char)
  /-- `... is missing aspects: ...`. -/
  | missingAspects (missing : List String)
  /-- `... must sum to 1.0, got ...`. -/
  | wrongSum (total : Floating)
  deriving DecidableEq, Repr

/-- `_WEIGHTS_SUM_TOLERANCE`: the double closest to `1e-6`. -/
def weightsSumTolerance : ℚ := 4722366482869645 / 2 ^ 72

/-- `pairs[name] = value`: a name that is there keeps its place. -/
def assign (pairs : List (String × Floating)) (name : String) (value : Floating) :
    List (String × Floating) :=
  if name ∈ pairs.map Prod.fst then
    pairs.map fun p => if p.1 = name then (p.1, value) else p
  else pairs ++ [(name, value)]

section Parse

variable (arith : FloatArithmetic) (float : List Char → Option Floating)

/-- The body of the loop over `raw.split(",")`. -/
def parseItem (mode : Mode) (pairs : List (String × Floating)) (item : List Char) :
    Except WeightsError (List (String × Floating)) :=
  let item := strip item
  if item.isEmpty then .ok pairs
  else if ':' ∉ item then .error (.notAPair item)
  else
    let (name, value) := partitionColon item
    let name := String.ofList (strip name)
    if name ∉ modeAspects mode then .error (.notScored name)
    else
      match float (strip value) with
      | none => .error (.notANumber name value)
      | some weight => .ok (assign pairs name weight)

/-- `ScoringWeights.parse`; what `total - 1.0` is rounded to makes no difference to the comparison. -/
def parseWeights (raw : String) (mode : Mode) :
    Except WeightsError (List (String × Floating)) := do
  let pairs ← (raw.toList.splitOn ',').foldlM (parseItem float mode) []
  let missing := (modeAspects mode).filter (· ∉ pairs.map Prod.fst)
  if ¬ missing.isEmpty then .error (.missingAspects (missing.mergeSort fun a b => decide (a ≤ b)))
  else
    let total := arith.sum (pairs.map Prod.snd)
    if (Floating.finite weightsSumTolerance).lt (total.add (.finite (-1))).abs then
      .error (.wrongSum total)
    else .ok pairs

end Parse

/-! ## The weighted sum -/

/-- `round(x, 1)`, which rounds the exact value of the `float`; a tenth stands for the double
closest to it. -/
def roundTenthFloat : Floating → Floating
  | .finite x => .finite (roundTenth x)
  | .infinite negative => .infinite negative
  | .nan => .nan

/-- `weighted_overall_score`; `none` is a `KeyError`. -/
def weightedOverallFloat (arith : FloatArithmetic) (scores : List (String × ℚ))
    (weights : List (String × Floating)) (mode : Mode) : Option Floating := do
  let terms ← (modeAspects mode).mapM fun aspect => do
    pure (arith.mul (← scores.lookup aspect) (← weights.lookup aspect))
  pure (roundTenthFloat (arith.sum terms))

/-! ## What the parser reads -/

/-- The aspect and the text of its weight that an item between two commas holds. -/
def entryOf (item : List Char) : Option (String × List Char) :=
  if (strip item).isEmpty then none
  else some (String.ofList (strip (partitionColon (strip item)).1),
    strip (partitionColon (strip item)).2)

/-- The weight a string gives an aspect: the last one it writes. -/
def written (float : List Char → Option Floating) (raw : String) (aspect : String) :
    Option Floating :=
  (((raw.toList.splitOn ',').filterMap entryOf).reverse.lookup aspect).bind float

/-- Setting a key that is there changes what it holds and nothing else. -/
theorem lookup_replace (pairs : List (String × Floating)) (name : String) (value : Floating)
    (aspect : String) :
    (pairs.map fun p => if p.1 = name then (p.1, value) else p).lookup aspect =
      (pairs.lookup aspect).map fun old => if aspect = name then value else old := by
  induction pairs with
  | nil => rfl
  | cons p pairs ih =>
    obtain ⟨key, old⟩ := p
    rw [List.map_cons]
    by_cases hkey : aspect = key
    · subst hkey
      by_cases hname : aspect = name <;> simp [hname]
    · have hrest : ∀ held, ((key, held) :: pairs).lookup aspect = pairs.lookup aspect := by
        intro held
        rw [List.lookup_cons, beq_false_of_ne hkey]
      by_cases hname : key = name
      · rw [if_pos hname, List.lookup_cons, beq_false_of_ne hkey, hrest]
        exact ih
      · rw [if_neg hname, List.lookup_cons, beq_false_of_ne hkey, hrest]
        exact ih

theorem lookup_isSome (pairs : List (String × Floating)) (name : String) :
    (pairs.lookup name).isSome ↔ name ∈ pairs.map Prod.fst := by
  rw [List.lookup_isSome_iff, List.mem_map]
  constructor
  · rintro ⟨p, hp, hname⟩
    exact ⟨p, hp, (beq_iff_eq.mp hname).symm⟩
  · rintro ⟨p, hp, hname⟩
    exact ⟨p, hp, beq_iff_eq.mpr hname.symm⟩

theorem lookup_assign (pairs : List (String × Floating)) (name : String) (value : Floating)
    (aspect : String) :
    (assign pairs name value).lookup aspect =
      if aspect = name then some value else pairs.lookup aspect := by
  unfold assign
  by_cases hmem : name ∈ pairs.map Prod.fst
  · rw [if_pos hmem, lookup_replace]
    split_ifs with hname
    · subst hname
      obtain ⟨old, hold⟩ := Option.isSome_iff_exists.mp ((lookup_isSome pairs aspect).mpr hmem)
      rw [hold]
      rfl
    · rw [Option.map_id']
  · have hnone : pairs.lookup name = none := by
      rwa [← lookup_isSome, Option.not_isSome_iff_eq_none] at hmem
    rw [if_neg hmem, List.lookup_append]
    split_ifs with hname
    · subst hname
      simp [hnone]
    · simp [List.lookup_cons, beq_false_of_ne hname]

/-- The names of a dictionary are those it had and the one that was set, each once. -/
theorem keys_assign {pairs : List (String × Floating)} {names : List String} {name : String}
    (value : Floating) (hname : name ∈ names)
    (h : (pairs.map Prod.fst).Nodup ∧ pairs.map Prod.fst ⊆ names) :
    ((assign pairs name value).map Prod.fst).Nodup ∧
      (assign pairs name value).map Prod.fst ⊆ names := by
  unfold assign
  split_ifs with hmem
  · have hkeys : (pairs.map fun p => if p.1 = name then (p.1, value) else p).map Prod.fst
        = pairs.map Prod.fst := by
      rw [List.map_map]
      apply List.map_congr_left
      intro p _
      by_cases hp : p.1 = name <;> simp [hp]
    rw [hkeys]
    exact h
  · rw [List.map_append]
    refine ⟨List.nodup_append.mpr ⟨h.1, by simp, ?_⟩, ?_⟩
    · intro key hkey other hother
      obtain rfl : other = name := by simpa using hother
      rintro rfl
      exact hmem hkey
    · intro key hkey
      rcases List.mem_append.mp hkey with hold | hnew
      · exact h.2 hold
      · obtain rfl : key = name := by simpa using hnew
        exact hname

section Accepted

variable {arith : FloatArithmetic} {float : List Char → Option Floating} {mode : Mode}

/-- An item the loop accepts is blank, or an entry it assigns. -/
theorem parseItem_ok {pairs pairs' : List (String × Floating)} {item : List Char}
    (h : parseItem float mode pairs item = .ok pairs') :
    (entryOf item = none ∧ pairs' = pairs) ∨
      ∃ name text weight, entryOf item = some (name, text) ∧ name ∈ modeAspects mode ∧
        float text = some weight ∧ pairs' = assign pairs name weight := by
  unfold parseItem at h
  unfold entryOf
  dsimp only at h
  by_cases hblank : (strip item).isEmpty = true
  · rw [if_pos hblank, Except.ok.injEq] at h
    rw [if_pos hblank]
    exact Or.inl ⟨rfl, h.symm⟩
  · rw [if_neg hblank] at h ⊢
    right
    split_ifs at h with hcolon hscored
    cases hfloat : float (strip (partitionColon (strip item)).2) with
    | none =>
      rw [hfloat] at h
      cases h
    | some weight =>
      rw [hfloat] at h
      cases h
      exact ⟨_, _, weight, rfl, hscored, hfloat, rfl⟩

/-- What a dictionary holds after the loop, from what it held before. -/
theorem foldlM_parseItem_ok {items : List (List Char)} {pairs pairs' : List (String × Floating)}
    (h : items.foldlM (parseItem float mode) pairs = .ok pairs')
    (hkeys : (pairs.map Prod.fst).Nodup ∧ pairs.map Prod.fst ⊆ modeAspects mode) :
    (∀ aspect, pairs'.lookup aspect =
      ((items.filterMap entryOf).reverse.lookup aspect).elim (pairs.lookup aspect) float) ∧
    (pairs'.map Prod.fst).Nodup ∧ pairs'.map Prod.fst ⊆ modeAspects mode := by
  induction items generalizing pairs with
  | nil =>
    cases h
    exact ⟨fun aspect => rfl, hkeys⟩
  | cons item items ih =>
    rw [List.foldlM_cons] at h
    cases hitem : parseItem float mode pairs item with
    | error e =>
      rw [hitem] at h
      cases h
    | ok next =>
      rw [hitem] at h
      rcases parseItem_ok hitem with ⟨hentry, rfl⟩ | ⟨name, text, weight, hentry, hname, hfloat, rfl⟩
      · rw [List.filterMap_cons_none hentry]
        exact ih h hkeys
      · obtain ⟨hlookup, hkeys'⟩ := ih h (keys_assign weight hname hkeys)
        refine ⟨fun aspect => ?_, hkeys'⟩
        rw [hlookup, lookup_assign, List.filterMap_cons_some hentry, List.reverse_cons,
          List.lookup_append]
        cases (items.filterMap entryOf).reverse.lookup aspect with
        | some later => rfl
        | none =>
          by_cases haspect : aspect = name
          · subst haspect
            simp [hfloat]
          · simp [haspect, List.lookup_cons, beq_false_of_ne haspect]

/-- **What an accepted string holds**: each aspect's last weight under its name, nothing else,
and a sum the tolerance does not refuse. -/
theorem parseWeights_ok {raw : String} {weights : List (String × Floating)}
    (h : parseWeights arith float raw mode = .ok weights) :
    (∀ aspect ∈ modeAspects mode, ∃ weight,
      weights.lookup aspect = some weight ∧ written float raw aspect = some weight) ∧
    (weights.map Prod.fst).Perm (modeAspects mode) ∧
    (Floating.finite weightsSumTolerance).lt
      ((arith.sum (weights.map Prod.snd)).add (.finite (-1))).abs = false := by
  unfold parseWeights at h
  cases hpairs : (raw.toList.splitOn ',').foldlM (parseItem float mode) [] with
  | error e =>
    rw [hpairs] at h
    cases h
  | ok pairs =>
    rw [hpairs] at h
    dsimp only [bind, Except.bind] at h
    split_ifs at h with hmissing htotal
    cases h
    obtain ⟨hlookup, hnodup, hsubset⟩ :=
      foldlM_parseItem_ok hpairs ⟨List.nodup_nil, List.nil_subset _⟩
    have hall : ∀ aspect ∈ modeAspects mode, aspect ∈ weights.map Prod.fst := by
      intro aspect haspect
      by_contra hnot
      have hthere : aspect ∈ (modeAspects mode).filter (· ∉ weights.map Prod.fst) :=
        List.mem_filter.mpr ⟨haspect, decide_eq_true hnot⟩
      rw [List.isEmpty_iff.mp hmissing] at hthere
      cases hthere
    have hdistinct : (modeAspects mode).Nodup := by cases mode <;> decide
    refine ⟨fun aspect haspect => ?_, ?_, Bool.eq_false_iff.mpr htotal⟩
    · obtain ⟨weight, hweight⟩ :=
        Option.isSome_iff_exists.mp ((lookup_isSome weights aspect).mpr (hall aspect haspect))
      refine ⟨weight, hweight, ?_⟩
      rw [← hweight, hlookup, written]
      cases ((raw.toList.splitOn ',').filterMap entryOf).reverse.lookup aspect <;> rfl
    · rw [List.perm_ext_iff_of_nodup hnodup hdistinct]
      exact fun aspect => ⟨fun h => hsubset h, hall aspect⟩

end Accepted

/-! ## The range of the weighted sum -/

/-- A number that is rounded to a tenth lies between `0` and `100`, give or take less than a
tenth, when it missed them by half a tenth at most. -/
theorem roundTenth_between {slack : ℚ} (hnonneg : 0 ≤ slack) (hslack : slack < 1 / 10) (x : ℚ) :
    (-slack ≤ roundTenth x ∧ roundTenth x ≤ 100 + slack) ↔ -(1 / 20) ≤ x ∧ x ≤ 100 + 1 / 20 := by
  have hclose := abs_le.mp (abs_roundHalfEven_sub_le (x * 10))
  unfold roundTenth
  constructor
  · rintro ⟨hlow, hhigh⟩
    have hzero : (0 : ℤ) ≤ roundHalfEven (x * 10) := by
      have hcast : (-1 : ℚ) < roundHalfEven (x * 10) := by linarith
      have hint : -1 < roundHalfEven (x * 10) := by exact_mod_cast hcast
      omega
    have hthousand : roundHalfEven (x * 10) ≤ 1000 := by
      have hcast : (roundHalfEven (x * 10) : ℚ) < 1001 := by linarith
      have hint : roundHalfEven (x * 10) < 1001 := by exact_mod_cast hcast
      omega
    have hzero : (0 : ℚ) ≤ roundHalfEven (x * 10) := by exact_mod_cast hzero
    have hthousand : (roundHalfEven (x * 10) : ℚ) ≤ 1000 := by exact_mod_cast hthousand
    constructor <;> linarith [hclose.1, hclose.2]
  · rintro ⟨hlow, hhigh⟩
    -- ties go to the even neighbours `0` and `1000`
    have hbottom : roundHalfEven (-(1 / 2)) = 0 := by decide +kernel
    have htop : roundHalfEven (1000 + 1 / 2) = 1000 := by decide +kernel
    have hzero : 0 ≤ roundHalfEven (x * 10) := by
      rw [← hbottom]
      exact roundHalfEven_mono (by linarith)
    have hthousand : roundHalfEven (x * 10) ≤ 1000 := by
      rw [← htop]
      exact roundHalfEven_mono (by linarith)
    have hzero : (0 : ℚ) ≤ roundHalfEven (x * 10) := by exact_mod_cast hzero
    have hthousand : (roundHalfEven (x * 10) : ℚ) ≤ 1000 := by exact_mod_cast hthousand
    constructor <;> linarith

/-- **The extremes of a weighted sum** of scores between `0` and `100`: a hundred times the
negative weights, and a hundred times the positive ones. -/
theorem weighted_range (names : List String) (weight : String → ℚ) (low high : ℚ) :
    (∀ scores : String → ℚ, (∀ a ∈ names, 0 ≤ scores a ∧ scores a ≤ 100) →
      low ≤ (names.map fun a => scores a * weight a).sum ∧
        (names.map fun a => scores a * weight a).sum ≤ high) ↔
    low ≤ (names.map fun a => 100 * min (weight a) 0).sum ∧
      (names.map fun a => 100 * max (weight a) 0).sum ≤ high := by
  constructor
  · intro hall
    constructor
    · -- full marks where the weight is negative
      have hextreme := (hall (fun a => if weight a < 0 then 100 else 0) fun a _ => by
        split_ifs <;> norm_num).1
      refine hextreme.trans_eq (congrArg List.sum (List.map_congr_left fun a _ => ?_))
      split_ifs with hneg
      · rw [min_eq_left hneg.le]
      · rw [min_eq_right (not_lt.mp hneg), zero_mul, mul_zero]
    · -- full marks where the weight is positive
      have hextreme := (hall (fun a => if 0 < weight a then 100 else 0) fun a _ => by
        split_ifs <;> norm_num).2
      refine (congrArg List.sum (List.map_congr_left fun a _ => ?_)).trans_le hextreme
      split_ifs with hpos
      · rw [max_eq_left hpos.le]
      · rw [max_eq_right (not_lt.mp hpos), zero_mul, mul_zero]
  · rintro ⟨hlow, hhigh⟩ scores hscores
    constructor
    · refine hlow.trans (List.sum_le_sum fun a ha => ?_)
      obtain ⟨hzero, hhundred⟩ := hscores a ha
      rcases le_total (weight a) 0 with hneg | hpos
      · rw [min_eq_left hneg]
        exact mul_le_mul_of_nonpos_right hhundred hneg
      · rw [min_eq_right hpos, mul_zero]
        exact mul_nonneg hzero hpos
    · refine (List.sum_le_sum fun a ha => ?_).trans hhigh
      obtain ⟨hzero, hhundred⟩ := hscores a ha
      rcases le_total (weight a) 0 with hneg | hpos
      · rw [max_eq_right hneg, mul_zero]
        exact mul_nonpos_of_nonneg_of_nonpos hzero hneg
      · rw [max_eq_left hpos]
        exact mul_le_mul_of_nonneg_right hhundred hpos

/-! ## Scores the column takes -/

/-- A choice of aspect scores, as the dictionary `weighted_overall_score` reads. -/
def scoreTable (mode : Mode) (scores : String → ℚ) : List (String × ℚ) :=
  (modeAspects mode).map fun aspect => (aspect, scores aspect)

/-- A number between `0` and `100`, up to the tolerance of the weights. -/
def Storable (overall : Floating) : Prop :=
  ∃ x, overall = .finite x ∧ -(100 * weightsSumTolerance) ≤ x ∧
    x ≤ 100 + 100 * weightsSumTolerance

/-- How close to a half tenth the errors of six products and their sum may matter. -/
def edge : ℚ := 1 / 10 ^ 9

/-- The weights a string writes are numbers, and neither the negative nor the positive ones
leave the scale by more than rounding takes back, give or take `slack`. -/
def WithinScale (slack : ℚ) (float : List Char → Option Floating) (raw : String) (mode : Mode) :
    Prop :=
  ∃ weight : String → ℚ,
    (∀ aspect ∈ modeAspects mode, written float raw aspect = some (.finite (weight aspect))) ∧
    -(1 / 20) - slack ≤ ((modeAspects mode).map fun aspect => 100 * min (weight aspect) 0).sum ∧
    ((modeAspects mode).map fun aspect => 100 * max (weight aspect) 0).sum ≤ 100 + 1 / 20 + slack

/-- Whatever the aspect scores, the overall score can be stored. -/
def AlwaysStorable (arith : FloatArithmetic) (weights : List (String × Floating)) (mode : Mode) :
    Prop :=
  ∀ scores : String → ℚ, (∀ a ∈ modeAspects mode, 0 ≤ scores a ∧ scores a ≤ 100) →
    ∃ overall, weightedOverallFloat arith (scoreTable mode scores) weights mode = some overall ∧
      Storable overall

theorem lookup_scoreTable {mode : Mode} (scores : String → ℚ) {aspect : String}
    (h : aspect ∈ modeAspects mode) : (scoreTable mode scores).lookup aspect = some (scores aspect) := by
  unfold scoreTable
  generalize modeAspects mode = names at h ⊢
  induction names with
  | nil => cases h
  | cons name names ih =>
    rw [List.map_cons, List.lookup_cons]
    by_cases hname : aspect = name
    · subst hname
      simp
    · rw [beq_false_of_ne hname]
      exact ih ((List.mem_cons.mp h).resolve_left hname)

section Overall

variable {arith : FloatArithmetic} {mode : Mode} {weights : List (String × Floating)}
variable {weight : String → ℚ}

/-- The overall score is the rounded sum of one term for each aspect. -/
theorem weightedOverallFloat_eq (scores : String → ℚ) {weight : String → Floating}
    (h : ∀ aspect ∈ modeAspects mode, weights.lookup aspect = some (weight aspect)) :
    weightedOverallFloat arith (scoreTable mode scores) weights mode =
      some (roundTenthFloat (arith.sum ((modeAspects mode).map fun aspect =>
        arith.mul (scores aspect) (weight aspect)))) := by
  have hterms : ((modeAspects mode).mapM fun aspect => do
      pure (arith.mul (← (scoreTable mode scores).lookup aspect)
        (← weights.lookup aspect))) =
      (modeAspects mode).mapM fun aspect =>
        (pure (arith.mul (scores aspect) (weight aspect)) : Option Floating) := by
    apply mapM_congr
    intro aspect haspect
    rw [lookup_scoreTable scores haspect, h aspect haspect]
    rfl
  rw [weightedOverallFloat, hterms, List.mapM_pure]
  rfl

theorem length_modeAspects_le (mode : Mode) : ((modeAspects mode).length : ℚ) ≤ 6 := by
  cases mode <;> norm_num [modeAspects, aspects]

/-- The weighted sum is close to the exact one. -/
theorem abs_overall_sub_le {x : String → ℚ} {s : ℚ}
    (h : arith.sum ((modeAspects mode).map fun a => arith.mul (x a) (.finite (weight a)))
      = .finite s) :
    |s - ((modeAspects mode).map fun a => x a * weight a).sum| ≤
      1 / 10 ^ 14 * ((modeAspects mode).map fun a => |x a * weight a|).sum + 1 / 10 ^ 14 := by
  have hsix := length_modeAspects_le mode
  have hround : roundoff ≤ 1 / 10 ^ 15 / 2 := by norm_num [roundoff]
  have hunder : underflow ≤ 1 / 10 ^ 16 := by
    have hpower : (2 : ℚ) ^ 60 ≤ 2 ^ 1074 := pow_le_pow_right₀ (by norm_num) (by norm_num)
    exact (one_div_le_one_div_of_le (by norm_num) hpower).trans (by norm_num)
  have hfew : ((modeAspects mode).length : ℚ) * roundoff ≤ 1 :=
    (mul_le_mul hsix hround FloatArithmetic.roundoff_nonneg (by norm_num)).trans (by norm_num)
  have htotal := FloatArithmetic.sum_abs_nonneg (modeAspects mode) fun a => x a * weight a
  refine (arith.abs_weightedSum_sub_le hfew h).trans (add_le_add ?_ ?_)
  · refine mul_le_mul_of_nonneg_right ?_ htotal
    refine (mul_le_mul (by linarith : _ ≤ (13 : ℚ)) hround FloatArithmetic.roundoff_nonneg
      (by norm_num)).trans (by norm_num)
  · refine (mul_le_mul (by linarith : _ ≤ (12 : ℚ)) hunder FloatArithmetic.underflow_nonneg
      (by norm_num)).trans (by norm_num)

theorem tolerance_bounds : 0 ≤ 100 * weightsSumTolerance ∧ 100 * weightsSumTolerance < 1 / 10 := by
  norm_num [weightsSumTolerance]

/-- Weights whose extremes stay clear of the half tenths give a storable score. -/
theorem alwaysStorable_of_within
    (hfinite : ∀ aspect ∈ modeAspects mode, weights.lookup aspect = some (.finite (weight aspect)))
    (hlow : -(1 / 20) + edge ≤ ((modeAspects mode).map fun aspect => 100 * min (weight aspect) 0).sum)
    (hhigh : ((modeAspects mode).map fun aspect => 100 * max (weight aspect) 0).sum ≤
      100 + 1 / 20 - edge) : AlwaysStorable arith weights mode := by
  intro scores hscores
  have hrange := (weighted_range (modeAspects mode) weight _ _).mpr ⟨le_rfl, le_rfl⟩ scores hscores
  have htotal : ((modeAspects mode).map fun a => |scores a * weight a|).sum ≤
      ((modeAspects mode).map fun a => 100 * max (weight a) 0).sum +
        -1 * ((modeAspects mode).map fun a => 100 * min (weight a) 0).sum := by
    rw [← List.sum_map_mul_left, ← List.sum_map_add]
    refine List.sum_le_sum fun a ha => ?_
    obtain ⟨hzero, hhundred⟩ := hscores a ha
    rw [abs_mul, abs_of_nonneg hzero]
    rcases le_total (weight a) 0 with hneg | hpos
    · rw [max_eq_right hneg, min_eq_left hneg, abs_of_nonpos hneg]
      linarith [mul_le_mul_of_nonneg_right hhundred (neg_nonneg.mpr hneg)]
    · rw [max_eq_left hpos, min_eq_right hpos, abs_of_nonneg hpos]
      linarith [mul_le_mul_of_nonneg_right hhundred hpos]
  have hedge : (0 : ℚ) ≤ edge := by norm_num [edge]
  have hhundred : ((modeAspects mode).map fun a => |scores a * weight a|).sum ≤ 101 := by
    linarith
  obtain ⟨s, hs⟩ : ∃ s, arith.sum ((modeAspects mode).map fun a =>
      arith.mul (scores a) (.finite (weight a))) = .finite s := by
    refine arith.exists_weightedSum ?_
    have hunder : underflow ≤ 1 := by
      rw [underflow, div_le_one (by positivity)]
      exact one_le_pow₀ (by norm_num)
    have hlost : ((modeAspects mode).length : ℚ) * underflow ≤ 6 * 1 :=
      mul_le_mul (length_modeAspects_le mode) hunder FloatArithmetic.underflow_nonneg (by norm_num)
    have hfar : (2 : ℚ) ^ 10 ≤ farReach := pow_le_pow_right₀ (by norm_num) (by norm_num)
    linarith
  have hclose := abs_le.mp (abs_overall_sub_le hs)
  refine ⟨_, weightedOverallFloat_eq scores hfinite, roundTenth s, ?_, ?_⟩
  · rw [hs]
    rfl
  · have hnine : edge = 1 / 10 ^ 9 := rfl
    refine (roundTenth_between tolerance_bounds.1 tolerance_bounds.2 s).mpr ⟨?_, ?_⟩ <;>
      linarith [hclose.1, hclose.2]

/-- A storable score was not far off before it was rounded. -/
theorem weightedSum_of_storable (hall : AlwaysStorable arith weights mode)
    (hfinite : ∀ aspect ∈ modeAspects mode, weights.lookup aspect = some (.finite (weight aspect)))
    {x : String → ℚ} (hx : ∀ a, 0 ≤ x a ∧ x a ≤ 100) :
    ∃ s, |s - ((modeAspects mode).map fun a => x a * weight a).sum| ≤
        1 / 10 ^ 14 * ((modeAspects mode).map fun a => |x a * weight a|).sum + 1 / 10 ^ 14 ∧
      -(1 / 20) ≤ s ∧ s ≤ 100 + 1 / 20 := by
  obtain ⟨overall, hoverall, y, rfl, hy⟩ := hall x fun a _ => hx a
  rw [weightedOverallFloat_eq x hfinite, Option.some.injEq] at hoverall
  cases hs : arith.sum ((modeAspects mode).map fun a =>
      arith.mul (x a) (.finite (weight a))) with
  | finite s =>
    rw [hs] at hoverall
    cases hoverall
    exact ⟨s, abs_overall_sub_le hs,
      (roundTenth_between tolerance_bounds.1 tolerance_bounds.2 s).mp hy⟩
  | infinite negative =>
    rw [hs] at hoverall
    cases hoverall
  | nan =>
    rw [hs] at hoverall
    cases hoverall

/-- **Both extremes are taken**: full marks where the weight is negative, and where it is
positive. -/
theorem within_of_alwaysStorable (hall : AlwaysStorable arith weights mode)
    (hfinite : ∀ aspect ∈ modeAspects mode, weights.lookup aspect = some (.finite (weight aspect))) :
    -(1 / 20) - edge ≤ ((modeAspects mode).map fun aspect => 100 * min (weight aspect) 0).sum ∧
      ((modeAspects mode).map fun aspect => 100 * max (weight aspect) 0).sum ≤
        100 + 1 / 20 + edge := by
  have hnine : edge = 1 / 10 ^ 9 := rfl
  constructor
  · obtain ⟨s, hclose, hs, -⟩ := weightedSum_of_storable hall hfinite
      (x := fun a => if weight a < 0 then 100 else 0) fun a => by split_ifs <;> norm_num
    have hterm : ∀ a, (if weight a < 0 then 100 else 0) * weight a = 100 * min (weight a) 0 := by
      intro a
      split_ifs with hneg
      · rw [min_eq_left hneg.le]
      · rw [min_eq_right (not_lt.mp hneg), zero_mul, mul_zero]
    have habs : ∀ a, |100 * min (weight a) 0| = -1 * (100 * min (weight a) 0) := by
      intro a
      rw [neg_one_mul]
      exact abs_of_nonpos (mul_nonpos_of_nonneg_of_nonpos (by norm_num) (min_le_right _ _))
    simp only [hterm, habs, List.sum_map_mul_left] at hclose ⊢
    linarith [(abs_le.mp hclose).2]
  · obtain ⟨s, hclose, -, hs⟩ := weightedSum_of_storable hall hfinite
      (x := fun a => if 0 < weight a then 100 else 0) fun a => by split_ifs <;> norm_num
    have hterm : ∀ a, (if 0 < weight a then 100 else 0) * weight a = 100 * max (weight a) 0 := by
      intro a
      split_ifs with hpos
      · rw [max_eq_left hpos.le]
      · rw [max_eq_right (not_lt.mp hpos), zero_mul, mul_zero]
    have habs : ∀ a, |100 * max (weight a) 0| = 100 * max (weight a) 0 := fun a =>
      abs_of_nonneg (mul_nonneg (by norm_num) (le_max_right _ _))
    simp only [hterm, habs] at hclose
    linarith [(abs_le.mp hclose).1]

/-- A storable score asks for weights that are numbers. -/
theorem finite_of_alwaysStorable (hall : AlwaysStorable arith weights mode)
    {weight : String → Floating}
    (hlookup : ∀ aspect ∈ modeAspects mode, weights.lookup aspect = some (weight aspect)) :
    ∀ aspect ∈ modeAspects mode, ∃ y, weight aspect = .finite y := by
  obtain ⟨overall, hoverall, x, rfl, -⟩ := hall (fun _ => 0) fun _ _ => ⟨le_rfl, by norm_num⟩
  rw [weightedOverallFloat_eq _ hlookup, Option.some.injEq] at hoverall
  generalize hsum : arith.sum ((modeAspects mode).map fun aspect =>
    arith.mul 0 (weight aspect)) = total at hoverall
  cases total with
  | infinite negative => cases hoverall
  | nan => cases hoverall
  | finite total =>
    obtain ⟨ys, hys, -⟩ := arith.sum_eq_finite hsum
    intro aspect haspect
    have hmem : arith.mul 0 (weight aspect) ∈ ys.map Floating.finite :=
      hys ▸ List.mem_map_of_mem (f := fun aspect => arith.mul 0 (weight aspect)) haspect
    obtain ⟨y, -, hy⟩ := List.mem_map.mp hmem
    obtain ⟨w, hw, -⟩ := arith.mul_eq_finite hy.symm
    exact ⟨w, hw⟩

end Overall

section Parsed

variable {arith : FloatArithmetic} {float : List Char → Option Floating} {raw : String} {mode : Mode}
variable {weights : List (String × Floating)}

/-- The numbers a string writes are those the parser hands on. -/
theorem lookup_of_written (h : parseWeights arith float raw mode = .ok weights)
    {weight : String → ℚ} (hwritten : ∀ aspect ∈ modeAspects mode,
      written float raw aspect = some (.finite (weight aspect))) :
    ∀ aspect ∈ modeAspects mode, weights.lookup aspect = some (.finite (weight aspect)) := by
  intro aspect haspect
  obtain ⟨value, hlookup, hlast⟩ := (parseWeights_ok h).1 aspect haspect
  rw [hlookup, ← hlast, hwritten aspect haspect]

theorem alwaysStorable_of_withinScale (h : parseWeights arith float raw mode = .ok weights)
    (hwithin : WithinScale (-edge) float raw mode) : AlwaysStorable arith weights mode := by
  obtain ⟨number, hnumber, hlow, hhigh⟩ := hwithin
  exact alwaysStorable_of_within (lookup_of_written h hnumber) (by linarith) (by linarith)

theorem withinScale_of_alwaysStorable (h : parseWeights arith float raw mode = .ok weights)
    (hall : AlwaysStorable arith weights mode) : WithinScale edge float raw mode := by
  obtain ⟨hread, -, -⟩ := parseWeights_ok h
  choose! weight hlookup hwritten using hread
  have hnumbers := finite_of_alwaysStorable hall hlookup
  choose! number hnumber using hnumbers
  have hfinite : ∀ aspect ∈ modeAspects mode,
      weights.lookup aspect = some (.finite (number aspect)) := by
    intro aspect haspect
    rw [hlookup aspect haspect, hnumber aspect haspect]
  refine ⟨number, fun aspect haspect => ?_, within_of_alwaysStorable hall hfinite⟩
  rw [hwritten aspect haspect, hnumber aspect haspect]

theorem lookup_of_mem {pairs : List (String × Floating)} (hkeys : (pairs.map Prod.fst).Nodup)
    {p : String × Floating} (hp : p ∈ pairs) : pairs.lookup p.1 = some p.2 := by
  induction pairs with
  | nil => cases hp
  | cons q pairs ih =>
    rw [List.map_cons, List.nodup_cons] at hkeys
    obtain ⟨key, value⟩ := q
    rcases List.mem_cons.mp hp with rfl | hp
    · exact List.lookup_cons_self
    · have hmem : p.1 ∈ pairs.map Prod.fst := List.mem_map_of_mem hp
      have hne : p.1 ≠ key := fun heq => hkeys.1 (heq ▸ hmem)
      rw [List.lookup_cons, beq_false_of_ne hne]
      exact ih hkeys.2 hp

/-- The values of a dictionary that holds numbers. -/
theorem values_of_lookup {names : List String} {weight : String → ℚ}
    (hkeys : (weights.map Prod.fst).Perm names) (hdistinct : names.Nodup)
    (hfinite : ∀ name ∈ names, weights.lookup name = some (.finite (weight name))) :
    weights.map Prod.snd = ((weights.map Prod.fst).map weight).map Floating.finite := by
  rw [List.map_map, List.map_map]
  apply List.map_congr_left
  intro p hp
  have hw := hfinite p.1 (hkeys.subset (List.mem_map_of_mem hp))
  rw [lookup_of_mem (hkeys.nodup_iff.mpr hdistinct) hp] at hw
  exact Option.some.inj hw

theorem nodup_modeAspects (mode : Mode) : (modeAspects mode).Nodup := by cases mode <;> decide

/-- Accepted weights that are numbers add up to one, up to the tolerance and the rounding. -/
theorem accepted_total (h : parseWeights arith float raw mode = .ok weights) {weight : String → ℚ}
    (hfinite : ∀ aspect ∈ modeAspects mode, weights.lookup aspect = some (.finite (weight aspect))) :
    ∃ total, |total - 1| ≤ weightsSumTolerance ∧
      |total - ((modeAspects mode).map weight).sum| ≤
        (modeAspects mode).length * roundoff * ((modeAspects mode).map fun a => |weight a|).sum := by
  obtain ⟨-, hkeys, hsum⟩ := parseWeights_ok h
  have hvalues := values_of_lookup hkeys (nodup_modeAspects mode) hfinite
  rw [hvalues] at hsum
  cases htotal : arith.sum (((weights.map Prod.fst).map weight).map Floating.finite) with
  | nan => exact absurd htotal (arith.sum_ne_nan _)
  | infinite negative =>
    rw [htotal] at hsum
    cases hsum
  | finite total =>
    rw [htotal] at hsum
    obtain ⟨ys, hys, hclose⟩ := arith.sum_eq_finite htotal
    obtain rfl := List.map_injective_iff.mpr (fun _ _ heq => Floating.finite.inj heq) hys
    rw [(hkeys.map weight).sum_eq, (hkeys.map weight).length_eq, List.length_map,
      ((hkeys.map weight).map _).sum_eq, List.map_map] at hclose
    refine ⟨total, ?_, hclose⟩
    rw [sub_eq_add_neg]
    exact not_lt.mp (of_decide_eq_false hsum)

/-- Accepted weights that are numbers and not negative stay within the scale: what is left of
the tolerance is rounded away. -/
theorem withinScale_of_nonneg (h : parseWeights arith float raw mode = .ok weights)
    {weight : String → ℚ}
    (hwritten : ∀ aspect ∈ modeAspects mode,
      written float raw aspect = some (.finite (weight aspect)))
    (hnonneg : ∀ aspect ∈ modeAspects mode, 0 ≤ weight aspect) :
    WithinScale (-edge) float raw mode := by
  obtain ⟨total, hone, hclose⟩ := accepted_total h (lookup_of_written h hwritten)
  have habs : ((modeAspects mode).map fun a => |weight a|) = (modeAspects mode).map weight :=
    List.map_congr_left fun a ha => abs_of_nonneg (hnonneg a ha)
  have hsum : 0 ≤ ((modeAspects mode).map weight).sum := List.sum_nonneg fun x hx => by
    obtain ⟨a, ha, rfl⟩ := List.mem_map.mp hx
    exact hnonneg a ha
  have hround : ((modeAspects mode).length : ℚ) * roundoff ≤ 1 / 10 ^ 14 :=
    (mul_le_mul (length_modeAspects_le mode) le_rfl FloatArithmetic.roundoff_nonneg
      (by norm_num)).trans (by norm_num [roundoff])
  rw [habs] at hclose
  have hless := (abs_le.mp (hclose.trans (mul_le_mul_of_nonneg_right hround hsum))).1
  have hbound := (abs_le.mp hone).2
  have htolerance : weightsSumTolerance ≤ 1 / 10 ^ 5 := by norm_num [weightsSumTolerance]
  have hnine : edge = 1 / 10 ^ 9 := rfl
  refine ⟨weight, hwritten, ?_, ?_⟩
  · have hzero : ((modeAspects mode).map fun aspect => 100 * min (weight aspect) 0) =
        (modeAspects mode).map fun _ => 0 := by
      apply List.map_congr_left
      intro aspect haspect
      rw [min_eq_right (hnonneg aspect haspect), mul_zero]
    rw [hzero, List.sum_map_zero]
    linarith
  · have hpositive : ((modeAspects mode).map fun aspect => 100 * max (weight aspect) 0) =
        (modeAspects mode).map fun aspect => 100 * weight aspect := by
      apply List.map_congr_left
      intro aspect haspect
      rw [max_eq_left (hnonneg aspect haspect)]
    rw [hpositive, List.sum_map_mul_left]
    linarith

end Parsed

/-- **Which accepted strings always give a storable score.**  Whatever the aspect scores between
`0` and `100`, the overall score is a number between `0` and `100` if every weight the string
leaves standing is a number, and neither the negative nor the positive ones leave the scale; and
only if so, but for extremes at the edge of a half tenth.  Weights that are numbers and not
negative do not leave it. -/
theorem accepted_storable (arith : FloatArithmetic) (float : List Char → Option Floating)
    (raw : String) (mode : Mode) (weights : List (String × Floating))
    (h : parseWeights arith float raw mode = .ok weights) :
    (WithinScale (-edge) float raw mode → AlwaysStorable arith weights mode) ∧
    (AlwaysStorable arith weights mode → WithinScale edge float raw mode) ∧
    ∀ weight : String → ℚ, (∀ aspect ∈ modeAspects mode,
      written float raw aspect = some (.finite (weight aspect)) ∧ 0 ≤ weight aspect) →
        WithinScale (-edge) float raw mode :=
  ⟨alwaysStorable_of_withinScale h, withinScale_of_alwaysStorable h, fun _ hweight =>
    withinScale_of_nonneg h (fun a ha => (hweight a ha).1) fun a ha => (hweight a ha).2⟩

/-- Weights that a double holds exactly. -/
def halvedWeights : String := "pitch:0.50,rhythm:.25,dynamics:125e-3,vibrato:0.125"

theorem accepted_storable_mixed :
    ∃ weights, parseWeights .exact readFloat halvedWeights .mixed = .ok weights ∧
      AlwaysStorable .exact weights .mixed := by
  have hparse : parseWeights .exact readFloat halvedWeights .mixed =
      .ok [("pitch", .finite (1 / 2)), ("rhythm", .finite (1 / 4)), ("dynamics", .finite (1 / 8)),
        ("vibrato", .finite (1 / 8))] := by
    decide +kernel
  obtain ⟨hwithin, -, hnonneg⟩ := accepted_storable _ _ _ _ _ hparse
  refine ⟨_, hparse, hwithin (hnonneg (fun aspect =>
    if aspect = "pitch" then 1 / 2 else if aspect = "rhythm" then 1 / 4 else 1 / 8) ?_)⟩
  decide +kernel

/-- Two weights that leave the scale in opposite directions and add up to one. -/
theorem not_forall_storable :
    ¬ ∀ (arith : FloatArithmetic) (raw : String) (mode : Mode) (weights : List (String × Floating)),
      parseWeights arith readFloat raw mode = .ok weights → AlwaysStorable arith weights mode := by
  intro hall
  have hparse : parseWeights .exact readFloat "pitch:2,rhythm:-1,dynamics:0,vibrato:0" .mixed =
      .ok [("pitch", .finite 2), ("rhythm", .finite (-1)), ("dynamics", .finite 0),
        ("vibrato", .finite 0)] := by
    decide +kernel
  obtain ⟨overall, hoverall, x, rfl, -, hhigh⟩ :=
    hall _ _ _ _ hparse (fun a => if a = "pitch" then 100 else 0) (by decide +kernel)
  have htwice : weightedOverallFloat .exact
      (scoreTable .mixed fun a => if a = "pitch" then 100 else 0)
      [("pitch", .finite 2), ("rhythm", .finite (-1)), ("dynamics", .finite 0),
        ("vibrato", .finite 0)] .mixed = some (.finite 200) := by
    decide +kernel
  rw [htwice, Option.some.injEq, Floating.finite.injEq] at hoverall
  subst hoverall
  revert hhigh
  decide +kernel

end VocalCoach
