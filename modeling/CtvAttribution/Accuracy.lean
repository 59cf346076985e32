import CtvAttribution.EngineRetries
import CtvAttribution.Generator
import CtvAttribution.MarkerRuns
import Mathlib.Tactic.LinearCombination
import Mathlib.Tactic.Linarith

/-! The accuracy eval: what ClickHouse credits against the truth links, at household grain. -/
namespace CtvAttribution
open Library

/-- `AccuracyReport`, its rates exact. -/
structure AccuracyReport where
  profile : String
  credited : Nat
  truthLinks : Nat
  householdCorrect : Nat
  precision : ℚ
  «recall» : ℚ
  f1 : ℚ
  exactExposureCorrect : Nat
  exactExposureMatchRate : ℚ
  organicCredited : Nat
  causedMissed : Nat
  causedWrongHousehold : Nat
  deriving DecidableEq, Repr

/-- Conversion to its household and exposure, attributed rows only. -/
abbrev Credited := OrderedDict String (String × Option String)

/-- The counters of the loop over the credited conversions. -/
structure Tally where
  householdCorrect : Nat
  exactCorrect : Nat
  causedWrongHousehold : Nat
  deriving DecidableEq, Repr

section score
variable (truth exposureHousehold : OrderedDict String String)

/-- One turn of the loop. -/
def Tally.count (t : Tally) (credit : String × String × Option String) : Tally :=
  match truth.get? credit.1 with
  | none => t
  | some truthExposure =>
    let t := if exposureHousehold.get? truthExposure = some credit.2.1 then
        { t with householdCorrect := t.householdCorrect + 1 }
      else { t with causedWrongHousehold := t.causedWrongHousehold + 1 }
    if credit.2.2 = some truthExposure then { t with exactCorrect := t.exactCorrect + 1 } else t

/-- `a / b if b else 0.0`. -/
def rate (a b : ℚ) : ℚ := if b = 0 then 0 else a / b

/-- `score`. -/
def score (credited : Credited) (profile : String) : AccuracyReport :=
  let tally := credited.entries.foldl (Tally.count truth exposureHousehold) ⟨0, 0, 0⟩
  let nCredited := credited.entries.length
  let nTruth := truth.entries.length
  let precision := rate tally.householdCorrect nCredited
  let «recall» := rate tally.householdCorrect nTruth
  { profile
    credited := nCredited
    truthLinks := nTruth
    householdCorrect := tally.householdCorrect
    precision
    «recall»
    f1 := rate (2 * precision * «recall») (precision + «recall»)
    exactExposureCorrect := tally.exactCorrect
    exactExposureMatchRate := rate tally.exactCorrect nCredited
    organicCredited := credited.keys.countP (· ∉ truth.keys)
    causedMissed := truth.keys.countP (· ∉ credited.keys)
    causedWrongHousehold := tally.causedWrongHousehold }

end score

namespace Serving
variable (s : Serving)

/-- `read_credited`. -/
def credited : Credited :=
  OrderedDict.collect (fun r : AttributedConversion => r.conversionId) (fun r _ => (r.householdId, r.exposureId))
    (sortedBy (fun r => r.conversionId) (s.attributedFinal.filter fun r => r.attributed))

/-- `read_exposure_households`. -/
def exposureHouseholds : OrderedDict String String :=
  OrderedDict.collect Exposure.exposureId (fun e _ => e.householdId) (sortedBy Exposure.exposureId s.exposuresFinal)

end Serving

/-- `load_truth`: a later line of a conversion overwrites an earlier one. -/
def loadTruth (links : List TruthLink) : OrderedDict String String :=
  OrderedDict.collect TruthLink.conversionId (fun link _ => link.truthExposureId) links

inductive EvalError where
  | marker (error : MarkerError)
  | noTruth (profile : String)
  deriving DecidableEq, Repr

/-- What `make eval` prints in place of a table, under a repository root. -/
def EvalError.message (root : String) : EvalError → String
  | .marker error => error.message
  | .noTruth profile => s!"no truth links at {root}/data/truth/{profile}/truth_links.jsonl — run " ++
    s!"`make seed PROFILE={profile}` first"

/-- `main`: the marker first, then the served decisions against the side file. -/
def evalMain (s : Serving) (truthLinks : Option (List TruthLink)) (profile : String) :
    Except EvalError AccuracyReport := do
  match assertProfileMarker s.profileMarker profile with
  | .error e => throw (.marker e)
  | .ok () =>
    match truthLinks with
    | none => throw (.noTruth profile)
    | some links => return score (loadTruth links) s.exposureHouseholds s.credited profile

section laws
variable (truth exposureHousehold : OrderedDict String String)

/-- The credit goes to the household its truth exposure was shown in. -/
def correctCredit (credit : String × String × Option String) : Bool :=
  (truth.get? credit.1).any fun truthExposure => exposureHousehold.get? truthExposure = some credit.2.1

def wrongCredit (credit : String × String × Option String) : Bool :=
  (truth.get? credit.1).any fun truthExposure => exposureHousehold.get? truthExposure ≠ some credit.2.1

def exactCredit (credit : String × String × Option String) : Bool :=
  (truth.get? credit.1).any fun truthExposure => credit.2.2 = some truthExposure

/-- The loop counts credits of three kinds. -/
theorem foldl_count (credits : List (String × String × Option String)) (t : Tally) :
    credits.foldl (Tally.count truth exposureHousehold) t =
      ⟨t.householdCorrect + credits.countP (correctCredit truth exposureHousehold),
        t.exactCorrect + credits.countP (exactCredit truth),
        t.causedWrongHousehold + credits.countP (wrongCredit truth exposureHousehold)⟩ := by
  induction credits generalizing t with
  | nil => rfl
  | cons credit credits ih =>
    rw [List.foldl_cons, ih]
    cases h : truth.get? credit.1 with
    | none => simp [Tally.count, correctCredit, exactCredit, wrongCredit, h]
    | some truthExposure =>
      by_cases hhousehold : exposureHousehold.get? truthExposure = some credit.2.1 <;>
        by_cases hexact : credit.2.2 = some truthExposure <;>
          simp [Tally.count, correctCredit, exactCredit, wrongCredit, h, hhousehold, hexact, Nat.add_comm,
            Nat.add_left_comm]

/-- A credit of a caused conversion is correct or wrong, and no credit is both. -/
theorem countP_caused (credits : List (String × String × Option String)) :
    credits.countP (correctCredit truth exposureHousehold) + credits.countP (wrongCredit truth exposureHousehold) =
      credits.countP fun credit => credit.1 ∈ truth.keys := by
  induction credits with
  | nil => rfl
  | cons credit credits ih =>
    have hkeys := OrderedDict.mem_keys_iff (d := truth) (k := credit.1)
    simp only [List.countP_cons, ← ih]
    cases h : truth.get? credit.1 with
    | none => simp [correctCredit, wrongCredit, hkeys, h]
    | some truthExposure =>
      by_cases hhousehold : exposureHousehold.get? truthExposure = some credit.2.1 <;>
        simp [correctCredit, wrongCredit, hkeys, h, hhousehold] <;> omega

variable (credited : Credited) (profile : String)

theorem householdCorrect_score : (score truth exposureHousehold credited profile).householdCorrect =
    credited.entries.countP (correctCredit truth exposureHousehold) := by
  simp [score, foldl_count]

theorem exactExposureCorrect_score : (score truth exposureHousehold credited profile).exactExposureCorrect =
    credited.entries.countP (exactCredit truth) := by
  simp [score, foldl_count]

theorem causedWrongHousehold_score : (score truth exposureHousehold credited profile).causedWrongHousehold =
    credited.entries.countP (wrongCredit truth exposureHousehold) := by
  simp [score, foldl_count]

/-- Conversions both credited and caused, counted from either side. -/
theorem countP_credited_caused (truth : OrderedDict String String) (credited : Credited) :
    credited.entries.countP (fun credit => credit.1 ∈ truth.keys) =
    truth.keys.countP (· ∈ credited.keys) := by
  have hkeys : credited.entries.countP (fun credit => credit.1 ∈ truth.keys) =
      credited.keys.countP (· ∈ truth.keys) := by
    change _ = (credited.entries.map Prod.fst).countP _
    rw [List.countP_map]
    rfl
  rw [hkeys]
  exact OrderedDict.countP_mem_comm credited.nodup truth.nodup

end laws

section rates

/-- A share of a count, of none as of some. -/
theorem rate_count {a b : Nat} (h : a ≤ b) : rate a b * b = a ∧ 0 ≤ rate a b ∧ rate a b ≤ 1 := by
  unfold rate
  split
  · rename_i hb
    have hb : b = 0 := Nat.cast_eq_zero.mp hb
    obtain rfl : a = 0 := by omega
    simp
  · rename_i hb
    refine ⟨div_mul_cancel₀ _ hb, div_nonneg a.cast_nonneg b.cast_nonneg, ?_⟩
    exact div_le_one_of_le₀ (Nat.cast_le.mpr h) b.cast_nonneg

/-- The harmonic mean of two shares with one numerator weighs their denominators alike. -/
theorem rate_harmonic {p r n m c : ℚ} (hp : p * n = c) (hr : r * m = c) (hp0 : 0 ≤ p) (hr0 : 0 ≤ r) :
    rate (2 * p * r) (p + r) * (n + m) = 2 * c := by
  unfold rate
  split
  · rename_i hsum
    have hzero : p = 0 := by linarith
    rw [zero_mul, ← hp, hzero]
    ring
  · rename_i hsum
    rw [div_mul_eq_mul_div, div_eq_iff hsum]
    linear_combination 2 * r * hp + 2 * p * hr

/-- The harmonic mean of two shares lies between them. -/
theorem rate_harmonic_between {p r : ℚ} (hp : 0 ≤ p) (hr : 0 ≤ r) :
    min p r ≤ rate (2 * p * r) (p + r) ∧ rate (2 * p * r) (p + r) ≤ max p r := by
  wlog hle : p ≤ r generalizing p r
  · have hswap := this hr hp (le_of_not_ge hle)
    rwa [min_comm, max_comm, mul_right_comm, add_comm]
  rw [min_eq_left hle, max_eq_right hle]
  unfold rate
  split
  · rename_i hsum
    exact ⟨by linarith, by linarith⟩
  · rename_i hsum
    have hpos : 0 < p + r := lt_of_le_of_ne (add_nonneg hp hr) (Ne.symm hsum)
    have hlow : p * p ≤ p * r := mul_le_mul_of_nonneg_left hle hp
    have hhigh : p * r ≤ r * r := mul_le_mul_of_nonneg_right hle hr
    exact ⟨(le_div_iff₀ hpos).mpr (by linarith), (div_le_iff₀ hpos).mpr (by linarith)⟩

private theorem rate_harmonic_bounds {p r : ℚ} (hp0 : 0 ≤ p) (hr0 : 0 ≤ r) (hp1 : p ≤ 1) (hr1 : r ≤ 1) :
    0 ≤ rate (2 * p * r) (p + r) ∧ rate (2 * p * r) (p + r) ≤ 1 := by
  have hsum : 0 ≤ p + r := add_nonneg hp0 hr0
  unfold rate
  split
  · exact ⟨le_rfl, zero_le_one⟩
  · refine ⟨div_nonneg (mul_nonneg (mul_nonneg zero_le_two hp0) hr0) hsum, div_le_one_of_le₀ ?_ hsum⟩
    have hpr := mul_le_of_le_one_right hp0 hr1
    have hrp := mul_le_of_le_one_left hr0 hp1
    linarith

end rates

/-- The counts of a report add up from the credits and from the truth links, its rates are
their quotients and F1 lies between precision and recall. -/
structure Balances (r : AccuracyReport) : Prop where
  credited : r.credited = r.householdCorrect + r.causedWrongHousehold + r.organicCredited
  truthLinks : r.truthLinks = r.householdCorrect + r.causedWrongHousehold + r.causedMissed
  exactExposures : r.exactExposureCorrect ≤ r.householdCorrect + r.causedWrongHousehold
  precision : r.precision * r.credited = r.householdCorrect
  «recall» : r.recall * r.truthLinks = r.householdCorrect
  f1 : r.f1 * (r.credited + r.truthLinks) = 2 * r.householdCorrect
  between : min r.precision r.recall ≤ r.f1 ∧ r.f1 ≤ max r.precision r.recall
  rates : ∀ x ∈ [r.precision, r.recall, r.f1, r.exactExposureMatchRate], 0 ≤ x ∧ x ≤ 1

section balances
variable (truth exposureHousehold : OrderedDict String String) (credited : Credited) {profile : String}

private theorem credited_score : credited.entries.length =
    credited.entries.countP (correctCredit truth exposureHousehold) +
      credited.entries.countP (wrongCredit truth exposureHousehold) + credited.keys.countP (· ∉ truth.keys) := by
  have hsplit := credited.entries.length_eq_countP_add_countP fun credit => credit.1 ∈ truth.keys
  have horganic : credited.keys.countP (· ∉ truth.keys) =
      credited.entries.countP fun credit => ¬ decide (credit.1 ∈ truth.keys) = true := by
    change (credited.entries.map Prod.fst).countP _ = _
    rw [List.countP_map]
    simp only [decide_eq_true_eq]
    rfl
  rw [countP_caused, horganic]
  exact hsplit

private theorem truthLinks_score : truth.entries.length =
    credited.entries.countP (correctCredit truth exposureHousehold) +
      credited.entries.countP (wrongCredit truth exposureHousehold) + truth.keys.countP (· ∉ credited.keys) := by
  have hsplit := truth.keys.length_eq_countP_add_countP (· ∈ credited.keys)
  simp only [decide_eq_true_eq] at hsplit
  rw [countP_caused, countP_credited_caused, ← hsplit]
  exact (List.length_map _).symm

private theorem countP_exactCredit_le : credited.entries.countP (exactCredit truth) ≤
    credited.entries.countP (correctCredit truth exposureHousehold) +
      credited.entries.countP (wrongCredit truth exposureHousehold) := by
  rw [countP_caused]
  apply List.countP_mono_left
  intro credit _ h
  obtain ⟨t, ht, _⟩ := (Option.any_eq_true _ _).mp h
  exact decide_eq_true (OrderedDict.mem_keys_iff.mpr ⟨t, ht⟩)

variable {truth exposureHousehold credited} {truth' exposureHousehold' : OrderedDict String String} {credited' : Credited}

/-- The report depends on the three mappings, not on the order they were read in. -/
theorem score_congr (ht : ∀ k, truth'.get? k = truth.get? k)
    (he : ∀ k, exposureHousehold'.get? k = exposureHousehold.get? k) (hc : ∀ k, credited'.get? k = credited.get? k) :
    score truth' exposureHousehold' credited' profile = score truth exposureHousehold credited profile := by
  have hcount : Tally.count truth' exposureHousehold' = Tally.count truth exposureHousehold := by
    funext t credit
    unfold Tally.count
    rw [ht]
    cases truth.get? credit.1 with
    | none => rfl
    | some truthExposure =>
      dsimp only
      rw [he]
  have hcredited := OrderedDict.entries_perm hc
  have htruth := OrderedDict.entries_perm ht
  have hckeys : credited'.keys.Perm credited.keys := hcredited.map _
  have htkeys : truth'.keys.Perm truth.keys := htruth.map _
  unfold score
  simp only [hcount, foldl_count, hcredited.countP_eq, hcredited.length_eq, htruth.length_eq, hckeys.mem_iff,
    htkeys.mem_iff, hckeys.countP_eq, htkeys.countP_eq]

theorem balances_score : Balances (score truth exposureHousehold credited profile) := by
  have hcredited := credited_score truth exposureHousehold credited
  have htruth := truthLinks_score truth exposureHousehold credited
  have hexact := countP_exactCredit_le truth exposureHousehold credited
  rw [← householdCorrect_score _ _ _ profile, ← causedWrongHousehold_score _ _ _ profile] at hcredited htruth hexact
  rw [← exactExposureCorrect_score truth exposureHousehold credited profile] at hexact
  have hle : (score truth exposureHousehold credited profile).householdCorrect ≤ credited.entries.length := by omega
  have hle' : (score truth exposureHousehold credited profile).householdCorrect ≤ truth.entries.length := by omega
  have hle'' : (score truth exposureHousehold credited profile).exactExposureCorrect ≤ credited.entries.length := by
    omega
  obtain ⟨hp, hp0, hp1⟩ := rate_count hle
  obtain ⟨hr, hr0, hr1⟩ := rate_count hle'
  refine ⟨hcredited, htruth, hexact, hp, hr, rate_harmonic hp hr hp0 hr0, rate_harmonic_between hp0 hr0, ?_⟩
  intro x hx
  simp only [List.mem_cons, List.not_mem_nil, or_false] at hx
  rcases hx with rfl | rfl | rfl | rfl
  · exact ⟨hp0, hp1⟩
  · exact ⟨hr0, hr1⟩
  · exact rate_harmonic_bounds hp0 hr0 hp1 hr1
  · exact (rate_count hle'').2

/-- Every report adds up, whatever is credited, caused and landed, in whatever order. -/
theorem score_balances (truth exposureHousehold : OrderedDict String String) (credited : Credited) (profile : String) :
    Balances (score truth exposureHousehold credited profile) ∧
      ∀ truth' exposureHousehold' credited', (∀ k, OrderedDict.get? truth' k = truth.get? k) →
        (∀ k, OrderedDict.get? exposureHousehold' k = exposureHousehold.get? k) →
        (∀ k, OrderedDict.get? credited' k = credited.get? k) →
        score truth' exposureHousehold' credited' profile = score truth exposureHousehold credited profile :=
  ⟨balances_score, fun _ _ _ ht he hc => score_congr ht he hc⟩

end balances
end CtvAttribution
