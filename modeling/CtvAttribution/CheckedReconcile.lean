import CtvAttribution.CheckedTimes
import CtvAttribution.ReconcileMatcher

/-! The reconcile pass over the calendar. A day of the lake asks for the midnight after it, each
bucket for the start of the long window, and each expanded record for its own. -/
namespace CtvAttribution.Checked
open Library

/-- What `reconcile` does with the records of one conversion. -/
def reconcileGroup (exposuresOf : String → List Exposure) (window reconciledAt : Int)
    (candidateHouseholds : List String) (cid : String) (rows : List ResolvedConversion) :
    Except Raised (Option AttributedConversion) :=
  if rows.length = 1 ∧ rows.any (fun r => 1 < r.candidateCount) then .error (.value (.notExpanded cid))
  else do
    let scored ← rows.mapM fun r => lastTouch (exposuresOf r.householdId) r window candidateHouseholds
    return (pickHousehold scored).map fun winner =>
      { winner.row with path := .reconciled, processedAt := reconciledAt }

/-- `reconcile`. -/
def reconcile (candidates : List ResolvedConversion)
    (exposuresByHousehold : OrderedDict String (List Exposure)) (window reconciledAt : Int) :
    Except Raised (List AttributedConversion) := do
  let byCid := candidateHouseholdsByConversion candidates
  let recovered ← (OrderedDict.groupBy (fun r => r.conversionId) candidates).entries.mapM fun (cid, rows) =>
    reconcileGroup (fun h => (exposuresByHousehold.get? h).getD []) window reconciledAt
      ((byCid.get? cid).getD []) cid rows
  return recovered.filterMap id

section recover
variable (bucketOf : String → Nat)

/-- The exposures `recover_day` gathers: the start of the long window is computed bucket by bucket. -/
def bucketExposures (log : List Exposure) (expanded : List ResolvedConversion) (start window maxTime : Int) :
    Except Raised (OrderedDict String (List Exposure)) :=
  let byBucket := (OrderedDict.groupBy (fun r : ResolvedConversion => bucketOf r.householdId)
    expanded).mapValues fun rs => sortedSet (rs.map fun r => r.householdId)
  (sortedSet byBucket.keys).foldlM (fun exposures b => do
    let minTime ← sub start window
    return exposures.update (readExposuresByHousehold log ((byBucket.get? b).getD []) minTime maxTime)) .empty

/-- `recover_day`. The next midnight comes first; the reader of the candidates asks for the same. -/
def recoverDay (lake : Lake) (day reconciledAt window : Int) : Except Raised (List AttributedConversion) := do
  let start := day * Time.day
  let maxTime ← add start Time.day
  let rows ← (lakeCandidates lake.attributed (some day)).mapError .value
  let expanded := expandCandidates rows
  let exposures ← bucketExposures bucketOf lake.exposures expanded start window maxTime
  reconcile expanded exposures window reconciledAt

/-- The lake's side of `run`: a pass over every candidate day. -/
def fullPass (lake : Lake) (reconciledAt : Int) : Except Raised Lake := do
  let days ← (candidateDays lake.attributed).mapError .value
  let recovered ← days.mapM fun day => recoverDay bucketOf lake day reconciledAt longWindow
  return lake.landAttributed recovered.flatten

end recover

section agreement
variable {window reconciledAt : Int}

private theorem reconcileGroup_agrees (exposuresOf : String → List Exposure) (hhs : List String) (cid : String)
    (rows : List ResolvedConversion) :
    AgreesWhere (∀ r ∈ rows, InCalendar (r.eventTime - window))
      (reconcileGroup exposuresOf window reconciledAt hhs cid rows)
      (CtvAttribution.reconcileGroup exposuresOf window reconciledAt hhs cid rows) := by
  unfold reconcileGroup CtvAttribution.reconcileGroup
  split
  · intro x
    constructor
    · intro h
      cases h
    · intro h
      cases h.2
  · exact (AgreesWhere.mapM fun r _ => lastTouch_agrees r hhs).map _

/-- The matcher computes one window for each of its records. -/
theorem reconcile_agrees (candidates : List ResolvedConversion)
    (exposuresByHousehold : OrderedDict String (List Exposure)) :
    AgreesWhere (∀ r ∈ candidates, InCalendar (r.eventTime - window))
      (reconcile candidates exposuresByHousehold window reconciledAt)
      (CtvAttribution.reconcile candidates exposuresByHousehold window reconciledAt) := by
  refine ((AgreesWhere.mapM fun group _ => reconcileGroup_agrees _ _ group.1 group.2).map _).congr ?_
  have hperm := OrderedDict.flatten_values_groupBy_perm (fun r : ResolvedConversion => r.conversionId) candidates
  simp only [← hperm.mem_iff, OrderedDict.values, List.mem_flatten, List.mem_map]
  constructor
  · intro h r hr
    obtain ⟨_, ⟨group, hgroup, rfl⟩, hr⟩ := hr
    exact h group hgroup r hr
  · intro h group hgroup r hr
    exact h r ⟨_, ⟨group, hgroup, rfl⟩, hr⟩

variable {bucketOf : String → Nat}

private theorem bucketExposures_agrees (log : List Exposure) (expanded : List ResolvedConversion)
    (start maxTime : Int) :
    AgreesWhere (∀ r ∈ expanded, InCalendar (start - window))
      (bucketExposures bucketOf log expanded start window maxTime)
      (.ok (CtvAttribution.bucketExposures bucketOf log expanded (start - window) maxTime) :
        Except ValueError (OrderedDict String (List Exposure))) := by
  let byBucket := (OrderedDict.groupBy (fun r : ResolvedConversion => bucketOf r.householdId)
    expanded).mapValues fun rs => sortedSet (rs.map fun r => r.householdId)
  let gather (exposures : OrderedDict String (List Exposure)) (b : Nat) : OrderedDict String (List Exposure) :=
    exposures.update (readExposuresByHousehold log ((byBucket.get? b).getD []) (start - window) maxTime)
  have hkeys : byBucket.keys = firstSeen (expanded.map fun r => bucketOf r.householdId) := by
    rw [← OrderedDict.keys_collect _ (fun x o => o.getD [] ++ [x])]
    exact List.map_map
  have hloop : AgreesWhere (∀ b ∈ sortedSet byBucket.keys, InCalendar (start - window))
      (bucketExposures bucketOf log expanded start window maxTime)
      ((sortedSet byBucket.keys).foldlM (fun exposures b => (pure (gather exposures b) : Except ValueError _)) .empty) :=
    AgreesWhere.foldlM (fun (exposures : OrderedDict String (List Exposure)) b _ =>
      (sub_agrees start window).map fun minTime =>
        exposures.update (readExposuresByHousehold log ((byBucket.get? b).getD []) minTime maxTime)) _
  rw [List.foldlM_pure] at hloop
  refine hloop.congr ?_
  simp only [mem_sortedSet, hkeys, mem_firstSeen, List.forall_mem_map]

/-- Every candidate row is expanded into some record, which has its time. -/
theorem forall_expandCandidates_iff {P : Int → Prop} {l : List AttributedConversion} :
    (∀ c ∈ expandCandidates l, P c.eventTime) ↔ ∀ r ∈ l, P r.eventTime := by
  simp only [expandCandidates_eq, List.mem_flatMap, expandRow, List.mem_map]
  constructor
  · intro h r hr
    obtain ⟨hid, hhid⟩ := List.exists_mem_of_ne_nil _ (householdsOfRow_ne_nil (r := r))
    exact h (recordIn r hid) ⟨r, hr, hid, hhid, rfl⟩
  · intro h c hc
    obtain ⟨r, hr, hid, _, rfl⟩ := hc
    exact h r hr

/-- Every time `recover_day` computes over the day's candidates is in the calendar. -/
structure DayFits (day window : Int) (rows : List AttributedConversion) : Prop where
  midnight : InCalendar (day * Time.day + Time.day)
  start : ∀ r ∈ rows, InCalendar (day * Time.day - window)
  leaf : ∀ r ∈ rows, InCalendar (r.eventTime - window)

private theorem recoverDay_agrees (lake : Lake) (day : Int) {rows : List AttributedConversion}
    (hrows : lakeCandidates lake.attributed (some day) = .ok rows) :
    AgreesWhere (DayFits day window rows) (recoverDay bucketOf lake day reconciledAt window)
      (CtvAttribution.recoverDay bucketOf lake day reconciledAt window) := by
  unfold recoverDay CtvAttribution.recoverDay
  rw [hrows]
  have hstart := forall_expandCandidates_iff (P := fun _ => InCalendar (day * Time.day - window)) (l := rows)
  have hleaf := forall_expandCandidates_iff (P := fun t => InCalendar (t - window)) (l := rows)
  refine ((add_agrees (day * Time.day) Time.day).bind_ok
    ((bucketExposures_agrees lake.exposures (expandCandidates rows) (day * Time.day) _).bind_ok
      (reconcile_agrees (expandCandidates rows) _))).congr ?_
  rw [hstart, hleaf]
  exact ⟨fun h => ⟨h.1, h.2.1, h.2.2⟩, fun h => ⟨h.midnight, h.start, h.leaf⟩⟩

/-- A pass whose days all fit returns what it returns over unbounded instants. -/
theorem fullPass_eq_ok_iff {lake lake' : Lake} {days : List Int} (hdays : candidateDays lake.attributed = .ok days)
    (hfits : ∀ day ∈ days, ∃ rows, lakeCandidates lake.attributed (some day) = .ok rows ∧ DayFits day longWindow rows) :
    fullPass bucketOf lake reconciledAt = .ok lake' ↔ lake.fullPass bucketOf reconciledAt = .ok lake' := by
  have hday : ∀ day ∈ days, AgreesWhere True (recoverDay bucketOf lake day reconciledAt longWindow)
      (CtvAttribution.recoverDay bucketOf lake day reconciledAt longWindow) := by
    intro day hday
    obtain ⟨rows, hrows, hfits⟩ := hfits day hday
    exact (recoverDay_agrees lake day hrows).congr (iff_true_intro hfits)
  have hpass := ((AgreesWhere.mapM hday).map fun recovered => lake.landAttributed recovered.flatten) lake'
  unfold fullPass Lake.fullPass Lake.pass recoverDays
  rw [hdays]
  simp only [bind_assoc, pure_bind]
  refine hpass.trans (and_iff_right fun _ _ => trivial)

end agreement
end CtvAttribution.Checked
