import CtvAttribution.CheckedReconcile
import CtvAttribution.HotAgreement
import CtvAttribution.LandedRun

/-! From the streams to the lake: resolution, the hot run and one pass credit every
resolvable conversion with the latest exposure in reach of it, while the times the two compute
stay in the calendar. -/
namespace CtvAttribution
open Library

/-- An exposure a conversion may be credited to. -/
def InReach (index : GraphIndex) (conv : Conversion) (e : Exposure) : Prop :=
  e.householdId ∈ candidateHouseholdsOf conv index ∧
    conv.eventTime - longWindow ≤ e.eventTime ∧ e.eventTime ≤ conv.eventTime

instance (index : GraphIndex) (conv : Conversion) (e : Exposure) : Decidable (InReach index conv e) := by
  unfold InReach
  exact inferInstance

/-- What a row of the lake should say: attributed when some exposure is in reach, and then
to the latest one and its household. -/
structure Specified (index : GraphIndex) (exposures : List Exposure) (r : AttributedConversion) : Prop where
  attributed_iff : r.attributed = true ↔ ∃ e ∈ exposures, InReach index r.toConversion e
  credit : r.attributed = true → ∃ e ∈ exposures, InReach index r.toConversion e ∧
    (∀ f ∈ exposures, InReach index r.toConversion f → recency f ≤ recency e) ∧
    r.exposureId = some e.exposureId ∧ r.householdId = e.householdId

/-- The households a pass scores a row over are those its conversion can belong to. -/
def PlacedBy (index : GraphIndex) (r : AttributedConversion) : Prop :=
  ∀ h, h ∈ householdsOfRow r ↔ h ∈ candidateHouseholdsOf r.toConversion index

section specified
variable {index : GraphIndex} {exposures : List Exposure} {r : AttributedConversion}

private theorem mem_creditable_iff (hp : PlacedBy index r) {e : Exposure} :
    e ∈ creditable exposures r longWindow ↔ e ∈ exposures ∧ InReach index r.toConversion e := by
  rw [mem_creditable, mem_eligible, hp, InReach]
  constructor
  · intro ⟨⟨he, hwin⟩, hh⟩
    exact ⟨he, hh, hwin⟩
  · intro ⟨he, hh, hwin⟩
    exact ⟨⟨he, hwin⟩, hh⟩

/-- No exposure in reach: nothing is credited. -/
theorem specified_of_none (hp : PlacedBy index r) {s : AttributedConversion}
    (hconv : s.toConversion = r.toConversion) (hb : bestExposure exposures r longWindow = none)
    (hno : s.attributed = false) : Specified index exposures s := by
  have hempty : ¬ ∃ e ∈ exposures, InReach index s.toConversion e := by
    intro ⟨e, he⟩
    rw [hconv] at he
    have hin := (mem_creditable_iff hp).mpr he
    rw [List.argmax_eq_none.mp hb] at hin
    cases hin
  constructor
  · rw [hno]
    exact ⟨nofun, fun h => absurd h hempty⟩
  · intro hyes
    rw [hno] at hyes
    cases hyes

/-- Otherwise the credit is the best exposure of the row's households. -/
theorem specified_of_some (hp : PlacedBy index r) {s : AttributedConversion}
    (hconv : s.toConversion = r.toConversion) {w : Exposure} (hb : bestExposure exposures r longWindow = some w)
    (hatt : s.attributed = true) (hid : s.exposureId = some w.exposureId) (hhh : s.householdId = w.householdId) :
    Specified index exposures s := by
  have hmem (e : Exposure) : e ∈ creditable exposures r longWindow ↔
      e ∈ exposures ∧ InReach index s.toConversion e := by
    rw [hconv]
    exact mem_creditable_iff hp
  obtain ⟨hw, hreach⟩ := (hmem w).mp (List.argmax_mem hb)
  have hmax (f : Exposure) (hf : f ∈ exposures) (hr : InReach index s.toConversion f) :
      recency f ≤ recency w :=
    List.le_of_mem_argmax ((hmem f).mpr ⟨hf, hr⟩) hb
  exact ⟨⟨fun _ => ⟨w, hw, hreach⟩, fun _ => hatt⟩, fun _ => ⟨w, hw, hreach, hmax, hid, hhh⟩⟩

end specified

section engine
variable {allowedLateness : Int} {index : GraphIndex} {exposures : List Exposure}
  {conversions : List Conversion} {c : ResolvedConversion} {r : AttributedConversion}

/-- A hot row is placed by the graph: its persisted candidates are the graph's. -/
theorem placedBy_of_hotRow (hconv : Keyed Conversion.conversionId conversions) {seen : List Exposure}
    (hc : c ∈ resolveStream conversions index) (hr : HotRow (resolveStream conversions index) seen c r) :
    PlacedBy index r := by
  have hw := wellResolved_resolveStream index hconv
  obtain ⟨conv, hmem, hres⟩ := mem_resolveStream.mp hc
  obtain ⟨rfl, hin, hcount⟩ := mem_resolveOne hres
  intro h
  by_cases hone : c.candidateCount = 1
  · have hrow := (hotRow_certain_iff hone).mp hr
    obtain ⟨k, hk⟩ := List.length_eq_one_iff.mp (hcount.symm.trans hone)
    rw [hk, List.mem_singleton] at hin
    have hnot : ¬ r.candidateCount > 1 := by
      rw [hr.keeps, hone]
      omega
    rw [householdsOfRow, if_neg hnot, hr.keeps, hk, hin]
  · have hget := get?_candidateHouseholdsByConversion hw hc hone
    have hrow : HotRow (resolveStream conversions index) seen c _ :=
      ⟨_, attributeOne_ambiguous hone hget (hw.candidateSetMatchesCount hc hone)⟩
    have hcands : r.candidateHouseholds = candidateHouseholdsOf c.toConversion index := by
      rw [hr.unique hrow]
      exact householdsOf_resolveStream hconv hmem
    have hmany : r.candidateCount > 1 := by
      have := c.candidateCount_pos
      rw [hr.keeps]
      omega
    rw [householdsOfRow, if_pos hmany, hcands, hr.keeps]

/-- Strictly within the lateness no conversion is in a release tie. -/
theorem not_releaseTie (hlate : ∀ e ∈ exposures, e.ingestTime - e.eventTime < allowedLateness) :
    ¬ ReleaseTie allowedLateness exposures c := by
  intro ⟨_, _, w, hw, _, _, _, _, hwt, hwi, _⟩
  have := hlate w hw
  omega

/-- Over one household the best exposure is the leaf's credit. -/
theorem bestExposure_certain (hk : Keyed Exposure.exposureId exposures) (hr : r.toResolvedConversion = c)
    (hone : c.candidateCount = 1) (window : Int) :
    bestExposure exposures r window = creditedExposure (householdExposures exposures c) c window := by
  apply argmax_congr
  · exact keyed_recency (hk.mono fun e he => (mem_eligible.mp (mem_creditable.mp he).1).1)
  · intro e
    have hnot : ¬ r.candidateCount > 1 := by
      rw [hr, hone]
      omega
    rw [mem_creditable, mem_eligible, mem_eligible, mem_householdExposures, householdsOfRow, if_neg hnot,
      List.mem_singleton, hr]
    constructor
    · intro h
      obtain ⟨⟨he, hwin⟩, hh⟩ := h
      exact ⟨⟨he, hh⟩, hwin⟩
    · intro h
      obtain ⟨⟨he, hh⟩, hwin⟩ := h
      exact ⟨⟨he, hwin⟩, hh⟩

/-- A credit given hot is the best one over the long window. -/
theorem bestExposure_of_hot (hk : Keyed Exposure.exposureId exposures) {resolved : List ResolvedConversion}
    (hr : HotRow resolved (householdExposures exposures c) c r) (hatt : r.attributed = true) :
    ∃ w, bestExposure exposures r longWindow = some w ∧ r.exposureId = some w.exposureId ∧
      r.householdId = w.householdId := by
  have hone := hr.certain hatt
  obtain ⟨hid, hsome⟩ := hr.credit hone
  rw [hatt] at hsome
  obtain ⟨w, hw⟩ := Option.isSome_iff_exists.mp hsome.symm
  have hlong := creditedExposure_widen (keyed_householdExposures hk c) (show hotWindow ≤ longWindow by decide) hw
  have hhh := (mem_householdExposures.mp (mem_eligible.mp (creditedExposure_mem hw)).1).2
  refine ⟨w, ?_, by rw [hid, hw]; rfl, by rw [hr.keeps, hhh]⟩
  rw [bestExposure_certain hk hr.keeps hone, hlong]

/-- Where the pass takes a hot row, the specification holds. -/
theorem specified_settledRow (hk : Keyed Exposure.exposureId exposures)
    (hconv : Keyed Conversion.conversionId conversions) (hc : c ∈ resolveStream conversions index)
    (hr : HotRow (resolveStream conversions index) (householdExposures exposures c) c r)
    {reconciledAt : Int} (hver : r.processedAt ≤ toUtcMs reconciledAt) (hms : landedRow r = r) :
    Specified index exposures (settledRow exposures longWindow reconciledAt r) ∧
      (settledRow exposures longWindow reconciledAt r).toConversion = r.toConversion := by
  have hp := placedBy_of_hotRow hconv hc hr
  cases hatt : r.attributed with
  | true =>
    have hnot : ¬ HotUnattributed r := fun h => by
      rw [h.1] at hatt
      cases hatt
    obtain ⟨w, hb, hid, hhh⟩ := bestExposure_of_hot hk hr hatt
    rw [settledRow_of_not_hot hnot]
    exact ⟨specified_of_some hp rfl hb hatt hid hhh, rfl⟩
  | false =>
    have hhot : HotUnattributed r := ⟨hatt, hr.hotRecord.path⟩
    cases hb : bestExposure exposures r longWindow with
    | none =>
      rw [settledRow_of_none (correction_eq_none.mpr hb)]
      exact ⟨specified_of_none hp rfl hb hatt, rfl⟩
    | some w =>
      have hx : correction exposures longWindow reconciledAt r =
          some (correctedRow exposures longWindow reconciledAt r w (householdsOfRow_matches (bestExposure_mem hb).2)) :=
        correction_eq_some.mpr ⟨w, _, hb, rfl⟩
      have hto : (landedRow (correctedRow exposures longWindow reconciledAt r w
          (householdsOfRow_matches (bestExposure_mem hb).2))).toConversion = r.toConversion := by
        conv_rhs => rw [← hms]
        rfl
      rw [settledRow_eq_landed hhot hver hx]
      exact ⟨specified_of_some hp hto hb rfl rfl rfl, hto⟩

end engine

/-- A record whose instants are whole milliseconds lands unchanged. -/
theorem landedExposure_eq {e : Exposure} (ht : toUtcMs e.eventTime = e.eventTime)
    (hi : toUtcMs e.ingestTime = e.ingestTime) : landedExposure e = e := by
  rw [landedExposure, ht, hi]

private theorem landedRow_eq {r : AttributedConversion} (ht : toUtcMs r.eventTime = r.eventTime)
    (hi : toUtcMs r.ingestTime = r.ingestTime) (hp : toUtcMs r.processedAt = r.processedAt) :
    landedRow r = r := by
  rw [landedRow, ht, hi, hp]

section endToEnd
variable {allowedLateness : Int} {index : GraphIndex} {exposures : List Exposure}
  {conversions : List Conversion} {rows : List AttributedConversion} {r : AttributedConversion}
  (hk : Keyed Exposure.exposureId exposures) (hkc : Keyed Conversion.conversionId conversions)
  (hexpLate : ∀ e ∈ exposures, 0 ≤ e.ingestTime - e.eventTime ∧ e.ingestTime - e.eventTime < allowedLateness)
  (hconvLate : ∀ c ∈ conversions, 0 ≤ c.ingestTime - c.eventTime ∧ c.ingestTime - c.eventTime < allowedLateness)
  (hrows : runAttribution exposures (resolveStream conversions index) allowedLateness = .ok rows)
include hk hkc hexpLate hconvLate hrows

/-- Strictly within the lateness a row is decided over the whole household. -/
theorem hotRow_of_mem_rows (hr : r ∈ rows) : ∃ c ∈ resolveStream conversions index,
    HotRow (resolveStream conversions index) (householdExposures exposures c) c r := by
  have hw := wellResolved_resolveStream index hkc
  have hpunctual {e i : Int} (h : 0 ≤ i - e ∧ i - e < allowedLateness) : Punctual allowedLateness e i :=
    ⟨h.1, h.2.le⟩
  have hres : ∀ s ∈ resolveStream conversions index, Punctual allowedLateness s.eventTime s.ingestTime := by
    intro s hs
    obtain ⟨conv, hmem, hs⟩ := mem_resolveStream.mp hs
    rw [(mem_resolveOne hs).1]
    exact hpunctual (hconvLate conv hmem)
  obtain ⟨c, hc, hdec⟩ := ((runAttribution_hotRows hk hrows).mem r).mp hr
  have hparity := hotRow_parity_iff hw (fun e he => hpunctual (hexpLate e he)) hres hk hc
  exact ⟨c, ((mem_oneRowPerConversion hw).mp hc).1,
    (hparity.mpr (not_releaseTie fun e he => (hexpLate e he).2) r).mp hdec⟩

/-- The rows carry exactly the resolvable conversions. -/
theorem toConversion_mem_rows {conv : Conversion} : (∃ r ∈ rows, r.toConversion = conv) ↔
    conv ∈ conversions ∧ candidateHouseholdsOf conv index ≠ [] := by
  have hw := wellResolved_resolveStream index hkc
  constructor
  · intro ⟨r, hr, he⟩
    subst he
    obtain ⟨c, hc, hdec⟩ := hotRow_of_mem_rows hk hkc hexpLate hconvLate hrows hr
    obtain ⟨conv, hmem, hres⟩ := mem_resolveStream.mp hc
    obtain ⟨rfl, hin, _⟩ := mem_resolveOne hres
    rw [hdec.keeps]
    exact ⟨hmem, List.ne_nil_of_mem hin⟩
  · intro ⟨hmem, hne⟩
    obtain ⟨h, hh⟩ := List.exists_mem_of_ne_nil _ hne
    obtain ⟨x, hx, _⟩ := exists_mem_resolveOne hh
    have hxr := mem_resolveStream.mpr ⟨conv, hmem, hx⟩
    obtain ⟨c, hc, hid⟩ := exists_mem_oneRowPerConversion hxr
    have hcr := ((mem_oneRowPerConversion hw).mp hc).1
    obtain ⟨r, hdec⟩ := exists_hotRow hw hcr
      (visibleTo allowedLateness exposures (resolveStream conversions index) c)
    refine ⟨r, ((runAttribution_hotRows hk hrows).mem r).mpr ⟨c, hc, hdec⟩, ?_⟩
    obtain ⟨conv', hmem', hres⟩ := mem_resolveStream.mp hcr
    have hconv' := (mem_resolveOne hres).1
    rw [(mem_resolveOne hx).1.symm, hdec.keeps, hconv']
    apply hkc conv' hmem'
    · rw [(mem_resolveOne hx).1]
      exact hmem
    · rw [← hconv']
      exact hid

/-- On the millisecond grid rows land unchanged. -/
theorem landedRow_of_mem_rows (hms : ∀ c ∈ conversions,
    toUtcMs c.eventTime = c.eventTime ∧ toUtcMs c.ingestTime = c.ingestTime) (hr : r ∈ rows) :
    landedRow r = r := by
  obtain ⟨hmem, _⟩ := (toConversion_mem_rows hk hkc hexpLate hconvLate hrows).mp ⟨r, hr, rfl⟩
  obtain ⟨c, _, hdec⟩ := hotRow_of_mem_rows hk hkc hexpLate hconvLate hrows hr
  obtain ⟨ht, hi⟩ := hms _ hmem
  refine landedRow_eq ht hi ?_
  rw [hdec.hotRecord.processedAt, ← hdec.keeps]
  exact hi

/-- What a settled row says. -/
theorem specified_of_mem_rows (hms : ∀ c ∈ conversions,
    toUtcMs c.eventTime = c.eventTime ∧ toUtcMs c.ingestTime = c.ingestTime) (hr : r ∈ rows)
    {reconciledAt : Int} (hver : r.processedAt < reconciledAt) :
    Specified index exposures (settledRow exposures longWindow reconciledAt (landedRow r)) ∧
      (settledRow exposures longWindow reconciledAt (landedRow r)).toConversion = r.toConversion := by
  have hland := landedRow_of_mem_rows hk hkc hexpLate hconvLate hrows hms hr
  obtain ⟨c, hc, hdec⟩ := hotRow_of_mem_rows hk hkc hexpLate hconvLate hrows hr
  have hproc : toUtcMs r.processedAt = r.processedAt := congrArg AttributedConversion.processedAt hland
  rw [hland]
  exact specified_settledRow hk hkc hc hdec (hproc ▸ toUtcMs_mono hver.le) hland

end endToEnd

/-- Exposures on the millisecond grid are landed as they are. -/
theorem exposures_land_empty {exposures : List Exposure}
    (hms : ∀ e ∈ exposures, toUtcMs e.eventTime = e.eventTime ∧ toUtcMs e.ingestTime = e.ingestTime) :
    (Lake.empty.land exposures).exposures = exposures := by
  rw [Lake.land, Lake.empty, List.nil_append]
  exact (List.map_congr_left fun e he => landedExposure_eq (hms e he).1 (hms e he).2).trans (List.map_id _)

/-- Resolution, a hot run of lateness above every event's, and one pass over what they
landed: the lake then holds one row per resolvable conversion, and it is as specified. -/
theorem endToEnd_specified (bucketOf : String → Nat) (allowedLateness : Int) (index : GraphIndex)
    (exposures : List Exposure) (conversions : List Conversion)
    (hexp : (exposures.map Exposure.exposureId).Nodup)
    (hconv : (conversions.map Conversion.conversionId).Nodup)
    (hexpMs : ∀ e ∈ exposures, toUtcMs e.eventTime = e.eventTime ∧ toUtcMs e.ingestTime = e.ingestTime)
    (hconvMs : ∀ c ∈ conversions, toUtcMs c.eventTime = c.eventTime ∧ toUtcMs c.ingestTime = c.ingestTime)
    (hexpLate : ∀ e ∈ exposures, 0 ≤ e.ingestTime - e.eventTime ∧ e.ingestTime - e.eventTime < allowedLateness)
    (hconvLate : ∀ c ∈ conversions, 0 ≤ c.ingestTime - c.eventTime ∧ c.ingestTime - c.eventTime < allowedLateness) :
    ∃ rows, runAttribution exposures (resolveStream conversions index) allowedLateness = .ok rows ∧
      ∀ reconciledAt, (∀ r ∈ rows, r.processedAt < reconciledAt) →
        ∃ lake, ((Lake.empty.land exposures).landAttributed rows).fullPass bucketOf reconciledAt = .ok lake ∧
          ((readCurrent lake.attributed none).map fun r => r.toConversion).Perm
            (conversions.filter fun c => candidateHouseholdsOf c index ≠ []) ∧
          ∀ r ∈ readCurrent lake.attributed none, Specified index exposures r := by
  have hk : Keyed Exposure.exposureId exposures := keyed_of_nodup hexp
  have hkc : Keyed Conversion.conversionId conversions := keyed_of_nodup hconv
  obtain ⟨rows, hrows⟩ := runAttribution_ok (wellResolved_resolveStream index hkc) hk allowedLateness
  refine ⟨rows, hrows, fun reconciledAt hver => ?_⟩
  have hrun := (runAttribution_hotRows hk hrows).hotRun
  have hlanded := exposures_land_empty hexpMs
  have hkl : Keyed Exposure.exposureId ((Lake.empty.land exposures).landAttributed rows).exposures := by
    rw [Lake.landAttributed, hlanded]
    exact hk
  obtain ⟨cands, hc⟩ := hrun.exists_candidates
  have hsame : SameDay ((Lake.empty.land exposures).landAttributed rows).attributed := hrun.sameDay
  obtain ⟨lake, hpass, _, _, _, hset⟩ := fullPass_settles hsame hkl hc bucketOf reconciledAt
  have hset' (cid : String) : currentRow lake.attributed cid =
      (currentRow (rows.map landedRow) cid).map (settledRow exposures longWindow reconciledAt) := by
    rw [hset, Lake.landAttributed, hlanded]
    rfl
  have hspec {r : AttributedConversion} (hr : r ∈ rows) :=
    specified_of_mem_rows hk hkc hexpLate hconvLate hrows hconvMs hr (hver r hr)
  refine ⟨lake, hpass, ?_, fun s hs => ?_⟩
  · have hnodup : ((readCurrent lake.attributed none).map fun r => r.toConversion).Nodup :=
      .of_map Conversion.conversionId (by rw [List.map_map]; exact nodup_readCurrent _ _)
    rw [List.perm_ext_iff_of_nodup hnodup (hconv.of_map.filter _)]
    intro conv
    rw [List.mem_filter, decide_eq_true_eq, ← toConversion_mem_rows hk hkc hexpLate hconvLate hrows,
      List.mem_map]
    constructor
    · intro ⟨s, hs, he⟩
      obtain ⟨r, hr, rfl⟩ := (hrun.mem_readCurrent_settled hset').mp hs
      exact ⟨r, hr, (hspec hr).2.symm.trans he⟩
    · intro ⟨r, hr, he⟩
      exact ⟨_, (hrun.mem_readCurrent_settled hset').mpr ⟨r, hr, rfl⟩, (hspec hr).2.trans he⟩
  · obtain ⟨r, hr, rfl⟩ := (hrun.mem_readCurrent_settled hset').mp hs
    exact (hspec hr).1

/-- The times a pass computes for a conversion the hot run left unattributed: the midnight that
ends its day, and that of the day on which the long window starts. -/
def DeferredFits (eventTime : Int) : Prop :=
  InCalendar (dayOf eventTime * Time.day - longWindow) ∧ InCalendar (dayOf eventTime * Time.day + Time.day)

instance (t : Int) : Decidable (DeferredFits t) := inferInstanceAs (Decidable (_ ∧ _))

/-- The window of such a conversion then starts in the calendar. -/
theorem DeferredFits.leaf {t : Int} (h : DeferredFits t) : InCalendar (t - longWindow) := by
  unfold DeferredFits at h
  simp only [inCalendar_iff, dayOf, longWindow, Time.day, Time.hour, Time.minute, Time.second,
    Time.millisecond] at h ⊢
  omega

/-- A run whose unattributed rows all fit is passed over as over unbounded instants. -/
theorem fullPass_in_calendar {exposures : List Exposure} {rows : List AttributedConversion} (hrun : HotRun rows)
    (hfits : ∀ r ∈ rows, r.attributed = false → DeferredFits (landedRow r).eventTime) (bucketOf : String → Nat)
    (reconciledAt : Int) {lake : Lake} :
    Checked.fullPass bucketOf ((Lake.empty.land exposures).landAttributed rows) reconciledAt = .ok lake ↔
      ((Lake.empty.land exposures).landAttributed rows).fullPass bucketOf reconciledAt = .ok lake := by
  have hlog : ((Lake.empty.land exposures).landAttributed rows).attributed = rows.map landedRow := rfl
  obtain ⟨cands, hc⟩ := hrun.exists_candidates
  have hcand : ∀ r ∈ cands, DeferredFits r.eventTime := by
    intro r hr
    obtain ⟨hcur, hhot⟩ := (mem_lakeCandidates hc).mp hr
    obtain ⟨s, hs, _, rfl⟩ := hrun.currentRow_iff.mp hcur
    exact hfits s hs hhot.1
  have hdays : candidateDays (rows.map landedRow) = .ok (sortedSet (cands.map fun r => dayOf r.eventTime)) := by
    rw [candidateDays, hc]
    rfl
  refine Checked.fullPass_eq_ok_iff (hlog ▸ hdays) fun day hday => ?_
  obtain ⟨c, hc', rfl⟩ := List.mem_map.mp (mem_sortedSet.mp hday)
  refine ⟨_, hlog ▸ lakeCandidates_day hrun.sameDay hc _, (hcand c hc').2, fun _ _ => (hcand c hc').1, ?_⟩
  intro r hr
  exact (hcand r (List.mem_filter.mp hr).1).leaf

/-- Over the calendar, while the times the run and the pass compute stay in it. -/
theorem endToEnd_in_calendar (bucketOf : String → Nat) (allowedLateness : Int) (index : GraphIndex)
    (exposures : List Exposure) (conversions : List Conversion)
    (hexp : (exposures.map Exposure.exposureId).Nodup)
    (hconv : (conversions.map Conversion.conversionId).Nodup)
    (hexpMs : ∀ e ∈ exposures, toUtcMs e.eventTime = e.eventTime ∧ toUtcMs e.ingestTime = e.ingestTime)
    (hconvMs : ∀ c ∈ conversions, toUtcMs c.eventTime = c.eventTime ∧ toUtcMs c.ingestTime = c.ingestTime)
    (hexpLate : ∀ e ∈ exposures, 0 ≤ e.ingestTime - e.eventTime ∧ e.ingestTime - e.eventTime < allowedLateness)
    (hconvLate : ∀ c ∈ conversions, 0 ≤ c.ingestTime - c.eventTime ∧ c.ingestTime - c.eventTime < allowedLateness)
    (hfits : StreamsFit allowedLateness index exposures conversions) :
    ∃ rows, Checked.runAttribution exposures (resolveStream conversions index) allowedLateness = .ok rows ∧
      ∀ reconciledAt, (∀ r ∈ rows, r.processedAt < reconciledAt) →
        (∀ r ∈ rows, r.attributed = false → DeferredFits r.eventTime) →
        ∃ lake, Checked.fullPass bucketOf ((Lake.empty.land exposures).landAttributed rows) reconciledAt = .ok lake ∧
          ((readCurrent lake.attributed none).map fun r => r.toConversion).Perm
            (conversions.filter fun c => candidateHouseholdsOf c index ≠ []) ∧
          ∀ r ∈ readCurrent lake.attributed none, Specified index exposures r := by
  obtain ⟨rows, hrows, hpass⟩ := endToEnd_specified bucketOf allowedLateness index exposures conversions hexp hconv
    hexpMs hconvMs hexpLate hconvLate
  have hk : Keyed Exposure.exposureId exposures := keyed_of_nodup hexp
  have hkc : Keyed Conversion.conversionId conversions := keyed_of_nodup hconv
  refine ⟨rows, (Checked.runAttribution_agrees _ _ _ rows).mpr ⟨(runFits_iff hkc).mpr hfits, hrows⟩, ?_⟩
  intro reconciledAt hver hdeferred
  obtain ⟨lake, hlake, hspec⟩ := hpass reconciledAt hver
  refine ⟨lake, (fullPass_in_calendar (runAttribution_hotRows hk hrows).hotRun ?_ bucketOf reconciledAt).mpr hlake,
    hspec⟩
  intro r hr hno
  rw [landedRow_of_mem_rows hk hkc hexpLate hconvLate hrows hconvMs hr]
  exact hdeferred r hr hno

/-- On the last day of the calendar the run raises over an exposure. -/
theorem endToEnd_raises_at_the_calendar_end :
    ¬ ∀ (bucketOf : String → Nat) (allowedLateness : Int) (index : GraphIndex)
      (exposures : List Exposure) (conversions : List Conversion),
      (exposures.map Exposure.exposureId).Nodup → (conversions.map Conversion.conversionId).Nodup →
      (∀ e ∈ exposures, toUtcMs e.eventTime = e.eventTime ∧ toUtcMs e.ingestTime = e.ingestTime) →
      (∀ c ∈ conversions, toUtcMs c.eventTime = c.eventTime ∧ toUtcMs c.ingestTime = c.ingestTime) →
      (∀ e ∈ exposures, 0 ≤ e.ingestTime - e.eventTime ∧ e.ingestTime - e.eventTime < allowedLateness) →
      (∀ c ∈ conversions, 0 ≤ c.ingestTime - c.eventTime ∧ c.ingestTime - c.eventTime < allowedLateness) →
      ∃ rows, Checked.runAttribution exposures (resolveStream conversions index) allowedLateness = .ok rows ∧
        ∀ reconciledAt, (∀ r ∈ rows, r.processedAt < reconciledAt) →
          ∃ lake, Checked.fullPass bucketOf ((Lake.empty.land exposures).landAttributed rows) reconciledAt = .ok lake ∧
            ((readCurrent lake.attributed none).map fun r => r.toConversion).Perm
              (conversions.filter fun c => candidateHouseholdsOf c index ≠ []) ∧
            ∀ r ∈ readCurrent lake.attributed none, Specified index exposures r := by
  intro h
  let last := sampleExposure "e" ((endDay - 1) * Time.day) ((endDay - 1) * Time.day)
  obtain ⟨rows, hrows, _⟩ := h String.length (6 * Time.hour) sampleGraph [last] [] (by decide) (by decide) (by decide)
    (by decide) (by decide) (by decide)
  have hexpiry := (((Checked.runAttribution_agrees _ _ _ rows).mp hrows).1.exposures last List.mem_cons_self).2
  exact absurd hexpiry (by decide)

/-- A conversion eight days after the exposure of its household. -/
def missedConversion : ResolvedConversion :=
  resolved (sampleConversion "c" (8 * Time.day) (8 * Time.day)) "hh" .device false 1 Nat.one_pos

private theorem missedConversion_candidates :
    CandidateSetMatchesCount missedConversion.candidateCount missedConversion.householdId [] := by
  decide

def missedRow : AttributedConversion := decidedRow missedConversion none [] [] missedConversion_candidates

/-- Missed hot, it is recovered by the pass. -/
theorem endToEnd_in_calendar_sample : ∃ lake,
    Checked.runAttribution [sampleExposure "e1" 0 Time.second]
        (resolveStream [sampleConversion "c" (8 * Time.day) (8 * Time.day)] sampleGraph) (6 * Time.hour) =
      .ok [missedRow] ∧
    Checked.fullPass String.length ((Lake.empty.land [sampleExposure "e1" 0 Time.second]).landAttributed [missedRow])
      (9 * Time.day) = .ok lake ∧
    ((readCurrent lake.attributed none).map fun r => r.toConversion).Perm
      ([sampleConversion "c" (8 * Time.day) (8 * Time.day)].filter fun c =>
        candidateHouseholdsOf c sampleGraph ≠ []) ∧
    ∀ r ∈ readCurrent lake.attributed none, Specified sampleGraph [sampleExposure "e1" 0 Time.second] r := by
  obtain ⟨rows, hrows, hpass⟩ := endToEnd_in_calendar String.length (6 * Time.hour) sampleGraph
    [sampleExposure "e1" 0 Time.second] [sampleConversion "c" (8 * Time.day) (8 * Time.day)] (by decide) (by decide)
    (by decide) (by decide) (by decide) (by decide) ⟨by decide, by decide⟩
  have hrun : Checked.runAttribution [sampleExposure "e1" 0 Time.second]
      (resolveStream [sampleConversion "c" (8 * Time.day) (8 * Time.day)] sampleGraph) (6 * Time.hour) =
        .ok [missedRow] := by decide +kernel
  obtain rfl : rows = [missedRow] := Except.ok.inj (hrows.symm.trans hrun)
  obtain ⟨lake, hlake, hspec⟩ := hpass (9 * Time.day) (by decide) (by decide)
  exact ⟨lake, hrun, hlake, hspec⟩

end CtvAttribution
