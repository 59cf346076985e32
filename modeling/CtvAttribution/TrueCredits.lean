import CtvAttribution.DeviceGraph
import CtvAttribution.GeneratedStreams
import CtvAttribution.HotPathRows
import CtvAttribution.LogVersions

/-! Generated streams through the engine and the passes: a certain credit goes to the
household of the truth exposure, and a deferred conversion keeps it among its candidates. -/
namespace CtvAttribution
open Library Drawing

section graph
variable {households : List Household} {h : Household} {c : Conversion} {n : Nat}

/-- Among records of distinct households every one is the latest. -/
theorem mem_latestRecords_of_keyed (hk : Keyed Household.householdId households) (hmem : h ∈ households) :
    h ∈ latestRecords households := by
  rw [mem_latestRecords]
  have hne : households.filter (·.householdId = h.householdId) ≠ [] :=
    List.ne_nil_of_mem (List.mem_filter.mpr ⟨hmem, decide_eq_true rfl⟩)
  have hx := List.getLast?_eq_some_getLast hne
  obtain ⟨hxm, hid⟩ := List.mem_filter.mp (List.mem_of_getLast? hx)
  rw [hx, hk _ hxm h hmem (of_decide_eq_true hid)]

private theorem exists_number {numbers : List Nat} (hg : List.Forall₂ BuiltHousehold numbers households)
    (hmem : h ∈ households) :
    ∃ i, BuiltHousehold i h := by
  induction hg with
  | nil => cases hmem
  | cons hb _ ih =>
    rcases List.mem_cons.mp hmem with rfl | hmem
    · exact ⟨_, hb⟩
    · exact ih hmem

private theorem ids_of_built {numbers : List Nat} (hg : List.Forall₂ BuiltHousehold numbers households) :
    households.map Household.householdId = numbers.map householdIdOf := by
  induction hg with
  | nil => rfl
  | cons hb _ ih => rw [List.map_cons, List.map_cons, hb.householdId, ih]

/-- A listed device belongs to the one household its id tells. -/
theorem householdId_of_listsDevice (hg : List.Forall₂ BuiltHousehold (List.range n) households) {deviceId hid : String}
    (hlist : ListsDevice households deviceId hid) {i j : Nat} (hid' : deviceId = deviceIdOf i j) :
    hid = householdIdOf i := by
  obtain ⟨k, hk, rfl, hdev⟩ := hlist
  obtain ⟨d, hd, hdid⟩ := List.mem_map.mp hdev
  obtain ⟨i', hb⟩ := exists_number hg (mem_of_mem_latestRecords hk)
  obtain ⟨j', hj'⟩ := hb.devices d hd
  rw [hb.householdId, deviceIdOf_household (hj'.symm.trans (hdid.trans hid'))]

/-- The graph counts the household a conversion was fired in among its candidates. -/
theorem mem_candidateHouseholdsOf_of_firedIn (hg : List.Forall₂ BuiltHousehold (List.range n) households)
    (hmem : h ∈ households) (hfired : FiredIn h c) :
    h.householdId ∈ candidateHouseholdsOf c (GraphIndex.fromHouseholds households) := by
  have hkeyed : Keyed Household.householdId households :=
    keyed_of_numbered (fun _ _ => householdIdOf_injective) (ids_of_built hg)
  have hlatest := mem_latestRecords_of_keyed hkeyed hmem
  unfold candidateHouseholdsOf
  cases hdev : (GraphIndex.fromHouseholds households).deviceOf.get? c.deviceId with
  | some hid =>
    have hlists := listsDevice_of_deviceOf hdev
    rcases hfired.device with hown | ⟨k, hunknown⟩
    · obtain ⟨i, hb⟩ := exists_number hg hmem
      obtain ⟨d, hd, hdid⟩ := List.mem_map.mp hown
      obtain ⟨j, hj⟩ := hb.devices d hd
      rw [hb.householdId, householdId_of_listsDevice hg hlists (hdid.symm.trans hj)]
      exact List.mem_singleton_self _
    · obtain ⟨k', hk', _, hlisted⟩ := hlists
      obtain ⟨d, hd, hdid⟩ := List.mem_map.mp hlisted
      obtain ⟨i, hb⟩ := exists_number hg (mem_of_mem_latestRecords hk')
      obtain ⟨j, hj⟩ := hb.devices d hd
      exact absurd (hunknown.symm.trans (hdid.symm.trans hj)) unknownDeviceIdOf_ne
  | none =>
    change h.householdId ∈ ((GraphIndex.fromHouseholds households).ownersOf.get? c.ip).getD []
    rw [ownersOf_fromHouseholds, mem_ownersOfIp]
    exact ⟨h, hlatest, rfl, hfired.ip⟩

end graph

/-- What a row may say of a conversion whose cause was shown in a household. -/
structure CreditsTruth (householdId : String) (r : AttributedConversion) : Prop where
  certain : r.candidateCount = 1 → r.attributed = true → r.householdId = householdId
  kept : 1 < r.candidateCount → householdId ∈ r.candidateHouseholds
  deferred : 1 < r.candidateCount → r.path = .hot → r.attributed = false

section credits
variable {index : GraphIndex} {topics : Topics} {c : ResolvedConversion} {seen : List Exposure}
  {r : AttributedConversion} {householdId : String}

private theorem creditsTruth_of_mem (hmem : householdId ∈ householdsOfRow r)
    (hhot : r.path = .hot → r.attributed = true → r.candidateCount = 1) : CreditsTruth householdId r where
  certain hone _ := by
    have hnot : ¬ r.candidateCount > 1 := by omega
    rw [householdsOfRow, if_neg hnot, List.mem_singleton] at hmem
    exact hmem.symm
  kept hmany := by
    rwa [householdsOfRow, if_pos hmany] at hmem
  deferred hmany hpath := by
    cases hatt : r.attributed with
    | false => rfl
    | true =>
      have hone := hhot hpath hatt
      omega

/-- The rows of a lake whose messages count the household among their candidates. -/
theorem FromTopics.creditsTruth {lake : Lake} (h : FromTopics index topics lake) (hk : topics.Identified)
    {conv : Conversion} (hconv : conv ∈ topics.conversions) (htruth : householdId ∈ candidateHouseholdsOf conv index)
    (hr : r ∈ lake.attributed) (hid : r.conversionId = conv.conversionId) : CreditsTruth householdId r := by
  obtain ⟨conv', hconv', htraced⟩ := h.rows r hr
  have hsame := hk.conversions conv' hconv' conv hconv (htraced.conversionId.trans hid)
  rw [hsame] at htraced
  refine creditsTruth_of_mem ((htraced.households _).mpr htruth) fun hpath hatt => ?_
  obtain ⟨c, _, seen, r', _, hrow, rfl⟩ := h.decided r hr hpath
  have hone := hrow.certain hatt
  rw [← hrow.keeps] at hone
  exact hone

end credits

/-- For every profile and all draws: the engine decides the conversion of every truth link,
and its rows, hot or corrected by any passes over any drains, credit the truth. -/
theorem generated_creditsTruth (bucketOf : String → Nat) (dedup : Bool) (allowedLateness : Int) (profile : Profile)
    (draws rest : List Nat) (stream : GeneratedStream) (hgen : (generate profile).run draws = .ok (stream, rest)) :
    ∃ run, runEngine dedup allowedLateness (GraphIndex.fromHouseholds stream.graph) stream.exposures
        stream.conversions = .ok run ∧
      ∀ link ∈ stream.truthLinks, ∃ truth ∈ stream.exposures, truth.exposureId = link.truthExposureId ∧
        (∃ r ∈ run.rows, r.conversionId = link.conversionId) ∧
        (∀ r ∈ run.rows, r.conversionId = link.conversionId → CreditsTruth truth.householdId r) ∧
        ∀ σ, DrainRun bucketOf (GraphIndex.fromHouseholds stream.graph) .none ⟨stream.exposures, stream.conversions⟩ σ →
          ∀ r ∈ σ.lake.attributed, r.conversionId = link.conversionId → CreditsTruth truth.householdId r := by
  have hstream := yields_generate profile draws stream rest hgen
  obtain ⟨n, hgraph⟩ := hstream.graph
  have hk : Topics.Identified ⟨stream.exposures, stream.conversions⟩ := ⟨hstream.exposures, hstream.conversions⟩
  obtain ⟨run, hrun, hrows⟩ := exists_runEngine dedup allowedLateness (GraphIndex.fromHouseholds stream.graph)
    hstream.exposures hstream.conversions
  refine ⟨run, hrun, fun link hlink => ?_⟩
  obtain ⟨conv, hconv, truth, htruth, h, hmem, hcid, htid, hhh, hfired⟩ := hstream.links link hlink
  have hcandidate := mem_candidateHouseholdsOf_of_firedIn hgraph hmem hfired
  rw [hhh] at hcandidate
  have hlanded : FromTopics (GraphIndex.fromHouseholds stream.graph) ⟨stream.exposures, stream.conversions⟩
      ((Lake.empty.land run.exposures).landAttributed run.rows) :=
    FromTopics.landRun ⟨soundLake_empty, fun _ he => absurd he List.not_mem_nil, fun _ hy => absurd hy List.not_mem_nil,
      fun _ hy => absurd hy List.not_mem_nil⟩ hk hrun
  refine ⟨truth, htruth, htid, ?_, ?_, ?_⟩
  · obtain ⟨c, hc, hid⟩ := exists_placeholder_iff.mpr
      ⟨conv, hconv, hcid, candidateHouseholdsOf_ne_nil_iff.mp (List.ne_nil_of_mem hcandidate)⟩
    obtain ⟨r, hr⟩ := exists_hotRow (wellResolved_resolveStream _ hstream.conversions)
      ((mem_oneRowPerConversion (wellResolved_resolveStream _ hstream.conversions)).mp hc).1 _
    exact ⟨r, (hrows.mem r).mpr ⟨c, hc, hr⟩, by rw [← hid, ← hr.keeps]⟩
  · intro r hr hid
    have hrow : landedRow r ∈ ((Lake.empty.land run.exposures).landAttributed run.rows).attributed :=
      List.mem_append_right _ (List.mem_map_of_mem hr)
    have hcredits := hlanded.creditsTruth hk hconv hcandidate hrow (hid.trans hcid.symm)
    exact ⟨hcredits.certain, hcredits.kept, hcredits.deferred⟩
  · intro σ hσ r hr hid
    exact hσ.fromTopics.creditsTruth hk hconv hcandidate hr (hid.trans hcid.symm)

section sample

/-- Two households behind one address. -/
def sampleProfile : Profile where
  simStart := 0
  nCampaigns := 2
  spendRange := (1 / 100, 2)
  appIds := ["app"]
  genres := ["news"]
  graph := { nHouseholds := 2, devicesPerHousehold := (1, 2), ipsPerHousehold := (1, 1), sharedIpFraction := 1 / 2 }
  events := {
    nExposures := 2, eventsPerHour := 60, causedConversionRate := 1, organicConversions := 1
    conversionDelayMinutes := (1, 60), purchaseFraction := 1 / 2, revenueRange := (1, 10)
    late := { fraction := 0, minMinutes := 0, maxMinutes := 0 }, duplicateFraction := 1 / 2
    unknownDeviceFraction := 1 / 2, coViewMultiplier := .empty }

theorem generated_creditsTruth_sample : ∃ stream rest,
    (generate sampleProfile).run (List.replicate 80 0) = .ok (stream, rest) ∧ stream.truthLinks ≠ [] ∧
    ∃ run, runEngine true (6 * Time.hour) (GraphIndex.fromHouseholds stream.graph) stream.exposures
        stream.conversions = .ok run ∧
      ∀ link ∈ stream.truthLinks, ∃ truth ∈ stream.exposures, truth.exposureId = link.truthExposureId ∧
        (∃ r ∈ run.rows, r.conversionId = link.conversionId) ∧
        (∀ r ∈ run.rows, r.conversionId = link.conversionId → CreditsTruth truth.householdId r) ∧
        ∀ σ, DrainRun String.length (GraphIndex.fromHouseholds stream.graph) .none
            ⟨stream.exposures, stream.conversions⟩ σ →
          ∀ r ∈ σ.lake.attributed, r.conversionId = link.conversionId → CreditsTruth truth.householdId r := by
  have hcompletes : (((generate sampleProfile).run (List.replicate 80 0)).toOption.any fun p =>
      !p.1.truthLinks.isEmpty) = true := by
    decide +kernel
  cases hgen : (generate sampleProfile).run (List.replicate 80 0) with
  | error e =>
    rw [hgen] at hcompletes
    cases hcompletes
  | ok p =>
    rw [hgen] at hcompletes
    refine ⟨p.1, p.2, rfl, ?_, generated_creditsTruth String.length true (6 * Time.hour) sampleProfile _ p.2 p.1 hgen⟩
    intro hnil
    simp [Except.toOption, hnil] at hcompletes

end sample
end CtvAttribution
