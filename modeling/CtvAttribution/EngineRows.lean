import CtvAttribution.StreamingPass

/-! The rows of a hot run: one per conversion, each decided by the hot rule over the
exposures that conversion was attributed against. -/
namespace CtvAttribution
open Library WatermarkJoin

/-- The row the hot rule gives `c` over the exposures `seen`. -/
def HotRow (resolved : List ResolvedConversion) (seen : List Exposure) (c : ResolvedConversion)
    (r : AttributedConversion) : Prop :=
  ∃ t, attributeOne seen hotWindow (candidateHouseholdsByConversion resolved) c = .ok ⟨r, t⟩

/-- A hot run's rows, sorted by conversion: one for each placeholder. -/
structure HotRows (resolved : List ResolvedConversion) (seen : ResolvedConversion → List Exposure)
    (rows : List AttributedConversion) : Prop where
  sorted : rows.Pairwise fun r s => r.conversionId < s.conversionId
  mem : ∀ r, r ∈ rows ↔ ∃ c ∈ oneRowPerConversion resolved, HotRow resolved (seen c) c r

section hotRow
variable {resolved : List ResolvedConversion} {seen : List Exposure} {c : ResolvedConversion}
  {r s : AttributedConversion}

theorem HotRow.hotRecord (h : HotRow resolved seen c r) : HotRecord c r := by
  obtain ⟨_, h⟩ := h
  exact (hotRecord_of_attributeOne h).1

theorem HotRow.keeps (h : HotRow resolved seen c r) : r.toResolvedConversion = c := h.hotRecord.record

theorem HotRow.certain (h : HotRow resolved seen c r) (hr : r.attributed = true) : c.candidateCount = 1 := by
  obtain ⟨_, h⟩ := h
  exact (hotRecord_of_attributeOne h).2 hr

theorem HotRow.unique (h : HotRow resolved seen c r) (h' : HotRow resolved seen c s) : r = s := by
  obtain ⟨_, h⟩ := h
  obtain ⟨_, h'⟩ := h'
  rw [h] at h'
  cases h'
  rfl

/-- The hot rule answers every record of a well resolved stream. -/
theorem exists_hotRow (hw : WellResolved resolved) (hc : c ∈ resolved) (seen : List Exposure) :
    ∃ r, HotRow resolved seen c r := by
  rcases eq_or_ne c.candidateCount 1 with h1 | h1
  · exact ⟨_, _, (attributeOne_certain h1).trans (lastTouch_eq (by rw [CandidateSetMatchesCount, if_pos h1]))⟩
  · exact ⟨_, _, attributeOne_ambiguous h1 (get?_candidateHouseholdsByConversion hw hc h1)
      (hw.candidateSetMatchesCount hc h1)⟩

/-- The row of a certain conversion is the leaf's decision. -/
theorem hotRow_certain_iff (hone : c.candidateCount = 1) :
    HotRow resolved seen c r ↔ r = decidedRow c (creditedExposure seen c hotWindow)
      (assistsOf seen c hotWindow) [] (by rw [CandidateSetMatchesCount, if_pos hone]) := by
  have hset : CandidateSetMatchesCount c.candidateCount c.householdId [] := by
    rw [CandidateSetMatchesCount, if_pos hone]
  rw [HotRow, attributeOne_certain hone, lastTouch_eq hset]
  constructor
  · intro h
    obtain ⟨t, h⟩ := h
    exact (congrArg Candidate.row (Except.ok.inj h)).symm
  · intro h
    exact ⟨_, by rw [h]⟩

/-- A certain conversion's row credits the leaf's choice, and is attributed when there is one. -/
theorem HotRow.credit (h : HotRow resolved seen c r) (hone : c.candidateCount = 1) :
    r.exposureId = (creditedExposure seen c hotWindow).map Exposure.exposureId ∧
      r.attributed = (creditedExposure seen c hotWindow).isSome := by
  rw [(hotRow_certain_iff hone).mp h]
  exact ⟨rfl, rfl⟩

/-- The row of a shared-IP conversion ignores the exposures. -/
theorem hotRow_ambiguous_iff (hone : c.candidateCount ≠ 1) (seen' : List Exposure) :
    HotRow resolved seen c r ↔ HotRow resolved seen' c r := by
  have := c.candidateCount_pos
  simp only [HotRow, attributeOne, if_pos (show c.candidateCount > 1 by omega)]

/-- A shared-IP conversion is deferred with every household it spreads over. -/
theorem HotRow.deferred (h : HotRow resolved seen c r) (hw : WellResolved resolved) (hc : c ∈ resolved)
    (hone : c.candidateCount ≠ 1) : r = decidedRow c none [] (householdsOf resolved c.conversionId)
      (hw.candidateSetMatchesCount hc hone) :=
  h.unique ⟨_, attributeOne_ambiguous hone (get?_candidateHouseholdsByConversion hw hc hone) _⟩

/-- Dropping exposures goes unnoticed exactly when no eligible one is dropped: every
eligible exposure is credited or an assist. -/
theorem hotRow_iff_of_subset {some all : List Exposure} (hone : c.candidateCount = 1)
    (hk : Keyed Exposure.exposureId all) (hsub : ∀ e ∈ some, e ∈ all) :
    (∀ r, HotRow resolved some c r ↔ HotRow resolved all c r) ↔
      ∀ e ∈ eligible all c hotWindow, e ∈ some := by
  constructor
  · intro h e he
    have hrow := (hotRow_certain_iff hone).mp ((h _).mp ((hotRow_certain_iff hone).mpr rfl))
    have hcredit := congrArg AttributedConversion.exposureId hrow
    have hassist := congrArg AttributedConversion.assists hrow
    have htouched := touched_iff.mpr ⟨e, he, rfl⟩
    simp only [decidedRow] at hcredit hassist
    rw [← hcredit, ← hassist] at htouched
    obtain ⟨f, hf, hid⟩ := touched_iff.mp htouched
    have hfs := (mem_eligible.mp hf).1
    rwa [← hk f (hsub f hfs) e (mem_eligible.mp he).1 hid]
  · intro h r
    have hsame : lastTouch some c hotWindow [] = lastTouch all c hotWindow [] := by
      apply lastTouch_congr (hk.mono hsub)
      intro e
      constructor
      · intro he
        exact mem_eligible.mpr ⟨hsub e (mem_eligible.mp he).1, (mem_eligible.mp he).2⟩
      · intro he
        exact mem_eligible.mpr ⟨h e he, (mem_eligible.mp he).2⟩
    simp only [HotRow, attributeOne_certain hone, hsame]

/-- A row depends on the set of records and the set of eligible exposures only. -/
theorem hotRow_congr {m : List ResolvedConversion} {seen' : List Exposure} (hw : WellResolved resolved)
    (hm : ∀ x, x ∈ resolved ↔ x ∈ m) (hc : c ∈ resolved) (hk : Keyed Exposure.exposureId seen)
    (hseen : ∀ e, e ∈ seen ↔ e ∈ seen') : HotRow resolved seen c r ↔ HotRow m seen' c r := by
  rcases eq_or_ne c.candidateCount 1 with hone | hone
  · have hsame : lastTouch seen c hotWindow [] = lastTouch seen' c hotWindow [] := by
      apply lastTouch_congr hk
      intro e
      rw [mem_eligible, mem_eligible, hseen]
    simp only [HotRow, attributeOne_certain hone, hsame]
  · have hget : (candidateHouseholdsByConversion resolved).get? c.conversionId =
        (candidateHouseholdsByConversion m).get? c.conversionId := by
      rw [get?_candidateHouseholdsByConversion hw hc hone,
        get?_candidateHouseholdsByConversion (hw.congr hm) ((hm c).mp hc) hone, householdsOf_congr hm]
    rw [hotRow_ambiguous_iff hone seen']
    simp only [HotRow, attributeOne, candidatesOf, hget]

end hotRow

section hotRows
variable {resolved : List ResolvedConversion} {seen seen' : ResolvedConversion → List Exposure}
  {rows rows' : List AttributedConversion}

/-- Two runs agree when they decide every placeholder alike, and only then. -/
theorem HotRows.eq_iff (h : HotRows resolved seen rows) (h' : HotRows resolved seen' rows') :
    rows = rows' ↔ ∀ c ∈ oneRowPerConversion resolved, ∀ r,
      HotRow resolved (seen c) c r ↔ HotRow resolved (seen' c) c r := by
  constructor
  · intro he c hc r
    have mem : r ∈ rows ↔ r ∈ rows' := by rw [he]
    rw [h.mem, h'.mem] at mem
    constructor
    · intro hr
      obtain ⟨d, _, hd⟩ := mem.mp ⟨c, hc, hr⟩
      rwa [← hd.keeps, hr.keeps] at hd
    · intro hr
      obtain ⟨d, _, hd⟩ := mem.mpr ⟨c, hc, hr⟩
      rwa [← hd.keeps, hr.keeps] at hd
  · intro hall
    apply eq_of_strict_of_mem_iff _ h.sorted h'.sorted
    intro r
    rw [h.mem, h'.mem]
    exact exists_congr fun c => and_congr_right fun hc => hall c hc r

/-- Rows of two runs over the same sets are the same list. -/
theorem HotRows.eq_of_mem_iff {m : List ResolvedConversion} (h : HotRows resolved seen rows)
    (h' : HotRows m seen' rows') (hw : WellResolved resolved) (hm : ∀ x, x ∈ resolved ↔ x ∈ m)
    (hk : ∀ c, Keyed Exposure.exposureId (seen c))
    (hseen : ∀ c e, e ∈ seen c ↔ e ∈ seen' c) : rows = rows' := by
  apply eq_of_strict_of_mem_iff _ h.sorted h'.sorted
  intro r
  rw [h.mem, h'.mem]
  apply exists_congr
  intro c
  have hone : c ∈ oneRowPerConversion resolved ↔ c ∈ oneRowPerConversion m := by
    simp only [mem_oneRowPerConversion hw, mem_oneRowPerConversion (hw.congr hm), hm]
  rw [← hone]
  apply and_congr_right
  intro hc
  exact hotRow_congr hw hm ((mem_oneRowPerConversion hw).mp hc).1 (hk c) (hseen c)

end hotRows

section engine
variable {exposures : List Exposure} {resolved : List ResolvedConversion}

/-- All events of the engine before they are split by household. -/
def taggedEvents (exposures : List Exposure) (resolved : List ResolvedConversion) : List Event :=
  exposures.map .build ++ (oneRowPerConversion resolved).map .probe

def eventsOf (exposures : List Exposure) (resolved : List ResolvedConversion) (householdId : String) :
    List Event :=
  (taggedEvents exposures resolved).filter (Event.householdId · = householdId)

/-- The exposures the engine attributes `c` against. -/
def visibleTo (allowedLateness : Int) (exposures : List Exposure) (resolved : List ResolvedConversion)
    (c : ResolvedConversion) : List Exposure :=
  visible allowedLateness (eventsOf exposures resolved c.householdId) c

theorem build_mem_eventsOf {e : Exposure} {hid : String} :
    .build e ∈ eventsOf exposures resolved hid ↔ e ∈ exposures ∧ e.householdId = hid := by
  rw [eventsOf, List.mem_filter, decide_eq_true_eq]
  simp [taggedEvents, Event.householdId]

theorem probe_mem_eventsOf {c : ResolvedConversion} {hid : String} :
    .probe c ∈ eventsOf exposures resolved hid ↔ c ∈ oneRowPerConversion resolved ∧ c.householdId = hid := by
  rw [eventsOf, List.mem_filter, decide_eq_true_eq]
  simp [taggedEvents, Event.householdId]

/-- The (kind, id) tiebreak tells any two events apart. -/
theorem keyed_taggedEvents (hk : Keyed Exposure.exposureId exposures) :
    Keyed arrivalKey (taggedEvents exposures resolved) := by
  intro x hx y hy he
  obtain ⟨_, he⟩ := Prod.mk.inj (toLex.injective he)
  obtain ⟨hkind, hident⟩ := Prod.mk.inj (toLex.injective he)
  simp only [taggedEvents, List.mem_append, List.mem_map] at hx hy
  rcases hx with ⟨e, hx, rfl⟩ | ⟨c, hx, rfl⟩ <;> rcases hy with ⟨f, hy, rfl⟩ | ⟨d, hy, rfl⟩
  · rw [hk e hx f hy hident]
  · exact absurd hkind (by simp [Event.kind])
  · exact absurd hkind (by simp [Event.kind])
  · rw [keyed_of_nodup (nodup_conversionId_oneRowPerConversion resolved) c hx d hy hident]

private theorem probes_taggedEvents :
    Arrival.probes (taggedEvents exposures resolved) = oneRowPerConversion resolved := by
  have builds (l : List Exposure) : Arrival.probes (l.map .build : List Event) = [] := by
    induction l with
    | nil => rfl
    | cons e l ih => exact ih
  have probes (l : List ResolvedConversion) : Arrival.probes (l.map .probe : List Event) = l := by
    induction l with
    | nil => rfl
    | cons c l ih => exact congrArg (c :: ·) ih
  rw [taggedEvents, Arrival.probes_append, builds, probes, List.nil_append]

private theorem probes_eventsOf_sublist (hid : String) :
    (Arrival.probes (eventsOf exposures resolved hid)).Sublist (oneRowPerConversion resolved) := by
  have hsub : (eventsOf exposures resolved hid).Sublist (taggedEvents exposures resolved) :=
    List.filter_sublist
  have h := Arrival.probes_sublist hsub
  rwa [probes_taggedEvents] at h

private theorem householdStream_eventsOf (hk : Keyed Exposure.exposureId exposures) (hid : String) :
    HouseholdStream (eventsOf exposures resolved hid) where
  keyed := (keyed_taggedEvents hk).mono fun _ hx => (List.mem_filter.mp hx).1
  once :=
    (nodup_conversionId_oneRowPerConversion resolved).of_map.sublist (probes_eventsOf_sublist hid)

private theorem values_householdEvents : (householdEvents exposures resolved).values =
    (householdEvents exposures resolved).keys.map (eventsOf exposures resolved) :=
  OrderedDict.values_groupBy _ _

/-- The buckets split the conversions: no id shows up twice. -/
theorem nodup_conversionId_buckets : ((householdEvents exposures resolved).values.flatMap fun events =>
    (Arrival.probes events).map fun c => c.conversionId).Nodup := by
  have hperm : (householdEvents exposures resolved).values.flatten.Perm (taggedEvents exposures resolved) :=
    OrderedDict.flatten_values_groupBy_perm _ _
  have hids := (Arrival.probes_perm hperm).map fun c => c.conversionId
  rw [Arrival.probes_flatten, probes_taggedEvents, List.map_flatMap] at hids
  exact hids.nodup_iff.mpr (nodup_conversionId_oneRowPerConversion resolved)

private theorem exists_eventsOf_of_mem {events : List Event}
    (h : events ∈ (householdEvents exposures resolved).values) :
    ∃ hid, events = eventsOf exposures resolved hid := by
  rw [values_householdEvents] at h
  obtain ⟨hid, _, rfl⟩ := List.mem_map.mp h
  exact ⟨hid, rfl⟩

variable (exposures) in
theorem eventsOf_mem_values {c : ResolvedConversion} (hc : c ∈ oneRowPerConversion resolved) :
    eventsOf exposures resolved c.householdId ∈ (householdEvents exposures resolved).values := by
  rw [values_householdEvents]
  refine List.mem_map_of_mem ((OrderedDict.mem_keys_collect _ _ _ _).mpr ⟨.probe c, ?_, rfl⟩)
  exact List.mem_append_right _ (List.mem_map_of_mem hc)

private theorem keyed_builds_eventsOf (hk : Keyed Exposure.exposureId exposures) (hid : String) :
    Keyed Exposure.exposureId (Arrival.builds (eventsOf exposures resolved hid)) :=
  hk.mono fun _ he => (build_mem_eventsOf.mp (Arrival.mem_builds.mp he)).1

/-- The passes of all households release each conversion once. -/
theorem nodup_conversionId_results {allowedLateness : Int} {candidates : OrderedDict String (List String)}
    {results : List StreamResult} (h : (householdEvents exposures resolved).values.mapM
      (attributeHouseholdStreaming hotWindow allowedLateness candidates) = .ok results) :
    ((results.flatMap fun result => result.candidates.map Candidate.row).map fun r => r.conversionId).Nodup := by
  have hperm := flatMap_perm_of_mapM_eq_ok h fun _ _ _ hr => ids_attributeHouseholdStreaming hr
  simp only [List.map_flatMap, List.map_map]
  exact hperm.nodup_iff.mpr nodup_conversionId_buckets

/-- A run that does not raise has one row per conversion, whatever the topics hold. -/
theorem nodup_conversionId_runAttribution {allowedLateness : Int} {rows : List AttributedConversion}
    (h : runAttribution exposures resolved allowedLateness = .ok rows) :
    (rows.map fun r => r.conversionId).Nodup := by
  obtain ⟨results, hresults, h⟩ := bind_eq_ok_iff.mp h
  rw [← Except.ok.inj h]
  exact ((sortedBy_perm _ _).map _).nodup_iff.mpr (nodup_conversionId_results hresults)

/-- The engine's rows: each conversion is decided over the exposures visible to it. -/
theorem runAttribution_hotRows (hk : Keyed Exposure.exposureId exposures) {allowedLateness : Int}
    {rows : List AttributedConversion} (h : runAttribution exposures resolved allowedLateness = .ok rows) :
    HotRows resolved (visibleTo allowedLateness exposures resolved) rows := by
  obtain ⟨results, hresults, h⟩ := bind_eq_ok_iff.mp h
  have hresult (events : List Event) (hev : events ∈ (householdEvents exposures resolved).values)
      (result : StreamResult) (h : attributeHouseholdStreaming hotWindow allowedLateness
        (candidateHouseholdsByConversion resolved) events = .ok result) :
      HouseholdResult allowedLateness (candidateHouseholdsByConversion resolved) events result := by
    obtain ⟨hid, rfl⟩ := exists_eventsOf_of_mem hev
    exact attributeHouseholdStreaming_spec (householdStream_eventsOf hk hid)
      (keyed_builds_eventsOf hk hid) h
  have hids := nodup_conversionId_results hresults
  rw [← Except.ok.inj h]
  refine ⟨sortedBy_strict _ hids, ?_⟩
  intro r
  simp only [mem_sortedBy, List.mem_flatMap, List.mem_map, mem_of_mapM_eq_ok hresults]
  constructor
  · intro h
    obtain ⟨result, ⟨events, hev, h⟩, cand, hcand, rfl⟩ := h
    have hspec := hresult events hev result h
    obtain ⟨hid, rfl⟩ := exists_eventsOf_of_mem hev
    obtain ⟨c, hc, hdecide⟩ := (hspec.mem cand).mp hcand
    obtain ⟨hone, rfl⟩ := probe_mem_eventsOf.mp hc
    exact ⟨c, hone, _, hdecide⟩
  · intro h
    obtain ⟨c, hone, t, hdecide⟩ := h
    have hev := eventsOf_mem_values exposures hone
    obtain ⟨result, hin, h⟩ := exists_of_mapM_eq_ok hresults hev
    have hspec := hresult _ hev result h
    exact ⟨result, ⟨_, hev, h⟩, _,
      (hspec.mem _).mpr ⟨c, probe_mem_eventsOf.mpr ⟨hone, rfl⟩, hdecide⟩, rfl⟩

/-- The engine never raises on a well resolved stream. -/
theorem runAttribution_ok (hw : WellResolved resolved) (hk : Keyed Exposure.exposureId exposures)
    (allowedLateness : Int) : ∃ rows, runAttribution exposures resolved allowedLateness = .ok rows := by
  have hpass : ∀ events ∈ (householdEvents exposures resolved).values, ∃ result,
      attributeHouseholdStreaming hotWindow allowedLateness
        (candidateHouseholdsByConversion resolved) events = .ok result := by
    intro events hev
    obtain ⟨hid, rfl⟩ := exists_eventsOf_of_mem hev
    apply attributeHouseholdStreaming_ok (householdStream_eventsOf hk hid) (keyed_builds_eventsOf hk hid)
    intro c hc
    obtain ⟨r, t, h⟩ := exists_hotRow hw
      ((mem_oneRowPerConversion hw).mp (probe_mem_eventsOf.mp hc).1).1
      (visible allowedLateness (eventsOf exposures resolved hid) c)
    exact ⟨_, h⟩
  obtain ⟨results, hresults⟩ := exists_mapM_eq_ok hpass
  exact ⟨_, by rw [runAttribution, hresults]; rfl⟩

/-- The exposures of the household a conversion is placed in. -/
def householdExposures (exposures : List Exposure) (c : ResolvedConversion) : List Exposure :=
  exposures.filter (·.householdId = c.householdId)

theorem mem_householdExposures {c : ResolvedConversion} {e : Exposure} :
    e ∈ householdExposures exposures c ↔ e ∈ exposures ∧ e.householdId = c.householdId := by
  rw [householdExposures, List.mem_filter, decide_eq_true_eq]

theorem mem_visibleTo {allowedLateness : Int} {c : ResolvedConversion} {e : Exposure} :
    e ∈ visibleTo allowedLateness exposures resolved c ↔ e ∈ householdExposures exposures c ∧
      ¬ (hotJoin allowedLateness).Missed arrivalKey (eventsOf exposures resolved c.householdId) c e ∧
        ¬ (hotJoin allowedLateness).Evicted arrivalKey (eventsOf exposures resolved c.householdId) c e := by
  rw [visibleTo, mem_visible, build_mem_eventsOf, mem_householdExposures]

/-- The oracle as one loop over the placed conversions. -/
theorem attributeOracle_eq (exposures : List Exposure) (resolved : List ResolvedConversion) (window : Int) :
    attributeOracle exposures resolved window = (do
      let cands ← (OrderedDict.groupBy (fun r : ResolvedConversion => r.householdId)
        (oneRowPerConversion resolved)).values.flatten.mapM fun c =>
          attributeOne (householdExposures exposures c) window (candidateHouseholdsByConversion resolved) c
      return sortedBy (fun r => r.conversionId) (cands.map Candidate.row)) := by
  have hgroup (group : String × List ResolvedConversion)
      (hg : group ∈ (OrderedDict.groupBy (fun r : ResolvedConversion => r.householdId)
        (oneRowPerConversion resolved)).entries) :
      attributeHousehold (((OrderedDict.groupBy Exposure.householdId exposures).get? group.1).getD [])
        group.2 window (candidateHouseholdsByConversion resolved) =
      group.2.mapM fun c =>
        attributeOne (householdExposures exposures c) window (candidateHouseholdsByConversion resolved) c := by
    rw [OrderedDict.entries_groupBy] at hg
    obtain ⟨hid, _, rfl⟩ := List.mem_map.mp hg
    apply mapM_congr
    intro c hc
    have hid : c.householdId = hid := by simpa using (List.mem_filter.mp hc).2
    rw [OrderedDict.getD_groupBy, householdExposures, hid]
  simp only [attributeOracle, mapM_congr hgroup, mapM_flatten, OrderedDict.values, List.mapM_map,
    bind_assoc, pure_bind]
  rfl

/-- The oracle's rows: each conversion is decided over every exposure of its household. -/
theorem attributeOracle_hotRows (hw : WellResolved resolved) (exposures : List Exposure) :
    ∃ rows, attributeOracle exposures resolved hotWindow = .ok rows ∧
      HotRows resolved (householdExposures exposures) rows := by
  have hperm := OrderedDict.flatten_values_groupBy_perm (fun r : ResolvedConversion => r.householdId)
    (oneRowPerConversion resolved)
  obtain ⟨cands, hcands⟩ := exists_mapM_eq_ok fun c hc => by
    obtain ⟨r, t, h⟩ := exists_hotRow hw ((mem_oneRowPerConversion hw).mp (hperm.mem_iff.mp hc)).1
      (householdExposures exposures c)
    exact ⟨_, h⟩
  have hids : ((cands.map Candidate.row).map fun r => r.conversionId).Nodup := by
    rw [List.map_map, map_eq_of_mapM_eq_ok hcands fun c _ cand h => by
      rw [Function.comp_apply, attributeOne_keeps h]]
    exact (hperm.map _).nodup_iff.mpr (nodup_conversionId_oneRowPerConversion resolved)
  refine ⟨_, by rw [attributeOracle_eq, hcands]; rfl, sortedBy_strict _ hids, ?_⟩
  intro r
  simp only [mem_sortedBy, List.mem_map, mem_of_mapM_eq_ok hcands, hperm.mem_iff]
  constructor
  · intro h
    obtain ⟨cand, ⟨c, hc, h⟩, rfl⟩ := h
    exact ⟨c, hc, _, h⟩
  · intro h
    obtain ⟨c, hc, t, h⟩ := h
    exact ⟨_, ⟨c, hc, h⟩, rfl⟩

end engine
end CtvAttribution
