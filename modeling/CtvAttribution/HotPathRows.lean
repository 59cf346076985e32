import CtvAttribution.DeviceGraph
import CtvAttribution.OrderIndependence

/-! The hot path end to end: from the household log and the two topics to one well-formed
row per resolvable conversion, at any lateness. -/
namespace CtvAttribution
open Library

/-- `e` comes from the household of `r` and lies in its hot window. -/
def InHotWindow (r : AttributedConversion) (e : Exposure) : Prop :=
  e.householdId = r.householdId ∧ r.eventTime - hotWindow ≤ e.eventTime ∧ e.eventTime ≤ r.eventTime

/-- What a hot row promises of the household log and the exposures it was decided over. -/
structure WellFormedRow (households : List Household) (exposures : List Exposure)
    (r : AttributedConversion) : Prop where
  shared : 1 < r.candidateCount → r.attributed = false ∧ r.reason = some .ambiguousIp ∧
    r.candidateHouseholds = ownersOfIp households r.ip
  credited : r.attributed = true → ∃ e ∈ exposures, r.exposureId = some e.exposureId ∧ InHotWindow r e
  assistsSorted : r.assists.Pairwise (· < ·)
  assisted : ∀ id ∈ r.assists, r.exposureId ≠ some id ∧
    ∃ e ∈ exposures, e.exposureId = id ∧ InHotWindow r e
  reason : r.reason = none ↔ r.attributed = true
  certain : r.candidateHouseholds = [] ↔ r.candidateCount = 1

section leaf
variable {exposures : List Exposure} {conv : ResolvedConversion} {window : Int}

/-- The credited exposure never assists itself. -/
theorem credited_not_mem_assistsOf {id : String} (h : id ∈ assistsOf exposures conv window) :
    (creditedExposure exposures conv window).map Exposure.exposureId ≠ some id := by
  unfold assistsOf at h
  cases hc : creditedExposure exposures conv window with
  | none => simp
  | some w =>
    rw [hc] at h
    have hne := (List.mem_filter.mp (mem_sortedSet.mp h)).2
    intro he
    exact of_decide_eq_true hne (Option.some.inj he).symm

end leaf

section row
variable {households : List Household} {exposures : List Exposure} {resolved : List ResolvedConversion}
  {seen : List Exposure} {c : ResolvedConversion} {r : AttributedConversion}

private theorem HotRow.reason_iff (h : HotRow resolved seen c r) : r.reason = none ↔ r.attributed = true := by
  rw [h.hotRecord.reason]
  cases r.attributed <;> simp

/-- A certain row touches exposures it saw in its window only. -/
theorem HotRow.touched (h : HotRow resolved seen c r) (hone : c.candidateCount = 1) {id : String}
    (hid : r.exposureId = some id ∨ id ∈ r.assists) :
    ∃ e ∈ eligible seen c hotWindow, e.exposureId = id := by
  rw [(hotRow_certain_iff hone).mp h] at hid
  exact touched_iff.mp hid

section wellFormed
variable (h : HotRow resolved seen c r) (hseen : ∀ e ∈ seen, e ∈ exposures ∧ e.householdId = c.householdId)
include h hseen

private theorem HotRow.inHotWindow {e : Exposure} (he : e ∈ eligible seen c hotWindow) :
    e ∈ exposures ∧ InHotWindow r e := by
  have hkeep := h.keeps
  obtain ⟨hmem, hwin⟩ := mem_eligible.mp he
  rw [InHotWindow, show r.householdId = c.householdId by rw [← hkeep],
    show r.eventTime = c.eventTime by rw [← hkeep]]
  exact ⟨(hseen e hmem).1, (hseen e hmem).2, hwin⟩

private theorem HotRow.wellFormed_certain (hone : c.candidateCount = 1) : WellFormedRow households exposures r := by
  have hrow := (hotRow_certain_iff hone).mp h
  have hcount : r.candidateCount = c.candidateCount := by rw [← h.keeps]
  refine ⟨fun hmany => absurd hmany (by omega), ?_, ?_, ?_, h.reason_iff, r.candidateHouseholds_eq_nil_iff⟩
  · intro hyes
    obtain ⟨hid, hsome⟩ := h.credit hone
    rw [hyes, eq_comm, Option.isSome_iff_exists] at hsome
    obtain ⟨w, hw⟩ := hsome
    have hwin := h.inHotWindow hseen (creditedExposure_mem hw)
    rw [hw] at hid
    exact ⟨w, hwin.1, hid, hwin.2⟩
  · rw [hrow]
    exact assistsOf_strict
  · intro id hid
    obtain ⟨e, he, rfl⟩ := h.touched hone (Or.inr hid)
    refine ⟨?_, e, (h.inHotWindow hseen he).1, rfl, (h.inHotWindow hseen he).2⟩
    rw [hrow] at hid ⊢
    exact credited_not_mem_assistsOf hid

end wellFormed

private theorem HotRow.wellFormed_deferred (h : HotRow resolved seen c r) (hw : WellResolved resolved)
    (hc : c ∈ resolved)
    (hone : c.candidateCount ≠ 1)
    (howners : householdsOf resolved c.conversionId = ownersOfIp households c.ip) :
    WellFormedRow households exposures r := by
  have hrow := h.deferred hw hc hone
  have hpos := c.candidateCount_pos
  have hno : r.attributed = false := by rw [hrow]; rfl
  have hassists : r.assists = [] := by rw [hrow]; rfl
  refine ⟨fun _ => ⟨hno, ?_, ?_⟩, ?_, ?_, ?_, h.reason_iff, r.candidateHouseholds_eq_nil_iff⟩
  · rw [h.hotRecord.reason, hno, if_neg Bool.false_ne_true, if_pos (by omega)]
  · rw [hrow]
    exact howners
  · intro hyes
    rw [hno] at hyes
    cases hyes
  · rw [hassists]
    exact List.Pairwise.nil
  · intro id hid
    rw [hassists] at hid
    cases hid

/-- The row of a conversion is well formed when it saw exposures of its household and the
stream spreads it over the owners of its IP. -/
theorem HotRow.wellFormed (h : HotRow resolved seen c r) (hw : WellResolved resolved) (hc : c ∈ resolved)
    (hseen : ∀ e ∈ seen, e ∈ exposures ∧ e.householdId = c.householdId)
    (howners : 1 < c.candidateCount →
      householdsOf resolved c.conversionId = ownersOfIp households c.ip) :
    WellFormedRow households exposures r := by
  rcases eq_or_ne c.candidateCount 1 with hone | hone
  · exact h.wellFormed_certain hseen hone
  · have hpos := c.candidateCount_pos
    exact h.wellFormed_deferred hw hc hone (howners (by omega))

end row

section stream
variable {households : List Household} {conversions : List Conversion}

/-- The households over which a stream spreads a shared-IP conversion own its IP. -/
theorem householdsOf_resolveStream_shared (hconv : Keyed Conversion.conversionId conversions)
    {c : ResolvedConversion} (hc : c ∈ resolveStream conversions (GraphIndex.fromHouseholds households))
    (hmany : 1 < c.candidateCount) :
    householdsOf (resolveStream conversions (GraphIndex.fromHouseholds households)) c.conversionId =
      ownersOfIp households c.ip := by
  obtain ⟨conv, hmem, hr⟩ := mem_resolveStream.mp hc
  obtain ⟨hrec, _, hcount⟩ := mem_resolveOne hr
  rw [hcount] at hmany
  rw [hrec, householdsOf_resolveStream hconv hmem, candidateHouseholdsOf_eq_owners hmany]

/-- A placeholder stands for each conversion that resolves. -/
theorem exists_placeholder_iff {cid : String} :
    (∃ c ∈ oneRowPerConversion (resolveStream conversions (GraphIndex.fromHouseholds households)),
      c.conversionId = cid) ↔ ∃ conv ∈ conversions, conv.conversionId = cid ∧ Resolves households conv := by
  rw [← List.mem_map, map_conversionId_oneRowPerConversion, mem_firstSeen, List.mem_map]
  simp only [mem_resolveStream, ← candidateHouseholdsOf_ne_nil_iff]
  constructor
  · intro h
    obtain ⟨r, ⟨conv, hconv, hr⟩, rfl⟩ := h
    obtain ⟨hrec, hmem, _⟩ := mem_resolveOne hr
    exact ⟨conv, hconv, by rw [hrec], List.ne_nil_of_mem hmem⟩
  · intro h
    obtain ⟨conv, hconv, rfl, hne⟩ := h
    obtain ⟨hid, hmem⟩ := List.exists_mem_of_ne_nil _ hne
    obtain ⟨r, hr, _⟩ := exists_mem_resolveOne hmem
    exact ⟨r, ⟨conv, hconv, hr⟩, by rw [(mem_resolveOne hr).1]⟩

end stream

/-- The hot path answers every log and every pair of topics, with one well-formed row for
each conversion that resolves and none for the others. -/
theorem runEngine_wellFormed (dedup : Bool) (allowedLateness : Int) (households : List Household)
    (exposures : List Exposure) (conversions : List Conversion)
    (hexp : Keyed Exposure.exposureId exposures) (hconv : Keyed Conversion.conversionId conversions) :
    ∃ run, runEngine dedup allowedLateness (GraphIndex.fromHouseholds households) exposures conversions = .ok run ∧
      (run.rows.map fun r => r.conversionId).Nodup ∧
      (∀ cid, cid ∈ run.rows.map (fun r => r.conversionId) ↔
        ∃ conv ∈ conversions, conv.conversionId = cid ∧ Resolves households conv) ∧
      ∀ r ∈ run.rows, r.toConversion ∈ conversions ∧ WellFormedRow households exposures r := by
  have hw := wellResolved_resolveStream (GraphIndex.fromHouseholds households) hconv
  obtain ⟨run, hrun, hrows⟩ := exists_runEngine dedup allowedLateness (GraphIndex.fromHouseholds households)
    hexp hconv
  refine ⟨run, hrun, ?_, ?_, ?_⟩
  · rw [List.nodup_iff_pairwise_ne, List.pairwise_map]
    exact hrows.sorted.imp fun h => ne_of_lt h
  · intro cid
    rw [← exists_placeholder_iff, List.mem_map]
    constructor
    · intro h
      obtain ⟨r, hr, rfl⟩ := h
      obtain ⟨c, hc, hrow⟩ := (hrows.mem r).mp hr
      exact ⟨c, hc, by rw [← hrow.keeps]⟩
    · intro h
      obtain ⟨c, hc, rfl⟩ := h
      obtain ⟨r, hrow⟩ := exists_hotRow hw ((mem_oneRowPerConversion hw).mp hc).1
        (visibleTo allowedLateness exposures _ c)
      exact ⟨r, (hrows.mem r).mpr ⟨c, hc, hrow⟩, by rw [← hrow.keeps]⟩
  · intro r hr
    obtain ⟨c, hc, hrow⟩ := (hrows.mem r).mp hr
    have hmem := ((mem_oneRowPerConversion hw).mp hc).1
    constructor
    · obtain ⟨conv, hin, hres⟩ := mem_resolveStream.mp hmem
      rw [hrow.keeps, (mem_resolveOne hres).1]
      exact hin
    · apply hrow.wellFormed hw hmem
      · intro e he
        exact mem_householdExposures.mp (mem_visibleTo.mp he).1
      · exact householdsOf_resolveStream_shared hconv hmem

section sample

/-- Two households behind one IP; one of them was re-recorded. -/
def sharedIpLog : List Household :=
  [⟨"h2", [], ["10.0.0.1"]⟩, ⟨"h1", [], []⟩, ⟨"h1", [⟨"tv1", .tv⟩], ["10.0.0.1"]⟩]

/-- A conversion from an unknown device behind the shared IP. -/
def resentConversions : List Conversion := [sampleConversion "c" 2 9, sampleConversion "c" 2 9]

theorem runEngine_wellFormed_sample :
    ∃ run, runEngine true (-5) (GraphIndex.fromHouseholds sharedIpLog) [sampleExposure "e" 0 0]
        resentConversions = .ok run ∧
      (run.rows.map fun r => r.conversionId).Nodup ∧
      (∀ cid, cid ∈ run.rows.map (fun r => r.conversionId) ↔
        ∃ conv ∈ resentConversions, conv.conversionId = cid ∧ Resolves sharedIpLog conv) ∧
      ∀ r ∈ run.rows, r.toConversion ∈ resentConversions ∧
        WellFormedRow sharedIpLog [sampleExposure "e" 0 0] r :=
  runEngine_wellFormed true (-5) _ _ _ (by simp [Keyed]) (by simp [Keyed, resentConversions])

end sample
end CtvAttribution
