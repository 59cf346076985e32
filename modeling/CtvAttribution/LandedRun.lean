import CtvAttribution.BucketedReconcile

/-! A hot run in the lake: one hot row per conversion, and what passes make of it. -/
namespace CtvAttribution
open Library

/-- Rows of one hot run. -/
structure HotRun (rows : List AttributedConversion) : Prop where
  nodup : (rows.map fun r => r.conversionId).Nodup
  hot : ∀ r ∈ rows, r.path = .hot
  checked : ∀ r ∈ rows, checkCandidate r = .ok ()

private theorem checkCandidate_of_hotRecord {conv : ResolvedConversion} {r : AttributedConversion}
    (h : HotRecord conv r) : checkCandidate r = .ok () := by
  unfold checkCandidate
  rw [h.reason, h.record.symm]
  cases r.attributed <;> simp

theorem HotRows.hotRun {resolved : List ResolvedConversion} {seen : ResolvedConversion → List Exposure}
    {rows : List AttributedConversion} (h : HotRows resolved seen rows) : HotRun rows where
  nodup := by
    rw [List.nodup_iff_pairwise_ne, List.pairwise_map]
    exact h.sorted.imp fun h => ne_of_lt h
  hot r hr := by
    obtain ⟨c, _, hrow⟩ := (h.mem r).mp hr
    exact hrow.hotRecord.path
  checked r hr := by
    obtain ⟨c, _, hrow⟩ := (h.mem r).mp hr
    exact checkCandidate_of_hotRecord hrow.hotRecord

/-- Landing moves no row to another day. -/
theorem sameDay_landed {rows : List AttributedConversion} (hk : Keyed (fun r => r.conversionId) rows) :
    SameDay (rows.map landedRow) := by
  intro y hy z hz he
  obtain ⟨r, hr, rfl⟩ := List.mem_map.mp hy
  obtain ⟨s, hs, rfl⟩ := List.mem_map.mp hz
  rw [hk r hr s hs he]

section landed
variable {rows : List AttributedConversion} {r : AttributedConversion} (h : HotRun rows)
include h

theorem HotRun.keyed : Keyed (fun r => r.conversionId) rows := keyed_of_nodup h.nodup

/-- Each conversion's current row is the one landed for it. -/
theorem HotRun.currentRow_iff {cid : String} : currentRow (rows.map landedRow) cid = some r ↔
    ∃ s ∈ rows, s.conversionId = cid ∧ landedRow s = r := by
  constructor
  · intro hr
    obtain ⟨s, hs, he⟩ := List.mem_map.mp (currentRow_mem hr)
    refine ⟨s, hs, ?_, he⟩
    rw [← landedRow_conversionId, he]
    exact currentRow_conversionId hr
  · intro ⟨s, hs, hid, he⟩
    subst hid he
    rw [← landedRow_conversionId s]
    apply currentRow_of_unique (List.mem_map_of_mem hs)
    intro y hy hid
    obtain ⟨t, ht, rfl⟩ := List.mem_map.mp hy
    rw [h.keyed t ht s hs hid]

theorem HotRun.sameDay : SameDay (rows.map landedRow) := sameDay_landed h.keyed

theorem HotRun.exists_candidates : ∃ cands, lakeCandidates (rows.map landedRow) none = .ok cands := by
  refine ⟨_, lakeCandidates_eq_ok.mpr ⟨fun r hr => ?_, rfl⟩⟩
  have hcur := mem_readCurrent.mp (List.mem_filter.mp hr).1
  obtain ⟨s, hs, _, rfl⟩ := h.currentRow_iff.mp hcur
  exact h.checked s hs

/-- The current rows once every conversion was settled. -/
theorem HotRun.mem_readCurrent_settled {exposures : List Exposure} {window reconciledAt : Int}
    {log' : List AttributedConversion} (hset : ∀ cid, currentRow log' cid =
      (currentRow (rows.map landedRow) cid).map (settledRow exposures window reconciledAt)) :
    r ∈ readCurrent log' none ↔ ∃ s ∈ rows, settledRow exposures window reconciledAt (landedRow s) = r := by
  rw [mem_readCurrent, hset, Option.map_eq_some_iff]
  constructor
  · intro ⟨x, hx, he⟩
    obtain ⟨s, hs, _, rfl⟩ := h.currentRow_iff.mp hx
    exact ⟨s, hs, he⟩
  · intro ⟨s, hs, he⟩
    refine ⟨landedRow s, h.currentRow_iff.mpr ⟨s, hs, ?_, rfl⟩, he⟩
    rw [← he, (settledRow_toConversion _).1, landedRow_conversionId]

end landed

/-- A pass versioned above a candidate supersedes it. -/
theorem settledRow_eq_landed {exposures : List Exposure} {window reconciledAt : Int}
    {r x : AttributedConversion} (hhot : HotUnattributed r) (hver : r.processedAt ≤ toUtcMs reconciledAt)
    (hx : correction exposures window reconciledAt r = some x) :
    settledRow exposures window reconciledAt r = landedRow x := by
  have hlt : recordVersion r < recordVersion (landedRow x) := by
    obtain ⟨_, hpath, hat, _⟩ := correction_fields hx
    have hpath' : (landedRow x).path = .reconciled := hpath
    have hat' : (landedRow x).processedAt = toUtcMs reconciledAt := congrArg toUtcMs hat
    rw [recordVersion, recordVersion, hhot.2, hpath', hat', Prod.Lex.toLex_lt_toLex]
    rcases hver.lt_or_eq with hlt | he
    · exact Or.inl hlt
    · exact Or.inr ⟨he, hot_text_lt_reconciled⟩
  simp only [settledRow, hx]
  exact if_pos ⟨hhot, hlt⟩

section sample

/-- The start of a day of the calendar. -/
def sampleDay : Int := 20700 * Time.day

/-- A deferred conversion whose exposure came before it. -/
def sampleRun : EngineRun where
  exposures := [{ sampleExposure "e1" sampleDay (sampleDay + Time.hour) with householdId := "hh1" }]
  rows := [deferredRow "c1" (sampleDay + Time.minute)]
  resolved := 2
  suppressed := 0

end sample
end CtvAttribution
