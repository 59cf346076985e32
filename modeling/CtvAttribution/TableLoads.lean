import CtvAttribution.SoundStates

/-! The landed tables after a load: the days loaded read as the lake does, the others as
before. -/
namespace CtvAttribution
open Library

namespace Serving
variable (s : Serving)

/-- The row of attributed_conversions FINAL of one conversion. -/
def servedRow (cid : String) : Option AttributedConversion :=
  finalRow (fun r => r.conversionId) (fun r => r.processedAt) s.attributedConversions cid

/-- The row of exposures_landed FINAL of one sort key. -/
def servedExposure (key : String ×ₗ Int ×ₗ String) : Option Exposure :=
  finalRow exposureKey (fun _ => ()) s.exposuresLanded key

variable {s}

theorem mem_attributedFinal {r : AttributedConversion} :
    r ∈ s.attributedFinal ↔ s.servedRow r.conversionId = some r := mem_finalRows

theorem mem_exposuresFinal {e : Exposure} : e ∈ s.exposuresFinal ↔ s.servedExposure (exposureKey e) = some e :=
  mem_finalRows

variable (s) in
theorem nodup_exposuresFinal : s.exposuresFinal.Nodup :=
  .of_map exposureKey (nodup_key_finalRows _)

variable (s) in
theorem nodup_attributedFinal : s.attributedFinal.Nodup :=
  .of_map (fun r : AttributedConversion => r.conversionId) (nodup_key_finalRows _)

variable (s) in
/-- With unique exposures nothing landed is replaced by another record. -/
theorem mem_exposuresFinal_of_keyed {lake : Lake} (hk : Keyed Exposure.exposureId lake.exposures)
    (hs : ∀ e ∈ s.exposuresLanded, e ∈ lake.exposures) {e : Exposure} :
    e ∈ s.exposuresFinal ↔ e ∈ s.exposuresLanded := by
  rw [mem_exposuresFinal]
  constructor
  · intro he
    exact (finalRow_eq_some he).1
  · intro he
    apply finalRow_of_unique he
    intro x hx hkey
    have hid : x.exposureId = e.exposureId := congrArg (fun k => (ofLex (ofLex k).2).2) hkey
    exact hk x (hs x hx) e (hs e he) hid

theorem servedRow_eq_some {cid : String} {r : AttributedConversion} (h : s.servedRow cid = some r) :
    r ∈ s.attributedConversions ∧ r.conversionId = cid :=
  ⟨(finalRow_eq_some h).1, (finalRow_eq_some h).2.1⟩

@[simp] theorem exposuresLanded_afterRefresh : s.afterRefresh.exposuresLanded = s.exposuresLanded := by
  unfold afterRefresh
  split <;> rfl

@[simp] theorem attributedConversions_afterRefresh :
    s.afterRefresh.attributedConversions = s.attributedConversions := by
  unfold afterRefresh
  split <;> rfl

end Serving

/-- The served rows are those the lake reads when each conversion's are. -/
theorem attributedFinal_eq_iff {lake : Lake} {s : Serving} (hs : ServedFrom lake s) :
    (∀ r, r ∈ s.attributedFinal ↔ r ∈ readCurrent lake.attributed none) ↔
      ∀ r ∈ readCurrent lake.attributed none, s.servedRow r.conversionId = some r := by
  simp only [Serving.mem_attributedFinal, mem_readCurrent]
  constructor
  · exact fun h r hr => (h r).mpr hr
  · intro h r
    refine ⟨fun hr => ?_, h r⟩
    obtain ⟨c, hc⟩ := exists_currentRow (hs.rows r (Serving.servedRow_eq_some hr).1)
    have hid := currentRow_conversionId hc
    have hserved := h c (hid ▸ hc)
    rw [hid, hr] at hserved
    rw [hc, ← hserved]

/-- What a load of some days inserts into exposures_landed. -/
def loadedExposures (lake : Lake) (days : List Int) : List Exposure :=
  (sortedSet days).flatMap fun d => readExposuresForDays lake.exposures [d]

/-- What a load of some days inserts into attributed_conversions. -/
def loadedRows (lake : Lake) (days : List Int) : List AttributedConversion :=
  (sortedSet days).flatMap fun d => readCurrent lake.attributed (some [d])

section load
variable {lake : Lake} {s : Serving} {days : List Int}

theorem exposuresLanded_afterDays : (s.afterDays lake days).exposuresLanded =
    s.exposuresLanded ++ days.flatMap fun d => readExposuresForDays lake.exposures [d] := by
  induction days generalizing s with
  | nil => simp [Serving.afterDays]
  | cons d days ih =>
    have hday : (s.afterDay lake d).exposuresLanded =
        s.exposuresLanded ++ readExposuresForDays lake.exposures [d] := rfl
    rw [Serving.afterDays, List.foldl_cons, ← Serving.afterDays, ih, hday, List.flatMap_cons, List.append_assoc]

theorem attributedConversions_afterDays : (s.afterDays lake days).attributedConversions =
    s.attributedConversions ++ days.flatMap fun d => readCurrent lake.attributed (some [d]) := by
  induction days generalizing s with
  | nil => simp [Serving.afterDays]
  | cons d days ih =>
    have hday : (s.afterDay lake d).attributedConversions =
        s.attributedConversions ++ readCurrent lake.attributed (some [d]) := rfl
    rw [Serving.afterDays, List.foldl_cons, ← Serving.afterDays, ih, hday, List.flatMap_cons, List.append_assoc]

theorem exposuresLanded_afterLoad :
    (s.afterLoad lake days).exposuresLanded = s.exposuresLanded ++ loadedExposures lake days := by
  unfold Serving.afterLoad
  split
  · rename_i h
    simp [h, loadedExposures]
  · rw [Serving.exposuresLanded_afterRefresh, exposuresLanded_afterDays]
    rfl

theorem attributedConversions_afterLoad :
    (s.afterLoad lake days).attributedConversions = s.attributedConversions ++ loadedRows lake days := by
  unfold Serving.afterLoad
  split
  · rename_i h
    simp [h, loadedRows]
  · rw [Serving.attributedConversions_afterRefresh, attributedConversions_afterDays]
    rfl

theorem mem_loadedExposures {e : Exposure} :
    e ∈ loadedExposures lake days ↔ e ∈ lake.exposures ∧ dayOf e.eventTime ∈ days := by
  simp only [loadedExposures, List.mem_flatMap, mem_sortedSet, readExposuresForDays, mem_sortedBy, mem_firstSeen,
    List.mem_filter, dayRangesPredicate_iff, List.mem_singleton]
  constructor
  · intro h
    obtain ⟨d, hd, he, h⟩ := h
    exact ⟨he, h ▸ hd⟩
  · intro h
    obtain ⟨he, hd⟩ := h
    exact ⟨_, hd, he, rfl⟩

variable (hs : SameDay lake.attributed)
include hs

theorem mem_loadedRows {r : AttributedConversion} : r ∈ loadedRows lake days ↔
    currentRow lake.attributed r.conversionId = some r ∧ dayOf r.eventTime ∈ days := by
  simp only [loadedRows, List.mem_flatMap, mem_sortedSet, mem_readCurrent_days hs, List.mem_singleton]
  constructor
  · intro h
    obtain ⟨d, hd, hcur, h⟩ := h
    exact ⟨hcur, h ▸ hd⟩
  · intro h
    obtain ⟨hcur, hd⟩ := h
    exact ⟨_, hd, hcur, rfl⟩

variable {r : AttributedConversion} {cid : String} (hr : currentRow lake.attributed cid = some r)
include hr

/-- A conversion whose day is loaded is served as the lake reads it. -/
theorem servedRow_of_loaded (hserved : ServedFrom lake s) (hd : dayOf r.eventTime ∈ days) :
    (s.afterLoad lake days).servedRow cid = some r := by
  have hid : r.conversionId = cid := currentRow_conversionId hr
  rw [Serving.servedRow, attributedConversions_afterLoad]
  apply finalRow_append_of_le
  · have hmem : r ∈ loadedRows lake days := (mem_loadedRows hs).mpr ⟨hid ▸ hr, hd⟩
    rw [← hid]
    apply finalRow_of_unique hmem
    intro x hx he
    have hcur := ((mem_loadedRows hs).mp hx).1
    rw [he, hid, hr] at hcur
    exact (Option.some.inj hcur).symm
  · intro x hx he
    have hle := currentRow_max hr (hserved.rows x hx) he
    exact ((Prod.Lex.toLex_le_toLex.mp hle).elim le_of_lt fun h => h.1.le)

/-- The others stay as they were served. -/
theorem servedRow_of_not_loaded (hd : dayOf r.eventTime ∉ days) :
    (s.afterLoad lake days).servedRow cid = s.servedRow cid := by
  rw [Serving.servedRow, attributedConversions_afterLoad]
  apply finalRow_append_of_not_mem
  intro x hx he
  obtain ⟨hcur, hday⟩ := (mem_loadedRows hs).mp hx
  rw [he, hr] at hcur
  cases hcur
  exact hd hday

end load
end CtvAttribution
