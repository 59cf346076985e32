import CtvAttribution.EngineParity
import CtvAttribution.Settlement

/-! The bucketed, day-partitioned reconcile against the single in-memory pass: however the
days are batched, each candidate is settled exactly once. -/
namespace CtvAttribution
open Library

/-- What passes over some days made of a log. -/
structure Settles (exposures : List Exposure) (window reconciledAt : Int) (days : List Int)
    (log log' : List AttributedConversion) : Prop where
  current : ∀ cid, currentRow log' cid = (currentRow log cid).map fun r =>
    if dayOf r.eventTime ∈ days then settledRow exposures window reconciledAt r else r
  sameDay : SameDay log'
  candidates : ∃ cands, lakeCandidates log' none = .ok cands

namespace Settles
variable {exposures : List Exposure} {window reconciledAt : Int} {days days' : List Int}
  {log log' log'' cands new : List AttributedConversion}

theorem refl (hs : SameDay log) (hc : lakeCandidates log none = .ok cands) :
    Settles exposures window reconciledAt [] log log where
  current cid := by simp
  sameDay := hs
  candidates := ⟨_, hc⟩

theorem land (hs : SameDay log) (hc : lakeCandidates log none = .ok cands)
    (hnew : Corrects exposures window reconciledAt cands days new) :
    Settles exposures window reconciledAt days log (log ++ new) where
  current := currentRow_land hc hnew
  sameDay := sameDay_land hc hnew hs
  candidates := ⟨_, lakeCandidates_land hc hnew⟩

/-- Settling twice settles once. -/
theorem trans (h : Settles exposures window reconciledAt days log log')
    (h' : Settles exposures window reconciledAt days' log' log'') :
    Settles exposures window reconciledAt (days ++ days') log log'' where
  current cid := by
    rw [h'.current, h.current, Option.map_map]
    congr 1
    funext r
    by_cases hd : dayOf r.eventTime ∈ days
    · have hmem : dayOf r.eventTime ∈ days ++ days' := List.mem_append_left _ hd
      simp only [Function.comp_apply, if_pos hd, if_pos hmem, settledRow_settledRow, ite_self]
    · have hmem : dayOf r.eventTime ∈ days ++ days' ↔ dayOf r.eventTime ∈ days' := by simp [hd]
      simp only [Function.comp_apply, if_neg hd, hmem]
  sameDay := h'.sameDay
  candidates := h'.candidates

/-- Once the days of all candidates were covered, every conversion is settled. -/
theorem current_of_covers (h : Settles exposures window reconciledAt days log log')
    (hc : lakeCandidates log none = .ok cands) (hcover : ∀ r ∈ cands, dayOf r.eventTime ∈ days) (cid : String) :
    currentRow log' cid = (currentRow log cid).map (settledRow exposures window reconciledAt) := by
  rw [h.current]
  cases hcur : currentRow log cid with
  | none => rfl
  | some r =>
    have hid := currentRow_conversionId hcur
    rw [Option.map_some, Option.map_some]
    by_cases hhot : HotUnattributed r
    · rw [if_pos (hcover r ((mem_lakeCandidates hc).mpr ⟨hid ▸ hcur, hhot⟩))]
    · rw [settledRow_of_not_hot hhot, ite_self]

end Settles

section pass
variable {lake : Lake} {cands : List AttributedConversion} (hs : SameDay lake.attributed)
  (hk : Keyed Exposure.exposureId lake.exposures) (hc : lakeCandidates lake.attributed none = .ok cands)
include hs hk hc

private theorem pass_settles (bucketOf : String → Nat) (days : List Int) (reconciledAt : Int) :
    ∃ lake', lake.pass bucketOf days reconciledAt = .ok lake' ∧ lake'.exposures = lake.exposures ∧
      Settles lake.exposures longWindow reconciledAt days lake.attributed lake'.attributed := by
  obtain ⟨rows, hrows, hnew⟩ := recoverDays_ok hs hk hc bucketOf days reconciledAt
  exact ⟨lake.landAttributed rows, by rw [Lake.pass, hrows]; rfl, rfl, Settles.land hs hc hnew⟩

/-- Passes over batches settle the days of all of them. -/
theorem passes_settle (bucketOf : String → Nat) (batches : List (List Int)) (reconciledAt : Int) :
    ∃ lake', lake.passes bucketOf batches reconciledAt = .ok lake' ∧ lake'.exposures = lake.exposures ∧
      Settles lake.exposures longWindow reconciledAt batches.flatten lake.attributed lake'.attributed := by
  induction batches generalizing lake cands with
  | nil => exact ⟨lake, rfl, rfl, Settles.refl hs hc⟩
  | cons days batches ih =>
    obtain ⟨mid, hmid, hexp, hset⟩ := pass_settles hs hk hc bucketOf days reconciledAt
    obtain ⟨cands', hc'⟩ := hset.candidates
    obtain ⟨lake', hlake', hexp', hset'⟩ := ih hset.sameDay (hexp ▸ hk) hc'
    refine ⟨lake', ?_, hexp'.trans hexp, hset.trans (hexp ▸ hset')⟩
    rw [Lake.passes, List.foldlM_cons, hmid]
    exact hlake'

/-- A full pass settles every conversion. -/
theorem fullPass_settles (bucketOf : String → Nat) (reconciledAt : Int) :
    ∃ lake', lake.fullPass bucketOf reconciledAt = .ok lake' ∧ lake'.exposures = lake.exposures ∧
      SameDay lake'.attributed ∧ (∃ cands', lakeCandidates lake'.attributed none = .ok cands') ∧
      ∀ cid, currentRow lake'.attributed cid =
        (currentRow lake.attributed cid).map (settledRow lake.exposures longWindow reconciledAt) := by
  have hdays : candidateDays lake.attributed = .ok (sortedSet (cands.map fun r => dayOf r.eventTime)) := by
    rw [candidateDays, hc]
    rfl
  obtain ⟨lake', hlake', hexp, hset⟩ := pass_settles hs hk hc bucketOf
    (sortedSet (cands.map fun r => dayOf r.eventTime)) reconciledAt
  refine ⟨lake', by rw [Lake.fullPass, hdays]; exact hlake', hexp, hset.sameDay, hset.candidates, ?_⟩
  exact hset.current_of_covers hc fun r hr => mem_sortedSet.mpr (List.mem_map_of_mem hr)

end pass

/-- The in-memory reference gathers every exposure of a household. -/
theorem gathers_groupBy (exposures : List Exposure) (window : Int) (r : AttributedConversion) :
    Gathers exposures window r fun h => ((OrderedDict.groupBy Exposure.householdId exposures).get? h).getD [] := by
  intro h _ e
  simp only [OrderedDict.getD_groupBy, ofHousehold]

section sample

/-- A deferred row of an address two households share. -/
def deferredRow (conversionId : String) (eventTime : Int) : AttributedConversion :=
  { conversionId, eventTime, ingestTime := eventTime + Time.second, deviceId := "phone", ip := "10.0.0.1"
    conversionType := .purchase, revenue := 5000, orderId := none, householdId := "hh1", resolution := .ip
    ambiguous := true, candidateCount := 2, exposureId := none, assists := [], attributed := false
    path := .hot, processedAt := eventTime + Time.second, reason := some .ambiguousIp
    candidateHouseholds := ["hh1", "hh2"] }

def sampleLake : Lake where
  exposures := [{ sampleExposure "e1" 0 Time.second with householdId := "hh1" },
    { sampleExposure "e2" Time.minute Time.hour with householdId := "hh2" }]
  attributed := [deferredRow "c1" Time.hour, deferredRow "c2" (Time.day + Time.hour)]

end sample
end CtvAttribution
