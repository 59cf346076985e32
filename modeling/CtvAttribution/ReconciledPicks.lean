import CtvAttribution.CheckedReconcile
import CtvAttribution.EngineParity

/-! What the matcher credits, told from its two inputs alone: one greatest exposure over all
households of a candidate, whatever the order in which records and exposures arrive. It raises
only over a window that starts outside the calendar. -/
namespace CtvAttribution
open Library

/-- `exposures_by_household.get(household_id, [])`. -/
def exposuresIn (exposuresByHousehold : OrderedDict String (List Exposure)) (h : String) : List Exposure :=
  (exposuresByHousehold.get? h).getD []

/-- Every household is mapped to exposures of its own, no two of them sharing an id. -/
structure OwnExposures (exposuresByHousehold : OrderedDict String (List Exposure)) : Prop where
  own : ∀ h, ∀ e ∈ exposuresIn exposuresByHousehold h, e.householdId = h
  keyed : Keyed Exposure.exposureId exposuresByHousehold.values.flatten

/-- An exposure the matcher may credit a candidate row to. -/
structure Touches (exposuresByHousehold : OrderedDict String (List Exposure)) (window : Int)
    (r : AttributedConversion) (e : Exposure) : Prop where
  household : e.householdId ∈ householdsOfRow r
  mapped : e ∈ exposuresIn exposuresByHousehold e.householdId
  afterStart : r.eventTime - window ≤ e.eventTime
  beforeEnd : e.eventTime ≤ r.eventTime

/-- `x` credits the candidate `r` to the exposure `e`. -/
structure CreditsTo (exposuresByHousehold : OrderedDict String (List Exposure))
    (window reconciledAt : Int) (r x : AttributedConversion) (e : Exposure) : Prop where
  touches : Touches exposuresByHousehold window r e
  greatest : ∀ e', Touches exposuresByHousehold window r e' → recency e' ≤ recency e
  conversion : x.toConversion = r.toConversion
  exposureId : x.exposureId = some e.exposureId
  householdId : x.householdId = e.householdId
  attributed : x.attributed = true
  path : x.path = .reconciled
  processedAt : x.processedAt = reconciledAt
  reason : x.reason = none
  candidateCount : x.candidateCount = r.candidateCount
  candidateHouseholds : x.candidateHouseholds = r.candidateHouseholds
  valid : CandidateSetMatchesCount x.candidateCount x.householdId x.candidateHouseholds

section own
variable {ebh ebh' : OrderedDict String (List Exposure)} {window reconciledAt : Int}
  {r x : AttributedConversion} (ho : OwnExposures ebh)
include ho

private theorem mem_flatten_values_iff {e : Exposure} :
    e ∈ ebh.values.flatten ↔ e ∈ exposuresIn ebh e.householdId := by
  rw [List.mem_flatten]
  constructor
  · intro h
    obtain ⟨es, hes, he⟩ := h
    obtain ⟨k, hk⟩ := OrderedDict.mem_values_iff.mp hes
    have hin : e ∈ exposuresIn ebh k := by
      rw [exposuresIn, hk]
      exact he
    rw [ho.own k e hin]
    exact hin
  · intro he
    unfold exposuresIn at he
    cases hk : ebh.get? e.householdId with
    | none =>
      rw [hk] at he
      cases he
    | some es =>
      rw [hk] at he
      exact ⟨es, OrderedDict.mem_values_iff.mpr ⟨_, hk⟩, he⟩

private theorem mem_ofHousehold_values {e : Exposure} {h : String} :
    e ∈ ofHousehold ebh.values.flatten h ↔ e ∈ exposuresIn ebh h := by
  rw [ofHousehold, List.mem_filter, mem_flatten_values_iff ho, decide_eq_true_eq]
  constructor
  · intro h
    obtain ⟨he, hh⟩ := h
    exact hh ▸ he
  · intro he
    have hh := ho.own h e he
    exact ⟨hh.symm ▸ he, hh⟩

/-- The creditable exposures of the whole map are those touching the row. -/
theorem touches_iff {e : Exposure} :
    Touches ebh window r e ↔ e ∈ creditable ebh.values.flatten r window := by
  rw [mem_creditable, mem_eligible, mem_flatten_values_iff ho]
  constructor
  · intro h
    exact ⟨⟨h.mapped, h.afterStart, h.beforeEnd⟩, h.household⟩
  · intro ⟨⟨hmapped, hstart, hend⟩, hh⟩
    exact ⟨hh, hmapped, hstart, hend⟩

/-- A map that only reorders the exposures of each household gathers the same ones. -/
theorem gathers_of_perm (hperm : ∀ h, (exposuresIn ebh' h).Perm (exposuresIn ebh h)) :
    Gathers ebh.values.flatten window r fun h => (ebh'.get? h).getD [] := by
  intro h _ e
  rw [mem_eligible, mem_eligible, mem_ofHousehold_values ho]
  exact and_congr_left fun _ => (hperm h).mem_iff

private theorem recoverable_iff :
    Recoverable ebh.values.flatten window r ↔ ∃ e, Touches ebh window r e := by
  constructor
  · intro ⟨e, he, hh, hstart, hend⟩
    exact ⟨e, hh, (mem_flatten_values_iff ho).mp he, hstart, hend⟩
  · intro ⟨e, h⟩
    exact ⟨e, (mem_flatten_values_iff ho).mpr h.mapped, h.household, h.afterStart, h.beforeEnd⟩

private theorem creditsTo_of_correction (h : correction ebh.values.flatten window reconciledAt r = some x) :
    ∃ e, CreditsTo ebh window reconciledAt r x e := by
  obtain ⟨w, _, hb, rfl⟩ := correction_eq_some.mp h
  refine ⟨w, ?_⟩
  exact {
    touches := (touches_iff ho).mpr (List.argmax_mem hb)
    greatest := fun e' he' => List.le_of_mem_argmax ((touches_iff ho).mp he') hb
    conversion := rfl
    exposureId := rfl
    householdId := rfl
    attributed := rfl
    path := rfl
    processedAt := rfl
    reason := rfl
    candidateCount := rfl
    candidateHouseholds := rfl
    valid := AttributedConversion.candidateSetMatchesCount _ }

end own

section corrections
variable {exposures : List Exposure} {rows : List AttributedConversion} {window reconciledAt : Int}

private theorem conversionId_of_correction {r x : AttributedConversion}
    (h : correction exposures window reconciledAt r = some x) : x.conversionId = r.conversionId :=
  congrArg Conversion.conversionId (correction_fields h).1

private theorem ids_corrections_sublist :
    ((rows.filterMap (correction exposures window reconciledAt)).map fun x => x.conversionId).Sublist
      (rows.map fun r => r.conversionId) := by
  induction rows with
  | nil => exact List.Sublist.refl _
  | cons r rows ih =>
    rw [List.filterMap_cons]
    cases hx : correction exposures window reconciledAt r with
    | none => exact ih.cons _
    | some x =>
      rw [List.map_cons, List.map_cons, conversionId_of_correction hx]
      exact ih.cons_cons _

/-- With one row a conversion, its correction is found under its id. -/
theorem exists_corrected_iff (hn : (rows.map fun r => r.conversionId).Nodup)
    {r : AttributedConversion} (hr : r ∈ rows) :
    (∃ x ∈ rows.filterMap (correction exposures window reconciledAt), x.conversionId = r.conversionId) ↔
      Recoverable exposures window r := by
  rw [← exists_correction_iff]
  constructor
  · intro ⟨x, hx, hid⟩
    obtain ⟨s, hs, hx⟩ := List.mem_filterMap.mp hx
    have hsr : s = r := keyed_of_nodup hn s hs r hr ((conversionId_of_correction hx).symm.trans hid)
    exact ⟨x, hsr ▸ hx⟩
  · intro ⟨x, hx⟩
    exact ⟨x, List.mem_filterMap.mpr ⟨r, hr, hx⟩, conversionId_of_correction hx⟩

end corrections

/-- Of candidates with distinct ids the matcher corrects exactly those touched by some
exposure, each to the most recent one over all of its households; no order of the
candidates, of their records or of the exposures matters. -/
theorem reconcile_picks {rows : List AttributedConversion}
    {exposuresByHousehold : OrderedDict String (List Exposure)} (window reconciledAt : Int)
    (hn : (rows.map fun r => r.conversionId).Nodup) (ho : OwnExposures exposuresByHousehold) :
    ∃ out, reconcile (expandCandidates rows) exposuresByHousehold window reconciledAt = .ok out ∧
      (out.map fun x => x.conversionId).Nodup ∧
      (∀ r ∈ rows, (∃ x ∈ out, x.conversionId = r.conversionId) ↔
        ∃ e, Touches exposuresByHousehold window r e) ∧
      (∀ x ∈ out, ∃ r ∈ rows, ∃ e, CreditsTo exposuresByHousehold window reconciledAt r x e) ∧
      ∀ rows' expanded' exposures', rows'.Perm rows → expanded'.Perm (expandCandidates rows') →
        (∀ h, (exposuresIn exposures' h).Perm (exposuresIn exposuresByHousehold h)) →
        ∃ out', reconcile expanded' exposures' window reconciledAt = .ok out' ∧ out'.Perm out := by
  refine ⟨_, reconcile_eq reconciledAt hn ho.keyed fun r _ => gathers_of_perm ho fun _ => .refl _,
    ids_corrections_sublist.nodup hn, ?_, ?_, ?_⟩
  · intro r hr
    rw [exists_corrected_iff hn hr, recoverable_iff ho]
  · intro x hx
    obtain ⟨r, hr, hx⟩ := List.mem_filterMap.mp hx
    exact ⟨r, hr, creditsTo_of_correction ho hx⟩
  · intro rows' expanded' exposures' hrows hexpanded hexposures
    have hperm : expanded'.Perm (expandCandidates rows) := by
      rw [expandCandidates_eq] at hexpanded ⊢
      exact hexpanded.trans (hrows.flatMap_right _)
    exact reconcile_perm reconciledAt hn hperm ho.keyed fun r _ => gathers_of_perm ho hexposures

/-- Over the calendar, while the window of every candidate starts in it. -/
theorem reconcile_picks_in_calendar {rows : List AttributedConversion}
    {exposuresByHousehold : OrderedDict String (List Exposure)} (window reconciledAt : Int)
    (hn : (rows.map fun r => r.conversionId).Nodup) (ho : OwnExposures exposuresByHousehold)
    (hstart : ∀ r ∈ rows, InCalendar (r.eventTime - window)) :
    ∃ out, Checked.reconcile (expandCandidates rows) exposuresByHousehold window reconciledAt = .ok out ∧
      (out.map fun x => x.conversionId).Nodup ∧
      (∀ r ∈ rows, (∃ x ∈ out, x.conversionId = r.conversionId) ↔
        ∃ e, Touches exposuresByHousehold window r e) ∧
      (∀ x ∈ out, ∃ r ∈ rows, ∃ e, CreditsTo exposuresByHousehold window reconciledAt r x e) ∧
      ∀ rows' expanded' exposures', rows'.Perm rows → expanded'.Perm (expandCandidates rows') →
        (∀ h, (exposuresIn exposures' h).Perm (exposuresIn exposuresByHousehold h)) →
        ∃ out', Checked.reconcile expanded' exposures' window reconciledAt = .ok out' ∧ out'.Perm out := by
  obtain ⟨out, hout, hids, hcorrects, hcredits, hperm⟩ := reconcile_picks window reconciledAt hn ho
  have hleaf {rows' : List AttributedConversion} (hrows : rows'.Perm rows) :
      ∀ c ∈ expandCandidates rows', InCalendar (c.eventTime - window) :=
    (Checked.forall_expandCandidates_iff (P := fun t => InCalendar (t - window))).mpr
      fun r hr => hstart r (hrows.mem_iff.mp hr)
  refine ⟨out, (Checked.reconcile_agrees _ _ out).mpr ⟨hleaf (.refl rows), hout⟩, hids, hcorrects, hcredits, ?_⟩
  intro rows' expanded' exposures' hrows hexpanded hexposures
  obtain ⟨out', hout', hsame⟩ := hperm rows' expanded' exposures' hrows hexpanded hexposures
  exact ⟨out', (Checked.reconcile_agrees _ _ out').mpr
    ⟨fun c hc => hleaf hrows c (hexpanded.mem_iff.mp hc), hout'⟩, hsame⟩

section sample

/-- Deferred between two households. -/
def sharedIpRow : AttributedConversion :=
  { sampleConversion "c-1" (10 * Time.day) (10 * Time.day) with
    householdId := "H1", resolution := .ip, ambiguous := true, candidateCount := 2, candidateCount_pos := Nat.two_pos
    exposureId := none, assists := [], attributed := false, path := .hot
    processedAt := 10 * Time.day, reason := some .ambiguousIp, candidateHouseholds := ["H1", "H2"] }

/-- The second household was exposed last. -/
def twoHouseholds : OrderedDict String (List Exposure) where
  entries := [("H1", [{ sampleExposure "e-1" (8 * Time.day) 0 with householdId := "H1" }]),
    ("H2", [{ sampleExposure "e-2" (9 * Time.day) 0 with householdId := "H2" }])]
  nodup := by decide

private theorem twoHouseholds_own : OwnExposures twoHouseholds where
  own h e he := by
    unfold exposuresIn at he
    cases hget : twoHouseholds.get? h with
    | none =>
      rw [hget] at he
      cases he
    | some es =>
      rw [hget] at he
      have hmem : ∀ entry ∈ twoHouseholds.entries, ∀ e ∈ entry.2, e.householdId = entry.1 := by decide
      exact hmem _ (OrderedDict.mem_entries.mpr hget) e he
  keyed := keyed_of_nodup (by decide)

/-- A window of a million days starts before year 1: the matcher raises. -/
theorem reconcile_raises_before_the_calendar :
    ¬ ∀ (rows : List AttributedConversion) (exposuresByHousehold : OrderedDict String (List Exposure))
      (window reconciledAt : Int), (rows.map fun r => r.conversionId).Nodup → OwnExposures exposuresByHousehold →
      (∀ r ∈ rows, r.attributed = false ∧ r.path = .hot) →
      ∃ out, Checked.reconcile (expandCandidates rows) exposuresByHousehold window reconciledAt = .ok out ∧
        (out.map fun x => x.conversionId).Nodup ∧
        (∀ r ∈ rows, (∃ x ∈ out, x.conversionId = r.conversionId) ↔
          ∃ e, Touches exposuresByHousehold window r e) ∧
        ∀ x ∈ out, ∃ r ∈ rows, ∃ e, CreditsTo exposuresByHousehold window reconciledAt r x e := by
  intro h
  obtain ⟨out, hout, _⟩ := h [sharedIpRow] twoHouseholds (1000000 * Time.day) (11 * Time.day) (by decide)
    twoHouseholds_own fun r hr => by
      rw [List.mem_singleton.mp hr]
      exact ⟨rfl, rfl⟩
  have hleaf := ((Checked.reconcile_agrees _ _ out).mp hout).1 (recordIn sharedIpRow "H1") (by decide)
  exact absurd hleaf (by decide)

theorem reconcile_picks_in_calendar_sample : ∃ out,
    Checked.reconcile (expandCandidates [sharedIpRow]) twoHouseholds longWindow (11 * Time.day) = .ok out ∧
      (out.map fun x => x.conversionId).Nodup ∧
      (∀ r ∈ [sharedIpRow], (∃ x ∈ out, x.conversionId = r.conversionId) ↔
        ∃ e, Touches twoHouseholds longWindow r e) ∧
      (∀ x ∈ out, ∃ r ∈ [sharedIpRow], ∃ e, CreditsTo twoHouseholds longWindow (11 * Time.day) r x e) ∧
      ∀ rows' expanded' exposures', rows'.Perm [sharedIpRow] →
        expanded'.Perm (expandCandidates rows') →
        (∀ h, (exposuresIn exposures' h).Perm (exposuresIn twoHouseholds h)) →
        ∃ out', Checked.reconcile expanded' exposures' longWindow (11 * Time.day) = .ok out' ∧ out'.Perm out :=
  reconcile_picks_in_calendar longWindow (11 * Time.day) (by decide) twoHouseholds_own fun r hr => by
    rw [List.mem_singleton.mp hr]
    decide

end sample
end CtvAttribution
