import CtvAttribution.Attribution
import CtvAttribution.Library.Fallible

/-! The last-touch leaf in closed form. Its row depends on the exposures only through
the set of eligible ones. -/
namespace CtvAttribution
open Library

variable {exposures l m : List Exposure} {conv : ResolvedConversion} {window : Int}

theorem mem_eligible {e : Exposure} : e ∈ eligible exposures conv window ↔
    e ∈ exposures ∧ conv.eventTime - window ≤ e.eventTime ∧ e.eventTime ≤ conv.eventTime := by
  simp [eligible]

theorem keyed_recency (h : Keyed Exposure.exposureId l) : Keyed recency l :=
  h.of_determines fun x y he => by
    have := toLex.injective he
    exact (Prod.mk.inj this).2

/-- The exposure the leaf credits. -/
def creditedExposure (exposures : List Exposure) (conv : ResolvedConversion) (window : Int) :
    Option Exposure :=
  (eligible exposures conv window).argmax recency

def assistsOf (exposures : List Exposure) (conv : ResolvedConversion) (window : Int) : List String :=
  match creditedExposure exposures conv window with
  | none => []
  | some winner =>
    sortedSet (((eligible exposures conv window).map Exposure.exposureId).filter (· ≠ winner.exposureId))

/-- The row of a decision whose candidate set matches its count. -/
def decidedRow (conv : ResolvedConversion) (credited : Option Exposure) (assists hhs : List String)
    (h : CandidateSetMatchesCount conv.candidateCount conv.householdId hhs) : AttributedConversion :=
  { conv with
    exposureId := credited.map Exposure.exposureId, assists, attributed := credited.isSome
    path := .hot, processedAt := conv.ingestTime
    reason := if credited.isSome then none
      else some (if conv.candidateCount > 1 then .ambiguousIp else .stateMiss)
    candidateHouseholds := hhs, candidateSetMatchesCount := h }

theorem attributed_eq (credited : Option Exposure) (assists : List String) {hhs : List String}
    (h : CandidateSetMatchesCount conv.candidateCount conv.householdId hhs) :
    attributed conv (credited.map Exposure.exposureId) assists credited.isSome hhs =
      .ok (decidedRow conv credited assists hhs h) := by
  cases credited <;> simp [attributed, AttributedConversion.validate, h, decidedRow]

/-- A row is built only over a candidate set that matches its count. -/
theorem matches_of_attributed {exposureId : Option String} {assists hhs : List String} {isAttributed : Bool}
    {r : AttributedConversion} (h : attributed conv exposureId assists isAttributed hhs = .ok r) :
    CandidateSetMatchesCount conv.candidateCount conv.householdId hhs := by
  by_contra hset
  unfold attributed AttributedConversion.validate at h
  dsimp only at h
  rw [dif_neg hset] at h
  split at h
  · cases h
  · split at h <;> cases h

/-- The leaf as one decision. -/
theorem lastTouch_decision (hhs : List String) : lastTouch exposures conv window hhs = (do
    let credited := creditedExposure exposures conv window
    return ⟨← attributed conv (credited.map Exposure.exposureId) (assistsOf exposures conv window)
      credited.isSome hhs, credited.map Exposure.eventTime⟩) := by
  unfold lastTouch assistsOf creditedExposure
  dsimp only
  cases (eligible exposures conv window).argmax recency <;> rfl

theorem lastTouch_eq {hhs : List String}
    (h : CandidateSetMatchesCount conv.candidateCount conv.householdId hhs) :
    lastTouch exposures conv window hhs = .ok
      ⟨decidedRow conv (creditedExposure exposures conv window) (assistsOf exposures conv window) hhs h,
        (creditedExposure exposures conv window).map Exposure.eventTime⟩ := by
  simp only [lastTouch_decision, attributed_eq _ _ h]
  rfl

theorem exposureId_of_lastTouch {hhs : List String} {cand : Candidate}
    (h : lastTouch exposures conv window hhs = .ok cand) :
    cand.row.exposureId = (creditedExposure exposures conv window).map Exposure.exposureId := by
  by_cases hset : CandidateSetMatchesCount conv.candidateCount conv.householdId hhs
  · rw [lastTouch_eq hset] at h
    cases h
    rfl
  · rw [lastTouch_decision] at h
    obtain ⟨r, hr, _⟩ := bind_eq_ok_iff.mp h
    exact absurd (matches_of_attributed hr) hset

theorem creditedExposure_eq_some (hk : Keyed Exposure.exposureId exposures) {w : Exposure} :
    creditedExposure exposures conv window = some w ↔
      w ∈ eligible exposures conv window ∧ ∀ e ∈ eligible exposures conv window, recency e ≤ recency w :=
  argmax_eq_some_of_max (keyed_recency (hk.mono fun _ he => (mem_eligible.mp he).1))

section widening
variable {w1 w2 : Int}

theorem eligible_subset_of_le (hle : w1 ≤ w2) :
    ∀ e ∈ eligible exposures conv w1, e ∈ eligible exposures conv w2 := by
  intro e he
  obtain ⟨hmem, hlo, hhi⟩ := mem_eligible.mp he
  exact mem_eligible.mpr ⟨hmem, by omega, hhi⟩

/-- What a wider window adds lies before every exposure of the narrower one. -/
theorem recency_le_of_wider {w : Exposure} (hw : w ∈ eligible exposures conv w1)
    (hmax : ∀ e ∈ eligible exposures conv w1, recency e ≤ recency w) :
    ∀ e ∈ eligible exposures conv w2, recency e ≤ recency w := by
  intro e he
  obtain ⟨_, hlo, _⟩ := mem_eligible.mp hw
  obtain ⟨hmem, _, hhi⟩ := mem_eligible.mp he
  by_cases hin : conv.eventTime - w1 ≤ e.eventTime
  · exact hmax e (mem_eligible.mpr ⟨hmem, hin, hhi⟩)
  · have hlt : e.eventTime < w.eventTime := by omega
    exact (Prod.Lex.toLex_lt_toLex.mpr (Or.inl hlt)).le

end widening

theorem creditedExposure_isSome :
    (creditedExposure exposures conv window).isSome ↔ ∃ e, e ∈ eligible exposures conv window := by
  rw [creditedExposure, argmax_isSome_iff]
  exact ⟨List.exists_mem_of_ne_nil _, fun ⟨_, h⟩ => List.ne_nil_of_mem h⟩

theorem creditedExposure_mem {w : Exposure} (h : creditedExposure exposures conv window = some w) :
    w ∈ eligible exposures conv window :=
  List.argmax_mem h

theorem assistsOf_strict : (assistsOf exposures conv window).Pairwise (· < ·) := by
  unfold assistsOf
  cases creditedExposure exposures conv window with
  | none => exact List.Pairwise.nil
  | some w => exact sortedSet_strict _

section congr
variable (hk : Keyed Exposure.exposureId l)
  (h : ∀ e, e ∈ eligible l conv window ↔ e ∈ eligible m conv window)

include hk h

private theorem creditedExposure_congr : creditedExposure l conv window = creditedExposure m conv window :=
  argmax_congr (keyed_recency (hk.mono fun _ he => (mem_eligible.mp he).1)) h

theorem assistsOf_congr : assistsOf l conv window = assistsOf m conv window := by
  unfold assistsOf
  rw [← creditedExposure_congr hk h]
  cases creditedExposure l conv window with
  | none => rfl
  | some w =>
    apply sortedSet_congr
    intro k
    simp only [List.mem_filter, List.mem_map, h]

/-- Only the eligible exposures matter, not their order or multiplicity. -/
theorem lastTouch_congr (hhs : List String) :
    lastTouch l conv window hhs = lastTouch m conv window hhs := by
  rw [lastTouch_decision, lastTouch_decision, creditedExposure_congr hk h, assistsOf_congr hk h]

end congr

/-- The credited exposure and the assists name exactly the eligible exposures. -/
theorem touched_iff {id : String} :
    (creditedExposure exposures conv window).map Exposure.exposureId = some id ∨
      id ∈ assistsOf exposures conv window ↔
    ∃ e ∈ eligible exposures conv window, e.exposureId = id := by
  unfold assistsOf
  cases hc : creditedExposure exposures conv window with
  | none =>
    have hn : ¬ ∃ e, e ∈ eligible exposures conv window := by
      rw [← creditedExposure_isSome, hc]
      simp
    simp only [Option.map_none, List.not_mem_nil, or_false]
    exact ⟨nofun, fun ⟨e, he, _⟩ => absurd ⟨e, he⟩ hn⟩
  | some w =>
    have hw := creditedExposure_mem hc
    simp only [Option.map_some, Option.some.injEq, mem_sortedSet, List.mem_filter, List.mem_map,
      decide_eq_true_eq]
    constructor
    · rintro (rfl | ⟨h, _⟩)
      · exact ⟨w, hw, rfl⟩
      · exact h
    · intro h
      rcases eq_or_ne w.exposureId id with he | hne
      · exact Or.inl he
      · exact Or.inr ⟨h, hne.symm⟩

section household
variable {candidates : OrderedDict String (List String)}

theorem attributeOne_certain (hc : conv.candidateCount = 1) :
    attributeOne exposures window candidates conv = lastTouch exposures conv window [] := by
  rw [attributeOne, if_neg (by omega)]

/-- The deferred row of a shared-IP conversion, whatever the exposures. -/
theorem attributeOne_ambiguous (hc : conv.candidateCount ≠ 1) {hhs : List String}
    (hget : candidates.get? conv.conversionId = some hhs)
    (h : CandidateSetMatchesCount conv.candidateCount conv.householdId hhs) :
    attributeOne exposures window candidates conv = .ok ⟨decidedRow conv none [] hhs h, none⟩ := by
  have hpos := conv.candidateCount_pos
  have hof : candidatesOf conv candidates = .ok hhs := by
    rw [candidatesOf, if_neg hc, hget]
    cases hhs with
    | nil => simp [CandidateSetMatchesCount, hc] at h
    | cons a l => rfl
  have hrow := attributed_eq none [] h
  simp only [Option.map_none, Option.isSome_none] at hrow
  rw [attributeOne, if_pos (by omega), hof]
  simp only [bind, Except.bind, hrow]
  rfl

/-- What a hot row carries over from its conversion. -/
structure HotRecord (conv : ResolvedConversion) (r : AttributedConversion) : Prop where
  record : r.toResolvedConversion = conv
  path : r.path = .hot
  processedAt : r.processedAt = conv.ingestTime
  reason : r.reason = if r.attributed then none
    else some (if conv.candidateCount > 1 then .ambiguousIp else .stateMiss)

theorem hotRecord_of_attributed {exposureId : Option String} {assists hhs : List String}
    {isAttributed : Bool} {r : AttributedConversion}
    (h : attributed conv exposureId assists isAttributed hhs = .ok r) :
    HotRecord conv r ∧ r.attributed = isAttributed := by
  unfold attributed AttributedConversion.validate at h
  dsimp only at h
  split at h
  · rw [← Except.ok.inj h]
    exact ⟨⟨rfl, rfl, rfl, rfl⟩, rfl⟩
  · split at h
    · cases h
    · split at h <;> cases h

/-- A hot row keeps its conversion's record, and only a certain conversion is attributed. -/
theorem hotRecord_of_attributeOne {cand : Candidate}
    (h : attributeOne exposures window candidates conv = .ok cand) :
    HotRecord conv cand.row ∧ (cand.row.attributed = true → conv.candidateCount = 1) := by
  have hpos := conv.candidateCount_pos
  unfold attributeOne at h
  split at h
  · obtain ⟨hhs, _, h⟩ := bind_eq_ok_iff.mp h
    obtain ⟨r, hr, h⟩ := bind_eq_ok_iff.mp h
    cases h
    obtain ⟨hrec, hno⟩ := hotRecord_of_attributed hr
    exact ⟨hrec, fun hyes => by simp [hno] at hyes⟩
  · rw [lastTouch_decision] at h
    obtain ⟨r, hr, h⟩ := bind_eq_ok_iff.mp h
    cases h
    exact ⟨(hotRecord_of_attributed hr).1, fun _ => by omega⟩

theorem attributeOne_keeps {cand : Candidate}
    (h : attributeOne exposures window candidates conv = .ok cand) :
    cand.row.toResolvedConversion = conv :=
  (hotRecord_of_attributeOne h).1.record

end household
end CtvAttribution
