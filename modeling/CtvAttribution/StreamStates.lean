import CtvAttribution.EngineParity

/-! What the streaming pass holds after each event of a household, and what it has emitted
and evicted at the end. -/
namespace CtvAttribution
open Library WatermarkJoin

/-- The variables before the first event. -/
def streamStart : StreamVars := ⟨[], [], [], none, 0, 0⟩

/-- What the loop maintains over the events so far, in arrival order. -/
structure TickInvariant (window allowedLateness : Int) (arrived : List Event) (s : StreamVars) : Prop where
  watermark : ∃ latest ∈ arrived, (∀ z ∈ arrived, Event.eventTime z ≤ Event.eventTime latest) ∧
    s.watermark = some (Event.eventTime latest - allowedLateness)
  exposures : ∀ w ∈ s.watermark, s.exposures = (Arrival.builds arrived).filter fun e => w ≤ e.eventTime + window
  pending : ∀ w ∈ s.watermark, s.pending = (Arrival.probes arrived).filter fun c => w < c.eventTime

/-- Every exposure that has arrived is held or was evicted, and the peak bounds what is held. -/
structure CountInvariant (arrived : List Event) (s : StreamVars) : Prop where
  total : s.evicted + s.exposures.length = (Arrival.builds arrived).length
  held : s.exposures.length ≤ s.peak
  peak : s.peak ≤ (Arrival.builds arrived).length

/-- The candidate set the hot rule persists for a conversion is one the model accepts. -/
def Attributable (candidates : OrderedDict String (List String)) (c : ResolvedConversion) : Prop :=
  ∃ hhs, candidatesOf c candidates = .ok hhs ∧ CandidateSetMatchesCount c.candidateCount c.householdId hhs

section states
variable {window allowedLateness : Int} {candidates : OrderedDict String (List String)} {events : List Event}
  {s : StreamVars}

theorem eventTime_eq_time (ev : Event) : Event.eventTime ev = (streamJoin window allowedLateness).time ev := by
  cases ev <;> rfl

/-- The join state after some events is what the loop invariant says. -/
theorem tickInvariant_stateAfter (arrived : List Event) (hne : arrived ≠ []) (out : List Candidate)
    (peak evicted : Nat) : TickInvariant window allowedLateness arrived
      (mirror ((streamJoin window allowedLateness).stateAfter arrived) out peak evicted) := by
  have hlt (w u : Int) (hw : (streamJoin window allowedLateness).watermark arrived = some w) :
      u < w ↔ (streamJoin window allowedLateness).Passed arrived u := by
    rw [← lt_watermark_iff, hw]
    simp
  have hle (w u : Int) (hw : (streamJoin window allowedLateness).watermark arrived = some w) :
      u ≤ w ↔ (streamJoin window allowedLateness).Reached arrived u := by
    rw [← le_watermark_iff, hw]
    simp
  constructor
  · obtain ⟨latest, hmem, hlatest, hw⟩ := (streamJoin window allowedLateness).exists_latest hne
    simp only [← eventTime_eq_time] at hlatest hw
    exact ⟨latest, hmem, hlatest, hw⟩
  · intro w hw
    apply List.filter_congr
    intro e _
    rw [decide_eq_decide, ← hlt w _ hw]
    exact not_lt
  · intro w hw
    apply List.filter_congr
    intro c _
    rw [decide_eq_decide, ← hle w _ hw]
    exact not_le

/-- The state after some events, when none of them raised. -/
theorem foldlM_streamTick {arrived : List Event}
    (h : arrived.foldlM (streamTick window allowedLateness candidates) streamStart = .ok s) :
    CountInvariant arrived s ∧ ∃ out peak evicted,
      s = mirror ((streamJoin window allowedLateness).stateAfter arrived) out peak evicted := by
  induction arrived using List.reverseRecOn generalizing s with
  | nil =>
    cases h
    exact ⟨⟨rfl, Nat.le_refl _, Nat.le_refl _⟩, [], 0, 0, rfl⟩
  | append_singleton l ev ih =>
    rw [List.foldlM_append, bind_eq_ok_iff] at h
    obtain ⟨m, hm, h⟩ := h
    obtain ⟨hcount, out, peak, evicted, rfl⟩ := ih hm
    rw [List.foldlM_cons, bind_eq_ok_iff] at h
    obtain ⟨t, ht, h⟩ := h
    cases h
    rw [streamTick_mirror, bind_eq_ok_iff] at ht
    obtain ⟨more, _, ht⟩ := ht
    cases ht
    rw [step_stateAfter]
    refine ⟨?_, _, _, _, rfl⟩
    have hheld : ((streamJoin window allowedLateness).stateAfter (l ++ [ev])).held.length ≤
        (arrived ((streamJoin window allowedLateness).stateAfter l) ev).length := by
      rw [← step_stateAfter]
      exact List.length_filter_le _ _
    have harrived : (arrived ((streamJoin window allowedLateness).stateAfter l) ev).length =
        ((streamJoin window allowedLateness).stateAfter l).held.length + (Arrival.builds [ev]).length :=
      List.length_append
    have hbuilds : (Arrival.builds (l ++ [ev])).length = (Arrival.builds l).length + (Arrival.builds [ev]).length := by
      rw [Arrival.builds_append, List.length_append]
    obtain ⟨htotal, hle, hpeak⟩ := hcount
    simp only [mirror] at htotal hle hpeak ⊢
    constructor <;> dsimp only <;> omega

private theorem attributeOne_isOk_iff {exposures : List Exposure} {c : ResolvedConversion} :
    (∃ cand, attributeOne exposures window candidates c = .ok cand) ↔ Attributable candidates c := by
  have hpos := c.candidateCount_pos
  by_cases hc : c.candidateCount = 1
  · have hmatches : CandidateSetMatchesCount c.candidateCount c.householdId [] := by
      rw [CandidateSetMatchesCount, if_pos hc]
    rw [attributeOne_certain hc, lastTouch_eq hmatches]
    exact ⟨fun _ => ⟨[], if_pos hc, hmatches⟩, fun _ => ⟨_, rfl⟩⟩
  · unfold attributeOne Attributable
    rw [if_pos (by omega)]
    simp only [bind_eq_ok_iff]
    constructor
    · intro h
      obtain ⟨cand, hhs, hof, r, hr, _⟩ := h
      exact ⟨hhs, hof, matches_of_attributed hr⟩
    · intro h
      obtain ⟨hhs, hof, hmatches⟩ := h
      exact ⟨_, hhs, hof, _, attributed_eq none [] hmatches, rfl⟩

/-- The conversions of the schedule are those of the household. -/
theorem forall_schedule_iff {P : ResolvedConversion → Prop} :
    (∀ p ∈ (streamJoin window allowedLateness).schedule initial (sortedBy arrivalKey events), P p.1) ↔
      ∀ c ∈ Arrival.probes events, P c := by
  have hperm := ((streamJoin window allowedLateness).schedule_probes initial (sortedBy arrivalKey events)).trans
    (Arrival.probes_perm (sortedBy_perm arrivalKey events))
  constructor
  · intro h c hc
    obtain ⟨p, hp, rfl⟩ := List.mem_map.mp (hperm.mem_iff.mpr hc)
    exact h p hp
  · intro h p hp
    exact h p.1 (hperm.mem_iff.mp (List.mem_map_of_mem hp))

/-- The pass raises only over a conversion no candidate set fits. -/
theorem attributeHouseholdStreaming_isOk_iff :
    (∃ result, attributeHouseholdStreaming window allowedLateness candidates events = .ok result) ↔
      ∀ c ∈ Arrival.probes events, Attributable candidates c := by
  have hschedule := attributeHouseholdStreaming_schedule window allowedLateness candidates events
  have hok : (∃ result, attributeHouseholdStreaming window allowedLateness candidates events = .ok result) ↔
      ∃ cands, (do return (← attributeHouseholdStreaming window allowedLateness candidates events).candidates) =
        (.ok cands : Except ValueError (List Candidate)) := by
    simp only [bind_eq_ok_iff]
    constructor
    · intro h
      obtain ⟨result, hr⟩ := h
      exact ⟨_, result, hr, rfl⟩
    · intro h
      obtain ⟨_, result, hr, _⟩ := h
      exact ⟨result, hr⟩
  rw [hok, hschedule, mapM_isOk_iff]
  simp only [attributeOne_isOk_iff]
  exact forall_schedule_iff

theorem counts_attributeHouseholdStreaming {result : StreamResult}
    (hr : attributeHouseholdStreaming window allowedLateness candidates events = .ok result) :
    result.state.evicted + result.state.final = (Arrival.builds events).length ∧
      result.state.final ≤ result.state.peak ∧ result.state.peak ≤ (Arrival.builds events).length := by
  obtain ⟨s, hs, hr⟩ := bind_eq_ok_iff.mp hr
  obtain ⟨out, _, hr⟩ := bind_eq_ok_iff.mp hr
  cases hr
  obtain ⟨hcount, _⟩ := foldlM_streamTick (s := s) hs
  rw [← (Arrival.builds_perm (sortedBy_perm arrivalKey events)).length_eq]
  exact ⟨hcount.total, hcount.held, hcount.peak⟩

/-- After each event the pass holds exactly the live exposures and the conversions the
watermark has not reached; at the end every conversion has one candidate and every exposure
is counted. -/
theorem streaming_invariant (window allowedLateness : Int) (candidates : OrderedDict String (List String))
    (events : List Event) :
    (∀ past ev rest s, sortedBy arrivalKey events = past ++ ev :: rest →
      (past ++ [ev]).foldlM (streamTick window allowedLateness candidates) streamStart = .ok s →
      TickInvariant window allowedLateness (past ++ [ev]) s) ∧
    ((∃ result, attributeHouseholdStreaming window allowedLateness candidates events = .ok result) ↔
      ∀ c ∈ Arrival.probes events, Attributable candidates c) ∧
    ∀ result, attributeHouseholdStreaming window allowedLateness candidates events = .ok result →
      (result.candidates.map fun cand => cand.row.toResolvedConversion).Perm (Arrival.probes events) ∧
      result.state.evicted + result.state.final = (Arrival.builds events).length ∧
      result.state.final ≤ result.state.peak ∧ result.state.peak ≤ (Arrival.builds events).length := by
  refine ⟨?_, attributeHouseholdStreaming_isOk_iff, ?_⟩
  · intro past ev rest s _ hs
    obtain ⟨_, out, peak, evicted, rfl⟩ := foldlM_streamTick hs
    exact tickInvariant_stateAfter _ (List.append_ne_nil_of_right_ne_nil _ (List.cons_ne_nil _ _)) out peak evicted
  · intro result hr
    exact ⟨records_attributeHouseholdStreaming window allowedLateness candidates hr,
      counts_attributeHouseholdStreaming hr⟩

/-- The pass over the calendar, while every time it computes is in it. -/
theorem streaming_invariant_in_calendar (window allowedLateness : Int) (candidates : OrderedDict String (List String))
    (events : List Event) (hfits : Checked.PassFits window allowedLateness events) :
    (∀ past ev rest s, sortedBy arrivalKey events = past ++ ev :: rest →
      (past ++ [ev]).foldlM (Checked.streamTick window allowedLateness candidates) streamStart = .ok s →
      TickInvariant window allowedLateness (past ++ [ev]) s) ∧
    ((∃ result, Checked.attributeHouseholdStreaming window allowedLateness candidates events = .ok result) ↔
      ∀ c ∈ Arrival.probes events, Attributable candidates c) ∧
    ∀ result, Checked.attributeHouseholdStreaming window allowedLateness candidates events = .ok result →
      (∀ past ev rest, sortedBy arrivalKey events = past ++ ev :: rest →
        ∃ s, (past ++ [ev]).foldlM (Checked.streamTick window allowedLateness candidates) streamStart = .ok s) ∧
      (result.candidates.map fun cand => cand.row.toResolvedConversion).Perm (Arrival.probes events) ∧
      result.state.evicted + result.state.final = (Arrival.builds events).length ∧
      result.state.final ≤ result.state.peak ∧ result.state.peak ≤ (Arrival.builds events).length := by
  obtain ⟨hticks, hok, hresult⟩ := streaming_invariant window allowedLateness candidates events
  have hagrees : AgreesWhere _ (Checked.attributeHouseholdStreaming window allowedLateness candidates events)
      (attributeHouseholdStreaming window allowedLateness candidates events) :=
    Checked.attributeHouseholdStreaming_agrees events
  refine ⟨?_, ?_, ?_⟩
  · intro past ev rest s hsplit hs
    exact hticks past ev rest s hsplit (Checked.foldlM_streamTick_of_checked nofun hs)
  · rw [hagrees.isOk_iff, hok]
    exact and_iff_right hfits
  · intro result hr
    refine ⟨?_, hresult result ((hagrees result).mp hr).2⟩
    intro past ev rest hsplit
    obtain ⟨t, ht, _⟩ := bind_eq_ok_iff.mp hr
    rw [hsplit, List.append_cons, List.foldlM_append] at ht
    obtain ⟨s, hs, _⟩ := bind_eq_ok_iff.mp ht
    exact ⟨s, hs⟩

end states

/-- The eviction test of the hot window leaves the calendar on its last day: the pass raises. -/
theorem streaming_raises_at_the_calendar_end :
    ¬ ∀ (window allowedLateness : Int) (candidates : OrderedDict String (List String)) (events : List Event),
      0 ≤ allowedLateness → (∀ c ∈ Arrival.probes events, Attributable candidates c) →
      ∃ result, Checked.attributeHouseholdStreaming window allowedLateness candidates events = .ok result ∧
        (result.candidates.map fun cand => cand.row.toResolvedConversion).Perm (Arrival.probes events) ∧
        result.state.evicted + result.state.final = (Arrival.builds events).length ∧
        result.state.final ≤ result.state.peak ∧ result.state.peak ≤ (Arrival.builds events).length := by
  intro h
  let last := sampleExposure "e" ((endDay - 1) * Time.day) ((endDay - 1) * Time.day)
  obtain ⟨result, hr, _⟩ := h hotWindow (6 * Time.hour) .empty [.build last] (by decide) nofun
  have hexpiry := ((Checked.attributeHouseholdStreaming_agrees _ result).mp hr).1.expiry last List.mem_cons_self
  exact absurd hexpiry (by decide)

/-- Two exposures and a conversion of the last week but one of the calendar. -/
def lastWeekEvents : List Event :=
  [.build (sampleExposure "a" ((endDay - 9) * Time.day) ((endDay - 9) * Time.day)),
    .probe (resolved (sampleConversion "c" ((endDay - 8) * Time.day - 1) ((endDay - 8) * Time.day)) "hh" .device
      false 1 Nat.one_pos),
    .build (sampleExposure "b" ((endDay - 8) * Time.day - 1) ((endDay - 8) * Time.day))]

theorem streaming_invariant_in_calendar_sample : ∃ result,
    Checked.attributeHouseholdStreaming hotWindow (6 * Time.hour) .empty lastWeekEvents = .ok result ∧
      (result.candidates.map fun cand => cand.row.toResolvedConversion).Perm (Arrival.probes lastWeekEvents) ∧
      result.state.evicted + result.state.final = 2 := by
  obtain ⟨_, hok, hresult⟩ := streaming_invariant_in_calendar hotWindow (6 * Time.hour) .empty lastWeekEvents
    ⟨by decide, by decide, by decide⟩
  obtain ⟨result, hr⟩ := hok.mpr fun c hc => by
    rw [List.mem_singleton.mp hc]
    exact ⟨[], rfl, by decide⟩
  obtain ⟨_, hperm, hcount, _⟩ := hresult result hr
  exact ⟨result, hr, hperm, hcount⟩

end CtvAttribution
