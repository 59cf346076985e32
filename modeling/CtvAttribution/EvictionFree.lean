import CtvAttribution.EngineParity
import CtvAttribution.StreamStates

/-! The streaming pass with its eviction step removed. While no conversion is later than the
watermark tolerates, eviction never changes a candidate, however late the exposures are; over
the calendar its test must not raise where the other pass goes on. -/
namespace CtvAttribution
open Library WatermarkJoin

section keeping
variable (window allowedLateness : Int) (candidates : OrderedDict String (List String))

/-- `streamTick` without the eviction. -/
def streamTickKeeping (s : StreamVars) (ev : Event) : Except ValueError StreamVars := do
  let watermark := eventTimeWatermark s.watermark (Event.eventTime ev) allowedLateness
  let exposures := match ev with
    | .build e => s.exposures ++ [e]
    | .probe _ => s.exposures
  let pending := match ev with
    | .build _ => s.pending
    | .probe c => s.pending ++ [c]
  let released := pending.filter fun c => c.eventTime ≤ watermark
  let out ← release window candidates exposures released s.out
  return { exposures, pending := pending.filter fun c => watermark < c.eventTime, out,
           watermark := some watermark, peak := max s.peak exposures.length, evicted := s.evicted }

/-- `attribute_household_streaming` without the eviction. -/
def attributeHouseholdKeeping (events : List Event) : Except ValueError StreamResult := do
  let s ← (sortedBy arrivalKey events).foldlM (streamTickKeeping window allowedLateness candidates) streamStart
  let out ← release window candidates s.exposures s.pending s.out
  return ⟨out, { peak := s.peak, evicted := s.evicted, final := s.exposures.length }⟩

private theorem streamTickKeeping_mirror (st : State Exposure ResolvedConversion Int) (out : List Candidate)
    (peak evicted : Nat) (ev : Event) :
    streamTickKeeping window allowedLateness candidates (mirror st out peak evicted) ev =
      (do
        let more ← ((streamJoin window allowedLateness).due st ev).mapM
          (attributeOne (arrived st ev) window candidates)
        return mirror ((streamJoin window allowedLateness).keep st ev) (out ++ more)
          (max peak (arrived st ev).length) evicted) := by
  have mark := eventTimeWatermark_mark window allowedLateness st ev
  unfold streamTickKeeping
  simp only [mirror, mark, release_eq, bind_assoc, pure_bind]
  cases ev <;> simp only [due, keep, step, arrived, queued, Arrival.builds, Arrival.probes, List.append_nil] <;> rfl

private theorem attributeHouseholdKeeping_schedule (events : List Event) :
    (do return (← attributeHouseholdKeeping window allowedLateness candidates events).candidates) =
      ((streamJoin window allowedLateness).scheduleBy (streamJoin window allowedLateness).keep initial
        (sortedBy arrivalKey events)).mapM fun (c, snapshot) => attributeOne snapshot window candidates c := by
  have h := foldlM_eq_scheduleBy window allowedLateness candidates
    (fun st out peak evicted ev =>
      ⟨_, _, streamTickKeeping_mirror window allowedLateness candidates st out peak evicted ev⟩)
    (sortedBy arrivalKey events) initial [] 0 0
  simp only [List.nil_append, bind_pure] at h
  simp only [attributeHouseholdKeeping, bind_assoc, pure_bind, bind_pure]
  exact h

end keeping

section joins
variable {window allowedLateness : Int} {candidates : OrderedDict String (List String)} {events : List Event}
  {c : ResolvedConversion} {l m : List Exposure}

private theorem eligible_eq_filter : eligible l c window =
    l.filter fun e => (streamJoin window allowedLateness).Eligible c e := by
  apply List.filter_congr
  intro e _
  rw [decide_eq_decide]
  simp only [Eligible, streamJoin]
  constructor <;> intro h <;> constructor <;> omega

/-- The hot rule looks at the eligible exposures only. -/
theorem attributeOne_of_eligible_eq (h : eligible l c window = eligible m c window) :
    attributeOne l window candidates c = attributeOne m window candidates c := by
  unfold attributeOne lastTouch
  rw [h]

/-- Ingested in order, a conversion that is late by at most the tolerance finds no event
further ahead of it. -/
theorem timely_sortedBy (hearly : ∀ ev ∈ events, Event.eventTime ev ≤ Event.ingestTime ev)
    (hlate : ∀ c ∈ Arrival.probes events, c.ingestTime - c.eventTime ≤ allowedLateness) :
    (streamJoin window allowedLateness).Timely (sortedBy arrivalKey events) := by
  have hsorted := sortedBy_pairwise arrivalKey events
  refine (List.Pairwise.and_mem.mp hsorted).imp ?_
  intro z x h c hx
  obtain ⟨hz, hmem, hle⟩ := h
  subst hx
  have hingest : Event.ingestTime z ≤ c.ingestTime := ingestTime_le_of_arrivalKey_le hle
  have hahead : Event.eventTime z ≤ Event.ingestTime z := hearly z ((mem_sortedBy _).mp hz)
  have htolerated := hlate c (Arrival.mem_probes.mpr ((mem_sortedBy _).mp hmem))
  rw [← eventTime_eq_time]
  change Event.eventTime z ≤ c.eventTime + allowedLateness
  omega

/-- Eviction never removes an exposure a conversion still needs. -/
theorem eviction_keeps_candidates (window allowedLateness : Int) (candidates : OrderedDict String (List String))
    (events : List Event) (hearly : ∀ ev ∈ events, Event.eventTime ev ≤ Event.ingestTime ev)
    (hlate : ∀ c ∈ Arrival.probes events, c.ingestTime - c.eventTime ≤ allowedLateness) :
    (do return (← attributeHouseholdStreaming window allowedLateness candidates events).candidates) =
      (do return (← attributeHouseholdKeeping window allowedLateness candidates events).candidates) := by
  rw [attributeHouseholdStreaming_schedule, attributeHouseholdKeeping_schedule, schedule_eq_scheduleBy]
  have htimely : (streamJoin window allowedLateness).Timely (sortedBy arrivalKey events) :=
    timely_sortedBy hearly hlate
  have hjoins := sameJoins_schedule (l := []) htimely
  apply mapM_congr_forall₂
  refine hjoins.imp ?_
  intro p q hpq
  obtain ⟨hc, hrows⟩ := hpq
  change attributeOne p.2 window candidates p.1 = attributeOne q.2 window candidates q.1
  rw [← hc]
  apply attributeOne_of_eligible_eq
  exact eligible_eq_filter.trans (hrows.trans eligible_eq_filter.symm)

end joins

/-- `streamTick` over the calendar, without the eviction and its test. -/
def Checked.streamTickKeeping (window allowedLateness : Int) (candidates : OrderedDict String (List String))
    (s : StreamVars) (ev : Event) : Except Checked.Raised StreamVars := do
  let watermark ← eventTimeWatermark s.watermark (Event.eventTime ev) allowedLateness
  let exposures := match ev with
    | .build e => s.exposures ++ [e]
    | .probe _ => s.exposures
  let pending := match ev with
    | .build _ => s.pending
    | .probe c => s.pending ++ [c]
  let released := pending.filter fun c => c.eventTime ≤ watermark
  let out ← release window candidates exposures released s.out
  return { exposures, pending := pending.filter fun c => watermark < c.eventTime, out,
           watermark := some watermark, peak := max s.peak exposures.length, evicted := s.evicted }

def Checked.attributeHouseholdKeeping (window allowedLateness : Int) (candidates : OrderedDict String (List String))
    (events : List Event) : Except Checked.Raised StreamResult := do
  let s ← (sortedBy arrivalKey events).foldlM (streamTickKeeping window allowedLateness candidates) streamStart
  let out ← release window candidates s.exposures s.pending s.out
  return ⟨out, { peak := s.peak, evicted := s.evicted, final := s.exposures.length }⟩

section calendar
variable {window allowedLateness : Int} {candidates : OrderedDict String (List String)} {s t : StreamVars} {ev : Event}

private theorem streamTickKeeping_leaves (h : streamTickKeeping window allowedLateness candidates s ev = .ok t) :
    Checked.Leaves allowedLateness s ev t := by
  unfold streamTickKeeping at h
  obtain ⟨out, _, h⟩ := bind_eq_ok_iff.mp h
  cases h
  cases ev with
  | build e => exact ⟨by simp [Checked.queued, Arrival.probes], fun x hx => List.mem_append.mp hx⟩
  | probe c => exact ⟨by simp [Checked.queued, Arrival.probes], fun x hx => .inl hx⟩

private theorem streamTickKeeping_agrees (hs : ∀ e ∈ s.exposures, True) :
    AgreesWhere (Checked.TickFits window allowedLateness (fun _ => True) s ev)
      (Checked.streamTickKeeping window allowedLateness candidates s ev)
      (streamTickKeeping window allowedLateness candidates s ev) := by
  have finish (held : List Exposure) (next : StreamVars) : AgreesWhere (∀ e ∈ held, True)
      (pure next : Except Checked.Raised StreamVars) (pure next : Except ValueError StreamVars) :=
    (AgreesWhere.of_ok next).congr (by simp)
  cases ev with
  | build e => exact Checked.tick_agrees (.build e) hs rfl (List.append_nil s.pending).symm fun _ _ => finish _ _
  | probe c => exact Checked.tick_agrees (.probe c) hs (List.append_nil s.exposures).symm rfl fun _ _ => finish _ _

private theorem attributeHouseholdKeeping_agrees (events : List Event) :
    AgreesWhere (Checked.TimesFit window allowedLateness (fun _ => True) [] events)
      (Checked.attributeHouseholdKeeping window allowedLateness candidates events)
      (attributeHouseholdKeeping window allowedLateness candidates events) := by
  have hp := sortedBy_perm arrivalKey events
  refine (Checked.rest_agrees (fun _ _ hs => streamTickKeeping_agrees hs) (fun _ _ _ h => streamTickKeeping_leaves h)
    (sortedBy arrivalKey events) _ (fun _ _ => trivial)).congr ?_
  exact ⟨fun h => h.perm hp.symm, fun h => h.perm hp⟩

/-- While the expiry of every exposure is in the calendar, the pass returns candidates where
the one without the eviction does, and the same ones. -/
theorem eviction_keeps_candidates_in_calendar (window allowedLateness : Int)
    (candidates : OrderedDict String (List String)) (events : List Event)
    (hearly : ∀ ev ∈ events, Event.eventTime ev ≤ Event.ingestTime ev)
    (hlate : ∀ c ∈ Arrival.probes events, c.ingestTime - c.eventTime ≤ allowedLateness)
    (hexpiry : ∀ e ∈ Arrival.builds events, InCalendar (e.eventTime + window)) (cands : List Candidate) :
    (∃ state, Checked.attributeHouseholdStreaming window allowedLateness candidates events = .ok ⟨cands, state⟩) ↔
      ∃ state, Checked.attributeHouseholdKeeping window allowedLateness candidates events = .ok ⟨cands, state⟩ := by
  have hsame := eviction_keeps_candidates window allowedLateness candidates events hearly hlate
  have hreturns {x : Except ValueError StreamResult} : (∃ state, x = .ok ⟨cands, state⟩) ↔
      (do return (← x).candidates) = .ok cands := by
    rw [bind_eq_ok_iff]
    constructor
    · intro h
      obtain ⟨state, hx⟩ := h
      exact ⟨_, hx, rfl⟩
    · intro h
      obtain ⟨result, hx, he⟩ := h
      cases he
      exact ⟨result.state, hx⟩
  have hfits : Checked.PassFits window allowedLateness events ↔
      Checked.TimesFit window allowedLateness (fun _ => True) [] events :=
    ⟨fun h => ⟨h.watermark, fun _ _ => trivial, h.leaf⟩, fun h => ⟨h.watermark, hexpiry, h.leaf⟩⟩
  simp only [Checked.attributeHouseholdStreaming_agrees events _, attributeHouseholdKeeping_agrees events _,
    hfits, exists_and_left, hreturns, hsame]

end calendar

/-- "a" is on the edge of the window of "c", which is as late as tolerated; "z" comes a day
late. -/
def boundaryEvents : List Event :=
  [.build (sampleExposure "a" 0 0), .build (sampleExposure "b" (7 * Time.hour) (7 * Time.hour)),
    .probe (resolved (sampleConversion "c" (6 * Time.hour) (7 * Time.hour)) "hh" .device false 1 Nat.one_pos),
    .build (sampleExposure "d" (8 * Time.hour) (8 * Time.hour)), .build (sampleExposure "z" 1 (30 * Time.hour))]

/-- Two exposures are evicted, and "c" is still credited to "a". -/
theorem eviction_keeps_candidates_in_calendar_boundary : ∃ cands state',
    Checked.attributeHouseholdStreaming (6 * Time.hour) Time.hour .empty boundaryEvents = .ok ⟨cands, ⟨2, 2, 2⟩⟩ ∧
      Checked.attributeHouseholdKeeping (6 * Time.hour) Time.hour .empty boundaryEvents = .ok ⟨cands, state'⟩ ∧
      cands.map (fun cand => cand.row.exposureId) = [some "a"] := by
  have hrun : (Checked.attributeHouseholdStreaming (6 * Time.hour) Time.hour .empty boundaryEvents).map
      (fun result => (result.state, result.candidates.map fun cand => cand.row.exposureId)) =
        .ok (⟨2, 2, 2⟩, [some "a"]) := by decide +kernel
  cases hr : Checked.attributeHouseholdStreaming (6 * Time.hour) Time.hour .empty boundaryEvents with
  | error e =>
    rw [hr] at hrun
    cases hrun
  | ok result =>
    obtain ⟨cands, state⟩ := result
    rw [hr] at hrun
    obtain ⟨rfl, hcredits⟩ := Prod.ext_iff.mp (Except.ok.inj hrun)
    obtain ⟨state', hkept⟩ := (eviction_keeps_candidates_in_calendar (6 * Time.hour) Time.hour .empty boundaryEvents
      (by decide) (by decide) (by decide) cands).mp ⟨_, hr⟩
    exact ⟨cands, state', rfl, hkept, hcredits⟩

/-- On the last day of the calendar the eviction test raises where the pass without it goes on. -/
theorem eviction_raises_at_the_calendar_end :
    ¬ ∀ (window allowedLateness : Int) (candidates : OrderedDict String (List String)) (events : List Event),
      (∀ ev ∈ events, Event.eventTime ev ≤ Event.ingestTime ev) →
      (∀ c ∈ Arrival.probes events, c.ingestTime - c.eventTime ≤ allowedLateness) → ∀ cands,
      ((∃ state, Checked.attributeHouseholdStreaming window allowedLateness candidates events = .ok ⟨cands, state⟩) ↔
        ∃ state, Checked.attributeHouseholdKeeping window allowedLateness candidates events = .ok ⟨cands, state⟩) := by
  intro h
  let last := sampleExposure "e" ((endDay - 1) * Time.day) ((endDay - 1) * Time.day)
  obtain ⟨state, hstate⟩ := (h hotWindow (6 * Time.hour) .empty [.build last] (by decide) (by decide) []).mpr
    ⟨⟨1, 0, 1⟩, by decide +kernel⟩
  have hexpiry := ((Checked.attributeHouseholdStreaming_agrees _ _).mp hstate).1.expiry last List.mem_cons_self
  exact absurd hexpiry (by decide)

end CtvAttribution
