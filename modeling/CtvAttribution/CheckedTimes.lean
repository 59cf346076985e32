import CtvAttribution.EngineRows
import CtvAttribution.Library.DateTimes
import CtvAttribution.Library.PartialAgreement

/-! The attribution core over the calendar: every sum and difference of a time and a duration
raises when it leaves the years 1 to 9999. Where none does, the functions return what they
return over unbounded instants. -/
namespace CtvAttribution.Checked
open Library WatermarkJoin

/-- What a run over UTC times can raise. -/
inductive Raised where
  | value (error : ValueError)
  | overflow (error : OverflowError)
  deriving DecidableEq, Repr

/-- `datetime + timedelta` of a UTC time. -/
def add (t d : Int) : Except Raised Int :=
  if InCalendar (t + d) then .ok (t + d) else .error (.overflow ⟨⟩)

/-- `datetime - timedelta` of a UTC time. -/
def sub (t d : Int) : Except Raised Int :=
  if InCalendar (t - d) then .ok (t - d) else .error (.overflow ⟨⟩)

/-- `last_touch`: the start of the window comes first. -/
def lastTouch (exposures : List Exposure) (conv : ResolvedConversion) (window : Int)
    (candidateHouseholds : List String) : Except Raised Candidate := do
  let _ ← sub conv.eventTime window
  (CtvAttribution.lastTouch exposures conv window candidateHouseholds).mapError .value

/-- The hot rule: a deferred conversion asks for no window. -/
def attributeOne (exposures : List Exposure) (window : Int)
    (candidates : OrderedDict String (List String)) (conv : ResolvedConversion) : Except Raised Candidate :=
  if conv.candidateCount > 1 then
    (CtvAttribution.attributeOne exposures window candidates conv).mapError .value
  else lastTouch exposures conv window []

/-- `attribute_household`. -/
def attributeHousehold (exposures : List Exposure) (resolved : List ResolvedConversion) (window : Int)
    (candidates : OrderedDict String (List String)) : Except Raised (List Candidate) :=
  resolved.mapM (attributeOne exposures window candidates)

/-- `event_time_watermark`. -/
def eventTimeWatermark (watermark : Option Int) (eventTime allowedLateness : Int) : Except Raised Int := do
  let candidate ← sub eventTime allowedLateness
  match watermark with
  | none => return candidate
  | some w => return if w < candidate then candidate else w

section streaming
variable (window allowedLateness : Int) (candidates : OrderedDict String (List String))

def release (exposures : List Exposure) (released : List ResolvedConversion) (out : List Candidate) :
    Except Raised (List Candidate) :=
  released.foldlM
    (fun out conv => do return out ++ (← attributeHousehold exposures [conv] window candidates)) out

/-- One iteration. The eviction test adds the window to the time of every exposure held. -/
def streamTick (s : StreamVars) (ev : Event) : Except Raised StreamVars := do
  let watermark ← eventTimeWatermark s.watermark (Event.eventTime ev) allowedLateness
  let exposures := match ev with
    | .build e => s.exposures ++ [e]
    | .probe _ => s.exposures
  let pending := match ev with
    | .build _ => s.pending
    | .probe c => s.pending ++ [c]
  let released := pending.filter fun c => c.eventTime ≤ watermark
  let out ← release window candidates exposures released s.out
  let _ ← exposures.mapM fun e => add e.eventTime window
  let keep := exposures.filter fun e => watermark ≤ e.eventTime + window
  return { exposures := keep, pending := pending.filter fun c => watermark < c.eventTime, out,
           watermark := some watermark, peak := max s.peak keep.length,
           evicted := s.evicted + (exposures.length - keep.length) }

/-- `attribute_household_streaming`. -/
def attributeHouseholdStreaming (events : List Event) : Except Raised StreamResult := do
  let s ← (sortedBy arrivalKey events).foldlM (streamTick window allowedLateness candidates)
    { exposures := [], pending := [], out := [], watermark := none, peak := 0, evicted := 0 }
  let out ← release window candidates s.exposures s.pending s.out
  return ⟨out, { peak := s.peak, evicted := s.evicted, final := s.exposures.length }⟩

end streaming

/-- `run_attribution`. -/
def runAttribution (exposures : List Exposure) (resolved : List ResolvedConversion)
    (allowedLateness : Int) : Except Raised (List AttributedConversion) := do
  let candidates := candidateHouseholdsByConversion resolved
  let results ← (householdEvents exposures resolved).values.mapM
    (attributeHouseholdStreaming hotWindow allowedLateness candidates)
  return sortedBy (fun r => r.conversionId) (results.flatMap fun r => r.candidates.map Candidate.row)

/-- `attribute`, the non-evicting oracle. -/
def attributeOracle (exposures : List Exposure) (resolved : List ResolvedConversion) (window : Int) :
    Except Raised (List AttributedConversion) := do
  let expByHh := OrderedDict.groupBy Exposure.householdId exposures
  let candidates := candidateHouseholdsByConversion resolved
  let resByHh := OrderedDict.groupBy (fun r => r.householdId) (oneRowPerConversion resolved)
  let rows ← resByHh.entries.mapM fun (hid, resRows) =>
    attributeHousehold ((expByHh.get? hid).getD []) resRows window candidates
  return sortedBy (fun r => r.conversionId) (rows.flatten.map Candidate.row)

section agreement
variable {exposures : List Exposure} {resolved : List ResolvedConversion} {window allowedLateness : Int}
  {candidates : OrderedDict String (List String)}

theorem add_agrees (t d : Int) : AgreesWhere (InCalendar (t + d)) (add t d) (.ok (t + d) : Except ValueError Int) := by
  intro u
  unfold add
  split
  · rename_i h
    simp only [h, true_and]
    exact ⟨fun hu => by cases hu; rfl, fun hu => by cases hu; rfl⟩
  · rename_i h
    simp [h]

theorem sub_agrees (t d : Int) : AgreesWhere (InCalendar (t - d)) (sub t d) (.ok (t - d) : Except ValueError Int) := by
  have h := add_agrees t (-d)
  simp only [add, ← Int.sub_eq_add_neg] at h
  exact h

theorem lastTouch_agrees (conv : ResolvedConversion) (hhs : List String) :
    AgreesWhere (InCalendar (conv.eventTime - window)) (lastTouch exposures conv window hhs)
      (CtvAttribution.lastTouch exposures conv window hhs) :=
  ((sub_agrees conv.eventTime window).bind fun _ _ _ => AgreesWhere.mapError Raised.value _).congr
    (and_iff_left trivial)

/-- Only the leaf of a certain conversion computes a time. -/
def LeafFits (window : Int) (conv : ResolvedConversion) : Prop :=
  conv.candidateCount = 1 → InCalendar (conv.eventTime - window)

instance (window : Int) (conv : ResolvedConversion) : Decidable (LeafFits window conv) :=
  inferInstanceAs (Decidable (_ → _))

private theorem attributeOne_agrees (conv : ResolvedConversion) :
    AgreesWhere (LeafFits window conv) (attributeOne exposures window candidates conv)
      (CtvAttribution.attributeOne exposures window candidates conv) := by
  have hpos := conv.candidateCount_pos
  by_cases hone : conv.candidateCount = 1
  · rw [attributeOne_certain hone]
    unfold attributeOne
    rw [if_neg (by omega)]
    exact (lastTouch_agrees conv []).congr (by simp [LeafFits, hone])
  · unfold attributeOne
    rw [if_pos (by omega)]
    exact (AgreesWhere.mapError Raised.value _).congr (by simp [LeafFits, hone])

private theorem attributeHousehold_agrees (l : List ResolvedConversion) :
    AgreesWhere (∀ c ∈ l, LeafFits window c) (attributeHousehold exposures l window candidates)
      (CtvAttribution.attributeHousehold exposures l window candidates) :=
  AgreesWhere.mapM fun c _ => attributeOne_agrees c

private theorem release_agrees (released : List ResolvedConversion) (out : List Candidate) :
    AgreesWhere (∀ c ∈ released, LeafFits window c) (release window candidates exposures released out)
      (CtvAttribution.release window candidates exposures released out) := by
  apply AgreesWhere.foldlM
  intro s c _
  refine ((attributeHousehold_agrees [c]).map fun more => s ++ more).congr ?_
  rw [List.forall_mem_singleton]

private theorem eventTimeWatermark_agrees (w : Option Int) (t : Int) :
    AgreesWhere (InCalendar (t - allowedLateness)) (eventTimeWatermark w t allowedLateness)
      (.ok (CtvAttribution.eventTimeWatermark w t allowedLateness) : Except ValueError Int) := by
  cases w with
  | none => exact (sub_agrees t allowedLateness).map id
  | some w => exact (sub_agrees t allowedLateness).map fun u => if w < u then u else w

/-- Every time a pass computes over the events to come is in the calendar, with these
conversions pending: the watermark of each event, the window of each certain conversion and
what it computes for each exposure. -/
structure TimesFit (window allowedLateness : Int) (expiry : Exposure → Prop) (pending : List ResolvedConversion)
    (events : List Event) : Prop where
  watermark : ∀ ev ∈ events, InCalendar (Event.eventTime ev - allowedLateness)
  expiry : ∀ e ∈ Arrival.builds events, expiry e
  leaf : ∀ c ∈ pending ++ Arrival.probes events, LeafFits window c

/-- The pass tries the expiry of each exposure. -/
abbrev PassFits (window allowedLateness : Int) (events : List Event) : Prop :=
  TimesFit window allowedLateness (fun e => InCalendar (e.eventTime + window)) [] events

variable {expiry : Exposure → Prop}

theorem TimesFit.perm {pending : List ResolvedConversion} {events events' : List Event}
    (h : TimesFit window allowedLateness expiry pending events) (hp : events'.Perm events) :
    TimesFit window allowedLateness expiry pending events' where
  watermark ev hev := h.watermark ev (hp.mem_iff.mp hev)
  expiry e he := h.expiry e ((Arrival.builds_perm hp).mem_iff.mp he)
  leaf c hc := h.leaf c (((Arrival.probes_perm hp).append_left pending).mem_iff.mp hc)

section tick
variable {s t : StreamVars} {ev : Event}

/-- The conversions pending when the tick releases. -/
def queued (s : StreamVars) (ev : Event) : List ResolvedConversion := s.pending ++ Arrival.probes [ev]

/-- What a tick leaves behind comes from before it or from its event. -/
structure Leaves (allowedLateness : Int) (s : StreamVars) (ev : Event) (t : StreamVars) : Prop where
  pending : t.pending = (queued s ev).filter fun c =>
    CtvAttribution.eventTimeWatermark s.watermark (Event.eventTime ev) allowedLateness < c.eventTime
  exposures : ∀ e ∈ t.exposures, e ∈ s.exposures ∨ e ∈ Arrival.builds [ev]

private theorem streamTick_leaves (h : CtvAttribution.streamTick window allowedLateness candidates s ev = .ok t) :
    Leaves allowedLateness s ev t := by
  unfold CtvAttribution.streamTick at h
  obtain ⟨out, _, h⟩ := bind_eq_ok_iff.mp h
  cases h
  cases ev with
  | build e =>
    refine ⟨by simp [queued, Arrival.probes], fun x hx => ?_⟩
    exact List.mem_append.mp (List.mem_filter.mp hx).1
  | probe c =>
    refine ⟨by simp [queued, Arrival.probes], fun x hx => ?_⟩
    exact .inl (List.mem_filter.mp hx).1

/-- The comprehension of the eviction test adds the window to every time. -/
theorem expiries_agree (l : List Exposure) : AgreesWhere (∀ e ∈ l, InCalendar (e.eventTime + window))
    (l.mapM fun e => add e.eventTime window)
    (.ok (l.map fun e => e.eventTime + window) : Except ValueError (List Int)) := by
  have h := AgreesWhere.mapM fun e (_ : e ∈ l) => add_agrees e.eventTime window
  have hplain : (l.mapM fun e => (.ok (e.eventTime + window) : Except ValueError Int)) =
      .ok (l.map fun e => e.eventTime + window) := by
    rw [mapM_eq_ok_iff, List.forall₂_map_right_iff, List.forall₂_same]
    exact fun _ _ => rfl
  rwa [hplain] at h

/-- The times of one tick: those of the exposures held have been tried before. -/
structure TickFits (window allowedLateness : Int) (expiry : Exposure → Prop) (s : StreamVars) (ev : Event) : Prop where
  watermark : InCalendar (Event.eventTime ev - allowedLateness)
  leaf : ∀ c ∈ queued s ev, c.eventTime ≤
    CtvAttribution.eventTimeWatermark s.watermark (Event.eventTime ev) allowedLateness → LeafFits window c
  expiry : ∀ e ∈ Arrival.builds [ev], expiry e

/-- The watermark and the releases of a tick, then what it does with the exposures `held`. -/
theorem tick_agrees (ev : Event) (hs : ∀ e ∈ s.exposures, expiry e) {held : List Exposure}
    (hheld : held = s.exposures ++ Arrival.builds [ev]) {pending : List ResolvedConversion}
    (hpending : pending = queued s ev) {finish : Int → List Candidate → Except Raised StreamVars}
    {finish' : Int → List Candidate → Except ValueError StreamVars}
    (hfinish : ∀ watermark out, AgreesWhere (∀ e ∈ held, expiry e) (finish watermark out) (finish' watermark out)) :
    AgreesWhere (TickFits window allowedLateness expiry s ev)
      (do
        let watermark ← eventTimeWatermark s.watermark (Event.eventTime ev) allowedLateness
        let out ← release window candidates held (pending.filter fun c => c.eventTime ≤ watermark) s.out
        finish watermark out)
      (do
        let watermark := CtvAttribution.eventTimeWatermark s.watermark (Event.eventTime ev) allowedLateness
        let out ← CtvAttribution.release window candidates held (pending.filter fun c => c.eventTime ≤ watermark) s.out
        finish' watermark out) := by
  refine ((eventTimeWatermark_agrees s.watermark (Event.eventTime ev)).bind_ok
    ((release_agrees _ s.out).bind fun out _ _ => hfinish _ out)).congr ?_
  simp only [hheld, hpending, List.forall_mem_append, List.mem_filter, decide_eq_true_eq]
  constructor
  · intro h
    exact ⟨h.1, fun c hc hle => h.2.1 c ⟨hc, hle⟩, h.2.2.2⟩
  · intro h
    exact ⟨h.watermark, fun c hc => h.leaf c hc.1 hc.2, hs, h.expiry⟩

private theorem streamTick_agrees (hs : ∀ e ∈ s.exposures, InCalendar (e.eventTime + window)) :
    AgreesWhere (TickFits window allowedLateness (fun e => InCalendar (e.eventTime + window)) s ev)
      (streamTick window allowedLateness candidates s ev)
      (CtvAttribution.streamTick window allowedLateness candidates s ev) := by
  cases ev with
  | build e =>
    exact tick_agrees (.build e) hs rfl (List.append_nil s.pending).symm fun _ _ =>
      (expiries_agree (s.exposures ++ [e])).before _
  | probe c =>
    exact tick_agrees (.probe c) hs (List.append_nil s.exposures).symm rfl fun _ _ =>
      (expiries_agree s.exposures).before _

end tick

/-- The states the pass goes through are those over unbounded instants. -/
theorem foldlM_streamTick_of_checked {events : List Event} {s t : StreamVars}
    (hs : ∀ e ∈ s.exposures, InCalendar (e.eventTime + window))
    (h : events.foldlM (streamTick window allowedLateness candidates) s = .ok t) :
    events.foldlM (CtvAttribution.streamTick window allowedLateness candidates) s = .ok t := by
  induction events generalizing s with
  | nil =>
    cases h
    rfl
  | cons ev events ih =>
    rw [List.foldlM_cons, bind_eq_ok_iff] at h ⊢
    obtain ⟨u, hu, h⟩ := h
    obtain ⟨hfits, hu⟩ := (streamTick_agrees hs u).mp hu
    exact ⟨u, hu, ih (fun e he => ((streamTick_leaves hu).exposures e he).elim (hs e) (hfits.expiry e)) h⟩

/-- The first event of the rest, and the rest after it. -/
theorem timesFit_cons_iff {ev : Event} {events : List Event} {s : StreamVars} :
    TimesFit window allowedLateness expiry s.pending (ev :: events) ↔
      TickFits window allowedLateness expiry s ev ∧
        TimesFit window allowedLateness expiry ((queued s ev).filter fun c =>
          CtvAttribution.eventTimeWatermark s.watermark (Event.eventTime ev) allowedLateness < c.eventTime) events := by
  have hbuilds : Arrival.builds (ev :: events) = Arrival.builds [ev] ++ Arrival.builds events :=
    Arrival.builds_append [ev] events
  have hprobes : s.pending ++ Arrival.probes (ev :: events) = queued s ev ++ Arrival.probes events := by
    rw [queued, List.append_assoc, ← Arrival.probes_append]
    rfl
  constructor
  · intro h
    obtain ⟨hw, he, hl⟩ := h
    rw [hbuilds, List.forall_mem_append] at he
    rw [hprobes, List.forall_mem_append] at hl
    rw [List.forall_mem_cons] at hw
    refine ⟨⟨hw.1, fun c hc _ => hl.1 c hc, he.1⟩, hw.2, he.2, ?_⟩
    rw [List.forall_mem_append]
    exact ⟨fun c hc => hl.1 c (List.mem_filter.mp hc).1, hl.2⟩
  · intro h
    obtain ⟨htick, hw, he, hl⟩ := h
    rw [List.forall_mem_append] at hl
    refine ⟨?_, ?_, ?_⟩
    · rw [List.forall_mem_cons]
      exact ⟨htick.watermark, hw⟩
    · rw [hbuilds, List.forall_mem_append]
      exact ⟨htick.expiry, he⟩
    · rw [hprobes, List.forall_mem_append]
      refine ⟨fun c hc => ?_, hl.2⟩
      -- a queued conversion is released by this tick or stays pending
      by_cases hle : c.eventTime ≤
          CtvAttribution.eventTimeWatermark s.watermark (Event.eventTime ev) allowedLateness
      · exact htick.leaf c hc hle
      · exact hl.1 c (List.mem_filter.mpr ⟨hc, decide_eq_true (not_le.mp hle)⟩)

/-- From any point of a pass on, what is left of it raises where some time leaves the calendar. -/
theorem rest_agrees {tick : StreamVars → Event → Except Raised StreamVars}
    {tick' : StreamVars → Event → Except ValueError StreamVars}
    (htick : ∀ s ev, (∀ e ∈ s.exposures, expiry e) →
      AgreesWhere (TickFits window allowedLateness expiry s ev) (tick s ev) (tick' s ev))
    (hleaves : ∀ s ev t, tick' s ev = .ok t → Leaves allowedLateness s ev t)
    (events : List Event) (s : StreamVars) (hs : ∀ e ∈ s.exposures, expiry e) :
    AgreesWhere (TimesFit window allowedLateness expiry s.pending events)
      (do
        let s ← events.foldlM tick s
        let out ← release window candidates s.exposures s.pending s.out
        return StreamResult.mk out { peak := s.peak, evicted := s.evicted, final := s.exposures.length })
      (do
        let s ← events.foldlM tick' s
        let out ← CtvAttribution.release window candidates s.exposures s.pending s.out
        return StreamResult.mk out { peak := s.peak, evicted := s.evicted, final := s.exposures.length }) := by
  induction events generalizing s with
  | nil =>
    refine ((release_agrees s.pending s.out).map fun out => StreamResult.mk out _).congr ?_
    constructor
    · intro h
      exact ⟨nofun, nofun, by simpa [Arrival.probes] using h⟩
    · intro h
      simpa [Arrival.probes] using h.leaf
  | cons ev events ih =>
    simp only [List.foldlM_cons, bind_assoc]
    refine ((htick s ev hs).bind fun t hfits ht => ?_).congr timesFit_cons_iff.symm
    have hleft := hleaves s ev t ht
    rw [← hleft.pending]
    exact ih t fun e he => (hleft.exposures e he).elim (hs e) (hfits.expiry e)

/-- The pass over one household raises exactly where some time of it leaves the calendar, or
where it raises over unbounded instants. -/
theorem attributeHouseholdStreaming_agrees (events : List Event) :
    AgreesWhere (PassFits window allowedLateness events)
      (attributeHouseholdStreaming window allowedLateness candidates events)
      (CtvAttribution.attributeHouseholdStreaming window allowedLateness candidates events) := by
  have hp := sortedBy_perm arrivalKey events
  refine (rest_agrees (fun _ _ hs => streamTick_agrees hs) (fun _ _ _ h => streamTick_leaves h)
    (sortedBy arrivalKey events) _ (by simp)).congr ?_
  exact ⟨fun h => h.perm hp.symm, fun h => h.perm hp⟩

private theorem passFits_flatten_iff {buckets : List (List Event)} :
    PassFits window allowedLateness buckets.flatten ↔ ∀ events ∈ buckets, PassFits window allowedLateness events := by
  constructor
  · intro h events hevents
    refine ⟨fun ev hev => h.watermark ev (List.mem_flatten.mpr ⟨events, hevents, hev⟩), fun e he => h.expiry e ?_,
      fun c hc => h.leaf c ?_⟩
    · rw [Arrival.mem_builds] at he ⊢
      exact List.mem_flatten.mpr ⟨events, hevents, he⟩
    · rw [List.nil_append, Arrival.mem_probes] at hc ⊢
      exact List.mem_flatten.mpr ⟨events, hevents, hc⟩
  · intro h
    refine ⟨fun ev hev => ?_, fun e he => ?_, fun c hc => ?_⟩
    · obtain ⟨events, hevents, hev⟩ := List.mem_flatten.mp hev
      exact (h events hevents).watermark ev hev
    · obtain ⟨events, hevents, he⟩ := List.mem_flatten.mp (Arrival.mem_builds.mp he)
      exact (h events hevents).expiry e (Arrival.mem_builds.mpr he)
    · obtain ⟨events, hevents, hc⟩ := List.mem_flatten.mp (Arrival.mem_probes.mp hc)
      exact (h events hevents).leaf c (Arrival.mem_probes.mpr hc)

/-- Every time the engine computes over its two streams is in the calendar. -/
structure RunFits (allowedLateness : Int) (exposures : List Exposure) (resolved : List ResolvedConversion) : Prop where
  exposures : ∀ e ∈ exposures, InCalendar (e.eventTime - allowedLateness) ∧ InCalendar (e.eventTime + hotWindow)
  conversions : ∀ c ∈ oneRowPerConversion resolved,
    InCalendar (c.eventTime - allowedLateness) ∧ LeafFits hotWindow c

private theorem passFits_taggedEvents_iff :
    PassFits hotWindow allowedLateness (taggedEvents exposures resolved) ↔ RunFits allowedLateness exposures resolved := by
  have hbuild {e : Exposure} : .build e ∈ taggedEvents exposures resolved ↔ e ∈ exposures := by
    simp [taggedEvents]
  have hprobe {c : ResolvedConversion} :
      .probe c ∈ taggedEvents exposures resolved ↔ c ∈ oneRowPerConversion resolved := by
    simp [taggedEvents]
  constructor
  · intro h
    constructor
    · intro e he
      exact ⟨h.watermark _ (hbuild.mpr he), h.expiry e (Arrival.mem_builds.mpr (hbuild.mpr he))⟩
    · intro c hc
      exact ⟨h.watermark _ (hprobe.mpr hc), h.leaf c (Arrival.mem_probes.mpr (hprobe.mpr hc))⟩
  · intro h
    refine ⟨fun ev hev => ?_, fun e he => ?_, fun c hc => ?_⟩
    · cases ev with
      | build e => exact (h.exposures e (hbuild.mp hev)).1
      | probe c => exact (h.conversions c (hprobe.mp hev)).1
    · exact (h.exposures e (hbuild.mp (Arrival.mem_builds.mp he))).2
    · exact (h.conversions c (hprobe.mp (Arrival.mem_probes.mp hc))).2

theorem runAttribution_agrees (exposures : List Exposure) (resolved : List ResolvedConversion) (allowedLateness : Int) :
    AgreesWhere (RunFits allowedLateness exposures resolved) (runAttribution exposures resolved allowedLateness)
      (CtvAttribution.runAttribution exposures resolved allowedLateness) := by
  refine ((AgreesWhere.mapM fun events _ => attributeHouseholdStreaming_agrees events).map _).congr ?_
  have hperm : (householdEvents exposures resolved).values.flatten.Perm (taggedEvents exposures resolved) :=
    OrderedDict.flatten_values_groupBy_perm _ _
  rw [← passFits_flatten_iff, ← passFits_taggedEvents_iff]
  exact ⟨fun h => h.perm hperm.symm, fun h => h.perm hperm⟩

theorem attributeOracle_agrees (exposures : List Exposure) (resolved : List ResolvedConversion) (window : Int) :
    AgreesWhere (∀ c ∈ oneRowPerConversion resolved, LeafFits window c) (attributeOracle exposures resolved window)
      (CtvAttribution.attributeOracle exposures resolved window) := by
  refine ((AgreesWhere.mapM fun group _ => attributeHousehold_agrees group.2).map _).congr ?_
  have hperm := OrderedDict.flatten_values_groupBy_perm (fun r : ResolvedConversion => r.householdId)
    (oneRowPerConversion resolved)
  simp only [← hperm.mem_iff, OrderedDict.values, List.mem_flatten, List.mem_map]
  constructor
  · intro h c hc
    obtain ⟨_, ⟨group, hgroup, rfl⟩, hc⟩ := hc
    exact h group hgroup c hc
  · intro h group hgroup c hc
    exact h c ⟨_, ⟨group, hgroup, rfl⟩, hc⟩

end agreement
end CtvAttribution.Checked
