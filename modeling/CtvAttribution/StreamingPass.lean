import CtvAttribution.Dataflow
import CtvAttribution.LastTouch
import CtvAttribution.Library.KeepingJoin
import CtvAttribution.ResolvedStreams
import Mathlib.Algebra.Order.Group.Int

/-! The streaming pass refines the watermark join: each conversion gets the leaf over the
exposures the join releases it against. -/
namespace CtvAttribution
open Library WatermarkJoin

/-- The household join at any window. -/
def streamJoin (window allowedLateness : Int) : WatermarkJoin Exposure ResolvedConversion Int where
  buildTime := Exposure.eventTime
  probeTime c := c.eventTime
  lateness := allowedLateness
  window := window

/-- The household join of the hot path. -/
abbrev hotJoin (allowedLateness : Int) : WatermarkJoin Exposure ResolvedConversion Int :=
  streamJoin hotWindow allowedLateness

/-- The streaming variables over a join state; the two counters follow no decision. -/
def mirror (st : State Exposure ResolvedConversion Int) (out : List Candidate) (peak evicted : Nat) :
    StreamVars :=
  { exposures := st.held, pending := st.waiting, out, watermark := st.watermark, peak, evicted }

/-- The arrival order is the ingest order first. -/
theorem ingestTime_le_of_arrivalKey_le {x y : Event} (h : arrivalKey x ≤ arrivalKey y) :
    Event.ingestTime x ≤ Event.ingestTime y := by
  rcases Prod.Lex.toLex_le_toLex.mp h with hlt | ⟨he, _⟩
  · exact hlt.le
  · exact he.le

section pass
variable (window allowedLateness : Int) (candidates : OrderedDict String (List String))

private theorem eventTimeWatermark_eq (w : Option Int) (t : Int) :
    eventTimeWatermark w t allowedLateness = (streamJoin window allowedLateness).advance w t := by
  cases w <;> rfl

theorem release_eq (exposures : List Exposure) (released : List ResolvedConversion)
    (out : List Candidate) :
    release window candidates exposures released out =
      (do return out ++ (← released.mapM (attributeOne exposures window candidates))) :=
  foldlM_append_singleton _ released out

theorem eventTimeWatermark_mark (st : State Exposure ResolvedConversion Int) (ev : Event) :
    eventTimeWatermark st.watermark (Event.eventTime ev) allowedLateness =
      (streamJoin window allowedLateness).mark st ev := by
  rw [eventTimeWatermark_eq window]
  cases ev <;> rfl

/-- A tick attributes what the join finds due, moves to the join's next state and counts
what it holds and what it dropped. -/
theorem streamTick_mirror (st : State Exposure ResolvedConversion Int) (out : List Candidate)
    (peak evicted : Nat) (ev : Event) :
    streamTick window allowedLateness candidates (mirror st out peak evicted) ev =
      (do
        let more ← ((streamJoin window allowedLateness).due st ev).mapM
          (attributeOne (arrived st ev) window candidates)
        return mirror ((streamJoin window allowedLateness).step st ev) (out ++ more)
          (max peak ((streamJoin window allowedLateness).step st ev).held.length)
          (evicted + ((arrived st ev).length - ((streamJoin window allowedLateness).step st ev).held.length))) := by
  have mark := eventTimeWatermark_mark window allowedLateness st ev
  unfold streamTick
  simp only [mirror, mark, release_eq, bind_assoc, pure_bind]
  cases ev <;> simp only [due, step, arrived, queued, Arrival.builds, Arrival.probes, List.append_nil] <;> rfl

/-- Ticks that attribute what is due and move on by `next` attribute its schedule, flush
included. -/
theorem foldlM_eq_scheduleBy {tick : StreamVars → Event → Except ValueError StreamVars}
    {next : State Exposure ResolvedConversion Int → Event → State Exposure ResolvedConversion Int}
    (htick : ∀ st out peak evicted ev, ∃ peak' evicted', tick (mirror st out peak evicted) ev =
      (do
        let more ← ((streamJoin window allowedLateness).due st ev).mapM
          (attributeOne (arrived st ev) window candidates)
        return mirror (next st ev) (out ++ more) peak' evicted'))
    (events : List Event) (st : State Exposure ResolvedConversion Int) (out : List Candidate)
    (peak evicted : Nat) :
    (do
      let s ← events.foldlM tick (mirror st out peak evicted)
      release window candidates s.exposures s.pending s.out) =
      (do
        let rest ← ((streamJoin window allowedLateness).scheduleBy next st events).mapM
          fun (c, snapshot) => attributeOne snapshot window candidates c
        return out ++ rest) := by
  induction events generalizing st out peak evicted with
  | nil =>
    simp only [List.foldlM_nil, pure_bind, mirror, release_eq, scheduleBy, List.mapM_map]
    rfl
  | cons ev events ih =>
    obtain ⟨peak', evicted', hev⟩ := htick st out peak evicted ev
    simp only [List.foldlM_cons, hev, bind_assoc, pure_bind, ih, scheduleBy, List.mapM_append,
      List.mapM_map, List.append_assoc]
    rfl

/-- The whole pass attributes the join's schedule. -/
theorem attributeHouseholdStreaming_schedule (events : List Event) :
    (do return (← attributeHouseholdStreaming window allowedLateness candidates events).candidates) =
      ((streamJoin window allowedLateness).schedule initial (sortedBy arrivalKey events)).mapM
        fun (c, snapshot) => attributeOne snapshot window candidates c := by
  have h := foldlM_eq_scheduleBy window allowedLateness candidates
    (fun st out peak evicted ev => ⟨_, _, streamTick_mirror window allowedLateness candidates st out peak evicted ev⟩)
    (sortedBy arrivalKey events) initial [] 0 0
  simp only [List.nil_append, bind_pure] at h
  simp only [attributeHouseholdStreaming, bind_assoc, pure_bind, bind_pure, schedule_eq_scheduleBy]
  exact h

/-- Every conversion gets one candidate, which carries its record. -/
theorem records_attributeHouseholdStreaming {events : List Event} {result : StreamResult}
    (hr : attributeHouseholdStreaming window allowedLateness candidates events = .ok result) :
    (result.candidates.map fun cand => cand.row.toResolvedConversion).Perm (Arrival.probes events) := by
  have hcands : _ = Except.ok result.candidates :=
    (attributeHouseholdStreaming_schedule window allowedLateness candidates events).symm.trans (by rw [hr]; rfl)
  rw [map_eq_of_mapM_eq_ok hcands (g := Prod.fst) fun p _ cand he => attributeOne_keeps he]
  exact ((streamJoin window allowedLateness).schedule_probes initial (sortedBy arrivalKey events)).trans
    (Arrival.probes_perm (sortedBy_perm arrivalKey events))

private theorem attributeHouseholdStreaming_eq (events : List Event) :
    (do return (← attributeHouseholdStreaming hotWindow allowedLateness candidates events).candidates) =
      ((hotJoin allowedLateness).schedule initial (sortedBy arrivalKey events)).mapM fun (c, snapshot) =>
        attributeOne snapshot hotWindow candidates c :=
  attributeHouseholdStreaming_schedule hotWindow allowedLateness candidates events

end pass

/-- The exposures of a household a conversion is attributed against: all but those that
arrive after its release and those evicted before it arrives. -/
def visible (allowedLateness : Int) (events : List Event) (c : ResolvedConversion) : List Exposure :=
  (Arrival.builds events).filter fun e =>
    ¬ (hotJoin allowedLateness).Missed arrivalKey events c e ∧
      ¬ (hotJoin allowedLateness).Evicted arrivalKey events c e

section visible
variable {allowedLateness : Int} {events : List Event} {c : ResolvedConversion}

theorem mem_visible {e : Exposure} : e ∈ visible allowedLateness events c ↔ .build e ∈ events ∧
    ¬ (hotJoin allowedLateness).Missed arrivalKey events c e ∧
      ¬ (hotJoin allowedLateness).Evicted arrivalKey events c e := by
  rw [visible, List.mem_filter, Arrival.mem_builds, decide_eq_true_eq]

theorem eligible_of_mem {l : List Exposure} {e : Exposure} (h : e ∈ eligible l c hotWindow) :
    (hotJoin allowedLateness).Eligible c e := by
  obtain ⟨_, hlo, hhi⟩ := mem_eligible.mp h
  exact ⟨hhi, by show c.eventTime ≤ e.eventTime + hotWindow; omega⟩

/-- What one household's events must satisfy: equal arrival keys mean equal events, and
each conversion arrives once. -/
structure HouseholdStream (events : List Event) : Prop where
  keyed : Keyed arrivalKey events
  once : (Arrival.probes events).Nodup

private theorem HouseholdStream.inOrder (h : HouseholdStream events) :
    InOrder arrivalKey (sortedBy arrivalKey events) where
  sorted := sortedBy_pairwise arrivalKey events
  inj := h.keyed.mono fun _ hx => (mem_sortedBy _).mp hx
  probesOnce := (Arrival.probes_perm (sortedBy_perm arrivalKey events)).nodup_iff.mpr h.once

variable {candidates : OrderedDict String (List String)}

/-- Whatever else the join holds at release, the leaf decides as over the visible exposures. -/
theorem attributeOne_snapshot (h : HouseholdStream events)
    (hk : Keyed Exposure.exposureId (Arrival.builds events)) {snapshot : List Exposure}
    (hs : (c, snapshot) ∈ (hotJoin allowedLateness).schedule initial (sortedBy arrivalKey events)) :
    attributeOne snapshot hotWindow candidates c =
      attributeOne (visible allowedLateness events c) hotWindow candidates c := by
  have hmem (x : Event) : x ∈ sortedBy arrivalKey events ↔ x ∈ events := mem_sortedBy _
  have hsnap {e : Exposure} (he : (hotJoin allowedLateness).Eligible c e) :
      e ∈ snapshot ↔ e ∈ visible allowedLateness events c := by
    rw [mem_snapshot_iff h.inOrder hs he, hmem, missed_congr hmem, evicted_congr hmem, mem_visible]
  unfold attributeOne
  split
  · rfl
  · symm
    apply lastTouch_congr (hk.mono fun _ he => (List.mem_filter.mp he).1)
    intro e
    constructor
    · intro he
      obtain ⟨hv, hwin⟩ := mem_eligible.mp he
      exact mem_eligible.mpr ⟨(hsnap (eligible_of_mem he)).mpr hv, hwin⟩
    · intro he
      obtain ⟨hv, hwin⟩ := mem_eligible.mp he
      exact mem_eligible.mpr ⟨(hsnap (eligible_of_mem he)).mp hv, hwin⟩

/-- One household's pass: every conversion gets one row, decided over what is visible to it. -/
structure HouseholdResult (allowedLateness : Int) (candidates : OrderedDict String (List String))
    (events : List Event) (result : StreamResult) : Prop where
  mem : ∀ cand, cand ∈ result.candidates ↔ ∃ c, .probe c ∈ events ∧
    attributeOne (visible allowedLateness events c) hotWindow candidates c = .ok cand
  ids : (result.candidates.map fun cand => cand.row.conversionId).Perm
    ((Arrival.probes events).map fun c => c.conversionId)

private theorem mem_schedule_bucket {c : ResolvedConversion} :
    (∃ snapshot, (c, snapshot) ∈ (hotJoin allowedLateness).schedule initial (sortedBy arrivalKey events)) ↔
      .probe c ∈ events := by
  have hperm := (hotJoin allowedLateness).schedule_probes initial (sortedBy arrivalKey events)
  have hprobes := Arrival.probes_perm (sortedBy_perm arrivalKey events)
  rw [← Arrival.mem_probes, ← (hperm.trans hprobes).mem_iff, List.mem_map]
  exact ⟨fun ⟨s, hs⟩ => ⟨_, hs, rfl⟩, fun ⟨⟨_, s⟩, hs, he⟩ => ⟨s, he ▸ hs⟩⟩

/-- The pass is the leaf over what is visible, in the join's release order. -/
theorem attributeHouseholdStreaming_visible (h : HouseholdStream events)
    (hk : Keyed Exposure.exposureId (Arrival.builds events)) :
    (do return (← attributeHouseholdStreaming hotWindow allowedLateness candidates events).candidates) =
      ((hotJoin allowedLateness).schedule initial (sortedBy arrivalKey events)).mapM fun p =>
        attributeOne (visible allowedLateness events p.1) hotWindow candidates p.1 :=
  (attributeHouseholdStreaming_eq allowedLateness candidates events).trans
    (mapM_congr fun _ hp => attributeOne_snapshot h hk hp)

/-- Every conversion of a household is released once, whatever its exposures. -/
theorem ids_attributeHouseholdStreaming {result : StreamResult}
    (hr : attributeHouseholdStreaming hotWindow allowedLateness candidates events = .ok result) :
    (result.candidates.map fun cand => cand.row.conversionId).Perm
      ((Arrival.probes events).map fun c => c.conversionId) := by
  have hids := (records_attributeHouseholdStreaming hotWindow allowedLateness candidates hr).map
    fun c : ResolvedConversion => c.conversionId
  rwa [List.map_map] at hids

theorem attributeHouseholdStreaming_spec (h : HouseholdStream events)
    (hk : Keyed Exposure.exposureId (Arrival.builds events)) {result : StreamResult}
    (hr : attributeHouseholdStreaming hotWindow allowedLateness candidates events = .ok result) :
    HouseholdResult allowedLateness candidates events result := by
  have hcands : _ = Except.ok result.candidates :=
    (attributeHouseholdStreaming_visible h hk).symm.trans (by rw [hr]; rfl)
  constructor
  · intro cand
    rw [mem_of_mapM_eq_ok hcands]
    constructor
    · intro h
      obtain ⟨p, hp, he⟩ := h
      exact ⟨p.1, mem_schedule_bucket.mp ⟨p.2, hp⟩, he⟩
    · intro h
      obtain ⟨c, hc, he⟩ := h
      obtain ⟨s, hs⟩ := mem_schedule_bucket.mpr hc
      exact ⟨(c, s), hs, he⟩
  · exact ids_attributeHouseholdStreaming hr

/-- The pass raises only where the hot rule does. -/
theorem attributeHouseholdStreaming_ok (h : HouseholdStream events)
    (hk : Keyed Exposure.exposureId (Arrival.builds events))
    (hok : ∀ c, .probe c ∈ events →
      ∃ cand, attributeOne (visible allowedLateness events c) hotWindow candidates c = .ok cand) :
    ∃ result, attributeHouseholdStreaming hotWindow allowedLateness candidates events = .ok result := by
  obtain ⟨cands, hcands⟩ := exists_mapM_eq_ok
    fun p (hp : p ∈ (hotJoin allowedLateness).schedule initial (sortedBy arrivalKey events)) =>
      hok p.1 (mem_schedule_bucket.mp ⟨p.2, hp⟩)
  obtain ⟨result, hr, _⟩ := bind_eq_ok_iff.mp
    ((attributeHouseholdStreaming_visible h hk).trans hcands)
  exact ⟨result, hr⟩

end visible
end CtvAttribution
