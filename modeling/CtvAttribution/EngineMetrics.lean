import CtvAttribution.EngineRetries
import CtvAttribution.Library.StopTriples
import CtvAttribution.OrderIndependence
import CtvAttribution.StreamStates

/-! The metrics of the engine process: what its registry holds between any two writes and
after completed runs. -/
namespace CtvAttribution
open Library Script

/-- The default registry: the `resolve_` and `engine_` metrics, and the module's high-water
variable. The lag is in microseconds. -/
structure Registry where
  conversionsConsumed : Nat
  inputBacklog : Nat
  conversionsResolved : Nat
  conversionsUnresolved : Nat
  conversionsAmbiguous : Nat
  emittedDevice : Nat
  emittedIp : Nat
  processed : Nat
  attributed : Nat
  unattributed : Nat
  assists : Nat
  ambiguousDeferred : Nat
  exposuresLanded : Nat
  dedupSuppressed : Nat
  exposuresEvicted : Nat
  joinStatePeak : Nat
  joinStateSize : Nat
  joinStateCurrent : Nat
  watermarkLag : Int
  deriving DecidableEq, Repr

/-- A fresh process. -/
def Registry.zero : Registry := ⟨0, 0, 0, 0, 0, 0, 0, 0, 0, 0, 0, 0, 0, 0, 0, 0, 0, 0, 0⟩

abbrev Metered := Script Registry ValueError

namespace Metered

/-- `EMITTED.labels(resolution=r.resolution).inc()`. -/
def emit (r : ResolvedConversion) : Metered Unit := Script.modify fun m => match r.resolution with
  | .device => { m with emittedDevice := m.emittedDevice + 1 }
  | .ip => { m with emittedIp := m.emittedIp + 1 }

/-- `resolve.metrics.observe`: one consumed conversion and its records. -/
def observeResolved (records : List ResolvedConversion) : Metered Unit := do
  Script.modify fun m => { m with conversionsConsumed := m.conversionsConsumed + 1 }
  match records with
  | [] => Script.modify fun m => { m with conversionsUnresolved := m.conversionsUnresolved + 1 }
  | first :: _ => do
    Script.modify fun m => { m with conversionsResolved := m.conversionsResolved + 1 }
    if first.ambiguous then
      Script.modify fun m => { m with conversionsAmbiguous := m.conversionsAmbiguous + 1 }
    Script.forEach records emit

/-- `streaming.metrics.observe`: one final attributed record. -/
def observe (row : AttributedConversion) : Metered Unit := do
  Script.modify fun m => { m with processed := m.processed + 1 }
  if row.attributed then do
    Script.modify fun m => { m with attributed := m.attributed + 1 }
    Script.modify fun m => { m with assists := m.assists + row.assists.length }
  else do
    Script.modify fun m => { m with unattributed := m.unattributed + 1 }
    if row.candidateCount > 1 then
      Script.modify fun m => { m with ambiguousDeferred := m.ambiguousDeferred + 1 }

/-- `observe_state`: one household's join state. -/
def observeState (state : StreamState) : Metered Unit := do
  Script.modify fun m => { m with exposuresEvicted := m.exposuresEvicted + state.evicted }
  Script.modify fun m => { m with joinStatePeak := max m.joinStatePeak state.peak }
  Script.modify fun m => { m with joinStateSize := m.joinStatePeak }
  Script.modify fun m => { m with joinStateCurrent := state.final }

/-- `resolve_conversions` against a loaded graph. -/
def resolveConversions (conversions : List Conversion) (index : GraphIndex) : Metered (List ResolvedConversion) := do
  Script.modify fun m => { m with inputBacklog := conversions.length }
  let resolved ← Script.collect conversions fun conv => do
    let rows := resolveOne conv index
    observeResolved rows
    return rows
  return resolved.flatten

/-- The household loop of `run_attribution`. -/
def household (allowedLateness : Int) (candidates : OrderedDict String (List String)) (events : List Event) :
    Metered (List AttributedConversion) := do
  let result ← Script.ofExcept (attributeHouseholdStreaming hotWindow allowedLateness candidates events)
  observeState result.state
  Script.forEach (result.candidates.map Candidate.row) observe
  return result.candidates.map Candidate.row

/-- `run_attribution`. -/
def runAttribution (exposures : List Exposure) (resolved : List ResolvedConversion) (allowedLateness : Int) :
    Metered (List AttributedConversion) := do
  let rows ← Script.collect (householdEvents exposures resolved).values
    (household allowedLateness (candidateHouseholdsByConversion resolved))
  return sortedBy (fun r => r.conversionId) rows.flatten

/-- `max(.., default=0.0)` of the arrival lateness over both streams. -/
def peakLateness (exposures : List Exposure) (resolved : List ResolvedConversion) : Int :=
  maxOf (exposures.map (fun e => e.ingestTime - e.eventTime) ++ resolved.map fun r => r.ingestTime - r.eventTime)

end Metered

/-- What one run drains, and its settings. -/
structure EngineInput where
  dedup : Bool
  allowedLateness : Int
  index : GraphIndex
  exposures : List Exposure
  conversions : List Conversion

/-- `run_engine` without its metrics. -/
def EngineInput.engineRun (input : EngineInput) : Except ValueError EngineRun :=
  runEngine input.dedup input.allowedLateness input.index input.exposures input.conversions

namespace Metered

/-- `run_engine`. -/
def runEngine (input : EngineInput) : Metered EngineRun := do
  let resolvedRaw ← resolveConversions input.conversions input.index
  let (exposures, resolved, suppressed) := engineStreams input.dedup input.exposures resolvedRaw
  Script.modify fun m => { m with dedupSuppressed := m.dedupSuppressed + suppressed }
  Script.modify fun m => { m with watermarkLag := peakLateness exposures resolved }
  let rows ← runAttribution exposures resolved input.allowedLateness
  return { exposures, rows, resolved := resolved.length, suppressed }

/-- `run_engine`, and the count `land_run` adds once both appends are done. -/
def engine (input : EngineInput) : Metered EngineRun := do
  let run ← runEngine input
  Script.modify fun m => { m with exposuresLanded := m.exposuresLanded + run.exposures.length }
  return run

end Metered

/-- Every count against its parts, of which `c` conversions and `p` rows are counted ahead. -/
structure Counting (c p : Nat) (m : Registry) : Prop where
  consumed : m.conversionsConsumed = m.conversionsResolved + m.conversionsUnresolved + c
  ambiguous : m.conversionsAmbiguous ≤ m.conversionsResolved
  processed : m.processed = m.attributed + m.unattributed + p
  deferred : m.ambiguousDeferred ≤ m.unattributed
  size : m.joinStateSize ≤ m.joinStatePeak
  current : m.joinStateCurrent ≤ m.joinStateSize

/-- What the registry holds between two writes: the observation in progress only is counted
ahead. -/
def Observed (m : Registry) : Prop := ∃ c p, c + p ≤ 1 ∧ Counting c p m

/-- A part of the engine that starts and ends with nothing counted ahead. -/
def Steady {α : Type} (p : Metered α) : Prop := Triple (Counting 0 0) p Observed fun _ => Counting 0 0

section observed
variable {α β ι : Type} {c p : Nat}

theorem Counting.observed {m : Registry} (h : Counting c p m) (hle : c + p ≤ 1) : Observed m := ⟨c, p, hle, h⟩

private theorem steady_done (a : α) : Steady (Script.done a) :=
  (triple_done a fun _ h => h.observed (Nat.zero_le _)).conseq (fun _ h => h) (fun _ h => h) fun _ _ h => h.2

private theorem steady_modify {f : Registry → Registry} (hf : ∀ m, Counting 0 0 m → Counting 0 0 (f m)) :
    Steady (Script.modify f) :=
  triple_modify hf (fun _ h => h.observed (Nat.zero_le _)) fun _ h => h.observed (Nat.zero_le _)

theorem Steady.bind {p : Metered α} {q : α → Metered β} (hp : Steady p) (hq : ∀ a, Steady (q a)) : Steady (p >>= q) :=
  Triple.bind hp hq

private theorem steady_forEach {l : List ι} {body : ι → Metered Unit} (h : ∀ i ∈ l, Steady (body i)) :
    Steady (Script.forEach l body) :=
  triple_forEach body (I := fun _ => Counting 0 0) (fun _ _ h => h.observed (Nat.zero_le _)) (fun _ i hi => h i hi) []

private theorem steady_collect {l : List ι} {body : ι → Metered α} (h : ∀ i ∈ l, Steady (body i)) :
    Steady (Script.collect l body) :=
  triple_collect body (I := fun _ _ => Counting 0 0) (fun _ _ _ h => h.observed (Nat.zero_le _)) (fun _ _ i hi => h i hi) [] []

private theorem steady_emit (r : ResolvedConversion) : Steady (Metered.emit r) := by
  apply steady_modify
  intro m h
  cases r.resolution <;> exact ⟨h.consumed, h.ambiguous, h.processed, h.deferred, h.size, h.current⟩

private theorem steady_observeResolved (records : List ResolvedConversion) :
    Steady (Metered.observeResolved records) := by
  have hconsumed : Triple (Counting 0 0) (Script.modify fun m =>
      { m with conversionsConsumed := m.conversionsConsumed + 1 } : Metered Unit) Observed fun _ => Counting 1 0 := by
    refine triple_modify (fun m h => ?_) (fun m h => h.observed (Nat.zero_le _)) fun m h => h.observed le_rfl
    exact ⟨congrArg (· + 1) h.consumed, h.ambiguous, h.processed, h.deferred, h.size, h.current⟩
  refine hconsumed.bind fun _ => ?_
  cases records with
  | nil =>
    refine triple_modify (fun m h => ?_) (fun m h => h.observed le_rfl) fun m h => h.observed (Nat.zero_le _)
    exact ⟨h.consumed, h.ambiguous, h.processed, h.deferred, h.size, h.current⟩
  | cons first rest =>
    have hresolved : Triple (Counting 1 0) (Script.modify fun m =>
        { m with conversionsResolved := m.conversionsResolved + 1 } : Metered Unit) Observed
        fun _ m => Counting 0 0 m ∧ m.conversionsAmbiguous < m.conversionsResolved := by
      refine triple_modify (fun m h => ?_) (fun m h => h.observed le_rfl) fun m h => h.1.observed (Nat.zero_le _)
      have hconsumed := h.consumed
      have hambiguous := h.ambiguous
      exact ⟨⟨by dsimp only; omega, by dsimp only; omega, h.processed, h.deferred, h.size, h.current⟩, by
        dsimp only
        omega⟩
    have hemits : Steady (Script.forEach (first :: rest) Metered.emit) := steady_forEach fun r _ => steady_emit r
    refine hresolved.bind fun _ => ?_
    dsimp only
    split
    · refine Triple.bind (Q := fun _ => Counting 0 0) ?_ fun _ => hemits
      refine triple_modify (fun m h => ?_) (fun m h => h.1.observed (Nat.zero_le _)) fun m h => h.observed (Nat.zero_le _)
      exact ⟨h.1.consumed, h.2, h.1.processed, h.1.deferred, h.1.size, h.1.current⟩
    · exact hemits.conseq (fun _ h => h.1) (fun _ h => h) fun _ _ h => h

private theorem steady_observe (row : AttributedConversion) : Steady (Metered.observe row) := by
  have hprocessed : Triple (Counting 0 0) (Script.modify fun m =>
      { m with processed := m.processed + 1 } : Metered Unit) Observed fun _ => Counting 0 1 := by
    refine triple_modify (fun m h => ?_) (fun m h => h.observed (Nat.zero_le _)) fun m h => h.observed le_rfl
    exact ⟨h.consumed, h.ambiguous, congrArg (· + 1) h.processed, h.deferred, h.size, h.current⟩
  refine hprocessed.bind fun _ => ?_
  split
  · refine Triple.bind (Q := fun _ => Counting 0 0) ?_ fun _ => ?_
    · refine triple_modify (fun m h => ?_) (fun m h => h.observed le_rfl) fun m h => h.observed (Nat.zero_le _)
      have hprocessed := h.processed
      exact ⟨h.consumed, h.ambiguous, by dsimp only; omega, h.deferred, h.size, h.current⟩
    · refine triple_modify (fun m h => ?_) (fun m h => h.observed (Nat.zero_le _)) fun m h => h.observed (Nat.zero_le _)
      exact ⟨h.consumed, h.ambiguous, h.processed, h.deferred, h.size, h.current⟩
  · refine Triple.bind (Q := fun _ m => Counting 0 0 m ∧ m.ambiguousDeferred < m.unattributed) ?_ fun _ => ?_
    · refine triple_modify (fun m h => ?_) (fun m h => h.observed le_rfl) fun m h => h.1.observed (Nat.zero_le _)
      have hprocessed := h.processed
      have hdeferred := h.deferred
      exact ⟨⟨h.consumed, h.ambiguous, by dsimp only; omega, by dsimp only; omega, h.size, h.current⟩, by
        dsimp only
        omega⟩
    · split
      · refine triple_modify (fun m h => ?_) (fun m h => h.1.observed (Nat.zero_le _)) fun m h => h.observed (Nat.zero_le _)
        exact ⟨h.1.consumed, h.1.ambiguous, h.1.processed, h.2, h.1.size, h.1.current⟩
      · exact (triple_done () fun m h => h.1.observed (Nat.zero_le _)).conseq (fun _ h => h) (fun _ h => h)
          fun _ _ h => h.2.1

/-- The peak is raised, then shown, before the occupancy under it is shown. -/
theorem steady_observeState (state : StreamState) (hfinal : state.final ≤ state.peak) :
    Steady (Metered.observeState state) := by
  have hevicted : Steady (Script.modify fun m =>
      { m with exposuresEvicted := m.exposuresEvicted + state.evicted }) :=
    steady_modify fun m h => ⟨h.consumed, h.ambiguous, h.processed, h.deferred, h.size, h.current⟩
  have hpeak : Triple (Counting 0 0) (Script.modify fun m =>
      { m with joinStatePeak := max m.joinStatePeak state.peak } : Metered Unit) Observed
      fun _ m => Counting 0 0 m ∧ state.peak ≤ m.joinStatePeak := by
    refine triple_modify (fun m h => ?_) (fun m h => h.observed (Nat.zero_le _)) fun m h => h.1.observed (Nat.zero_le _)
    exact ⟨⟨h.consumed, h.ambiguous, h.processed, h.deferred, h.size.trans (le_max_left _ _), h.current⟩,
      le_max_right _ _⟩
  have hsize : Triple (fun m => Counting 0 0 m ∧ state.peak ≤ m.joinStatePeak) (Script.modify fun m =>
      { m with joinStateSize := m.joinStatePeak } : Metered Unit) Observed
      fun _ m => Counting 0 0 m ∧ state.peak ≤ m.joinStateSize := by
    refine triple_modify (fun m h => ?_) (fun m h => h.1.observed (Nat.zero_le _)) fun m h => h.1.observed (Nat.zero_le _)
    exact ⟨⟨h.1.consumed, h.1.ambiguous, h.1.processed, h.1.deferred, le_rfl, h.1.current.trans h.1.size⟩, h.2⟩
  refine Triple.bind hevicted fun _ => hpeak.bind fun _ => hsize.bind fun _ => ?_
  refine triple_modify (fun m h => ?_) (fun m h => h.1.observed (Nat.zero_le _)) fun m h => h.observed (Nat.zero_le _)
  exact ⟨h.1.consumed, h.1.ambiguous, h.1.processed, h.1.deferred, h.1.size, hfinal.trans h.2⟩

private theorem steady_resolveConversions (conversions : List Conversion) (index : GraphIndex) :
    Steady (Metered.resolveConversions conversions index) := by
  refine Steady.bind (steady_modify fun m h => ?_) fun _ => Steady.bind (steady_collect fun conv _ => ?_) fun _ =>
    steady_done _
  · exact ⟨h.consumed, h.ambiguous, h.processed, h.deferred, h.size, h.current⟩
  · exact (steady_observeResolved _).bind fun _ => steady_done _

private theorem steady_household (allowedLateness : Int) (candidates : OrderedDict String (List String))
    (events : List Event) :
    Steady (Metered.household allowedLateness candidates events) := by
  have hpass := triple_ofExcept (C := Observed) (attributeHouseholdStreaming hotWindow allowedLateness candidates events)
    fun m (h : Counting 0 0 m) => h.observed (Nat.zero_le _)
  refine hpass.bind fun result => triple_of_fact fun hresult => ?_
  have hfinal := (counts_attributeHouseholdStreaming hresult).2.1
  exact (steady_observeState result.state hfinal).bind fun _ => (steady_forEach fun row _ => steady_observe row).bind
    fun _ => steady_done _

private theorem steady_engine (input : EngineInput) : Steady (Metered.engine input) := by
  have hrun : Steady (Metered.runEngine input) := by
    refine (steady_resolveConversions _ _).bind fun resolvedRaw => ?_
    refine Steady.bind (steady_modify fun m h => ?_) fun _ => Steady.bind (steady_modify fun m h => ?_) fun _ => ?_
    · exact ⟨h.consumed, h.ambiguous, h.processed, h.deferred, h.size, h.current⟩
    · exact ⟨h.consumed, h.ambiguous, h.processed, h.deferred, h.size, h.current⟩
    · refine Steady.bind (Steady.bind (steady_collect fun events _ => ?_) fun _ => steady_done _) fun _ => steady_done _
      exact steady_household _ _ events
  refine hrun.bind fun run => Steady.bind (steady_modify fun m h => ?_) fun _ => steady_done _
  exact ⟨h.consumed, h.ambiguous, h.processed, h.deferred, h.size, h.current⟩

end observed

/-- What the process has been through: the records of each consumed conversion, the rows
decided, the exposures joined and landed, the re-sends dropped. -/
structure Ledger where
  records : List (List ResolvedConversion)
  rows : List AttributedConversion
  joined : Nat
  landed : Nat
  suppressed : Nat

/-- The counters are the totals of the ledger. -/
structure Books (l : Ledger) (m : Registry) : Prop where
  consumed : m.conversionsConsumed = l.records.length
  resolved : m.conversionsResolved = l.records.countP fun rs => !rs.isEmpty
  unresolved : m.conversionsUnresolved = l.records.countP fun rs => rs.isEmpty
  ambiguous : m.conversionsAmbiguous = l.records.countP fun rs => rs.head?.any fun r => r.ambiguous
  emitted : m.emittedDevice + m.emittedIp = (l.records.map List.length).sum
  processed : m.processed = l.rows.length
  attributed : m.attributed = l.rows.countP fun r => r.attributed
  unattributed : m.unattributed = l.rows.countP fun r => !r.attributed
  assists : m.assists = (l.rows.map fun r => if r.attributed then r.assists.length else 0).sum
  deferred : m.ambiguousDeferred = l.rows.countP fun r => !r.attributed && 1 < r.candidateCount
  evicted : m.exposuresEvicted ≤ l.joined
  peak : m.joinStateSize ≤ m.joinStatePeak ∧ m.joinStatePeak ≤ l.joined
  landed : m.exposuresLanded = l.landed
  suppressed : m.dedupSuppressed = l.suppressed

section books
variable {l : Ledger}

private theorem books_zero : Books ⟨[], [], 0, 0, 0⟩ Registry.zero := by
  constructor <;> first | rfl | exact Nat.le_refl _ | exact ⟨Nat.le_refl _, Nat.le_refl _⟩

/-- The order of the rows is not counted. -/
theorem Books.perm {m : Registry} (h : Books l m) {rows : List AttributedConversion} (hrows : l.rows.Perm rows) :
    Books { l with rows := rows } m where
  consumed := h.consumed
  resolved := h.resolved
  unresolved := h.unresolved
  ambiguous := h.ambiguous
  emitted := h.emitted
  processed := h.processed.trans hrows.length_eq
  attributed := h.attributed.trans (hrows.countP_eq _)
  unattributed := h.unattributed.trans (hrows.countP_eq _)
  assists := h.assists.trans (hrows.map _).sum_nat
  deferred := h.deferred.trans (hrows.countP_eq _)
  evicted := h.evicted
  peak := h.peak
  landed := h.landed
  suppressed := h.suppressed

/-- A triple without a condition on stops. -/
abbrev Booked {α : Type} (l : Ledger) (p : Metered α) (l' : α → Ledger) : Prop :=
  Triple (Books l) p (fun _ => True) fun a => Books (l' a)

private theorem booked_observe (row : AttributedConversion) :
    Booked l (Metered.observe row) fun _ => { l with rows := l.rows ++ [row] } := by
  refine ⟨fun _ _ _ _ => trivial, fun m _ t h he => ?_⟩
  unfold Metered.observe at he
  obtain ⟨_, m₁, h₁, he⟩ := ends_bind'.mp he
  rw [ends_modify] at h₁
  subst h₁
  have hprocessed : m.processed + 1 = (l.rows ++ [row]).length := by
    rw [h.processed, List.length_append]
    rfl
  cases hatt : row.attributed with
  | true =>
    rw [if_pos hatt] at he
    obtain ⟨_, m₂, h₂, he⟩ := ends_bind'.mp he
    rw [ends_modify] at h₂ he
    subst h₂ he
    refine ⟨h.consumed, h.resolved, h.unresolved, h.ambiguous, h.emitted, hprocessed, ?_, ?_, ?_, ?_, h.evicted,
      h.peak, h.landed, h.suppressed⟩
    · simp [h.attributed, hatt]
    · simp [h.unattributed, hatt]
    · simp [h.assists, hatt]
    · simp [h.deferred, hatt]
  | false =>
    rw [if_neg (by rw [hatt]; exact Bool.false_ne_true)] at he
    obtain ⟨_, m₂, h₂, he⟩ := ends_bind'.mp he
    rw [ends_modify] at h₂
    subst h₂
    have hrest {n : Nat} (hn : n = (l.rows ++ [row]).countP fun r => !r.attributed && 1 < r.candidateCount)
        (he : t = { m with processed := m.processed + 1, unattributed := m.unattributed + 1, ambiguousDeferred := n }) :
        Books { l with rows := l.rows ++ [row] } t := by
      subst he
      refine ⟨h.consumed, h.resolved, h.unresolved, h.ambiguous, h.emitted, hprocessed, ?_, ?_, ?_, hn, h.evicted,
        h.peak, h.landed, h.suppressed⟩
      · simp [h.attributed, hatt]
      · simp [h.unattributed, hatt]
      · simp [h.assists, hatt]
    split at he
    · rename_i hmany
      exact hrest (by simp [h.deferred, hatt, hmany]) (ends_modify.mp he)
    · rename_i hmany
      exact hrest (by simp [h.deferred, hatt, hmany]) (ends_pure.mp he).1

/-- The emission loop touches the two emitted counts only. -/
theorem ends_emits {records : List ResolvedConversion} {m t : Registry}
    (h : (Script.forEach records Metered.emit).Ends m () t) : ∃ device ip,
      t = { m with emittedDevice := m.emittedDevice + device, emittedIp := m.emittedIp + ip } ∧
        device + ip = records.length := by
  induction records generalizing m with
  | nil =>
    obtain rfl := ends_forEach_nil.mp h
    exact ⟨0, 0, rfl, rfl⟩
  | cons r records ih =>
    obtain ⟨m₁, h₁, h₂⟩ := ends_forEach_cons.mp h
    obtain ⟨device, ip, rfl, hsum⟩ := ih h₂
    rw [Metered.emit, ends_modify] at h₁
    cases hres : r.resolution with
    | device =>
      rw [hres] at h₁
      subst h₁
      refine ⟨device + 1, ip, ?_, by rw [List.length_cons]; omega⟩
      simp only [Nat.add_assoc, Nat.add_comm 1]
    | ip =>
      rw [hres] at h₁
      subst h₁
      refine ⟨device, ip + 1, ?_, by rw [List.length_cons]; omega⟩
      simp only [Nat.add_assoc, Nat.add_comm 1]

private theorem booked_observeResolved (records : List ResolvedConversion) :
    Booked l (Metered.observeResolved records) fun _ => { l with records := l.records ++ [records] } := by
  refine ⟨fun _ _ _ _ => trivial, fun m _ t h he => ?_⟩
  obtain ⟨_, m₁, h₁, he⟩ := ends_bind'.mp he
  rw [ends_modify] at h₁
  subst h₁
  have hconsumed : m.conversionsConsumed + 1 = (l.records ++ [records]).length := by
    rw [h.consumed, List.length_append]
    rfl
  cases records with
  | nil =>
    have he := ends_modify.mp he
    subst he
    refine ⟨hconsumed, ?_, ?_, ?_, ?_, h.processed, h.attributed, h.unattributed, h.assists, h.deferred, h.evicted,
      h.peak, h.landed, h.suppressed⟩
    · simp [h.resolved]
    · simp [h.unresolved]
    · simp [h.ambiguous]
    · simp [h.emitted]
  | cons first rest =>
    obtain ⟨_, m₂, h₂, he⟩ := ends_bind'.mp he
    rw [ends_modify] at h₂
    subst h₂
    have hrest {n : Nat} {m' : Registry}
        (hn : n = (l.records ++ [first :: rest]).countP fun rs => rs.head?.any fun r => r.ambiguous)
        (hm : m' = { m with
          conversionsConsumed := m.conversionsConsumed + 1, conversionsResolved := m.conversionsResolved + 1
          conversionsAmbiguous := n })
        (he : (Script.forEach (first :: rest) Metered.emit).Ends m' () t) :
        Books { l with records := l.records ++ [first :: rest] } t := by
      obtain ⟨device, ip, rfl, hsum⟩ := ends_emits he
      subst hm
      refine ⟨hconsumed, ?_, ?_, hn, ?_, h.processed, h.attributed, h.unattributed, h.assists, h.deferred, h.evicted,
        h.peak, h.landed, h.suppressed⟩
      · simp [h.resolved]
      · simp [h.unresolved]
      · have hemitted := h.emitted
        simp only [List.map_append, List.sum_append, List.map_cons, List.map_nil, List.sum_cons, List.sum_nil]
        omega
    dsimp only at he
    split at he
    · rename_i hambiguous
      obtain ⟨_, m₃, h₃, he⟩ := ends_bind'.mp he
      exact hrest (by simp [h.ambiguous, hambiguous]) (ends_modify.mp h₃) he
    · rename_i hambiguous
      exact hrest (by simp [h.ambiguous, hambiguous]) rfl he

private theorem booked_observeState (state : StreamState) {n : Nat} (hevicted : state.evicted ≤ n)
    (hpeak : state.peak ≤ n) :
    Booked l (Metered.observeState state) fun _ => { l with joined := l.joined + n } := by
  refine ⟨fun _ _ _ _ => trivial, fun m _ t h he => ?_⟩
  simp only [Metered.observeState, ends_bind', ends_modify] at he
  obtain ⟨_, _, rfl, _, _, rfl, _, _, rfl, rfl⟩ := he
  have hold := h.evicted
  have hold' := h.peak
  refine ⟨h.consumed, h.resolved, h.unresolved, h.ambiguous, h.emitted, h.processed, h.attributed, h.unattributed,
    h.assists, h.deferred, ?_, ⟨le_rfl, ?_⟩, h.landed, h.suppressed⟩
  · dsimp only
    omega
  · dsimp only
    omega

private theorem triple_return {α : Type} {P : Registry → Prop} (a : α) :
    Triple P (Script.done a : Metered α) (fun _ => True) fun b m => b = a ∧ P m := triple_done a fun _ _ => trivial

private theorem booked_observes (rows : List AttributedConversion) :
    Booked l (Script.forEach rows Metered.observe) fun _ => { l with rows := l.rows ++ rows } := by
  have hloop := triple_forEach Metered.observe (C := fun _ => True) (l := rows)
    (I := fun past => Books { l with rows := l.rows ++ past }) (fun _ _ _ => trivial) (fun past row _ => ?_) []
  · rwa [List.append_nil] at hloop
  · have hrow := booked_observe (l := { l with rows := l.rows ++ past }) row
    simpa only [List.append_assoc] using hrow

/-- A household's rows and the exposures it joined. -/
theorem booked_household (allowedLateness : Int) (candidates : OrderedDict String (List String)) (events : List Event) :
    Triple (Books l) (Metered.household allowedLateness candidates events) (fun _ => True) fun rows m =>
      (∃ result, attributeHouseholdStreaming hotWindow allowedLateness candidates events = .ok result ∧
        rows = result.candidates.map Candidate.row) ∧
      Books { l with rows := l.rows ++ rows, joined := l.joined + (Arrival.builds events).length } m := by
  have hpass := triple_ofExcept (P := Books l) (C := fun _ => True)
    (attributeHouseholdStreaming hotWindow allowedLateness candidates events) fun _ _ => trivial
  refine hpass.bind fun result => triple_of_fact fun hresult => ?_
  obtain ⟨htotal, hfinal, hpeak⟩ := counts_attributeHouseholdStreaming hresult
  have hevicted : result.state.evicted ≤ (Arrival.builds events).length := by omega
  refine Triple.bind (booked_observeState result.state hevicted hpeak) fun _ =>
    Triple.bind (booked_observes _) fun _ => ?_
  refine (triple_return _).conseq (fun _ h => h) (fun _ h => h) fun rows m h => ?_
  obtain ⟨rfl, h⟩ := h
  exact ⟨⟨result, hresult, rfl⟩, h⟩

/-- The households' events hold every exposure once. -/
theorem length_joined (exposures : List Exposure) (resolved : List ResolvedConversion) :
    ((householdEvents exposures resolved).values.map fun events => (Arrival.builds events).length).sum =
      exposures.length := by
  have hflatten (ls : List (List Event)) : (ls.map fun events => (Arrival.builds events).length).sum =
      (Arrival.builds ls.flatten).length := by
    induction ls with
    | nil => rfl
    | cons events ls ih => rw [List.map_cons, List.sum_cons, ih, List.flatten_cons, Arrival.builds_append, List.length_append]
  have hbuilds (es : List Exposure) (rs : List ResolvedConversion) :
      Arrival.builds (es.map Arrival.build ++ rs.map .probe : List Event) = es := by
    induction es with
    | nil =>
      induction rs with
      | nil => rfl
      | cons r rs ih => exact ih
    | cons e es ih => exact congrArg (e :: ·) ih
  rw [hflatten, householdEvents, (Arrival.builds_perm (OrderedDict.flatten_values_groupBy_perm _ _)).length_eq, hbuilds]

private theorem booked_runAttribution (exposures : List Exposure) (resolved : List ResolvedConversion)
    (allowedLateness : Int) :
    Triple (Books l) (Metered.runAttribution exposures resolved allowedLateness) (fun _ => True) fun rows m =>
      CtvAttribution.runAttribution exposures resolved allowedLateness = .ok rows ∧
      Books { l with rows := l.rows ++ rows, joined := l.joined + exposures.length } m := by
  let candidates := candidateHouseholdsByConversion resolved
  let pass (events : List Event) (rows : List AttributedConversion) : Prop := ∃ result,
    attributeHouseholdStreaming hotWindow allowedLateness candidates events = .ok result ∧
      result.candidates.map Candidate.row = rows
  have hloop := triple_collect (Metered.household allowedLateness candidates) (C := fun _ => True)
    (l := (householdEvents exposures resolved).values) (I := fun past rowss m => List.Forall₂ pass past rowss ∧
      Books { l with
        rows := l.rows ++ rowss.flatten
        joined := l.joined + (past.map fun events => (Arrival.builds events).length).sum } m)
    (fun _ _ _ _ => trivial) (fun past rowss events _ => ?_) [] []
  · refine (hloop.conseq (fun m h => ⟨.nil, by simpa using h⟩) (fun _ h => h) fun _ _ h => h).bind fun rowss => ?_
    refine (triple_return _).conseq (fun _ h => h) (fun _ h => h) fun rows m h => ?_
    obtain ⟨rfl, hall, hbooks⟩ := h
    obtain ⟨results, hresults, hrows⟩ := exists_mapM_of_forall₂ hall
    rw [List.nil_append] at hresults hrows
    rw [List.nil_append, List.nil_append, length_joined] at hbooks
    have hflat : results.flatMap (fun r => r.candidates.map Candidate.row) = rowss.flatten := by
      rw [← hrows, List.flatMap_def]
    refine ⟨bind_eq_ok_iff.mpr ⟨results, hresults, ?_⟩, ?_⟩
    · rw [hflat]
      rfl
    · exact hbooks.perm ((sortedBy_perm _ _).symm.append_left _)
  · refine triple_of_fact fun hall => ?_
    refine (booked_household allowedLateness candidates events).conseq (fun _ h => h) (fun _ h => h) fun rows m h => ?_
    obtain ⟨⟨result, hresult, rfl⟩, hbooks⟩ := h
    refine ⟨List.rel_append hall (.cons ⟨result, hresult, rfl⟩ .nil), ?_⟩
    simpa [List.append_assoc, Nat.add_assoc] using hbooks

private theorem booked_resolveConversions (conversions : List Conversion) (index : GraphIndex) :
    Booked l (Metered.resolveConversions conversions index) fun _ =>
      { l with records := l.records ++ conversions.map fun conv => resolveOne conv index } := by
  have hbacklog : Booked l (Script.modify fun m => { m with inputBacklog := conversions.length }) fun _ => l := by
    refine triple_modify (fun m h => ?_) (fun _ _ => trivial) fun _ _ => trivial
    exact ⟨h.consumed, h.resolved, h.unresolved, h.ambiguous, h.emitted, h.processed, h.attributed, h.unattributed,
      h.assists, h.deferred, h.evicted, h.peak, h.landed, h.suppressed⟩
  refine Triple.bind hbacklog fun _ => ?_
  have hloop := triple_collect (fun conv : Conversion => (do
      let rows := resolveOne conv index
      Metered.observeResolved rows
      return rows : Metered (List ResolvedConversion))) (C := fun _ => True) (l := conversions)
    (I := fun past _ => Books { l with records := l.records ++ past.map fun conv => resolveOne conv index })
    (fun _ _ _ _ => trivial) (fun past _ conv _ => ?_) [] []
  · refine (hloop.conseq (fun m h => by simpa using h) (fun _ h => h) fun _ _ h => h).bind fun recordss => ?_
    exact (triple_return _).conseq (fun _ h => h) (fun _ h => h) fun _ m h => h.2
  · refine Triple.bind (booked_observeResolved _) fun _ => ?_
    refine (triple_return _).conseq (fun _ h => h) (fun _ h => h) fun records m h => ?_
    simpa [List.append_assoc] using h.2

/-- Whatever the registry holds, the resolver's stream is returned. -/
theorem returns_resolveConversions (conversions : List Conversion) (index : GraphIndex) :
    Triple (fun _ => True) (Metered.resolveConversions conversions index) (fun _ => True) fun resolved _ =>
      resolved = resolveStream conversions index := by
  have hloop := triple_collect (fun conv : Conversion => (do
      let rows := resolveOne conv index
      Metered.observeResolved rows
      return rows : Metered (List ResolvedConversion))) (C := fun _ => True) (l := conversions)
    (I := fun past recordss _ => recordss = past.map fun conv => resolveOne conv index)
    (fun _ _ _ _ => trivial) (fun past recordss conv _ => ?_) [] []
  · refine Triple.bind (triple_modify (R := fun _ => True) (fun _ _ => trivial) (fun _ _ => trivial) fun _ _ => trivial)
      fun _ => (hloop.conseq (fun _ _ => rfl) (fun _ h => h) fun _ _ h => h).bind fun recordss => ?_
    refine (triple_return _).conseq (fun _ h => h) (fun _ h => h) fun resolved m h => ?_
    obtain ⟨rfl, hrecords⟩ := h
    rw [List.nil_append, List.nil_append] at hrecords
    rw [hrecords]
    exact List.flatMap_def.symm
  · have hpast (rows : List ResolvedConversion) : Triple (fun _ => recordss = past.map fun conv => resolveOne conv index)
        (Metered.observeResolved rows) (fun _ => True) fun _ _ => recordss = past.map fun conv => resolveOne conv index :=
      ⟨fun _ _ _ _ => trivial, fun _ _ _ h _ => h⟩
    refine (hpast _).bind fun _ => (triple_return _).conseq (fun _ h => h) (fun _ h => h) fun records m h => ?_
    obtain ⟨rfl, h⟩ := h
    rw [h, List.map_append]
    rfl

/-- The ledger one run on. -/
def Ledger.add (l : Ledger) (input : EngineInput) (run : EngineRun) : Ledger where
  records := l.records ++ input.conversions.map fun conv => resolveOne conv input.index
  rows := l.rows ++ run.rows
  joined := l.joined + run.exposures.length
  landed := l.landed + run.exposures.length
  suppressed := l.suppressed + run.suppressed

private theorem booked_engine (input : EngineInput) :
    Triple (Books l) (Metered.engine input) (fun _ => True) fun run m =>
    input.engineRun = .ok run ∧ Books (l.add input run) m := by
  let streams := engineStreams input.dedup input.exposures (resolveStream input.conversions input.index)
  have hresolve := booked_resolveConversions (l := l) input.conversions input.index
  have hsuppressed : Booked { l with records := l.records ++ input.conversions.map fun conv => resolveOne conv input.index }
      (Script.modify fun m => { m with dedupSuppressed := m.dedupSuppressed + streams.2.2 })
      fun _ => { l with
        records := l.records ++ input.conversions.map fun conv => resolveOne conv input.index
        suppressed := l.suppressed + streams.2.2 } := by
    refine triple_modify (fun m h => ?_) (fun _ _ => trivial) fun _ _ => trivial
    exact ⟨h.consumed, h.resolved, h.unresolved, h.ambiguous, h.emitted, h.processed, h.attributed, h.unattributed,
      h.assists, h.deferred, h.evicted, h.peak, h.landed, congrArg (· + streams.2.2) h.suppressed⟩
  have hlag {l' : Ledger} : Booked l' (Script.modify fun m =>
      { m with watermarkLag := Metered.peakLateness streams.1 streams.2.1 }) fun _ => l' := by
    refine triple_modify (fun m h => ?_) (fun _ _ => trivial) fun _ _ => trivial
    exact ⟨h.consumed, h.resolved, h.unresolved, h.ambiguous, h.emitted, h.processed, h.attributed, h.unattributed,
      h.assists, h.deferred, h.evicted, h.peak, h.landed, h.suppressed⟩
  have hrun : Triple (Books l) (Metered.runEngine input) (fun _ => True) fun run m => input.engineRun = .ok run ∧
      Books { (l.add input run) with landed := l.landed } m := by
    have hreturns := (returns_resolveConversions input.conversions input.index).and hresolve
    refine (hreturns.conseq (fun _ h => ⟨trivial, h⟩) (fun _ h => h.2) fun _ _ h => h).bind fun resolvedRaw =>
      triple_of_fact fun hraw => ?_
    subst hraw
    refine Triple.bind hsuppressed fun _ => Triple.bind hlag fun _ =>
      (booked_runAttribution streams.1 streams.2.1 input.allowedLateness).bind fun rows => triple_of_fact fun hrows => ?_
    refine (triple_return _).conseq (fun _ h => h) (fun _ h => h) fun run m h => ?_
    obtain ⟨rfl, h⟩ := h
    exact ⟨bind_eq_ok_iff.mpr ⟨rows, hrows, rfl⟩, h⟩
  refine hrun.bind fun run => triple_of_fact fun hok => ?_
  have hlanded : Triple (Books { (l.add input run) with landed := l.landed })
      (Script.modify fun m => { m with exposuresLanded := m.exposuresLanded + run.exposures.length } : Metered Unit)
      (fun _ => True) fun _ => Books (l.add input run) := by
    refine triple_modify (fun m h => ?_) (fun _ _ => trivial) fun _ _ => trivial
    exact ⟨h.consumed, h.resolved, h.unresolved, h.ambiguous, h.emitted, h.processed, h.attributed, h.unattributed,
      h.assists, h.deferred, h.evicted, h.peak, congrArg (· + run.exposures.length) h.landed, h.suppressed⟩
  refine hlanded.bind fun _ => (triple_return run).conseq (fun _ h => h) (fun _ h => h) fun run' m h => ?_
  obtain ⟨rfl, h⟩ := h
  exact ⟨hok, h⟩

end books

/-- The ledger of some runs. -/
def ledgerOf (inputs : List EngineInput) (runs : List EngineRun) : Ledger where
  records := inputs.flatMap fun input => input.conversions.map fun conv => resolveOne conv input.index
  rows := runs.flatMap EngineRun.rows
  joined := (runs.map fun run => run.exposures.length).sum
  landed := (runs.map fun run => run.exposures.length).sum
  suppressed := (runs.map EngineRun.suppressed).sum

/-- The registry against what the runs drained and returned. -/
structure Accounts (inputs : List EngineInput) (runs : List EngineRun) (m : Registry) : Prop where
  parts : Counting 0 0 m
  consumed : m.conversionsConsumed = (inputs.map fun input => input.conversions.length).sum
  resolved : m.conversionsResolved = (inputs.map fun input => input.conversions.countP fun conv =>
    0 < (candidateHouseholdsOf conv input.index).length).sum
  ambiguous : m.conversionsAmbiguous = (inputs.map fun input => input.conversions.countP fun conv =>
    1 < (candidateHouseholdsOf conv input.index).length).sum
  emitted : m.emittedDevice + m.emittedIp = (inputs.map fun input =>
    (resolveStream input.conversions input.index).length).sum
  processed : m.processed = (runs.map fun run => run.rows.length).sum
  attributed : m.attributed = (runs.map fun run => run.rows.countP fun r => r.attributed).sum
  assists : m.assists = (runs.map fun run =>
    (run.rows.map fun r => if r.attributed then r.assists.length else 0).sum).sum
  deferred : m.ambiguousDeferred = (runs.map fun run => run.rows.countP fun r => 1 < r.candidateCount).sum
  landed : m.exposuresLanded = (runs.map fun run => run.exposures.length).sum
  kept : m.dedupSuppressed + m.exposuresLanded + (runs.map EngineRun.resolved).sum =
    (inputs.map fun input => input.exposures.length).sum + (m.emittedDevice + m.emittedIp)
  evicted : m.exposuresEvicted ≤ m.exposuresLanded
  size : m.joinStateSize ≤ m.exposuresLanded

section accounts
variable {input : EngineInput} {run : EngineRun} {inputs : List EngineInput} {runs : List EngineRun}

private theorem length_resolveOne (conv : Conversion) (index : GraphIndex) :
    (resolveOne conv index).length = (candidateHouseholdsOf conv index).length := by
  by_cases h : candidateHouseholdsOf conv index = []
  · rw [resolveOne_eq_nil h, h]
    rfl
  · obtain ⟨t, _, _, ht⟩ := resolveOne_eq_map h
    rw [ht, List.length_map]

private theorem isEmpty_resolveOne (conv : Conversion) (index : GraphIndex) :
    (!(resolveOne conv index).isEmpty) = decide (0 < (candidateHouseholdsOf conv index).length) := by
  rw [← length_resolveOne]
  cases resolveOne conv index <;> rfl

/-- The first record of a conversion says whether it has several candidates. -/
theorem head_ambiguous_resolveOne (conv : Conversion) (index : GraphIndex) :
    ((resolveOne conv index).head?.any fun r => r.ambiguous) =
      decide (1 < (candidateHouseholdsOf conv index).length) := by
  unfold resolveOne candidateHouseholdsOf
  cases hdevice : index.deviceOf.get? conv.deviceId with
  | some hid => rfl
  | none =>
    dsimp only
    split
    · rename_i hnone
      rw [hnone]
      rfl
    · rename_i howners
      obtain ⟨owner, owners, hcons⟩ := List.exists_cons_of_ne_nil howners
      simp [hcons, resolved]

/-- An engine never attributes a conversion of several candidates. -/
theorem certain_of_runAttribution {exposures : List Exposure} {resolved : List ResolvedConversion}
    {allowedLateness : Int} {rows : List AttributedConversion}
    (h : runAttribution exposures resolved allowedLateness = .ok rows) {r : AttributedConversion} (hr : r ∈ rows)
    (hyes : r.attributed = true) : r.candidateCount = 1 := by
  obtain ⟨results, hresults, hrows⟩ := bind_eq_ok_iff.mp h
  cases hrows
  rw [mem_sortedBy, List.mem_flatMap] at hr
  obtain ⟨result, hresult, hr⟩ := hr
  obtain ⟨cand, hcand, rfl⟩ := List.mem_map.mp hr
  obtain ⟨events, _, hpass⟩ := (mem_of_mapM_eq_ok hresults).mp hresult
  have hcands : _ = Except.ok result.candidates :=
    (attributeHouseholdStreaming_schedule _ _ _ events).symm.trans (by rw [hpass]; rfl)
  obtain ⟨p, _, hone⟩ := (mem_of_mapM_eq_ok hcands).mp hcand
  obtain ⟨hrec, hcertain⟩ := hotRecord_of_attributeOne hone
  rw [hrec.record]
  exact hcertain hyes

private theorem foldl_dedup_length {α κ : Type} [DecidableEq κ] (rows : List α) (key : α → κ) (seen : List κ)
    (kept : List α) (n : Nat) :
    let s := rows.foldl (fun (s : List κ × List α × Nat) row =>
      if key row ∈ s.1 then (s.1, s.2.1, s.2.2 + 1) else (key row :: s.1, s.2.1 ++ [row], s.2.2)) (seen, kept, n)
    s.2.1.length + s.2.2 = kept.length + n + rows.length := by
  induction rows generalizing seen kept n with
  | nil => rfl
  | cons row rows ih =>
    rw [List.foldl_cons, List.length_cons]
    dsimp only
    by_cases h : key row ∈ seen
    · rw [if_pos h, ih]
      omega
    · rw [if_neg h, ih, List.length_append, List.length_singleton]
      omega

/-- Dedup splits a stream into what it keeps and what it counts. -/
theorem length_dedupById {α κ : Type} [DecidableEq κ] (rows : List α) (key : α → κ) :
    (dedupById rows key).1.length + (dedupById rows key).2 = rows.length := by
  have h := foldl_dedup_length rows key [] [] 0
  rw [List.length_nil, Nat.add_zero, Nat.zero_add] at h
  exact h

/-- What the streams keep and suppress is what was drained. -/
theorem kept_engineStreams (dedup : Bool) (exposures : List Exposure) (resolved : List ResolvedConversion) :
    let s := engineStreams dedup exposures resolved
    s.2.2 + s.1.length + s.2.1.length = exposures.length + resolved.length := by
  unfold engineStreams dedupStreams
  split
  · have hexposures := length_dedupById exposures Exposure.exposureId
    have hresolved := length_dedupById resolved fun r => (r.conversionId, r.householdId)
    dsimp only
    omega
  · dsimp only
    omega

private theorem kept_of_engineRun (h : input.engineRun = .ok run) :
    run.suppressed + run.exposures.length + run.resolved =
    input.exposures.length + (resolveStream input.conversions input.index).length := by
  obtain ⟨rows, _, hrun⟩ := bind_eq_ok_iff.mp h
  rw [← Except.ok.inj hrun]
  exact kept_engineStreams input.dedup input.exposures (resolveStream input.conversions input.index)

private theorem accounts_of_books (hruns : inputs.mapM EngineInput.engineRun = .ok runs) {m : Registry}
    (hparts : Counting 0 0 m) (h : Books (ledgerOf inputs runs) m) : Accounts inputs runs m := by
  have hemitted : m.emittedDevice + m.emittedIp = (inputs.map fun input =>
      (resolveStream input.conversions input.index).length).sum := by
    rw [h.emitted]
    simp only [ledgerOf, resolveStream, List.flatMap_def, List.map_flatten, List.sum_flatten, List.length_flatten,
      List.map_map, Function.comp_def]
  refine ⟨hparts, ?_, ?_, ?_, hemitted, ?_, ?_, ?_, ?_, h.landed, ?_, ?_, ?_⟩
  · rw [h.consumed]
    simp only [ledgerOf, List.length_flatMap, List.length_map]
  · rw [h.resolved]
    simp only [ledgerOf, List.countP_flatMap, List.countP_map, Function.comp_def, isEmpty_resolveOne]
  · rw [h.ambiguous]
    simp only [ledgerOf, List.countP_flatMap, List.countP_map, Function.comp_def, head_ambiguous_resolveOne]
  · rw [h.processed]
    simp only [ledgerOf, List.length_flatMap]
  · rw [h.attributed]
    simp only [ledgerOf, List.countP_flatMap, Function.comp_def]
  · rw [h.assists]
    simp only [ledgerOf, List.flatMap_def, List.map_flatten, List.sum_flatten, List.map_map, Function.comp_def]
  · rw [h.deferred]
    simp only [ledgerOf, List.countP_flatMap, Function.comp_def]
    congr 1
    apply List.map_congr_left
    intro run hrun
    obtain ⟨input, _, hok⟩ := (mem_of_mapM_eq_ok hruns).mp hrun
    obtain ⟨rows, hrows, hreturn⟩ := bind_eq_ok_iff.mp hok
    apply List.countP_congr
    intro r hr
    rw [← Except.ok.inj hreturn] at hr
    have hcertain := certain_of_runAttribution hrows hr
    simp only [Bool.and_eq_true, Bool.not_eq_true', decide_eq_true_eq]
    constructor
    · intro h
      exact h.2
    · intro hmany
      have hno : r.attributed ≠ true := fun hyes => hmany.ne' (hcertain hyes)
      exact ⟨Bool.eq_false_iff.mpr hno, hmany⟩
  · rw [h.suppressed, h.landed, hemitted]
    simp only [ledgerOf]
    clear h hparts hemitted
    rw [mapM_eq_ok_iff] at hruns
    induction hruns with
    | nil => rfl
    | cons hok _ ih =>
      have hkept := kept_of_engineRun hok
      simp only [List.map_cons, List.sum_cons]
      omega
  · exact h.evicted.trans (le_of_eq h.landed.symm)
  · exact h.peak.1.trans (h.peak.2.trans (le_of_eq h.landed.symm))

end accounts

section total

private theorem total_observe (row : AttributedConversion) : (Metered.observe row).Total := by
  refine (total_modify _).bind fun _ => ?_
  split
  · exact (total_modify _).bind fun _ => total_modify _
  · refine (total_modify _).bind fun _ => ?_
    split
    · exact total_modify _
    · exact total_done ()

private theorem total_observeResolved (records : List ResolvedConversion) :
    (Metered.observeResolved records).Total := by
  refine (total_modify _).bind fun _ => ?_
  cases records with
  | nil => exact total_modify _
  | cons first rest =>
    have hemits : (Script.forEach (first :: rest) Metered.emit).Total := total_forEach fun r _ => total_modify _
    refine (total_modify _).bind fun _ => ?_
    dsimp only
    split
    · exact (total_modify _).bind fun _ => hemits
    · exact hemits

/-- The metrics stop no run that the engine completes. -/
theorem total_engine {input : EngineInput} {run : EngineRun} (h : input.engineRun = .ok run) :
    (Metered.engine input).Total := by
  obtain ⟨rows, hrows, _⟩ := bind_eq_ok_iff.mp h
  obtain ⟨results, hresults, _⟩ := bind_eq_ok_iff.mp hrows
  refine Total.bind ?_ fun _ => (total_modify _).bind fun _ => total_done _
  have hresolve : (Metered.resolveConversions input.conversions input.index).Total := by
    refine (total_modify _).bind fun _ => Total.bind (total_collect fun conv _ => ?_) fun _ => total_done _
    exact (total_observeResolved _).bind fun _ => total_done _
  refine hresolve.bind_of_ends (returns_resolveConversions _ _) fun resolvedRaw hraw => ?_
  subst hraw
  refine (total_modify _).bind fun _ => (total_modify _).bind fun _ => Total.bind ?_ fun _ => total_done _
  refine Total.bind (total_collect fun events hevents => ?_) fun _ => total_done _
  obtain ⟨result, _, hresult⟩ := exists_of_mapM_eq_ok hresults hevents
  refine (total_ofExcept hresult).bind fun _ => Total.bind ?_ fun _ =>
    (total_forEach fun row _ => total_observe row).bind fun _ => total_done _
  exact (total_modify _).bind fun _ => (total_modify _).bind fun _ => (total_modify _).bind fun _ => total_modify _

end total

/-- In a process of several runs the registry is consistent between any two writes, at most
the observation in progress counted ahead. The runs complete exactly when the engine does
without its metrics, and then the counts are the totals of what it drained and returned. -/
theorem engine_metrics (inputs : List EngineInput) :
    (∀ m, (Script.collect inputs Metered.engine).Leaves Registry.zero m → Observed m) ∧
    (∀ runs, inputs.mapM EngineInput.engineRun = .ok runs ↔
      ∃ m, (Script.collect inputs Metered.engine).Ends Registry.zero runs m) ∧
    ∀ runs m, (Script.collect inputs Metered.engine).Ends Registry.zero runs m → Accounts inputs runs m := by
  have hsteady : Steady (Script.collect inputs Metered.engine) := steady_collect fun input _ => steady_engine input
  have hzero : Counting 0 0 Registry.zero := ⟨rfl, le_rfl, rfl, le_rfl, le_rfl, le_rfl⟩
  have hbooked : Triple (Books ⟨[], [], 0, 0, 0⟩) (Script.collect inputs Metered.engine) (fun _ => True)
      fun runs m => List.Forall₂ (fun input run => input.engineRun = .ok run) inputs runs ∧
        Books (ledgerOf inputs runs) m := by
    have hloop := triple_collect Metered.engine (l := inputs) (C := fun _ => True)
      (I := fun past runs m => List.Forall₂ (fun input run => input.engineRun = .ok run) past runs ∧
        Books (ledgerOf past runs) m)
      (fun _ _ _ _ => trivial) (fun past runs input _ => ?_) [] []
    · exact hloop.conseq (fun m h => ⟨.nil, h⟩) (fun _ h => h) fun _ _ h => h
    · refine triple_of_fact fun hpast => (booked_engine input).conseq (fun _ h => h) (fun _ h => h) fun run m h => ?_
      refine ⟨List.rel_append hpast (.cons h.1 .nil), ?_⟩
      have hbooks := h.2
      simpa [ledgerOf, Ledger.add] using hbooks
  have hends {runs : List EngineRun} {m : Registry} (h : (Script.collect inputs Metered.engine).Ends Registry.zero runs m) :
      List.Forall₂ (fun input run => input.engineRun = .ok run) inputs runs ∧ Books (ledgerOf inputs runs) m :=
    hbooked.completed _ _ _ books_zero h
  refine ⟨fun m h => hsteady.stopped _ _ hzero h, fun runs => ⟨fun h => ?_, fun h => ?_⟩, fun runs m h => ?_⟩
  · have htotal : (Script.collect inputs Metered.engine).Total := total_collect fun input hinput => by
      obtain ⟨run, _, hrun⟩ := exists_of_mapM_eq_ok h hinput
      exact total_engine hrun
    obtain ⟨runs', m, hm⟩ := htotal Registry.zero
    have hruns' := mapM_eq_ok_iff.mpr (hends hm).1
    rw [h] at hruns'
    rw [Except.ok.inj hruns']
    exact ⟨m, hm⟩
  · obtain ⟨m, hm⟩ := h
    exact mapM_eq_ok_iff.mpr (hends hm).1
  · obtain ⟨hruns, hbooks⟩ := hends h
    exact accounts_of_books (mapM_eq_ok_iff.mpr hruns) (hsteady.completed _ _ _ hzero h) hbooks


end CtvAttribution
