import CtvAttribution.AgentContext

/-! The lags of the hot credits twice over: binned by the collector, which clamps into the
window, and grouped by the probe, which does not. -/
namespace CtvAttribution.Collect
open Library

/-- A row of `WindowEdgeRow`. -/
structure WindowEdgeRow where
  dayBucket : Int
  count : Nat
  deriving DecidableEq, Repr

/-- `_WINDOW_EDGE_DISTRIBUTION`; `intDiv` drops the fraction. -/
def windowEdgeDistribution (s : Serving) : List WindowEdgeRow :=
  (sortedBy Prod.fst (OrderedDict.groupBy (fun c => (lagSeconds c).tdiv daySeconds) (hotCredits s)).entries).map
    fun (dayBucket, rows) => ⟨dayBucket, rows.length⟩

/-- What the probe counts in a bucket; a bucket it returns no row of counts nothing. -/
def probeCount (s : Serving) (dayBucket : Int) : Nat :=
  (((windowEdgeDistribution s).find? (·.dayBucket = dayBucket)).map WindowEdgeRow.count).getD 0

/-- Every hot credit lies within the hot window of its conversion. -/
def HotCreditsInside (s : Serving) : Prop := ∀ c ∈ hotCredits s, c.1.eventTime - c.2.eventTime ≤ hotWindow

/-- The observation's seven bins are the probe's buckets 0 to 6, and the probe has no other. -/
structure WindowEdgeAgrees (s : Serving) : Prop where
  buckets : (windowEdgeStats ((hotCredits s).map lagSeconds)).buckets.map WindowEdgeBucket.count =
    (List.range windowDays).map fun (i : Nat) => probeCount s i
  noOther : ∀ row ∈ windowEdgeDistribution s, 0 ≤ row.dayBucket ∧ row.dayBucket < windowDays

section tally
variable {α : Type} {f : α → Nat} {l : List α} {counts : List Nat} {i : Nat}

/-- A loop that counts into bins. -/
theorem getElem?_tally : (l.foldl (fun counts x => counts.modify (f x) (· + 1)) counts)[i]? =
    counts[i]?.map (· + l.countP (f · = i)) := by
  induction l generalizing counts with
  | nil => simp
  | cons x l ih =>
    rw [List.foldl_cons, ih, List.getElem?_modify, List.countP_cons]
    cases counts[i]? with
    | none => rfl
    | some n =>
      by_cases h : f x = i
      · simp [h]
        omega
      · simp [h]

end tally

section counts
variable {s : Serving} {lags : List Int}

private theorem buckets_count : (windowEdgeStats lags).buckets.map WindowEdgeBucket.count =
    (List.range windowDays).map fun i => lags.countP (bucketIndex · = i) := by
  apply List.ext_getElem?
  intro i
  simp only [windowEdgeStats, List.getElem?_map, List.getElem?_mapIdx, getElem?_tally, List.getElem?_replicate,
    Option.map_map]
  by_cases h : i < windowDays
  · simp [h]
  · simp [h]

private theorem mem_windowEdgeDistribution {row : WindowEdgeRow} : row ∈ windowEdgeDistribution s ↔
    (∃ c ∈ hotCredits s, (lagSeconds c).tdiv daySeconds = row.dayBucket) ∧
      row.count = (hotCredits s).countP fun c => (lagSeconds c).tdiv daySeconds = row.dayBucket := by
  unfold windowEdgeDistribution
  rw [List.mem_map]
  simp only [mem_sortedBy, OrderedDict.entries_groupBy, List.mem_map, mem_firstSeen]
  constructor
  · rintro ⟨_, ⟨_, ⟨c, hc, rfl⟩, rfl⟩, rfl⟩
    exact ⟨⟨c, hc, rfl⟩, List.countP_eq_length_filter.symm⟩
  · rintro ⟨⟨c, hc, hrow⟩, hcount⟩
    refine ⟨_, ⟨row.dayBucket, ⟨c, hc, hrow⟩, rfl⟩, ?_⟩
    rw [← List.countP_eq_length_filter, ← hcount]

private theorem probeCount_eq (s : Serving) (dayBucket : Int) :
    probeCount s dayBucket = (hotCredits s).countP fun c => (lagSeconds c).tdiv daySeconds = dayBucket := by
  unfold probeCount
  cases h : (windowEdgeDistribution s).find? (·.dayBucket = dayBucket) with
  | some row =>
    have hrow := mem_windowEdgeDistribution.mp (List.mem_of_find?_eq_some h)
    have hkey : row.dayBucket = dayBucket := by simpa using List.find?_some h
    rw [Option.map_some, Option.getD_some, hrow.2, hkey]
  | none =>
    have hnone := List.find?_eq_none.mp h
    refine (List.countP_eq_zero.mpr fun c hc hbucket => ?_).symm
    have hrow : (⟨dayBucket, (hotCredits s).countP fun c => (lagSeconds c).tdiv daySeconds = dayBucket⟩ :
        WindowEdgeRow) ∈ windowEdgeDistribution s :=
      mem_windowEdgeDistribution.mpr ⟨⟨c, hc, of_decide_eq_true hbucket⟩, rfl⟩
    exact hnone _ hrow (decide_eq_true rfl)

end counts

section lags
variable {s : Serving} {c : Credit}

private theorem lagSeconds_nonneg (h : c ∈ hotCredits s) : 0 ≤ lagSeconds c := by
  have hle := (of_decide_eq_true (List.mem_filter.mp h).2).2
  have := Int.ediv_le_ediv (show (0 : Int) < Time.second by decide) hle
  unfold lagSeconds dateDiffSeconds
  omega

/-- Within the window at most the window's own seconds are counted. -/
theorem lagSeconds_le (hin : c.1.eventTime - c.2.eventTime ≤ hotWindow) : lagSeconds c ≤ 7 * daySeconds := by
  have hstop : c.1.eventTime / Time.second ≤ (c.2.eventTime + 7 * daySeconds * Time.second) / Time.second :=
    Int.ediv_le_ediv (by decide) (by
      have : hotWindow = 7 * daySeconds * Time.second := by decide
      omega)
  rw [Int.add_mul_ediv_right _ _ (by decide)] at hstop
  unfold lagSeconds dateDiffSeconds
  omega

/-- Inside the window both rules name the same day. -/
theorem bucketIndex_eq_iff {lag : Int} {i : Nat} (h0 : 0 ≤ lag) (h7 : lag < 7 * daySeconds) :
    bucketIndex lag = i ↔ lag.tdiv daySeconds = i := by
  have hlo : 0 ≤ lag / daySeconds := Int.ediv_nonneg h0 (by decide)
  have hhi : lag / daySeconds < 7 := Int.ediv_lt_of_lt_mul (by decide) h7
  have hdays : ((windowDays : Nat) : Int) = 7 := rfl
  rw [Int.tdiv_eq_ediv_of_nonneg h0, bucketIndex, hdays]
  omega

end lags

/-- The observation and its probe agree on the window edge exactly when no hot credit lags
by the whole window, counted in seconds. -/
theorem windowEdge_agrees_iff (s : Serving) (h : HotCreditsInside s) : WindowEdgeAgrees s ↔
    ∀ c ∈ hotCredits s, dateDiffSeconds c.2.eventTime c.1.eventTime ≠ 7 * 86400 := by
  constructor
  · intro hagrees c hc heq
    have hrow := hagrees.noOther ⟨7, (hotCredits s).countP fun c => (lagSeconds c).tdiv daySeconds = 7⟩
      (mem_windowEdgeDistribution.mpr ⟨⟨c, hc, ?_⟩, rfl⟩)
    · exact absurd hrow.2 (lt_irrefl (7 : Int))
    · show (dateDiffSeconds c.2.eventTime c.1.eventTime).tdiv daySeconds = 7
      rw [heq]
      decide
  · intro hne
    have hlag {c : Credit} (hc : c ∈ hotCredits s) : 0 ≤ lagSeconds c ∧ lagSeconds c < 7 * daySeconds :=
      ⟨lagSeconds_nonneg hc, lt_of_le_of_ne (lagSeconds_le (h c hc)) (hne c hc)⟩
    constructor
    · rw [buckets_count]
      apply List.map_congr_left
      intro i _
      rw [probeCount_eq, List.countP_map]
      apply List.countP_congr
      intro c hc
      simp only [Function.comp_apply, decide_eq_true_eq]
      exact bucketIndex_eq_iff (hlag hc).1 (hlag hc).2
    · intro row hrow
      obtain ⟨⟨c, hc, hday⟩, _⟩ := mem_windowEdgeDistribution.mp hrow
      obtain ⟨h0, h7⟩ := hlag hc
      rw [← hday, Int.tdiv_eq_ediv_of_nonneg h0]
      exact ⟨Int.ediv_nonneg h0 (by decide), Int.ediv_lt_of_lt_mul (by decide) h7⟩

section sample

private theorem candidateSet_certain (householdId : String) : CandidateSetMatchesCount 1 householdId [] := by
  simp [CandidateSetMatchesCount]

/-- One exposure, and a hot credit to it after the given time. -/
def sampleEdge (eventTime : Int) : Serving :=
  { Serving.empty with
    exposuresLanded := [sampleExposure "e" 0 0]
    attributedConversions := [decidedRow
      ⟨sampleConversion "c" eventTime eventTime, "hh", .device, false, 1, Nat.one_pos⟩
      (some (sampleExposure "e" 0 0)) [] [] (candidateSet_certain "hh")] }

/-- The engine credits an exposure of exactly seven days before; the probe puts it in a bucket of its own. -/
theorem windowEdge_boundary_diverges :
    HotCreditsInside (sampleEdge hotWindow) ∧ ¬ WindowEdgeAgrees (sampleEdge hotWindow) := by
  constructor
  · unfold HotCreditsInside
    decide +kernel
  · intro h
    have hrow : (⟨7, 1⟩ : WindowEdgeRow) ∈ windowEdgeDistribution (sampleEdge hotWindow) := by decide +kernel
    exact absurd (h.noOther _ hrow).2 (lt_irrefl (7 : Int))

/-- One second earlier both see it in the last bin. -/
theorem windowEdge_agrees_iff_sample : WindowEdgeAgrees (sampleEdge (hotWindow - Time.second)) ↔
    ∀ c ∈ hotCredits (sampleEdge (hotWindow - Time.second)),
      dateDiffSeconds c.2.eventTime c.1.eventTime ≠ 7 * 86400 :=
  windowEdge_agrees_iff _ (by unfold HotCreditsInside; decide +kernel)

end sample
end CtvAttribution.Collect
