import CtvAttribution.EngineParity
import CtvAttribution.ReportHistory
import Mathlib.Data.List.Pairwise

/-! Rows of one sort key in the history of reports. Their versions are the newest stamps of
the credited rows, so they tell twins apart as long as no data moves under a stamp. -/
namespace CtvAttribution
open Library Script

/-- Rows of one sort key and version are one row, and versions never fall. -/
structure TwinsDecided (log : List ReportSnapshot) : Prop where
  identical : ∀ x ∈ log, ∀ y ∈ log, x.key = y.key → x.snapshotVersion = y.snapshotVersion → x = y
  monotone : log.Pairwise fun x y => x.key = y.key → x.snapshotVersion ≤ y.snapshotVersion

/-- A campaign's exposures and credits, by what a report reads of them. -/
structure Report.SameData (r r' : Report) (campaignId : String) : Prop where
  exposures : ((r.exposuresOf campaignId).map Exposure.spend).Perm ((r'.exposuresOf campaignId).map Exposure.spend)
  credits : ((r.creditsOf campaignId).map fun a => (a.conversionType, a.revenue)).Perm
    ((r'.creditsOf campaignId).map fun a => (a.conversionType, a.revenue))

instance (r r' : Report) (campaignId : String) : Decidable (r.SameData r' campaignId) :=
  decidable_of_iff (_ ∧ _) ⟨fun h => ⟨h.1, h.2⟩, fun h => ⟨h.exposures, h.credits⟩⟩

/-- Under one report time the newest row a report is dated by moves forward, or stands still
with the data of every campaign. -/
def Report.Redates (same : Report → Report → String → Prop) (r r' : Report) : Prop :=
  r.reportedAt = r'.reportedAt → ∀ c ∈ r.campaigns, c ∈ r'.campaigns →
    r.newest < r'.newest ∨ r.newest = r'.newest ∧ same r r' c

/-- Stamped after the epoch and after every attribution row of these tables. -/
def Serving.Precedes (s : Serving) (a : AttributedConversion) : Prop :=
  0 < a.processedAt ∧ ∀ b ∈ s.attributedFinal, b.processedAt < a.processedAt

instance (s : Serving) (a : AttributedConversion) : Decidable (s.Precedes a) :=
  inferInstanceAs (Decidable (_ ∧ _))

/-- What happened to the landed tables between one finalize and a later one. -/
inductive Serving.Became (s t : Serving) : Prop where
  | ingested (max : s.maxIngest ≠ t.maxIngest) (next : s.maxIngest + reconcileDelta ≠ t.maxIngest)
      (previous : t.maxIngest + reconcileDelta ≠ s.maxIngest)
  | hotCredit (credit : ∃ c ∈ Report.credited ⟨t, true⟩, s.Precedes c.1)
  | uncredited (max : s.maxIngest = t.maxIngest) (exposures : s.exposuresFinal.Perm t.exposuresFinal)
      (credits : (Report.credited ⟨s, false⟩).Perm (Report.credited ⟨t, false⟩))
      (rows : ∀ a ∈ s.attributedFinal, a ∈ t.attributedFinal) (stamped : ∀ a ∈ t.attributedFinal, 0 ≤ a.processedAt)
  | recovered (max : s.maxIngest = t.maxIngest) (exposures : s.exposuresFinal.Perm t.exposuresFinal)
      (hot : (Report.credited ⟨s, true⟩).Perm (Report.credited ⟨t, true⟩))
      (credit : ∃ c ∈ Report.credited ⟨t, false⟩, s.Precedes c.1)

/-- The tables a finalize finds, against those of the passes before. -/
def Settled (passes : List Serving) (s : Serving) : Prop := ∀ p ∈ passes, p.Became s

theorem reportedAt_pre (s : Serving) : Report.reportedAt ⟨s, true⟩ = s.maxIngest := Int.add_zero _

theorem reportedAt_post (s : Serving) : Report.reportedAt ⟨s, false⟩ = s.maxIngest + reconcileDelta := rfl

section twins
variable {log : List ReportSnapshot} {r r' : Report} {c : String} {reports : List Report}

private theorem twinsDecided_iff_pairwise : TwinsDecided log ↔ log.Pairwise fun x y => x.key = y.key →
    x.snapshotVersion < y.snapshotVersion ∨ x = y := by
  constructor
  · intro h
    refine h.monotone.imp_of_mem fun hx hy hle hkey => ?_
    rcases (hle hkey).lt_or_eq with hlt | heq
    · exact .inl hlt
    · exact .inr (h.identical _ hx _ hy hkey heq)
  · intro h
    let same (x y : ReportSnapshot) : Prop := x.key = y.key → x.snapshotVersion = y.snapshotVersion → x = y
    have hsymm : Std.Symm same := ⟨fun _ _ hxy hkey hver => (hxy hkey.symm hver.symm).symm⟩
    have hpair : log.Pairwise same := h.imp fun hxy hkey hver => (hxy hkey).resolve_left hver.not_lt
    refine ⟨fun x hx y hy => List.Pairwise.forall_of_forall (fun _ _ _ _ => rfl) hpair hx hy, ?_⟩
    refine h.imp fun hxy hkey => ?_
    rcases hxy hkey with hlt | rfl
    · exact hlt.le
    · exact le_rfl

/-- Of one report no two rows share a key. -/
theorem Report.pairwise_rows (r : Report) :
    r.rows.Pairwise fun x y => x.key = y.key → x.snapshotVersion < y.snapshotVersion ∨ x = y := by
  have hne : r.rows.Pairwise fun x y => x.campaignId ≠ y.campaignId := List.pairwise_map.mp r.nodup_campaigns
  refine hne.imp fun hxy hkey => absurd ?_ hxy
  exact congrArg (fun k => k.2.1) hkey

/-- Between two reports, campaign by campaign. -/
theorem Report.redates_iff : r.Redates (fun r r' c => r.figures c = r'.figures c) r' ↔
    ∀ x ∈ r.rows, ∀ y ∈ r'.rows, x.key = y.key → x.snapshotVersion < y.snapshotVersion ∨ x = y := by
  constructor
  · intro h x hx y hy hkey
    obtain ⟨c, hc, rfl⟩ := Report.mem_rows.mp hx
    obtain ⟨c', hc', rfl⟩ := Report.mem_rows.mp hy
    rw [Report.row_key, Report.row_key, Prod.mk.injEq, Prod.mk.injEq] at hkey
    obtain ⟨htime, rfl, _⟩ := hkey
    rcases h htime c hc hc' with hlt | ⟨heq, hsame⟩
    · exact .inl hlt
    · right
      rw [Report.row, Report.row, htime, heq, hsame]
  · intro h htime c hc hc'
    have hkey : (r.row c).key = (r'.row c).key := by rw [Report.row_key, Report.row_key, htime]
    rcases h _ (Report.mem_rows.mpr ⟨c, hc, rfl⟩) _ (Report.mem_rows.mpr ⟨c, hc', rfl⟩) hkey with hlt | heq
    · exact .inl hlt
    · have hnewest : r.newest = r'.newest := congrArg ReportSnapshot.snapshotVersion heq
      rw [Report.row, Report.row, ← htime, ← hnewest] at heq
      exact .inr ⟨hnewest, (Figures.row_inj (Report.exposures_ne_zero hc)).mp heq⟩

/-- The twins of a history are decided exactly when under one report time the newest dating
row moves with the figures. -/
theorem twinsDecided_iff_redates : TwinsDecided (reports.flatMap Report.rows) ↔
    reports.Pairwise (Report.Redates fun r r' c => r.figures c = r'.figures c) := by
  rw [twinsDecided_iff_pairwise, List.pairwise_flatMap]
  constructor
  · intro h
    exact h.2.imp Report.redates_iff.mpr
  · intro h
    exact ⟨fun r _ => r.pairwise_rows, h.imp Report.redates_iff.mp⟩

/-- The figures are sums and counts of the data. -/
theorem Report.SameData.figures (h : r.SameData r' c) : r.figures c = r'.figures c := by
  have hcount (p : ConversionType → Bool) (l : List AttributedConversion) : (l.filter fun a => p a.conversionType).length =
      ((l.map fun a => (a.conversionType, a.revenue)).filter fun x => p x.1).length := by
    rw [List.filter_map, List.length_map]
    rfl
  have hrevenue (l : List AttributedConversion) : (l.map fun a => a.revenue).sum =
      ((l.map fun a => (a.conversionType, a.revenue)).map Prod.snd).sum := by
    rw [List.map_map]
    rfl
  have hexposures : (r.exposuresOf c).length = (r'.exposuresOf c).length := by simpa using h.exposures.length_eq
  have hcredits : (r.creditsOf c).length = (r'.creditsOf c).length := by simpa using h.credits.length_eq
  have hkind (p : ConversionType → Bool) : ((r.creditsOf c).filter fun a => p a.conversionType).length =
      ((r'.creditsOf c).filter fun a => p a.conversionType).length := by
    rw [hcount, hcount, (h.credits.filter _).length_eq]
  have hpurchases := hkind fun k => k = .purchase
  have hvisits := hkind fun k => k = .siteVisit
  rw [Report.figures, Report.figures, h.exposures.sum_nat, hexposures, hcredits, hrevenue, hrevenue,
    (h.credits.map Prod.snd).sum_nat, hpurchases, hvisits]

theorem Report.Redates.figures (h : r.Redates Report.SameData r') :
    r.Redates (fun r r' c => r.figures c = r'.figures c) r' := by
  intro htime c hc hc'
  exact (h htime c hc hc').imp id fun hsame => ⟨hsame.1, hsame.2.figures⟩

/-- The rows that date a report are rows of its tables. -/
theorem Report.mem_attributedFinal_of_dating {a : AttributedConversion} (h : a ∈ r.dating) :
    a ∈ r.tables.attributedFinal := by
  unfold Report.dating at h
  split at h
  · exact h
  · obtain ⟨x, hx, rfl⟩ := List.mem_map.mp h
    exact (List.mem_filter.mp (mem_credits.mp hx).1).1

/-- The hot credits are the credits that are hot. -/
theorem Report.credited_pre (s : Serving) : Report.credited ⟨s, true⟩ =
    (Report.credited ⟨s, false⟩).filter fun x => x.1.path = .hot := by
  have hpost : Report.credited ⟨s, false⟩ = credits s.exposuresFinal s.attributedFinal := by
    change credits _ (s.attributedFinal.filter fun _ => true) = _
    rw [List.filter_true]
  rw [hpost]
  exact credits_filter_rows fun a => a.path = .hot

/-- Over the same exposures and credits a report shows the same of a campaign. -/
theorem Report.sameData_of_perm (he : r.tables.exposuresFinal.Perm r'.tables.exposuresFinal)
    (hc : r.credited.Perm r'.credited) (c : String) : r.SameData r' c where
  exposures := (he.filter _).map _
  credits := ((hc.filter _).map _).map _

/-- Credits date a report, where there are any. -/
theorem Report.newest_of_perm (hc : r.credited.Perm r'.credited) (hne : r.credited ≠ []) : r.newest = r'.newest := by
  have hne' : r'.credited ≠ [] := fun hnil => hne (List.perm_nil.mp (hnil ▸ hc))
  unfold Report.newest Report.dating
  rw [if_neg hne, if_neg hne']
  exact maxOf_congr fun _ => ((hc.map _).map _).mem_iff

/-- A later row dates the report later. -/
theorem Report.newest_lt {a : AttributedConversion} (ha : a ∈ r'.dating) (h : r.tables.Precedes a) :
    r.newest < r'.newest := by
  have hle : a.processedAt ≤ r'.newest := le_maxOf (List.mem_map_of_mem ha)
  refine lt_of_lt_of_le ?_ hle
  rcases maxOf_mem_or (r.dating.map fun b => b.processedAt) with hm | ⟨_, hz⟩
  · obtain ⟨b, hb, hbt⟩ := List.mem_map.mp hm
    rw [Report.newest, ← hbt]
    exact h.2 b (Report.mem_attributedFinal_of_dating hb)
  · rw [Report.newest, hz]
    exact h.1

/-- Dated by more rows, none older than the epoch, a report is dated no earlier. -/
theorem Report.newest_le (h : ∀ a ∈ r.dating, a ∈ r'.dating) (hstamped : ∀ a ∈ r'.dating, 0 ≤ a.processedAt) :
    r.newest ≤ r'.newest := by
  rcases maxOf_mem_or (r.dating.map fun a => a.processedAt) with hm | ⟨_, hz⟩
  · obtain ⟨a, ha, hat⟩ := List.mem_map.mp hm
    rw [Report.newest, ← hat]
    exact le_maxOf (List.mem_map_of_mem (h a ha))
  · rw [Report.newest, hz]
    rcases maxOf_mem_or (r'.dating.map fun a => a.processedAt) with hm' | ⟨_, hz'⟩
    · obtain ⟨a, ha, hat⟩ := List.mem_map.mp hm'
      rw [Report.newest, ← hat]
      exact hstamped a ha
    · rw [Report.newest, hz']

private theorem Report.mem_dating_of_credited {x : Credit} (h : x ∈ r.credited) : x.1 ∈ r.dating := by
  rw [Report.dating, if_neg (List.ne_nil_of_mem h)]
  exact List.mem_map_of_mem h

/-- Reports of one kind at one max ingest share their report time, of two kinds never. -/
theorem hotOnly_of_reportedAt {s t : Serving} (hmax : s.maxIngest = t.maxIngest) (hr : r ∈ passReports s)
    (hr' : r' ∈ passReports t) (htime : r.reportedAt = r'.reportedAt) :
    (r = ⟨s, true⟩ ∧ r' = ⟨t, true⟩) ∨ (r = ⟨s, false⟩ ∧ r' = ⟨t, false⟩) := by
  have hdelta : 0 < reconcileDelta := by decide
  rcases List.mem_pair.mp hr with rfl | rfl <;> rcases List.mem_pair.mp hr' with rfl | rfl
  · exact .inl ⟨rfl, rfl⟩
  · rw [reportedAt_pre, reportedAt_post] at htime
    omega
  · rw [reportedAt_pre, reportedAt_post] at htime
    omega
  · exact .inr ⟨rfl, rfl⟩

/-- Whatever became of the tables in one of these ways, the reports over them move with the
data. -/
theorem Serving.Became.redates {s t : Serving} (h : s.Became t) (hr : r ∈ passReports s) (hr' : r' ∈ passReports t) :
    r.Redates Report.SameData r' := by
  intro htime c _ _
  cases h with
  | ingested hmax hnext hprevious =>
    rcases List.mem_pair.mp hr with rfl | rfl <;> rcases List.mem_pair.mp hr' with rfl | rfl <;>
      simp only [reportedAt_pre, reportedAt_post] at htime <;> omega
  | hotCredit hcredit =>
    obtain ⟨x, hx, hlater⟩ := hcredit
    have hread : x ∈ r'.credited := by
      rcases List.mem_pair.mp hr' with rfl | rfl
      · exact hx
      · rw [Report.credited_pre] at hx
        exact (List.mem_filter.mp hx).1
    have hlater' : r.tables.Precedes x.1 := by rcases List.mem_pair.mp hr with rfl | rfl <;> exact hlater
    exact .inl (Report.newest_lt (Report.mem_dating_of_credited hread) hlater')
  | uncredited hmax hexposures hcredits hrows hstamped =>
    obtain ⟨hs, ht, hperm⟩ : r.tables = s ∧ r'.tables = t ∧ r.credited.Perm r'.credited := by
      rcases hotOnly_of_reportedAt hmax hr hr' htime with ⟨rfl, rfl⟩ | ⟨rfl, rfl⟩
      · rw [Report.credited_pre, Report.credited_pre]
        exact ⟨rfl, rfl, hcredits.filter _⟩
      · exact ⟨rfl, rfl, hcredits⟩
    have hsame : r.SameData r' c := Report.sameData_of_perm (hs ▸ ht ▸ hexposures) hperm c
    by_cases hnil : r.credited = []
    · have hnil' : r'.credited = [] := List.nil_perm.mp (hnil ▸ hperm)
      have hdating : r.dating = s.attributedFinal := by rw [Report.dating, if_pos hnil, hs]
      have hdating' : r'.dating = t.attributedFinal := by rw [Report.dating, if_pos hnil', ht]
      have hle : r.newest ≤ r'.newest := Report.newest_le (hdating ▸ hdating' ▸ hrows) (hdating' ▸ hstamped)
      exact hle.lt_or_eq.imp id fun heq => ⟨heq, hsame⟩
    · exact .inr ⟨Report.newest_of_perm hperm hnil, hsame⟩
  | recovered hmax hexposures hhot hcredit =>
    obtain ⟨x, hx, hlater⟩ := hcredit
    rcases hotOnly_of_reportedAt hmax hr hr' htime with ⟨rfl, rfl⟩ | ⟨rfl, rfl⟩
    · have hsame : Report.SameData ⟨s, true⟩ ⟨t, true⟩ c := Report.sameData_of_perm hexposures hhot c
      by_cases hnil : Report.credited ⟨s, true⟩ = []
      · -- without hot credits the pre report too is dated by all rows, the recovered one among them
        have hnil' : Report.credited ⟨t, true⟩ = [] := List.nil_perm.mp (hnil ▸ hhot)
        have hrow : x.1 ∈ Report.dating ⟨t, true⟩ := by
          rw [Report.dating, if_pos hnil']
          exact Report.mem_attributedFinal_of_dating (r := ⟨t, false⟩) (Report.mem_dating_of_credited hx)
        exact .inl (Report.newest_lt hrow hlater)
      · exact .inr ⟨Report.newest_of_perm hhot hnil, hsame⟩
    · exact .inl (Report.newest_lt (Report.mem_dating_of_credited hx) hlater)

/-- The two reports of a pass stand under two report times. -/
theorem pairwise_passReports (s : Serving) {same : Report → Report → String → Prop} :
    (passReports s).Pairwise (Report.Redates same) := by
  have hne : Report.reportedAt ⟨s, true⟩ ≠ Report.reportedAt ⟨s, false⟩ := by
    intro h
    have hoffset : (0 : Int) = reconcileDelta := Int.add_left_cancel h
    exact absurd hoffset (by decide)
  refine List.pairwise_pair.mpr ?_
  intro h
  exact absurd h hne

end twins

section runs
variable {bucketOf : String → Nat} {passes : List Serving} {σ : System}

private theorem ReportRun.pairwise_redates (h : ReportRun bucketOf Settled passes σ) :
    (passes.flatMap passReports).Pairwise (Report.Redates Report.SameData) := by
  induction h with
  | start => exact .nil
  | engine _ _ ih => exact ih
  | load _ _ ih => exact ih
  | replay _ _ ih => exact ih
  | pass _ _ hsettled ih =>
    rw [List.flatMap_append, List.flatMap_singleton, List.pairwise_append]
    refine ⟨ih, pairwise_passReports _, fun r hr r' hr' => ?_⟩
    obtain ⟨p, hp, hr⟩ := List.mem_flatMap.mp hr
    exact (hsettled p hp).redates hr hr'

/-- In any run the twins are decided exactly when the reports' dates move with the figures. -/
theorem ReportRun.twinsDecided_iff {meets : List Serving → Serving → Prop} (h : ReportRun bucketOf meets passes σ) :
    TwinsDecided σ.serving.reportSnapshots ↔
      (passes.flatMap passReports).Pairwise (Report.Redates fun r r' c => r.figures c = r'.figures c) := by
  rw [h.reportSnapshots, twinsDecided_iff_redates]

/-- In a run whose passes find settled tables every twin is decided by its version. -/
theorem snapshotTwins_decided (h : ReportRun bucketOf Settled passes σ) :
    TwinsDecided σ.serving.reportSnapshots :=
  h.twinsDecided_iff.mpr (h.pairwise_redates.imp Report.Redates.figures)

end runs

section sample

/-- One exposure, and two conversions nine and ten days after it: past the hot window. -/
def sampleMissed : EngineRun :=
  (runEngine true (6 * Time.hour) sampleGraph [sampleExposure "e" (20700 * Time.day) (20700 * Time.day)]
    [sampleConversion "c1" (20709 * Time.day) (20709 * Time.day),
      sampleConversion "c2" (20710 * Time.day) (20710 * Time.day)]).toOption.getD ⟨[], [], 0, 0⟩

/-- What scripts leave behind, one after the other. -/
def sampleAfter (scripts : List (SystemScript Unit)) : System :=
  scripts.foldl (fun σ p => (p.run σ).1) ⟨Lake.empty, Serving.empty⟩

def sampleLanding : SystemScript Unit := engineMain sampleMissed "tiny"

def samplePass : SystemScript Unit := reconcileRun String.length

def sampleDayPass (day : Int) : SystemScript Unit := runReconcile String.length (some day)

theorem sampleLanding_ends : sampleLanding.Ends ⟨Lake.empty, Serving.empty⟩ () (sampleAfter [sampleLanding]) :=
  Prod.ext rfl (by decide +kernel)

theorem samplePass_ends : samplePass.Ends (sampleAfter [sampleLanding]) () (sampleAfter [sampleLanding, samplePass]) :=
  Prod.ext rfl (by decide +kernel)

private theorem sampleIdle_ends : (sampleDayPass 20708).Ends (sampleAfter [sampleLanding]) ()
    (sampleAfter [sampleLanding, sampleDayPass 20708]) :=
  Prod.ext rfl (by decide +kernel)

/-- A pass over a day with nothing to recover, one that recovers everything, and one that finds
it recovered. -/
theorem snapshotTwins_decided_sample :
    TwinsDecided (sampleAfter [sampleLanding, sampleDayPass 20708, samplePass, samplePass]).serving.reportSnapshots := by
  have hpass : samplePass.Ends (sampleAfter [sampleLanding, sampleDayPass 20708]) ()
      (sampleAfter [sampleLanding, sampleDayPass 20708, samplePass]) := Prod.ext rfl (by decide +kernel)
  have hagain : samplePass.Ends (sampleAfter [sampleLanding, sampleDayPass 20708, samplePass]) ()
      (sampleAfter [sampleLanding, sampleDayPass 20708, samplePass, samplePass]) := Prod.ext rfl (by decide +kernel)
  refine snapshotTwins_decided (.pass (d := .run) (.pass (d := .run) (.pass (d := .backfill (some 20708))
    (.engine .start sampleLanding_ends.leaves) sampleIdle_ends ?_) hpass ?_) hagain ?_)
  · exact fun p hp => absurd hp List.not_mem_nil
  · intro p hp
    obtain rfl := List.mem_singleton.mp hp
    exact .recovered (by decide +kernel) (by decide +kernel) (by decide +kernel) (by decide +kernel)
  · intro p hp
    rcases List.mem_pair.mp hp with rfl | rfl
    · exact .recovered (by decide +kernel) (by decide +kernel) (by decide +kernel) (by decide +kernel)
    · exact .uncredited (by decide +kernel) (by decide +kernel) (by decide +kernel) (by decide +kernel)
        (by decide +kernel)

/-- A conversion a hundred days after the exposure, which nothing credits. -/
def sampleStray : EngineRun :=
  (runEngine true (6 * Time.hour) sampleGraph [sampleExposure "e" (20700 * Time.day) (20700 * Time.day)]
    [sampleConversion "c3" (20800 * Time.day) (20800 * Time.day)]).toOption.getD ⟨[], [], 0, 0⟩

/-- And one a day after it. -/
def sampleTimely : EngineRun :=
  (runEngine true (6 * Time.hour) sampleGraph [sampleExposure "e" (20700 * Time.day) (20700 * Time.day)]
    [sampleConversion "c4" (20701 * Time.day) (20701 * Time.day)]).toOption.getD ⟨[], [], 0, 0⟩

/-- Without credits a report is dated by all rows; the first credit dates it back. -/
theorem snapshotVersion_falls : ∃ passes σ, ReportRun String.length (fun _ _ => True) passes σ ∧
    ¬ σ.serving.reportSnapshots.Pairwise fun x y => x.key = y.key → x.snapshotVersion ≤ y.snapshotVersion := by
  have hstray : (engineMain sampleStray "tiny").Ends ⟨Lake.empty, Serving.empty⟩ ()
      (sampleAfter [engineMain sampleStray "tiny"]) := Prod.ext rfl (by decide +kernel)
  have hfirst : samplePass.Ends (sampleAfter [engineMain sampleStray "tiny"]) ()
      (sampleAfter [engineMain sampleStray "tiny", samplePass]) := Prod.ext rfl (by decide +kernel)
  have htimely : (engineMain sampleTimely "tiny").Ends (sampleAfter [engineMain sampleStray "tiny", samplePass]) ()
      (sampleAfter [engineMain sampleStray "tiny", samplePass, engineMain sampleTimely "tiny"]) :=
    Prod.ext rfl (by decide +kernel)
  have hthen : samplePass.Ends (sampleAfter [engineMain sampleStray "tiny", samplePass, engineMain sampleTimely "tiny"]) ()
      (sampleAfter [engineMain sampleStray "tiny", samplePass, engineMain sampleTimely "tiny", samplePass]) :=
    Prod.ext rfl (by decide +kernel)
  refine ⟨_, _, .pass (d := .run) (.engine (.pass (d := .run) (.engine .start hstray.leaves) hfirst trivial)
    htimely.leaves) hthen trivial, ?_⟩
  decide +kernel

/-- Passes over the two days in turn date their reports alike and credit one conversion,
then two; and a later version can be lower. -/
theorem snapshotTwins_undecided :
    (∃ passes σ, ReportRun String.length (fun _ _ => True) passes σ ∧
      ¬ TwinsDecided σ.serving.reportSnapshots) ∧
    ∃ passes σ, ReportRun String.length (fun _ _ => True) passes σ ∧
      ¬ σ.serving.reportSnapshots.Pairwise fun x y => x.key = y.key → x.snapshotVersion ≤ y.snapshotVersion := by
  refine ⟨?_, snapshotVersion_falls⟩
  have hfirst : (sampleDayPass 20709).Ends (sampleAfter [sampleLanding]) ()
      (sampleAfter [sampleLanding, sampleDayPass 20709]) := Prod.ext rfl (by decide +kernel)
  have hthen : (sampleDayPass 20710).Ends (sampleAfter [sampleLanding, sampleDayPass 20709]) ()
      (sampleAfter [sampleLanding, sampleDayPass 20709, sampleDayPass 20710]) := Prod.ext rfl (by decide +kernel)
  refine ⟨_, _, .pass (d := .backfill (some 20710)) (.pass (d := .backfill (some 20709))
    (.engine .start sampleLanding_ends.leaves) hfirst trivial) hthen trivial, ?_⟩
  intro h
  have hidentical := h.identical
  revert hidentical
  decide +kernel

end sample
end CtvAttribution
