import CtvAttribution.DayLoadRuns

/-! The day loads under the date functions of the server, which are exact within its calendar
only, and under any choice between rows of one version. -/
namespace CtvAttribution
open Library Script

/-- The days a ClickHouse DateTime covers: 1970-01-01 to 2106-02-06. -/
def ServerDay (day : Int) : Prop := 0 ≤ day ∧ day < 49710

instance (day : Int) : Decidable (ServerDay day) := inferInstanceAs (Decidable (_ ∧ _))

/-- The date functions of the server. -/
structure ServerCalendar where
  toDate : Int → Int
  toStartOfHour : Int → Int
  /-- A `{day:Date}` parameter. -/
  date : Int → Int

/-- Within its calendar the server's functions are exact; outside they are not documented. -/
structure ServerCalendar.Documented (f : ServerCalendar) : Prop where
  toDate : ∀ t, ServerDay (dayOf t) → f.toDate t = dayOf t
  toStartOfHour : ∀ t, ServerDay (dayOf t) → f.toStartOfHour t = CtvAttribution.toStartOfHour t
  date : ∀ day, ServerDay day → f.date day = day

namespace ServerCalendar
variable (f : ServerCalendar)

/-- `_DIRTY_FROM_EXPOSURES`. -/
def dirtyFromExposures (s : Serving) (day : Int) : List RollupStamp :=
  (s.exposuresFinal.filter fun e => f.toDate e.eventTime = f.date day).map fun e =>
    ⟨e.campaignId, f.toStartOfHour e.eventTime, e.ingestTime⟩

/-- `_DIRTY_FROM_EXPOSURE_CREDITS`. -/
def dirtyFromExposureCredits (s : Serving) (day : Int) : List RollupStamp :=
  (credits (s.exposuresFinal.filter fun e => f.toDate e.eventTime = f.date day) s.attributedFinal).map fun c =>
    ⟨c.2.campaignId, f.toStartOfHour c.2.eventTime, c.1.processedAt⟩

/-- `_DIRTY_FROM_ATTRIBUTED`. -/
def dirtyFromAttributed (s : Serving) (day : Int) : List RollupStamp :=
  ((credits s.exposuresFinal s.attributedFinal).filter fun c => f.toDate c.1.eventTime = f.date day).map fun c =>
    ⟨c.2.campaignId, f.toStartOfHour c.2.eventTime, c.1.processedAt⟩

/-- `load_exposures_day`. -/
def loadExposuresDay (log : List Exposure) (day : Int) : ServingScript := do
  insertExposures (readExposuresForDays log [day])
  Script.modify fun s => s.insertDirty (f.dirtyFromExposures s day)
  Script.modify fun s => s.insertDirty (f.dirtyFromExposureCredits s day)

/-- `load_attributed_day`, over the rows read for the day. -/
def loadAttributedDay (rows : List AttributedConversion) (day : Int) : ServingScript := do
  insertAttributed rows
  Script.modify fun s => s.insertDirty (f.dirtyFromAttributed s day)

def contributions (exposures : List Exposure) (attributed : List AttributedConversion) : List Contribution :=
  exposures.map (fun e => { exposureContribution e with hour := f.toStartOfHour e.eventTime }) ++
    (credits exposures attributed).map fun c => { creditContribution c with hour := f.toStartOfHour c.2.eventTime }

/-- `_REFRESH_CAMPAIGN_HOURLY` of the whole table. -/
def rebuild (exposures : List Exposure) (attributed : List AttributedConversion) : List RollupRow :=
  aggregate (f.contributions exposures attributed)

/-- The bookkeeping is the keys and stamps of a full rebuild. -/
def DirtyExact (s : Serving) : Prop :=
  s.rollupDirtyFinal.Perm ((f.rebuild s.exposuresFinal s.attributedFinal).map RollupRow.stamp)

instance (s : Serving) : Decidable (f.DirtyExact s) := inferInstanceAs (Decidable (List.Perm _ _))

end ServerCalendar

/-- Loads of single days in any order over any lake, which gains exposures and credits in
between. -/
inductive ServerLoadRun (f : ServerCalendar) (days : Int → Prop) : System → Prop where
  | start (lake : Lake) : ServerLoadRun f days ⟨lake, Serving.empty⟩
  | gainExposures {σ : System} (exposures : List Exposure) : ServerLoadRun f days σ →
      ServerLoadRun f days { σ with lake := σ.lake.land exposures }
  | gainCredit {σ : System} {r : AttributedConversion} : ServerLoadRun f days σ → GainsCredit σ.lake.attributed r →
      ServerLoadRun f days { σ with lake := σ.lake.landAttributed [r] }
  | loadExposures {σ σ' : System} {day : Int} : ServerLoadRun f days σ → days day →
      (onServing (f.loadExposuresDay σ.lake.exposures day)).Ends σ () σ' → ServerLoadRun f days σ'
  | loadAttributed {σ σ' : System} {day : Int} {rows : List AttributedConversion} : ServerLoadRun f days σ → days day →
      ReadsCurrent σ.lake.attributed (some [day]) rows → (onServing (f.loadAttributedDay rows day)).Ends σ () σ' →
      ServerLoadRun f days σ'

section calendar
variable {f : ServerCalendar} {s : Serving} {day : Int} {σ : System}

/-- The tables hold rows of the server's days only. -/
structure WithinCalendar (s : Serving) : Prop where
  exposures : ∀ e ∈ s.exposuresLanded, ServerDay (dayOf e.eventTime)
  rows : ∀ r ∈ s.attributedConversions, ServerDay (dayOf r.eventTime)

theorem WithinCalendar.exposuresFinal (h : WithinCalendar s) : ∀ e ∈ s.exposuresFinal, ServerDay (dayOf e.eventTime) :=
  fun e he => h.exposures e (finalRow_eq_some (Serving.mem_exposuresFinal.mp he)).1

theorem WithinCalendar.attributedFinal (h : WithinCalendar s) :
    ∀ r ∈ s.attributedFinal, ServerDay (dayOf r.eventTime) :=
  fun r hr => h.rows r (finalRow_eq_some (Serving.mem_attributedFinal.mp hr)).1

/-- Within the calendar the server's filter of a day is the day. -/
private theorem filter_toDate (hf : f.Documented) (hday : ServerDay day) {α : Type} {time : α → Int} {l : List α}
    (hl : ∀ a ∈ l, ServerDay (dayOf (time a))) :
    (l.filter fun a => f.toDate (time a) = f.date day) = l.filter fun a => dayOf (time a) = day :=
  List.filter_congr fun a ha => by rw [hf.toDate _ (hl a ha), hf.date day hday]

theorem WithinCalendar.dirtyFromExposures (h : WithinCalendar s) (hf : f.Documented) (hday : ServerDay day) :
    f.dirtyFromExposures s day = s.dirtyFromExposures day := by
  rw [ServerCalendar.dirtyFromExposures, filter_toDate hf hday h.exposuresFinal, Serving.dirtyFromExposures]
  apply List.map_congr_left
  intro e he
  rw [hf.toStartOfHour _ (h.exposuresFinal e (List.mem_filter.mp he).1)]

theorem WithinCalendar.dirtyFromExposureCredits (h : WithinCalendar s) (hf : f.Documented) (hday : ServerDay day) :
    f.dirtyFromExposureCredits s day = s.dirtyFromExposureCredits day := by
  rw [ServerCalendar.dirtyFromExposureCredits, filter_toDate hf hday h.exposuresFinal, Serving.dirtyFromExposureCredits]
  apply List.map_congr_left
  intro c hc
  have he := (mem_credits.mp hc).2.2.1
  rw [hf.toStartOfHour _ (h.exposuresFinal c.2 (List.mem_filter.mp he).1)]

theorem WithinCalendar.dirtyFromAttributed (h : WithinCalendar s) (hf : f.Documented) (hday : ServerDay day) :
    f.dirtyFromAttributed s day = s.dirtyFromAttributed day := by
  have hrows (c : Credit) (hc : c ∈ credits s.exposuresFinal s.attributedFinal) : ServerDay (dayOf c.1.eventTime) :=
    h.attributedFinal c.1 (mem_credits.mp hc).1
  rw [ServerCalendar.dirtyFromAttributed, filter_toDate hf hday hrows, Serving.dirtyFromAttributed]
  apply List.map_congr_left
  intro c hc
  rw [hf.toStartOfHour _ (h.exposuresFinal c.2 (mem_credits.mp (List.mem_filter.mp hc).1).2.2.1)]

/-- And the server's rebuild is the exact one. -/
theorem WithinCalendar.rebuild (h : WithinCalendar s) (hf : f.Documented) :
    f.rebuild s.exposuresFinal s.attributedFinal = refreshRows none s.exposuresFinal s.attributedFinal := by
  have hcontributions : f.contributions s.exposuresFinal s.attributedFinal =
      contributions s.exposuresFinal s.attributedFinal := by
    unfold ServerCalendar.contributions CtvAttribution.contributions
    congr 1 <;> apply List.map_congr_left
    · intro e he
      rw [hf.toStartOfHour _ (h.exposuresFinal e he)]
      rfl
    · intro c hc
      rw [hf.toStartOfHour _ (h.exposuresFinal c.2 (mem_credits.mp hc).2.2.1)]
      rfl
  rw [ServerCalendar.rebuild, hcontributions]
  rfl

theorem WithinCalendar.afterExposuresDay (h : WithinCalendar s) (hday : ServerDay day) (log : List Exposure) :
    WithinCalendar (s.afterExposuresDay log day) := by
  refine ⟨fun e he => ?_, h.rows⟩
  rcases List.mem_append.mp he with he | he
  · exact h.exposures e he
  · rw [List.mem_singleton.mp (mem_of_mem_readExposuresForDays he).2]
    exact hday

theorem WithinCalendar.afterAttributedDay (h : WithinCalendar s) (hday : ServerDay day)
    {log : List AttributedConversion}
    (hlog : SameDay log) : WithinCalendar (s.afterAttributedDay log day) := by
  refine ⟨h.exposures, fun r hr => ?_⟩
  rcases List.mem_append.mp hr with hr | hr
  · exact h.rows r hr
  · rw [List.mem_singleton.mp ((mem_readCurrent_days hlog).mp hr).2]
    exact hday

/-- Within the calendar the server's loads are the model's. -/
theorem ends_serverLoadExposuresDay (hf : f.Documented) (hday : ServerDay day) {log : List Exposure} {u : Unit}
    {t : Serving} (h : WithinCalendar s) : (f.loadExposuresDay log day).Ends s u t ↔ t = s.afterExposuresDay log day := by
  have hloaded : WithinCalendar (s.withExposures log day) := ⟨(h.afterExposuresDay hday log).exposures, h.rows⟩
  have hrecorded (rows : List RollupStamp) : WithinCalendar ((s.withExposures log day).insertDirty rows) :=
    ⟨hloaded.exposures, hloaded.rows⟩
  have hfirst := hloaded.dirtyFromExposures hf hday
  have hsecond := (hrecorded ((s.withExposures log day).dirtyFromExposures day)).dirtyFromExposureCredits hf hday
  simp only [Serving.withExposures] at hfirst hsecond
  simp [ServerCalendar.loadExposuresDay, ends_bind', hfirst, hsecond, Serving.afterExposuresDay, Serving.afterExposures]

private theorem ends_serverLoadAttributedDay (hf : f.Documented) (hday : ServerDay day)
    {log : List AttributedConversion}
    (hlog : SameDay log) {u : Unit} {t : Serving} (h : WithinCalendar s) :
    (f.loadAttributedDay (readCurrent log (some [day])) day).Ends s u t ↔ t = s.afterAttributedDay log day := by
  have hloaded : WithinCalendar { s with
      attributedConversions := s.attributedConversions ++ readCurrent log (some [day]) } :=
    ⟨h.exposures, (h.afterAttributedDay hday hlog).rows⟩
  have hdirty := hloaded.dirtyFromAttributed hf hday
  simp [ServerCalendar.loadAttributedDay, ends_bind', hdirty, Serving.afterAttributedDay, Serving.afterRows]

/-- A run of the server's loads is one of the model's. -/
theorem ServerLoadRun.dayLoadRun (hf : f.Documented) (h : ServerLoadRun f ServerDay σ)
    (hties : Keyed (fun r => (r.conversionId, recordVersion r)) σ.lake.attributed) (hlake : SameDay σ.lake.attributed) :
    DayLoadRun σ ∧ WithinCalendar σ.serving := by
  induction h with
  | start lake =>
    exact ⟨.start lake, fun _ he => absurd he List.not_mem_nil, fun _ hr => absurd hr List.not_mem_nil⟩
  | gainExposures exposures _ ih =>
    obtain ⟨hrun, hwithin⟩ := ih hties hlake
    exact ⟨hrun.gainExposures exposures, hwithin⟩
  | gainCredit _ hr ih =>
    have hold := ih (hties.mono fun _ hx => List.mem_append_left _ hx) fun r hr s hs =>
      hlake r (List.mem_append_left _ hr) s (List.mem_append_left _ hs)
    exact ⟨hold.1.gainCredit hr, hold.2⟩
  | loadExposures _ hday hl ih =>
    obtain ⟨s, hs, rfl⟩ := ends_onServing.mp hl
    obtain ⟨hrun, hwithin⟩ := ih hties hlake
    rw [ends_serverLoadExposuresDay hf hday hwithin] at hs
    subst hs
    exact ⟨hrun.afterExposures _, hwithin.afterExposuresDay hday _⟩
  | @loadAttributed σ σ' day rows _ hday hrows hl ih =>
    obtain ⟨s, hs, rfl⟩ := ends_onServing.mp hl
    obtain ⟨hrun, hwithin⟩ := ih hties hlake
    have hsame : SameDay σ.lake.attributed := hlake
    have hscanned : Keyed (fun r => (r.conversionId, recordVersion r)) (scanned σ.lake.attributed (some [day])) :=
      hties.mono fun _ hx => (List.mem_filter.mp hx).1
    rw [hrows.eq_readCurrent hscanned, ends_serverLoadAttributedDay hf hday hsame hwithin] at hs
    subst hs
    exact ⟨hrun.afterAttributed day, hwithin.afterAttributedDay hday hsame⟩

end calendar

section sample

/-- Date functions exact everywhere. -/
def exactCalendar : ServerCalendar := ⟨dayOf, toStartOfHour, id⟩

private theorem exactCalendar_documented : exactCalendar.Documented :=
  ⟨fun _ _ => rfl, fun _ _ => rfl, fun _ _ => rfl⟩

/-- Functions that saturate at the last Date and DateTime, over a literal that wraps around. -/
def saturatingCalendar : ServerCalendar :=
  ⟨fun t => max 0 (min 65535 (dayOf t)), fun t => max 0 (min (toStartOfHour t) (49710 * Time.day)),
    fun day => day % 65536⟩

private theorem saturatingCalendar_documented : saturatingCalendar.Documented where
  toDate t h := by
    simp only [ServerDay] at h
    simp only [saturatingCalendar]
    omega
  toStartOfHour t h := by
    have hhour : Time.hour = 3600000000 := rfl
    simp only [ServerDay, dayOf, day_eq] at h
    simp only [saturatingCalendar, CtvAttribution.toStartOfHour, day_eq, hhour]
    omega
  date day h := by
    simp only [ServerDay] at h
    simp only [saturatingCalendar]
    omega

variable {days : Int → Prop} {σ : System}

private theorem ServerLoadRun.afterExposures (h : ServerLoadRun exactCalendar days σ) {day : Int} (hday : days day) :
    ServerLoadRun exactCalendar days { σ with serving := σ.serving.afterExposuresDay σ.lake.exposures day } := by
  have hends : (exactCalendar.loadExposuresDay σ.lake.exposures day).Ends σ.serving ()
      (σ.serving.afterExposuresDay σ.lake.exposures day) := by
    have hfirst (s : Serving) : exactCalendar.dirtyFromExposures s day = s.dirtyFromExposures day := rfl
    have hsecond (s : Serving) : exactCalendar.dirtyFromExposureCredits s day = s.dirtyFromExposureCredits day := rfl
    simp [ServerCalendar.loadExposuresDay, ends_bind', hfirst, hsecond, Serving.afterExposuresDay, Serving.afterExposures]
  exact h.loadExposures hday (ends_onServing.mpr ⟨_, hends, rfl⟩)

private theorem ServerLoadRun.afterRows (h : ServerLoadRun exactCalendar days σ) {day : Int} (hday : days day)
    {rows : List AttributedConversion} (hrows : ReadsCurrent σ.lake.attributed (some [day]) rows) :
    ServerLoadRun exactCalendar days { σ with serving := σ.serving.afterRows rows day } := by
  have hends : (exactCalendar.loadAttributedDay rows day).Ends σ.serving () (σ.serving.afterRows rows day) := by
    simp only [ServerCalendar.loadAttributedDay, ends_bind', ends_insertAttributed, ends_modify]
    exact ⟨(), _, rfl, rfl⟩
  exact h.loadAttributed hday hrows (ends_onServing.mpr ⟨_, hends, rfl⟩)

/-- A conversion credited hot on one day, and by a later row that puts it on the next day. -/
def sampleSplitLake : Lake :=
  let row : AttributedConversion := { deferredRow "c1" (sampleDay + Time.minute) with
    exposureId := some "e1", attributed := true, reason := none }
  { exposures := [{ sampleExposure "e1" sampleDay sampleDay with householdId := "hh1" },
      { sampleExposure "e2" sampleDay sampleDay with campaignId := "other", householdId := "hh1" }]
    attributed := [row, { row with
      eventTime := row.eventTime + Time.day, processedAt := row.processedAt + Time.day, path := .reconciled
      exposureId := some "e2" }] }

/-- The exposures' day, then both days of the conversion. -/
def sampleSplit : System :=
  ⟨sampleSplitLake, ((Serving.empty.afterExposuresDay sampleSplitLake.exposures 20700).afterRows
    (readCurrent sampleSplitLake.attributed (some [20700])) 20700).afterRows
    (readCurrent sampleSplitLake.attributed (some [20701])) 20701⟩

private theorem sampleSplit_run : ServerLoadRun exactCalendar ServerDay sampleSplit :=
  ServerLoadRun.afterRows (ServerLoadRun.afterRows ((ServerLoadRun.start sampleSplitLake).afterExposures (by decide))
    (by decide) (readsCurrent_readCurrent _ _)) (by decide) (readsCurrent_readCurrent _ _)

/-- Two rows of a conversion with one version, which credit different campaigns. -/
def sampleTiedLake : Lake :=
  { sampleSplitLake with attributed :=
      let row : AttributedConversion := { deferredRow "c1" (sampleDay + Time.minute) with
        exposureId := some "e1", attributed := true, reason := none }
      [row, { row with exposureId := some "e2" }] }

/-- The day loaded twice, read one way and then the other. -/
def sampleTied : System :=
  ⟨sampleTiedLake, ((Serving.empty.afterExposuresDay sampleTiedLake.exposures 20700).afterRows
    (sampleTiedLake.attributed.take 1) 20700).afterRows (sampleTiedLake.attributed.drop 1) 20700⟩

private theorem sampleTied_run : ServerLoadRun exactCalendar ServerDay sampleTied :=
  ServerLoadRun.afterRows (ServerLoadRun.afterRows ((ServerLoadRun.start sampleTiedLake).afterExposures (by decide))
    (by decide) ⟨by decide, by decide, by decide⟩) (by decide) ⟨by decide, by decide, by decide⟩

/-- An exposure after the last Date. -/
def sampleFarLake : Lake := ⟨[sampleExposure "e1" (70000 * Time.day) sampleDay], []⟩

def sampleFar : System :=
  ⟨sampleFarLake, { Serving.empty with exposuresLanded := sampleFarLake.exposures }⟩

private theorem sampleFar_run : ServerLoadRun saturatingCalendar (fun _ => True) sampleFar := by
  have hends : (saturatingCalendar.loadExposuresDay sampleFarLake.exposures 70000).Ends Serving.empty ()
      sampleFar.serving := by
    simp only [ServerCalendar.loadExposuresDay, ends_bind', ends_insertExposures, ends_modify]
    exact ⟨(), _, rfl, (), _, rfl, by decide⟩
  exact (ServerLoadRun.start sampleFarLake).loadExposures trivial (ends_onServing.mpr ⟨_, hends, rfl⟩)

/-- A deferred conversion and its exposures. -/
def sampleDeferredLake : Lake :=
  ⟨sampleSplitLake.exposures, [deferredRow "c1" (sampleDay + Time.minute)]⟩

def sampleGain : AttributedConversion :=
  { deferredRow "c1" (sampleDay + Time.minute) with
    exposureId := some "e1", attributed := true, reason := none, path := .reconciled
    processedAt := sampleDay + Time.hour }

/-- Its row is loaded before its exposures; the credit is gained and loaded after, the exposures
once more at last. -/
def sampleGained : System :=
  let lake := sampleDeferredLake.landAttributed [sampleGain]
  ⟨lake, (((Serving.empty.afterRows (readCurrent sampleDeferredLake.attributed (some [20700])) 20700).afterExposuresDay
    lake.exposures 20700).afterRows (readCurrent lake.attributed (some [20700])) 20700).afterExposuresDay lake.exposures
    20700⟩

private theorem sampleGained_run : ServerLoadRun exactCalendar ServerDay sampleGained := by
  have hgain : GainsCredit sampleDeferredLake.attributed sampleGain :=
    ⟨rfl, rfl, _, rfl, rfl, by decide⟩
  have hfirst := (((ServerLoadRun.start sampleDeferredLake).afterRows (by decide)
    (readsCurrent_readCurrent _ (some [20700]))).afterExposures (by decide : ServerDay 20700)).gainCredit hgain
  exact ServerLoadRun.afterExposures (hfirst.afterRows (by decide) (readsCurrent_readCurrent _ (some [20700]))) (by decide)

end sample
end CtvAttribution
