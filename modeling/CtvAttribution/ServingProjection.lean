import CtvAttribution.CheckedMoney
import CtvAttribution.ReachableStates
import CtvAttribution.RollupFreshness

/-! The serving tables as a projection of the lake, once every landed day was loaded, and
the replay that rebuilds them. -/
namespace CtvAttribution
open Library Script

/-- Landings, compactions and loads of days, with the landed days not completely loaded
since. A load of one day may be stopped anywhere, a refresh come at any time. -/
inductive History (unit : Nat) : System → List Int → Prop where
  | empty : History unit ⟨Lake.empty, Serving.empty⟩ []
  | land {σ : System} {pending : List Int} (exposures : List Exposure) : History unit σ pending →
      History unit { σ with lake := σ.lake.land exposures } (pending ++ touchedDays (exposures.map Exposure.eventTime))
  | landAttributed {σ : System} {pending : List Int} (rows : List AttributedConversion) : History unit σ pending →
      History unit { σ with lake := σ.lake.landAttributed rows } (pending ++ touched rows)
  | maintain {σ : System} {pending : List Int} (exposureDays attributedDays : List Int) : History unit σ pending →
      History unit { σ with lake := σ.lake.maintain exposureDays attributedDays } pending
  | load {σ σ' : System} {pending : List Int} {day : Int} : History unit σ pending → dayPartitions day = true →
      (loadDay day).Ends σ () σ' → History unit σ' (pending.filter (· ≠ day))
  | stopped {σ σ' : System} {pending : List Int} {day : Int} : History unit σ pending →
      (loadDay day).Leaves σ σ' → History unit σ' pending
  | refresh {σ σ' : System} {pending : List Int} : History unit σ pending →
      (onServing (Checked.refreshCampaignHourly unit)).Leaves σ σ' → History unit σ' pending

/-- A lake of unique exposures, whose conversions have one event time and one row a version. -/
structure RegularLake (lake : Lake) : Prop where
  exposures : Keyed Exposure.exposureId lake.exposures
  eventTimes : ∀ r ∈ lake.attributed, ∀ s ∈ lake.attributed,
    r.conversionId = s.conversionId → r.eventTime = s.eventTime
  versions : Keyed (fun r => (r.conversionId, r.processedAt)) lake.attributed

/-- FINAL of both landed tables is what the lake reads. -/
structure ProjectsLake (lake : Lake) (s : Serving) : Prop where
  exposures : s.exposuresFinal.Perm (firstSeen lake.exposures)
  rows : s.attributedFinal.Perm (readCurrent lake.attributed none)

/-- Rows of the lake only, and every row but those of some days; days outside the calendar
are among these. -/
structure Projected (lake : Lake) (pending : List Int) (s : Serving) : Prop where
  served : ServedFrom lake s
  exposures : ∀ e ∈ lake.exposures, e ∈ s.exposuresLanded ∨ dayOf e.eventTime ∈ pending
  rows : ∀ cid r, currentRow lake.attributed cid = some r → r ∈ s.attributedConversions ∨ dayOf r.eventTime ∈ pending
  calendar : ∀ d ∈ lake.days, dayPartitions d = true ∨ d ∈ pending

section regular
variable {lake lake' : Lake} {s : Serving} {pending : List Int}

theorem RegularLake.mono (h : RegularLake lake) (he : ∀ e ∈ lake'.exposures, e ∈ lake.exposures)
    (hr : ∀ r ∈ lake'.attributed, r ∈ lake.attributed) : RegularLake lake' where
  exposures := h.exposures.mono he
  eventTimes r hmr s hms := h.eventTimes r (hr r hmr) s (hr s hms)
  versions := h.versions.mono hr

theorem RegularLake.sameDay (h : RegularLake lake) : SameDay lake.attributed :=
  fun r hr s hs he => congrArg dayOf (h.eventTimes r hr s hs he)

theorem RegularLake.keyed (h : RegularLake lake) :
    Keyed (fun r : AttributedConversion => (r.conversionId, recordVersion r)) lake.attributed := by
  apply h.versions.of_determines
  intro r s he
  have hid : r.conversionId = s.conversionId := congrArg Prod.fst he
  have hat : r.processedAt = s.processedAt := congrArg (fun x => (ofLex x.2).1) he
  exact Prod.ext hid hat

theorem mem_lakeDays {d : Int} : d ∈ lake.days ↔
    (∃ e ∈ lake.exposures, dayOf e.eventTime = d) ∨ ∃ r ∈ lake.attributed, dayOf r.eventTime = d := by
  rw [Lake.days, mem_sortedSet, List.mem_append, List.mem_map, List.mem_map]

@[simp] theorem mem_compactDay {α : Type} {eventTime : α → Int} {log : List α} {day : Int} {x : α} :
    x ∈ compactDay eventTime log day ↔ x ∈ log := by
  rw [compactDay, List.mem_append, List.mem_filter, List.mem_filter, ← and_or_left]
  cases dayRangesPredicate [day] (eventTime x) <;> simp

private theorem mem_foldl_compactDay {α : Type} {eventTime : α → Int} {days : List Int} {log : List α} {x : α} :
    x ∈ days.foldl (compactDay eventTime) log ↔ x ∈ log := by
  induction days generalizing log with
  | nil => rfl
  | cons day days ih => rw [List.foldl_cons, ih, mem_compactDay]

/-- With no day pending the served rows are the lake's. -/
theorem Projected.projectsLake (h : Projected lake [] s) (hlake : RegularLake lake) : ProjectsLake lake s := by
  have hexposures (e : Exposure) (he : e ∈ lake.exposures) : e ∈ s.exposuresLanded :=
    (h.exposures e he).resolve_right List.not_mem_nil
  constructor
  · rw [List.perm_ext_iff_of_nodup s.nodup_exposuresFinal (nodup_firstSeen _)]
    intro e
    rw [mem_firstSeen, s.mem_exposuresFinal_of_keyed hlake.exposures h.served.exposures]
    exact ⟨h.served.exposures e, hexposures e⟩
  · rw [List.perm_ext_iff_of_nodup s.nodup_attributedFinal (nodup_readCurrent _ _).of_map,
      attributedFinal_eq_iff h.served]
    intro r hr
    have hcur := mem_readCurrent.mp hr
    have hin : r ∈ s.attributedConversions := (h.rows _ r hcur).resolve_right List.not_mem_nil
    obtain ⟨c, hc⟩ := exists_finalRow (fun r : AttributedConversion => r.conversionId) (fun r => r.processedAt) hin
    obtain ⟨hcm, hck, hmax⟩ := finalRow_eq_some hc
    have hle := currentRow_max hcur (h.served.rows c hcm) hck
    have hat : c.processedAt = r.processedAt :=
      le_antisymm ((Prod.Lex.toLex_le_toLex.mp hle).elim le_of_lt fun h => h.1.le) (hmax r hin rfl)
    rw [Serving.servedRow, hc]
    exact congrArg some (hlake.versions c (h.served.rows c hcm) r (h.served.rows r hin) (Prod.ext hck hat))

end regular

section history
variable {lake : Lake} {s : Serving} {σ σ' : System} {pending : List Int}

/-- More rows of the lake only help. -/
theorem tableInvariant_projected (lake : Lake) (pending : List Int) :
    TableInvariant lake (Projected lake pending) where
  exposures s chunk h hchunk := by
    refine ⟨(tableInvariant_served lake).exposures s chunk h.served hchunk, fun e he => ?_, h.rows, h.calendar⟩
    exact (h.exposures e he).imp_left (List.mem_append_left _)
  rows s chunk h hchunk := by
    refine ⟨(tableInvariant_served lake).rows s chunk h.served hchunk, h.exposures, fun cid r hr => ?_, h.calendar⟩
    exact (h.rows cid r hr).imp_left (List.mem_append_left _)
  bookkeeping s t he hr h :=
    ⟨(tableInvariant_served lake).bookkeeping s t he hr h.served, he ▸ h.exposures, hr ▸ h.rows, h.calendar⟩

theorem Projected.land (h : Projected lake pending s) (es : List Exposure) :
    Projected (lake.land es) (pending ++ touchedDays (es.map Exposure.eventTime)) s := by
  have hnew {e : Exposure} (he : e ∈ es.map landedExposure) :
      dayOf e.eventTime ∈ pending ++ touchedDays (es.map Exposure.eventTime) := by
    obtain ⟨x, hx, rfl⟩ := List.mem_map.mp he
    apply List.mem_append_right
    rw [mem_touchedDays]
    exact ⟨_, List.mem_map_of_mem hx, (dayOf_toUtcMs _).symm⟩
  refine ⟨h.served.mono (fun e he => List.mem_append_left _ he) fun r hr => hr, fun e he => ?_,
    fun cid r hr => (h.rows cid r hr).imp_right (List.mem_append_left _), fun d hd => ?_⟩
  · rcases List.mem_append.mp he with he | he
    · exact (h.exposures e he).imp_right (List.mem_append_left _)
    · exact Or.inr (hnew he)
  · rcases mem_lakeDays.mp hd with ⟨e, he, rfl⟩ | ⟨r, hr, rfl⟩
    · rcases List.mem_append.mp he with he | he
      · exact (h.calendar _ (mem_lakeDays.mpr (.inl ⟨e, he, rfl⟩))).imp_right (List.mem_append_left _)
      · exact Or.inr (hnew he)
    · exact (h.calendar _ (mem_lakeDays.mpr (.inr ⟨r, hr, rfl⟩))).imp_right (List.mem_append_left _)

theorem Projected.landAttributed (h : Projected lake pending s) (rows : List AttributedConversion) :
    Projected (lake.landAttributed rows) (pending ++ touched rows) s := by
  have hnew {r : AttributedConversion} (hr : r ∈ rows.map landedRow) :
      dayOf r.eventTime ∈ pending ++ touched rows := by
    obtain ⟨x, hx, rfl⟩ := List.mem_map.mp hr
    exact List.mem_append_right _ (mem_touched.mpr ⟨x, hx, (dayOf_landedRow x).symm⟩)
  refine ⟨h.served.mono (fun e he => he) fun r hr => List.mem_append_left _ hr,
    fun e he => (h.exposures e he).imp_right (List.mem_append_left _), fun cid r hr => ?_, fun d hd => ?_⟩
  · rw [Lake.landAttributed, currentRow_append] at hr
    rcases newer_eq_or recordVersion (currentRow lake.attributed cid) (currentRow (rows.map landedRow) cid)
      with he | he
    · rw [he] at hr
      exact (h.rows cid r hr).imp_right (List.mem_append_left _)
    · rw [he] at hr
      exact Or.inr (hnew (currentRow_mem hr))
  · rcases mem_lakeDays.mp hd with ⟨e, he, rfl⟩ | ⟨r, hr, rfl⟩
    · exact (h.calendar _ (mem_lakeDays.mpr (.inl ⟨e, he, rfl⟩))).imp_right (List.mem_append_left _)
    · rcases List.mem_append.mp hr with hr | hr
      · exact (h.calendar _ (mem_lakeDays.mpr (.inr ⟨r, hr, rfl⟩))).imp_right (List.mem_append_left _)
      · exact Or.inr (hnew hr)

/-- Compaction keeps every row, and with one row a version every current one. -/
theorem Projected.maintain (h : Projected lake pending s) (hlake : RegularLake lake) (ed ad : List Int) :
    Projected (lake.maintain ed ad) pending s where
  served := h.served.mono (fun _ he => mem_foldl_compactDay.mpr he) fun _ hr => mem_foldl_compactDay.mpr hr
  exposures e he := h.exposures e (mem_foldl_compactDay.mp he)
  rows cid r hr := by
    have hsame : currentRow (lake.maintain ed ad).attributed cid = currentRow lake.attributed cid :=
      (current_congr hlake.keyed fun _ => mem_foldl_compactDay.symm).symm
    exact h.rows cid r (hsame ▸ hr)
  calendar d hd := by
    apply h.calendar
    rw [mem_lakeDays] at hd ⊢
    exact hd.imp (fun ⟨e, he, hd⟩ => ⟨e, mem_foldl_compactDay.mp he, hd⟩)
      fun ⟨r, hr, hd⟩ => ⟨r, mem_foldl_compactDay.mp hr, hd⟩

/-- A day completely loaded is pending no more. -/
theorem Projected.afterDay (h : Projected lake pending s) (hlake : RegularLake lake) {day : Int}
    (hday : dayPartitions day = true) : Projected lake (pending.filter (· ≠ day)) (s.afterDay lake day) := by
  have hrest {d : Int} (hd : d ∈ pending) (hne : d ≠ day) : d ∈ pending.filter (· ≠ day) :=
    List.mem_filter.mpr ⟨hd, decide_eq_true hne⟩
  refine ⟨⟨fun e he => ?_, fun r hr => ?_⟩, fun e he => ?_, fun cid r hr => ?_, fun d hd => ?_⟩
  · rcases List.mem_append.mp he with he | he
    · exact h.served.exposures e he
    · exact (mem_of_mem_readExposuresForDays he).1
  · rcases List.mem_append.mp hr with hr | hr
    · exact h.served.rows r hr
    · exact mem_of_mem_readCurrent hr
  · by_cases hd : dayOf e.eventTime = day
    · left
      apply List.mem_append_right
      rw [readExposuresForDays, mem_sortedBy, mem_firstSeen, List.mem_filter, dayRangesPredicate_iff]
      exact ⟨he, List.mem_singleton.mpr hd⟩
    · exact (h.exposures e he).imp (List.mem_append_left _) fun hp => hrest hp hd
  · by_cases hd : dayOf r.eventTime = day
    · left
      apply List.mem_append_right
      rw [mem_readCurrent_days hlake.sameDay, currentRow_conversionId hr]
      exact ⟨hr, List.mem_singleton.mpr hd⟩
    · exact (h.rows cid r hr).imp (List.mem_append_left _) fun hp => hrest hp hd
  · by_cases hne : d = day
    · exact Or.inl (hne ▸ hday)
    · exact (h.calendar d hd).imp_right fun hp => hrest hp hne

/-- Every row is served or its day was not loaded since it was landed. -/
theorem History.projected {unit : Nat} (h : History unit σ pending) (hlake : RegularLake σ.lake) :
    Projected σ.lake pending σ.serving := by
  induction h with
  | empty =>
    have hnone {α : Type} {x : α} {p : Prop} (hx : x ∈ ([] : List α)) : p := absurd hx List.not_mem_nil
    refine ⟨servedFrom_empty _, fun e he => hnone he, fun cid r hr => hnone (currentRow_mem hr), fun d hd => ?_⟩
    rcases mem_lakeDays.mp hd with ⟨_, he, _⟩ | ⟨_, hr, _⟩
    · exact hnone he
    · exact hnone hr
  | land es _ ih =>
    exact (ih (hlake.mono (fun _ he => List.mem_append_left _ he) fun _ hr => hr)).land es
  | landAttributed rows _ ih =>
    exact (ih (hlake.mono (fun _ he => he) fun _ hr => List.mem_append_left _ hr)).landAttributed rows
  | maintain ed ad _ ih =>
    have hold := hlake.mono (fun _ he => mem_foldl_compactDay.mpr he) fun _ hr => mem_foldl_compactDay.mpr hr
    exact (ih hold).maintain hold ed ad
  | load _ hday hl ih =>
    have hs := ends_loadDay.mp hl
    subst hs
    exact (ih hlake).afterDay hlake hday
  | @stopped σ σ' pending day _ hl ih =>
    have hI := tableInvariant_projected σ.lake pending
    have hlake' := (keeps_loadDay (fun _ => keeps_true _) (fun _ => keeps_true _) day σ σ' ⟨rfl, trivial⟩ hl).lake
    have hkeep := keeps_loadDay (keeps_loadExposuresDay hI) (keeps_loadAttributedDay hI) day σ σ'
      ⟨rfl, ih (hlake' ▸ hlake)⟩ hl
    exact hlake' ▸ hkeep.serving
  | @refresh σ σ' pending _ hl ih =>
    obtain ⟨t, ht, rfl⟩ := leaves_onServing hl
    have hI := tableInvariant_projected σ.lake pending
    exact Checked.keeps_refreshCampaignHourly (fun s _ _ hs => hI.bookkeeping s _ rfl rfl hs) _ t (ih hlake) ht

end history
end CtvAttribution
