import CtvAttribution.RollupKeys

/-! The rollup's bookkeeping: the stamps the loads of days record, and that no served row's
stamp escapes them. -/
namespace CtvAttribution
open Library Script

/-- A stamp of a key is recorded when the bookkeeping holds one at least as late. -/
def RecordedIn (dirty : List RollupStamp) (k : RollupKey) (version : Int) : Prop :=
  ∃ d ∈ dirty, d.key = k ∧ version ≤ d.version

theorem RecordedIn.mono {dirty dirty' : List RollupStamp} {k : RollupKey} {version : Int}
    (h : RecordedIn dirty k version) (hsub : ∀ d ∈ dirty, d ∈ dirty') : RecordedIn dirty' k version := by
  obtain ⟨d, hd, hk, hle⟩ := h
  exact ⟨d, hsub d hd, hk, hle⟩

namespace Serving
variable (s : Serving)

/-- The recorded stamp of a key in rollup_dirty FINAL. -/
def dirtyStamp (k : RollupKey) : Option RollupStamp :=
  finalRow RollupStamp.key RollupStamp.version s.rollupDirty k

/-- The latest stamp of the served rows a key summarizes. -/
def latestStamp (k : RollupKey) : Int :=
  maxOf ((keyGroup s.exposuresFinal s.attributedFinal k).map Contribution.stamp)

/-- The bookkeeping is behind nothing: every served row's stamp, every refresh and every
rollup row is recorded. -/
structure Booked : Prop where
  recorded : ∀ c ∈ contributions s.exposuresFinal s.attributedFinal, RecordedIn s.rollupDirty c.key c.stamp
  refreshed : ∀ d ∈ s.rollupRefreshed, RecordedIn s.rollupDirty d.key d.version
  reported : ∀ row ∈ s.campaignHourly, RecordedIn s.rollupDirty row.key row.reportedAt

variable {s} {k : RollupKey}

private theorem mem_rollupDirty_insertDirty {stamps : List RollupStamp} {d : RollupStamp} (h : d ∈ s.rollupDirty) :
    d ∈ (s.insertDirty stamps).rollupDirty := List.mem_append_left _ h

private theorem recordedIn_insertDirty {stamps : List RollupStamp} {d : RollupStamp} (h : d ∈ stamps) :
    RecordedIn (s.insertDirty stamps).rollupDirty d.key d.version := by
  obtain ⟨c, hc⟩ := exists_current RollupStamp.key RollupStamp.version h
  obtain ⟨_, hck, hmax⟩ := current_eq_some hc
  refine ⟨c, List.mem_append_right _ (mem_collapse.mpr (hck ▸ hc)), hck, hmax d h rfl⟩

/-- What is recorded bounds the recorded stamp from below. -/
theorem recordedIn_iff {version : Int} :
    RecordedIn s.rollupDirty k version ↔ ∃ d, s.dirtyStamp k = some d ∧ version ≤ d.version := by
  constructor
  · intro ⟨c, hc, hk, hle⟩
    obtain ⟨d, hd⟩ := exists_finalRow RollupStamp.key RollupStamp.version hc
    rw [hk] at hd
    exact ⟨d, hd, hle.trans ((finalRow_eq_some hd).2.2 c hc hk)⟩
  · intro ⟨d, hd, hle⟩
    obtain ⟨hmem, hk, _⟩ := finalRow_eq_some hd
    exact ⟨d, hmem, hk, hle⟩

theorem mem_dirtyKeys {d : RollupStamp} :
    d ∈ s.dirtyKeys ↔ s.dirtyStamp d.key = some d ∧ d.version ≠ s.refreshedVersion d.key := by
  rw [dirtyKeys, mem_sortedBy, List.mem_filter, decide_eq_true_eq]
  exact and_congr_left' mem_finalRows

theorem key_of_dirtyStamp {d : RollupStamp} (h : s.dirtyStamp k = some d) : d.key = k := (finalRow_eq_some h).2.1

/-- A key is dirty when its recorded stamp differs from its last refresh. -/
theorem mem_map_key_dirtyKeys :
    k ∈ s.dirtyKeys.map RollupStamp.key ↔ ∃ d, s.dirtyStamp k = some d ∧ d.version ≠ s.refreshedVersion k := by
  rw [List.mem_map]
  constructor
  · intro ⟨d, hd, hk⟩
    rw [mem_dirtyKeys, hk] at hd
    exact ⟨d, hd⟩
  · intro ⟨d, hd, hne⟩
    have hk := key_of_dirtyStamp hd
    exact ⟨d, mem_dirtyKeys.mpr (hk.symm ▸ ⟨hd, hne⟩), hk⟩

theorem reportedAt_of_rebuilt {row : RollupRow} (h : s.rebuiltRollup k = some row) :
    row.reportedAt = s.latestStamp k ∧ keyGroup s.exposuresFinal s.attributedFinal k ≠ [] := by
  unfold rebuiltRollup rebuiltRow at h
  split at h
  · cases h
  · rename_i hne
    cases h
    exact ⟨rfl, hne⟩

/-- The latest stamp of a key is one of its rows'. -/
theorem exists_latestStamp (h : keyGroup s.exposuresFinal s.attributedFinal k ≠ []) :
    ∃ c ∈ contributions s.exposuresFinal s.attributedFinal, c.key = k ∧ c.stamp = s.latestStamp k := by
  rcases maxOf_mem_or ((keyGroup s.exposuresFinal s.attributedFinal k).map Contribution.stamp) with hm | ⟨hnil, _⟩
  · obtain ⟨c, hc, he⟩ := List.mem_map.mp hm
    obtain ⟨hmem, hk⟩ := mem_keyGroup.mp hc
    exact ⟨c, hmem, hk, he⟩
  · exact absurd (List.map_eq_nil_iff.mp hnil) h

/-- A booked key's recorded stamp is at least its latest one. -/
theorem Booked.latestStamp (h : s.Booked) (hne : keyGroup s.exposuresFinal s.attributedFinal k ≠ []) :
    ∃ d, s.dirtyStamp k = some d ∧ s.latestStamp k ≤ d.version := by
  obtain ⟨c, hc, hk, he⟩ := exists_latestStamp hne
  rw [← he, ← recordedIn_iff, ← hk]
  exact h.recorded c hc

end Serving

/-- The insert of `load_exposures_day`. -/
def Serving.withExposures (s : Serving) (log : List Exposure) (day : Int) : Serving :=
  { s with exposuresLanded := s.exposuresLanded ++ readExposuresForDays log [day] }

private theorem dayOf_of_mem_readCurrent {log : List AttributedConversion} {day : Int} {r : AttributedConversion}
    (h : r ∈ readCurrent log (some [day])) : dayOf r.eventTime = day := by
  rw [readCurrent, mem_sortedBy, mem_collapse, current_firstSeen] at h
  have hp := (List.mem_filter.mp (current_eq_some h).1).2
  exact List.mem_singleton.mp (dayRangesPredicate_iff.mp hp)

section days
variable {s t : Serving} {day : Int}

/-- What the loads of days leave alone, and what they only add to. -/
structure DayLoads (s t : Serving) : Prop where
  campaignHourly : t.campaignHourly = s.campaignHourly
  rollupRefreshed : t.rollupRefreshed = s.rollupRefreshed
  rollupDirty : ∀ d ∈ s.rollupDirty, d ∈ t.rollupDirty
  exposures : ∀ e ∈ s.exposuresLanded, e ∈ t.exposuresLanded
  booked : s.Booked → t.Booked

theorem DayLoads.refl (s : Serving) : DayLoads s s := ⟨rfl, rfl, fun _ h => h, fun _ h => h, id⟩

theorem DayLoads.trans {u : Serving} (h : DayLoads s t) (h' : DayLoads t u) : DayLoads s u where
  campaignHourly := h'.campaignHourly.trans h.campaignHourly
  rollupRefreshed := h'.rollupRefreshed.trans h.rollupRefreshed
  rollupDirty d hd := h'.rollupDirty d (h.rollupDirty d hd)
  exposures e he := h'.exposures e (h.exposures e he)
  booked hs := h'.booked (h.booked hs)

/-- The exposures of some days are recorded, and the credits to them from rows of some days. -/
structure RecordedOn (s : Serving) (exposureDay rowDay : Int → Prop) : Prop where
  exposures : ∀ e ∈ s.exposuresFinal, exposureDay (dayOf e.eventTime) →
    RecordedIn s.rollupDirty (rollupKey e) e.ingestTime
  credited : ∀ x ∈ credits s.exposuresFinal s.attributedFinal, exposureDay (dayOf x.2.eventTime) →
    rowDay (dayOf x.1.eventTime) → RecordedIn s.rollupDirty (rollupKey x.2) x.1.processedAt

theorem recordedOn_all : RecordedOn s (fun _ => True) (fun _ => True) ↔
    ∀ c ∈ contributions s.exposuresFinal s.attributedFinal, RecordedIn s.rollupDirty c.key c.stamp := by
  constructor
  · intro h c hc
    rcases mem_contributions.mp hc with ⟨e, he, rfl⟩ | ⟨x, hx, rfl⟩
    · exact h.exposures e he trivial
    · exact h.credited x hx trivial trivial
  · intro h
    exact ⟨fun e he _ => h _ (mem_contributions.mpr (.inl ⟨e, he, rfl⟩)),
      fun x hx _ _ => h _ (mem_contributions.mpr (.inr ⟨x, hx, rfl⟩))⟩

/-- Loading a day's exposures records them and the credits to them. -/
theorem RecordedOn.afterExposuresDay {exposureDay rowDay : Int → Prop} (h : RecordedOn s exposureDay rowDay)
    (log : List Exposure) : RecordedOn (s.afterExposuresDay log day) (fun d => exposureDay d ∨ d = day) rowDay := by
  have hmono {k : RollupKey} {v : Int} (hrec : RecordedIn s.rollupDirty k v) :
      RecordedIn (s.afterExposuresDay log day).rollupDirty k v :=
    hrec.mono fun _ hd => Serving.mem_rollupDirty_insertDirty (Serving.mem_rollupDirty_insertDirty hd)
  have hold {e : Exposure} (he : e ∈ (s.afterExposuresDay log day).exposuresFinal)
      (hd : dayOf e.eventTime ≠ day) : e ∈ s.exposuresFinal := by
    apply mem_finalRows_of_append he
    intro hnew
    exact hd (List.mem_singleton.mp (mem_of_mem_readExposuresForDays hnew).2)
  constructor
  · intro e he hday
    by_cases hd : dayOf e.eventTime = day
    · have hstamp : ⟨e.campaignId, toStartOfHour e.eventTime, e.ingestTime⟩ ∈
          (s.withExposures log day).dirtyFromExposures day :=
        List.mem_map.mpr ⟨e, List.mem_filter.mpr ⟨he, decide_eq_true hd⟩, rfl⟩
      exact (Serving.recordedIn_insertDirty hstamp).mono fun _ hd => Serving.mem_rollupDirty_insertDirty hd
    · exact hmono (h.exposures e (hold he hd) (hday.resolve_right hd))
  · intro x hx hday hrow
    obtain ⟨ha, hatt, he, hid⟩ := mem_credits.mp hx
    by_cases hd : dayOf x.2.eventTime = day
    · have hcredit : x ∈ credits ((s.withExposures log day).exposuresFinal.filter
          fun e => dayOf e.eventTime = day) s.attributedFinal :=
        mem_credits.mpr ⟨ha, hatt, List.mem_filter.mpr ⟨he, decide_eq_true hd⟩, hid⟩
      exact Serving.recordedIn_insertDirty (List.mem_map.mpr ⟨x, hcredit, rfl⟩)
    · exact hmono (h.credited x (mem_credits.mpr ⟨ha, hatt, hold he hd, hid⟩) (hday.resolve_right hd) hrow)

/-- Loading a day's rows records their credits. -/
theorem RecordedOn.afterAttributedDay {exposureDay rowDay : Int → Prop} (h : RecordedOn s exposureDay rowDay)
    (log : List AttributedConversion) :
    RecordedOn (s.afterAttributedDay log day) exposureDay (fun d => rowDay d ∨ d = day) := by
  have hmono {k : RollupKey} {v : Int} (hrec : RecordedIn s.rollupDirty k v) :
      RecordedIn (s.afterAttributedDay log day).rollupDirty k v :=
    hrec.mono fun _ hd => Serving.mem_rollupDirty_insertDirty hd
  refine ⟨fun e he hday => hmono (h.exposures e he hday), fun x hx hday hrow => ?_⟩
  by_cases hd : dayOf x.1.eventTime = day
  · have hcredit : x ∈ (credits (s.afterAttributedDay log day).exposuresFinal
        (s.afterAttributedDay log day).attributedFinal).filter fun c => dayOf c.1.eventTime = day :=
      List.mem_filter.mpr ⟨hx, decide_eq_true hd⟩
    exact Serving.recordedIn_insertDirty (List.mem_map.mpr ⟨x, hcredit, rfl⟩)
  · obtain ⟨ha, hatt, he, hid⟩ := mem_credits.mp hx
    have hold : x.1 ∈ s.attributedFinal := by
      apply mem_finalRows_of_append ha
      intro hnew
      exact hd (dayOf_of_mem_readCurrent hnew)
    exact hmono (h.credited x (mem_credits.mpr ⟨hold, hatt, he, hid⟩) hday (hrow.resolve_right hd))

theorem RecordedOn.mono {exposureDay rowDay exposureDay' rowDay' : Int → Prop}
    (h : RecordedOn s exposureDay rowDay) (he : ∀ d, exposureDay' d → exposureDay d)
    (hr : ∀ d, rowDay' d → rowDay d) : RecordedOn s exposureDay' rowDay' where
  exposures e hmem hd := h.exposures e hmem (he _ hd)
  credited x hx hd hrow := h.credited x hx (he _ hd) (hr _ hrow)

/-- The day's exposures and the credits to them are recorded, other days' were before. -/
theorem dayLoads_exposuresDay (log : List Exposure) : DayLoads s (s.afterExposuresDay log day) where
  campaignHourly := rfl
  rollupRefreshed := rfl
  rollupDirty _ hd := Serving.mem_rollupDirty_insertDirty (Serving.mem_rollupDirty_insertDirty hd)
  exposures _ he := List.mem_append_left _ he
  booked h := by
    have hmono {k : RollupKey} {v : Int} (hrec : RecordedIn s.rollupDirty k v) :
        RecordedIn (s.afterExposuresDay log day).rollupDirty k v :=
      hrec.mono fun _ hd => Serving.mem_rollupDirty_insertDirty (Serving.mem_rollupDirty_insertDirty hd)
    have hall : RecordedOn (s.afterExposuresDay log day) _ _ :=
      (recordedOn_all.mpr h.recorded).afterExposuresDay log
    exact ⟨recordedOn_all.mp (hall.mono (fun _ _ => .inl trivial) fun _ h => h),
      fun d hd => hmono (h.refreshed d hd), fun row hr => hmono (h.reported row hr)⟩

/-- The day's credited rows are recorded, other days' were before. -/
theorem dayLoads_attributedDay (log : List AttributedConversion) : DayLoads s (s.afterAttributedDay log day) where
  campaignHourly := rfl
  rollupRefreshed := rfl
  rollupDirty _ hd := Serving.mem_rollupDirty_insertDirty hd
  exposures _ he := he
  booked h := by
    have hmono {k : RollupKey} {v : Int} (hrec : RecordedIn s.rollupDirty k v) :
        RecordedIn (s.afterAttributedDay log day).rollupDirty k v :=
      hrec.mono fun _ hd => Serving.mem_rollupDirty_insertDirty hd
    have hall : RecordedOn (s.afterAttributedDay log day) _ _ :=
      (recordedOn_all.mpr h.recorded).afterAttributedDay log
    exact ⟨recordedOn_all.mp (hall.mono (fun _ h => h) fun _ _ => .inl trivial),
      fun d hd => hmono (h.refreshed d hd), fun row hr => hmono (h.reported row hr)⟩

theorem dayLoads_afterDays (lake : Lake) (days : List Int) : DayLoads s (s.afterDays lake days) := by
  induction days generalizing s with
  | nil => exact .refl s
  | cons day days ih => exact ((dayLoads_exposuresDay _).trans (dayLoads_attributedDay _)).trans ih

end days

end CtvAttribution
