import CtvAttribution.Library.Interleaving
import CtvAttribution.ServingReplay

/-! Loads and refreshes of the rollup running at once, statement by statement, each stopped
anywhere: what a stamp in rollup_refreshed then says about the rollup. -/
namespace CtvAttribution
open Library Script

/-- The loads of a day's exposures, of a day's rows, and the refresh. -/
inductive Racing : ServingScript → Prop where
  | loadExposures (log : List Exposure) (day : Int) : Racing (loadExposuresDay log day)
  | loadAttributed (log : List AttributedConversion) (day : Int) : Racing (loadAttributedDay log day)
  | refresh : Racing refreshCampaignHourly

/-- An interleaving of loads and refreshes from empty tables. -/
abbrev Races (s : Serving) (earlier : List Serving) (running : List ServingScript) : Prop :=
  Interleaves Racing Serving.empty s earlier running

/-- The row of a key in rollup_refreshed FINAL. -/
def Serving.refreshedStamp (s : Serving) (k : RollupKey) : Option RollupStamp :=
  finalRow RollupStamp.key RollupStamp.version s.rollupRefreshed k

/-- One refresh insert, among whose rows is one of the key. -/
def RollupInsert (k : RollupKey) (s t : Serving) : Prop :=
  ∃ keys, k ∈ keys ∧ s.rebuiltRollup k ≠ none ∧ t = s.insertRefreshed keys

/-- A rollup insert of the key came after rollup_dirty FINAL held the version for it. -/
def RefreshedSince (past : List Serving) (k : RollupKey) (version : Int) : Prop :=
  ∃ later t s older, past = later ++ t :: s :: older ∧ RollupInsert k s t ∧
    ∃ u ∈ s :: older, (u.dirtyStamp k).map RollupStamp.version = some version

/-- No refresh is lost: a key stamped at its recorded version was refreshed since, and any
other recorded key is dirty. -/
structure NoLostRefresh (s : Serving) (earlier : List Serving) : Prop where
  stamped : ∀ k d r, s.dirtyStamp k = some d → s.refreshedStamp k = some r → r.version = d.version →
    RefreshedSince (s :: earlier) k d.version
  dirty : ∀ k d, s.dirtyStamp k = some d → (∀ r, s.refreshedStamp k = some r → r.version ≠ d.version) →
    d ∈ s.dirtyKeys

/-- What a statement of a load leaves alone, and what it only adds. -/
structure LoadStatement (f : Serving → Serving) : Prop where
  rollupRefreshed : ∀ s, (f s).rollupRefreshed = s.rollupRefreshed
  exposures : ∀ s, ∀ e ∈ s.exposuresLanded, e ∈ (f s).exposuresLanded
  rollupDirty : ∀ s, ∀ d ∈ (f s).rollupDirty, d ∈ s.rollupDirty ∨ ∃ e ∈ s.exposuresLanded, rollupKey e = d.key

section loads
variable {s : Serving} {day : Int}

/-- A statement that records keys of landed exposures. -/
theorem loadStatement_insertDirty {stamps : Serving → List RollupStamp}
    (h : ∀ s, ∀ d ∈ stamps s, ∃ e ∈ s.exposuresFinal, rollupKey e = d.key) :
    LoadStatement fun s => s.insertDirty (stamps s) where
  rollupRefreshed _ := rfl
  exposures _ _ he := he
  rollupDirty s d hd := by
    rcases List.mem_append.mp hd with hd | hd
    · exact .inl hd
    · obtain ⟨e, he, hk⟩ := h s d (current_eq_some (mem_collapse.mp hd)).1
      exact .inr ⟨e, (finalRow_eq_some (mem_finalRows.mp he)).1, hk⟩

private theorem loadStatement_insertExposures (rows : List Exposure) :
    LoadStatement fun s => { s with exposuresLanded := s.exposuresLanded ++ rows } where
  rollupRefreshed _ := rfl
  exposures _ _ he := List.mem_append_left _ he
  rollupDirty _ _ hd := .inl hd

private theorem loadStatement_insertAttributed (rows : List AttributedConversion) :
    LoadStatement fun s => { s with attributedConversions := s.attributedConversions ++ rows } where
  rollupRefreshed _ := rfl
  exposures _ _ he := he
  rollupDirty _ _ hd := .inl hd

theorem key_of_mem_dirtyFromExposures {d : RollupStamp} (h : d ∈ s.dirtyFromExposures day) :
    ∃ e ∈ s.exposuresFinal, rollupKey e = d.key := by
  obtain ⟨e, he, rfl⟩ := List.mem_map.mp h
  exact ⟨e, (List.mem_filter.mp he).1, rfl⟩

theorem key_of_mem_dirtyFromExposureCredits {d : RollupStamp} (h : d ∈ s.dirtyFromExposureCredits day) :
    ∃ e ∈ s.exposuresFinal, rollupKey e = d.key := by
  obtain ⟨x, hx, rfl⟩ := List.mem_map.mp h
  obtain ⟨_, _, he, _⟩ := mem_credits.mp hx
  exact ⟨x.2, (List.mem_filter.mp he).1, rfl⟩

theorem key_of_mem_dirtyFromAttributed {d : RollupStamp} (h : d ∈ s.dirtyFromAttributed day) :
    ∃ e ∈ s.exposuresFinal, rollupKey e = d.key := by
  obtain ⟨x, hx, rfl⟩ := List.mem_map.mp h
  obtain ⟨_, _, he, _⟩ := mem_credits.mp (List.mem_filter.mp hx).1
  exact ⟨x.2, he, rfl⟩

private theorem writes_loadExposuresDay (log : List Exposure) (day : Int) :
    (loadExposuresDay log day).Writes LoadStatement := by
  apply writes_bind
  · exact writes_forEach fun chunk _ => writes_modify (loadStatement_insertExposures chunk)
  intro _
  apply writes_bind
  · exact writes_modify (loadStatement_insertDirty fun _ _ hd => key_of_mem_dirtyFromExposures hd)
  intro _
  exact writes_modify (loadStatement_insertDirty fun _ _ hd => key_of_mem_dirtyFromExposureCredits hd)

private theorem writes_loadAttributedDay (log : List AttributedConversion) (day : Int) :
    (loadAttributedDay log day).Writes LoadStatement := by
  apply writes_bind
  · exact writes_forEach fun chunk _ => writes_modify (loadStatement_insertAttributed chunk)
  intro _
  exact writes_modify (loadStatement_insertDirty fun _ _ hd => key_of_mem_dirtyFromAttributed hd)

end loads

/-- What is left of a refresh before its last statement. -/
def stampingFrom (keys : List RollupStamp) : ServingScript :=
  .write (fun s => s.stampRefreshed keys) (.done ())

/-- What is left of a refresh that has read its keys. -/
def insertingFrom (keys : List RollupStamp) : ServingScript :=
  .write (fun s => s.insertRefreshed (keys.map RollupStamp.key)) (stampingFrom keys)

private theorem refreshCampaignHourly_eq : refreshCampaignHourly =
    .read fun s => if s.dirtyKeys = [] then .done () else insertingFrom s.dirtyKeys := rfl

/-- Where a running script stands: in a load, before the read of a refresh, before its insert,
or before its stamp. -/
inductive Stands (s : Serving) (earlier : List Serving) : ServingScript → Prop where
  | loading {p : ServingScript} : p.Writes LoadStatement → Stands s earlier p
  | refreshing : Stands s earlier refreshCampaignHourly
  | inserting {keys : List RollupStamp} :
      (∀ d ∈ keys, (∃ u ∈ s :: earlier, u.dirtyStamp d.key = some d) ∧
        ∃ e ∈ s.exposuresLanded, rollupKey e = d.key) → Stands s earlier (insertingFrom keys)
  | stamping {keys : List RollupStamp} : (∀ d ∈ keys, RefreshedSince (s :: earlier) d.key d.version) →
      Stands s earlier (stampingFrom keys)

/-- Every stamp of a refresh followed an insert of its key, every recorded key has a landed
exposure. -/
structure Vouched (s : Serving) (earlier : List Serving) : Prop where
  refreshed : ∀ r ∈ s.rollupRefreshed, RefreshedSince (s :: earlier) r.key r.version
  recorded : ∀ d ∈ s.rollupDirty, ∃ e ∈ s.exposuresLanded, rollupKey e = d.key

section vouched
variable {s t : Serving} {earlier : List Serving} {k : RollupKey} {version : Int}

theorem RefreshedSince.cons (h : RefreshedSince earlier k version) (t : Serving) :
    RefreshedSince (t :: earlier) k version := by
  obtain ⟨later, u, v, before, rfl, hinsert⟩ := h
  exact ⟨t :: later, u, v, before, rfl, hinsert⟩

/-- A landed exposure gives its key a row of the rebuild. -/
theorem rebuiltRollup_ne_none (h : ∃ e ∈ s.exposuresLanded, rollupKey e = k) : s.rebuiltRollup k ≠ none := by
  obtain ⟨e, he, hk⟩ := h
  rw [ne_eq, Serving.rebuiltRollup_eq_none, not_not]
  obtain ⟨f, hf⟩ := exists_finalRow exposureKey (fun _ => ()) he
  have hkey : exposureKey f = exposureKey e := (finalRow_eq_some hf).2.1
  exact ⟨f, Serving.mem_exposuresFinal.mpr (hkey ▸ hf), (Serving.rollupKey_of_exposureKey hkey).trans hk⟩

/-- What any statement of a running script does to the store. -/
theorem Stands.exposures {f : Serving → Serving} {rest : ServingScript} (h : Stands s earlier (.write f rest)) :
    ∀ e ∈ s.exposuresLanded, e ∈ (f s).exposuresLanded := by
  generalize hp : Script.write f rest = p at h
  cases h with
  | loading hw =>
    rw [← hp] at hw
    exact hw.1.exposures s
  | refreshing => cases hp
  | inserting _ =>
    obtain ⟨rfl, _⟩ := Script.write.inj hp
    exact fun _ he => he
  | stamping _ =>
    obtain ⟨rfl, _⟩ := Script.write.inj hp
    exact fun _ he => he

/-- A statement of one script leaves every other one where it stands. -/
theorem Stands.other {p : ServingScript} (h : Stands s earlier p)
    (hgrow : ∀ e ∈ s.exposuresLanded, e ∈ t.exposuresLanded) : Stands t (s :: earlier) p := by
  cases h with
  | loading hw => exact .loading hw
  | refreshing => exact .refreshing
  | inserting hkeys =>
    refine .inserting fun d hd => ?_
    obtain ⟨⟨u, hu, hstamp⟩, e, he, hk⟩ := hkeys d hd
    exact ⟨⟨u, List.mem_cons_of_mem _ hu, hstamp⟩, e, hgrow e he, hk⟩
  | stamping hkeys => exact .stamping fun d hd => (hkeys d hd).cons t

/-- A refresh that reads its keys stands before their insert. -/
theorem Stands.read {p : Serving → ServingScript} (h : Stands s earlier (.read p)) (hs : Vouched s earlier) :
    Stands s earlier (p s) := by
  generalize hp : Script.read p = q at h
  cases h with
  | loading hw =>
    rw [← hp] at hw
    exact .loading (hw s)
  | refreshing =>
    rw [refreshCampaignHourly_eq] at hp
    have hread : p s = if s.dirtyKeys = [] then .done () else insertingFrom s.dirtyKeys :=
      congrFun (Script.read.inj hp) s
    rw [hread]
    split
    · exact .loading trivial
    · refine .inserting fun d hd => ?_
      have hstamp := (Serving.mem_dirtyKeys.mp hd).1
      exact ⟨⟨s, List.mem_cons_self, hstamp⟩, hs.recorded d (finalRow_eq_some hstamp).1⟩
  | inserting _ => cases hp
  | stamping _ => cases hp

/-- A script whose statement ran stands before its next one. -/
theorem Stands.next {f : Serving → Serving} {rest : ServingScript} (h : Stands s earlier (.write f rest)) :
    Stands (f s) (s :: earlier) rest := by
  generalize hp : Script.write f rest = p at h
  cases h with
  | loading hw =>
    rw [← hp] at hw
    exact .loading hw.2
  | refreshing => cases hp
  | inserting hkeys =>
    obtain ⟨rfl, rfl⟩ := Script.write.inj hp
    refine .stamping fun d hd => ?_
    obtain ⟨⟨u, hu, hstamp⟩, hexposure⟩ := hkeys d hd
    exact ⟨[], _, s, earlier, rfl, ⟨_, List.mem_map_of_mem hd, rebuiltRollup_ne_none hexposure, rfl⟩, u, hu,
      by rw [hstamp, Option.map_some]⟩
  | stamping _ =>
    obtain ⟨rfl, rfl⟩ := Script.write.inj hp
    exact .loading trivial

/-- Every statement keeps the stamps vouched for. -/
theorem Vouched.write (hs : Vouched s earlier) {f : Serving → Serving} {rest : ServingScript}
    (h : Stands s earlier (.write f rest)) : Vouched (f s) (s :: earlier) := by
  have hgrow := h.exposures
  generalize hp : Script.write f rest = p at h
  cases h with
  | loading hw =>
    rw [← hp] at hw
    refine ⟨fun r hr => ?_, fun d hd => ?_⟩
    · rw [hw.1.rollupRefreshed] at hr
      exact (hs.refreshed r hr).cons _
    · obtain ⟨e, he, hk⟩ := (hw.1.rollupDirty s d hd).elim (hs.recorded d) id
      exact ⟨e, hgrow e he, hk⟩
  | refreshing => cases hp
  | inserting _ =>
    obtain ⟨rfl, _⟩ := Script.write.inj hp
    exact ⟨fun r hr => (hs.refreshed r hr).cons _, hs.recorded⟩
  | stamping hkeys =>
    obtain ⟨rfl, _⟩ := Script.write.inj hp
    refine ⟨fun r hr => ?_, hs.recorded⟩
    rcases List.mem_append.mp hr with hr | hr
    · exact (hs.refreshed r hr).cons _
    · exact (hkeys r hr).cons _

private theorem races_invariant : InterleavingInvariant Racing Serving.empty Vouched Stands where
  init := ⟨fun _ hr => absurd hr List.not_mem_nil, fun _ hd => absurd hd List.not_mem_nil⟩
  start s earlier p hp _ := by
    cases hp with
    | loadExposures log day => exact .loading (writes_loadExposuresDay log day)
    | loadAttributed log day => exact .loading (writes_loadAttributedDay log day)
    | refresh => exact .refreshing
  read _ _ _ hs h := h.read hs
  write _ _ _ _ hs h := hs.write h
  next _ _ _ _ _ h := h.next
  other _ _ _ _ _ h hp := hp.other h.exposures

/-- No refresh is lost exactly when no recorded key waits at the epoch, which the join of
dirty_keys cannot tell from a refresh. -/
theorem races_noLostRefresh_iff {running : List ServingScript} (h : Races s earlier running) :
    NoLostRefresh s earlier ↔ ∀ k d, s.dirtyStamp k = some d → d.version = 0 → s.refreshedStamp k ≠ none := by
  have hvouched := (h.invariant races_invariant).1
  have hversion (k : RollupKey) : s.refreshedVersion k =
      ((s.refreshedStamp k).map RollupStamp.version).getD 0 := rfl
  constructor
  · intro hlost k d hd hzero hnone
    have hk := Serving.key_of_dirtyStamp hd
    have hdirty := hlost.dirty k d hd fun r hr => by
      rw [hnone] at hr
      cases hr
    have hne := (Serving.mem_dirtyKeys.mp hdirty).2
    rw [hk, hversion, hnone] at hne
    exact hne hzero
  · intro hwait
    constructor
    · intro k d r _ hr hv
      obtain ⟨hmem, hk, _⟩ := finalRow_eq_some hr
      rw [← hk, ← hv]
      exact hvouched.refreshed r hmem
    · intro k d hd hne
      have hk := Serving.key_of_dirtyStamp hd
      rw [Serving.mem_dirtyKeys, hk, hversion]
      refine ⟨hd, fun heq => ?_⟩
      cases hr : s.refreshedStamp k with
      | none =>
        rw [hr] at heq
        exact hwait k d hd heq hr
      | some r =>
        rw [hr] at heq
        exact hne r hr heq.symm

end vouched

section sample

/-- One exposure's day, loaded. -/
def sampleRaced (ingestTime : Int) : Serving :=
  Serving.empty.afterExposuresDay [sampleExposure "e1" sampleDay ingestTime] 20700

private theorem sampleRaced_races (ingestTime : Int) : ∃ earlier, Races (sampleRaced ingestTime) earlier [] :=
  (Interleaves.init.start (.loadExposures _ _)).ends (a := ()) (ends_loadExposuresDay.mpr rfl)

/-- A load comes between a refresh's insert and its stamp, over the key it refreshes. -/
def sampleOvertaken : Serving :=
  let s := sampleRaced sampleDay
  let inserted := s.insertRefreshed (s.dirtyKeys.map RollupStamp.key)
  (inserted.afterExposuresDay [sampleExposure "e2" (sampleDay + Time.minute) (sampleDay + Time.hour)] 20700).stampRefreshed
    s.dirtyKeys

private theorem sampleOvertaken_races : ∃ earlier running, Races sampleOvertaken earlier running := by
  obtain ⟨earlier, hload⟩ := sampleRaced_races sampleDay
  have hrefresh : Races (sampleRaced sampleDay) earlier ([] ++ refreshCampaignHourly :: []) := hload.start .refresh
  rw [refreshCampaignHourly_eq] at hrefresh
  have hread := hrefresh.read
  rw [if_neg (by decide)] at hread
  obtain ⟨earlier, hloaded⟩ := (hread.write.start (.loadExposures _ 20700)).ends (a := ()) (ends_loadExposuresDay.mpr rfl)
  have hstamping : Races _ earlier ([] ++ stampingFrom (sampleRaced sampleDay).dirtyKeys :: []) := hloaded
  -- the second refresh reads its keys and is stopped before its insert
  have hagain : Races sampleOvertaken _ ([] ++ refreshCampaignHourly :: [.done ()]) := hstamping.write.start .refresh
  exact ⟨_, _, hagain.read.stop⟩

/-- The key is dirty again, at the version of the row that came between. -/
theorem races_noLostRefresh_iff_sample : ∃ earlier running, Races sampleOvertaken earlier running ∧
    sampleOvertaken.dirtyKeys = [⟨"cmp", sampleDay, sampleDay + Time.hour⟩] ∧ NoLostRefresh sampleOvertaken earlier := by
  obtain ⟨earlier, running, h⟩ := sampleOvertaken_races
  refine ⟨earlier, running, h, by decide +kernel, (races_noLostRefresh_iff h).mpr fun k d hd hzero => ?_⟩
  have hall : ∀ d ∈ sampleOvertaken.rollupDirty, d.version ≠ 0 := by decide +kernel
  exact absurd hzero (hall d (finalRow_eq_some hd).1)

/-- The key of an exposure ingested at the epoch is recorded, never stamped and never dirty. -/
theorem races_lose_epoch_key :
    ∃ earlier, Races (sampleRaced 0) earlier [] ∧ ¬ NoLostRefresh (sampleRaced 0) earlier := by
  obtain ⟨earlier, h⟩ := sampleRaced_races 0
  refine ⟨earlier, h, fun hlost => ?_⟩
  have hstamp : (sampleRaced 0).dirtyStamp ("cmp", sampleDay) = some ⟨"cmp", sampleDay, 0⟩ := by decide
  have hnone : (sampleRaced 0).refreshedStamp ("cmp", sampleDay) = none := by decide
  have hdirty := hlost.dirty _ _ hstamp fun r hr => by
    rw [hnone] at hr
    cases hr
  revert hdirty
  decide

end sample
end CtvAttribution
