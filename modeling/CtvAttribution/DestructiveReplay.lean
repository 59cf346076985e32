import CtvAttribution.CheckedMoney
import CtvAttribution.EngineRetries
import CtvAttribution.StoredLake

/-! The replay of the destructive command line: validate, confirm, truncate, reload. A
reload can only fail on a row, or on an amount, that no check before the truncate looks at. -/
namespace CtvAttribution
open Library Script

/-- What standard input holds at the prompt. -/
inductive Stdin where
  | noTty
  | eof
  | line (text : String)
  deriving DecidableEq, Repr

structure Invocation where
  profile : Option String
  lakeRoot : Option String
  yes : Bool
  stdin : Stdin
  deriving DecidableEq, Repr

/-- Why the command stops short. -/
inductive Refusal where
  | usage
  | lakeRootSet
  | malformedProfile (profile : String)
  | emptyLake (profile : String)
  | unknownDays (profile : String) (days : List Int)
  | aborted
  | read (e : ReadError)
  | load (e : Failure)
  deriving DecidableEq, Repr

/-- `_PROFILE_RE`, `^[a-z0-9_]+$`: the end also matches ahead of a last line feed. -/
def matchesProfile (profile : String) : Bool :=
  let chars := profile.toList
  let body := if chars.getLast? = some (Char.ofNat 10) then chars.dropLast else chars
  body ≠ [] ∧ body.all fun c => ('a' ≤ c ∧ c ≤ 'z') ∨ ('0' ≤ c ∧ c ≤ '9') ∨ c = '_'

/-- The characters `str.strip` removes. -/
def isSpace (c : Char) : Bool :=
  let n := c.toNat
  (9 ≤ n ∧ n ≤ 13) ∨ (28 ≤ n ∧ n ≤ 32) ∨ (8192 ≤ n ∧ n ≤ 8202) ∨
    n ∈ [133, 160, 5760, 8232, 8233, 8239, 8287, 12288]

def strip (text : String) : List Char :=
  ((text.toList.dropWhile isSpace).reverse.dropWhile isSpace).reverse

/-- `confirm_or_abort`. -/
def confirmOrAbort (yes : Bool) (stdin : Stdin) : Except Refusal Unit :=
  if yes then .ok ()
  else match stdin with
    | .noTty => .error .aborted
    | .eof => .error .aborted
    | .line text => if strip text = strip "yes" then .ok () else .error .aborted

abbrev ReplayScript := Script Serving Refusal Unit

/-- The loader's statements on the serving tables. -/
def onTables (p : ServingScript) : ReplayScript := p.mapFail Refusal.load

/-- `lake_days`. -/
def lakeDays : Option Catalog → Except ReadError (List Int)
  | none => .ok []
  | some lake => lake.days

namespace Catalog
variable (lake : Catalog)

/-- `load_exposures_day`. -/
def loadExposuresDay (day : Int) : ReplayScript := do
  let rows ← Script.ofExcept ((lake.readExposuresForDays [day]).mapError Refusal.read)
  onTables (insertExposures rows)
  onTables (recordDirtyExposureKeys day)

/-- `load_attributed_day`. -/
def loadAttributedDay (day : Int) : ReplayScript := do
  let rows ← Script.ofExcept ((lake.readCurrent [day]).mapError Refusal.read)
  onTables (insertAttributed rows)
  onTables (recordDirtyAttributedKeys day)

/-- The two load assets of one day. -/
def loadDay (day : Int) : ReplayScript := do
  lake.loadExposuresDay day
  lake.loadAttributedDay day

/-- `materialize_load`, the observation of the two tables included. -/
def materializeLoad (unit : Nat) (days : List Int) : ReplayScript := do
  if days = [] then return ()
  let unknown := sortedSet (days.filter fun d => !dayPartitions d)
  if unknown ≠ [] then Script.fail (.load (.unknownPartition unknown))
  let _ ← Script.ofExcept (lake.ensureExposures.mapError Refusal.read)
  let _ ← Script.ofExcept (lake.ensureAttributed.mapError Refusal.read)
  Script.forEach (sortedSet days) lake.loadDay
  onTables (Checked.refreshCampaignHourly unit)

/-- `truncate_and_reload`. -/
def truncateAndReload (unit : Nat) (days : List Int) : ReplayScript := do
  if days = [] then Script.fail (.load .emptyLake)
  Script.forEach servingTables fun table => Script.modify fun s => truncate s table
  lake.materializeLoad unit days

end Catalog

/-- `replay`: every refusal but those of a row or an amount comes before the prompt and the
truncate. -/
def replay (unit : Nat) (lake : Option Catalog) (profile : String) (yes : Bool) (stdin : Stdin) : ReplayScript := do
  let days ← Script.ofExcept ((lakeDays lake).mapError Refusal.read)
  if days = [] then Script.fail (.emptyLake profile)
  let unknown := sortedSet (days.filter fun d => !dayPartitions d)
  if unknown ≠ [] then Script.fail (.unknownDays profile unknown)
  Script.ofExcept (confirmOrAbort yes stdin)
  (lake.getD ⟨none, none⟩).truncateAndReload unit days
  Script.modify fun s => { s with evalMeta := s.evalMeta ++ [profile] }

/-- `main` of the command line on the action `replay`, over the lakes under `data/lake`. -/
def destructiveMain (unit : Nat) (lakes : String → Option Catalog) (inv : Invocation) : ReplayScript :=
  match inv.profile with
  | none => Script.fail .usage
  | some profile =>
    if inv.lakeRoot.getD "" ≠ "" then Script.fail .lakeRootSet
    else if matchesProfile profile then replay unit (lakes profile) profile inv.yes inv.stdin
    else Script.fail (.malformedProfile profile)

/-- What loading some days leaves up to the first read that fails. -/
def Catalog.loadedPart (lake : Catalog) : List Int → Serving → Serving
  | [], s => s
  | day :: days, s =>
    match lake.readExposuresForDays [day] with
    | .error _ => s
    | .ok es =>
      match lake.readCurrent [day] with
      | .error _ => s.afterExposures es day
      | .ok rows => lake.loadedPart days ((s.afterExposures es day).afterRows rows day)

section reload
variable {unit : Nat} {lake : Catalog} {s t : Serving} {e : Refusal} {u : Unit} {day : Int} {days : List Int}

@[simp] theorem ends_onTables {p : ServingScript} : (onTables p).Ends s u t ↔ p.Ends s u t := ends_mapFail

/-- A statement that completes from the tables as they are does not fail. -/
theorem not_fails_of_ends {p : ReplayScript} {t' : Serving} (h : p.Ends s () t') : ¬ p.Fails s e t :=
  fun hf => hf.not_ends h

private theorem readDay_isOk_iff {α : Type} {x : Except ReadError α} {a : α} :
    x.mapError Refusal.read = .ok a ↔ x = .ok a := by
  cases x <;> simp [Except.mapError]

private theorem ends_storedExposuresDay : (lake.loadExposuresDay day).Ends s u t ↔
    ∃ es, lake.readExposuresForDays [day] = .ok es ∧ t = s.afterExposures es day := by
  simp only [Catalog.loadExposuresDay, recordDirtyExposureKeys, ends_bind', ends_ofExcept, readDay_isOk_iff,
    ends_onTables, ends_insertExposures, ends_modify]
  constructor
  · intro h
    obtain ⟨es, _, ⟨hm, hes⟩, _, _, hn, _, _, hk, h⟩ := h
    subst hm hn hk
    exact ⟨es, hes, h⟩
  · intro h
    obtain ⟨es, hes, h⟩ := h
    exact ⟨es, _, ⟨rfl, hes⟩, (), _, rfl, (), _, rfl, h⟩

private theorem ends_storedRowsDay : (lake.loadAttributedDay day).Ends s u t ↔
    ∃ rows, lake.readCurrent [day] = .ok rows ∧ t = s.afterRows rows day := by
  simp only [Catalog.loadAttributedDay, recordDirtyAttributedKeys, ends_bind', ends_ofExcept, readDay_isOk_iff,
    ends_onTables, ends_insertAttributed, ends_modify]
  constructor
  · intro h
    obtain ⟨rows, _, ⟨hm, hrows⟩, _, _, hn, h⟩ := h
    subst hm hn
    exact ⟨rows, hrows, h⟩
  · intro h
    obtain ⟨rows, hrows, h⟩ := h
    exact ⟨rows, _, ⟨rfl, hrows⟩, (), _, rfl, h⟩

/-- Of a day's load only the two reads can fail. -/
theorem fails_storedExposuresDay (h : (lake.loadExposuresDay day).Fails s e t) :
    (¬ ∃ es, lake.readExposuresForDays [day] = .ok es) ∧ t = s := by
  by_cases hread : ∃ es, lake.readExposuresForDays [day] = .ok es
  · obtain ⟨es, hes⟩ := hread
    exact absurd h (not_fails_of_ends (ends_storedExposuresDay.mpr ⟨es, hes, rfl⟩))
  · refine ⟨hread, ?_⟩
    rcases fails_bind'.mp h with h₁ | ⟨es, m, hm, _⟩
    · exact (fails_ofExcept.mp h₁).1
    · exact absurd ⟨es, readDay_isOk_iff.mp (ends_ofExcept.mp hm).2⟩ hread

private theorem fails_storedRowsDay (h : (lake.loadAttributedDay day).Fails s e t) :
    (¬ ∃ rows, lake.readCurrent [day] = .ok rows) ∧ t = s := by
  by_cases hread : ∃ rows, lake.readCurrent [day] = .ok rows
  · obtain ⟨rows, hrows⟩ := hread
    exact absurd h (not_fails_of_ends (ends_storedRowsDay.mpr ⟨rows, hrows, rfl⟩))
  · refine ⟨hread, ?_⟩
    rcases fails_bind'.mp h with h₁ | ⟨rows, m, hm, _⟩
    · exact (fails_ofExcept.mp h₁).1
    · exact absurd ⟨rows, readDay_isOk_iff.mp (ends_ofExcept.mp hm).2⟩ hread

/-- Rows the readers accept, and amounts in range under the keys the days leave dirty. -/
structure Catalog.Reloadable (lake : Catalog) (unit : Nat) (days : List Int) : Prop where
  readable : lake.Readable
  money : Checked.RefreshFits unit (lake.loadedPart days Serving.empty)

/-- Both reads of a day succeed. -/
def Catalog.DayReads (lake : Catalog) (day : Int) : Prop :=
  (∃ es, lake.readExposuresForDays [day] = .ok es) ∧ ∃ rows, lake.readCurrent [day] = .ok rows

private theorem loadedPart_cons (es : List Exposure) (rows : List AttributedConversion)
    (hes : lake.readExposuresForDays [day] = .ok es) (hrows : lake.readCurrent [day] = .ok rows) :
    lake.loadedPart (day :: days) s = lake.loadedPart days ((s.afterExposures es day).afterRows rows day) := by
  rw [Catalog.loadedPart, hes, hrows]

private theorem ends_loadStoredDays (h : (forEach days lake.loadDay).Ends s u t) :
    (∀ day ∈ days, lake.DayReads day) ∧ t = lake.loadedPart days s := by
  induction days generalizing s with
  | nil => exact ⟨nofun, ends_forEach_nil.mp h⟩
  | cons day days ih =>
    obtain ⟨m, hm, hrest⟩ := ends_forEach_cons.mp h
    obtain ⟨_, n, hn, hm⟩ := ends_bind'.mp hm
    obtain ⟨es, hes, rfl⟩ := ends_storedExposuresDay.mp hn
    obtain ⟨rows, hrows, rfl⟩ := ends_storedRowsDay.mp hm
    obtain ⟨hdays, ht⟩ := ih hrest
    refine ⟨?_, ht.trans (loadedPart_cons es rows hes hrows).symm⟩
    intro d hd
    rcases List.mem_cons.mp hd with rfl | hd
    · exact ⟨⟨es, hes⟩, ⟨rows, hrows⟩⟩
    · exact hdays d hd

/-- A load that fails leaves the days before the failing read. -/
theorem fails_loadStoredDays (h : (forEach days lake.loadDay).Fails s e t) :
    (¬ ∀ day ∈ days, lake.DayReads day) ∧ t = lake.loadedPart days s := by
  induction days generalizing s with
  | nil => exact absurd h fails_forEach_nil
  | cons day days ih =>
    rcases fails_forEach_cons.mp h with h | ⟨m, hm, h⟩
    · rcases fails_bind'.mp h with h | ⟨_, n, hn, h⟩
      · obtain ⟨hread, rfl⟩ := fails_storedExposuresDay h
        refine ⟨fun hall => hread (hall day List.mem_cons_self).1, ?_⟩
        cases hes : lake.readExposuresForDays [day] with
        | error e => rw [Catalog.loadedPart, hes]
        | ok es => exact absurd ⟨es, hes⟩ hread
      · obtain ⟨es, hes, rfl⟩ := ends_storedExposuresDay.mp hn
        obtain ⟨hread, rfl⟩ := fails_storedRowsDay h
        refine ⟨fun hall => hread (hall day List.mem_cons_self).2, ?_⟩
        cases hrows : lake.readCurrent [day] with
        | error e => rw [Catalog.loadedPart, hes, hrows]
        | ok rows => exact absurd ⟨rows, hrows⟩ hread
    · obtain ⟨_, n, hn, hm⟩ := ends_bind'.mp hm
      obtain ⟨es, hes, rfl⟩ := ends_storedExposuresDay.mp hn
      obtain ⟨rows, hrows, rfl⟩ := ends_storedRowsDay.mp hm
      obtain ⟨hdays, ht⟩ := ih h
      exact ⟨fun hall => hdays fun d hd => hall d (List.mem_cons_of_mem _ hd),
        ht.trans (loadedPart_cons es rows hes hrows).symm⟩

/-- The loads of a day neither read nor write the other tables. -/
theorem loadedPart_with (lake : Catalog) (days : List Int) (s : Serving) (marker : List String)
    (hourly : List RollupRow) (refreshed : List RollupStamp)
    (snapshots : List ReportSnapshot) :
    lake.loadedPart days { s with evalMeta := marker, campaignHourly := hourly, rollupRefreshed := refreshed,
                                  reportSnapshots := snapshots } =
      { lake.loadedPart days s with evalMeta := marker, campaignHourly := hourly, rollupRefreshed := refreshed,
                                    reportSnapshots := snapshots } := by
  induction days generalizing s with
  | nil => rfl
  | cons day days ih =>
    rw [Catalog.loadedPart, Catalog.loadedPart]
    cases lake.readExposuresForDays [day] with
    | error e => rfl
    | ok es =>
      cases lake.readCurrent [day] with
      | error e => rfl
      | ok rows => exact ih ((s.afterExposures es day).afterRows rows day)

/-- The amounts a refresh converts do not depend on the report history. -/
theorem refreshFits_emptied (s : Serving) : Checked.RefreshFits unit (lake.loadedPart days s.emptied) ↔
    Checked.RefreshFits unit (lake.loadedPart days Serving.empty) := by
  have hemptied := loadedPart_with lake days Serving.empty [] [] [] s.reportSnapshots
  change lake.loadedPart days s.emptied = _ at hemptied
  rw [hemptied]
  have hempty := loadedPart_with lake days Serving.empty [] [] [] []
  change lake.loadedPart days Serving.empty = _ at hempty
  rw [hempty]
  rfl

variable (unit) in
/-- A reload of the days of the lake completes exactly on readable rows whose amounts are in
range; otherwise it leaves the days before the failing read, or all of them. -/
theorem runs_truncateAndReload (hdays : lake.days = .ok days) (hne : days ≠ [])
    (hknown : ∀ d ∈ days, dayPartitions d = true) :
    ((lake.truncateAndReload unit days).Ends s u t →
        lake.Reloadable unit days ∧ t = Checked.afterRefresh unit (lake.loadedPart days s.emptied)) ∧
      ((lake.truncateAndReload unit days).Fails s e t →
        ¬ lake.Reloadable unit days ∧ t = lake.loadedPart days s.emptied) := by
  obtain ⟨⟨exposures, he⟩, ⟨attributed, ha⟩, hsorted⟩ := days_eq_ok hdays
  have hfix : sortedSet days = days := by
    rw [hsorted, sortedSet_of_strict (sortedSet_strict _)]
  have htruncate (m : Serving) {v : Unit} :
      (forEach servingTables fun table => (Script.modify fun s => truncate s table : ReplayScript)).Ends s v m ↔
        m = s.emptied := by
    rw [ends_forEach fun _ _ _ => ends_modify]
    rfl
  have hscript : lake.truncateAndReload unit days = (do
      forEach servingTables fun table => (Script.modify fun s => truncate s table : ReplayScript)
      forEach days lake.loadDay
      onTables (Checked.refreshCampaignHourly unit)) := by
    rw [Catalog.truncateAndReload, Catalog.materializeLoad, he, ha]
    simp only [if_neg hne, unknown_eq_nil_iff.mpr hknown, hfix]
    rfl
  rw [hscript]
  constructor
  · intro h
    obtain ⟨_, m, hm, h⟩ := ends_bind'.mp h
    obtain ⟨_, n, hn, h⟩ := ends_bind'.mp h
    obtain ⟨hread, hn⟩ := ends_loadStoredDays hn
    rw [(htruncate m).mp hm] at hn
    rw [ends_onTables, Checked.ends_refreshCampaignHourly, hn] at h
    exact ⟨⟨(readable_iff hdays).mpr hread, (refreshFits_emptied s).mp h.1⟩, h.2⟩
  · intro h
    rcases fails_bind'.mp h with h | ⟨_, m, hm, h⟩
    · exact absurd h (not_fails_of_ends ((htruncate _).mpr rfl))
    rcases fails_bind'.mp h with h | ⟨_, n, hn, h⟩
    · obtain ⟨hread, ht⟩ := fails_loadStoredDays h
      rw [(htruncate m).mp hm] at ht
      exact ⟨fun hr => hread ((readable_iff hdays).mp hr.readable), ht⟩
    · -- every day is loaded, the insert of the refresh raises
      obtain ⟨_, hn⟩ := ends_loadStoredDays hn
      rw [(htruncate m).mp hm] at hn
      obtain ⟨e', h, _⟩ := fails_mapFail.mp h
      obtain ⟨hfits, ht⟩ := Checked.fails_refreshCampaignHourly h
      rw [hn] at hfits ht
      exact ⟨fun hr => hfits ((refreshFits_emptied s).mpr hr.money), ht⟩

private theorem loadedPart_catalog (lake : Lake) (days : List Int) (s : Serving) :
    lake.catalog.loadedPart days s = s.afterDays lake days := by
  induction days generalizing s with
  | nil => rfl
  | cons day days ih =>
    rw [loadedPart_cons _ _ (readExposuresForDays_catalog lake [day]) (readCurrent_catalog lake [day]), ih]
    rfl

/-- Over a lake of model rows the reload is `truncate_and_reload` over those rows. -/
theorem ends_truncateAndReload_catalog {lake : Lake} {v : Unit} (hne : lake.days ≠ [])
    (hknown : ∀ d ∈ lake.days, dayPartitions d = true) :
    (lake.catalog.truncateAndReload unit lake.days).Ends s u t ↔
      (Checked.truncateAndReload unit lake.days).Ends ⟨lake, s⟩ v ⟨lake, t⟩ := by
  have hruns (m : Serving) (e : Refusal) :=
    runs_truncateAndReload unit (s := s) (t := m) (e := e) (u := u) (days_catalog lake) hne hknown
  have hsorted : sortedSet lake.days = lake.days := sortedSet_of_strict (sortedSet_strict _)
  rw [Checked.ends_truncateAndReload, hsorted, ← loadedPart_catalog]
  constructor
  · intro h
    obtain ⟨hreload, ht⟩ := (hruns t .usage).1 h
    exact ⟨hne, hknown, (refreshFits_emptied s).mpr hreload.money, congrArg (System.mk lake) ht⟩
  · intro h
    obtain ⟨_, _, hfits, h⟩ := h
    have ht : t = Checked.afterRefresh unit (lake.catalog.loadedPart lake.days s.emptied) := congrArg System.serving h
    rcases ends_or_fails (lake.catalog.truncateAndReload unit lake.days) s with ⟨_, m, hm⟩ | ⟨e, m, hm⟩
    · rw [ht, ← ((hruns m .usage).1 hm).2]
      exact hm
    · exact absurd ⟨readable_catalog lake, (refreshFits_emptied s).mp hfits⟩ ((hruns m e).2 hm).1

/-- Neither the truncate nor the load writes a marker. -/
theorem keeps_evalMeta_truncateAndReload {P : List String → Prop} (hnil : P []) :
    (lake.truncateAndReload unit days).Keeps fun s => P s.evalMeta := by
  have htruncate (table : ServingTable) :
      (Script.modify fun s => truncate s table : ReplayScript).Keeps fun s => P s.evalMeta := by
    apply keeps_modify
    intro s hs
    cases table with
    | evalMeta => exact hnil
    | _ => exact hs
  have hexposures (day : Int) : (lake.loadExposuresDay day).Keeps fun s => P s.evalMeta :=
    keeps_bind' (keeps_ofExcept _) fun _ =>
      keeps_bind' (keeps_mapFail (keeps_forEach fun _ _ => keeps_modify fun _ h => h)) fun _ =>
        keeps_mapFail (keeps_bind' (keeps_modify fun _ h => h) fun _ => keeps_modify fun _ h => h)
  have hrows (day : Int) : (lake.loadAttributedDay day).Keeps fun s => P s.evalMeta :=
    keeps_bind' (keeps_ofExcept _) fun _ =>
      keeps_bind' (keeps_mapFail (keeps_forEach fun _ _ => keeps_modify fun _ h => h)) fun _ =>
        keeps_mapFail (keeps_modify fun _ h => h)
  have hload : (lake.materializeLoad unit days).Keeps fun s => P s.evalMeta := by
    unfold Catalog.materializeLoad
    split
    · exact keeps_done ()
    dsimp only
    split
    · intro s t hs h
      rw [leaves_fail.mp h]
      exact hs
    · refine keeps_bind' (keeps_ofExcept _) fun _ => keeps_bind' (keeps_ofExcept _) fun _ =>
        keeps_bind' (keeps_forEach fun day _ => ?_) fun _ => keeps_mapFail (Checked.keeps_refreshCampaignHourly fun _ _ _ hs => hs)
      exact keeps_bind' (hexposures day) fun _ => hrows day
  unfold Catalog.truncateAndReload
  split
  · intro s t hs h
    rw [leaves_fail.mp h]
    exact hs
  · exact keeps_bind' (keeps_forEach fun table _ => htruncate table) fun _ => hload

end reload

/-- The run is past every check made before the truncate. -/
structure Cleared (lakes : String → Option Catalog) (inv : Invocation) (profile : String) (lake : Catalog)
    (days : List Int) : Prop where
  given : inv.profile = some profile
  rootUnset : inv.lakeRoot.getD "" = ""
  named : matchesProfile profile = true
  held : lakes profile = some lake
  scanned : lake.days = .ok days
  nonempty : days ≠ []
  known : ∀ d ∈ days, dayPartitions d = true
  confirmed : confirmOrAbort inv.yes inv.stdin = .ok ()

/-- The six tables hold the same rows. -/
structure SameTables (s t : Serving) : Prop where
  exposuresLanded : t.exposuresLanded = s.exposuresLanded
  attributedConversions : t.attributedConversions = s.attributedConversions
  evalMeta : t.evalMeta = s.evalMeta
  campaignHourly : t.campaignHourly = s.campaignHourly
  rollupDirty : t.rollupDirty = s.rollupDirty
  rollupRefreshed : t.rollupRefreshed = s.rollupRefreshed

/-- Tables that hold no marker and no rollup, and of the lake just the days ahead of the first
row that cannot be read. -/
structure NothingToLose (lake : Catalog) (days : List Int) (s : Serving) : Prop where
  marker : s.evalMeta = []
  rollup : s.campaignHourly = []
  refreshed : s.rollupRefreshed = []
  exposures : s.exposuresLanded = (lake.loadedPart days Serving.empty).exposuresLanded
  rows : s.attributedConversions = (lake.loadedPart days Serving.empty).attributedConversions
  dirty : s.rollupDirty = (lake.loadedPart days Serving.empty).rollupDirty

/-- A run that does not complete leaves the tables as they were, and the marker is written
over a complete reload only. -/
structure DestroysNothing (unit : Nat) (lakes : String → Option Catalog) (inv : Invocation) (s : Serving) : Prop where
  refused : ∀ e t, (destructiveMain unit lakes inv).Fails s e t → SameTables s t
  marked : ∀ t, (destructiveMain unit lakes inv).Leaves s t → t.evalMeta = s.evalMeta ∨ t.evalMeta = [] ∨
    ∃ profile lake days m, Cleared lakes inv profile lake days ∧ (lake.truncateAndReload unit days).Ends s () m ∧
      t = { m with evalMeta := m.evalMeta ++ [profile] }

section part
variable (lake : Catalog) (days : List Int) (s : Serving)

private theorem sameTables_loadedPart_iff :
    SameTables s (lake.loadedPart days s.emptied) ↔ NothingToLose lake days s := by
  have hemptied := loadedPart_with lake days Serving.empty [] [] [] s.reportSnapshots
  change lake.loadedPart days s.emptied = _ at hemptied
  rw [hemptied]
  constructor
  · intro h
    exact ⟨h.evalMeta.symm, h.campaignHourly.symm, h.rollupRefreshed.symm, h.exposuresLanded.symm,
      h.attributedConversions.symm, h.rollupDirty.symm⟩
  · intro h
    exact ⟨h.exposures.symm, h.rows.symm, h.marker.symm, h.rollup.symm, h.dirty.symm, h.refreshed.symm⟩

end part

section command
variable {unit : Nat} {lakes : String → Option Catalog} {inv : Invocation} {s t : Serving} {profile : String} {lake : Catalog}
  {days : List Int}

theorem replay_of_days (unit : Nat) (profile : String) (inv : Invocation) (h : lake.days = .ok days) :
    replay unit (some lake) profile inv.yes inv.stdin = (do
      if days = [] then Script.fail (.emptyLake profile)
      let unknown := sortedSet (days.filter fun d => !dayPartitions d)
      if unknown ≠ [] then Script.fail (.unknownDays profile unknown)
      Script.ofExcept (confirmOrAbort inv.yes inv.stdin)
      lake.truncateAndReload unit days
      Script.modify fun s => { s with evalMeta := s.evalMeta ++ [profile] }) := by
  rw [replay, lakeDays, h]
  rfl

/-- A cleared run goes on to the truncate. -/
theorem destructiveMain_of_cleared (h : Cleared lakes inv profile lake days) : destructiveMain unit lakes inv = (do
    lake.truncateAndReload unit days
    Script.modify fun s => { s with evalMeta := s.evalMeta ++ [profile] }) := by
  unfold destructiveMain
  rw [h.given]
  dsimp only
  rw [if_neg (not_not.mpr h.rootUnset), if_pos h.named, h.held, replay_of_days unit profile inv h.scanned]
  simp only [if_neg h.nonempty, unknown_eq_nil_iff.mpr h.known, ne_eq, not_true_eq_false, if_false, h.confirmed]
  rfl

private theorem replay_cases (unit : Nat) (held : Option Catalog) (profile : String) (inv : Invocation) :
    (∃ e, replay unit held profile inv.yes inv.stdin = Script.fail e) ∨ ∃ lake days, held = some lake ∧
      lake.days = .ok days ∧ days ≠ [] ∧ (∀ d ∈ days, dayPartitions d = true) ∧
      confirmOrAbort inv.yes inv.stdin = .ok () := by
  cases held with
  | none => exact .inl ⟨.emptyLake profile, rfl⟩
  | some lake =>
    cases hdays : lake.days with
    | error e =>
      refine .inl ⟨.read e, ?_⟩
      rw [replay, lakeDays, hdays]
      rfl
    | ok days =>
      rw [replay_of_days unit profile inv hdays]
      by_cases hne : days = []
      · exact .inl ⟨.emptyLake profile, by rw [if_pos hne]; rfl⟩
      simp only [if_neg hne]
      by_cases hknown : ∀ d ∈ days, dayPartitions d = true
      case neg =>
        refine .inl ⟨.unknownDays profile (sortedSet (days.filter fun d => !dayPartitions d)), ?_⟩
        rw [if_pos (mt unknown_eq_nil_iff.mp hknown)]
        rfl
      simp only [unknown_eq_nil_iff.mpr hknown, ne_eq, not_true_eq_false, if_false]
      cases hconfirm : confirmOrAbort inv.yes inv.stdin with
      | error e => exact .inl ⟨e, rfl⟩
      | ok u => exact .inr ⟨lake, days, rfl, hdays, hne, hknown, rfl⟩

/-- A run that is not cleared is refused before it writes. -/
theorem destructiveMain_cases (unit : Nat) (lakes : String → Option Catalog) (inv : Invocation) :
    (∃ e, destructiveMain unit lakes inv = Script.fail e) ∨
      ∃ profile lake days, Cleared lakes inv profile lake days := by
  unfold destructiveMain
  cases hprofile : inv.profile with
  | none => exact .inl ⟨_, rfl⟩
  | some profile =>
    by_cases hroot : inv.lakeRoot.getD "" = ""
    case neg => exact .inl ⟨.lakeRootSet, if_pos hroot⟩
    by_cases hnamed : matchesProfile profile = true
    case neg =>
      refine .inl ⟨.malformedProfile profile, ?_⟩
      dsimp only
      rw [if_neg (not_not.mpr hroot), if_neg hnamed]
    dsimp only
    rw [if_neg (not_not.mpr hroot), if_pos hnamed]
    rcases replay_cases unit (lakes profile) profile inv with h | ⟨lake, days, hheld, hdays, hne, hknown, hconfirm⟩
    · exact .inl h
    · exact .inr ⟨profile, lake, days, ⟨hprofile, hroot, hnamed, hheld, hdays, hne, hknown, hconfirm⟩⟩

/-- The marker is the last write of a run. -/
theorem marker_last (lakes : String → Option Catalog) (inv : Invocation)
    (h : (destructiveMain unit lakes inv).Leaves s t) :
    t.evalMeta = s.evalMeta ∨ t.evalMeta = [] ∨
      ∃ profile lake days m, Cleared lakes inv profile lake days ∧ (lake.truncateAndReload unit days).Ends s () m ∧
        t = { m with evalMeta := m.evalMeta ++ [profile] } := by
  have hreload (lake : Catalog) (days : List Int) :
      (lake.truncateAndReload unit days).Keeps fun t => t.evalMeta = s.evalMeta ∨ t.evalMeta = [] :=
    keeps_evalMeta_truncateAndReload (P := fun l => l = s.evalMeta ∨ l = []) (.inr rfl)
  rcases destructiveMain_cases unit lakes inv with ⟨e, he⟩ | ⟨profile, lake, days, hcleared⟩
  · rw [he, leaves_fail] at h
    rw [h]
    exact .inl rfl
  rw [destructiveMain_of_cleared hcleared] at h
  rcases leaves_bind' h with h₁ | ⟨_, m, hm, h₁⟩
  · exact (hreload lake days s t (.inl rfl) h₁).imp_right .inl
  rcases leaves_modify.mp h₁ with h₂ | h₂
  · rw [h₂]
    exact (hreload lake days s m (.inl rfl) hm.leaves).imp_right .inl
  · exact .inr (.inr ⟨profile, lake, days, m, hcleared, hm, h₂⟩)

/-- A cleared run over unreadable rows fails on what the days before them leave. -/
theorem fails_of_cleared (h : Cleared lakes inv profile lake days) (hread : ¬ lake.Reloadable unit days) :
    ∃ e, (destructiveMain unit lakes inv).Fails s e (lake.loadedPart days s.emptied) := by
  have hruns (t : Serving) (e : Refusal) (u : Unit) :=
    runs_truncateAndReload unit (s := s) (t := t) (e := e) (u := u) h.scanned h.nonempty h.known
  rcases ends_or_fails (lake.truncateAndReload unit days) s with ⟨u, m, hm⟩ | ⟨e, m, hm⟩
  · exact absurd ((hruns m .usage u).1 hm).1 hread
  · refine ⟨e, ?_⟩
    rw [destructiveMain_of_cleared h, ← ((hruns m e ()).2 hm).2]
    exact fails_bind'.mpr (.inl hm)

/-- What a cleared run that fails leaves. -/
theorem fails_cleared {e : Refusal} (h : Cleared lakes inv profile lake days)
    (hf : (destructiveMain unit lakes inv).Fails s e t) : ¬ lake.Reloadable unit days ∧ t = lake.loadedPart days s.emptied := by
  rw [destructiveMain_of_cleared h] at hf
  rcases fails_bind'.mp hf with hf | ⟨_, m, _, hf⟩
  · exact (runs_truncateAndReload unit (u := ()) h.scanned h.nonempty h.known).2 hf
  · exact absurd hf (not_fails_of_ends (ends_modify.mpr rfl))

/-- A replay that does not complete destroys nothing exactly when a cleared run meets no row
it cannot read, or the tables have nothing to lose. -/
theorem replay_destroysNothing_iff (unit : Nat) (lakes : String → Option Catalog) (inv : Invocation) (s : Serving) :
    DestroysNothing unit lakes inv s ↔ ∀ profile lake days, Cleared lakes inv profile lake days →
      lake.Reloadable unit days ∨ NothingToLose lake days s := by
  constructor
  · intro h profile lake days hcleared
    by_cases hread : lake.Reloadable unit days
    · exact .inl hread
    · obtain ⟨e, he⟩ := fails_of_cleared (s := s) hcleared hread
      exact .inr ((sameTables_loadedPart_iff lake days s).mp (h.refused e _ he))
  · intro h
    refine ⟨?_, fun t ht => marker_last lakes inv ht⟩
    intro e t hf
    rcases destructiveMain_cases unit lakes inv with ⟨e', he⟩ | ⟨profile, lake, days, hcleared⟩
    · rw [he, fails_fail] at hf
      rw [hf.1]
      exact ⟨rfl, rfl, rfl, rfl, rfl, rfl⟩
    · obtain ⟨hread, ht⟩ := fails_cleared hcleared hf
      rw [ht]
      exact (sameTables_loadedPart_iff lake days s).mpr ((h profile lake days hcleared).resolve_left hread)

end command

/-- A conversion on a shared IP stored before the candidate sets were. -/
def samplePrePhase17Row : StoredRow where
  conversionId := "c-000000"
  eventTime := 20700 * Time.day
  ingestTime := 20700 * Time.day
  deviceId := "d-1"
  ip := "10.0.0.1"
  conversionType := "purchase"
  revenue := 100
  orderId := none
  householdId := "h-1"
  resolution := "ip"
  ambiguous := true
  candidateCount := 2
  exposureId := none
  assists := []
  attributed := false
  path := "hot"
  processedAt := 20700 * Time.day
  reason := some "ambiguous_ip"
  candidateHouseholds := []

def samplePrePhase17Lake : Catalog := ⟨none, some ⟨tableSpec 2 9, [samplePrePhase17Row]⟩⟩

/-- An exposure of 10¹⁴, which the schema and the model accept. -/
def sampleHugeLake : Catalog :=
  ⟨some ⟨tableSpec 2 5, [{ exposureId := "e-1", eventTime := 20700 * Time.day, ingestTime := 20700 * Time.day
                           campaignId := "cmp", householdId := "h-1", ip := "10.0.0.1", appId := "app"
                           programGenre := "news", spend := 10 ^ 18 }]⟩, none⟩

/-- A marker is lost over a lake of one day that cannot be reloaded. -/
private theorem marker_lost {unit : Nat} {lake : Catalog} (hscanned : lake.days = .ok [20700])
    (hreload : ¬ lake.Reloadable unit [20700]) : ¬ DestroysNothing unit (fun _ => some lake) ⟨some "tiny", none, true, .noTty⟩
      { Serving.empty with evalMeta := ["tiny"] } := by
  have hcleared : Cleared (fun _ => some lake) ⟨some "tiny", none, true, .noTty⟩ "tiny" lake [20700] :=
    ⟨rfl, rfl, by decide, rfl, hscanned, by decide, by decide, rfl⟩
  intro h
  obtain ⟨e, he⟩ := fails_of_cleared (s := { Serving.empty with evalMeta := ["tiny"] }) hcleared hreload
  have hlost := (sameTables_loadedPart_iff lake [20700] _).mp (h.refused e _ he)
  exact absurd hlost.marker (by decide)

/-- The row, or the amount, is met after the tables were truncated. -/
theorem replay_destroys : (∃ inv s, ¬ DestroysNothing 1 (fun _ => some samplePrePhase17Lake) inv s) ∧
    ∃ inv s, ¬ DestroysNothing 1 (fun _ => some sampleHugeLake) inv s := by
  constructor
  · refine ⟨_, _, marker_lost (by decide +kernel) fun h => ?_⟩
    have hrow := h.readable.current 20700 samplePrePhase17Row (by decide +kernel)
    exact absurd hrow.candidateSet (by decide)
  · refine ⟨_, _, marker_lost (by decide +kernel) fun h => ?_⟩
    exact absurd h.money.spends (by decide +kernel)

end CtvAttribution
