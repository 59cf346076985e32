import CtvAttribution.ProfileMarker
import CtvAttribution.ServingProjection

/-! The profile marker over runs of drivers: whose loads the landed tables hold, and which days
of its lake to the end. -/
namespace CtvAttribution
open Library Script

/-- No row was landed on the day. -/
structure SameOn (lake lake' : Lake) (day : Int) : Prop where
  exposures : lake'.exposures.filter (fun e => dayOf e.eventTime = day) =
    lake.exposures.filter fun e => dayOf e.eventTime = day
  attributed : lake'.attributed.filter (fun r => dayOf r.eventTime = day) =
    lake.attributed.filter fun r => dayOf r.eventTime = day

section ledger
variable (bucketOf : String → Nat)

/-- The step gets past its landing into the load of some days. -/
def Step.Loads (step : Step) (σ : System) (days : List Int) (τ : System) : Prop :=
  ∃ landing, step.command.landing bucketOf = some landing ∧ landing.Ends σ days τ ∧
    (∀ d ∈ days, dayPartitions d = true) ∧ landing.writeCount σ < step.stop

/-- The step is not stopped before its load of these days is done. -/
def Step.LoadsAll (step : Step) (σ : System) (days : List Int) (τ : System) : Prop :=
  ∃ landing, step.command.landing bucketOf = some landing ∧ landing.Ends σ days τ ∧
    (∀ d ∈ days, dayPartitions d = true) ∧ landing.writeCount σ < step.stop ∧
    landing.writeCount σ + (materializeLoad days).writeCount τ ≤ step.stop

/-- A replay that gets to its first truncate. -/
structure Step.Truncates (step : Step) (σ : System) : Prop where
  replay : step.command = .replay
  nonempty : σ.lake.days ≠ []
  known : ∀ d ∈ σ.lake.days, dayPartitions d = true
  started : 0 < step.stop

/-- Since the landed tables were last emptied only drivers of the profile have loaded, and these
days to the end: no row was landed on them since. -/
inductive LoadedBy (profile : String) : List Step → List Int → Prop where
  | start : LoadedBy profile [] []
  | step {run : List Step} {step : Step} {loaded days : List Int} : LoadedBy profile run loaded →
      (step.profile = profile ∨ ∀ new τ, ¬ step.Loads bucketOf ((deploymentAfter bucketOf run).system step.profile) new τ) →
      ¬ step.Truncates ((deploymentAfter bucketOf run).system step.profile) →
      (∀ d ∈ days, (d ∈ loaded ∧ SameOn ((deploymentAfter bucketOf run).lakes profile)
          ((deploymentAfter bucketOf (run ++ [step])).lakes profile) d) ∨
        step.profile = profile ∧ ∃ new τ,
          step.LoadsAll bucketOf ((deploymentAfter bucketOf run).system profile) new τ ∧ d ∈ new) →
      LoadedBy profile (run ++ [step]) days
  | replay {run : List Step} {step : Step} {days : List Int} : step.profile = profile →
      step.Truncates ((deploymentAfter bucketOf run).system profile) → 2 ≤ step.stop →
      (∀ d ∈ days, d ∈ ((deploymentAfter bucketOf run).lakes profile).days ∧
        (step.command.script bucketOf profile).Finishes step.stop ((deploymentAfter bucketOf run).system profile)) →
      LoadedBy profile (run ++ [step]) days

/-- Only drivers of the profile have loaded, and every day of its lake but these to the end. -/
def RestLoaded (run : List Step) (profile : String) (lake : Lake) (days : List Int) : Prop :=
  ∃ loaded, LoadedBy bucketOf profile run loaded ∧ ∀ d ∈ lake.days, d ∈ days ∨
    d ∈ loaded ∧ SameOn ((deploymentAfter bucketOf run).lakes profile) lake d

/-- When a step may follow a run. What is new it loads under no marker, or it is not stopped
within the load, ends under its own marker and finds the rest loaded; a marker is written where
the rest is loaded, and a replay is not stopped between its first truncate and that of the
marker. -/
structure Step.Safe (run : List Step) (step : Step) : Prop where
  landing : ∀ r, step.command = .engine r → Lands ((deploymentAfter bucketOf run).lakes step.profile) r
  loading : ∀ days τ, step.Loads bucketOf ((deploymentAfter bucketOf run).system step.profile) days τ →
    (deploymentAfter bucketOf run).serving.profileMarker = none ∨
      NothingNew τ.lake days (deploymentAfter bucketOf run).serving ∨
      step.LoadsAll bucketOf ((deploymentAfter bucketOf run).system step.profile) days τ ∧
        RestLoaded bucketOf run step.profile τ.lake days ∧
        ((deploymentAfter bucketOf run).serving.profileMarker = some step.profile ∨ step.command.marks = true ∧
          (step.command.script bucketOf step.profile).Finishes step.stop
            ((deploymentAfter bucketOf run).system step.profile))
  marking : ∀ days τ, step.LoadsAll bucketOf ((deploymentAfter bucketOf run).system step.profile) days τ →
    step.command.marks = true →
    (step.command.script bucketOf step.profile).Finishes step.stop ((deploymentAfter bucketOf run).system step.profile) →
    RestLoaded bucketOf run step.profile τ.lake days
  truncating : step.Truncates ((deploymentAfter bucketOf run).system step.profile) →
    (deploymentAfter bucketOf run).serving.profileMarker = none ∨ 3 ≤ step.stop ∨
      (deploymentAfter bucketOf run).serving.exposuresLanded = [] ∧
        (step.stop = 1 ∨ (deploymentAfter bucketOf run).serving.attributedConversions = [])

/-- Every step of a run is safe where it starts. -/
def SafeRun (run : List Step) : Prop := ∀ earlier step, earlier ++ [step] <+: run → step.Safe bucketOf earlier

end ledger

section brought
variable {lake lake' : Lake} {s t : Serving} {loaded days new : List Int} {day : Int}

/-- Rows of the lake only, and of these days all that it holds, each as it is read. -/
structure Brought (lake : Lake) (days : List Int) (s : Serving) : Prop where
  served : ServedFrom lake s
  exposures : ∀ e ∈ lake.exposures, dayOf e.eventTime ∈ days → e ∈ s.exposuresLanded
  rows : ∀ cid r, currentRow lake.attributed cid = some r → dayOf r.eventTime ∈ days → s.servedRow cid = some r

theorem Brought.empty (he : s.exposuresLanded = []) (hr : s.attributedConversions = []) : Brought lake [] s := by
  refine ⟨⟨?_, ?_⟩, fun _ _ hd => absurd hd List.not_mem_nil, fun _ _ _ hd => absurd hd List.not_mem_nil⟩
  · simp [he]
  · simp [hr]

theorem Brought.of_tables (h : Brought lake days s) (he : t.exposuresLanded = s.exposuresLanded)
    (hr : t.attributedConversions = s.attributedConversions) : Brought lake days t := by
  refine ⟨⟨he ▸ h.served.exposures, hr ▸ h.served.rows⟩, he ▸ h.exposures, fun cid r hcur hd => ?_⟩
  rw [Serving.servedRow, hr]
  exact h.rows cid r hcur hd

theorem Brought.mono (h : Brought lake loaded s) (hdays : ∀ d ∈ days, d ∈ loaded) : Brought lake days s :=
  ⟨h.served, fun e he hd => h.exposures e he (hdays _ hd), fun cid r hcur hd => h.rows cid r hcur (hdays _ hd)⟩

/-- Over a day no row was landed on, a conversion of that day has the row it had. -/
private theorem SameOn.currentRow_eq (h : SameOn lake lake' day) (hlake : SameDay lake.attributed)
    (hlake' : SameDay lake'.attributed) {cid : String} {r : AttributedConversion}
    (hr : currentRow lake'.attributed cid = some r) (hd : dayOf r.eventTime = day) :
    currentRow lake.attributed cid = some r := by
  have hid : r.conversionId = cid := currentRow_conversionId hr
  have hmem : r ∈ lake.attributed.filter fun r => dayOf r.eventTime = day := by
    rw [← h.attributed]
    exact List.mem_filter.mpr ⟨currentRow_mem hr, decide_eq_true hd⟩
  have hcut {log : List AttributedConversion} (hlog : SameDay log) (hin : r ∈ log) :
      current (fun r => r.conversionId) recordVersion (log.filter fun r => dayOf r.eventTime = day) cid =
        currentRow log cid := by
    apply current_filter
    intro x hx hxc
    exact decide_eq_true ((hlog x hx r hin (hxc.trans hid.symm)).trans hd)
  rw [← hcut hlake (List.mem_filter.mp hmem).1, ← h.attributed, hcut hlake' (currentRow_mem hr), hr]

/-- A lake that only grew on other days keeps what was brought. -/
theorem Brought.grown (h : Brought lake loaded s) (hlake : SameDay lake.attributed) (hlake' : SameDay lake'.attributed)
    (he : ∀ e ∈ lake.exposures, e ∈ lake'.exposures) (hr : ∀ r ∈ lake.attributed, r ∈ lake'.attributed)
    (hdays : ∀ d ∈ days, d ∈ loaded ∧ SameOn lake lake' d) : Brought lake' days s where
  served := h.served.mono he hr
  exposures e hmem hd := by
    obtain ⟨hloaded, hsame⟩ := hdays _ hd
    have hold : e ∈ lake.exposures.filter fun x => dayOf x.eventTime = dayOf e.eventTime := by
      rw [← hsame.exposures]
      exact List.mem_filter.mpr ⟨hmem, decide_eq_true rfl⟩
    exact h.exposures e (List.mem_filter.mp hold).1 hloaded
  rows cid r hcur hd := by
    obtain ⟨hloaded, hsame⟩ := hdays _ hd
    exact h.rows cid r (hsame.currentRow_eq hlake hlake' hcur rfl) hloaded

/-- What inserts of current rows keep. -/
private theorem tableInvariant_brought (hlake : SameDay lake.attributed) :
    TableInvariant ⟨lake.exposures, loadedRows lake new⟩ (Brought lake days) where
  exposures s chunk hs hchunk := by
    refine ⟨⟨fun e he => ?_, hs.served.rows⟩, fun e he hd => List.mem_append_left _ (hs.exposures e he hd), hs.rows⟩
    rcases List.mem_append.mp he with he | he
    · exact hs.served.exposures e he
    · exact hchunk e he
  rows s chunk hs hchunk := by
    refine ⟨⟨hs.served.exposures, fun r hr => ?_⟩, hs.exposures, fun cid r hcur hd => ?_⟩
    · rcases List.mem_append.mp hr with hr | hr
      · exact hs.served.rows r hr
      · exact currentRow_mem ((mem_loadedRows hlake).mp (hchunk r hr)).1
    · have hserved := hs.rows cid r hcur hd
      have hown (x : AttributedConversion) (hx : x ∈ chunk) (hxc : x.conversionId = cid) : x = r := by
        have hxcur := ((mem_loadedRows hlake).mp (hchunk x hx)).1
        rw [hxc, hcur] at hxcur
        exact (Option.some.inj hxcur).symm
      change finalRow _ _ (s.attributedConversions ++ chunk) cid = some r
      by_cases hin : ∃ x ∈ chunk, x.conversionId = cid
      · obtain ⟨x, hx, hxc⟩ := hin
        obtain rfl := hown x hx hxc
        refine finalRow_append_of_le ?_ (finalRow_eq_some hserved).2.2
        rw [← hxc]
        exact finalRow_of_unique hx fun y hy hyc => hown y hy (hyc.trans hxc)
      · rw [finalRow_append_of_not_mem fun x hx hxc => hin ⟨x, hx, hxc⟩]
        exact hserved
  bookkeeping s t he hr hs := hs.of_tables he hr

/-- A load of the lake keeps what was brought, wherever it is stopped. -/
theorem Brought.leaves_load {τ υ : System} (h : Brought τ.lake days τ.serving) (hlake : SameDay τ.lake.attributed)
    (hl : (materializeLoad new).Leaves τ υ) : Brought τ.lake days υ.serving := by
  have hI : TableInvariant ⟨τ.lake.exposures, loadedRows τ.lake new⟩ (Brought τ.lake days) :=
    tableInvariant_brought hlake
  have hexposures (day : Int) (_ : day ∈ new) : (loadExposuresDay τ.lake.exposures day).Keeps (Brought τ.lake days) :=
    keeps_loadExposuresDay hI day
  have hrows (day : Int) (hday : day ∈ new) :
      (loadAttributedDay τ.lake.attributed day).Keeps (Brought τ.lake days) := by
    refine keeps_bind' (keeps_insertAttributed hI fun r hr => ?_) fun _ => keeps_insertDirty hI _
    exact List.mem_flatMap.mpr ⟨day, mem_sortedSet.mpr hday, hr⟩
  exact (keeps_materializeLoad_of_days hexposures hrows (keeps_refreshCampaignHourly hI) τ υ ⟨rfl, h⟩ hl).serving

/-- And once it is done it has brought its own days too. -/
theorem Brought.afterLoad (h : Brought lake days s) (hlake : SameDay lake.attributed)
    (hknown : ∀ d ∈ new, dayPartitions d = true) : Brought lake (days ++ new) (s.afterLoad lake new) := by
  have hload : (materializeLoad new).Ends ⟨lake, s⟩ () ⟨lake, s.afterLoad lake new⟩ :=
    ends_materializeLoad.mpr ⟨hknown, rfl⟩
  have hkept : Brought lake days (s.afterLoad lake new) :=
    Brought.leaves_load (τ := ⟨lake, s⟩) h hlake hload.leaves
  refine ⟨hkept.served, fun e he hd => ?_, fun cid r hcur hd => ?_⟩
  · rcases List.mem_append.mp hd with hd | hd
    · exact hkept.exposures e he hd
    · rw [exposuresLanded_afterLoad]
      exact List.mem_append_right _ (mem_loadedExposures.mpr ⟨he, hd⟩)
  · rcases List.mem_append.mp hd with hd | hd
    · exact hkept.rows cid r hcur hd
    · exact servedRow_of_loaded hlake hcur h.served hd

/-- Where the rest of the lake was brought, the load of these days completes it. -/
theorem Brought.servesRest (h : Brought lake loaded s) (hlake : SoundLake lake)
    (hdays : ∀ d ∈ lake.days, d ∈ days ∨ d ∈ loaded) : ServesRest lake days s := by
  refine servesRest_iff.mpr ⟨fun key => ?_, fun cid => ?_⟩
  · rw [Lake.completeLoad, Serving.servedExposure, Serving.servedExposure, exposuresLanded_afterLoad,
      exposuresLanded_afterLoad]
    have hheld (x : Exposure) (hx : x ∈ s.exposuresLanded ++ loadedExposures lake days) : x ∈ lake.exposures :=
      (List.mem_append.mp hx).elim (h.served.exposures x) fun hl => (mem_loadedExposures.mp hl).1
    by_cases hin : ∃ e ∈ lake.exposures, exposureKey e = key
    · obtain ⟨e, he, rfl⟩ := hin
      have hone (x : Exposure) (hx : x ∈ lake.exposures) (hk : exposureKey x = exposureKey e) : x = e :=
        hlake.keyed x hx e he (congrArg (fun k => (ofLex (ofLex k).2).2) hk)
      have hday : dayOf e.eventTime ∈ lake.days := mem_lakeDays.mpr (.inl ⟨e, he, rfl⟩)
      have hmem : e ∈ s.exposuresLanded ++ loadedExposures lake days := by
        rcases hdays _ hday with hd | hd
        · exact List.mem_append_right _ (mem_loadedExposures.mpr ⟨he, hd⟩)
        · exact List.mem_append_left _ (h.exposures e he hd)
      rw [finalRow_of_unique hmem fun x hx => hone x (hheld x hx)]
      refine (finalRow_of_unique (List.mem_append_right _ (mem_loadedExposures.mpr ⟨he, hday⟩)) fun x hx => ?_).symm
      rcases List.mem_append.mp hx with hx | hx
      · cases hx
      · exact hone x (mem_loadedExposures.mp hx).1
    · have hnone {rows : List Exposure} (hrows : ∀ x ∈ rows, x ∈ lake.exposures) :
          finalRow exposureKey (fun _ => ()) rows key = none :=
        finalRow_eq_none.mpr fun x hx hk => hin ⟨x, hrows x hx, hk⟩
      rw [hnone hheld]
      refine (hnone fun x hx => ?_).symm
      rcases List.mem_append.mp hx with hx | hx
      · cases hx
      · exact (mem_loadedExposures.mp hx).1
  · cases hcur : currentRow lake.attributed cid with
    | some r =>
      have hday : dayOf r.eventTime ∈ lake.days := mem_lakeDays.mpr (.inr ⟨r, currentRow_mem hcur, rfl⟩)
      rw [Lake.completeLoad, servedRow_of_loaded hlake.sameDay hcur (servedFrom_empty lake) hday]
      by_cases hd : dayOf r.eventTime ∈ days
      · exact servedRow_of_loaded hlake.sameDay hcur h.served hd
      · rw [servedRow_of_not_loaded hlake.sameDay hcur hd]
        exact h.rows cid r hcur ((hdays _ hday).resolve_left hd)
    | none =>
      have hnone {t : Serving} (ht : ServedFrom lake t) : t.servedRow cid = none := by
        apply finalRow_eq_none.mpr
        intro x hx hxc
        obtain ⟨c, hc⟩ := exists_currentRow (ht.rows x hx)
        rw [hxc, hcur] at hc
        cases hc
      have hloaded {t : Serving} (ht : ServedFrom lake t) (new : List Int) : ServedFrom lake (t.afterLoad lake new) := by
        constructor
        · rw [exposuresLanded_afterLoad]
          exact fun e he => (List.mem_append.mp he).elim (ht.exposures e) fun hl => (mem_loadedExposures.mp hl).1
        · rw [attributedConversions_afterLoad]
          exact fun r hr => (List.mem_append.mp hr).elim (ht.rows r) fun hl =>
            currentRow_mem ((mem_loadedRows hlake.sameDay).mp hl).1
      rw [hnone (hloaded h.served days), Lake.completeLoad, hnone (hloaded (servedFrom_empty lake) lake.days)]

end brought
section steps
variable {bucketOf : String → Nat} {σ τ : System} {step : Step} {landing : SystemScript (List Int)} {days : List Int}

/-- Rows are only appended to a lake. -/
private def Grown (lake lake' : Lake) : Prop :=
  (∀ e ∈ lake.exposures, e ∈ lake'.exposures) ∧ ∀ r ∈ lake.attributed, r ∈ lake'.attributed

private theorem keeps_grown_landing {lake : Lake} {command : Command} (h : command.landing bucketOf = some landing) :
    landing.Keeps fun σ => Grown lake σ.lake :=
  keeps_landing_of (fun _ _ hσ => ⟨fun e he => List.mem_append_left _ (hσ.1 e he), hσ.2⟩)
    (fun _ _ hσ => ⟨hσ.1, fun r hr => List.mem_append_left _ (hσ.2 r hr)⟩) h

/-- Where a driver with a load is stopped: before it gets to the load, or within it or after. -/
private theorem stoppedAfter_landing (hl : step.command.landing bucketOf = some landing) (σ : System) :
    (landing.Leaves σ ((step.command.script bucketOf step.profile).stoppedAfter step.stop σ) ∧
      ∀ days τ, ¬ step.Loads bucketOf σ days τ) ∨
    ∃ days τ υ, step.Loads bucketOf σ days τ ∧ (materializeLoad days).Leaves τ υ ∧
      (step.LoadsAll bucketOf σ days τ → (materializeLoad days).Ends τ () υ) ∧
      ((step.command.script bucketOf step.profile).stoppedAfter step.stop σ).lake = τ.lake ∧
      ((step.command.script bucketOf step.profile).stoppedAfter step.stop σ).serving.exposuresLanded =
        υ.serving.exposuresLanded ∧
      ((step.command.script bucketOf step.profile).stoppedAfter step.stop σ).serving.attributedConversions =
        υ.serving.attributedConversions := by
  rw [script_eq step.profile hl]
  rcases Nat.lt_or_ge (landing.writeCount σ) step.stop with hn | hn
  case inr =>
    rw [stoppedAfter_bind_of_le hn]
    refine .inl ⟨leaves_stoppedAfter _ _ _, fun days τ h => ?_⟩
    obtain ⟨_, hl', _, _, hlt⟩ := h
    obtain rfl := Option.some.inj (hl.symm.trans hl')
    omega
  obtain ⟨m, hm⟩ := Nat.exists_eq_add_of_lt hn
  rcases ends_or_fails landing σ with ⟨days, τ, hτ⟩ | ⟨e, τ, hτ⟩
  case inr =>
    rw [stoppedAfter_bind_of_fails hτ]
    refine .inl ⟨leaves_stoppedAfter _ _ _, fun days τ' h => ?_⟩
    obtain ⟨_, hl', hends, _, _⟩ := h
    obtain rfl := Option.some.inj (hl.symm.trans hl')
    cases hτ.symm.trans hends
  by_cases hknown : ∀ d ∈ days, dayPartitions d = true
  case neg =>
    -- the load refuses the days before it writes
    have hne : days ≠ [] := fun h => hknown (h ▸ nofun)
    have hstop : ((materializeLoad days).bind fun _ => step.command.closing step.profile).stoppedAfter (m + 1) τ = τ := by
      rw [materializeLoad_eq, if_neg hne, if_neg hknown]
      rfl
    rw [hm, Nat.add_assoc, stoppedAfter_bind_of_ends hτ, hstop]
    refine .inl ⟨hτ.leaves, fun days' τ' h => ?_⟩
    obtain ⟨_, hl', hends, hknown', _⟩ := h
    obtain rfl := Option.some.inj (hl.symm.trans hl')
    exact hknown ((hτ.unique hends).1 ▸ hknown')
  have hloads : step.Loads bucketOf σ days τ := ⟨landing, hl, hτ, hknown, hn⟩
  rw [hm, Nat.add_assoc, stoppedAfter_bind_of_ends hτ]
  refine .inr ⟨days, τ, ?_⟩
  rcases Nat.lt_or_ge (m + 1) ((materializeLoad days).writeCount τ) with hlt | hge
  · rw [stoppedAfter_bind_of_le hlt.le]
    have hleaves := leaves_stoppedAfter (materializeLoad days) (m + 1) τ
    refine ⟨_, hloads, hleaves, fun hall => ?_, lake_of_leaves_materializeLoad hleaves, rfl, rfl⟩
    obtain ⟨_, hl', _, _, _, hdone⟩ := hall
    obtain rfl := Option.some.inj (hl.symm.trans hl')
    omega
  · obtain ⟨k, hk⟩ := Nat.exists_eq_add_of_le hge
    obtain ⟨υ, hends⟩ : ∃ υ, (materializeLoad days).Ends τ () υ := ⟨_, ends_materializeLoad.mpr ⟨hknown, rfl⟩⟩
    rw [hk, stoppedAfter_bind_of_ends hends]
    obtain ⟨⟨he, hr⟩, hlake, _⟩ := stoppedAfter_closing step.profile hl υ k
    exact ⟨υ, hloads, hends.leaves, fun _ => hends, hlake.trans (lake_of_leaves_materializeLoad hends.leaves), he, hr⟩

/-- A replay that does not get to its first truncate leaves all as it was. -/
private theorem stoppedAfter_replay (hc : step.command = .replay) (h : ¬ step.Truncates σ) :
    (step.command.script bucketOf step.profile).stoppedAfter step.stop σ = σ := by
  have hscript : step.command.script bucketOf step.profile = replayServing step.profile := by rw [hc]; rfl
  rw [hscript]
  rcases Nat.eq_zero_or_pos step.stop with hstop | hstop
  · rw [hstop, stoppedAfter_zero]
  rw [replayServing_eq, stoppedAfter]
  split
  · rfl
  · rename_i hne
    rw [if_neg fun hknown => h ⟨hc, hne, hknown, hstop⟩]
    rfl

/-- A replay past its second truncate: rows of its lake only, and at its end all of them. -/
private theorem brought_replay (h : step.Truncates σ) (hstop : 2 ≤ step.stop) (hlake : SoundLake σ.lake)
    (hdays : ∀ d ∈ days, d ∈ σ.lake.days ∧ (step.command.script bucketOf step.profile).Finishes step.stop σ) :
    ((step.command.script bucketOf step.profile).stoppedAfter step.stop σ).lake = σ.lake ∧
      Brought σ.lake days ((step.command.script bucketOf step.profile).stoppedAfter step.stop σ).serving := by
  have hscript : step.command.script bucketOf step.profile = replayServing step.profile := by rw [h.replay]; rfl
  rw [hscript] at hdays ⊢
  have hnew : Brought σ.lake [] σ.serving.emptied := .empty rfl rfl
  by_cases hfinishes : (replayServing step.profile).Finishes step.stop σ
  · obtain ⟨hcount, _, υ, hends⟩ := hfinishes
    rw [hends.stoppedAfter hcount]
    rw [replayServing_eq] at hends
    change (if σ.lake.days = [] then _ else _ : SystemScript Unit).Ends σ _ υ at hends
    rw [if_neg h.nonempty, if_pos h.known] at hends
    obtain ⟨_, m, hm, hmarker⟩ := ends_bind.mp hends
    obtain ⟨_, _, rfl⟩ := ends_truncateAndReload.mp hm
    obtain ⟨t, ht, rfl⟩ := ends_onServing.mp hmarker
    rw [ends_modify.mp ht]
    have hloaded := (hnew.afterLoad hlake.sameDay h.known).mono fun d hd => List.mem_append_right [] (hdays d hd).1
    exact ⟨rfl, hloaded.of_tables rfl rfl⟩
  · have hnone : days = [] := List.eq_nil_iff_forall_not_mem.mpr fun d hd => hfinishes (hdays d hd).2
    subst hnone
    have htruncate (table : ServingTable) : (onServing (Script.modify fun s => truncate s table)).Keeps
        (Over σ.lake (ServedFrom σ.lake)) := by
      refine keeps_over (keeps_modify fun s hs => ?_)
      cases table with
      | exposuresLanded => exact ⟨fun e he => absurd he List.not_mem_nil, hs.rows⟩
      | attributedConversions => exact ⟨hs.exposures, fun r hr => absurd hr List.not_mem_nil⟩
      | _ => exact ⟨hs.exposures, hs.rows⟩
    have hrest : ((reloadUnmarked σ.lake.days).bind fun _ => writeMarker step.profile).Keeps
        (Over σ.lake (ServedFrom σ.lake)) :=
      keeps_bind (keeps_bind' (keeps_forEach fun table _ => htruncate table) fun _ =>
        keeps_served_materializeLoad σ.lake σ.lake.days) fun _ => keeps_served_writeMarker σ.lake step.profile
    have hserved {τ : System} (h : Over σ.lake (ServedFrom σ.lake) τ) : τ.lake = σ.lake ∧ Brought σ.lake [] τ.serving :=
      ⟨h.lake, h.serving, fun _ _ hd => absurd hd List.not_mem_nil, fun _ _ _ hd => absurd hd List.not_mem_nil⟩
    apply hserved
    rw [replayServing_eq, stoppedAfter, if_neg h.nonempty, if_pos h.known, truncateAndReload_eq, if_neg h.nonempty]
    rcases hn : step.stop with _ | _ | _ | n
    · omega
    · omega
    · exact ⟨rfl, fun e he => absurd he List.not_mem_nil, fun r hr => absurd hr List.not_mem_nil⟩
    · refine hrest { σ with serving := { σ.serving with
        exposuresLanded := [], attributedConversions := [], evalMeta := [] } } _ ?_ (leaves_stoppedAfter _ n _)
      exact ⟨rfl, fun e he => absurd he List.not_mem_nil, fun r hr => absurd hr List.not_mem_nil⟩

end steps

section runs
variable {bucketOf : String → Nat} {run : List Step} {profile : String} {days : List Int}

private theorem deploymentAfter_concat (run : List Step) (step : Step) :
    deploymentAfter bucketOf (run ++ [step]) = step.apply bucketOf (deploymentAfter bucketOf run) := by
  rw [deploymentAfter, List.foldl_append]
  rfl

/-- The lake of a step's profile, and those of the others. -/
private theorem lakes_concat (run : List Step) (step : Step) (profile : String) :
    (deploymentAfter bucketOf (run ++ [step])).lakes profile = if step.profile = profile then
      ((step.command.script bucketOf step.profile).stoppedAfter step.stop
        ((deploymentAfter bucketOf run).system step.profile)).lake
      else (deploymentAfter bucketOf run).lakes profile := by
  rw [deploymentAfter_concat, Step.apply]
  by_cases hown : step.profile = profile
  · subst hown
    rw [if_pos rfl]
    exact Function.update_self ..
  · rw [if_neg hown]
    exact Function.update_of_ne (Ne.symm hown) ..

private theorem serving_concat (run : List Step) (step : Step) : (deploymentAfter bucketOf (run ++ [step])).serving =
    ((step.command.script bucketOf step.profile).stoppedAfter step.stop
      ((deploymentAfter bucketOf run).system step.profile)).serving := by
  rw [deploymentAfter_concat]
  rfl

section ledgerStep
variable {step : Step} {loaded : List Int} {landing : SystemScript (List Int)}

private theorem grown_concat (h : Grown ((deploymentAfter bucketOf run).lakes step.profile)
      ((step.command.script bucketOf step.profile).stoppedAfter step.stop
        ((deploymentAfter bucketOf run).system step.profile)).lake) :
    Grown ((deploymentAfter bucketOf run).lakes profile) ((deploymentAfter bucketOf (run ++ [step])).lakes profile) := by
  rw [lakes_concat]
  split
  · rename_i hown
    exact hown ▸ h
  · exact ⟨fun _ h => h, fun _ h => h⟩

/-- A step that loads nothing leaves what was brought on the days no row was landed on. -/
private theorem brought_unloaded (h : Brought ((deploymentAfter bucketOf run).lakes profile) loaded
      (deploymentAfter bucketOf run).serving)
    (hlake : SoundLake ((deploymentAfter bucketOf run).lakes profile))
    (hlake' : SoundLake ((deploymentAfter bucketOf (run ++ [step])).lakes profile))
    (hgrown : Grown ((deploymentAfter bucketOf run).lakes profile)
      ((deploymentAfter bucketOf (run ++ [step])).lakes profile))
    (hsame : (deploymentAfter bucketOf (run ++ [step])).serving = (deploymentAfter bucketOf run).serving)
    (hkept : ∀ d ∈ days, d ∈ loaded ∧ SameOn ((deploymentAfter bucketOf run).lakes profile)
      ((deploymentAfter bucketOf (run ++ [step])).lakes profile) d) :
    Brought ((deploymentAfter bucketOf (run ++ [step])).lakes profile) days
      (deploymentAfter bucketOf (run ++ [step])).serving := by
  rw [hsame]
  exact h.grown hlake.sameDay hlake'.sameDay hgrown.1 hgrown.2 hkept

/-- A step that gets into the load of its days adds them when it is not stopped there. -/
private theorem brought_loading {new : List Int} {τ υ : System}
    (h : Brought ((deploymentAfter bucketOf run).lakes step.profile) loaded (deploymentAfter bucketOf run).serving)
    (hlake : SoundLake ((deploymentAfter bucketOf run).lakes step.profile)) (hlake' : SoundLake τ.lake)
    (hl : step.command.landing bucketOf = some landing)
    (hlanded : landing.Ends ((deploymentAfter bucketOf run).system step.profile) new τ)
    (hknown : ∀ d ∈ new, dayPartitions d = true) (hleaves : (materializeLoad new).Leaves τ υ)
    (hends : step.LoadsAll bucketOf ((deploymentAfter bucketOf run).system step.profile) new τ →
      (materializeLoad new).Ends τ () υ)
    (hdays : ∀ d ∈ days, (d ∈ loaded ∧ SameOn ((deploymentAfter bucketOf run).lakes step.profile) τ.lake d) ∨
      step.LoadsAll bucketOf ((deploymentAfter bucketOf run).system step.profile) new τ ∧ d ∈ new) :
    Brought τ.lake days υ.serving := by
  have hserved : τ.serving = (deploymentAfter bucketOf run).serving := keeps_landing hl _ _ rfl hlanded.leaves
  have hgrown : Grown ((deploymentAfter bucketOf run).lakes step.profile) τ.lake :=
    keeps_grown_landing hl _ _ ⟨fun _ h => h, fun _ h => h⟩ hlanded.leaves
  have hkept (kept : List Int) (hkept : ∀ d ∈ kept, d ∈ loaded ∧
      SameOn ((deploymentAfter bucketOf run).lakes step.profile) τ.lake d) : Brought τ.lake kept τ.serving :=
    hserved ▸ h.grown hlake.sameDay hlake'.sameDay hgrown.1 hgrown.2 hkept
  by_cases hall : step.LoadsAll bucketOf ((deploymentAfter bucketOf run).system step.profile) new τ
  · classical
    have hrest := (hkept (days.filter fun d => d ∈ loaded ∧
      SameOn ((deploymentAfter bucketOf run).lakes step.profile) τ.lake d)
      fun d hd => of_decide_eq_true (List.mem_filter.mp hd).2).afterLoad hlake'.sameDay hknown
    rw [(ends_materializeLoad.mp (hends hall)).2]
    refine hrest.mono fun d hd => ?_
    rcases hdays d hd with hold | ⟨_, hd'⟩
    · exact List.mem_append_left _ (List.mem_filter.mpr ⟨hd, decide_eq_true hold⟩)
    · exact List.mem_append_right _ hd'
  · exact (hkept days fun d hd => (hdays d hd).resolve_right fun hdone => hall hdone.1).leaves_load hlake'.sameDay
      hleaves

end ledgerStep

/-- The tables hold what the ledger says. -/
theorem LoadedBy.brought (h : LoadedBy bucketOf profile run days)
    (hsound : ∀ earlier, earlier <+: run → SoundLake ((deploymentAfter bucketOf earlier).lakes profile)) :
    Brought ((deploymentAfter bucketOf run).lakes profile) days (deploymentAfter bucketOf run).serving := by
  induction h with
  | start => exact .empty rfl rfl
  | @step run step loaded days _ hown htruncates hdays ih =>
    have hbefore := ih fun earlier hpre => hsound earlier (hpre.trans (List.prefix_append run [step]))
    have hlake := hsound run (List.prefix_append run [step])
    have hlake' := hsound (run ++ [step]) List.prefix_rfl
    cases hl : step.command.landing bucketOf with
    | none =>
      have hreplay : step.command = .replay := by
        cases hc : step.command with
        | replay => rfl
        | _ =>
          rw [hc] at hl
          cases hl
      have hidle : (step.command.script bucketOf step.profile).stoppedAfter step.stop
          ((deploymentAfter bucketOf run).system step.profile) = (deploymentAfter bucketOf run).system step.profile :=
        stoppedAfter_replay hreplay htruncates
      refine brought_unloaded hbefore hlake hlake' (grown_concat ?_) ((serving_concat run step).trans ?_) fun d hd =>
        (hdays d hd).resolve_right fun hall => ?_
      · rw [hidle]
        exact ⟨fun _ h => h, fun _ h => h⟩
      · rw [hidle]
        rfl
      · obtain ⟨_, _, _, ⟨landing, hl', _⟩, _⟩ := hall
        rw [hl] at hl'
        cases hl'
    | some landing =>
      rcases stoppedAfter_landing hl ((deploymentAfter bucketOf run).system step.profile) with
        ⟨hleaves, hno⟩ | ⟨new, τ, υ, hloads, hleaves, hends, hτ, he, hr⟩
      · refine brought_unloaded hbefore hlake hlake'
          (grown_concat (keeps_grown_landing hl _ _ ⟨fun _ h => h, fun _ h => h⟩ hleaves))
          ((serving_concat run step).trans (keeps_landing hl _ _ rfl hleaves)) fun d hd =>
            (hdays d hd).resolve_right fun hall => ?_
        obtain ⟨rfl, new, τ, ⟨landing', hl', hends, hknown, hlt, _⟩, _⟩ := hall
        exact hno new τ ⟨landing', hl', hends, hknown, hlt⟩
      · obtain rfl : step.profile = profile := hown.resolve_right fun hnone => hnone new τ hloads
        obtain ⟨landing', hl', hlanded, hknown, _⟩ := hloads
        obtain rfl := Option.some.inj (hl.symm.trans hl')
        have hafter : (deploymentAfter bucketOf (run ++ [step])).lakes step.profile = τ.lake := by
          rw [lakes_concat, if_pos rfl, hτ]
        rw [hafter] at hlake' hdays ⊢
        rw [serving_concat]
        refine Brought.of_tables (s := υ.serving) ?_ he hr
        refine brought_loading hbefore hlake hlake' hl hlanded hknown hleaves hends fun d hd =>
          (hdays d hd).imp_right fun hall => ?_
        obtain ⟨_, new', τ', hdone, hd'⟩ := hall
        obtain ⟨landing', hl'', hlanded', _⟩ := id hdone
        obtain rfl := Option.some.inj (hl.symm.trans hl'')
        obtain ⟨rfl, rfl⟩ := hlanded.unique hlanded'
        exact ⟨hdone, hd'⟩
  | @replay run step days hown htruncates hstop hdays =>
    subst hown
    obtain ⟨hlake, hbrought⟩ := brought_replay htruncates hstop (hsound run (List.prefix_append run [step])) hdays
    rw [lakes_concat, if_pos rfl, hlake, deploymentAfter_concat]
    exact hbrought

/-- A step keeps the lake of its profile sound. -/
private theorem soundLake_of_leaves {step : Step} {σ τ : System} (hσ : SoundLake σ.lake)
    (hlands : ∀ r, step.command = .engine r → Lands σ.lake r)
    (h : (step.command.script bucketOf step.profile).Leaves σ τ) : SoundLake τ.lake := by
  have hmarker {υ : System} (hυ : SoundLake υ.lake) (hl : (writeMarker step.profile).Leaves υ τ) : SoundLake τ.lake := by
    obtain ⟨_, _, rfl⟩ := leaves_onServing hl
    exact hυ
  cases hc : step.command with
  | engine r =>
    rw [hc] at h
    have hland {υ : System} (hl : (landRun r).Leaves σ υ) : SoundLake υ.lake := by
      rcases leaves_landRun hl with rfl | rfl | rfl
      · exact hσ
      · exact hσ.land (hlands r hc)
      · exact hσ.landRun (hlands r hc)
    rcases leaves_bind' h with h₁ | ⟨_, m, hm, h₁⟩
    · exact hland h₁
    rcases leaves_bind' h₁ with h₂ | ⟨_, n, hn, h₂⟩
    · exact lake_of_leaves_materializeLoad h₂ ▸ hland hm.leaves
    · exact hmarker (lake_of_leaves_materializeLoad hn.leaves ▸ hland hm.leaves) h₂
  | reconcile =>
    rw [hc] at h
    have hpass {υ : System} (hl : (reconcileRun bucketOf).Leaves σ υ) : SoundLake υ.lake := by
      obtain ⟨_, _, _, hcorrected⟩ := leaves_driver (d := .run) hσ hl
      exact hcorrected.soundLake hσ
    rcases leaves_bind' h with h₁ | ⟨_, m, hm, h₁⟩
    · exact hpass h₁
    · exact hmarker (hpass hm.leaves) h₁
  | reconcileDagster partition =>
    rw [hc] at h
    obtain ⟨_, _, _, hcorrected⟩ := leaves_driver (d := .backfill partition) hσ h
    exact hcorrected.soundLake hσ
  | replay =>
    rw [hc] at h
    have hreload {υ : System} (hl : (truncateAndReload σ.lake.days).Leaves σ υ) : SoundLake υ.lake :=
      lake_of_leaves_truncateAndReload hl ▸ hσ
    change (replayServing step.profile).Leaves σ τ at h
    rw [replayServing_eq] at h
    cases h with
    | read _ h =>
      dsimp only at h
      split at h
      · exact leaves_fail.mp h ▸ hσ
      split at h
      · rcases leaves_bind h with h₁ | ⟨_, m, hm, h₁⟩
        · exact hreload h₁
        · exact hmarker (hreload hm.leaves) h₁
      · exact leaves_fail.mp h ▸ hσ

/-- In a safe run every lake is sound. -/
theorem SafeRun.soundLake (h : SafeRun bucketOf run) (profile : String) {earlier : List Step} (hpre : earlier <+: run) :
    SoundLake ((deploymentAfter bucketOf earlier).lakes profile) := by
  induction earlier using List.reverseRecOn with
  | nil => exact soundLake_empty
  | append_singleton earlier step ih =>
    have hbefore := ih ((List.prefix_append earlier [step]).trans hpre)
    rw [lakes_concat]
    split
    · rename_i hown
      subst hown
      exact soundLake_of_leaves hbefore (h earlier step hpre).landing (leaves_stoppedAfter _ _ _)
    · exact hbefore

/-- Where the rest is loaded the tables serve it. -/
private theorem RestLoaded.servesRest {lake : Lake} (h : RestLoaded bucketOf run profile lake days)
    (hsound : ∀ earlier, earlier <+: run → SoundLake ((deploymentAfter bucketOf earlier).lakes profile))
    (hlake : SoundLake lake) (hgrown : Grown ((deploymentAfter bucketOf run).lakes profile) lake) :
    ServesRest lake days (deploymentAfter bucketOf run).serving := by
  classical
  obtain ⟨loaded, hloaded, hrest⟩ := h
  have hkept : Brought lake (loaded.filter fun d => SameOn ((deploymentAfter bucketOf run).lakes profile) lake d)
      (deploymentAfter bucketOf run).serving :=
    (hloaded.brought hsound).grown (hsound run List.prefix_rfl).sameDay hlake.sameDay hgrown.1 hgrown.2
      fun d hd => ⟨(List.mem_filter.mp hd).1, of_decide_eq_true (List.mem_filter.mp hd).2⟩
  refine hkept.servesRest hlake fun d hd => (hrest d hd).imp id fun hold => ?_
  exact List.mem_filter.mpr ⟨hold.1, decide_eq_true hold.2⟩

/-- A driver that marks writes after its load. -/
private theorem writeCount_closing {command : Command} {landing : SystemScript (List Int)}
    (hl : command.landing bucketOf = some landing) (hmarks : command.marks = true) (profile : String) (σ : System) :
    0 < (command.closing profile).writeCount σ := by
  cases command with
  | engine run => exact Nat.one_pos
  | reconcile => exact Nat.succ_pos 2
  | reconcileDagster partition => cases hmarks
  | replay => cases hl

/-- A safe step fits the tables it finds. -/
theorem Step.Safe.fits {step : Step} (h : step.Safe bucketOf run)
    (hsound : ∀ profile earlier, earlier <+: run → SoundLake ((deploymentAfter bucketOf earlier).lakes profile)) :
    step.Fits bucketOf ((deploymentAfter bucketOf run).system step.profile) := by
  have hserves {landing : SystemScript (List Int)} {days : List Int} {τ : System}
      (hl : step.command.landing bucketOf = some landing)
      (hends : landing.Ends ((deploymentAfter bucketOf run).system step.profile) days τ)
      (hrest : RestLoaded bucketOf run step.profile τ.lake days) :
      ServesRest τ.lake days (deploymentAfter bucketOf run).serving := by
    have hleaves : (step.command.script bucketOf step.profile).Leaves
        ((deploymentAfter bucketOf run).system step.profile) τ := by
      rw [script_eq step.profile hl]
      exact leaves_bind_of_ends hends (leaves_self _ τ)
    refine hrest.servesRest (hsound step.profile) ?_ ?_
    · exact soundLake_of_leaves (hsound step.profile run List.prefix_rfl) h.landing hleaves
    · exact keeps_grown_landing hl _ _ ⟨fun _ h => h, fun _ h => h⟩ hends.leaves
  constructor
  · intro landing days τ hl hends hknown
    rcases Nat.lt_or_ge (landing.writeCount ((deploymentAfter bucketOf run).system step.profile)) step.stop with hn | hn
    case inr => exact .inl hn
    rcases h.loading days τ ⟨landing, hl, hends, hknown, hn⟩ with hnone | hnew | ⟨hall, hrest, hmarker⟩
    · exact .inr (.inl hnone)
    · exact .inr (.inr (.inl hnew))
    · obtain ⟨_, hl', _, _, _, hdone⟩ := hall
      obtain rfl := Option.some.inj (hl.symm.trans hl')
      exact .inr (.inr (.inr ⟨hdone, hserves hl hends hrest, hmarker⟩))
  · intro landing days τ hl hends hmarks hfinishes
    refine hserves hl hends (h.marking days τ ⟨landing, hl, hends, ?_⟩ hmarks hfinishes)
    obtain ⟨hcount, _, υ, hscript⟩ := hfinishes
    rw [script_eq step.profile hl] at hcount hscript
    obtain ⟨_, _, hm, hloaded⟩ := ends_bind.mp hscript
    obtain ⟨rfl, rfl⟩ := hends.unique hm
    obtain ⟨_, υ', hload, _⟩ := ends_bind.mp hloaded
    have hclosing := writeCount_closing hl hmarks step.profile υ'
    rw [writeCount_bind_of_ends hends, writeCount_bind_of_ends hload] at hcount
    exact ⟨(ends_materializeLoad.mp hload).1, by omega, by omega⟩
  · intro hc hne hknown
    rcases Nat.eq_zero_or_pos step.stop with hstop | hstop
    · exact .inr (.inl hstop)
    · exact (h.truncating ⟨hc, hne, hknown, hstop⟩).imp id .inr

/-- What a step that fits leaves vouched for. -/
theorem MarkerVouches.step {step : Step} (h : MarkerVouches bucketOf run)
    (hfits : step.Fits bucketOf ((deploymentAfter bucketOf run).system step.profile)) :
    MarkerVouches bucketOf (run ++ [step]) := by
  intro profile haccept
  rw [assertProfileMarker_eq_ok] at haccept
  have houtcome := outcome_of_fits hfits
  rw [deploymentAfter_concat] at haccept ⊢
  rcases houtcome with ⟨halike, hmarker⟩ | hnone | ⟨hown, halike⟩
  · rw [Step.apply, hmarker] at haccept
    obtain ⟨earlier, hpre, hsame⟩ := h profile (assertProfileMarker_eq_ok.mpr haccept)
    refine ⟨earlier, hpre.trans (List.prefix_append run [step]), ?_⟩
    exact ⟨halike.sameLanded.exposures.trans hsame.exposures, halike.sameLanded.rows.trans hsame.rows⟩
  · rw [Step.apply, hnone] at haccept
    cases haccept
  · rw [Step.apply, hown] at haccept
    obtain rfl := Option.some.inj haccept
    refine ⟨run ++ [step], List.prefix_rfl, ?_⟩
    have hlake : (step.apply bucketOf (deploymentAfter bucketOf run)).lakes step.profile = _ :=
      Function.update_self step.profile _ (deploymentAfter bucketOf run).lakes
    rw [deploymentAfter_concat, hlake]
    exact halike.sameLanded

/-- A marker vouches for a complete load of its profile's lake in every run of safe steps,
wherever they were stopped. -/
theorem safeRun_markerVouches (h : SafeRun bucketOf run) : ∀ earlier, earlier <+: run →
    MarkerVouches bucketOf earlier := by
  intro earlier
  induction earlier using List.reverseRecOn with
  | nil =>
    intro _ profile haccept
    rw [assertProfileMarker_eq_ok] at haccept
    cases haccept
  | append_singleton earlier step ih =>
    intro hpre
    have hbefore : earlier <+: run := (List.prefix_append earlier [step]).trans hpre
    exact (ih hbefore).step ((h earlier step hpre).fits fun profile sooner hsooner =>
      h.soundLake profile (hsooner.trans hbefore))

/-- Under no marker, and with no load before since the tables were empty, an engine run whose
lake then holds its own days only is safe. -/
private theorem safe_engine {r : EngineRun} {stop : Nat}
    (hnone : (deploymentAfter bucketOf run).serving.profileMarker = none)
    (hlands : Lands ((deploymentAfter bucketOf run).lakes profile) r) (hloaded : LoadedBy bucketOf profile run [])
    (hheld : ∀ d ∈ ((((deploymentAfter bucketOf run).lakes profile).land r.exposures).landAttributed r.rows).days,
      d ∈ landedDays r) : Step.Safe bucketOf run ⟨profile, .engine r, stop⟩ := by
  refine ⟨?_, fun _ _ _ => .inl hnone, ?_, fun h => nomatch h.replay⟩
  · intro r' hr
    cases hr
    exact hlands
  · intro days τ hall _ _
    obtain ⟨_, hl, hends, _⟩ := hall
    cases hl
    obtain ⟨rfl, rfl⟩ := ends_landRun.mp hends
    exact ⟨[], hloaded, fun d hd => .inl (hheld d hd)⟩

/-- A step that never gets into a load is safe if it lands rows of a hot run and is no replay. -/
private theorem safe_unloading {step : Step} (hlands : ∀ r, step.command = .engine r →
      Lands ((deploymentAfter bucketOf run).lakes step.profile) r)
    (hno : ∀ days τ, ¬ step.Loads bucketOf ((deploymentAfter bucketOf run).system step.profile) days τ)
    (htruncates : step.Truncates ((deploymentAfter bucketOf run).system step.profile) → 3 ≤ step.stop) :
    step.Safe bucketOf run := by
  refine ⟨hlands, fun days τ h => absurd h (hno days τ), fun days τ hall _ _ => ?_, fun h => .inr (.inl (htruncates h))⟩
  obtain ⟨landing, hl, hends, hknown, hlt, _⟩ := hall
  exact absurd ⟨landing, hl, hends, hknown, hlt⟩ (hno days τ)

/-- An engine run, one of another profile stopped in its landing, a replay stopped once the
marker is gone, and the engine run again. -/
def sampleSteps : List Step :=
  [⟨"tiny", .engine sampleRun, 1000⟩, ⟨"small", .engine sampleRun, 1⟩, ⟨"tiny", .replay, 5⟩, ⟨"tiny", .engine sampleRun, 1000⟩]

theorem safeRun_markerVouches_sample : MarkerVouches String.length sampleSteps := by
  have hhot : HotRun sampleRun.rows := ⟨by decide, by decide, by decide⟩
  have hlands : Lands Lake.empty sampleRun := ⟨hhot, by decide +kernel, by decide +kernel⟩
  have hagain : Lands ((deploymentAfter String.length (sampleSteps.take 3)).lakes "tiny") sampleRun :=
    ⟨hhot, by decide +kernel, by decide +kernel⟩
  refine safeRun_markerVouches ?_ sampleSteps List.prefix_rfl
  intro earlier step hpre
  rcases earlier with _ | ⟨first, _ | ⟨second, _ | ⟨third, _ | ⟨fourth, rest⟩⟩⟩⟩
  · obtain rfl : step = ⟨"tiny", .engine sampleRun, 1000⟩ := (List.cons_prefix_cons.mp hpre).1
    exact safe_engine rfl hlands .start (by decide +kernel)
  · obtain ⟨rfl, htail⟩ := List.cons_prefix_cons.mp hpre
    obtain rfl : step = ⟨"small", .engine sampleRun, 1⟩ := (List.cons_prefix_cons.mp htail).1
    refine safe_unloading (fun r hr => ?_) (fun days τ h => ?_) fun h => nomatch h.replay
    · cases hr
      exact hlands
    · obtain ⟨_, hl, _, _, hlt⟩ := h
      cases hl
      exact absurd hlt (by decide : ¬ 2 < 1)
  · obtain ⟨rfl, htail⟩ := List.cons_prefix_cons.mp hpre
    obtain ⟨rfl, hrest⟩ := List.cons_prefix_cons.mp htail
    obtain rfl : step = ⟨"tiny", .replay, 5⟩ := (List.cons_prefix_cons.mp hrest).1
    refine safe_unloading (fun _ h => nomatch h) (fun days τ h => ?_) fun _ => by decide
    obtain ⟨_, hl, _⟩ := h
    cases hl
  · obtain ⟨rfl, htail⟩ := List.cons_prefix_cons.mp hpre
    obtain ⟨rfl, hrest⟩ := List.cons_prefix_cons.mp htail
    obtain ⟨rfl, hlast⟩ := List.cons_prefix_cons.mp hrest
    obtain rfl : step = ⟨"tiny", .engine sampleRun, 1000⟩ := (List.cons_prefix_cons.mp hlast).1
    -- the replay emptied the tables, so nothing has to be loaded before it
    have hemptied : LoadedBy String.length "tiny" (sampleSteps.take 2 ++ [⟨"tiny", .replay, 5⟩]) [] :=
      .replay rfl ⟨rfl, by decide +kernel, by decide +kernel, by decide⟩ (by decide) fun _ h => absurd h List.not_mem_nil
    exact safe_engine (by decide +kernel) hagain hemptied (by decide +kernel)
  · have hlength := hpre.length_le
    rw [List.length_append] at hlength
    change rest.length + 4 + 1 ≤ 4 at hlength
    omega

/-- A replay stopped after its first truncate leaves the marker over a table it emptied. -/
theorem replay_marker_not_vouching : ∃ run, ¬ MarkerVouches String.length run := by
  let engine : Step := ⟨"tiny", .engine sampleRun, 1000⟩
  let truncated : Step := ⟨"tiny", .replay, 1⟩
  refine ⟨[engine, truncated], fun h => ?_⟩
  obtain ⟨earlier, hpre, hsame⟩ := h "tiny" (by decide +kernel)
  have hexposures : (deploymentAfter String.length [engine, truncated]).serving.exposuresFinal = [] := by
    decide +kernel
  have hrows : (deploymentAfter String.length [engine, truncated]).serving.attributedFinal ≠ [] := by
    decide +kernel
  have hempty := hsame.exposures
  rw [hexposures] at hempty
  rcases earlier with _ | ⟨first, _ | ⟨second, rest⟩⟩
  · -- the empty lake has no rows
    have hnone : ((deploymentAfter String.length []).lakes "tiny").completeLoad.attributedFinal = [] := by
      decide +kernel
    have hlost := hsame.rows
    rw [hnone] at hlost
    exact hrows hlost.eq_nil
  · obtain rfl : first = engine := (List.cons_prefix_cons.mp hpre).1
    have hsome : ((deploymentAfter String.length [engine]).lakes "tiny").completeLoad.exposuresFinal ≠ [] := by
      decide +kernel
    exact hsome hempty.nil_eq.symm
  · obtain ⟨rfl, htail⟩ := List.cons_prefix_cons.mp hpre
    obtain ⟨rfl, hrest⟩ := List.cons_prefix_cons.mp htail
    obtain rfl : rest = [] := List.prefix_nil.mp hrest
    have hsome : ((deploymentAfter String.length [engine, truncated]).lakes "tiny").completeLoad.exposuresFinal ≠
        [] := by
      decide +kernel
    exact hsome hempty.nil_eq.symm

end runs
end CtvAttribution
