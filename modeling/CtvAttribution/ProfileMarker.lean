import CtvAttribution.DestructiveReplay
import CtvAttribution.Library.Stopping

/-! The profile marker over a deployment: one lake a profile, one set of serving tables,
drivers of any profile stopped after any of their statements. -/
namespace CtvAttribution
open Library Script

/-- The lakes of all profiles and the serving tables they share. -/
structure Deployment where
  lakes : String → Lake
  serving : Serving

def Deployment.empty : Deployment := ⟨fun _ => Lake.empty, Serving.empty⟩

inductive MarkerError where
  | missing (profile : String)
  | mismatch (marker profile : String)
  deriving DecidableEq, Repr

def MarkerError.message : MarkerError → String
  | .missing profile =>
    s!"eval: no eval_meta profile marker in ClickHouse — run " ++
    s!"`make run PROFILE={profile}` (or run-hot / replay-serving) first so the " ++
    "DB holds a profile to score against."
  | .mismatch marker profile =>
    s!"eval: profile/DB mismatch — ClickHouse was populated from " ++
    s!"'{marker}' but you asked to score '{profile}'. Reseed and re-run " ++
    s!"'{profile}', or pass PROFILE={marker} to score what the DB holds."

/-- `assert_profile_marker`. -/
def assertProfileMarker : Option String → String → Except MarkerError Unit
  | none, profile => .error (.missing profile)
  | some marker, profile => if marker ≠ profile then .error (.mismatch marker profile) else .ok ()

section commands
variable (bucketOf : String → Nat)

/-- The pass up to its load: recover every candidate day, append, report the touched days. -/
def reconcileLanding : SystemScript (List Int) := do
  let σ ← Script.get
  let days ← orRaise (candidateDays σ.lake.attributed)
  let recovered ← orRaise (recoverDays bucketOf σ.lake days (reconciledAtFor σ.serving.maxIngest))
  onLake fun lake => lake.landAttributed recovered
  return touchedDays (recovered.map fun r => r.eventTime)

/-- The backfill up to its load. -/
def backfillLanding (partition : Option Int) : SystemScript (List Int) := do
  let σ ← Script.get
  let days ← match partition with
    | some day => pure [day]
    | none => orRaise (candidateDays σ.lake.attributed)
  let touched ← Script.collect days (reconciledConversions bucketOf)
  return touched.flatten

/-- `main` of the reconcile job. -/
def reconcileMain (profile : String) : SystemScript Unit := do
  reconcileRun bucketOf
  writeMarker profile

/-- `replay` over a lake of model rows, once confirmed. -/
def replayServing (profile : String) : SystemScript Unit := do
  let days := (← Script.get).lake.days
  if days = [] then Script.fail .emptyLake
  let unknown := sortedSet (days.filter fun d => !dayPartitions d)
  if unknown ≠ [] then Script.fail (.unknownPartition unknown)
  truncateAndReload days
  writeMarker profile

inductive Command where
  | engine (run : EngineRun)
  | reconcile
  | reconcileDagster (partition : Option Int)
  | replay

namespace Command

def script (profile : String) : Command → SystemScript Unit
  | .engine run => engineMain run profile
  | .reconcile => reconcileMain bucketOf profile
  | .reconcileDagster partition => runReconcile bucketOf partition
  | .replay => replayServing profile

/-- What a driver does ahead of its load. -/
def landing : Command → Option (SystemScript (List Int))
  | .engine run => some (landRun run)
  | .reconcile => some (reconcileLanding bucketOf)
  | .reconcileDagster partition => some (backfillLanding bucketOf partition)
  | .replay => none

/-- The orchestrated reconcile writes no marker. -/
def marks : Command → Bool
  | .reconcileDagster _ => false
  | _ => true

/-- What a driver does after its load. -/
def closing (profile : String) : Command → SystemScript Unit
  | .engine _ => writeMarker profile
  | .reconcile => do
    finalize
    writeMarker profile
  | .reconcileDagster _ => finalize
  | .replay => return ()

end Command

/-- A command under a profile, stopped after some number of its writes. -/
structure Step where
  profile : String
  command : Command
  stop : Nat

/-- The stores of one profile. -/
def Deployment.system (D : Deployment) (profile : String) : System := ⟨D.lakes profile, D.serving⟩

def Step.apply (D : Deployment) (step : Step) : Deployment :=
  let σ := (step.command.script bucketOf step.profile).stoppedAfter step.stop (D.system step.profile)
  ⟨Function.update D.lakes step.profile σ.lake, σ.serving⟩

def deploymentAfter (run : List Step) : Deployment := run.foldl (Step.apply bucketOf) Deployment.empty

/-- What a complete load of a lake produces. -/
def Lake.completeLoad (lake : Lake) : Serving := Serving.empty.afterLoad lake lake.days

/-- FINAL of both landed tables, up to order. -/
structure SameLanded (s t : Serving) : Prop where
  exposures : s.exposuresFinal.Perm t.exposuresFinal
  rows : s.attributedFinal.Perm t.attributedFinal

/-- A marker that is accepted vouches for tables as a complete load of its profile's lake, as
the lake then was, produced them. -/
def MarkerVouches (run : List Step) : Prop :=
  ∀ profile, assertProfileMarker (deploymentAfter bucketOf run).serving.profileMarker profile = .ok () →
    ∃ earlier, earlier <+: run ∧
      SameLanded (deploymentAfter bucketOf run).serving ((deploymentAfter bucketOf earlier).lakes profile).completeLoad

/-- The row a load of some days leaves for a sort key. -/
def loadedExposure (lake : Lake) (days : List Int) (key : String ×ₗ Int ×ₗ String) : Option Exposure :=
  finalRow exposureKey (fun _ => ()) (loadedExposures lake days) key

def loadedRow (lake : Lake) (days : List Int) (cid : String) : Option AttributedConversion :=
  finalRow (fun r => r.conversionId) (fun r => r.processedAt) (loadedRows lake days) cid

/-- All a load of these days inserts is served already, or older than what is. -/
structure NothingNew (lake : Lake) (days : List Int) (s : Serving) : Prop where
  exposures : ∀ e ∈ loadedExposures lake days, s.servedExposure (exposureKey e) = some e
  rows : ∀ r ∈ loadedRows lake days, ∃ x, s.servedRow r.conversionId = some x ∧
    (x = r ∨ r.processedAt < x.processedAt)

/-- What these days of the lake do not bring, the tables serve as a complete load would. -/
structure ServesRest (lake : Lake) (days : List Int) (s : Serving) : Prop where
  exposures : ∀ key, (loadedExposure lake days key).or (s.servedExposure key) =
    lake.completeLoad.servedExposure key
  rows : ∀ cid, newer (fun r => r.processedAt) (loadedRow lake days cid) (s.servedRow cid) =
    lake.completeLoad.servedRow cid

/-- A command fits the tables it finds. What is new it loads under no marker, or it is not
stopped within the load and ends under its own marker; a marker is written over a complete load
only, and a replay is not stopped between its first truncate and that of the marker. -/
structure Step.Fits (step : Step) (σ : System) : Prop where
  loading : ∀ landing days τ, step.command.landing bucketOf = some landing → landing.Ends σ days τ →
    (∀ d ∈ days, dayPartitions d = true) →
    step.stop ≤ landing.writeCount σ ∨ σ.serving.profileMarker = none ∨ NothingNew τ.lake days σ.serving ∨
      landing.writeCount σ + (materializeLoad days).writeCount τ ≤ step.stop ∧ ServesRest τ.lake days σ.serving ∧
        (σ.serving.profileMarker = some step.profile ∨
          step.command.marks = true ∧ (step.command.script bucketOf step.profile).Finishes step.stop σ)
  marking : ∀ landing days τ, step.command.landing bucketOf = some landing → landing.Ends σ days τ →
    step.command.marks = true → (step.command.script bucketOf step.profile).Finishes step.stop σ →
    ServesRest τ.lake days σ.serving
  truncating : step.command = .replay → σ.lake.days ≠ [] → (∀ d ∈ σ.lake.days, dayPartitions d = true) →
    σ.serving.profileMarker = none ∨ step.stop = 0 ∨ 3 ≤ step.stop ∨
      σ.serving.exposuresLanded = [] ∧ (step.stop = 1 ∨ σ.serving.attributedConversions = [])

end commands

section served
variable {s t : Serving} {lake : Lake} {days : List Int} {σ σ' : System}

private theorem profileMarker_append (s : Serving) (profile : String) :
    ({ s with evalMeta := s.evalMeta ++ [profile] } : Serving).profileMarker = some profile :=
  finalRow_append_of_le rfl fun _ _ _ => le_refl ()

private theorem profileMarker_of_nil (h : s.evalMeta = []) : s.profileMarker = none := by
  rw [Serving.profileMarker, h]
  rfl

theorem assertProfileMarker_eq_ok {marker : Option String} {profile : String} :
    assertProfileMarker marker profile = .ok () ↔ marker = some profile := by
  cases marker with
  | none => simp [assertProfileMarker]
  | some m => simp [assertProfileMarker]

/-- Both landed tables serve the same row for every key. -/
structure ServesAlike (s t : Serving) : Prop where
  exposures : ∀ key, s.servedExposure key = t.servedExposure key
  rows : ∀ cid, s.servedRow cid = t.servedRow cid

theorem ServesAlike.refl (s : Serving) : ServesAlike s s := ⟨fun _ => rfl, fun _ => rfl⟩

theorem ServesAlike.trans {u : Serving} (h : ServesAlike s t) (h' : ServesAlike t u) : ServesAlike s u :=
  ⟨fun key => (h.exposures key).trans (h'.exposures key), fun cid => (h.rows cid).trans (h'.rows cid)⟩

theorem ServesAlike.of_tables (he : s.exposuresLanded = t.exposuresLanded)
    (hr : s.attributedConversions = t.attributedConversions) : ServesAlike s t :=
  ⟨fun key => by rw [Serving.servedExposure, Serving.servedExposure, he],
    fun cid => by rw [Serving.servedRow, Serving.servedRow, hr]⟩

theorem ServesAlike.sameLanded (h : ServesAlike s t) : SameLanded s t :=
  ⟨finalRows_perm h.exposures, finalRows_perm h.rows⟩

/-- Rows that are served, or older than what is, change nothing. -/
theorem servedExposure_append {chunk : List Exposure}
    (h : ∀ e ∈ chunk, s.servedExposure (exposureKey e) = some e) (key : String ×ₗ Int ×ₗ String) :
    ({ s with exposuresLanded := s.exposuresLanded ++ chunk } : Serving).servedExposure key =
      s.servedExposure key := by
  by_cases hkey : ∃ e ∈ chunk, exposureKey e = key
  · obtain ⟨e, he, rfl⟩ := hkey
    have hchunk : finalRow exposureKey (fun _ => ()) chunk (exposureKey e) = some e := by
      apply finalRow_of_unique he
      intro x hx hxe
      have hserved := h x hx
      rw [hxe, h e he] at hserved
      exact (Option.some.inj hserved).symm
    rw [h e he]
    exact finalRow_append_of_le hchunk fun _ _ _ => le_refl ()
  · exact finalRow_append_of_not_mem fun e he hek => hkey ⟨e, he, hek⟩

private theorem servedRow_append {chunk : List AttributedConversion}
    (h : ∀ r ∈ chunk, ∃ x, s.servedRow r.conversionId = some x ∧ (x = r ∨ r.processedAt < x.processedAt))
    (cid : String) :
    ({ s with attributedConversions := s.attributedConversions ++ chunk } : Serving).servedRow cid =
      s.servedRow cid := by
  change finalRow _ _ (s.attributedConversions ++ chunk) cid = finalRow _ _ s.attributedConversions cid
  rw [finalRow_append]
  cases hnew : finalRow (fun r : AttributedConversion => r.conversionId) (fun r => r.processedAt) chunk cid with
  | none => rfl
  | some r =>
    obtain ⟨hr, rfl, _⟩ := finalRow_eq_some hnew
    obtain ⟨x, hx, hxr⟩ := h r hr
    rw [Serving.servedRow] at hx
    rw [hx]
    rcases hxr with rfl | hlt
    · exact if_neg (lt_irrefl _)
    · exact if_pos hlt

/-- A load of nothing new changes no served row, wherever it is stopped. -/
theorem NothingNew.servesAlike (h : NothingNew lake days s)
    (hl : (materializeLoad days).Leaves ⟨lake, s⟩ σ') : ServesAlike σ'.serving s := by
  have hI : TableInvariant ⟨loadedExposures lake days, loadedRows lake days⟩ fun t => ServesAlike t s := by
    refine ⟨?_, ?_, ?_⟩
    · intro t chunk ht hchunk
      refine ⟨fun key => ?_, ht.rows⟩
      rw [servedExposure_append fun e he => (ht.exposures _).trans (h.exposures e (hchunk e he))]
      exact ht.exposures key
    · intro t chunk ht hchunk
      refine ⟨ht.exposures, fun cid => ?_⟩
      rw [servedRow_append, ht.rows]
      intro r hr
      rw [ht.rows]
      exact h.rows r (hchunk r hr)
    · intro t u he hr ht
      exact (ServesAlike.of_tables he hr).trans ht
  have hexposures (day : Int) (hday : day ∈ days) :
      (loadExposuresDay lake.exposures day).Keeps fun t => ServesAlike t s := by
    refine keeps_bind' (keeps_insertExposures hI fun e he => ?_) fun _ =>
      keeps_bind' (keeps_insertDirty hI _) fun _ => keeps_insertDirty hI _
    exact List.mem_flatMap.mpr ⟨day, mem_sortedSet.mpr hday, he⟩
  have hrows (day : Int) (hday : day ∈ days) :
      (loadAttributedDay lake.attributed day).Keeps fun t => ServesAlike t s := by
    refine keeps_bind' (keeps_insertAttributed hI fun r hr => ?_) fun _ => keeps_insertDirty hI _
    exact List.mem_flatMap.mpr ⟨day, mem_sortedSet.mpr hday, hr⟩
  exact (keeps_materializeLoad_of_days hexposures hrows (keeps_refreshCampaignHourly hI) ⟨lake, s⟩ σ'
    ⟨rfl, .refl s⟩ hl).serving

/-- Tables serve the rest when, loaded, they are a complete load. -/
theorem servesRest_iff : ServesRest lake days s ↔ ServesAlike (s.afterLoad lake days) lake.completeLoad := by
  have hexposures (key : String ×ₗ Int ×ₗ String) : (s.afterLoad lake days).servedExposure key =
      (loadedExposure lake days key).or (s.servedExposure key) := by
    rw [Serving.servedExposure, exposuresLanded_afterLoad, finalRow_append, loadedExposure]
    cases hl : finalRow exposureKey (fun _ => ()) (loadedExposures lake days) key with
    | none => rfl
    | some e =>
      rw [newer_eq_left fun _ _ => le_refl ()]
      rfl
  have hrows (cid : String) : (s.afterLoad lake days).servedRow cid =
      newer (fun r => r.processedAt) (loadedRow lake days cid) (s.servedRow cid) := by
    rw [Serving.servedRow, attributedConversions_afterLoad, finalRow_append]
    rfl
  exact ⟨fun h => ⟨fun key => (hexposures key).trans (h.exposures key), fun cid => (hrows cid).trans (h.rows cid)⟩,
    fun h => ⟨fun key => (hexposures key).symm.trans (h.exposures key), fun cid => (hrows cid).symm.trans (h.rows cid)⟩⟩

end served

section steps
variable {bucketOf : String → Nat} {σ σ' τ : System} {s : Serving} {profile : String} {command : Command}
  {landing : SystemScript (List Int)} {days : List Int} {n : Nat}

private theorem backfillLanding_eq (partition : Option Int) : backfillLanding bucketOf partition = (do
    let days ← orRaise (backfillDays (← Script.get).lake.attributed partition)
    let touched ← Script.collect days (reconciledConversions bucketOf)
    return touched.flatten) := by
  cases partition <;> rfl

/-- A driver lands, loads what it landed and closes. -/
theorem script_eq (profile : String) (h : command.landing bucketOf = some landing) : command.script bucketOf profile =
    landing.bind fun days => (materializeLoad days).bind fun _ => command.closing profile := by
  change _ = landing >>= fun days => materializeLoad days >>= fun _ => command.closing profile
  cases command with
  | engine run =>
    cases h
    rfl
  | reconcile =>
    cases h
    simp only [Command.script, reconcileMain, reconcileRun, reconcileLanding, LawfulMonad.bind_assoc, pure_bind]
    rfl
  | reconcileDagster partition =>
    cases h
    simp only [Command.script, runReconcile_eq, backfillLanding_eq, LawfulMonad.bind_assoc, pure_bind]
    rfl
  | replay => cases h

/-- What landing keeps, a driver keeps ahead of its load. -/
theorem keeps_landing_of {I : System → Prop} (hland : ∀ σ new, I σ → I { σ with lake := σ.lake.land new })
    (hrows : ∀ σ new, I σ → I { σ with lake := σ.lake.landAttributed new })
    (h : command.landing bucketOf = some landing) : landing.Keeps I := by
  have honRows (rows : List AttributedConversion) : (onLake fun lake => lake.landAttributed rows).Keeps I :=
    keeps_modify fun σ hσ => hrows σ rows hσ
  have hread {α β : Type} {x : System → Except ValueError α} {q : System → α → SystemScript β}
      (hq : ∀ σ a, (q σ a).Keeps I) :
      (Script.get.bind fun σ => (orRaise (x σ)).bind (q σ)).Keeps I := by
    apply keeps_get_bind
    intro σ hσ τ hτ
    exact keeps_bind (keeps_ofExcept _) (hq σ) σ τ hσ hτ
  cases command with
  | engine run =>
    cases h
    exact keeps_bind' (keeps_modify fun σ hσ => hland σ _ hσ) fun _ => keeps_bind' (honRows _) fun _ => keeps_done _
  | reconcile =>
    cases h
    apply hread
    intro σ days
    exact keeps_bind' (keeps_ofExcept _) fun _ => keeps_bind' (honRows _) fun _ => keeps_done _
  | reconcileDagster partition =>
    cases h
    have hday (day : Int) : (reconciledConversions bucketOf day).Keeps I := by
      rw [reconciledConversions_eq]
      split
      · exact hread fun _ _ => keeps_bind' (honRows _) fun _ => keeps_done _
      · intro σ τ hσ hτ
        rw [leaves_fail.mp hτ]
        exact hσ
    rw [backfillLanding_eq]
    exact hread fun _ _ => keeps_bind' (keeps_collect fun day _ => hday day) fun _ => keeps_done _
  | replay => cases h

/-- Ahead of its load a driver leaves the tables alone. -/
theorem keeps_landing (h : command.landing bucketOf = some landing) :
    landing.Keeps fun σ => σ.serving = s :=
  keeps_landing_of (fun _ _ hσ => hσ) (fun _ _ hσ => hσ) h

/-- The closing statements leave the landed tables, and the marker unless the driver finishes
under one of its own. -/
theorem stoppedAfter_closing (profile : String) (hl : command.landing bucketOf = some landing) (σ : System) (n : Nat) :
    (((command.closing profile).stoppedAfter n σ).serving.exposuresLanded = σ.serving.exposuresLanded ∧
        ((command.closing profile).stoppedAfter n σ).serving.attributedConversions =
          σ.serving.attributedConversions) ∧
      ((command.closing profile).stoppedAfter n σ).lake = σ.lake ∧
      (command.marks = true ∧ (command.closing profile).Finishes n σ →
        ((command.closing profile).stoppedAfter n σ).serving.profileMarker = some profile) ∧
      (¬ (command.marks = true ∧ (command.closing profile).Finishes n σ) →
        ((command.closing profile).stoppedAfter n σ).serving.profileMarker = σ.serving.profileMarker) := by
  cases command with
  | engine run =>
    rcases n with _ | n
    · exact ⟨⟨rfl, rfl⟩, rfl, fun h => absurd h.2.1 (Nat.not_succ_le_zero 0), fun _ => rfl⟩
    · exact ⟨⟨rfl, rfl⟩, rfl, fun _ => profileMarker_append σ.serving profile,
        fun h => absurd ⟨rfl, Nat.le_add_left 1 n, (), _, rfl⟩ h⟩
  | reconcile =>
    rcases n with _ | _ | _ | n
    · exact ⟨⟨rfl, rfl⟩, rfl, fun h => absurd h.2.1 (Nat.not_succ_le_zero 2), fun _ => rfl⟩
    · exact ⟨⟨rfl, rfl⟩, rfl, fun h => absurd h.2.1 (by decide : ¬ 3 ≤ 1), fun _ => rfl⟩
    · exact ⟨⟨rfl, rfl⟩, rfl, fun h => absurd h.2.1 (by decide : ¬ 3 ≤ 2), fun _ => rfl⟩
    · exact ⟨⟨rfl, rfl⟩, rfl, fun _ => profileMarker_append σ.serving.afterFinalize profile,
        fun h => absurd ⟨rfl, Nat.le_add_left 3 n, (), _, rfl⟩ h⟩
  | reconcileDagster partition =>
    rcases n with _ | _ | n
    · exact ⟨⟨rfl, rfl⟩, rfl, fun h => absurd h.1 Bool.false_ne_true, fun _ => rfl⟩
    · exact ⟨⟨rfl, rfl⟩, rfl, fun h => absurd h.1 Bool.false_ne_true, fun _ => rfl⟩
    · exact ⟨⟨rfl, rfl⟩, rfl, fun h => absurd h.1 Bool.false_ne_true, fun _ => rfl⟩
  | replay => cases hl

/-- What a step may do: leave the served rows and the marker, leave no marker, or leave its
own over a complete load. -/
def StepOutcome (profile : String) (σ σ' : System) : Prop :=
  ServesAlike σ'.serving σ.serving ∧ σ'.serving.profileMarker = σ.serving.profileMarker ∨
    σ'.serving.profileMarker = none ∨
    σ'.serving.profileMarker = some profile ∧ ServesAlike σ'.serving σ'.lake.completeLoad

private theorem StepOutcome.of_serving (h : σ'.serving = σ.serving) : StepOutcome profile σ σ' := by
  rw [StepOutcome, h]
  exact .inl ⟨.refl _, rfl⟩

variable {step : Step}

/-- Loads leave the marker. -/
theorem profileMarker_of_leaves_materializeLoad (h : (materializeLoad days).Leaves τ σ') :
    σ'.serving.profileMarker = τ.serving.profileMarker :=
  evalMeta_of_leaves_materializeLoad
    (P := fun l => finalRow (fun _ => ()) (fun _ => ()) l () = τ.serving.profileMarker) rfl h

private theorem outcome_within_load (hτ : τ.serving = σ.serving) (h : (materializeLoad days).Leaves τ σ')
    (hload : σ.serving.profileMarker = none ∨ NothingNew τ.lake days σ.serving) : StepOutcome profile σ σ' := by
  have hmarker : σ'.serving.profileMarker = σ.serving.profileMarker := by
    rw [profileMarker_of_leaves_materializeLoad h, hτ]
  rcases hload with hnone | hnew
  · exact .inr (.inl (hmarker.trans hnone))
  · rw [← hτ] at hnew
    have halike := hnew.servesAlike h
    rw [hτ] at halike
    exact .inl ⟨halike, hmarker⟩

private theorem outcome_after_load {υ : System} (hl : command.landing bucketOf = some landing)
    (hτ : τ.serving = σ.serving)
    (hends : (materializeLoad days).Ends τ () υ)
    (hload : σ.serving.profileMarker = none ∨ NothingNew τ.lake days σ.serving ∨ ServesRest τ.lake days σ.serving ∧
      (σ.serving.profileMarker = some profile ∨ command.marks = true ∧ (command.closing profile).Finishes n υ))
    (hmark : command.marks = true → (command.closing profile).Finishes n υ → ServesRest τ.lake days σ.serving) :
    StepOutcome profile σ ((command.closing profile).stoppedAfter n υ) := by
  obtain ⟨⟨hexposures, hrows⟩, hlake, hmarked, hunmarked⟩ := stoppedAfter_closing profile hl υ n
  have hclosed := ServesAlike.of_tables hexposures hrows
  have hcomplete (hrest : ServesRest τ.lake days σ.serving) : ServesAlike
      ((command.closing profile).stoppedAfter n υ).serving
      ((command.closing profile).stoppedAfter n υ).lake.completeLoad := by
    have hυ : υ = { τ with serving := τ.serving.afterLoad τ.lake days } := (ends_materializeLoad.mp hends).2
    rw [hlake]
    rw [← hτ] at hrest
    rw [hυ] at hclosed ⊢
    exact hclosed.trans (servesRest_iff.mp hrest)
  by_cases hdone : command.marks = true ∧ (command.closing profile).Finishes n υ
  · exact .inr (.inr ⟨hmarked hdone, hcomplete (hmark hdone.1 hdone.2)⟩)
  · have hmarker : ((command.closing profile).stoppedAfter n υ).serving.profileMarker =
        σ.serving.profileMarker := by
      rw [hunmarked hdone, profileMarker_of_leaves_materializeLoad hends.leaves, hτ]
    rcases hload with hnone | hnew | ⟨hrest, hown | hown⟩
    · exact .inr (.inl (hmarker.trans hnone))
    · rw [← hτ] at hnew
      have halike := hclosed.trans (hnew.servesAlike hends.leaves)
      rw [hτ] at halike
      exact .inl ⟨halike, hmarker⟩
    · exact .inr (.inr ⟨hmarker.trans hown, hcomplete hrest⟩)
    · exact absurd hown hdone

/-- A driver with a load, run where it fits. -/
theorem outcome_of_landing (hl : step.command.landing bucketOf = some landing) (hfits : step.Fits bucketOf σ) :
    StepOutcome step.profile σ ((step.command.script bucketOf step.profile).stoppedAfter step.stop σ) := by
  have hscript := script_eq step.profile hl
  have hland (τ : System) (h : landing.Leaves σ τ) : τ.serving = σ.serving := keeps_landing hl σ τ rfl h
  rcases Nat.le_total step.stop (landing.writeCount σ) with hn | hn
  · rw [hscript, stoppedAfter_bind_of_le hn]
    exact .of_serving (hland _ (leaves_stoppedAfter _ _ _))
  obtain ⟨m, hm⟩ := Nat.exists_eq_add_of_le hn
  rcases ends_or_fails landing σ with ⟨days, τ, hτ⟩ | ⟨e, τ, hτ⟩
  case inr =>
    rw [hscript, stoppedAfter_bind_of_fails hτ]
    exact .of_serving (hland _ (leaves_stoppedAfter _ _ _))
  have hserving : τ.serving = σ.serving := hland τ hτ.leaves
  have hstate : (step.command.script bucketOf step.profile).stoppedAfter step.stop σ =
      ((materializeLoad days).bind fun _ => step.command.closing step.profile).stoppedAfter m τ := by
    rw [hscript, hm, stoppedAfter_bind_of_ends hτ]
  rw [hstate]
  by_cases hknown : ∀ d ∈ days, dayPartitions d = true
  case neg =>
    -- the load refuses the days before it writes
    have hne : days ≠ [] := fun h => hknown (h ▸ nofun)
    rw [materializeLoad_eq, if_neg hne, if_neg hknown]
    exact .of_serving hserving
  rcases Nat.eq_zero_or_pos m with rfl | hpos
  · rw [stoppedAfter_zero]
    exact .of_serving hserving
  have hloading := (hfits.loading landing days τ hl hτ hknown).resolve_left (by omega)
  rcases Nat.lt_or_ge m ((materializeLoad days).writeCount τ) with hlt | hge
  · rw [stoppedAfter_bind_of_le hlt.le]
    refine outcome_within_load hserving (leaves_stoppedAfter _ _ _) (hloading.imp_right fun h => ?_)
    exact h.resolve_right fun h => absurd h.1 (by omega)
  · obtain ⟨υ, hends⟩ : ∃ υ, (materializeLoad days).Ends τ () υ := ⟨_, ends_materializeLoad.mpr ⟨hknown, rfl⟩⟩
    obtain ⟨k, hk⟩ := Nat.exists_eq_add_of_le hge
    have hfinishes : (step.command.script bucketOf step.profile).Finishes step.stop σ ↔
        (step.command.closing step.profile).Finishes k υ := by
      rw [hscript, hm, finishes_bind_of_ends hτ, hk, finishes_bind_of_ends hends]
    rw [hk, stoppedAfter_bind_of_ends hends]
    rw [hfinishes] at hloading
    apply outcome_after_load hl hserving hends
    · exact hloading.imp_right fun h => h.imp_right And.right
    · intro hmarks hdone
      exact hfits.marking landing days τ hl hτ hmarks (hfinishes.mpr hdone)

theorem replayServing_eq (profile : String) : replayServing profile = Script.read fun σ =>
    if σ.lake.days = [] then Script.fail .emptyLake
    else if ∀ d ∈ σ.lake.days, dayPartitions d = true then
      (truncateAndReload σ.lake.days).bind fun _ => writeMarker profile
    else Script.fail (.unknownPartition (sortedSet (σ.lake.days.filter fun d => !dayPartitions d))) := by
  change Script.read _ = Script.read _
  congr 1
  funext σ
  by_cases hne : σ.lake.days = []
  · rw [if_pos hne]
    exact if_pos hne
  by_cases hknown : ∀ d ∈ σ.lake.days, dayPartitions d = true
  · rw [if_neg hne, if_pos hknown]
    simp only [Script.bind, if_neg hne, unknown_eq_nil_iff.mpr hknown, ne_eq, not_true_eq_false, if_false]
    rfl
  · rw [if_neg hne, if_neg hknown]
    simp only [Script.bind, if_neg hne, ne_eq, if_pos (mt unknown_eq_nil_iff.mp hknown)]
    rfl

/-- The truncates once that of the marker is done, and the load. -/
def reloadUnmarked (days : List Int) : SystemScript Unit := do
  forEach [ServingTable.campaignHourly, .rollupDirty, .rollupRefreshed] fun table =>
    onServing (Script.modify fun s => truncate s table)
  materializeLoad days

private theorem keeps_unmarked_reload (days : List Int) :
    (reloadUnmarked days).Keeps fun σ => σ.serving.evalMeta = [] := by
  have htruncate (table : ServingTable) :
      (onServing (Script.modify fun s => truncate s table)).Keeps fun σ => σ.serving.evalMeta = [] := by
    apply keeps_modify
    intro σ hσ
    cases table with
    | evalMeta => rfl
    | _ => exact hσ
  refine keeps_bind' (keeps_forEach fun table _ => htruncate table) fun _ => ?_
  intro σ τ hσ h
  exact evalMeta_of_leaves_materializeLoad (P := fun l => l = []) hσ h

/-- The tables under a completed reload are those of a complete load. -/
theorem servesAlike_of_reloadUnmarked {υ : System} (he : σ.serving.exposuresLanded = [])
    (hr : σ.serving.attributedConversions = []) (h : (reloadUnmarked σ.lake.days).Ends σ () υ) :
    ServesAlike υ.serving υ.lake.completeLoad := by
  obtain ⟨_, τ, hτ, h⟩ := ends_bind'.mp h
  have hsame : τ.lake = σ.lake ∧ τ.serving.exposuresLanded = σ.serving.exposuresLanded ∧
      τ.serving.attributedConversions = σ.serving.attributedConversions := by
    have htruncate (table : ServingTable) (σ τ : System) :
        (onServing (Script.modify fun s => truncate s table)).Ends σ () τ ↔
          τ = { σ with serving := truncate σ.serving table } := by
      simp [ends_onServing]
    rw [ends_forEach htruncate] at hτ
    rw [hτ]
    exact ⟨rfl, rfl, rfl⟩
  obtain ⟨_, rfl⟩ := ends_materializeLoad.mp h
  apply ServesAlike.of_tables
  · rw [Lake.completeLoad, hsame.1, exposuresLanded_afterLoad, exposuresLanded_afterLoad, hsame.2.1, he]
    rfl
  · rw [Lake.completeLoad, hsame.1, attributedConversions_afterLoad, attributedConversions_afterLoad, hsame.2.2, hr]
    rfl

/-- A replay past the truncate of the marker: no marker until the tables are loaded. -/
theorem outcome_past_marker {τ : System} (n : Nat) (hlake : τ.lake = σ.lake) (he : τ.serving.exposuresLanded = [])
    (hr : τ.serving.attributedConversions = []) (hnil : τ.serving.evalMeta = []) : StepOutcome profile σ
      (((reloadUnmarked σ.lake.days).bind fun _ => writeMarker profile).stoppedAfter n τ) := by
  rcases stoppedAfter_bind (reloadUnmarked σ.lake.days) (fun _ => writeMarker profile) n τ with
    h | ⟨_, υ, m, hends, _, h⟩
  · rw [h]
    exact .inr (.inl (profileMarker_of_nil (keeps_unmarked_reload _ τ _ hnil (leaves_stoppedAfter _ _ _))))
  · rw [h]
    rcases m with _ | m
    · exact .inr (.inl (profileMarker_of_nil (keeps_unmarked_reload _ τ υ hnil hends.leaves)))
    · rw [← hlake] at hends
      have halike : ServesAlike υ.serving υ.lake.completeLoad := servesAlike_of_reloadUnmarked he hr hends
      exact .inr (.inr ⟨profileMarker_append υ.serving profile, halike.exposures, halike.rows⟩)

/-- A replay, run where it fits. -/
theorem outcome_of_replay (hc : step.command = .replay) (hfits : step.Fits bucketOf σ) :
    StepOutcome step.profile σ ((step.command.script bucketOf step.profile).stoppedAfter step.stop σ) := by
  have hscript : step.command.script bucketOf step.profile = replayServing step.profile := by rw [hc]; rfl
  rw [hscript, replayServing_eq, stoppedAfter]
  by_cases hne : σ.lake.days = []
  · rw [if_pos hne]
    exact .of_serving rfl
  by_cases hknown : ∀ d ∈ σ.lake.days, dayPartitions d = true
  case neg =>
    rw [if_neg hne, if_neg hknown]
    exact .of_serving rfl
  rw [if_neg hne, if_pos hknown, truncateAndReload_eq, if_neg hne]
  have hstop := hfits.truncating hc hne hknown
  rcases hn : step.stop with _ | _ | _ | n
  · exact .of_serving rfl
  · rw [hn] at hstop
    rcases hstop with hnone | h | h | ⟨he, _⟩
    · exact .inr (.inl hnone)
    · cases h
    · omega
    · exact .inl ⟨.of_tables he.symm rfl, rfl⟩
  · rw [hn] at hstop
    rcases hstop with hnone | h | h | ⟨he, h | hr⟩
    · exact .inr (.inl hnone)
    · cases h
    · omega
    · cases h
    · exact .inl ⟨.of_tables he.symm hr.symm, rfl⟩
  · exact outcome_past_marker (τ := { σ with serving := { σ.serving with
      exposuresLanded := [], attributedConversions := [], evalMeta := [] } }) n rfl rfl rfl rfl

/-- Every step that fits has its outcome. -/
theorem outcome_of_fits (hfits : step.Fits bucketOf σ) :
    StepOutcome step.profile σ ((step.command.script bucketOf step.profile).stoppedAfter step.stop σ) := by
  cases hl : step.command.landing bucketOf with
  | some landing => exact outcome_of_landing hl hfits
  | none =>
    have hreplay : step.command = .replay := by
      cases hc : step.command with
      | replay => rfl
      | _ =>
        rw [hc] at hl
        cases hl
    exact outcome_of_replay hreplay hfits

end steps

end CtvAttribution
