import CtvAttribution.Library.Fallible
import CtvAttribution.RollupKeys

/-! Money through `toDecimal64(toString(x), 4)`. The columns of the serving tables hold the
decimals their texts show, counted in `unit`-th parts of 10⁻⁴; with a large unit every decimal
is one, and an infinite amount is one that is out of range. The refresh cuts each amount to
10⁻⁴ before it adds, and raises on one that is no Decimal64(4). -/
namespace CtvAttribution.Checked
open Library Script

/-- `toDecimal64(toString(x), 4)`: digits after the fourth are dropped, 10¹⁴ and more raise. -/
def toDecimal64 (unit amount : Nat) : Except Failure Money :=
  if amount / unit < 10 ^ 18 then .ok (amount / unit) else .error .decimalOverflow

/-- The amounts of a row of the union. -/
def decimals (unit : Nat) (c : Contribution) : Except Failure Contribution := do
  let spend ← toDecimal64 unit c.spend
  let rev ← toDecimal64 unit c.rev
  return { c with spend, rev }

/-- `refresh_sql`, which raises on an amount out of range. -/
def refreshRows (unit : Nat) (keys : Option (List RollupKey)) (exposures : List Exposure)
    (attributed : List AttributedConversion) : Except Failure (List RollupRow) := do
  let rows ← (contributions (dirtyExposures keys exposures) attributed).mapM (decimals unit)
  return aggregate rows

/-- `refresh_campaign_hourly`: nothing is written when the insert raises. -/
def refreshCampaignHourly (unit : Nat) : ServingScript := do
  let s ← Script.get
  if s.dirtyKeys = [] then return ()
  let rows ← Script.ofExcept
    (refreshRows unit (some (s.dirtyKeys.map RollupStamp.key)) s.exposuresFinal s.attributedFinal)
  Script.modify fun t => { t with campaignHourly := t.campaignHourly ++ rows }
  Script.modify fun t => t.stampRefreshed s.dirtyKeys

/-- `materialize_load`. -/
def materializeLoad (unit : Nat) (days : List Int) : SystemScript Unit := do
  if days = [] then return ()
  let unknown := sortedSet (days.filter fun d => !dayPartitions d)
  if unknown ≠ [] then Script.fail (.unknownPartition unknown)
  Script.forEach (sortedSet days) loadDay
  onServing (refreshCampaignHourly unit)

/-- `truncate_and_reload`. -/
def truncateAndReload (unit : Nat) (days : List Int) : SystemScript Unit := do
  if days = [] then Script.fail .emptyLake
  Script.forEach servingTables fun table => onServing (Script.modify fun s => truncate s table)
  materializeLoad unit days

/-- The amounts of some exposures and of the credits to them are in range. -/
structure MoneyFits (unit : Nat) (exposures : List Exposure) (attributed : List AttributedConversion) : Prop where
  spends : ∀ e ∈ exposures, e.spend / unit < 10 ^ 18
  revenues : ∀ c ∈ credits exposures attributed, c.1.revenue / unit < 10 ^ 18

/-- An exposure with its amount cut to 10⁻⁴. -/
def cutExposure (unit : Nat) (e : Exposure) : Exposure := { e with spend := e.spend / unit }

def cutConversion (unit : Nat) (c : ResolvedConversion) : ResolvedConversion := { c with revenue := c.revenue / unit }

def cutRow (unit : Nat) (r : AttributedConversion) : AttributedConversion :=
  { r with toResolvedConversion := cutConversion unit r.toResolvedConversion }

def cutContribution (unit : Nat) (c : Contribution) : Contribution := { c with spend := c.spend / unit, rev := c.rev / unit }

/-- The landed tables with their amounts cut. -/
def cutTables (unit : Nat) (s : Serving) : Serving :=
  { s with
    exposuresLanded := s.exposuresLanded.map (cutExposure unit)
    attributedConversions := s.attributedConversions.map (cutRow unit) }

section rows
variable {unit : Nat} {exposures : List Exposure} {attributed : List AttributedConversion}

theorem credits_cut : credits (exposures.map (cutExposure unit)) (attributed.map (cutRow unit)) =
    (credits exposures attributed).map fun c => (cutRow unit c.1, cutExposure unit c.2) := by
  rw [credits, credits, List.filter_map, List.flatMap_map, List.map_flatMap]
  apply List.flatMap_congr
  intro a _
  rw [List.filter_map, List.map_map, List.map_map]
  rfl

private theorem contributions_cut : contributions (exposures.map (cutExposure unit)) (attributed.map (cutRow unit)) =
    (contributions exposures attributed).map (cutContribution unit) := by
  have hzero : (0 : Nat) = 0 / unit := (Nat.zero_div unit).symm
  rw [contributions, contributions, credits_cut, List.map_append, List.map_map, List.map_map, List.map_map,
    List.map_map]
  congr 1 <;> apply List.map_congr_left
  · intro e _
    simp [exposureContribution, cutContribution, cutExposure]
  · intro c _
    simp [creditContribution, cutContribution, cutExposure, cutRow, cutConversion]

theorem MoneyFits.mono {exposures' : List Exposure} {attributed' : List AttributedConversion}
    (h : MoneyFits unit exposures attributed) (he : ∀ e ∈ exposures', e ∈ exposures)
    (hr : ∀ r ∈ attributed', r ∈ attributed) : MoneyFits unit exposures' attributed' where
  spends e hmem := h.spends e (he e hmem)
  revenues c hc := by
    obtain ⟨ha, hatt, hmem, hid⟩ := mem_credits.mp hc
    exact h.revenues c (mem_credits.mpr ⟨hr _ ha, hatt, he _ hmem, hid⟩)

private theorem decimals_eq (c : Contribution) : decimals unit c =
    if c.spend / unit < 10 ^ 18 ∧ c.rev / unit < 10 ^ 18 then .ok (cutContribution unit c)
    else .error .decimalOverflow := by
  unfold decimals toDecimal64
  by_cases hs : c.spend / unit < 10 ^ 18
  · by_cases hr : c.rev / unit < 10 ^ 18
    · rw [if_pos hs, if_pos hr, if_pos ⟨hs, hr⟩]
      rfl
    · have hboth : ¬ (c.spend / unit < 10 ^ 18 ∧ c.rev / unit < 10 ^ 18) := fun h => hr h.2
      rw [if_pos hs, if_neg hr, if_neg hboth]
      rfl
  · have hboth : ¬ (c.spend / unit < 10 ^ 18 ∧ c.rev / unit < 10 ^ 18) := fun h => hs h.1
    rw [if_neg hs, if_neg hboth]
    rfl

private theorem forall_contributions_iff : (∀ c ∈ contributions exposures attributed,
    c.spend / unit < 10 ^ 18 ∧ c.rev / unit < 10 ^ 18) ↔ MoneyFits unit exposures attributed := by
  have hzero : 0 / unit < 10 ^ 18 := by
    rw [Nat.zero_div]
    decide
  constructor
  · intro h
    exact ⟨fun e he => (h _ (mem_contributions.mpr (.inl ⟨e, he, rfl⟩))).1,
      fun x hx => (h _ (mem_contributions.mpr (.inr ⟨x, hx, rfl⟩))).2⟩
  · intro h c hc
    rcases mem_contributions.mp hc with ⟨e, he, rfl⟩ | ⟨x, hx, rfl⟩
    · exact ⟨h.spends e he, hzero⟩
    · exact ⟨hzero, h.revenues x hx⟩

private theorem dirtyExposures_cut (keys : Option (List RollupKey)) :
    dirtyExposures keys (exposures.map (cutExposure unit)) =
    (dirtyExposures keys exposures).map (cutExposure unit) := by
  cases keys with
  | none => rfl
  | some ks => exact List.filter_map

/-- The refresh is the exact one of the cut amounts, when each of them is in range. -/
theorem refreshRows_eq_ok_iff {keys : Option (List RollupKey)} {rows : List RollupRow} :
    refreshRows unit keys exposures attributed = .ok rows ↔ MoneyFits unit (dirtyExposures keys exposures) attributed ∧
      rows = CtvAttribution.refreshRows keys (exposures.map (cutExposure unit)) (attributed.map (cutRow unit)) := by
  have hexact : CtvAttribution.refreshRows keys (exposures.map (cutExposure unit)) (attributed.map (cutRow unit)) =
      aggregate ((contributions (dirtyExposures keys exposures) attributed).map (cutContribution unit)) := by
    rw [← contributions_cut, ← dirtyExposures_cut]
    rfl
  rw [refreshRows, mapM_guarded decimals_eq, hexact, ← forall_contributions_iff]
  by_cases h : ∀ c ∈ contributions (dirtyExposures keys exposures) attributed,
      c.spend / unit < 10 ^ 18 ∧ c.rev / unit < 10 ^ 18
  · rw [if_pos h]
    constructor
    · intro hrows
      exact ⟨h, (Except.ok.inj hrows).symm⟩
    · intro hrows
      rw [hrows.2]
      rfl
  · rw [if_neg h]
    constructor
    · intro hrows
      cases hrows
    · intro hrows
      exact absurd hrows.1 h

private theorem refreshRows_eq_error {keys : Option (List RollupKey)} {e : Failure}
    (h : refreshRows unit keys exposures attributed = .error e) :
    ¬ MoneyFits unit (dirtyExposures keys exposures) attributed := by
  intro hfits
  rw [refreshRows_eq_ok_iff.mpr ⟨hfits, rfl⟩] at h
  cases h

end rows

section tables
variable {unit : Nat} {s t : Serving}

theorem exposuresFinal_cut : (cutTables unit s).exposuresFinal = s.exposuresFinal.map (cutExposure unit) := by
  rw [Serving.exposuresFinal, finalRows]
  change collapse _ _ (s.exposuresLanded.map (cutExposure unit)).reverse = _
  rw [← List.map_reverse, collapse_map]
  rfl

private theorem attributedFinal_cut : (cutTables unit s).attributedFinal = s.attributedFinal.map (cutRow unit) := by
  rw [Serving.attributedFinal, finalRows]
  change collapse _ _ (s.attributedConversions.map (cutRow unit)).reverse = _
  rw [← List.map_reverse, collapse_map]
  rfl

/-- The amounts the incremental refresh converts are in range. -/
def RefreshFits (unit : Nat) (s : Serving) : Prop :=
  MoneyFits unit (dirtyExposures (some (s.dirtyKeys.map RollupStamp.key)) s.exposuresFinal) s.attributedFinal

/-- `refresh_campaign_hourly`, completed. -/
def afterRefresh (unit : Nat) (s : Serving) : Serving :=
  { s with
    campaignHourly := (cutTables unit s).afterRefresh.campaignHourly
    rollupRefreshed := (cutTables unit s).afterRefresh.rollupRefreshed }

theorem exposuresFinal_afterRefresh : (afterRefresh unit s).exposuresFinal = s.exposuresFinal := rfl

theorem attributedFinal_afterRefresh : (afterRefresh unit s).attributedFinal = s.attributedFinal := rfl

theorem cutTables_afterRefresh : cutTables unit (afterRefresh unit s) = (cutTables unit s).afterRefresh := by
  unfold afterRefresh Serving.afterRefresh cutTables
  split <;> rfl

theorem refreshFits_of_fits (h : MoneyFits unit s.exposuresFinal s.attributedFinal) : RefreshFits unit s :=
  h.mono (fun _ he => (List.mem_filter.mp he).1) fun _ hr => hr

private theorem refreshFits_of_clean (h : s.dirtyKeys = []) : RefreshFits unit s := by
  have hnone : dirtyExposures (some (s.dirtyKeys.map RollupStamp.key)) s.exposuresFinal = [] := by
    rw [h]
    exact List.filter_eq_nil_iff.mpr fun _ _ => by simp
  rw [RefreshFits, hnone]
  exact ⟨nofun, fun c hc => absurd (mem_credits.mp hc).2.2.1 List.not_mem_nil⟩

private theorem run_refresh_clean (h : s.dirtyKeys = []) : (refreshCampaignHourly unit).run s = (s, .ok ()) := by
  change (ite (s.dirtyKeys = []) _ _ : ServingScript).run s = _
  rw [if_pos h]
  rfl

private theorem run_refresh_ok (h : s.dirtyKeys ≠ []) {rows : List RollupRow}
    (hrows : refreshRows unit (some (s.dirtyKeys.map RollupStamp.key)) s.exposuresFinal s.attributedFinal = .ok rows) :
    (refreshCampaignHourly unit).run s =
      (Serving.stampRefreshed { s with campaignHourly := s.campaignHourly ++ rows } s.dirtyKeys, .ok ()) := by
  change (ite (s.dirtyKeys = []) _ _ : ServingScript).run s = _
  rw [if_neg h, hrows]
  rfl

private theorem run_refresh_error (h : s.dirtyKeys ≠ []) {e : Failure}
    (hrows : refreshRows unit (some (s.dirtyKeys.map RollupStamp.key)) s.exposuresFinal s.attributedFinal = .error e) :
    (refreshCampaignHourly unit).run s = (s, .error e) := by
  change (ite (s.dirtyKeys = []) _ _ : ServingScript).run s = _
  rw [if_neg h, hrows]
  rfl

/-- A refresh completes on amounts in range, and has written nothing when it raises. -/
theorem run_refreshCampaignHourly (unit : Nat) (s : Serving) :
    (RefreshFits unit s ∧ (refreshCampaignHourly unit).run s = (afterRefresh unit s, .ok ())) ∨
      (¬ RefreshFits unit s ∧ ∃ e, (refreshCampaignHourly unit).run s = (s, .error e)) := by
  by_cases h : s.dirtyKeys = []
  · have hclean : (cutTables unit s).afterRefresh = cutTables unit s := if_pos h
    refine .inl ⟨refreshFits_of_clean h, ?_⟩
    rw [run_refresh_clean h, afterRefresh, hclean]
    rfl
  cases hrows : refreshRows unit (some (s.dirtyKeys.map RollupStamp.key)) s.exposuresFinal s.attributedFinal with
  | error e => exact .inr ⟨refreshRows_eq_error hrows, e, run_refresh_error h hrows⟩
  | ok rows =>
    obtain ⟨hfits, hexact⟩ := refreshRows_eq_ok_iff.mp hrows
    have hdirty : (cutTables unit s).dirtyKeys ≠ [] := h
    refine .inl ⟨hfits, ?_⟩
    rw [run_refresh_ok h hrows, hexact, afterRefresh, Serving.afterRefresh, if_neg hdirty,
      ← exposuresFinal_cut, ← attributedFinal_cut]
    rfl

theorem ends_refreshCampaignHourly {u : Unit} :
    (refreshCampaignHourly unit).Ends s u t ↔ RefreshFits unit s ∧ t = afterRefresh unit s := by
  rw [Ends]
  rcases run_refreshCampaignHourly unit s with ⟨hfits, hrun⟩ | ⟨hfits, e, hrun⟩
  · rw [hrun, Prod.mk.injEq]
    exact ⟨fun h => ⟨hfits, h.1.symm⟩, fun h => ⟨h.2.symm, rfl⟩⟩
  · rw [hrun]
    constructor
    · intro h
      cases (Prod.mk.inj h).2
    · intro h
      exact absurd h.1 hfits

theorem fails_refreshCampaignHourly {e : Failure} (h : (refreshCampaignHourly unit).Fails s e t) :
    ¬ RefreshFits unit s ∧ t = s := by
  rw [Fails] at h
  rcases run_refreshCampaignHourly unit s with ⟨_, hrun⟩ | ⟨hfits, e', hrun⟩
  · rw [hrun] at h
    cases (Prod.mk.inj h).2
  · rw [hrun] at h
    exact ⟨hfits, (Prod.mk.inj h).1.symm⟩

/-- The refresh writes the rollup and its stamps only. -/
theorem keeps_refreshCampaignHourly {I : Serving → Prop}
    (hI : ∀ s hourly refreshed, I s → I { s with campaignHourly := hourly, rollupRefreshed := refreshed }) :
    (refreshCampaignHourly unit).Keeps I := by
  apply keeps_get_bind
  intro s hs t ht
  split at ht
  · rw [leaves_pure.mp ht]
    exact hs
  · refine keeps_bind' (keeps_ofExcept _) (fun _ => ?_) s t hs ht
    exact keeps_bind' (keeps_modify fun s hs => hI s _ _ hs) fun _ => keeps_modify fun s hs => hI s _ _ hs

/-- The rollup is the full rebuild, which the statement can compute. -/
def Rebuilt (unit : Nat) (s : Serving) : Prop :=
  ∃ rows, refreshRows unit none s.exposuresFinal s.attributedFinal = .ok rows ∧
    (s.campaignHourlyFinal.map RollupRow.measures).Perm (rows.map RollupRow.measures)

theorem rebuilt_iff :
    Rebuilt unit s ↔ MoneyFits unit s.exposuresFinal s.attributedFinal ∧ (cutTables unit s).Fresh := by
  simp only [Rebuilt, refreshRows_eq_ok_iff, Serving.Fresh, exposuresFinal_cut, attributedFinal_cut]
  constructor
  · intro h
    obtain ⟨rows, ⟨hfits, rfl⟩, hperm⟩ := h
    exact ⟨hfits, hperm⟩
  · intro h
    exact ⟨_, ⟨h.1, rfl⟩, h.2⟩

end tables

section drivers
variable {unit : Nat} {σ σ' : System} {u : Unit} {days : List Int}

theorem materializeLoad_eq (unit : Nat) (days : List Int) : materializeLoad unit days =
    if days = [] then pure ()
    else if ∀ d ∈ days, dayPartitions d = true then do
      Script.forEach (sortedSet days) loadDay
      onServing (refreshCampaignHourly unit)
    else Script.fail (.unknownPartition (sortedSet (days.filter fun d => !dayPartitions d))) := by
  unfold materializeLoad
  by_cases hd : days = []
  · rw [if_pos hd, if_pos hd]
  · by_cases hknown : ∀ d ∈ days, dayPartitions d = true
    · simp only [if_neg hd, if_pos hknown, unknown_eq_nil_iff.mpr hknown, ne_eq, not_true_eq_false, if_false]
    · simp only [if_neg hd, if_neg hknown, ne_eq, if_pos (mt unknown_eq_nil_iff.mp hknown)]
      rfl

theorem truncateAndReload_eq (unit : Nat) (days : List Int) : truncateAndReload unit days =
    if days = [] then Script.fail .emptyLake
    else (do
      Script.forEach servingTables fun table => onServing (Script.modify fun s => truncate s table)
      materializeLoad unit days) := by
  unfold truncateAndReload
  split <;> rfl

/-- A reload completes on amounts in range only. -/
theorem ends_truncateAndReload : (truncateAndReload unit days).Ends σ u σ' ↔
    days ≠ [] ∧ (∀ d ∈ days, dayPartitions d = true) ∧
      RefreshFits unit (σ.serving.emptied.afterDays σ.lake (sortedSet days)) ∧
      σ' = { σ with serving := afterRefresh unit (σ.serving.emptied.afterDays σ.lake (sortedSet days)) } := by
  rw [truncateAndReload_eq]
  by_cases hne : days = []
  · simp [hne]
  rw [if_neg hne, ends_bind', materializeLoad_eq, if_neg hne]
  simp only [ends_truncateTables]
  by_cases hknown : ∀ d ∈ days, dayPartitions d = true
  · simp only [if_pos hknown, ends_bind', ends_forEach fun _ _ _ => ends_loadDay, foldl_afterDay, ends_onServing,
      ends_refreshCampaignHourly]
    constructor
    · intro h
      obtain ⟨_, _, rfl, _, _, rfl, t, ⟨hfits, rfl⟩, rfl⟩ := h
      exact ⟨hne, hknown, hfits, rfl⟩
    · intro h
      obtain ⟨_, _, hfits, rfl⟩ := h
      exact ⟨(), _, rfl, (), _, rfl, _, ⟨hfits, rfl⟩, rfl⟩
  · simp only [if_neg hknown, ends_fail]
    constructor
    · intro h
      obtain ⟨_, _, _, h⟩ := h
      exact h.elim
    · intro h
      exact absurd h.2.1 hknown

end drivers
end CtvAttribution.Checked
