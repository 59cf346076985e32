import CtvAttribution.CurrentRows
import CtvAttribution.LastTouch
import CtvAttribution.Reconcile

/-! The matcher in closed form: each candidate is corrected to the most recent exposure of
any of its households, whichever way the exposures were gathered. -/
namespace CtvAttribution
open Library

/-- The households over which a candidate row is scored. -/
def householdsOfRow (r : AttributedConversion) : List String :=
  if r.candidateCount > 1 then r.candidateHouseholds else [r.householdId]

/-- The record of a candidate row in one of its households. -/
def recordIn (r : AttributedConversion) (h : String) : ResolvedConversion :=
  { r.toResolvedConversion with householdId := h }

def expandRow (r : AttributedConversion) : List ResolvedConversion := (householdsOfRow r).map (recordIn r)

/-- Exposures of any of the row's households within the window. -/
def creditable (exposures : List Exposure) (r : AttributedConversion) (window : Int) : List Exposure :=
  (eligible exposures r.toResolvedConversion window).filter (·.householdId ∈ householdsOfRow r)

/-- The most recent of them. -/
def bestExposure (exposures : List Exposure) (r : AttributedConversion) (window : Int) : Option Exposure :=
  (creditable exposures r window).argmax recency

def ofHousehold (exposures : List Exposure) (h : String) : List Exposure :=
  exposures.filter (·.householdId = h)

/-- The row that credits `w`. -/
def correctedRow (exposures : List Exposure) (window reconciledAt : Int) (r : AttributedConversion)
    (w : Exposure) (h : CandidateSetMatchesCount r.candidateCount w.householdId r.candidateHouseholds) :
    AttributedConversion :=
  { decidedRow (recordIn r w.householdId) (some w)
      (assistsOf (ofHousehold exposures w.householdId) (recordIn r w.householdId) window)
      r.candidateHouseholds h with path := .reconciled, processedAt := reconciledAt }

/-- The correction of a candidate row, if any of its households was exposed. -/
def correction (exposures : List Exposure) (window reconciledAt : Int) (r : AttributedConversion) :
    Option AttributedConversion := do
  let w ← bestExposure exposures r window
  if h : CandidateSetMatchesCount r.candidateCount w.householdId r.candidateHouseholds then
    some (correctedRow exposures window reconciledAt r w h)
  else none

section row
variable {exposures : List Exposure} {r x : AttributedConversion} {window reconciledAt : Int}

theorem mem_creditable {e : Exposure} : e ∈ creditable exposures r window ↔
    e ∈ eligible exposures r.toResolvedConversion window ∧ e.householdId ∈ householdsOfRow r := by
  rw [creditable, List.mem_filter, decide_eq_true_eq]

theorem mem_eligible_ofHousehold {e : Exposure} {h : String} {c : ResolvedConversion} :
    e ∈ eligible (ofHousehold exposures h) c window ↔ e ∈ eligible exposures c window ∧ e.householdId = h := by
  simp only [mem_eligible, ofHousehold, List.mem_filter, decide_eq_true_eq]
  constructor
  · intro h
    obtain ⟨⟨he, hh⟩, hwin⟩ := h
    exact ⟨⟨he, hwin⟩, hh⟩
  · intro h
    obtain ⟨⟨he, hwin⟩, hh⟩ := h
    exact ⟨⟨he, hh⟩, hwin⟩

/-- Every household of a row goes with its candidate set. -/
theorem householdsOfRow_matches {h : String} (hh : h ∈ householdsOfRow r) :
    CandidateSetMatchesCount r.candidateCount h r.candidateHouseholds := by
  have hpos := r.candidateCount_pos
  unfold householdsOfRow at hh
  split at hh
  · rename_i hc
    have hm := r.candidateSetMatchesCount
    have hne : r.candidateCount ≠ 1 := by omega
    rw [CandidateSetMatchesCount, if_neg hne] at hm ⊢
    exact ⟨hm.1, hh⟩
  · have hone : r.candidateCount = 1 := by omega
    rw [CandidateSetMatchesCount, if_pos hone]
    exact r.candidateHouseholds_eq_nil_iff.mpr hone

theorem householdsOfRow_ne_nil : householdsOfRow r ≠ [] := by
  unfold householdsOfRow
  split
  · rename_i hc
    exact List.ne_nil_of_mem (r.householdId_mem (by omega))
  · exact List.cons_ne_nil _ _

theorem bestExposure_mem {w : Exposure} (h : bestExposure exposures r window = some w) :
    w ∈ eligible exposures r.toResolvedConversion window ∧ w.householdId ∈ householdsOfRow r :=
  mem_creditable.mp (List.argmax_mem h)

theorem correction_eq_some : correction exposures window reconciledAt r = some x ↔
    ∃ w h, bestExposure exposures r window = some w ∧
      x = correctedRow exposures window reconciledAt r w h := by
  unfold correction
  cases hb : bestExposure exposures r window with
  | none => simp
  | some w =>
    have hm := householdsOfRow_matches (bestExposure_mem hb).2
    simp [hm, eq_comm]

theorem correction_eq_none :
    correction exposures window reconciledAt r = none ↔ bestExposure exposures r window = none := by
  unfold correction
  cases hb : bestExposure exposures r window with
  | none => simp
  | some w =>
    have hm := householdsOfRow_matches (bestExposure_mem hb).2
    simp [hm]

/-- Some exposure of one of the row's households lies in its window. -/
def Recoverable (exposures : List Exposure) (window : Int) (r : AttributedConversion) : Prop :=
  ∃ e ∈ exposures, e.householdId ∈ householdsOfRow r ∧ r.eventTime - window ≤ e.eventTime ∧
    e.eventTime ≤ r.eventTime

instance (exposures : List Exposure) (window : Int) (r : AttributedConversion) :
    Decidable (Recoverable exposures window r) := by
  unfold Recoverable
  exact inferInstance

/-- Exactly the recoverable rows have a correction. -/
theorem exists_correction_iff :
    (∃ x, correction exposures window reconciledAt r = some x) ↔ Recoverable exposures window r := by
  rw [← Option.isSome_iff_exists, Option.isSome_iff_ne_none, ne_eq, correction_eq_none, bestExposure,
    List.argmax_eq_none, List.eq_nil_iff_forall_not_mem]
  simp only [mem_creditable, mem_eligible, not_forall, not_not, Recoverable]
  constructor
  · intro ⟨e, ⟨he, hwin⟩, hh⟩
    exact ⟨e, he, hh, hwin⟩
  · intro ⟨e, he, hh, hwin⟩
    exact ⟨e, ⟨he, hwin⟩, hh⟩

/-- What every correction carries over from its candidate. -/
theorem correction_fields (h : correction exposures window reconciledAt r = some x) :
    x.toConversion = r.toConversion ∧ x.path = .reconciled ∧ x.processedAt = reconciledAt ∧
      x.attributed = true := by
  obtain ⟨w, hm, _, rfl⟩ := correction_eq_some.mp h
  exact ⟨rfl, rfl, rfl, rfl⟩

/-- The leaf's score of one household of a row. -/
def scoreIn (exposures : List Exposure) (window : Int) (r : AttributedConversion) (h : String)
    (hm : CandidateSetMatchesCount r.candidateCount h r.candidateHouseholds) : Candidate :=
  ⟨decidedRow (recordIn r h) (creditedExposure (ofHousehold exposures h) (recordIn r h) window)
      (assistsOf (ofHousehold exposures h) (recordIn r h) window) r.candidateHouseholds hm,
    (creditedExposure (ofHousehold exposures h) (recordIn r h) window).map Exposure.eventTime⟩

/-- A gathering of exposures is as good as all of them when it holds the eligible ones. -/
def Gathers (exposures : List Exposure) (window : Int) (r : AttributedConversion)
    (exposuresOf : String → List Exposure) : Prop :=
  ∀ h ∈ householdsOfRow r, ∀ e, e ∈ eligible (exposuresOf h) r.toResolvedConversion window ↔
    e ∈ eligible (ofHousehold exposures h) r.toResolvedConversion window

variable {exposuresOf : String → List Exposure}

private theorem lastTouch_recordIn (hk : Keyed Exposure.exposureId exposures)
    (hg : Gathers exposures window r exposuresOf) {h : String} (hh : h ∈ householdsOfRow r) :
    lastTouch (exposuresOf h) (recordIn r h) window r.candidateHouseholds =
      .ok (scoreIn exposures window r h (householdsOfRow_matches hh)) := by
  have hkh : Keyed Exposure.exposureId (ofHousehold exposures h) :=
    hk.mono fun e he => (List.mem_filter.mp he).1
  have hel (e : Exposure) : e ∈ eligible (ofHousehold exposures h) (recordIn r h) window ↔
      e ∈ eligible (exposuresOf h) (recordIn r h) window := (hg h hh e).symm
  have hm : CandidateSetMatchesCount (recordIn r h).candidateCount (recordIn r h).householdId
      r.candidateHouseholds := householdsOfRow_matches hh
  rw [← lastTouch_congr hkh hel]
  exact lastTouch_eq hm

private theorem touchRecency_scoreIn {h : String} {v : Exposure}
    (hm : CandidateSetMatchesCount r.candidateCount h r.candidateHouseholds)
    (hv : creditedExposure (ofHousehold exposures h) (recordIn r h) window = some v) :
    touchRecency (scoreIn exposures window r h hm) = toLex (v.eventTime, toLex (v.exposureId, h)) := by
  simp only [touchRecency, scoreIn, hv]
  rfl

/-- The household of the best exposure scores it. -/
theorem creditedExposure_best (hk : Keyed Exposure.exposureId exposures) {w : Exposure}
    (hb : bestExposure exposures r window = some w) :
    creditedExposure (ofHousehold exposures w.householdId) (recordIn r w.householdId) window = some w := by
  have hkh : Keyed Exposure.exposureId (ofHousehold exposures w.householdId) :=
    hk.mono fun e he => (List.mem_filter.mp he).1
  obtain ⟨hel, hh⟩ := bestExposure_mem hb
  rw [creditedExposure_eq_some hkh]
  refine ⟨mem_eligible_ofHousehold.mpr ⟨hel, rfl⟩, fun e he => ?_⟩
  obtain ⟨he, heh⟩ := mem_eligible_ofHousehold.mp he
  exact List.le_of_mem_argmax (mem_creditable.mpr ⟨he, heh ▸ hh⟩) hb

/-- Any other household's credit is less recent. -/
theorem touchRecency_le_best (hk : Keyed Exposure.exposureId exposures) {w v : Exposure} {h : String}
    (hb : bestExposure exposures r window = some w) (hh : h ∈ householdsOfRow r)
    (hv : creditedExposure (ofHousehold exposures h) (recordIn r h) window = some v) :
    touchRecency (scoreIn exposures window r h (householdsOfRow_matches hh)) ≤
      touchRecency (scoreIn exposures window r w.householdId
        (householdsOfRow_matches (bestExposure_mem hb).2)) := by
  have hw := creditedExposure_best hk hb
  obtain ⟨hvel, hvh⟩ := mem_eligible_ofHousehold.mp (creditedExposure_mem hv)
  have hle : recency v ≤ recency w :=
    List.le_of_mem_argmax (mem_creditable.mpr ⟨hvel, hvh ▸ hh⟩) hb
  rw [touchRecency_scoreIn _ hv, touchRecency_scoreIn _ hw]
  rcases hle.lt_or_eq with hlt | he
  · apply le_of_lt
    rcases Prod.Lex.toLex_lt_toLex.mp hlt with ht | ⟨ht, hid⟩
    · exact Prod.Lex.toLex_lt_toLex.mpr (Or.inl ht)
    · exact Prod.Lex.toLex_lt_toLex.mpr (Or.inr ⟨ht, Prod.Lex.toLex_lt_toLex.mpr (Or.inl hid)⟩)
  · have hvw : v = w := keyed_recency hk v (mem_eligible.mp hvel).1 w
      (mem_eligible.mp (bestExposure_mem hb).1).1 he
    rw [← hvw, ← hvh]

/-- The candidates the matcher scores for a row, its records in any order. -/
theorem exists_scored (hk : Keyed Exposure.exposureId exposures)
    (hg : Gathers exposures window r exposuresOf) {group : List ResolvedConversion}
    (hp : group.Perm (expandRow r)) :
    ∃ scored, group.mapM (fun c => lastTouch (exposuresOf c.householdId) c window
        r.candidateHouseholds) = .ok scored ∧
      ∀ cand, cand ∈ scored ↔ ∃ h, ∃ hh : h ∈ householdsOfRow r,
        cand = scoreIn exposures window r h (householdsOfRow_matches hh) := by
  have hok : ∀ c ∈ group, ∃ cand,
      lastTouch (exposuresOf c.householdId) c window r.candidateHouseholds = .ok cand := by
    intro c hc
    obtain ⟨h, hh, rfl⟩ := List.mem_map.mp (hp.mem_iff.mp hc)
    exact ⟨_, lastTouch_recordIn hk hg hh⟩
  obtain ⟨scored, hscored⟩ := exists_mapM_eq_ok hok
  refine ⟨scored, hscored, fun cand => ?_⟩
  rw [mem_of_mapM_eq_ok hscored]
  constructor
  · intro ⟨c, hc, he⟩
    obtain ⟨h, hh, rfl⟩ := List.mem_map.mp (hp.mem_iff.mp hc)
    exact ⟨h, hh, Except.ok.inj (he.symm.trans (lastTouch_recordIn hk hg hh))⟩
  · intro ⟨h, hh, he⟩
    subst he
    exact ⟨_, hp.mem_iff.mpr (List.mem_map_of_mem hh), lastTouch_recordIn hk hg hh⟩

/-- An attributed score names the household it was taken in. -/
theorem scoreIn_attributed {h : String}
    (hm : CandidateSetMatchesCount r.candidateCount h r.candidateHouseholds) :
    (scoreIn exposures window r h hm).row.attributed = true ↔
      ∃ v, creditedExposure (ofHousehold exposures h) (recordIn r h) window = some v :=
  Option.isSome_iff_exists

/-- The reduction picks the household of the best exposure. -/
theorem pickHousehold_eq (hk : Keyed Exposure.exposureId exposures) {scored : List Candidate}
    (hmem : ∀ cand, cand ∈ scored ↔ ∃ h, ∃ hh : h ∈ householdsOfRow r,
      cand = scoreIn exposures window r h (householdsOfRow_matches hh))
    {w : Exposure} (hb : bestExposure exposures r window = some w) :
    pickHousehold scored = some (scoreIn exposures window r w.householdId
      (householdsOfRow_matches (bestExposure_mem hb).2)) := by
  have hin {cand : Candidate} : cand ∈ scored.filter (fun c => c.row.attributed) ↔
      ∃ h, ∃ hh : h ∈ householdsOfRow r, ∃ v,
        creditedExposure (ofHousehold exposures h) (recordIn r h) window = some v ∧
          cand = scoreIn exposures window r h (householdsOfRow_matches hh) := by
    rw [List.mem_filter, hmem]
    constructor
    · intro ⟨⟨h, hh, he⟩, hatt⟩
      subst he
      obtain ⟨v, hv⟩ := (scoreIn_attributed _).mp hatt
      exact ⟨h, hh, v, hv, rfl⟩
    · intro ⟨h, hh, v, hv, he⟩
      subst he
      exact ⟨⟨h, hh, rfl⟩, (scoreIn_attributed _).mpr ⟨v, hv⟩⟩
  have hkeyed : Keyed touchRecency (scored.filter fun c => c.row.attributed) := by
    intro x hx y hy he
    obtain ⟨h, hh, v, hv, rfl⟩ := hin.mp hx
    obtain ⟨h', hh', v', hv', rfl⟩ := hin.mp hy
    rw [touchRecency_scoreIn _ hv, touchRecency_scoreIn _ hv'] at he
    have hpair := (Prod.mk.inj (toLex.injective he)).2
    have hhouse : h = h' := (Prod.mk.inj (toLex.injective hpair)).2
    subst hhouse
    rfl
  rw [pickHousehold, argmax_eq_some_of_max hkeyed]
  constructor
  · exact hin.mpr ⟨_, (bestExposure_mem hb).2, w, creditedExposure_best hk hb, rfl⟩
  · intro cand hcand
    obtain ⟨h, hh, v, hv, rfl⟩ := hin.mp hcand
    exact touchRecency_le_best hk hb hh hv

/-- Nothing is picked when no household was exposed. -/
theorem pickHousehold_eq_none {scored : List Candidate}
    (hmem : ∀ cand, cand ∈ scored ↔ ∃ h, ∃ hh : h ∈ householdsOfRow r,
      cand = scoreIn exposures window r h (householdsOfRow_matches hh))
    (hb : bestExposure exposures r window = none) : pickHousehold scored = none := by
  rw [pickHousehold, List.argmax_eq_none, List.filter_eq_nil_iff]
  intro cand hcand hatt
  obtain ⟨h, hh, rfl⟩ := (hmem cand).mp hcand
  obtain ⟨v, hv⟩ := (scoreIn_attributed _).mp hatt
  obtain ⟨hel, hvh⟩ := mem_eligible_ofHousehold.mp (creditedExposure_mem hv)
  have hc : v ∈ creditable exposures r window := mem_creditable.mpr ⟨hel, hvh ▸ hh⟩
  rw [List.argmax_eq_none.mp hb] at hc
  cases hc

private theorem one_lt_of_any_expandRow {group : List ResolvedConversion} (hp : group.Perm (expandRow r))
    (h : group.any (fun c => 1 < c.candidateCount) = true) : 1 < r.candidateCount := by
  obtain ⟨c, hc, hmany⟩ := List.any_eq_true.mp h
  obtain ⟨h, _, rfl⟩ := List.mem_map.mp (hp.mem_iff.mp hc)
  exact of_decide_eq_true hmany

/-- The households scored one by one, then reduced, yield the row's correction. -/
theorem reconcileGroup_eq (hk : Keyed Exposure.exposureId exposures)
    (hg : Gathers exposures window r exposuresOf) {group : List ResolvedConversion}
    (hp : group.Perm (expandRow r)) :
    reconcileGroup exposuresOf window reconciledAt r.candidateHouseholds r.conversionId group =
      .ok (correction exposures window reconciledAt r) := by
  have hexpanded : ¬ (group.length = 1 ∧ group.any (fun c => 1 < c.candidateCount) = true) := by
    intro ⟨hlen, hany⟩
    have hmany := one_lt_of_any_expandRow hp hany
    rw [hp.length_eq, expandRow, List.length_map, householdsOfRow, if_pos hmany,
      r.length_candidateHouseholds (by omega)] at hlen
    omega
  obtain ⟨scored, hscored, hmem⟩ := exists_scored hk hg hp
  rw [reconcileGroup, if_neg hexpanded]
  simp only [hscored, bind, Except.bind, pure, Except.pure]
  congr 1
  cases hb : bestExposure exposures r window with
  | none =>
    rw [correction_eq_none.mpr hb, pickHousehold_eq_none hmem hb]
    rfl
  | some w =>
    rw [pickHousehold_eq hk hmem hb, Option.map_some, eq_comm, correction_eq_some]
    refine ⟨w, householdsOfRow_matches (bestExposure_mem hb).2, hb, ?_⟩
    simp only [scoreIn, correctedRow, creditedExposure_best hk hb]

end row

section expand
variable {exposures : List Exposure} {cands : List AttributedConversion} {window reconciledAt : Int}

theorem expandCandidates_eq : expandCandidates cands = cands.flatMap expandRow := by
  apply List.flatMap_congr
  intro r _
  unfold expandRow householdsOfRow
  split <;> rfl

private theorem conversionId_of_mem_expandRow {r : AttributedConversion} {c : ResolvedConversion}
    (h : c ∈ expandRow r) : c.conversionId = r.conversionId := by
  obtain ⟨_, _, rfl⟩ := List.mem_map.mp h
  rfl

private theorem map_householdId_expandRow (r : AttributedConversion) :
    (expandRow r).map (fun c => c.householdId) = householdsOfRow r := by
  rw [expandRow, List.map_map]
  exact List.map_id _

private theorem expandRow_ne_nil {r : AttributedConversion} : expandRow r ≠ [] := by
  rw [expandRow, ne_eq, List.map_eq_nil_iff]
  exact householdsOfRow_ne_nil

variable (reconciledAt) (hn : (cands.map fun r => r.conversionId).Nodup)
include hn

private theorem filter_expandCandidates {r : AttributedConversion} (hr : r ∈ cands) :
    (expandCandidates cands).filter (·.conversionId = r.conversionId) = expandRow r := by
  rw [expandCandidates_eq]
  exact OrderedDict.filter_flatMap_blocks (fun _ _ _ hb => conversionId_of_mem_expandRow hb) hn hr

variable {expanded : List ResolvedConversion} (hp : expanded.Perm (expandCandidates cands))
include hp

/-- A shuffled explosion still holds the records of each row. -/
theorem filter_perm_expandRow {r : AttributedConversion} (hr : r ∈ cands) :
    (expanded.filter (·.conversionId = r.conversionId)).Perm (expandRow r) := by
  rw [← filter_expandCandidates hn hr]
  exact hp.filter _

/-- The explosion keeps each candidate set. -/
theorem get?_candidates_expand {r : AttributedConversion} (hr : r ∈ cands) :
    ((candidateHouseholdsByConversion expanded).get? r.conversionId).getD [] = r.candidateHouseholds := by
  have hcount {c : ResolvedConversion} (hc : c ∈ expandRow r) : c.candidateCount = r.candidateCount := by
    obtain ⟨_, _, rfl⟩ := List.mem_map.mp hc
    rfl
  have hgroup : ((expanded.filter fun c => 1 < c.candidateCount).filter
      (·.conversionId = r.conversionId)).Perm ((expandRow r).filter fun c => 1 < c.candidateCount) := by
    rw [List.filter_comm]
    exact (filter_perm_expandRow hn hp hr).filter _
  rw [candidateHouseholdsByConversion, OrderedDict.getD_mapValues_groupBy _ _ (by rfl),
    sortedSet_congr fun k => (hgroup.map fun c => c.householdId).mem_iff]
  by_cases hone : r.candidateCount = 1
  · have hnone : (expandRow r).filter (fun c => 1 < c.candidateCount) = [] := by
      rw [List.filter_eq_nil_iff]
      intro c hc
      simp [hcount hc, hone]
    rw [hnone, r.candidateHouseholds_eq_nil_iff.mpr hone]
    rfl
  · have hmany : 1 < r.candidateCount := by
      have := r.candidateCount_pos
      omega
    have hall : (expandRow r).filter (fun c => 1 < c.candidateCount) = expandRow r :=
      List.filter_eq_self.mpr fun c hc => decide_eq_true (hcount hc ▸ hmany)
    rw [hall, map_householdId_expandRow, householdsOfRow, if_pos hmany,
      sortedSet_of_strict r.candidateHouseholds_strict]

variable {ebh : OrderedDict String (List Exposure)} (hk : Keyed Exposure.exposureId exposures)
  (hg : ∀ r ∈ cands, Gathers exposures window r fun h => (ebh.get? h).getD [])
include hk hg

/-- Groups found in the order of some candidates are corrected in that order. -/
theorem reconcile_groups {found : List AttributedConversion} (hfound : ∀ r ∈ found, r ∈ cands)
    (he : (OrderedDict.groupBy (fun c : ResolvedConversion => c.conversionId) expanded).entries =
      found.map fun r => (r.conversionId, expanded.filter (·.conversionId = r.conversionId))) :
    reconcile expanded ebh window reconciledAt =
      .ok (found.filterMap (correction exposures window reconciledAt)) := by
  have hgroups : (found.mapM fun r =>
      reconcileGroup (fun h => (ebh.get? h).getD []) window reconciledAt
        (((candidateHouseholdsByConversion expanded).get? r.conversionId).getD []) r.conversionId
        (expanded.filter (·.conversionId = r.conversionId))) =
        .ok (found.map (correction exposures window reconciledAt)) := by
    rw [mapM_eq_ok_iff, List.forall₂_map_right_iff, List.forall₂_same]
    intro r hr
    rw [get?_candidates_expand hn hp (hfound r hr)]
    exact reconcileGroup_eq hk (hg r (hfound r hr)) (filter_perm_expandRow hn hp (hfound r hr))
  rw [reconcile, he]
  simp only [List.mapM_map, Function.comp_def, hgroups, bind, Except.bind, pure, Except.pure, List.filterMap_map]
  rfl

omit hp in
/-- The matcher corrects its candidates one by one. -/
theorem reconcile_eq : reconcile (expandCandidates cands) ebh window reconciledAt =
    .ok (cands.filterMap (correction exposures window reconciledAt)) := by
  apply reconcile_groups reconciledAt hn (List.Perm.refl _) hk hg (fun _ hr => hr)
  rw [expandCandidates_eq]
  exact OrderedDict.entries_groupBy_flatMap (fun _ _ _ hb => conversionId_of_mem_expandRow hb)
    (fun _ _ => expandRow_ne_nil) hn

/-- Whatever the order of the records, up to the order of the corrections. -/
theorem reconcile_perm : ∃ out, reconcile expanded ebh window reconciledAt = .ok out ∧
    out.Perm (cands.filterMap (correction exposures window reconciledAt)) := by
  rw [expandCandidates_eq] at hp
  obtain ⟨found, hfound, he⟩ := OrderedDict.exists_entries_groupBy_perm
    (fun _ _ _ hb => conversionId_of_mem_expandRow hb) (fun _ _ => expandRow_ne_nil) hn hp
  rw [← expandCandidates_eq] at hp
  exact ⟨_, reconcile_groups reconciledAt hn hp hk hg (fun r hr => hfound.mem_iff.mp hr) he,
    hfound.filterMap _⟩

end expand
end CtvAttribution
