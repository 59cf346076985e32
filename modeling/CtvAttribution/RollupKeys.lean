import CtvAttribution.TableLoads
import Mathlib.Data.List.Perm.Basic

/-! The rollup key by key: what a key aggregates, and the refresh of some keys as the full
rebuild cut to them. -/
namespace CtvAttribution
open Library

/-- The union's rows of one key. -/
def keyGroup (exposures : List Exposure) (attributed : List AttributedConversion) (k : RollupKey) :
    List Contribution :=
  (contributions exposures attributed).filter (Contribution.key · = k)

/-- The row of a key in the full rebuild. -/
def rebuiltRow (exposures : List Exposure) (attributed : List AttributedConversion) (k : RollupKey) :
    Option RollupRow :=
  if keyGroup exposures attributed k = [] then none else some (rollupRow k (keyGroup exposures attributed k))

/-- A row as `campaign_hourly_rows` compares it, with `reported_at` dropped. -/
def RollupRow.measures (r : RollupRow) : RollupRow := { r with reportedAt := 0 }

section keys
variable {exposures : List Exposure} {attributed : List AttributedConversion} {k : RollupKey}
  {ks : List RollupKey} {row : RollupRow}

theorem mem_credits {c : Credit} : c ∈ credits exposures attributed ↔
    c.1 ∈ attributed ∧ c.1.attributed = true ∧ c.2 ∈ exposures ∧ c.1.exposureId = some c.2.exposureId := by
  obtain ⟨a, e⟩ := c
  simp only [credits, List.mem_flatMap, List.mem_filter, List.mem_map, Prod.mk.injEq, decide_eq_true_eq]
  constructor
  · intro ⟨b, ⟨hb, hatt⟩, f, ⟨hf, hid⟩, hba, hfe⟩
    subst hba hfe
    exact ⟨hb, hatt, hf, hid⟩
  · intro ⟨ha, hatt, he, hid⟩
    exact ⟨a, ⟨ha, hatt⟩, e, ⟨he, hid⟩, rfl, rfl⟩

theorem mem_contributions {c : Contribution} : c ∈ contributions exposures attributed ↔
    (∃ e ∈ exposures, exposureContribution e = c) ∨
      ∃ x ∈ credits exposures attributed, creditContribution x = c := by
  rw [contributions, List.mem_append, List.mem_map, List.mem_map]

/-- Credits and exposures among others contribute among theirs. -/
theorem contributions_mono {es es' : List Exposure} {rs rs' : List AttributedConversion}
    (he : ∀ e ∈ es, e ∈ es') (hr : ∀ r ∈ rs, r ∈ rs') {c : Contribution} (h : c ∈ contributions es rs) :
    c ∈ contributions es' rs' := by
  rw [mem_contributions] at h ⊢
  apply h.imp
  · intro ⟨e, hmem, hc⟩
    exact ⟨e, he e hmem, hc⟩
  · intro ⟨x, hx, hc⟩
    obtain ⟨ha, hatt, hmem, hid⟩ := mem_credits.mp hx
    exact ⟨x, mem_credits.mpr ⟨hr _ ha, hatt, he _ hmem, hid⟩, hc⟩

theorem mem_keyGroup {c : Contribution} :
    c ∈ keyGroup exposures attributed k ↔ c ∈ contributions exposures attributed ∧ c.key = k := by
  rw [keyGroup, List.mem_filter, decide_eq_true_eq]

/-- A key has a group when some exposure falls into it. -/
theorem keyGroup_ne_nil : keyGroup exposures attributed k ≠ [] ↔ ∃ e ∈ exposures, rollupKey e = k := by
  constructor
  · intro h
    obtain ⟨c, hc⟩ := List.exists_mem_of_ne_nil _ h
    obtain ⟨hmem, rfl⟩ := mem_keyGroup.mp hc
    rcases mem_contributions.mp hmem with ⟨e, he, rfl⟩ | ⟨x, hx, rfl⟩
    · exact ⟨e, he, rfl⟩
    · exact ⟨x.2, (mem_credits.mp hx).2.2.1, rfl⟩
  · intro ⟨e, he, hk⟩
    exact List.ne_nil_of_mem (mem_keyGroup.mpr ⟨mem_contributions.mpr (.inl ⟨e, he, rfl⟩), hk⟩)

/-- The credits to the exposures of some keys. -/
theorem credits_filter : credits (exposures.filter fun e => rollupKey e ∈ ks) attributed =
    (credits exposures attributed).filter fun c => rollupKey c.2 ∈ ks := by
  rw [credits, credits, List.filter_flatMap]
  apply List.flatMap_congr
  intro a _
  rw [List.filter_map, List.filter_comm]
  rfl

/-- The credits of some rows. -/
theorem credits_filter_rows (p : AttributedConversion → Bool) :
    credits exposures (attributed.filter p) = (credits exposures attributed).filter fun c => p c.1 := by
  rw [credits, credits, List.filter_flatMap, List.filter_comm]
  induction attributed.filter fun a => a.attributed with
  | nil => rfl
  | cons a l ih =>
    rw [List.filter_cons, List.flatMap_cons, ← ih, List.filter_map]
    cases hp : p a with
    | false => simp [Function.comp_def, hp]
    | true => simp [Function.comp_def, hp]

/-- Cutting the exposures to some keys cuts the union to them, in both of its branches. -/
theorem contributions_filter : contributions (exposures.filter fun e => rollupKey e ∈ ks) attributed =
    (contributions exposures attributed).filter fun c => c.key ∈ ks := by
  rw [contributions, contributions, List.filter_append, List.filter_map, List.filter_map, credits_filter]
  rfl

/-- The grouping commutes with a filter of the keys. -/
theorem aggregate_filter (p : RollupKey → Bool) (rows : List Contribution) :
    aggregate (rows.filter fun c => p c.key) = (aggregate rows).filter fun row => p row.key := by
  have hkeys : (rows.filter fun c => p c.key).map Contribution.key = (rows.map Contribution.key).filter p := by
    rw [List.filter_map]
    rfl
  rw [aggregate, aggregate, OrderedDict.entries_groupBy, OrderedDict.entries_groupBy, List.map_map, List.map_map,
    hkeys, ← filter_firstSeen, List.filter_map]
  apply List.map_congr_left
  intro k hk
  have hpk : p k = true := (List.mem_filter.mp hk).2
  have hgroup : (rows.filter fun c => p c.key).filter (·.key = k) = rows.filter (·.key = k) := by
    rw [List.filter_filter]
    apply List.filter_congr
    intro c _
    by_cases hc : c.key = k
    · simp [hc, hpk]
    · simp [hc]
  change rollupRow k _ = rollupRow k _
  rw [hgroup]

private theorem mem_aggregate {rows : List Contribution} : row ∈ aggregate rows ↔
    (∃ c ∈ rows, c.key = row.key) ∧ row = rollupRow row.key (rows.filter (Contribution.key · = row.key)) := by
  simp only [aggregate, OrderedDict.entries_groupBy, List.map_map, List.mem_map, mem_firstSeen]
  constructor
  · intro h
    obtain ⟨k, ⟨c, hc, hk⟩, he⟩ := h
    have hkey : k = row.key := congrArg RollupRow.key he
    subst hkey
    exact ⟨⟨c, hc, hk⟩, he.symm⟩
  · intro h
    obtain ⟨⟨c, hc, hk⟩, he⟩ := h
    exact ⟨row.key, ⟨c, hc, hk⟩, he.symm⟩

theorem nodup_key_aggregate (rows : List Contribution) : ((aggregate rows).map RollupRow.key).Nodup := by
  rw [aggregate, List.map_map]
  exact (OrderedDict.groupBy Contribution.key rows).nodup

private theorem mem_aggregate_contributions :
    row ∈ aggregate (contributions exposures attributed) ↔ rebuiltRow exposures attributed row.key = some row := by
  rw [mem_aggregate, rebuiltRow]
  have hgroup : (∃ c ∈ contributions exposures attributed, c.key = row.key) ↔
      keyGroup exposures attributed row.key ≠ [] := by
    constructor
    · intro ⟨c, hc, hk⟩
      exact List.ne_nil_of_mem (mem_keyGroup.mpr ⟨hc, hk⟩)
    · intro h
      obtain ⟨c, hc⟩ := List.exists_mem_of_ne_nil _ h
      exact ⟨c, mem_keyGroup.mp hc⟩
  rw [hgroup]
  by_cases h : keyGroup exposures attributed row.key = []
  · simp [h]
  · rw [if_neg h, Option.some.injEq]
    exact ⟨fun hrow => hrow.2.symm, fun hrow => ⟨h, hrow.symm⟩⟩

theorem mem_refreshRows_none :
    row ∈ refreshRows none exposures attributed ↔ rebuiltRow exposures attributed row.key = some row :=
  mem_aggregate_contributions

/-- A refresh of some keys writes their rows of the full rebuild. -/
theorem mem_refreshRows_some : row ∈ refreshRows (some ks) exposures attributed ↔
    row.key ∈ ks ∧ rebuiltRow exposures attributed row.key = some row := by
  rw [refreshRows, dirtyExposures, contributions_filter, aggregate_filter fun k => decide (k ∈ ks), List.mem_filter,
    mem_aggregate_contributions, decide_eq_true_eq]
  exact And.comm

theorem rebuiltRow_key (h : rebuiltRow exposures attributed k = some row) : row.key = k := by
  unfold rebuiltRow at h
  split at h
  · cases h
  · cases h
    rfl

theorem credits_perm {es es' : List Exposure} {rs rs' : List AttributedConversion} (he : es.Perm es')
    (hr : rs.Perm rs') : (credits es rs).Perm (credits es' rs') := by
  apply ((hr.filter _).flatMap_right _).trans
  apply List.Perm.flatMap_left
  intro a _
  exact (he.filter _).map _

/-- A rebuild depends on the served rows, not on their order. -/
theorem contributions_perm {es es' : List Exposure} {rs rs' : List AttributedConversion} (he : es.Perm es')
    (hr : rs.Perm rs') : (contributions es rs).Perm (contributions es' rs') :=
  (he.map _).append ((credits_perm he hr).map _)

theorem rebuiltRow_perm {es es' : List Exposure} {rs rs' : List AttributedConversion} (he : es.Perm es')
    (hr : rs.Perm rs') (k : RollupKey) : rebuiltRow es rs k = rebuiltRow es' rs' k := by
  have hgroup : (keyGroup es rs k).Perm (keyGroup es' rs' k) := (contributions_perm he hr).filter _
  have hnil : keyGroup es rs k = [] ↔ keyGroup es' rs' k = [] := by
    rw [← List.length_eq_zero_iff, hgroup.length_eq, List.length_eq_zero_iff]
  have hsum (f : Contribution → Nat) : ((keyGroup es rs k).map f).sum = ((keyGroup es' rs' k).map f).sum :=
    (hgroup.map f).sum_nat
  have hmax : maxOf ((keyGroup es rs k).map Contribution.stamp) = maxOf ((keyGroup es' rs' k).map Contribution.stamp) :=
    maxOf_congr fun _ => (hgroup.map _).mem_iff
  simp only [rebuiltRow, hnil, rollupRow, hsum, hmax]

/-- What a refresh of some keys inserts, read as `FINAL`. -/
theorem finalRow_refreshRows (ks : List RollupKey) (exposures : List Exposure)
    (attributed : List AttributedConversion) (k : RollupKey) :
    finalRow RollupRow.key RollupRow.reportedAt (refreshRows (some ks) exposures attributed) k =
      if k ∈ ks then rebuiltRow exposures attributed k else none := by
  have hnodup : ((refreshRows (some ks) exposures attributed).map RollupRow.key).Nodup := nodup_key_aggregate _
  by_cases hrow : k ∈ ks ∧ ∃ row, rebuiltRow exposures attributed k = some row
  · obtain ⟨hk, row, hr⟩ := hrow
    have hkey := rebuiltRow_key hr
    rw [if_pos hk, hr, ← hkey]
    exact finalRow_of_nodup hnodup (mem_refreshRows_some.mpr ⟨hkey ▸ hk, hkey ▸ hr⟩)
  · have hnone : (if k ∈ ks then rebuiltRow exposures attributed k else none) = none := by
      rw [Option.eq_none_iff_forall_ne_some]
      intro row hr
      split at hr
      · rename_i hk
        exact hrow ⟨hk, row, hr⟩
      · cases hr
    rw [hnone, finalRow_eq_none]
    intro row hr hkey
    obtain ⟨hk, hr⟩ := mem_refreshRows_some.mp hr
    exact hrow ⟨hkey ▸ hk, row, hkey ▸ hr⟩

end keys

namespace Serving
variable (s : Serving)

/-- The row of campaign_hourly FINAL of one key. -/
def servedRollup (k : RollupKey) : Option RollupRow :=
  finalRow RollupRow.key RollupRow.reportedAt s.campaignHourly k

/-- The row the full rebuild over the served rows has for a key. -/
def rebuiltRollup (k : RollupKey) : Option RollupRow := rebuiltRow s.exposuresFinal s.attributedFinal k

/-- The rollup is never stale: campaign_hourly FINAL is the full rebuild. -/
def Fresh : Prop :=
  (s.campaignHourlyFinal.map RollupRow.measures).Perm
    ((refreshRows none s.exposuresFinal s.attributedFinal).map RollupRow.measures)

variable {s}

theorem fresh_iff : s.Fresh ↔
    ∀ k, (s.servedRollup k).map RollupRow.measures = (s.rebuiltRollup k).map RollupRow.measures := by
  have hserved (row : RollupRow) : row ∈ s.campaignHourlyFinal ↔ s.servedRollup row.key = some row := mem_finalRows
  have hrebuilt (row : RollupRow) : row ∈ refreshRows none s.exposuresFinal s.attributedFinal ↔
      s.rebuiltRollup row.key = some row := mem_refreshRows_none
  exact map_perm_iff_lookup (fun _ => rfl) (nodup_key_finalRows _) (nodup_key_aggregate _) hserved hrebuilt
    (fun _ _ h => (finalRow_eq_some h).2.1) fun _ _ h => rebuiltRow_key h

end Serving
end CtvAttribution
