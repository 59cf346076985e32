import CtvAttribution.Models

/-! Device-to-household resolution. A device-graph hit beats the IP fallback; an IP
listed by several households fans out to one record per owner. -/
namespace CtvAttribution
open Library

/-- Lookup over the device graph. Owners are kept sorted, so fan-out is deterministic. -/
structure GraphIndex where
  deviceOf : OrderedDict String String
  ownersOf : OrderedDict String (List String)
  owners_strict : ∀ ip hhs, ownersOf.get? ip = some hhs → hhs.Pairwise (· < ·)

/-- `GraphIndex.from_households`: the last record per household wins, then the last
listing of a device wins; every latest listing of an IP counts. -/
def GraphIndex.fromHouseholds (households : List Household) : GraphIndex where
  deviceOf := OrderedDict.collect Prod.fst (fun p _ => p.2)
    ((latest households).entries.flatMap fun (hid, h) => h.devices.map fun d => (d.deviceId, hid))
  ownersOf := (owners households).mapValues fun ps => sortedSet (ps.map Prod.snd)
  owners_strict := by
    intro ip hhs h
    rw [OrderedDict.get?_mapValues, Option.map_eq_some_iff] at h
    obtain ⟨ps, _, rfl⟩ := h
    exact sortedSet_strict _
where
  latest (households : List Household) : OrderedDict String Household :=
    OrderedDict.collect Household.householdId (fun h _ => h) households
  owners (households : List Household) : OrderedDict String (List (String × String)) :=
    OrderedDict.groupBy Prod.fst
      ((latest households).entries.flatMap fun (hid, h) => h.ips.map fun ip => (ip, hid))

/-- `_resolved`. -/
def resolved (conv : Conversion) (householdId : String) (resolution : Resolution) (ambiguous : Bool)
    (candidateCount : Nat) (hpos : 1 ≤ candidateCount) : ResolvedConversion :=
  { conv with householdId, resolution, ambiguous, candidateCount, candidateCount_pos := hpos }

/-- Zero, one, or for an ambiguous shared IP several resolved records. -/
def resolveOne (conv : Conversion) (index : GraphIndex) : List ResolvedConversion :=
  match index.deviceOf.get? conv.deviceId with
  | some hid => [resolved conv hid .device false 1 le_rfl]
  | none =>
    let owners := (index.ownersOf.get? conv.ip).getD []
    if h : owners = [] then []
    else owners.map fun owner =>
      resolved conv owner .ip (1 < owners.length) owners.length (List.length_pos_iff.mpr h)

/-- A stateless map over the stream: duplicates in, duplicates out. -/
def resolveStream (conversions : List Conversion) (index : GraphIndex) : List ResolvedConversion :=
  conversions.flatMap fun conv => resolveOne conv index

/-- The households a conversion can belong to: its device's, else every owner of its IP. -/
def candidateHouseholdsOf (conv : Conversion) (index : GraphIndex) : List String :=
  match index.deviceOf.get? conv.deviceId with
  | some hid => [hid]
  | none => (index.ownersOf.get? conv.ip).getD []

theorem candidateHouseholdsOf_strict (conv : Conversion) (index : GraphIndex) :
    (candidateHouseholdsOf conv index).Pairwise (· < ·) := by
  unfold candidateHouseholdsOf
  split
  · exact List.pairwise_singleton _ _
  · cases h : index.ownersOf.get? conv.ip with
    | none => exact List.Pairwise.nil
    | some hhs => exact index.owners_strict _ _ h

/-- Fan-out is one template record copied over the candidate households: the copies
carry the conversion and the number of candidates, and differ in the household only. -/
theorem resolveOne_eq_map {conv : Conversion} {index : GraphIndex}
    (hne : candidateHouseholdsOf conv index ≠ []) :
    ∃ t : ResolvedConversion, t.toConversion = conv ∧
      t.candidateCount = (candidateHouseholdsOf conv index).length ∧
      resolveOne conv index =
        (candidateHouseholdsOf conv index).map fun h => { t with householdId := h } := by
  unfold candidateHouseholdsOf at hne ⊢
  unfold resolveOne
  split
  · rename_i hid _
    exact ⟨resolved conv hid .device false 1 le_rfl, rfl, rfl, rfl⟩
  · rename_i hnone
    simp only [hnone] at hne
    simp only [dif_neg hne]
    exact ⟨resolved conv "" .ip _ _ (List.length_pos_iff.mpr hne), rfl, rfl, rfl⟩

theorem resolveOne_eq_nil {conv : Conversion} {index : GraphIndex}
    (h : candidateHouseholdsOf conv index = []) : resolveOne conv index = [] := by
  unfold candidateHouseholdsOf at h
  unfold resolveOne
  split at h
  · cases h
  · rename_i hnone
    simp only [h, dite_true]

/-- A resolved record is the conversion with one of its candidate households, counted. -/
theorem mem_resolveOne {conv : Conversion} {index : GraphIndex} {r : ResolvedConversion}
    (h : r ∈ resolveOne conv index) :
    r.toConversion = conv ∧ r.householdId ∈ candidateHouseholdsOf conv index ∧
      r.candidateCount = (candidateHouseholdsOf conv index).length := by
  by_cases hne : candidateHouseholdsOf conv index = []
  · rw [resolveOne_eq_nil hne] at h
    cases h
  · obtain ⟨t, hc, hn, he⟩ := resolveOne_eq_map hne
    rw [he] at h
    obtain ⟨hh, hmem, rfl⟩ := List.mem_map.mp h
    exact ⟨hc, hmem, hn⟩

/-- Every candidate household gets its record. -/
theorem exists_mem_resolveOne {conv : Conversion} {index : GraphIndex} {h : String}
    (hh : h ∈ candidateHouseholdsOf conv index) : ∃ r ∈ resolveOne conv index, r.householdId = h := by
  obtain ⟨t, _, _, he⟩ := resolveOne_eq_map (List.ne_nil_of_mem hh)
  rw [he]
  exact ⟨_, List.mem_map_of_mem hh, rfl⟩

theorem resolveOne_alike {conv : Conversion} {index : GraphIndex} {r s : ResolvedConversion}
    (hr : r ∈ resolveOne conv index) (hs : s ∈ resolveOne conv index) :
    s = { r with householdId := s.householdId } := by
  by_cases hne : candidateHouseholdsOf conv index = []
  · rw [resolveOne_eq_nil hne] at hr
    cases hr
  · obtain ⟨t, _, _, he⟩ := resolveOne_eq_map hne
    rw [he] at hr hs
    obtain ⟨_, _, rfl⟩ := List.mem_map.mp hr
    obtain ⟨_, _, rfl⟩ := List.mem_map.mp hs
    rfl

end CtvAttribution
