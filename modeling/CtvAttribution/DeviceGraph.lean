import CtvAttribution.Resolver

/-! What an index says about the household log it was built from. Only the latest record
of a household counts. -/
namespace CtvAttribution
open Library

/-- The household records a compacted topic keeps. -/
def latestRecords (households : List Household) : List Household :=
  (GraphIndex.fromHouseholds.latest households).values

def ListsDevice (households : List Household) (deviceId householdId : String) : Prop :=
  ∃ h ∈ latestRecords households, h.householdId = householdId ∧ deviceId ∈ h.devices.map Device.deviceId

def ListsIp (households : List Household) (ip householdId : String) : Prop :=
  ∃ h ∈ latestRecords households, h.householdId = householdId ∧ ip ∈ h.ips

variable {households : List Household}

private theorem get?_latest {hid : String} : (GraphIndex.fromHouseholds.latest households).get? hid =
    (households.filter (·.householdId = hid)).getLast? := by
  rw [GraphIndex.fromHouseholds.latest, OrderedDict.get?_collect_last Household.householdId (fun h => h),
    Option.map_id']

private theorem householdId_of_latest {hid : String} {h : Household}
    (hlast : (households.filter (·.householdId = hid)).getLast? = some h) : h.householdId = hid := by
  simpa using (List.mem_filter.mp (List.mem_of_getLast? hlast)).2

/-- The latest record of a household is its last one in the log. -/
theorem mem_latestRecords {h : Household} : h ∈ latestRecords households ↔
    (households.filter (·.householdId = h.householdId)).getLast? = some h := by
  rw [latestRecords, OrderedDict.mem_values_iff]
  simp only [get?_latest]
  constructor
  · intro hm
    obtain ⟨hid, hlast⟩ := hm
    rwa [householdId_of_latest hlast]
  · intro hlast
    exact ⟨_, hlast⟩

theorem mem_of_mem_latestRecords {h : Household} (hm : h ∈ latestRecords households) : h ∈ households :=
  (List.mem_filter.mp (List.mem_of_getLast? (mem_latestRecords.mp hm))).1

private theorem mem_entries_latest {hid : String} {h : Household} :
    (hid, h) ∈ (GraphIndex.fromHouseholds.latest households).entries ↔
      h ∈ latestRecords households ∧ h.householdId = hid := by
  rw [OrderedDict.mem_entries, get?_latest, mem_latestRecords]
  constructor
  · intro hlast
    have he := householdId_of_latest hlast
    exact ⟨by rwa [he], he⟩
  · intro h
    obtain ⟨hlast, rfl⟩ := h
    exact hlast

/-- The owners of an IP: every household whose latest record lists it, in order. -/
def ownersOfIp (households : List Household) (ip : String) : List String :=
  sortedSet (((latestRecords households).filter (ip ∈ ·.ips)).map Household.householdId)

theorem mem_ownersOfIp {ip hid : String} : hid ∈ ownersOfIp households ip ↔ ListsIp households ip hid := by
  simp only [ownersOfIp, ListsIp, mem_sortedSet, List.mem_map, List.mem_filter, decide_eq_true_eq]
  constructor
  · intro h
    obtain ⟨h, ⟨hm, hip⟩, he⟩ := h
    exact ⟨h, hm, he, hip⟩
  · intro h
    obtain ⟨h, hm, he, hip⟩ := h
    exact ⟨h, ⟨hm, hip⟩, he⟩

theorem ownersOf_fromHouseholds (ip : String) :
    ((GraphIndex.fromHouseholds households).ownersOf.get? ip).getD [] = ownersOfIp households ip := by
  have hgroup := OrderedDict.getD_mapValues_groupBy Prod.fst
    ((GraphIndex.fromHouseholds.latest households).entries.flatMap fun p => p.2.ips.map fun ip => (ip, p.1))
    (f := fun ps => sortedSet (ps.map Prod.snd)) (k := ip) rfl
  have hstrict : (ownersOfIp households ip).Pairwise (· < ·) := sortedSet_strict _
  refine hgroup.trans (sortedSet_eq_of_strict hstrict ?_)
  intro hid
  rw [mem_ownersOfIp]
  simp only [ListsIp, List.mem_map, List.mem_filter, List.mem_flatMap, decide_eq_true_eq]
  constructor
  · intro h
    obtain ⟨h, hm, he, hip⟩ := h
    exact ⟨(ip, hid), ⟨⟨(hid, h), mem_entries_latest.mpr ⟨hm, he⟩, ip, hip, rfl⟩, rfl⟩, rfl⟩
  · intro h
    obtain ⟨_, ⟨⟨⟨_, h⟩, he, _, hip, rfl⟩, rfl⟩, rfl⟩ := h
    obtain ⟨hm, hid⟩ := mem_entries_latest.mp he
    exact ⟨h, hm, hid, hip⟩

/-- The listings of devices in the order the index writes them. -/
def deviceListings (households : List Household) : List (String × String) :=
  (GraphIndex.fromHouseholds.latest households).entries.flatMap fun p => p.2.devices.map fun d => (d.deviceId, p.1)

theorem mem_deviceListings {deviceId hid : String} :
    (deviceId, hid) ∈ deviceListings households ↔ ListsDevice households deviceId hid := by
  simp only [deviceListings, ListsDevice, List.mem_flatMap, List.mem_map, Prod.mk.injEq]
  constructor
  · intro h
    obtain ⟨⟨_, h⟩, he, d, hd, hdev, rfl⟩ := h
    obtain ⟨hm, hid⟩ := mem_entries_latest.mp he
    exact ⟨h, hm, hid, d, hd, hdev⟩
  · intro h
    obtain ⟨h, hm, he, d, hd, hdev⟩ := h
    exact ⟨(hid, h), mem_entries_latest.mpr ⟨hm, he⟩, d, hd, hdev, rfl⟩

theorem deviceOf_get? (deviceId : String) : (GraphIndex.fromHouseholds households).deviceOf.get? deviceId =
    ((deviceListings households).filter (·.1 = deviceId)).getLast?.map Prod.snd :=
  OrderedDict.get?_collect_last Prod.fst Prod.snd _ deviceId

/-- A device maps to a household whose latest record lists it. -/
theorem listsDevice_of_deviceOf {deviceId hid : String}
    (h : (GraphIndex.fromHouseholds households).deviceOf.get? deviceId = some hid) :
    ListsDevice households deviceId hid := by
  rw [deviceOf_get?] at h
  obtain ⟨p, hp, rfl⟩ := Option.map_eq_some_iff.mp h
  obtain ⟨hm, he⟩ := List.mem_filter.mp (List.mem_of_getLast? hp)
  have he : p.1 = deviceId := by simpa using he
  exact mem_deviceListings.mp (he ▸ hm)

theorem deviceOf_eq_none_iff {deviceId : String} :
    (GraphIndex.fromHouseholds households).deviceOf.get? deviceId = none ↔
      ∀ hid, ¬ ListsDevice households deviceId hid := by
  constructor
  · intro h hid hlist
    rw [deviceOf_get?, Option.map_eq_none_iff, List.getLast?_eq_none_iff] at h
    have hm := List.filter_eq_nil_iff.mp h _ (mem_deviceListings.mpr hlist)
    exact hm (decide_eq_true rfl)
  · intro h
    rw [Option.eq_none_iff_forall_ne_some]
    intro hid hsome
    exact h hid (listsDevice_of_deviceOf hsome)

/-- A conversion resolves when some latest record lists its device or its IP. -/
def Resolves (households : List Household) (conv : Conversion) : Prop :=
  ∃ hid, ListsDevice households conv.deviceId hid ∨ ListsIp households conv.ip hid

theorem candidateHouseholdsOf_ne_nil_iff {conv : Conversion} :
    candidateHouseholdsOf conv (GraphIndex.fromHouseholds households) ≠ [] ↔ Resolves households conv := by
  unfold candidateHouseholdsOf Resolves
  cases h : (GraphIndex.fromHouseholds households).deviceOf.get? conv.deviceId with
  | some hid => simpa using ⟨hid, Or.inl (listsDevice_of_deviceOf h)⟩
  | none =>
    have hno := deviceOf_eq_none_iff.mp h
    simp only [ownersOf_fromHouseholds, hno, false_or, ← mem_ownersOfIp]
    constructor
    · exact List.exists_mem_of_ne_nil _
    · intro hm
      exact List.ne_nil_of_mem hm.choose_spec

/-- Only an IP hit has several candidates: all owners of the IP. -/
theorem candidateHouseholdsOf_eq_owners {conv : Conversion}
    (h : 1 < (candidateHouseholdsOf conv (GraphIndex.fromHouseholds households)).length) :
    candidateHouseholdsOf conv (GraphIndex.fromHouseholds households) = ownersOfIp households conv.ip := by
  unfold candidateHouseholdsOf at h ⊢
  split
  · rename_i hid hget
    rw [hget] at h
    exact absurd h (by simp)
  · exact ownersOf_fromHouseholds conv.ip

end CtvAttribution
