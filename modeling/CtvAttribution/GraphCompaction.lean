import CtvAttribution.DeviceGraph
import Mathlib.Data.List.Pairwise

/-! The graph index over a compacted log. Owners of an IP survive every compaction; the
household of a device is the lister that appears last in the log, and that can change. -/
namespace CtvAttribution
open Library

/-- `Compacts c log`: a compaction drops only records superseded by a later one of their household. -/
inductive Compacts : List Household → List Household → Prop where
  | nil : Compacts [] []
  | keep {c log : List Household} (h : Household) : Compacts c log → Compacts (h :: c) (h :: log)
  | drop {c log : List Household} (h : Household) : h.householdId ∈ log.map Household.householdId →
      Compacts c log → Compacts c (h :: log)

/-- Both logs give the same index. -/
def SameIndex (c log : List Household) : Prop :=
  (∀ deviceId, (GraphIndex.fromHouseholds c).deviceOf.get? deviceId =
    (GraphIndex.fromHouseholds log).deviceOf.get? deviceId) ∧
  ∀ ip, (GraphIndex.fromHouseholds c).ownersOf.get? ip = (GraphIndex.fromHouseholds log).ownersOf.get? ip

/-- Where a household first appears in a log. -/
def firstRecord (log : List Household) (householdId : String) : Nat :=
  (log.map Household.householdId).idxOf householdId

/-- Of the households whose last record lists the device, the one to appear last in the log. -/
def LastLister (log : List Household) (deviceId householdId : String) : Prop :=
  ListsDevice log deviceId householdId ∧
    ∀ other, ListsDevice log deviceId other → firstRecord log other ≤ firstRecord log householdId

/-- Every record of `householdId` comes after every record of `other`. -/
def Follows (log : List Household) (householdId other : String) : Prop :=
  log.Pairwise fun x y => ¬ (x.householdId = householdId ∧ y.householdId = other)

/-- A device that several last records list is listed by a household that comes, with all
its records, after the others. -/
def ListersInOrder (log : List Household) : Prop :=
  ∀ deviceId householdId, LastLister log deviceId householdId →
    ∀ other, ListsDevice log deviceId other → other ≠ householdId → Follows log householdId other

section index
variable {log c : List Household} {deviceId householdId : String}

private theorem mem_of_listsDevice (h : ListsDevice log deviceId householdId) :
    householdId ∈ log.map Household.householdId := by
  obtain ⟨r, hr, rfl, _⟩ := h
  exact List.mem_map_of_mem (mem_of_mem_latestRecords hr)

/-- The households in the order the index takes them. -/
theorem entries_latest_pairwise :
    (GraphIndex.fromHouseholds.latest log).entries.Pairwise fun p q => firstRecord log p.1 < firstRecord log q.1 := by
  have hkeys : (GraphIndex.fromHouseholds.latest log).entries.map Prod.fst =
      firstSeen (log.map Household.householdId) := OrderedDict.keys_collect _ _ _
  have horder := firstSeen_pairwise_idxOf (log.map Household.householdId)
  rw [← hkeys, List.pairwise_map] at horder
  exact horder

theorem LastLister.unique {other : String} (h : LastLister log deviceId householdId)
    (h' : LastLister log deviceId other) : other = householdId :=
  (List.idxOf_inj (mem_of_listsDevice h'.1)).mp (Nat.le_antisymm (h.2 other h'.1) (h'.2 householdId h.1))

/-- The index writes the listings household by household. -/
theorem deviceListings_pairwise :
    (deviceListings log).Pairwise fun p q => firstRecord log p.2 ≤ firstRecord log q.2 := by
  refine List.pairwise_flatMap.mpr ⟨fun p _ => ?_, entries_latest_pairwise.imp fun {p q} hlt x hx y hy => ?_⟩
  · rw [List.pairwise_map]
    exact List.pairwise_of_forall fun _ _ => Nat.le_refl _
  · obtain ⟨_, _, rfl⟩ := List.mem_map.mp hx
    obtain ⟨_, _, rfl⟩ := List.mem_map.mp hy
    exact hlt.le

private theorem lastLister_of_deviceOf (h : (GraphIndex.fromHouseholds log).deviceOf.get? deviceId = some householdId) :
    LastLister log deviceId householdId := by
  have hget := h
  rw [deviceOf_get?] at hget
  obtain ⟨p, hp, rfl⟩ := Option.map_eq_some_iff.mp hget
  refine ⟨listsDevice_of_deviceOf h, fun other hother => ?_⟩
  have hlists : (deviceId, other) ∈ (deviceListings log).filter (·.1 = deviceId) :=
    List.mem_filter.mpr ⟨mem_deviceListings.mpr hother, decide_eq_true rfl⟩
  have : Std.Refl fun p q : String × String => firstRecord log p.2 ≤ firstRecord log q.2 := ⟨fun _ => Nat.le_refl _⟩
  have hle := (deviceListings_pairwise.filter _).rel_getLast hlists
  rwa [Option.some.inj ((List.getLast?_eq_some_getLast (List.ne_nil_of_mem hlists)).symm.trans hp)] at hle

/-- A device maps to its last lister. -/
theorem deviceOf_eq_some_iff : (GraphIndex.fromHouseholds log).deviceOf.get? deviceId = some householdId ↔
    LastLister log deviceId householdId := by
  refine ⟨lastLister_of_deviceOf, fun h => ?_⟩
  cases hget : (GraphIndex.fromHouseholds log).deviceOf.get? deviceId with
  | none => exact absurd h.1 (deviceOf_eq_none_iff.mp hget householdId)
  | some other => rw [(h.unique (lastLister_of_deviceOf hget))]

/-- An IP is indexed when some last record lists it. -/
theorem ownersOf_get? (ip : String) : (GraphIndex.fromHouseholds log).ownersOf.get? ip =
    if ownersOfIp log ip = [] then none else some (ownersOfIp log ip) := by
  have howners : ((GraphIndex.fromHouseholds log).ownersOf.get? ip).getD [] = ownersOfIp log ip :=
    ownersOf_fromHouseholds ip
  cases hget : (GraphIndex.fromHouseholds log).ownersOf.get? ip with
  | none =>
    rw [hget, Option.getD_none] at howners
    rw [if_pos howners.symm]
  | some hhs =>
    rw [hget, Option.getD_some] at howners
    obtain ⟨ps, hps, rfl⟩ := Option.map_eq_some_iff.mp ((OrderedDict.get?_mapValues _ _ ip).symm.trans hget)
    obtain ⟨p, hp⟩ := List.exists_mem_of_ne_nil _ (OrderedDict.ne_nil_of_get?_groupBy hps)
    rw [← howners, if_neg (List.ne_nil_of_mem (mem_sortedSet.mpr (List.mem_map_of_mem hp)))]

end index

section compaction
variable {log c : List Household} {deviceId householdId : String}

theorem Compacts.sublist (h : Compacts c log) : c.Sublist log := by
  induction h with
  | nil => exact .slnil
  | keep h _ ih => exact ih.cons_cons h
  | drop h _ _ ih => exact ih.cons h

/-- A compaction keeps the last record of every household. -/
theorem Compacts.getLast? (h : Compacts c log) (hid : String) :
    (c.filter (·.householdId = hid)).getLast? = (log.filter (·.householdId = hid)).getLast? := by
  induction h with
  | nil => rfl
  | keep h _ ih =>
    rw [List.filter_cons, List.filter_cons]
    split
    · rw [List.getLast?_cons, List.getLast?_cons, ih]
    · exact ih
  | @drop c log h hmem _ ih =>
    rw [ih, List.filter_cons]
    split
    · rename_i he
      obtain ⟨later, hlater, hid'⟩ := List.mem_map.mp hmem
      have hin : later ∈ log.filter (·.householdId = hid) :=
        List.mem_filter.mpr ⟨hlater, decide_eq_true (hid'.trans (of_decide_eq_true he))⟩
      rw [List.getLast?_cons, List.getLast?_eq_some_getLast (List.ne_nil_of_mem hin), Option.getD_some]
    · rfl

theorem Compacts.mem_latestRecords (h : Compacts c log) {r : Household} :
    r ∈ latestRecords c ↔ r ∈ latestRecords log := by
  rw [CtvAttribution.mem_latestRecords, CtvAttribution.mem_latestRecords, h.getLast?]

private theorem Compacts.listsDevice (h : Compacts c log) :
    ListsDevice c deviceId householdId ↔ ListsDevice log deviceId householdId := by
  simp only [ListsDevice, h.mem_latestRecords]

/-- The owners of an IP do not depend on the order of the log. -/
theorem Compacts.ownersOf (h : Compacts c log) (ip : String) :
    (GraphIndex.fromHouseholds c).ownersOf.get? ip = (GraphIndex.fromHouseholds log).ownersOf.get? ip := by
  have howners : ownersOfIp c ip = ownersOfIp log ip := by
    apply sortedSet_congr
    intro hid
    simp only [List.mem_map, List.mem_filter, h.mem_latestRecords]
  rw [ownersOf_get?, ownersOf_get?, howners]

/-- The index is the same when every device keeps its last lister. -/
theorem Compacts.sameIndex_iff (h : Compacts c log) : SameIndex c log ↔
    ∀ deviceId householdId, LastLister log deviceId householdId → LastLister c deviceId householdId := by
  constructor
  · intro hsame deviceId householdId hlast
    rw [← deviceOf_eq_some_iff, hsame.1, deviceOf_eq_some_iff]
    exact hlast
  · intro hlast
    refine ⟨fun deviceId => ?_, h.ownersOf⟩
    cases hget : (GraphIndex.fromHouseholds log).deviceOf.get? deviceId with
    | none =>
      rw [deviceOf_eq_none_iff] at hget ⊢
      intro hid hlists
      exact hget hid (h.listsDevice.mp hlists)
    | some hid => exact deviceOf_eq_some_iff.mpr (hlast deviceId hid (deviceOf_eq_some_iff.mp hget))

/-- What follows another household in the log appears after it. -/
theorem Follows.firstRecord_lt {other : String} (h : Follows log householdId other) (hne : other ≠ householdId)
    (hmem : householdId ∈ log.map Household.householdId) (hother : other ∈ log.map Household.householdId) :
    firstRecord log other < firstRecord log householdId := by
  induction log with
  | nil => cases hmem
  | cons r log ih =>
    obtain ⟨hhead, htail⟩ := List.pairwise_cons.mp h
    unfold firstRecord
    rw [List.map_cons] at hmem hother ⊢
    by_cases hr : r.householdId = other
    · rw [← hr] at hne ⊢
      rw [List.idxOf_cons_self, List.idxOf_cons_ne _ hne]
      exact Nat.succ_pos _
    · have hother : other ∈ log.map Household.householdId := List.mem_of_ne_of_mem (Ne.symm hr) hother
      have hrh : r.householdId ≠ householdId := by
        intro he
        obtain ⟨later, hlater, hid⟩ := List.mem_map.mp hother
        exact hhead later hlater ⟨he, hid⟩
      have hmem : householdId ∈ log.map Household.householdId := List.mem_of_ne_of_mem hrh.symm hmem
      rw [List.idxOf_cons_ne _ hr, List.idxOf_cons_ne _ hrh]
      exact Nat.succ_lt_succ (ih htail hmem hother)

/-- The compaction that drops all but the last record of one household. -/
def keepLastOf (householdId : String) : List Household → List Household
  | [] => []
  | h :: log =>
    if h.householdId = householdId ∧ householdId ∈ log.map Household.householdId then keepLastOf householdId log
    else h :: keepLastOf householdId log

private theorem compacts_keepLastOf (householdId : String) (log : List Household) :
    Compacts (keepLastOf householdId log) log := by
  induction log with
  | nil => exact .nil
  | cons h log ih =>
    rw [keepLastOf]
    split
    · rename_i hdrop
      exact .drop h (hdrop.1 ▸ hdrop.2) ih
    · exact .keep h ih

/-- If `other` still appears first once its earlier records are dropped, it never came later. -/
theorem follows_of_keepLastOf {other : String} (hne : other ≠ householdId)
    (hmem : householdId ∈ log.map Household.householdId) (hother : other ∈ log.map Household.householdId)
    (hlt : firstRecord (keepLastOf other log) other ≤ firstRecord (keepLastOf other log) householdId) :
    Follows log householdId other := by
  induction log with
  | nil => exact List.Pairwise.nil
  | cons r log ih =>
    rw [keepLastOf] at hlt
    rw [List.map_cons] at hmem hother
    refine List.pairwise_cons.mpr ?_
    by_cases hdrop : r.householdId = other ∧ other ∈ log.map Household.householdId
    · rw [if_pos hdrop] at hlt
      have hrh : r.householdId ≠ householdId := fun he => hne (hdrop.1.symm.trans he)
      have hmem : householdId ∈ log.map Household.householdId := List.mem_of_ne_of_mem hrh.symm hmem
      exact ⟨fun _ _ h => hrh h.1, ih hmem hdrop.2 hlt⟩
    · rw [if_neg hdrop] at hlt
      unfold firstRecord at hlt
      rw [List.map_cons] at hlt
      by_cases hr : r.householdId = other
      · have hlast : other ∉ log.map Household.householdId := fun hm => hdrop ⟨hr, hm⟩
        refine ⟨fun _ _ h => hne (hr.symm.trans h.1), ?_⟩
        refine List.Pairwise.imp_of_mem ?_ (List.pairwise_of_forall (R := fun _ _ => True) fun _ _ => trivial)
        intro x y _ hy _ h
        exact hlast (h.2 ▸ List.mem_map_of_mem hy)
      · have hother : other ∈ log.map Household.householdId := List.mem_of_ne_of_mem (Ne.symm hr) hother
        have hrh : r.householdId ≠ householdId := by
          intro he
          rw [← he, List.idxOf_cons_self, List.idxOf_cons_ne _ hr] at hlt
          exact absurd hlt (Nat.not_succ_le_zero _)
        have hmem : householdId ∈ log.map Household.householdId := List.mem_of_ne_of_mem hrh.symm hmem
        rw [List.idxOf_cons_ne _ hr, List.idxOf_cons_ne _ hrh] at hlt
        exact ⟨fun _ _ h => hrh h.1, ih hmem hother (Nat.le_of_succ_le_succ hlt)⟩

/-- A compaction gives the same index exactly when each device's last lister in the log is
still the last one; every compaction does exactly when that household, with all its records,
comes after the device's other listers. -/
theorem graphIndex_compaction (log : List Household) :
    (∀ c, Compacts c log → (SameIndex c log ↔ ∀ deviceId householdId, LastLister log deviceId householdId →
      LastLister c deviceId householdId)) ∧
    ((∀ c, Compacts c log → SameIndex c log) ↔ ListersInOrder log) := by
  refine ⟨fun c h => h.sameIndex_iff, ?_, ?_⟩
  · intro hall deviceId householdId hlast other hother hne
    have hcompacts := compacts_keepLastOf other log
    have hstill := hcompacts.sameIndex_iff.mp (hall _ hcompacts) deviceId householdId hlast
    exact follows_of_keepLastOf hne (mem_of_listsDevice hlast.1) (mem_of_listsDevice hother)
      (hstill.2 other (hcompacts.listsDevice.mpr hother))
  · intro horder c h
    refine h.sameIndex_iff.mpr fun deviceId householdId hlast => ?_
    refine ⟨h.listsDevice.mpr hlast.1, fun other hother => ?_⟩
    by_cases hne : other = householdId
    · rw [hne]
    · have hfollows : Follows c householdId other :=
        (horder deviceId householdId hlast other (h.listsDevice.mp hother) hne).sublist h.sublist
      exact (hfollows.firstRecord_lt hne (mem_of_listsDevice (h.listsDevice.mpr hlast.1))
        (mem_of_listsDevice hother)).le

/-- Two households share a television; the compaction drops the first record of "h1". -/
def sharedDeviceLog : List Household :=
  [⟨"h1", [⟨"tv", .tv⟩], []⟩, ⟨"h2", [⟨"tv", .tv⟩], []⟩, ⟨"h1", [⟨"tv", .tv⟩], []⟩]

theorem compaction_changes_owner : ¬ ∀ log c, Compacts c log → SameIndex c log := by
  intro h
  have hcompacts : Compacts sharedDeviceLog.tail sharedDeviceLog := .drop _ (by decide) (.keep _ (.keep _ .nil))
  have hsame := (h _ _ hcompacts).1 "tv"
  revert hsame
  decide

end compaction
end CtvAttribution
