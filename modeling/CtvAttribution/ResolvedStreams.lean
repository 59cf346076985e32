import CtvAttribution.Attribution

/-! Streams of resolved records: what the resolve step promises of them, and what dedup
and the placeholder collapse keep of it. -/
namespace CtvAttribution
open Library

variable {resolved l m : List ResolvedConversion}

/-- The sorted households over which a stream spreads a conversion. -/
def householdsOf (resolved : List ResolvedConversion) (conversionId : String) : List String :=
  sortedSet ((resolved.filter (·.conversionId = conversionId)).map fun r => r.householdId)

private theorem mem_householdsOf {cid h : String} :
    h ∈ householdsOf resolved cid ↔ ∃ r ∈ resolved, r.conversionId = cid ∧ r.householdId = h := by
  simp only [householdsOf, mem_sortedSet, List.mem_map, List.mem_filter, decide_eq_true_eq, and_assoc]

theorem householdsOf_congr (h : ∀ r, r ∈ l ↔ r ∈ m) (cid : String) :
    householdsOf l cid = householdsOf m cid :=
  sortedSet_congr fun k => by simp only [List.mem_map, List.mem_filter, h]

/-- Records of one conversion differ in the household only, and spread over as many
households as they count. -/
structure WellResolved (resolved : List ResolvedConversion) : Prop where
  alike : ∀ r ∈ resolved, ∀ s ∈ resolved, r.conversionId = s.conversionId →
    s = { r with householdId := s.householdId }
  counted : ∀ r ∈ resolved, (householdsOf resolved r.conversionId).length = r.candidateCount

namespace WellResolved

/-- Only the set of records matters. -/
theorem congr (hl : WellResolved l) (h : ∀ r, r ∈ l ↔ r ∈ m) : WellResolved m where
  alike r hr s hs := hl.alike r ((h r).mpr hr) s ((h s).mpr hs)
  counted r hr := by rw [← householdsOf_congr h, hl.counted r ((h r).mpr hr)]

theorem keyed (h : WellResolved resolved) :
    Keyed (fun r => (r.conversionId, r.householdId)) resolved := by
  intro r hr s hs he
  obtain ⟨hc, hh⟩ := Prod.mk.inj he
  rw [h.alike r hr s hs hc, ← hh]

theorem householdId_mem {r : ResolvedConversion} (hr : r ∈ resolved) :
    r.householdId ∈ householdsOf resolved r.conversionId :=
  mem_householdsOf.mpr ⟨r, hr, rfl, rfl⟩

/-- A certain conversion has one record. -/
theorem eq_of_certain (h : WellResolved resolved) {r s : ResolvedConversion} (hr : r ∈ resolved)
    (hs : s ∈ resolved) (he : r.conversionId = s.conversionId) (hc : r.candidateCount = 1) : r = s := by
  have hlen := h.counted r hr
  rw [hc] at hlen
  refine h.keyed r hr s hs (Prod.ext he ?_)
  refine eq_of_length_sortedSet_one hlen ?_ ?_
  · exact List.mem_map_of_mem (List.mem_filter.mpr ⟨hr, by simp⟩)
  · exact List.mem_map_of_mem (List.mem_filter.mpr ⟨hs, by simpa using he.symm⟩)

/-- The candidate set of a record passes the row validator. -/
theorem candidateSetMatchesCount (h : WellResolved resolved) {r : ResolvedConversion}
    (hr : r ∈ resolved) (hc : r.candidateCount ≠ 1) :
    CandidateSetMatchesCount r.candidateCount r.householdId (householdsOf resolved r.conversionId) := by
  rw [CandidateSetMatchesCount, if_neg hc]
  exact ⟨⟨h.counted r hr, (sortedSet_of_strict (sortedSet_strict _)).symm⟩, householdId_mem hr⟩

end WellResolved

section resolveStream
variable {conversions : List Conversion} {index : GraphIndex}

theorem mem_resolveStream {r : ResolvedConversion} :
    r ∈ resolveStream conversions index ↔ ∃ conv ∈ conversions, r ∈ resolveOne conv index :=
  List.mem_flatMap

theorem householdsOf_resolveStream (hk : Keyed Conversion.conversionId conversions) {conv : Conversion}
    (hconv : conv ∈ conversions) :
    householdsOf (resolveStream conversions index) conv.conversionId = candidateHouseholdsOf conv index := by
  apply sortedSet_eq_of_strict (candidateHouseholdsOf_strict conv index)
  intro k
  simp only [List.mem_map, List.mem_filter, decide_eq_true_eq, mem_resolveStream]
  constructor
  · intro hk'
    obtain ⟨r, hr, he⟩ := exists_mem_resolveOne hk'
    exact ⟨r, ⟨⟨conv, hconv, hr⟩, by rw [(mem_resolveOne hr).1]⟩, he⟩
  · intro h
    obtain ⟨r, ⟨⟨d, hd, hr⟩, hid⟩, rfl⟩ := h
    rw [(mem_resolveOne hr).1] at hid
    rw [← hk d hd conv hconv hid]
    exact (mem_resolveOne hr).2.1

/-- The resolve step meets its promise on every stream where equal ids mean equal
records, re-sends included. -/
theorem wellResolved_resolveStream (index : GraphIndex)
    (hk : Keyed Conversion.conversionId conversions) :
    WellResolved (resolveStream conversions index) where
  alike := by
    intro r hr s hs he
    obtain ⟨c, hc, hr⟩ := mem_resolveStream.mp hr
    obtain ⟨d, hd, hs⟩ := mem_resolveStream.mp hs
    rw [(mem_resolveOne hr).1, (mem_resolveOne hs).1] at he
    rw [← hk c hc d hd he] at hs
    exact resolveOne_alike hr hs
  counted := by
    intro r hr
    obtain ⟨c, hc, hr⟩ := mem_resolveStream.mp hr
    obtain ⟨hconv, _, hcount⟩ := mem_resolveOne hr
    rw [hconv, householdsOf_resolveStream hk hc, hcount]

end resolveStream

section dedup
variable {α κ : Type} [DecidableEq κ]

private theorem foldl_dedup (rows : List α) (key : α → κ) (seen : List κ) (kept : List α) (n : Nat) :
    ∃ new, (rows.foldl (fun (s : List κ × List α × Nat) row =>
        if key row ∈ s.1 then (s.1, s.2.1, s.2.2 + 1) else (key row :: s.1, s.2.1 ++ [row], s.2.2))
        (seen, kept, n)).2.1 = kept ++ new ∧ (∀ x ∈ new, x ∈ rows) ∧
      (∀ x ∈ rows, key x ∈ seen ∨ ∃ y ∈ new, key y = key x) := by
  induction rows generalizing seen kept n with
  | nil => exact ⟨[], by simp, nofun, nofun⟩
  | cons a rows ih =>
    rw [List.foldl_cons]
    by_cases h : key a ∈ seen
    · obtain ⟨new, hn, hsub, hcov⟩ := ih seen kept (n + 1)
      refine ⟨new, by simpa only [h, if_true] using hn, fun x hx => List.mem_cons_of_mem _ (hsub x hx), ?_⟩
      intro x hx
      rcases List.mem_cons.mp hx with rfl | hx
      · exact Or.inl h
      · exact hcov x hx
    · obtain ⟨new, hn, hsub, hcov⟩ := ih (key a :: seen) (kept ++ [a]) n
      refine ⟨a :: new, by simpa [h] using hn, ?_, ?_⟩
      · intro x hx
        rcases List.mem_cons.mp hx with rfl | hx
        · exact List.mem_cons_self
        · exact List.mem_cons_of_mem _ (hsub x hx)
      · intro x hx
        rcases List.mem_cons.mp hx with rfl | hx
        · exact Or.inr ⟨x, List.mem_cons_self, rfl⟩
        · rcases hcov x hx with hs | ⟨y, hy, he⟩
          · rcases List.mem_cons.mp hs with he | hs
            · exact Or.inr ⟨a, List.mem_cons_self, he.symm⟩
            · exact Or.inl hs
          · exact Or.inr ⟨y, List.mem_cons_of_mem _ hy, he⟩

/-- Dedup drops re-sends only: the set of rows stays. -/
theorem mem_dedupById {rows : List α} {key : α → κ} (hk : Keyed key rows) {x : α} :
    x ∈ (dedupById rows key).1 ↔ x ∈ rows := by
  obtain ⟨new, hn, hsub, hcov⟩ := foldl_dedup rows key [] [] 0
  have hnew : (dedupById rows key).1 = new := hn
  rw [hnew]
  refine ⟨hsub x, fun hx => ?_⟩
  rcases hcov x hx with hs | ⟨y, hy, he⟩
  · cases hs
  · rwa [← hk y (hsub y hy) x hx he]

end dedup

section collapse

private theorem get?_oneRowPerConversion {cid : String} :
    (OrderedDict.collect (fun r : ResolvedConversion => r.conversionId)
      (lowerOf fun r => r.householdId) resolved).get? cid =
      (resolved.filter (·.conversionId = cid)).argmin fun r => r.householdId := by
  rw [OrderedDict.get?_collect]
  exact foldl_lowerOf _ _

/-- The placeholder of a conversion is its record of lowest household. -/
theorem mem_oneRowPerConversion (h : WellResolved resolved) {c : ResolvedConversion} :
    c ∈ oneRowPerConversion resolved ↔
      c ∈ resolved ∧ ∀ r ∈ resolved, r.conversionId = c.conversionId → c.householdId ≤ r.householdId := by
  have hk (cid : String) : Keyed (fun r : ResolvedConversion => r.householdId)
      (resolved.filter (·.conversionId = cid)) := by
    intro r hr s hs he
    simp only [List.mem_filter, decide_eq_true_eq] at hr hs
    exact h.keyed r hr.1 s hs.1 (Prod.ext (hr.2.trans hs.2.symm) he)
  rw [oneRowPerConversion, OrderedDict.mem_values_iff]
  simp only [get?_oneRowPerConversion, argmin_eq_some_of_min (hk _), List.mem_filter, decide_eq_true_eq]
  constructor
  · intro h
    obtain ⟨cid, ⟨hc, rfl⟩, hmin⟩ := h
    exact ⟨hc, fun r hr he => hmin r ⟨hr, he⟩⟩
  · intro h
    obtain ⟨hc, hmin⟩ := h
    exact ⟨c.conversionId, ⟨hc, rfl⟩, fun r hr => hmin r hr.1 hr.2⟩

/-- Exactly one row per conversion id, in first-arrival order. -/
theorem map_conversionId_oneRowPerConversion (resolved : List ResolvedConversion) :
    (oneRowPerConversion resolved).map (fun c => c.conversionId) =
      firstSeen (resolved.map fun r => r.conversionId) := by
  rw [oneRowPerConversion, ← OrderedDict.keys_collect]
  unfold OrderedDict.values OrderedDict.keys
  rw [List.map_map]
  apply List.map_congr_left
  rintro ⟨cid, c⟩ hm
  have hget := OrderedDict.mem_entries.mp hm
  rw [get?_oneRowPerConversion] at hget
  simpa using (List.mem_filter.mp (List.argmin_mem hget)).2

theorem nodup_conversionId_oneRowPerConversion (resolved : List ResolvedConversion) :
    ((oneRowPerConversion resolved).map fun c => c.conversionId).Nodup := by
  rw [map_conversionId_oneRowPerConversion]
  exact nodup_firstSeen _

theorem exists_mem_oneRowPerConversion {r : ResolvedConversion} (hr : r ∈ resolved) :
    ∃ c ∈ oneRowPerConversion resolved, c.conversionId = r.conversionId := by
  have hm : r.conversionId ∈ (oneRowPerConversion resolved).map fun c => c.conversionId := by
    rw [map_conversionId_oneRowPerConversion, mem_firstSeen]
    exact List.mem_map_of_mem hr
  obtain ⟨c, hc, he⟩ := List.mem_map.mp hm
  exact ⟨c, hc, he⟩

/-- The captured candidate set of a fan-out is every household it spreads over. -/
theorem get?_candidateHouseholdsByConversion (h : WellResolved resolved) {r : ResolvedConversion}
    (hr : r ∈ resolved) (hc : r.candidateCount ≠ 1) :
    (candidateHouseholdsByConversion resolved).get? r.conversionId =
      some (householdsOf resolved r.conversionId) := by
  have hcount (s : ResolvedConversion) (hs : s ∈ resolved) (he : s.conversionId = r.conversionId) :
      1 < s.candidateCount := by
    have := s.candidateCount_pos
    have : s.candidateCount = r.candidateCount := by rw [← h.counted s hs, he, h.counted r hr]
    omega
  have hkey : r.conversionId ∈ (OrderedDict.groupBy (fun r : ResolvedConversion => r.conversionId)
      (resolved.filter fun r => 1 < r.candidateCount)).keys :=
    (OrderedDict.mem_keys_collect _ _ _ _).mpr
      ⟨r, List.mem_filter.mpr ⟨hr, by simpa using hcount r hr rfl⟩, rfl⟩
  rw [candidateHouseholdsByConversion, OrderedDict.get?_mapValues, OrderedDict.get?_groupBy _ _ hkey,
    Option.map_some, List.filter_filter, householdsOf]
  refine congrArg (fun rows => some (sortedSet (List.map _ rows))) ?_
  apply List.filter_congr
  intro s hs
  simpa using fun he => hcount s hs he

end collapse
end CtvAttribution
