import CtvAttribution.ReconcilePass

/-! The in-process pass against the orchestrated one: recovering day by day and landing in
between leaves the very state one landing leaves. -/
namespace CtvAttribution
open Library Script

section keeps
variable {exposures : List Exposure} {ebh : OrderedDict String (List Exposure)} {conv : ResolvedConversion}
  {window reconciledAt : Int} {hhs : List String} {x : AttributedConversion}

private theorem lastTouch_keeps {cand : Candidate} (h : lastTouch exposures conv window hhs = .ok cand) :
    cand.row.toResolvedConversion = conv := by
  rw [lastTouch_decision] at h
  obtain ⟨r, hr, h⟩ := bind_eq_ok_iff.mp h
  cases h
  exact (hotRecord_of_attributed hr).1.record

private theorem mem_of_pickHousehold {scored : List Candidate} {cand : Candidate}
    (h : pickHousehold scored = some cand) : cand ∈ scored :=
  (List.mem_filter.mp (List.argmax_mem (Option.mem_def.mpr h))).1

/-- A correction keeps the record of one of its conversion's candidates. -/
theorem reconcileGroup_keeps {exposuresOf : String → List Exposure} {cid : String} {rows : List ResolvedConversion}
    (h : reconcileGroup exposuresOf window reconciledAt hhs cid rows = .ok (some x)) :
    x.toResolvedConversion ∈ rows := by
  unfold reconcileGroup at h
  split at h
  · cases h
  · obtain ⟨scored, hscored, h⟩ := bind_eq_ok_iff.mp h
    cases hpick : pickHousehold scored with
    | none =>
      rw [hpick] at h
      cases h
    | some winner =>
      rw [hpick] at h
      cases h
      obtain ⟨r, hr, htouch⟩ := (mem_of_mapM_eq_ok hscored).mp (mem_of_pickHousehold hpick)
      change winner.row.toResolvedConversion ∈ rows
      rw [lastTouch_keeps htouch]
      exact hr

private theorem reconcile_keeps {candidates : List ResolvedConversion} {rows : List AttributedConversion}
    (h : reconcile candidates ebh window reconciledAt = .ok rows) (hx : x ∈ rows) :
    x.toResolvedConversion ∈ candidates := by
  unfold reconcile at h
  obtain ⟨recovered, hrecovered, h⟩ := bind_eq_ok_iff.mp h
  cases h
  obtain ⟨o, ho, he⟩ := List.mem_filterMap.mp hx
  cases he
  obtain ⟨entry, hentry, hgroup⟩ := (mem_of_mapM_eq_ok hrecovered).mp ho
  rw [OrderedDict.entries_groupBy] at hentry
  obtain ⟨cid, _, rfl⟩ := List.mem_map.mp hentry
  exact (List.mem_filter.mp (reconcileGroup_keeps hgroup)).1

private theorem eventTime_of_mem_expand {cands : List AttributedConversion} {c : ResolvedConversion}
    (h : c ∈ expandCandidates cands) : ∃ r ∈ cands, c.eventTime = r.eventTime := by
  obtain ⟨r, hr, hc⟩ := List.mem_flatMap.mp h
  refine ⟨r, hr, ?_⟩
  split at hc
  · obtain ⟨_, _, rfl⟩ := List.mem_map.mp hc
    rfl
  · rw [List.mem_singleton.mp hc]

private theorem dayOf_lakeCandidates {log cands : List AttributedConversion} {day : Int} {r : AttributedConversion}
    (h : lakeCandidates log (some day) = .ok cands) (hr : r ∈ cands) : dayOf r.eventTime = day := by
  rw [(lakeCandidates_eq_ok.mp h).2] at hr
  have hread := (List.mem_filter.mp hr).1
  rw [readCurrent, mem_sortedBy, mem_collapse, current_firstSeen] at hread
  have hscan := (List.mem_filter.mp (current_eq_some hread).1).2
  exact List.mem_singleton.mp (dayRangesPredicate_iff.mp hscan)

/-- What a day's pass recovers are conversions of that day. -/
theorem dayOf_recoverDay {bucketOf : String → Nat} {lake : Lake} {day : Int} {rows : List AttributedConversion}
    (h : recoverDay bucketOf lake day reconciledAt window = .ok rows) (hx : x ∈ rows) : dayOf x.eventTime = day := by
  unfold recoverDay at h
  obtain ⟨cands, hcands, h⟩ := bind_eq_ok_iff.mp h
  obtain ⟨r, hr, htime⟩ := eventTime_of_mem_expand (reconcile_keeps h hx)
  rw [htime]
  exact dayOf_lakeCandidates hcands hr

end keeps

section days
variable {bucketOf : String → Nat} {lake lake' : Lake} {reconciledAt day : Int} {days : List Int}
  {rows : List AttributedConversion} {rowss : List (List AttributedConversion)}

theorem lakeCandidates_append {log new : List AttributedConversion} (h : ∀ r ∈ new, dayOf r.eventTime ≠ day) :
    lakeCandidates (log ++ new) (some day) = lakeCandidates log (some day) := by
  have hscan : scanned (log ++ new) (some [day]) = scanned log (some [day]) := by
    have hnone : (new.filter fun r => dayRangesPredicate [day] r.eventTime) = [] := by
      rw [List.filter_eq_nil_iff]
      intro r hr
      rw [dayRangesPredicate_iff, List.mem_singleton]
      exact h r hr
    rw [scanned, List.filter_append, hnone, List.append_nil, scanned]
  simp only [lakeCandidates, Option.map_some, readCurrent, hscan]

/-- Corrections landed on other days change nothing for a day. -/
theorem recoverDay_landAttributed (h : ∀ r ∈ rows, dayOf r.eventTime ≠ day) :
    recoverDay bucketOf (lake.landAttributed rows) day reconciledAt longWindow =
      recoverDay bucketOf lake day reconciledAt longWindow := by
  have hland : lakeCandidates (lake.landAttributed rows).attributed (some day) =
      lakeCandidates lake.attributed (some day) := by
    refine lakeCandidates_append fun r hr => ?_
    obtain ⟨x, hx, rfl⟩ := List.mem_map.mp hr
    rw [dayOf_landedRow]
    exact h x hx
  rw [recoverDay, hland]
  rfl

/-- Days passed one after the other are days read from one log and landed together. -/
theorem dayPasses_iff (hdays : days.Nodup) : DayPasses bucketOf reconciledAt lake days rowss lake' ↔
    (∀ day ∈ days, dayPartitions day = true) ∧
      days.mapM (fun day => recoverDay bucketOf lake day reconciledAt longWindow) = .ok rowss ∧
      lake' = lake.landAttributed rowss.flatten := by
  induction days generalizing lake rowss with
  | nil =>
    rw [mapM_eq_ok_iff]
    constructor
    · intro h
      cases h
      exact ⟨fun _ h => absurd h List.not_mem_nil, .nil, (landAttributed_nil _).symm⟩
    · intro h
      obtain ⟨_, hrows, rfl⟩ := h
      cases hrows
      rw [List.flatten_nil, landAttributed_nil]
      exact .nil _
  | cons day days ih =>
    obtain ⟨hday, hdays⟩ := List.nodup_cons.mp hdays
    have hsame {rows : List AttributedConversion} (hrows : recoverDay bucketOf lake day reconciledAt longWindow = .ok rows) :
        days.mapM (fun d => recoverDay bucketOf (lake.landAttributed rows) d reconciledAt longWindow) =
          days.mapM fun d => recoverDay bucketOf lake d reconciledAt longWindow := by
      refine mapM_congr fun d hd => recoverDay_landAttributed fun r hr he => ?_
      rw [← he, dayOf_recoverDay hrows hr] at hd
      exact hday hd
    rw [List.mapM_cons]
    constructor
    · intro h
      cases h with
      | cons hknown hrows hrest =>
        obtain ⟨hall, hmap, rfl⟩ := (ih hdays).mp hrest
        rw [hsame hrows] at hmap
        refine ⟨List.forall_mem_cons.mpr ⟨hknown, hall⟩, ?_, ?_⟩
        · rw [hrows, hmap]
          rfl
        · rw [List.flatten_cons, landAttributed_append]
    · intro h
      obtain ⟨hknown, hmap, rfl⟩ := h
      obtain ⟨rows, hrows, hmap⟩ := bind_eq_ok_iff.mp hmap
      obtain ⟨rest, hrest, hmap⟩ := bind_eq_ok_iff.mp hmap
      cases hmap
      refine .cons (hknown day List.mem_cons_self) hrows ((ih hdays).mpr ⟨fun d hd =>
        hknown d (List.mem_cons_of_mem _ hd), ?_, ?_⟩)
      · rw [hsame hrows, hrest]
      · rw [List.flatten_cons, landAttributed_append]

end days

/-- The orchestrated reconcile ends exactly where the in-process one does. It refuses the
candidate days that are outside the calendar, which the other lets pass if nothing on them
is recovered. -/
theorem ends_runReconcile_none {bucketOf : String → Nat} {σ τ : System} :
    (runReconcile bucketOf none).Ends σ () τ ↔ (reconcileRun bucketOf).Ends σ () τ ∧
      ∀ days, candidateDays σ.lake.attributed = .ok days → ∀ day ∈ days, dayPartitions day = true := by
  have hnodup {days : List Int} (h : candidateDays σ.lake.attributed = .ok days) : days.Nodup := by
    unfold candidateDays at h
    obtain ⟨cands, _, h⟩ := bind_eq_ok_iff.mp h
    cases h
    exact (sortedSet_strict _).imp ne_of_lt
  have hrows (days : List Int) (rows : List AttributedConversion) :
      recoverDays bucketOf σ.lake days (reconciledAtFor σ.serving.maxIngest) = .ok rows ↔
        ∃ rowss, days.mapM (fun day => recoverDay bucketOf σ.lake day (reconciledAtFor σ.serving.maxIngest)
          longWindow) = .ok rowss ∧ rowss.flatten = rows := by
    unfold recoverDays
    rw [bind_eq_ok_iff]
    exact exists_congr fun rowss => and_congr_right fun _ => ⟨Except.ok.inj, congrArg _⟩
  rw [ends_runReconcile, ends_reconcileRun]
  constructor
  · intro h
    obtain ⟨days, rowss, lake, hdays, hpass, hknown, rfl⟩ := h
    change candidateDays _ = _ at hdays
    obtain ⟨hcalendar, hmap, rfl⟩ := (dayPasses_iff (hnodup hdays)).mp hpass
    constructor
    · refine ⟨days, rowss.flatten, hdays, (hrows _ _).mpr ⟨rowss, hmap, rfl⟩, ?_, ?_⟩
      · exact fun d hd => hknown d ((touched_flatten rowss d).mpr hd)
      · rw [afterLoad_congr (touched_flatten rowss)]
    · intro days' hdays'
      rw [hdays] at hdays'
      cases hdays'
      exact hcalendar
  · intro h
    obtain ⟨⟨days, rows, hdays, hrec, hknown, rfl⟩, hcalendar⟩ := h
    obtain ⟨rowss, hmap, rfl⟩ := (hrows _ _).mp hrec
    refine ⟨days, rowss, _, hdays, (dayPasses_iff (hnodup hdays)).mpr ⟨hcalendar days hdays, hmap, rfl⟩, ?_, ?_⟩
    · exact fun d hd => hknown d ((touched_flatten rowss d).mp hd)
    · rw [afterLoad_congr (touched_flatten rowss)]

end CtvAttribution
