import CtvAttribution.CorrectionOrder
import CtvAttribution.EndToEnd
import CtvAttribution.OrderIndependence

/-! The versions of the log of record. Topics only grow; every drain decides each conversion
anew under the version its ingest time gives it. -/
namespace CtvAttribution
open Library Script

/-- The two event topics, in offset order. -/
structure Topics where
  exposures : List Exposure
  conversions : List Conversion

namespace Topics
variable (index : GraphIndex) (topics : Topics)

/-- Every conversion resolved against the device graph. -/
def resolved : List ResolvedConversion := resolveStream topics.conversions index

/-- Messages with equal ids are re-sends of one message. -/
structure Identified : Prop where
  exposures : Keyed Exposure.exposureId topics.exposures
  conversions : Keyed Conversion.conversionId topics.conversions

/-- Messages are only appended. -/
structure Grows (topics topics' : Topics) : Prop where
  exposures : topics.exposures <+: topics'.exposures
  conversions : topics.conversions <+: topics'.conversions

/-- One record per conversion: of a fan-out the lowest household's. -/
def placeholders : List ResolvedConversion := oneRowPerConversion (topics.resolved index)

/-- The exposures a drain decides a conversion over: the eligible ones its release sees. -/
def decidedOver (allowedLateness : Int) (c : ResolvedConversion) : List Exposure :=
  eligible (visibleTo allowedLateness topics.exposures (topics.resolved index) c) c hotWindow

end Topics

/-- No two distinct rows share conversion, version and path. -/
def TotallyOrdered (log : List AttributedConversion) : Prop :=
  ∀ x ∈ log, ∀ y ∈ log, x.conversionId = y.conversionId → x.processedAt = y.processedAt → x.path = y.path → x = y

/-- Every hot row of a certain conversion names the exposures the drain decides it over. -/
def HotSettled (index : GraphIndex) (allowedLateness : Int) (topics : Topics) (lake : Lake) : Prop :=
  ∀ y ∈ lake.attributed, y.path = .hot → ∀ c ∈ topics.placeholders index, c.conversionId = y.conversionId →
    c.candidateCount = 1 → ∀ id, y.exposureId = some id ∨ id ∈ y.assists ↔
      ∃ e ∈ topics.decidedOver index allowedLateness c, e.exposureId = id

/-- No conversion a pass recovers has a reconciled row of the pass's version. -/
def FreshVersion (d : Driver) (σ : System) : Prop :=
  ∀ r ∈ candidateRows σ.lake.attributed, (∃ days, d.days σ.lake.attributed = .ok days ∧ dayOf r.eventTime ∈ days) →
    Recoverable σ.lake.exposures longWindow r → ∀ y ∈ σ.lake.attributed, y.conversionId = r.conversionId →
      y.path = .reconciled → y.processedAt ≠ toUtcMs (reconciledAtFor σ.serving.maxIngest)

/-- What the drains and the passes of a run are asked to meet. -/
structure Conditions where
  drain : Int → Topics → Lake → Prop
  pass : Driver → System → Prop

def Conditions.none : Conditions := ⟨fun _ _ _ => True, fun _ _ => True⟩
def Conditions.steady (index : GraphIndex) : Conditions := ⟨HotSettled index, FreshVersion⟩

/-- Drains of growing topics against one device graph and passes, each stopped anywhere;
ClickHouse is whatever loads, replays and losses make of it. -/
inductive DrainRun (bucketOf : String → Nat) (index : GraphIndex) (conditions : Conditions) : Topics → System → Prop where
  | start : DrainRun bucketOf index conditions ⟨[], []⟩ ⟨Lake.empty, Serving.empty⟩
  | drain {topics topics' : Topics} {σ σ' : System} {dedup : Bool} {allowedLateness : Int} {run : EngineRun} :
      DrainRun bucketOf index conditions topics σ → topics.Grows topics' → topics'.Identified →
      runEngine dedup allowedLateness index topics'.exposures topics'.conversions = .ok run →
      conditions.drain allowedLateness topics' σ.lake → (landRun run).Leaves σ σ' →
      DrainRun bucketOf index conditions topics' σ'
  | serve {topics : Topics} {σ : System} (s : Serving) : DrainRun bucketOf index conditions topics σ →
      DrainRun bucketOf index conditions topics { σ with serving := s }
  | pass {topics : Topics} {σ σ' : System} {d : Driver} : DrainRun bucketOf index conditions topics σ →
      conditions.pass d σ → (d.script bucketOf).Leaves σ σ' → DrainRun bucketOf index conditions topics σ'

/-- Every hot row is the decision of a message in the topics over some of their exposures. -/
def Decided (index : GraphIndex) (topics : Topics) (log : List AttributedConversion) : Prop :=
  ∀ y ∈ log, y.path = .hot → ∃ c ∈ topics.placeholders index, ∃ seen r,
    (∀ e ∈ seen, e ∈ topics.exposures) ∧ HotRow (topics.resolved index) seen c r ∧ y = landedRow r

section growth
variable {index : GraphIndex} {topics topics' : Topics} {c r : ResolvedConversion}

/-- Growth brings no new record of a conversion that was there. -/
theorem Topics.Grows.mem_resolved (h : topics.Grows topics') (hk : topics'.Identified)
    (hc : c ∈ topics.resolved index) (hid : r.conversionId = c.conversionId) :
    r ∈ topics'.resolved index ↔ r ∈ topics.resolved index := by
  obtain ⟨conv, hconv, hcr⟩ := mem_resolveStream.mp hc
  constructor
  · intro hr
    obtain ⟨conv', hconv', hr⟩ := mem_resolveStream.mp hr
    rw [(mem_resolveOne hr).1, (mem_resolveOne hcr).1] at hid
    rw [hk.conversions conv' hconv' conv (h.conversions.subset hconv) hid] at hr
    exact mem_resolveStream.mpr ⟨conv, hconv, hr⟩
  · intro hr
    obtain ⟨conv', hconv', hr⟩ := mem_resolveStream.mp hr
    exact mem_resolveStream.mpr ⟨conv', h.conversions.subset hconv', hr⟩

private theorem Topics.Identified.wellResolved (h : topics.Identified) : WellResolved (topics.resolved index) :=
  wellResolved_resolveStream index h.conversions

private theorem Topics.Grows.identified (h : topics.Grows topics') (hk : topics'.Identified) : topics.Identified :=
  ⟨hk.exposures.mono fun _ he => h.exposures.subset he, hk.conversions.mono fun _ hc => h.conversions.subset hc⟩

theorem Topics.Grows.placeholder (h : topics.Grows topics') (hk : topics'.Identified)
    (hc : c ∈ topics.placeholders index) : c ∈ topics'.placeholders index := by
  obtain ⟨hmem, hlow⟩ := (mem_oneRowPerConversion (h.identified hk).wellResolved).mp hc
  refine (mem_oneRowPerConversion hk.wellResolved).mpr ⟨(h.mem_resolved hk hmem rfl).mpr hmem, fun r hr hid => ?_⟩
  exact hlow r ((h.mem_resolved hk hmem hid).mp hr) hid

/-- A decision stays one of the grown topics. -/
theorem Topics.Grows.hotRow (h : topics.Grows topics') (hk : topics'.Identified) {seen : List Exposure}
    {row : AttributedConversion} (hc : c ∈ topics.placeholders index) (hrow : HotRow (topics.resolved index) seen c row) :
    HotRow (topics'.resolved index) seen c row := by
  by_cases hone : c.candidateCount = 1
  · exact (hotRow_certain_iff hone).mpr ((hotRow_certain_iff hone).mp hrow)
  · have hw : WellResolved (topics.resolved index) := (h.identified hk).wellResolved
    have hmem := ((mem_oneRowPerConversion hw).mp hc).1
    have hmem' := (h.mem_resolved hk hmem rfl).mpr hmem
    have hsame : householdsOf (topics'.resolved index) c.conversionId =
        householdsOf (topics.resolved index) c.conversionId := by
      apply sortedSet_congr
      intro k
      simp only [List.mem_map, List.mem_filter, decide_eq_true_eq]
      constructor
      · intro hr
        obtain ⟨r, ⟨hr, hid⟩, he⟩ := hr
        exact ⟨r, ⟨(h.mem_resolved hk hmem hid).mp hr, hid⟩, he⟩
      · intro hr
        obtain ⟨r, ⟨hr, hid⟩, he⟩ := hr
        exact ⟨r, ⟨(h.mem_resolved hk hmem hid).mpr hr, hid⟩, he⟩
    obtain ⟨row', hrow'⟩ := exists_hotRow hk.wellResolved hmem' seen
    have heq := hrow'.deferred hk.wellResolved hmem' hone
    simp only [hsame] at heq
    rw [hrow.deferred hw hmem hone, ← heq]
    exact hrow'

theorem Decided.grows {log : List AttributedConversion} (hd : Decided index topics log) (h : topics.Grows topics')
    (hk : topics'.Identified) : Decided index topics' log := by
  intro y hy hhot
  obtain ⟨c, hc, seen, r, hseen, hrow, he⟩ := hd y hy hhot
  exact ⟨c, h.placeholder hk hc, seen, r, fun e hmem => h.exposures.subset (hseen e hmem), h.hotRow hk hc hrow, he⟩

end growth

section drains
variable {index : GraphIndex} {topics : Topics} {allowedLateness : Int} {lake : Lake} {run : EngineRun}

/-- Two decisions of a certain conversion land as one row when they touch the same exposures,
and only then. -/
theorem landedRow_eq_iff {resolved : List ResolvedConversion} {c : ResolvedConversion} {seen seen' : List Exposure}
    {r r' : AttributedConversion} (hone : c.candidateCount = 1) (hk : Keyed Exposure.exposureId topics.exposures)
    (hseen : ∀ e ∈ seen, e ∈ topics.exposures) (hseen' : ∀ e ∈ seen', e ∈ topics.exposures)
    (h : HotRow resolved seen c r) (h' : HotRow resolved seen' c r') :
    landedRow r = landedRow r' ↔ ∀ id, r.exposureId = some id ∨ id ∈ r.assists ↔
      ∃ e ∈ eligible seen' c hotWindow, e.exposureId = id := by
  have hrow := (hotRow_certain_iff hone).mp h
  have hrow' := (hotRow_certain_iff hone).mp h'
  constructor
  · intro he id
    have hcredit : (landedRow r).exposureId = (landedRow r').exposureId := by rw [he]
    have hassists : (landedRow r).assists = (landedRow r').assists := by rw [he]
    change r.exposureId = r'.exposureId at hcredit
    change r.assists = r'.assists at hassists
    rw [hcredit, hassists, hrow']
    exact touched_iff
  · intro hall
    have hsame (e : Exposure) : e ∈ eligible seen c hotWindow ↔ e ∈ eligible seen' c hotWindow := by
      have hids (id : String) : (∃ f ∈ eligible seen c hotWindow, f.exposureId = id) ↔
          ∃ f ∈ eligible seen' c hotWindow, f.exposureId = id := by
        rw [← hall, hrow]
        exact touched_iff.symm
      constructor
      · intro he
        obtain ⟨f, hf, hid⟩ := (hids e.exposureId).mp ⟨e, he, rfl⟩
        rwa [← hk f (hseen' f (mem_eligible.mp hf).1) e (hseen e (mem_eligible.mp he).1) hid]
      · intro he
        obtain ⟨f, hf, hid⟩ := (hids e.exposureId).mpr ⟨e, he, rfl⟩
        rwa [← hk f (hseen f (mem_eligible.mp hf).1) e (hseen' e (mem_eligible.mp he).1) hid]
    have hkseen : Keyed Exposure.exposureId seen := hk.mono hseen
    obtain ⟨_, h⟩ := h
    obtain ⟨_, h'⟩ := h'
    rw [attributeOne_certain hone, lastTouch_congr hkseen hsame, ← attributeOne_certain hone, h'] at h
    cases h
    rfl

private theorem mem_exposures_of_visibleTo {c : ResolvedConversion} {e : Exposure}
    (he : e ∈ visibleTo allowedLateness topics.exposures (topics.resolved index) c) : e ∈ topics.exposures :=
  (mem_householdExposures.mp (mem_visibleTo.mp he).1).1

/-- The rows of a drain are decisions over the messages it drained. -/
theorem hotRows_of_runEngine (hk : topics.Identified) {dedup : Bool}
    (h : runEngine dedup allowedLateness index topics.exposures topics.conversions = .ok run) :
    HotRows (topics.resolved index) (visibleTo allowedLateness topics.exposures (topics.resolved index)) run.rows := by
  obtain ⟨run', hrun', hrows⟩ := exists_runEngine dedup allowedLateness index hk.exposures hk.conversions
  rw [h] at hrun'
  cases hrun'
  exact hrows

theorem Decided.landed {log : List AttributedConversion} (hd : Decided index topics log)
    (hrows : HotRows (topics.resolved index) (visibleTo allowedLateness topics.exposures (topics.resolved index))
      run.rows) : Decided index topics (log ++ run.rows.map landedRow) := by
  intro y hy hhot
  rcases List.mem_append.mp hy with hy | hy
  · exact hd y hy hhot
  · obtain ⟨r, hr, rfl⟩ := List.mem_map.mp hy
    obtain ⟨c, hc, hrow⟩ := (hrows.mem r).mp hr
    exact ⟨c, hc, _, r, fun _ => mem_exposures_of_visibleTo, hrow, rfl⟩

private theorem Topics.placeholder_unique {c d : ResolvedConversion} (hc : c ∈ topics.placeholders index)
    (hd : d ∈ topics.placeholders index) (hid : c.conversionId = d.conversionId) : c = d :=
  keyed_of_nodup (nodup_conversionId_oneRowPerConversion _) c hc d hd hid

private theorem HotRow.landed_conversionId {resolved : List ResolvedConversion} {seen : List Exposure}
    {c : ResolvedConversion}
    {r : AttributedConversion} (h : HotRow resolved seen c r) : (landedRow r).conversionId = c.conversionId := by
  rw [landedRow_conversionId, ← h.keeps]

/-- Versions kept apart tell that the drain decided the landed conversions as they were. -/
theorem hotSettled_of_totallyOrdered (hk : topics.Identified) (hd : Decided index topics lake.attributed)
    (hrows : HotRows (topics.resolved index) (visibleTo allowedLateness topics.exposures (topics.resolved index))
      run.rows) (h : TotallyOrdered (lake.landAttributed run.rows).attributed) :
    HotSettled index allowedLateness topics lake := by
  have hw : WellResolved (topics.resolved index) := hk.wellResolved
  intro y hy hhot c hc hcid hone
  obtain ⟨d, hdp, seen, r, hseen, hrow, rfl⟩ := hd y hy hhot
  obtain rfl := Topics.placeholder_unique hc hdp (hcid.trans hrow.landed_conversionId)
  obtain ⟨r', hrow'⟩ := exists_hotRow hw ((mem_oneRowPerConversion hw).mp hc).1
    (visibleTo allowedLateness topics.exposures (topics.resolved index) c)
  have hnew : landedRow r' ∈ (lake.landAttributed run.rows).attributed :=
    List.mem_append_right _ (List.mem_map_of_mem ((hrows.mem r').mpr ⟨c, hc, hrow'⟩))
  have hversion : (landedRow r).processedAt = (landedRow r').processedAt :=
    congrArg toUtcMs (hrow.hotRecord.processedAt.trans hrow'.hotRecord.processedAt.symm)
  have hpath : (landedRow r).path = (landedRow r').path := hhot.trans hrow'.hotRecord.path.symm
  have htwin := h _ (List.mem_append_left _ hy) _ hnew
    (hrow.landed_conversionId.trans hrow'.landed_conversionId.symm) hversion hpath
  exact (landedRow_eq_iff hone hk.exposures hseen (fun _ => mem_exposures_of_visibleTo) hrow hrow').mp htwin

/-- A hot row in the log and a row of the drain for one conversion are one row. -/
theorem HotSettled.eq_landed (hk : topics.Identified) (hd : Decided index topics lake.attributed)
    (hrows : HotRows (topics.resolved index) (visibleTo allowedLateness topics.exposures (topics.resolved index))
      run.rows) (hsettled : HotSettled index allowedLateness topics lake) {y r : AttributedConversion}
    (hy : y ∈ lake.attributed) (hr : r ∈ run.rows) (hyr : y.conversionId = (landedRow r).conversionId)
    (hpath : y.path = (landedRow r).path) : y = landedRow r := by
  obtain ⟨c, hc, hrow⟩ := (hrows.mem r).mp hr
  have hhot : y.path = .hot := hpath.trans hrow.hotRecord.path
  obtain ⟨d, hdp, seen, r₀, hseen, hrow₀, rfl⟩ := hd y hy hhot
  obtain rfl := Topics.placeholder_unique hdp hc
    (hrow₀.landed_conversionId.symm.trans (hyr.trans hrow.landed_conversionId))
  by_cases hone : d.candidateCount = 1
  · rw [landedRow_eq_iff hone hk.exposures hseen (fun _ => mem_exposures_of_visibleTo) hrow₀ hrow]
    exact hsettled _ hy hhot d hc hrow₀.landed_conversionId.symm hone
  · rw [((hotRow_ambiguous_iff hone _).mp hrow₀).unique hrow]

/-- A drain keeps the log's versions apart exactly when it decides every certain conversion
landed before as it was decided then. -/
theorem totallyOrdered_drain_iff (hk : topics.Identified) (hd : Decided index topics lake.attributed)
    (hrows : HotRows (topics.resolved index) (visibleTo allowedLateness topics.exposures (topics.resolved index))
      run.rows) :
    TotallyOrdered (lake.landAttributed run.rows).attributed ↔
      TotallyOrdered lake.attributed ∧ HotSettled index allowedLateness topics lake := by
  constructor
  · intro h
    exact ⟨fun x hx y hy => h x (List.mem_append_left _ hx) y (List.mem_append_left _ hy),
      hotSettled_of_totallyOrdered hk hd hrows h⟩
  · intro h x hx y hy hxy hversion hpath
    obtain ⟨hold, hsettled⟩ := h
    rcases List.mem_append.mp hx with hx | hx
    · rcases List.mem_append.mp hy with hy | hy
      · exact hold x hx y hy hxy hversion hpath
      · obtain ⟨r, hr, rfl⟩ := List.mem_map.mp hy
        exact hsettled.eq_landed hk hd hrows hx hr hxy hpath
    · obtain ⟨r, hr, rfl⟩ := List.mem_map.mp hx
      rcases List.mem_append.mp hy with hy | hy
      · exact (hsettled.eq_landed hk hd hrows hy hr hxy.symm hpath.symm).symm
      · obtain ⟨r', hr', rfl⟩ := List.mem_map.mp hy
        rw [hrows.hotRun.keyed r hr r' hr' hxy]

/-- What a row tells of its message: id, event time, and the households the graph gives it. -/
structure TracedTo (index : GraphIndex) (conv : Conversion) (y : AttributedConversion) : Prop where
  conversionId : conv.conversionId = y.conversionId
  eventTime : toUtcMs conv.eventTime = y.eventTime
  households : ∀ h, h ∈ householdsOfRow y ↔ h ∈ candidateHouseholdsOf conv index

/-- The lake of a run: sound, made of the messages drained so far, every hot row a decision. -/
structure FromTopics (index : GraphIndex) (topics : Topics) (lake : Lake) : Prop where
  sound : SoundLake lake
  exposures : ∀ e ∈ lake.exposures, ∃ x ∈ topics.exposures, landedExposure x = e
  rows : ∀ y ∈ lake.attributed, ∃ conv ∈ topics.conversions, TracedTo index conv y
  decided : Decided index topics lake.attributed

theorem FromTopics.grows {topics' : Topics} (h : FromTopics index topics lake) (hg : topics.Grows topics')
    (hk : topics'.Identified) : FromTopics index topics' lake where
  sound := h.sound
  exposures e he := by
    obtain ⟨x, hx, hxe⟩ := h.exposures e he
    exact ⟨x, hg.exposures.subset hx, hxe⟩
  rows y hy := by
    obtain ⟨conv, hconv, ht⟩ := h.rows y hy
    exact ⟨conv, hg.conversions.subset hconv, ht⟩
  decided := h.decided.grows hg hk

private theorem tracedTo_landedRow {c : ResolvedConversion} {seen : List Exposure} {r : AttributedConversion}
    (hk : topics.Identified) (hc : c ∈ topics.placeholders index) (hrow : HotRow (topics.resolved index) seen c r) :
    ∃ conv ∈ topics.conversions, TracedTo index conv (landedRow r) := by
  have hres := ((mem_oneRowPerConversion hk.wellResolved).mp hc).1
  obtain ⟨conv, hconv, hcr⟩ := mem_resolveStream.mp hres
  have hconv' : r.toConversion = conv := by
    rw [← (mem_resolveOne hcr).1, ← hrow.keeps]
  have hplaced : PlacedBy index r := placedBy_of_hotRow hk.conversions hres hrow
  rw [PlacedBy, hconv'] at hplaced
  refine ⟨conv, hconv, ?_, ?_, hplaced⟩
  · rw [← hconv']
    rfl
  · rw [← hconv']
    rfl

private theorem mem_exposures_of_runEngine (hk : topics.Identified) {dedup : Bool}
    (h : runEngine dedup allowedLateness index topics.exposures topics.conversions = .ok run) {e : Exposure}
    (he : e ∈ run.exposures) : e ∈ topics.exposures := by
  obtain ⟨rows, _, h⟩ := bind_eq_ok_iff.mp h
  rw [← Except.ok.inj h] at he
  exact (mem_engineStreams_exposures (resolveStream topics.conversions index) dedup hk.exposures).mp he

/-- What a drain lands keeps with the records landed so far. -/
theorem FromTopics.lands (h : FromTopics index topics lake) (hk : topics.Identified) {dedup : Bool}
    (hrun : runEngine dedup allowedLateness index topics.exposures topics.conversions = .ok run) : Lands lake run := by
  have hrows := hotRows_of_runEngine hk hrun
  have hexposures : ∀ e ∈ (lake.land run.exposures).exposures, ∃ x ∈ topics.exposures, landedExposure x = e := by
    intro e he
    rcases List.mem_append.mp he with he | he
    · exact h.exposures e he
    · obtain ⟨x, hx, rfl⟩ := List.mem_map.mp he
      exact ⟨x, mem_exposures_of_runEngine hk hrun hx, rfl⟩
  refine ⟨hrows.hotRun, ?_, ?_⟩
  · intro e he f hf hid
    obtain ⟨x, hx, rfl⟩ := hexposures e he
    obtain ⟨y, hy, rfl⟩ := hexposures f hf
    rw [hk.exposures x hx y hy hid]
  · have htraced : ∀ y ∈ (lake.landAttributed run.rows).attributed, ∃ conv ∈ topics.conversions, TracedTo index conv y := by
      intro y hy
      rcases List.mem_append.mp hy with hy | hy
      · exact h.rows y hy
      · obtain ⟨r, hr, rfl⟩ := List.mem_map.mp hy
        obtain ⟨c, hc, hrow⟩ := (hrows.mem r).mp hr
        exact tracedTo_landedRow hk hc hrow
    intro r hr s hs hid
    obtain ⟨conv, hconv, ht⟩ := htraced r hr
    obtain ⟨conv', hconv', ht'⟩ := htraced s hs
    have hsame := hk.conversions conv hconv conv' hconv' (ht.conversionId.trans (hid.trans ht'.conversionId.symm))
    rw [← ht.eventTime, ← ht'.eventTime, hsame]

theorem FromTopics.land (h : FromTopics index topics lake) (hk : topics.Identified) {dedup : Bool}
    (hrun : runEngine dedup allowedLateness index topics.exposures topics.conversions = .ok run) :
    FromTopics index topics (lake.land run.exposures) where
  sound := h.sound.land (h.lands hk hrun)
  exposures e he := by
    rcases List.mem_append.mp he with he | he
    · exact h.exposures e he
    · obtain ⟨x, hx, rfl⟩ := List.mem_map.mp he
      exact ⟨x, mem_exposures_of_runEngine hk hrun hx, rfl⟩
  rows := h.rows
  decided := h.decided

theorem FromTopics.landRun (h : FromTopics index topics lake) (hk : topics.Identified) {dedup : Bool}
    (hrun : runEngine dedup allowedLateness index topics.exposures topics.conversions = .ok run) :
    FromTopics index topics ((lake.land run.exposures).landAttributed run.rows) where
  sound := h.sound.landRun (h.lands hk hrun)
  exposures := (h.land hk hrun).exposures
  rows y hy := by
    rcases List.mem_append.mp hy with hy | hy
    · exact h.rows y hy
    · obtain ⟨r, hr, rfl⟩ := List.mem_map.mp hy
      obtain ⟨c, hc, hrow⟩ := ((hotRows_of_runEngine hk hrun).mem r).mp hr
      exact tracedTo_landedRow hk hc hrow
  decided := h.decided.landed (hotRows_of_runEngine hk hrun)

/-- A correction stays with the households of its candidate. -/
theorem householdsOfRow_correction {exposures : List Exposure} {window reconciledAt : Int} {r x : AttributedConversion}
    (hx : correction exposures window reconciledAt r = some x) : householdsOfRow x = householdsOfRow r := by
  obtain ⟨w, _, hw, rfl⟩ := correction_eq_some.mp hx
  have hin : w.householdId ∈ householdsOfRow r := (mem_creditable.mp (List.argmax_mem hw)).2
  change (if r.candidateCount > 1 then r.candidateHouseholds else [w.householdId]) = householdsOfRow r
  unfold householdsOfRow at hin ⊢
  split
  · rfl
  · rename_i hone
    rw [if_neg hone, List.mem_singleton] at hin
    rw [hin]

/-- Corrections are traced to the messages of their candidates. -/
theorem FromTopics.corrected {reconciledAt : Int} {σ σ' : System} {days : List Int} {rows : List AttributedConversion}
    (h : FromTopics index topics σ.lake) (hc : Corrected reconciledAt σ days rows σ') :
    FromTopics index topics σ'.lake where
  sound := hc.soundLake h.sound
  exposures := by
    rw [hc.lake]
    exact h.exposures
  rows y hy := by
    rw [hc.lake] at hy
    rcases List.mem_append.mp hy with hy | hy
    · exact h.rows y hy
    · obtain ⟨r, hr, _, x, hx, rfl⟩ := (hc.corrects.mem_iff y).mp hy
      have hlog := currentRow_mem (mem_candidateRows.mp hr).1
      obtain ⟨conv, hconv, ht⟩ := h.rows r hlog
      have hgrid : toUtcMs r.eventTime = r.eventTime :=
        congrArg (fun r : AttributedConversion => r.eventTime) (h.sound.rowsOnGrid r hlog)
      have htime : (landedRow x).eventTime = toUtcMs r.eventTime :=
        congrArg (fun c : Conversion => toUtcMs c.eventTime) (correction_fields hx).1
      have hhouseholds := householdsOfRow_correction hx
      change householdsOfRow (landedRow x) = householdsOfRow r at hhouseholds
      exact ⟨conv, hconv, ht.conversionId.trans (landed_correction hx).1.symm,
        by rw [htime, hgrid, ht.eventTime], fun h => by rw [hhouseholds, ht.households]⟩
  decided y hy hhot := by
    rw [hc.lake] at hy
    rcases List.mem_append.mp hy with hy | hy
    · exact h.decided y hy hhot
    · obtain ⟨_, _, _, x, hx, rfl⟩ := (hc.corrects.mem_iff y).mp hy
      exact absurd ((correction_fields hx).2.1.symm.trans hhot) nofun

end drains

section runs
variable {bucketOf : String → Nat} {index : GraphIndex} {conditions : Conditions} {topics : Topics} {σ σ' : System}

theorem DrainRun.fromTopics (h : DrainRun bucketOf index conditions topics σ) :
    FromTopics index topics σ.lake := by
  induction h with
  | start =>
    have hnone {α : Type} {x : α} {p : Prop} (hx : x ∈ ([] : List α)) : p := absurd hx List.not_mem_nil
    exact ⟨soundLake_empty, fun _ => hnone, fun _ => hnone, fun _ => hnone⟩
  | drain _ hg hk hrun _ hl ih =>
    have hgrown := ih.grows hg hk
    rcases leaves_landRun hl with rfl | rfl | rfl
    · exact hgrown
    · exact hgrown.land hk hrun
    · exact hgrown.landRun hk hrun
  | serve _ _ ih => exact ih
  | pass _ _ hl ih =>
    obtain ⟨_, _, _, hc⟩ := leaves_driver ih.sound hl
    exact ih.corrected hc

/-- A pass at a fresh version keeps the log's versions apart. -/
theorem Corrected.totallyOrdered {d : Driver} {days : List Int} {rows : List AttributedConversion}
    (hc : Corrected (reconciledAtFor σ.serving.maxIngest) σ days rows σ')
    (hdays : ∀ day ∈ days, ∃ all, d.days σ.lake.attributed = .ok all ∧ day ∈ all) (hfresh : FreshVersion d σ)
    (h : TotallyOrdered σ.lake.attributed) : TotallyOrdered σ'.lake.attributed := by
  have hversion {r x : AttributedConversion} (hx : correction σ.lake.exposures longWindow
      (reconciledAtFor σ.serving.maxIngest) r = some x) :
      (landedRow x).processedAt = toUtcMs (reconciledAtFor σ.serving.maxIngest) :=
    congrArg toUtcMs (correction_fields hx).2.2.1
  have hmixed {x y : AttributedConversion} (hx : x ∈ σ.lake.attributed) (hy : y ∈ rows.map landedRow)
      (hid : x.conversionId = y.conversionId) (hver : x.processedAt = y.processedAt) (hpath : x.path = y.path) :
      False := by
    obtain ⟨r, hr, hday, z, hz, rfl⟩ := (hc.corrects.mem_iff y).mp hy
    exact hfresh r hr (hdays _ hday) (exists_correction_iff.mp ⟨z, hz⟩) x hx
      (hid.trans (landed_correction hz).1) (hpath.trans (correction_fields hz).2.1) (hver.trans (hversion hz))
  rw [hc.lake]
  intro x hx y hy hid hver hpath
  rcases List.mem_append.mp hx with hx | hx
  · rcases List.mem_append.mp hy with hy | hy
    · exact h x hx y hy hid hver hpath
    · exact (hmixed hx hy hid hver hpath).elim
  · rcases List.mem_append.mp hy with hy | hy
    · exact (hmixed hy hx hid.symm hver.symm hpath.symm).elim
    · obtain ⟨r, hr, _, z, hz, rfl⟩ := (hc.corrects.mem_iff x).mp hx
      obtain ⟨r', hr', _, z', hz', rfl⟩ := (hc.corrects.mem_iff y).mp hy
      rw [(landed_correction hz).1, (landed_correction hz').1] at hid
      have hcur := (mem_candidateRows.mp hr).1
      rw [hid, (mem_candidateRows.mp hr').1] at hcur
      cases hcur
      rw [hz] at hz'
      cases hz'
      rfl

/-- A pass versioned above every row it corrects is at a fresh version. -/
theorem freshVersion_of_servedAbove {d : Driver} (hlake : SoundLake σ.lake) (hs : ServedFrom σ.lake σ.serving)
    (h : ∀ r ∈ candidateRows σ.lake.attributed, Recoverable σ.lake.exposures longWindow r →
      ServedAbove σ.serving r.processedAt) : FreshVersion d σ := by
  intro r hr _ hrec y hy hid _ hat
  have hlt := lt_reconciledAtFor_iff.mpr (h r hr hrec)
  have hmax : recordVersion y ≤ recordVersion r := currentRow_max (mem_candidateRows.mp hr).1 hy hid
  rw [toUtcMs_reconciledAtFor hlake hs] at hat
  rw [recordVersion, recordVersion, Prod.Lex.toLex_le_toLex] at hmax
  dsimp only at hmax
  omega

/-- The read of a totally ordered log is the same in whatever order it is scanned. -/
theorem TotallyOrdered.readCurrent_congr {log log' : List AttributedConversion} (h : TotallyOrdered log)
    (hlog : ∀ r, r ∈ log ↔ r ∈ log') (days : Option (List Int)) : readCurrent log' days = readCurrent log days := by
  have hkeyed : Keyed (fun r : AttributedConversion => (r.conversionId, recordVersion r)) log := by
    intro x hx y hy he
    obtain ⟨hid, hver⟩ := Prod.mk.inj he
    obtain ⟨hat, htext⟩ := Prod.mk.inj (toLex.injective hver)
    refine h x hx y hy hid hat ?_
    cases hx : x.path <;> cases hy : y.path <;> simp [hx, hy, Path.text] at htext ⊢
  have hscan (r : AttributedConversion) : r ∈ scanned log days ↔ r ∈ scanned log' days := by
    cases days with
    | none => exact hlog r
    | some days => simp only [scanned, List.mem_filter, hlog]
  have hsub : ∀ r ∈ scanned log days, r ∈ log := by
    intro r hr
    cases days with
    | none => exact hr
    | some days => exact (List.mem_filter.mp hr).1
  apply eq_of_strict_of_mem_iff _ (readCurrent_strict _ _) (readCurrent_strict _ _)
  intro r
  simp only [readCurrent, mem_sortedBy, mem_collapse, current_firstSeen]
  rw [current_congr (hkeyed.mono hsub) hscan]

end runs

section sample

/-- One conversion, two hours in. -/
def sampleTopics (exposures : List Exposure) : Topics := ⟨exposures, [sampleConversion "c" (2 * Time.hour) (2 * Time.hour)]⟩

/-- A drain at the default lateness. -/
def sampleDrain (exposures : List Exposure) : EngineRun :=
  (runEngine true (6 * Time.hour) sampleGraph exposures (sampleTopics exposures).conversions).toOption.getD ⟨[], [], 0, 0⟩

def Lake.drained (lake : Lake) (run : EngineRun) : Lake := (lake.land run.exposures).landAttributed run.rows

/-- What two drains leave, the first of one exposure. -/
def sampleDrained (e : Exposure) : Lake :=
  (Lake.empty.drained (sampleDrain [sampleExposure "e1" 0 0])).drained (sampleDrain [sampleExposure "e1" 0 0, e])

/-- Two drains with an exposure appended between them. -/
theorem sampleDrained_run {conditions : Conditions} {e : Exposure} (hid : e.exposureId ≠ "e1")
    (hok : runEngine true (6 * Time.hour) sampleGraph [sampleExposure "e1" 0 0, e] (sampleTopics []).conversions =
      .ok (sampleDrain [sampleExposure "e1" 0 0, e]))
    (hfirst : conditions.drain (6 * Time.hour) (sampleTopics [sampleExposure "e1" 0 0]) Lake.empty)
    (hthen : conditions.drain (6 * Time.hour) (sampleTopics [sampleExposure "e1" 0 0, e])
      (Lake.empty.drained (sampleDrain [sampleExposure "e1" 0 0]))) :
    DrainRun String.length sampleGraph conditions (sampleTopics [sampleExposure "e1" 0 0, e])
      ⟨sampleDrained e, Serving.empty⟩ := by
  have hone : DrainRun String.length sampleGraph conditions (sampleTopics [sampleExposure "e1" 0 0])
      ⟨Lake.empty.drained (sampleDrain [sampleExposure "e1" 0 0]), Serving.empty⟩ := by
    refine .drain .start ⟨List.nil_prefix, List.nil_prefix⟩ ⟨by simp [Keyed, sampleTopics], by simp [Keyed, sampleTopics]⟩
      (?_ : runEngine true (6 * Time.hour) sampleGraph _ _ = .ok (sampleDrain [sampleExposure "e1" 0 0])) hfirst
      (ends_landRun.mpr ⟨rfl, rfl⟩).leaves
    decide
  refine .drain hone ⟨⟨[e], rfl⟩, List.prefix_refl _⟩ ⟨?_, by simp [Keyed, sampleTopics]⟩ hok hthen
    (ends_landRun.mpr ⟨rfl, rfl⟩).leaves
  exact keyed_of_nodup (by simpa [sampleTopics, sampleExposure] using hid.symm)

end sample
end CtvAttribution
