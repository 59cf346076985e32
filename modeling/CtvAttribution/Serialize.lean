import CtvAttribution.Generator
import CtvAttribution.Library.JsonLines
import CtvAttribution.StoredLake

/-! Canonical serialization: a record is one line of JSON with its keys sorted, and is read back
from its line. -/
namespace CtvAttribution
open Library

/-- How the validation library writes times and floats and reads JSON. -/
structure Wire where
  timeText : Int → String
  floatText : Money → Numeral
  readJson : List Char → Option Doc
  readTime : Doc → Option Int
  readFloat : Doc → Option Money
  readInt : Doc → Option Nat
  readBool : Doc → Option Bool

/-- The wire reads what it wrote: documents of the models' depth, the given instants and amounts. -/
structure Wire.Lawful (w : Wire) (Instant : Int → Prop) (Amount : Money → Prop) : Prop where
  readJson : ∀ d, d.Within 3 → w.readJson (dumps d) = some d.sortKeys
  readTime : ∀ t, Instant t → w.readTime (.str (w.timeText t)) = some t
  readFloat : ∀ m, Amount m → w.readFloat (.num (w.floatText m)) = some m
  readInt : ∀ n, w.readInt (.num (.ofNat n)) = some n
  readBool : ∀ b, w.readBool (.bool b) = some b

/-- `canonical_bytes`, of a dumped model. -/
def canonicalBytes (d : Doc) : List UInt8 := utf8Encode (dumps d)

/-- `jsonl`. -/
def jsonl (ds : List Doc) : List Char := unlines (ds.map dumps)

def DeviceKind.text : DeviceKind → String
  | .tv => "tv"
  | .phone => "phone"
  | .laptop => "laptop"
  | .tablet => "tablet"

def DeviceKind.ofText : String → Option DeviceKind
  | "tv" => some .tv
  | "phone" => some .phone
  | "laptop" => some .laptop
  | "tablet" => some .tablet
  | _ => none

section dumps
variable (w : Wire)

/-- `model_dump(mode="json")`. -/
def Exposure.dump (e : Exposure) : List (String × Doc) :=
  [("exposure_id", .str e.exposureId), ("event_time", .str (w.timeText e.eventTime)),
    ("ingest_time", .str (w.timeText e.ingestTime)), ("campaign_id", .str e.campaignId),
    ("household_id", .str e.householdId), ("ip", .str e.ip), ("app_id", .str e.appId),
    ("program_genre", .str e.programGenre), ("spend", .num (w.floatText e.spend))]

def Conversion.dump (c : Conversion) : List (String × Doc) :=
  [("conversion_id", .str c.conversionId), ("event_time", .str (w.timeText c.eventTime)),
    ("ingest_time", .str (w.timeText c.ingestTime)), ("device_id", .str c.deviceId), ("ip", .str c.ip),
    ("conversion_type", .str c.conversionType.text), ("revenue", .num (w.floatText c.revenue)),
    ("order_id", optionalText c.orderId)]

def ResolvedConversion.dump (c : ResolvedConversion) : List (String × Doc) :=
  c.toConversion.dump w ++
    [("household_id", .str c.householdId), ("resolution", .str c.resolution.text), ("ambiguous", .bool c.ambiguous),
      ("candidate_count", .num (.ofNat c.candidateCount))]

def AttributedConversion.dump (r : AttributedConversion) : List (String × Doc) :=
  r.toResolvedConversion.dump w ++
    [("exposure_id", optionalText r.exposureId), ("assists", .arr (r.assists.map .str)),
      ("attributed", .bool r.attributed), ("path", .str r.path.text),
      ("processed_at", .str (w.timeText r.processedAt)), ("reason", optionalText (r.reason.map Reason.text)),
      ("candidate_households", .arr (r.candidateHouseholds.map .str))]

def Device.dump (d : Device) : Doc := .obj [("device_id", .str d.deviceId), ("kind", .str d.kind.text)]

def Household.dump (h : Household) : List (String × Doc) :=
  [("household_id", .str h.householdId), ("devices", .arr (h.devices.map Device.dump)), ("ips", .arr (h.ips.map .str))]

def TruthLink.dump (l : TruthLink) : List (String × Doc) :=
  [("conversion_id", .str l.conversionId), ("truth_exposure_id", .str l.truthExposureId)]

end dumps

section validation
variable (w : Wire)

def Exposure.validate (d : Doc) : Option Exposure := do
  let fs ← d.only ["exposure_id", "event_time", "ingest_time", "campaign_id", "household_id", "ip", "app_id",
    "program_genre", "spend"]
  let exposureId ← (field? fs "exposure_id").bind Doc.str?
  let eventTime ← (field? fs "event_time").bind w.readTime
  let ingestTime ← (field? fs "ingest_time").bind w.readTime
  let campaignId ← (field? fs "campaign_id").bind Doc.str?
  let householdId ← (field? fs "household_id").bind Doc.str?
  let ip ← (field? fs "ip").bind Doc.str?
  let appId ← (field? fs "app_id").bind Doc.str?
  let programGenre ← (field? fs "program_genre").bind Doc.str?
  let spend ← (field? fs "spend").bind w.readFloat
  return { exposureId, eventTime, ingestTime, campaignId, householdId, ip, appId, programGenre, spend }

/-- The fields of `Conversion`. -/
def conversionOf (fs : List (String × Doc)) : Option Conversion := do
  let conversionId ← (field? fs "conversion_id").bind Doc.str?
  let eventTime ← (field? fs "event_time").bind w.readTime
  let ingestTime ← (field? fs "ingest_time").bind w.readTime
  let deviceId ← (field? fs "device_id").bind Doc.str?
  let ip ← (field? fs "ip").bind Doc.str?
  let conversionType ← ((field? fs "conversion_type").bind Doc.str?).bind ConversionType.ofText
  let revenue ← (field? fs "revenue").bind w.readFloat
  let orderId ← (field? fs "order_id").bind Doc.strOrNull?
  return { conversionId, eventTime, ingestTime, deviceId, ip, conversionType, revenue, orderId }

def conversionFields : List String :=
  ["conversion_id", "event_time", "ingest_time", "device_id", "ip", "conversion_type", "revenue", "order_id"]

def Conversion.validate (d : Doc) : Option Conversion := (d.only conversionFields).bind (conversionOf w)

def ResolvedConversion.validate (d : Doc) : Option ResolvedConversion := do
  let fs ← d.only (conversionFields ++ ["household_id", "resolution", "ambiguous", "candidate_count"])
  let conv ← conversionOf w fs
  let householdId ← (field? fs "household_id").bind Doc.str?
  let resolution ← ((field? fs "resolution").bind Doc.str?).bind Resolution.ofText
  let ambiguous ← (field? fs "ambiguous").bind w.readBool
  let candidateCount ← (field? fs "candidate_count").bind w.readInt
  if h : 1 ≤ candidateCount then
    some { conv with householdId, resolution, ambiguous, candidateCount, candidateCount_pos := h }
  else none

def Device.validate (d : Doc) : Option Device := do
  let fs ← d.only ["device_id", "kind"]
  let deviceId ← (field? fs "device_id").bind Doc.str?
  let kind ← ((field? fs "kind").bind Doc.str?).bind DeviceKind.ofText
  return { deviceId, kind }

def Household.validate (d : Doc) : Option Household := do
  let fs ← d.only ["household_id", "devices", "ips"]
  let householdId ← (field? fs "household_id").bind Doc.str?
  let devices ← ((field? fs "devices").bind Doc.items?).bind fun ds => ds.mapM Device.validate
  let ips ← ((field? fs "ips").bind Doc.items?).bind fun ds => ds.mapM Doc.str?
  return { householdId, devices, ips }

/-- `model_validate_json` of a text. -/
def validateText {α : Type} (validate : Doc → Option α) (text : List Char) : Option α := (w.readJson text).bind validate

/-- `model_validate_json` of a message value. -/
def validateBytes {α : Type} (validate : Doc → Option α) (bytes : List UInt8) : Option α :=
  (utf8Decode bytes).bind (validateText w validate)

/-- `_read`, of a file's text. -/
def readLines {α : Type} (validate : Doc → Option α) (text : List Char) : Option (List α) :=
  (splitlines text).mapM (validateText w validate)

end validation

section roundTrip
variable {w : Wire} {Instant : Int → Prop} {Amount : Money → Prop}

/-- The record's times and amounts are of the kind the wire reads back. -/
def Exposure.Carried (Instant : Int → Prop) (Amount : Money → Prop) (e : Exposure) : Prop :=
  Instant e.eventTime ∧ Instant e.ingestTime ∧ Amount e.spend

def Conversion.Carried (Instant : Int → Prop) (Amount : Money → Prop) (c : Conversion) : Prop :=
  Instant c.eventTime ∧ Instant c.ingestTime ∧ Amount c.revenue

private theorem validate_exposure (h : w.Lawful Instant Amount) {e : Exposure} (he : e.Carried Instant Amount) :
    Exposure.validate w (Doc.obj (e.dump w)).sortKeys = some e := by
  obtain ⟨hevent, hingest, hspend⟩ := he
  obtain ⟨fs, hfs, hfield⟩ := exists_only_sortKeys (e.dump w) ["exposure_id", "event_time", "ingest_time", "campaign_id",
    "household_id", "ip", "app_id", "program_genre", "spend"] (by simp [Exposure.dump]) (by simp [Exposure.dump])
  rw [Exposure.validate, hfs]
  simp [hfield, Exposure.dump, Doc.str?, h.readTime _ hevent, h.readTime _ hingest, h.readFloat _ hspend]

/-- The fields of a conversion stand in the dump of each model that extends it. -/
theorem conversionOf_eq (h : w.Lawful Instant Amount) {c : Conversion} (hc : c.Carried Instant Amount)
    {fs : List (String × Doc)} (more : List (String × Doc))
    (hfield : ∀ k, field? fs k = ((c.dump w ++ more).find? fun f => f.1 == k).map fun f => f.2.sortKeys) :
    conversionOf w fs = some c := by
  obtain ⟨hevent, hingest, hrevenue⟩ := hc
  simp [conversionOf, hfield, Conversion.dump, Doc.str?, h.readTime _ hevent, h.readTime _ hingest,
    h.readFloat _ hrevenue]

private theorem validate_conversion (h : w.Lawful Instant Amount) {c : Conversion} (hc : c.Carried Instant Amount) :
    Conversion.validate w (Doc.obj (c.dump w)).sortKeys = some c := by
  obtain ⟨fs, hfs, hfield⟩ := exists_only_sortKeys (c.dump w) conversionFields (by simp [Conversion.dump])
    (by simp [Conversion.dump, conversionFields])
  rw [Conversion.validate, hfs, Option.bind_some]
  refine conversionOf_eq h hc [] ?_
  rw [List.append_nil]
  exact hfield

private theorem validate_resolvedConversion (h : w.Lawful Instant Amount) {c : ResolvedConversion}
    (hc : c.toConversion.Carried Instant Amount) :
    ResolvedConversion.validate w (Doc.obj (c.dump w)).sortKeys = some c := by
  obtain ⟨fs, hfs, hfield⟩ := exists_only_sortKeys (c.dump w)
    (conversionFields ++ ["household_id", "resolution", "ambiguous", "candidate_count"])
    (by simp [ResolvedConversion.dump, Conversion.dump])
    (by simp [ResolvedConversion.dump, Conversion.dump, conversionFields])
  have hconv : conversionOf w fs = some c.toConversion := conversionOf_eq h hc _ hfield
  rw [ResolvedConversion.validate, hfs]
  simp [hconv, hfield, ResolvedConversion.dump, Conversion.dump, Doc.str?, h.readBool, h.readInt, c.candidateCount_pos]

@[simp] theorem ofText_deviceKind (k : DeviceKind) : DeviceKind.ofText k.text = some k := by
  cases k <;> rfl

private theorem validate_device (d : Device) : Device.validate d.dump.sortKeys = some d := by
  obtain ⟨fs, hfs, hfield⟩ := exists_only_sortKeys [("device_id", .str d.deviceId), ("kind", .str d.kind.text)]
    ["device_id", "kind"] (by simp) (by simp)
  rw [Device.validate, Device.dump, hfs]
  simp [hfield, Doc.str?]

private theorem validate_household (x : Household) : Household.validate (Doc.obj x.dump).sortKeys = some x := by
  obtain ⟨fs, hfs, hfield⟩ := exists_only_sortKeys x.dump ["household_id", "devices", "ips"] (by simp [Household.dump])
    (by simp [Household.dump])
  have hdevices : (x.devices.map (Doc.sortKeys ∘ Device.dump)).mapM Device.validate = some x.devices :=
    mapM_map_eq_some fun d _ => validate_device d
  have hips : (x.ips.map (Doc.sortKeys ∘ Doc.str)).mapM Doc.str? = some x.ips :=
    mapM_map_eq_some fun _ _ => by rfl
  rw [Household.validate, hfs]
  simp [hfield, Household.dump, Doc.str?, Doc.items?, hdevices, hips]

/-- A dumped record that its line gives back. -/
def Trips {α : Type} (dump : α → List (String × Doc)) (validate : Doc → Option α) (a : α) : Prop :=
  (Doc.obj (dump a)).Within 3 ∧ validate (Doc.obj (dump a)).sortKeys = some a

theorem trips_exposure (h : w.Lawful Instant Amount) {e : Exposure} (he : e.Carried Instant Amount) :
    Trips (Exposure.dump w) (Exposure.validate w) e := by
  refine ⟨?_, validate_exposure h he⟩
  simp [Doc.Within, Exposure.dump]

theorem trips_conversion (h : w.Lawful Instant Amount) {c : Conversion} (hc : c.Carried Instant Amount) :
    Trips (Conversion.dump w) (Conversion.validate w) c := by
  refine ⟨?_, validate_conversion h hc⟩
  simp [Doc.Within, Conversion.dump, within_optionalText]

theorem trips_resolvedConversion (h : w.Lawful Instant Amount) {c : ResolvedConversion}
    (hc : c.toConversion.Carried Instant Amount) :
    Trips (ResolvedConversion.dump w) (ResolvedConversion.validate w) c := by
  refine ⟨?_, validate_resolvedConversion h hc⟩
  simp [Doc.Within, ResolvedConversion.dump, Conversion.dump, within_optionalText]

theorem trips_household (x : Household) : Trips Household.dump Household.validate x := by
  refine ⟨?_, validate_household x⟩
  simp [Doc.Within, Household.dump, Device.dump]

variable {α : Type} {dump : α → List (String × Doc)} {validate : Doc → Option α}

private theorem validateText_dumps (h : w.Lawful Instant Amount) {a : α} (ha : Trips dump validate a) :
    validateText w validate (dumps (.obj (dump a))) = some a := by
  rw [validateText, h.readJson _ ha.1, Option.bind_some, ha.2]

/-- What was produced is what is consumed. -/
theorem validateBytes_canonicalBytes (h : w.Lawful Instant Amount) {a : α} (ha : Trips dump validate a) :
    validateBytes w validate (canonicalBytes (.obj (dump a))) = some a := by
  rw [validateBytes, canonicalBytes, utf8Decode_encode, Option.bind_some, validateText_dumps h ha]

theorem splitlines_jsonl (ds : List Doc) : splitlines (jsonl ds) = ds.map dumps := by
  refine splitlines_unlines fun line hline => ?_
  obtain ⟨d, -, rfl⟩ := List.mem_map.mp hline
  exact printable_text d.sortKeys

/-- A mirrored file gives back its records. -/
theorem readLines_jsonl (h : w.Lawful Instant Amount) {l : List α} (hl : ∀ a ∈ l, Trips dump validate a) :
    readLines w validate (jsonl (l.map fun a => .obj (dump a))) = some l := by
  rw [readLines, splitlines_jsonl, List.map_map]
  exact mapM_map_eq_some fun a ha => validateText_dumps h (hl a ha)

end roundTrip
end CtvAttribution
