import CtvAttribution.Accuracy
import CtvAttribution.EngineParity
import CtvAttribution.Serialize

/-! The file mirrors of a seeded stream and the offline replays over them: resolve, then
attribute, each writing one file next to what it read. -/
namespace CtvAttribution
open Library

/-- The files under the repository root, by the segments of their paths. -/
abbrev Files := List String → Option (List Char)

namespace Files

/-- `write_text`. -/
def write (files : Files) (path : List String) (text : List Char) : Files :=
  Function.update files path (some text)

def rmtree (files : Files) (dir : List String) : Files := fun path => if dir <+: path then none else files path

@[simp] theorem write_self (files : Files) (path : List String) (text : List Char) :
    files.write path text path = some text := Function.update_self ..

private theorem write_of_ne (files : Files) {path other : List String} (h : other ≠ path) (text : List Char) :
    files.write path text other = files other := Function.update_of_ne h ..

end Files

inductive Source where
  | fixtures
  | out
  deriving DecidableEq, Repr

/-- `SOURCES`. -/
def Source.dir : Source → List String
  | .fixtures => ["fixtures"]
  | .out => ["data", "out"]

def outDir (profile : String) : List String := ["data", "out", profile]

def truthPath (profile : String) : List String := ["data", "truth", profile, "truth_links.jsonl"]

inductive ReplayError where
  | fileNotFound (path : List String)
  | validation (path : List String)
  | raised (error : Checked.Raised)
  deriving DecidableEq, Repr

section replays
variable (w : Wire)

/-- `write_mirrors`: the profile's directory is cleared first. -/
def writeMirrors (files : Files) (profile : String) (stream : GeneratedStream) : Files :=
  let out := outDir profile
  (((((files.rmtree out).write (out ++ ["device_graph.jsonl"]) (jsonl (stream.graph.map fun h => .obj h.dump))).write
    (out ++ ["exposures.jsonl"]) (jsonl (stream.exposures.map fun e => .obj (e.dump w)))).write
    (out ++ ["conversions.jsonl"]) (jsonl (stream.conversions.map fun c => .obj (c.dump w)))).write
    (truthPath profile) (jsonl (stream.truthLinks.map fun l => .obj l.dump)))

/-- `_read`. -/
def readFile {α : Type} (validate : Doc → Option α) (files : Files) (path : List String) :
    Except ReplayError (List α) :=
  match files path with
  | none => .error (.fileNotFound path)
  | some text =>
    match readLines w validate text with
    | none => .error (.validation path)
    | some models => .ok models

def resolvedText (resolved : List ResolvedConversion) : List Char := jsonl (resolved.map fun c => .obj (c.dump w))

def attributedText (rows : List AttributedConversion) : List Char := jsonl (rows.map fun r => .obj (r.dump w))

/-- `resolve.replay.replay`. -/
def resolveReplay (files : Files) (profile : String) (source : Source) : Except ReplayError Files := do
  let srcDir := source.dir ++ [profile]
  let households ← readFile w Household.validate files (srcDir ++ ["device_graph.jsonl"])
  let conversions ← readFile w (Conversion.validate w) files (srcDir ++ ["conversions.jsonl"])
  let resolved := resolveStream conversions (GraphIndex.fromHouseholds households)
  return files.write (outDir profile ++ ["conversions_resolved.jsonl"]) (resolvedText w resolved)

/-- Fixtures keep the resolved output under `expected/`. -/
def resolvedName : Source → List String
  | .fixtures => ["expected", "conversions_resolved.jsonl"]
  | .out => ["conversions_resolved.jsonl"]

/-- `streaming.replay.replay`. -/
def streamingReplay (files : Files) (profile : String) (source : Source) : Except ReplayError Files := do
  let base := source.dir ++ [profile]
  let exposures ← readFile w (Exposure.validate w) files (base ++ ["exposures.jsonl"])
  let resolved ← readFile w (ResolvedConversion.validate w) files (base ++ resolvedName source)
  let rows ← (Checked.attributeOracle exposures resolved hotWindow).mapError .raised
  return files.write (outDir profile ++ ["attributed.jsonl"]) (attributedText w rows)

/-- One line of the truth file; `json.loads`, then the two keys. -/
def truthLinkOf (line : List Char) : Option TruthLink := do
  let fs ← (← loads line).fields?
  let conversionId ← (field? fs "conversion_id").bind Doc.str?
  let truthExposureId ← (field? fs "truth_exposure_id").bind Doc.str?
  return { conversionId, truthExposureId }

/-- `load_truth` of a profile, when its file is there. -/
def readTruth (files : Files) (profile : String) : Option (OrderedDict String String) := do
  let links ← (splitlines (← files (truthPath profile))).mapM truthLinkOf
  return loadTruth links

end replays

section chain
variable {w : Wire} {Instant : Int → Prop} {Amount : Money → Prop} {files : Files} {profile : String}
  {stream : GeneratedStream}

/-- Every record of the stream is one the wire carries. -/
structure GeneratedStream.Carried (Instant : Int → Prop) (Amount : Money → Prop) (stream : GeneratedStream) : Prop where
  exposures : ∀ e ∈ stream.exposures, e.Carried Instant Amount
  conversions : ∀ c ∈ stream.conversions, c.Carried Instant Amount

private theorem readFile_jsonl {α : Type} {dump : α → List (String × Doc)} {validate : Doc → Option α}
    (h : w.Lawful Instant Amount) {l : List α} (hl : ∀ a ∈ l, Trips dump validate a) {path : List String}
    (hpath : files path = some (jsonl (l.map fun a => .obj (dump a)))) : readFile w validate files path = .ok l := by
  simp only [readFile, hpath, readLines_jsonl h hl]

/-- The resolved file of a source that holds the stream. -/
theorem resolveReplay_eq (h : w.Lawful Instant Amount) {households : List Household} {conversions : List Conversion}
    (hc : ∀ c ∈ conversions, c.Carried Instant Amount) {source : Source}
    (hgraph : files (source.dir ++ [profile] ++ ["device_graph.jsonl"]) =
      some (jsonl (households.map fun x => .obj x.dump)))
    (hconv : files (source.dir ++ [profile] ++ ["conversions.jsonl"]) =
      some (jsonl (conversions.map fun c => .obj (c.dump w)))) :
    resolveReplay w files profile source = .ok (files.write (outDir profile ++ ["conversions_resolved.jsonl"])
      (resolvedText w (resolveStream conversions (GraphIndex.fromHouseholds households)))) := by
  rw [resolveReplay, readFile_jsonl h (fun x _ => trips_household x) hgraph,
    readFile_jsonl h (fun c hm => trips_conversion h (hc c hm)) hconv]
  rfl

/-- The attributed file of a source that holds the exposures and their resolved conversions. -/
theorem streamingReplay_eq (h : w.Lawful Instant Amount) {exposures : List Exposure}
    {resolved : List ResolvedConversion} (he : ∀ e ∈ exposures, e.Carried Instant Amount)
    (hr : ∀ c ∈ resolved, c.toConversion.Carried Instant Amount) {source : Source}
    (hexp : files (source.dir ++ [profile] ++ ["exposures.jsonl"]) =
      some (jsonl (exposures.map fun e => .obj (e.dump w))))
    (hres : files (source.dir ++ [profile] ++ resolvedName source) = some (resolvedText w resolved)) :
    streamingReplay w files profile source = ((Checked.attributeOracle exposures resolved hotWindow).mapError .raised).map
      fun rows => files.write (outDir profile ++ ["attributed.jsonl"]) (attributedText w rows) := by
  rw [streamingReplay, readFile_jsonl h (fun e hm => trips_exposure h (he e hm)) hexp,
    readFile_jsonl h (fun c hm => trips_resolvedConversion h (hr c hm)) hres]
  change ((Checked.attributeOracle exposures resolved hotWindow).mapError ReplayError.raised >>= fun rows => pure _) = _
  cases Checked.attributeOracle exposures resolved hotWindow <;> rfl

private theorem carried_resolveStream (hc : stream.Carried Instant Amount) (index : GraphIndex) :
    ∀ c ∈ resolveStream stream.conversions index, c.toConversion.Carried Instant Amount := by
  intro c hmem
  obtain ⟨conv, hconv, hc'⟩ := List.mem_flatMap.mp hmem
  rw [(mem_resolveOne hc').1]
  exact hc.conversions conv hconv

private theorem truthLinkOf_dumps (l : TruthLink) : truthLinkOf (dumps (.obj l.dump)) = some l := by
  have hnd : (l.dump.map Prod.fst).Nodup := by simp [TruthLink.dump]
  rw [truthLinkOf, dumps, loads_text, Doc.sortKeys]
  simp only [Option.bind_eq_bind, Option.bind_some, Doc.fields?, field?_sorted _ hnd]
  rfl

/-- What a run of the two replays leaves behind a seeding. -/
structure Replayed (w : Wire) (profile : String) (stream : GeneratedStream) (rows : List AttributedConversion)
    (before after : Files) : Prop where
  deviceGraph : after (outDir profile ++ ["device_graph.jsonl"]) = some (jsonl (stream.graph.map fun x => .obj x.dump))
  exposures : after (outDir profile ++ ["exposures.jsonl"]) =
    some (jsonl (stream.exposures.map fun e => .obj (e.dump w)))
  conversions : after (outDir profile ++ ["conversions.jsonl"]) =
    some (jsonl (stream.conversions.map fun c => .obj (c.dump w)))
  attributed : after (outDir profile ++ ["attributed.jsonl"]) = some (attributedText w rows)
  resolved : after (outDir profile ++ ["conversions_resolved.jsonl"]) =
    some (resolvedText w (resolveStream stream.conversions (GraphIndex.fromHouseholds stream.graph)))
  truth : readTruth after profile = some (loadTruth stream.truthLinks)
  others : ∀ path, ¬ outDir profile <+: path → path ≠ truthPath profile → after path = before path
  fresh : ∀ path, outDir profile <+: path → after path ≠ none → path ∈ ["device_graph.jsonl", "exposures.jsonl",
    "conversions.jsonl", "conversions_resolved.jsonl", "attributed.jsonl"].map fun name => outDir profile ++ [name]

/-- The mirrors with both replays' files. -/
def replayedFiles (w : Wire) (files : Files) (profile : String) (stream : GeneratedStream)
    (rows : List AttributedConversion) : Files :=
  ((writeMirrors w files profile stream).write (outDir profile ++ ["conversions_resolved.jsonl"])
    (resolvedText w (resolveStream stream.conversions (GraphIndex.fromHouseholds stream.graph)))).write
    (outDir profile ++ ["attributed.jsonl"]) (attributedText w rows)

theorem writeMirrors_graph : writeMirrors w files profile stream (outDir profile ++ ["device_graph.jsonl"]) =
    some (jsonl (stream.graph.map fun x => .obj x.dump)) := by
  rw [writeMirrors, Files.write_of_ne _ (by simp [outDir, truthPath]), Files.write_of_ne _ (by simp),
    Files.write_of_ne _ (by simp), Files.write_self]

theorem writeMirrors_exposures : writeMirrors w files profile stream (outDir profile ++ ["exposures.jsonl"]) =
    some (jsonl (stream.exposures.map fun e => .obj (e.dump w))) := by
  rw [writeMirrors, Files.write_of_ne _ (by simp [outDir, truthPath]), Files.write_of_ne _ (by simp), Files.write_self]

theorem writeMirrors_conversions : writeMirrors w files profile stream (outDir profile ++ ["conversions.jsonl"]) =
    some (jsonl (stream.conversions.map fun c => .obj (c.dump w))) := by
  rw [writeMirrors, Files.write_of_ne _ (by simp [outDir, truthPath]), Files.write_self]

private theorem replayed_replayedFiles (rows : List AttributedConversion) :
    Replayed w profile stream rows files (replayedFiles w files profile stream rows) where
  deviceGraph := by
    rw [replayedFiles, Files.write_of_ne _ (by simp), Files.write_of_ne _ (by simp), writeMirrors_graph]
  exposures := by
    rw [replayedFiles, Files.write_of_ne _ (by simp), Files.write_of_ne _ (by simp), writeMirrors_exposures]
  conversions := by
    rw [replayedFiles, Files.write_of_ne _ (by simp), Files.write_of_ne _ (by simp), writeMirrors_conversions]
  attributed := Files.write_self _ _ _
  resolved := by
    rw [replayedFiles, Files.write_of_ne _ (by simp [outDir]), Files.write_self]
  truth := by
    have hfile : replayedFiles w files profile stream rows (truthPath profile) =
        some (jsonl (stream.truthLinks.map fun l => .obj l.dump)) := by
      rw [replayedFiles, Files.write_of_ne _ (by simp [outDir, truthPath]),
        Files.write_of_ne _ (by simp [outDir, truthPath]), writeMirrors, Files.write_self]
    have hlinks : ((stream.truthLinks.map fun l => Doc.obj l.dump).map dumps).mapM truthLinkOf = some stream.truthLinks := by
      rw [List.map_map]
      exact mapM_map_eq_some fun l _ => truthLinkOf_dumps l
    simp only [readTruth, hfile, Option.bind_eq_bind, Option.bind_some, splitlines_jsonl, hlinks]
    rfl
  others := by
    intro path hout htruth
    have hne (name : String) : path ≠ outDir profile ++ [name] := by
      rintro rfl
      exact hout (List.prefix_append _ _)
    rw [replayedFiles, Files.write_of_ne _ (hne _), Files.write_of_ne _ (hne _), writeMirrors,
      Files.write_of_ne _ htruth, Files.write_of_ne _ (hne _), Files.write_of_ne _ (hne _), Files.write_of_ne _ (hne _),
      Files.rmtree, if_neg hout]
  fresh := by
    intro path hout hsome
    by_contra hmem
    simp only [List.map_cons, List.map_nil, List.mem_cons, List.not_mem_nil, or_false, not_or] at hmem
    obtain ⟨hgraph, hexp, hconv, hres, hattr⟩ := hmem
    have htruth : path ≠ truthPath profile := by
      rintro rfl
      simp [outDir, truthPath] at hout
    apply hsome
    rw [replayedFiles, Files.write_of_ne _ hattr, Files.write_of_ne _ hres, writeMirrors, Files.write_of_ne _ htruth,
      Files.write_of_ne _ hconv, Files.write_of_ne _ hexp, Files.write_of_ne _ hgraph, Files.rmtree, if_pos hout]

private theorem replays_eq (h : w.Lawful Instant Amount) (hc : stream.Carried Instant Amount) :
    (resolveReplay w (writeMirrors w files profile stream) profile .out >>= fun mirrored =>
        streamingReplay w mirrored profile .out) =
      ((Checked.attributeOracle stream.exposures (resolveStream stream.conversions (GraphIndex.fromHouseholds stream.graph))
        hotWindow).mapError .raised).map (replayedFiles w files profile stream) := by
  have hexp : (writeMirrors w files profile stream).write (outDir profile ++ ["conversions_resolved.jsonl"])
      (resolvedText w (resolveStream stream.conversions (GraphIndex.fromHouseholds stream.graph)))
      (outDir profile ++ ["exposures.jsonl"]) = some (jsonl (stream.exposures.map fun e => .obj (e.dump w))) := by
    rw [Files.write_of_ne _ (by simp), writeMirrors_exposures]
  rw [resolveReplay_eq h hc.conversions writeMirrors_graph writeMirrors_conversions]
  exact streamingReplay_eq h hc.exposures (carried_resolveStream hc _) hexp (Files.write_self _ _ _)

/-- After a seeding, whatever lay there before, the two replays over its mirrors write what
resolving and attributing the stream itself gives, or stop with its error. -/
theorem replays_follow_mirrors (h : w.Lawful Instant Amount) (hc : stream.Carried Instant Amount) (files : Files)
    (profile : String) :
    (∀ rows, Checked.attributeOracle stream.exposures (resolveStream stream.conversions (GraphIndex.fromHouseholds stream.graph))
        hotWindow = .ok rows →
      ∃ after, (resolveReplay w (writeMirrors w files profile stream) profile .out >>= fun mirrored =>
        streamingReplay w mirrored profile .out) = .ok after ∧ Replayed w profile stream rows files after) ∧
    ∀ error, Checked.attributeOracle stream.exposures (resolveStream stream.conversions (GraphIndex.fromHouseholds stream.graph))
        hotWindow = .error error →
      (resolveReplay w (writeMirrors w files profile stream) profile .out >>= fun mirrored =>
        streamingReplay w mirrored profile .out) = .error (.raised error) := by
  constructor
  · intro rows hrows
    refine ⟨replayedFiles w files profile stream rows, ?_, replayed_replayedFiles rows⟩
    rw [replays_eq h hc, hrows]
    rfl
  · intro error herror
    rw [replays_eq h hc, herror]
    rfl

end chain

section sample

def sampleTimeText (t : Int) : String := if t = 0 then "1970-01-01T00:00:00Z" else "1970-01-01T01:00:00Z"

def sampleFloatText (m : Money) : Numeral := if m = 100 then ⟨['0', '.', '0', '1'], by decide⟩ else ⟨['0', '.', '5'], by decide⟩

/-- The texts of two instants and of two amounts. -/
def sampleWire : Wire where
  timeText := sampleTimeText
  floatText := sampleFloatText
  readJson := loads
  readTime d := d.str?.bind fun s => if s = sampleTimeText 0 then some 0
    else if s = sampleTimeText Time.hour then some Time.hour else none
  readFloat
    | .num n => if n = sampleFloatText 100 then some 100 else if n = sampleFloatText 5000 then some 5000 else none
    | _ => none
  readInt
    | .num n => some (Nat.ofDigitChars 10 n.text 0)
    | _ => none
  readBool
    | .bool b => some b
    | _ => none

theorem lawful_sampleWire : sampleWire.Lawful (fun t => t = 0 ∨ t = Time.hour) fun m => m = 100 ∨ m = 5000 where
  readJson d _ := loads_text d.sortKeys
  readTime := by
    rintro t (rfl | rfl) <;> decide
  readFloat := by
    rintro m (rfl | rfl) <;> decide
  readInt _ := congrArg some Nat.ofDigitChars_ten_toDigits
  readBool _ := rfl

def sampleSeeded : GeneratedStream where
  graph := [{ householdId := "hh", devices := [⟨"tv", .tv⟩], ips := ["10.0.0.1"] }]
  exposures := [sampleExposure "e1" 0 0]
  conversions := [sampleConversion "c1" 0 Time.hour]
  truthLinks := [⟨"c1", "e1"⟩]

theorem carried_sampleSeeded : sampleSeeded.Carried (fun t => t = 0 ∨ t = Time.hour) fun m => m = 100 ∨ m = 5000 where
  exposures := by
    intro e he
    rw [List.mem_singleton.mp he]
    exact ⟨.inl rfl, .inl rfl, .inl rfl⟩
  conversions := by
    intro c hc
    rw [List.mem_singleton.mp hc]
    exact ⟨.inl rfl, .inr rfl, .inr rfl⟩

/-- A stale mirror of the profile, an older truth file and a file of another profile. -/
def sampleFiles : Files := fun path =>
  if path = outDir "tiny" ++ ["stale.jsonl"] ∨ path = truthPath "tiny" ∨ path = outDir "medium" ++ ["exposures.jsonl"] then
    some ['x']
  else none

theorem replays_follow_mirrors_sample :
    ∃ rows after, Checked.attributeOracle sampleSeeded.exposures
        (resolveStream sampleSeeded.conversions (GraphIndex.fromHouseholds sampleSeeded.graph)) hotWindow = .ok rows ∧
      (resolveReplay sampleWire (writeMirrors sampleWire sampleFiles "tiny" sampleSeeded) "tiny" .out >>=
        fun mirrored => streamingReplay sampleWire mirrored "tiny" .out) = .ok after ∧
      Replayed sampleWire "tiny" sampleSeeded rows sampleFiles after := by
  have hrows : ∃ rows, Checked.attributeOracle sampleSeeded.exposures
      (resolveStream sampleSeeded.conversions (GraphIndex.fromHouseholds sampleSeeded.graph)) hotWindow = .ok rows :=
    ⟨_, rfl⟩
  obtain ⟨rows, hrows⟩ := hrows
  obtain ⟨after, hafter, hreplayed⟩ :=
    (replays_follow_mirrors lawful_sampleWire carried_sampleSeeded sampleFiles "tiny").1 rows hrows
  exact ⟨rows, after, hrows, hafter, hreplayed⟩

end sample
end CtvAttribution
