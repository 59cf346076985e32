import CtvAttribution.Orchestration
import CtvAttribution.Replays

/-! What seeding publishes and the engine decodes. A message value that is no record of its
topic stops the pass; it is never skipped. -/
namespace CtvAttribution
open Library

/-- One call of `produce`. -/
structure Send where
  topic : String
  key : List UInt8
  value : List UInt8
  deriving DecidableEq, Repr

inductive ProduceError where
  | validation (topic : String)
  | runtimeError (text : String)
  deriving DecidableEq, Repr

inductive EngineFault where
  | validation (topic : String)
  | value (error : ValueError)
  deriving DecidableEq, Repr

section wire
variable (w : Wire)

def Household.send (x : Household) : Send :=
  ⟨"device_graph", utf8Encode x.householdId.toList, canonicalBytes (.obj x.dump)⟩

def Exposure.send (e : Exposure) : Send :=
  ⟨"exposures", utf8Encode e.householdId.toList, canonicalBytes (.obj (e.dump w))⟩

def Conversion.send (c : Conversion) : Send :=
  ⟨"conversions", utf8Encode c.deviceId.toList, canonicalBytes (.obj (c.dump w))⟩

/-- The calls of `send`, in order: the graph, the exposures, the conversions. -/
def sends (stream : GeneratedStream) : List Send :=
  stream.graph.map Household.send ++ stream.exposures.map (Exposure.send w) ++ stream.conversions.map (Conversion.send w)

/-- `TOPIC_MODELS[topic].model_validate_json(payload)`. -/
def Send.validates (s : Send) : Bool :=
  if s.topic = "exposures" then (validateBytes w (Exposure.validate w) s.value).isSome
  else if s.topic = "conversions" then (validateBytes w (Conversion.validate w) s.value).isSome
  else (validateBytes w Household.validate s.value).isSome

def produceFailed (errors : List String) (undelivered : Nat) : String :=
  "produce failed: " ++ toString errors.length ++ " delivery errors, " ++ toString undelivered ++
    " undelivered. first error: " ++ errors.headD "n/a"

/-- `produce_all`: what is handed to the producer, and the result. `outcome` gives the delivery
errors and the number still undelivered after the flush. The producer's local queue has room for
every message: the `BufferError` of a full one is left out. -/
def produceAll (outcome : List Send → List String × Nat) (stream : GeneratedStream) :
    List Send × Except ProduceError Nat :=
  let handed := (sends w stream).takeWhile (Send.validates w)
  match (sends w stream).find? fun s => !s.validates w with
  | some s => (handed, .error (.validation s.topic))
  | none =>
    let (errors, undelivered) := outcome handed
    if errors ≠ [] ∨ undelivered ≠ 0 then (handed, .error (.runtimeError (produceFailed errors undelivered)))
    else (handed, .ok handed.length)

/-- The values of one topic, as they were handed over. -/
def valuesOf (topic : String) (log : List Send) : List (Option (List UInt8)) :=
  (log.filter fun s => s.topic = topic).map fun s => some s.value

/-- The value of a tombstone is absent, and no record. -/
def decode {α : Type} (validate : Doc → Option α) (topic : String) (value : Option (List UInt8)) :
    Except EngineFault α :=
  match value.bind (validateBytes w validate) with
  | some a => .ok a
  | none => .error (.validation topic)

/-- `run_engine` over the values drained from its three topics. -/
def runEngineOverWire (dedup : Bool) (allowedLateness : Int) (graph exposures conversions : List (Option (List UInt8))) :
    Except EngineFault EngineRun := do
  let exposuresRaw ← exposures.mapM (decode w (Exposure.validate w) "exposures")
  let conversionsRaw ← conversions.mapM (decode w (Conversion.validate w) "conversions")
  let households ← graph.mapM (decode w Household.validate "device_graph")
  (runEngine dedup allowedLateness (GraphIndex.fromHouseholds households) exposuresRaw conversionsRaw).mapError .value

/-- The records among the values. -/
def records {α : Type} (validate : Doc → Option α) (values : List (Option (List UInt8))) : List α :=
  values.filterMap fun v => v.bind (validateBytes w validate)

/-- Some value is no record. -/
def anyPoison {α : Type} (validate : Doc → Option α) (values : List (Option (List UInt8))) : Bool :=
  values.any fun v => (v.bind (validateBytes w validate)).isNone

/-- The first topic, in the order the engine decodes them, that holds a value that is no record. -/
def poisonedTopic (graph exposures conversions : List (Option (List UInt8))) : Option String :=
  if anyPoison w (Exposure.validate w) exposures then some "exposures"
  else if anyPoison w (Conversion.validate w) conversions then some "conversions"
  else if anyPoison w Household.validate graph then some "device_graph"
  else none

inductive PassFault where
  | engine (fault : EngineFault)
  | driver (failure : Failure)
  deriving DecidableEq, Repr

/-- The engine's `main` over the drained values. -/
def engineOverWire (dedup : Bool) (allowedLateness : Int) (graph exposures conversions : List (Option (List UInt8)))
    (profile : String) : Script System PassFault Unit := do
  let run ← Script.ofExcept ((runEngineOverWire w dedup allowedLateness graph exposures conversions).mapError .engine)
  (engineMain run profile).mapFail .driver

end wire

section published
variable {w : Wire} {Instant : Int → Prop} {Amount : Money → Prop} {stream : GeneratedStream}

private theorem validates_sends (h : w.Lawful Instant Amount) (hc : stream.Carried Instant Amount) :
    ∀ s ∈ sends w stream, s.validates w = true := by
  intro s hs
  rcases List.mem_append.mp hs with hs | hs
  · rcases List.mem_append.mp hs with hs | hs
    · obtain ⟨x, -, rfl⟩ := List.mem_map.mp hs
      simp [Send.validates, Household.send, validateBytes_canonicalBytes h (trips_household x)]
    · obtain ⟨e, he, rfl⟩ := List.mem_map.mp hs
      simp [Send.validates, Exposure.send, validateBytes_canonicalBytes h (trips_exposure h (hc.exposures e he))]
  · obtain ⟨c, hmem, rfl⟩ := List.mem_map.mp hs
    simp [Send.validates, Conversion.send, validateBytes_canonicalBytes h (trips_conversion h (hc.conversions c hmem))]

/-- Nothing the producer hands over fails its own validation. -/
theorem produceAll_handed (h : w.Lawful Instant Amount) (hc : stream.Carried Instant Amount)
    (outcome : List Send → List String × Nat) : (produceAll w outcome stream).1 = sends w stream := by
  have hall : (sends w stream).takeWhile (Send.validates w) = sends w stream :=
    List.takeWhile_eq_self_iff.mpr (validates_sends h hc)
  unfold produceAll
  simp only [hall]
  split
  · rfl
  · split <;> rfl

private theorem decode_map {α : Type} {dump : α → List (String × Doc)} {validate : Doc → Option α}
    (h : w.Lawful Instant Amount) (topic : String) {l : List α} (hl : ∀ a ∈ l, Trips dump validate a) :
    (l.map fun a => some (canonicalBytes (.obj (dump a)))).mapM (decode w validate topic) = .ok l := by
  induction l with
  | nil => rfl
  | cons a l ih =>
    have ha := validateBytes_canonicalBytes h (hl a List.mem_cons_self)
    have hrest := ih fun b hb => hl b (List.mem_cons_of_mem a hb)
    rw [List.map_cons, List.mapM_cons, hrest, decode, Option.bind_some, ha]
    rfl

private theorem valuesOf_graph : valuesOf "device_graph" (sends w stream) =
    stream.graph.map fun x => some (canonicalBytes (.obj x.dump)) := by
  simp [valuesOf, sends, List.filter_append, List.filter_map, Function.comp_def, Household.send, Exposure.send,
    Conversion.send]

private theorem valuesOf_exposures : valuesOf "exposures" (sends w stream) =
    stream.exposures.map fun e => some (canonicalBytes (.obj (e.dump w))) := by
  simp [valuesOf, sends, List.filter_append, List.filter_map, Function.comp_def, Household.send, Exposure.send,
    Conversion.send]

private theorem valuesOf_conversions : valuesOf "conversions" (sends w stream) =
    stream.conversions.map fun c => some (canonicalBytes (.obj (c.dump w))) := by
  simp [valuesOf, sends, List.filter_append, List.filter_map, Function.comp_def, Household.send, Exposure.send,
    Conversion.send]

/-- The engine computes on the very records that were seeded. -/
theorem runEngineOverWire_sends (h : w.Lawful Instant Amount) (hc : stream.Carried Instant Amount) (dedup : Bool)
    (allowedLateness : Int) :
    runEngineOverWire w dedup allowedLateness (valuesOf "device_graph" (sends w stream))
        (valuesOf "exposures" (sends w stream)) (valuesOf "conversions" (sends w stream)) =
      (runEngine dedup allowedLateness (GraphIndex.fromHouseholds stream.graph) stream.exposures
        stream.conversions).mapError .value := by
  rw [runEngineOverWire, valuesOf_graph, valuesOf_exposures, valuesOf_conversions,
    decode_map h _ fun e he => trips_exposure h (hc.exposures e he),
    decode_map h _ fun c hm => trips_conversion h (hc.conversions c hm), decode_map h _ fun x _ => trips_household x]
  rfl

private theorem length_sends (w : Wire) (stream : GeneratedStream) : (sends w stream).length =
    stream.graph.length + stream.exposures.length + stream.conversions.length := by
  simp only [sends, List.length_append, List.length_map]

private theorem produceAll_result (h : w.Lawful Instant Amount) (hc : stream.Carried Instant Amount)
    (outcome : List Send → List String × Nat) : (produceAll w outcome stream).2 =
      if (outcome (sends w stream)).1 ≠ [] ∨ (outcome (sends w stream)).2 ≠ 0 then
        .error (.runtimeError (produceFailed (outcome (sends w stream)).1 (outcome (sends w stream)).2))
      else .ok (sends w stream).length := by
  have hall : (sends w stream).takeWhile (Send.validates w) = sends w stream :=
    List.takeWhile_eq_self_iff.mpr (validates_sends h hc)
  have hnone : ((sends w stream).find? fun s => !s.validates w) = none := by
    rw [List.find?_eq_none]
    intro s hs
    rw [validates_sends h hc s hs]
    decide
  unfold produceAll
  simp only [hall, hnone]
  split <;> rfl

/-- A mirrored file holds the payloads of its topic, one to a line. -/
theorem lines_of_values {α : Type} (dump : α → List (String × Doc)) (l : List α) :
    (splitlines (jsonl (l.map fun a => .obj (dump a)))).map (fun line => some (utf8Encode line)) =
      l.map fun a => some (canonicalBytes (.obj (dump a))) := by
  rw [splitlines_jsonl, List.map_map, List.map_map]
  rfl

/-- The topics' payloads, line by line, are the profile's mirrored files. -/
structure Mirrors (profile : String) (log : List Send) (files : Files) : Prop where
  graph : ∃ text, files (outDir profile ++ ["device_graph.jsonl"]) = some text ∧
    (splitlines text).map (fun line => some (utf8Encode line)) = valuesOf "device_graph" log
  exposures : ∃ text, files (outDir profile ++ ["exposures.jsonl"]) = some text ∧
    (splitlines text).map (fun line => some (utf8Encode line)) = valuesOf "exposures" log
  conversions : ∃ text, files (outDir profile ++ ["conversions.jsonl"]) = some text ∧
    (splitlines text).map (fun line => some (utf8Encode line)) = valuesOf "conversions" log

private theorem mirrors_sends (files : Files) (profile : String) :
    Mirrors profile (sends w stream) (writeMirrors w files profile stream) where
  graph := ⟨_, writeMirrors_graph, (lines_of_values _ _).trans valuesOf_graph.symm⟩
  exposures := ⟨_, writeMirrors_exposures, (lines_of_values _ _).trans valuesOf_exposures.symm⟩
  conversions := ⟨_, writeMirrors_conversions, (lines_of_values _ _).trans valuesOf_conversions.symm⟩

/-- What a seeding hands to the producer is the whole stream, each payload valid, and is what it
mirrors; the result counts it unless a delivery fails; and the engine over these topics computes
what it computes on the stream. -/
theorem engine_reads_seeded (h : w.Lawful Instant Amount) (hc : stream.Carried Instant Amount)
    (outcome : List Send → List String × Nat) (files : Files) (profile : String) (dedup : Bool) (allowedLateness : Int) :
    Mirrors profile (produceAll w outcome stream).1 (writeMirrors w files profile stream) ∧
    ((produceAll w outcome stream).2 =
        .ok (stream.graph.length + stream.exposures.length + stream.conversions.length) ↔
      outcome (produceAll w outcome stream).1 = ([], 0)) ∧
    runEngineOverWire w dedup allowedLateness (valuesOf "device_graph" (produceAll w outcome stream).1)
        (valuesOf "exposures" (produceAll w outcome stream).1) (valuesOf "conversions" (produceAll w outcome stream).1) =
      (runEngine dedup allowedLateness (GraphIndex.fromHouseholds stream.graph) stream.exposures
        stream.conversions).mapError .value := by
  rw [produceAll_handed h hc]
  refine ⟨mirrors_sends files profile, ?_, runEngineOverWire_sends h hc dedup allowedLateness⟩
  rw [produceAll_result h hc, length_sends, Prod.ext_iff]
  split
  · rename_i hfail
    constructor
    · intro hok
      cases hok
    · intro hnone
      exact absurd hfail (by simp [hnone.1, hnone.2])
  · rename_i hfine
    rw [not_or, not_not, not_not] at hfine
    exact ⟨fun _ => hfine, fun _ => rfl⟩

theorem engine_reads_seeded_sample :
    Mirrors "tiny" (produceAll sampleWire (fun _ => ([], 0)) sampleSeeded).1
      (writeMirrors sampleWire (fun _ => none) "tiny" sampleSeeded) ∧
    (produceAll sampleWire (fun _ => ([], 0)) sampleSeeded).2 = .ok 3 ∧
    runEngineOverWire sampleWire true (6 * Time.hour)
        (valuesOf "device_graph" (produceAll sampleWire (fun _ => ([], 0)) sampleSeeded).1)
        (valuesOf "exposures" (produceAll sampleWire (fun _ => ([], 0)) sampleSeeded).1)
        (valuesOf "conversions" (produceAll sampleWire (fun _ => ([], 0)) sampleSeeded).1) =
      (runEngine true (6 * Time.hour) (GraphIndex.fromHouseholds sampleSeeded.graph) sampleSeeded.exposures
        sampleSeeded.conversions).mapError .value := by
  obtain ⟨hmirrors, hresult, hengine⟩ := engine_reads_seeded lawful_sampleWire carried_sampleSeeded (fun _ => ([], 0))
    (fun _ => none) "tiny" true (6 * Time.hour)
  exact ⟨hmirrors, hresult.mpr rfl, hengine⟩

end published

section poison
variable {w : Wire} {α : Type} {validate : Doc → Option α} {topic : String} {values : List (Option (List UInt8))}

private theorem anyPoison_cons (v : Option (List UInt8)) (values : List (Option (List UInt8))) :
    anyPoison w validate (v :: values) =
      ((v.bind (validateBytes w validate)).isNone || anyPoison w validate values) := rfl

private theorem records_cons {v : Option (List UInt8)} {a : α} (h : v.bind (validateBytes w validate) = some a)
    (values : List (Option (List UInt8))) : records w validate (v :: values) = a :: records w validate values := by
  rw [records, List.filterMap_cons, h]
  rfl

/-- A batch decodes as a whole or not at all. -/
theorem mapM_decode (values : List (Option (List UInt8))) : values.mapM (decode w validate topic) =
    if anyPoison w validate values then .error (.validation topic) else .ok (records w validate values) := by
  induction values with
  | nil => rfl
  | cons v values ih =>
    rw [List.mapM_cons, ih, anyPoison_cons, decode]
    cases hv : v.bind (validateBytes w validate) with
    | none => rfl
    | some a =>
      rw [records_cons hv]
      cases anyPoison w validate values <;> rfl

/-- Without poison every value gives its record. -/
theorem map_records (h : anyPoison w validate values = false) :
    values.map (fun v => v.bind (validateBytes w validate)) = (records w validate values).map some := by
  induction values with
  | nil => rfl
  | cons v values ih =>
    rw [anyPoison_cons, Bool.or_eq_false_iff] at h
    obtain ⟨a, ha⟩ := Option.isSome_iff_exists.mp (Option.isNone_eq_false_iff.mp h.1)
    rw [List.map_cons, ih h.2, records_cons ha, List.map_cons, ha]

variable {graph exposures conversions : List (Option (List UInt8))} {dedup : Bool} {allowedLateness : Int}

private theorem runEngineOverWire_poisoned (h : poisonedTopic w graph exposures conversions = some topic) :
    runEngineOverWire w dedup allowedLateness graph exposures conversions = .error (.validation topic) := by
  rw [runEngineOverWire, mapM_decode, mapM_decode, mapM_decode]
  unfold poisonedTopic at h
  cases he : anyPoison w (Exposure.validate w) exposures <;> rw [he] at h
  · cases hc : anyPoison w (Conversion.validate w) conversions <;> rw [hc] at h
    · cases hg : anyPoison w Household.validate graph <;> rw [hg] at h
      · cases h
      · cases h
        rfl
    · cases h
      rfl
  · cases h
    rfl

private theorem runEngineOverWire_sound (h : poisonedTopic w graph exposures conversions = none) :
    (anyPoison w (Exposure.validate w) exposures = false ∧ anyPoison w (Conversion.validate w) conversions = false ∧
      anyPoison w Household.validate graph = false) ∧
    runEngineOverWire w dedup allowedLateness graph exposures conversions =
      (runEngine dedup allowedLateness (GraphIndex.fromHouseholds (records w Household.validate graph))
        (records w (Exposure.validate w) exposures) (records w (Conversion.validate w) conversions)).mapError .value := by
  rw [runEngineOverWire, mapM_decode, mapM_decode, mapM_decode]
  unfold poisonedTopic at h
  cases he : anyPoison w (Exposure.validate w) exposures <;> rw [he] at h
  · cases hc : anyPoison w (Conversion.validate w) conversions <;> rw [hc] at h
    · cases hg : anyPoison w Household.validate graph <;> rw [hg] at h
      · exact ⟨⟨rfl, rfl, rfl⟩, rfl⟩
      · cases h
    · cases h
  · cases h

private theorem leaves_engineOverWire {profile : String} {error : EngineFault}
    (h : runEngineOverWire w dedup allowedLateness graph exposures conversions = .error error) {s t : System}
    (hl : (engineOverWire w dedup allowedLateness graph exposures conversions profile).Leaves s t) : t = s := by
  rw [engineOverWire, h] at hl
  rcases Script.leaves_bind hl with hl | hl
  · exact Script.leaves_ofExcept.mp hl
  · obtain ⟨run, m, hends, -⟩ := hl
    have herror := (Script.ends_ofExcept.mp hends).2
    cases herror

/-- One message value that is no record of its topic, wherever it stands, stops the pass with its
topic's error, and nothing is landed, loaded or marked. Otherwise no value is skipped. -/
theorem poison_halts (w : Wire) (dedup : Bool) (allowedLateness : Int)
    (graph exposures conversions : List (Option (List UInt8))) (profile : String) :
    (∀ topic, poisonedTopic w graph exposures conversions = some topic →
      runEngineOverWire w dedup allowedLateness graph exposures conversions = .error (.validation topic) ∧
      ∀ s t, (engineOverWire w dedup allowedLateness graph exposures conversions profile).Leaves s t → t = s) ∧
    (poisonedTopic w graph exposures conversions = none →
      ∃ households exposuresRaw conversionsRaw,
        graph.map (fun v => v.bind (validateBytes w Household.validate)) = households.map some ∧
        exposures.map (fun v => v.bind (validateBytes w (Exposure.validate w))) = exposuresRaw.map some ∧
        conversions.map (fun v => v.bind (validateBytes w (Conversion.validate w))) = conversionsRaw.map some ∧
        runEngineOverWire w dedup allowedLateness graph exposures conversions =
          (runEngine dedup allowedLateness (GraphIndex.fromHouseholds households) exposuresRaw
            conversionsRaw).mapError .value) := by
  constructor
  · intro topic htopic
    have herror : runEngineOverWire w dedup allowedLateness graph exposures conversions = .error (.validation topic) :=
      runEngineOverWire_poisoned htopic
    exact ⟨herror, fun _ _ hl => leaves_engineOverWire herror hl⟩
  · intro hnone
    obtain ⟨⟨hexp, hconv, hgraph⟩, hrun⟩ := runEngineOverWire_sound hnone
    exact ⟨_, _, _, map_records hgraph, map_records hexp, map_records hconv, hrun⟩

private theorem anyPoison_map {Instant : Int → Prop} {Amount : Money → Prop} (h : w.Lawful Instant Amount)
    {dump : α → List (String × Doc)} {l : List α} (hl : ∀ a ∈ l, Trips dump validate a) :
    anyPoison w validate (l.map fun a => some (canonicalBytes (.obj (dump a)))) = false := by
  rw [anyPoison, List.any_map, List.any_eq_false]
  intro a ha
  simp [validateBytes_canonicalBytes h (hl a ha)]

/-- The payloads of a seeding, and a tombstone behind them in `conversions` and in `device_graph`. -/
def sampleValues (topic : String) : List (Option (List UInt8)) :=
  valuesOf topic (sends sampleWire sampleSeeded) ++ if topic = "exposures" then [] else [none]

theorem poison_halts_tombstone :
    runEngineOverWire sampleWire true (6 * Time.hour) (sampleValues "device_graph") (sampleValues "exposures")
      (sampleValues "conversions") = .error (.validation "conversions") := by
  have hexposures : anyPoison sampleWire (Exposure.validate sampleWire) (sampleValues "exposures") = false := by
    rw [sampleValues, if_pos rfl, List.append_nil, valuesOf_exposures]
    exact anyPoison_map lawful_sampleWire fun e he =>
      trips_exposure lawful_sampleWire (carried_sampleSeeded.exposures e he)
  have hconversions : anyPoison sampleWire (Conversion.validate sampleWire) (sampleValues "conversions") = true := by
    simp [anyPoison, sampleValues]
  have htopic : poisonedTopic sampleWire (sampleValues "device_graph") (sampleValues "exposures")
      (sampleValues "conversions") = some "conversions" := by
    rw [poisonedTopic, hexposures, hconversions]
    rfl
  exact ((poison_halts sampleWire true (6 * Time.hour) (sampleValues "device_graph") (sampleValues "exposures")
    (sampleValues "conversions") "tiny").1 "conversions" htopic).1

end poison
end CtvAttribution
