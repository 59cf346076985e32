import CtvAttribution.Attribution

/-! The engine over in-memory streams: the placeholder collapse, one watermark-gated
pass per household, and the rows sorted by conversion. -/
namespace CtvAttribution
open Library

/-- Each household's tagged events, in the order the streams name the household. -/
def householdEvents (exposures : List Exposure) (resolved : List ResolvedConversion) :
    OrderedDict String (List Event) :=
  OrderedDict.groupBy Event.householdId
    (exposures.map .build ++ (oneRowPerConversion resolved).map .probe)

/-- `run_attribution`. -/
def runAttribution (exposures : List Exposure) (resolved : List ResolvedConversion)
    (allowedLateness : Int) : Except ValueError (List AttributedConversion) := do
  let candidates := candidateHouseholdsByConversion resolved
  let results ← (householdEvents exposures resolved).values.mapM
    (attributeHouseholdStreaming hotWindow allowedLateness candidates)
  return sortedBy (fun r => r.conversionId) (results.flatMap fun r => r.candidates.map Candidate.row)

structure EngineRun where
  exposures : List Exposure
  rows : List AttributedConversion
  resolved : Nat
  suppressed : Nat
  deriving DecidableEq, Repr

/-- `ENGINE_DEDUP`: drop exact re-sends of both streams, or keep them. -/
def engineStreams (dedup : Bool) (exposuresRaw : List Exposure) (resolvedRaw : List ResolvedConversion) :
    List Exposure × List ResolvedConversion × Nat :=
  if dedup then dedupStreams exposuresRaw resolvedRaw else (exposuresRaw, resolvedRaw, 0)

/-- `run_engine` over the drained topics. -/
def runEngine (dedup : Bool) (allowedLateness : Int) (index : GraphIndex)
    (exposuresRaw : List Exposure) (conversions : List Conversion) : Except ValueError EngineRun := do
  let (exposures, resolved, suppressed) :=
    engineStreams dedup exposuresRaw (resolveStream conversions index)
  let rows ← runAttribution exposures resolved allowedLateness
  return { exposures, rows, resolved := resolved.length, suppressed }

end CtvAttribution
