import CtvAttribution.Models

/-! The agent's report: what a submitted payload must be to validate, and the synthesized
finding of every escape. Coercions of numbers and the texts of refusals belong to the
validation library; they stay parameters. -/
namespace CtvAttribution

/-- A decoded JSON document. -/
inductive Json where
  | null
  | bool (b : Bool)
  | int (i : Int)
  | float (x : Float)
  | str (s : String)
  | arr (items : List Json)
  | obj (fields : List (String × Json))

abbrev JsonObject : Type := List (String × Json)

/-- The catalog of causes. -/
inductive Hypothesis where
  | deviceGraphMismatch
  | windowEdgeEffect
  | coViewInflation
  | lateArrivalDistortion
  | realPerformanceChange
  | upstreamDataChange
  deriving DecidableEq, Repr

def Hypothesis.text : Hypothesis → String
  | .deviceGraphMismatch => "device_graph_mismatch"
  | .windowEdgeEffect => "window_edge_effect"
  | .coViewInflation => "co_view_inflation"
  | .lateArrivalDistortion => "late_arrival_distortion"
  | .realPerformanceChange => "real_performance_change"
  | .upstreamDataChange => "upstream_data_change"

def Hypothesis.catalog : List Hypothesis :=
  [.deviceGraphMismatch, .windowEdgeEffect, .coViewInflation, .lateArrivalDistortion,
    .realPerformanceChange, .upstreamDataChange]

inductive Verdict where
  | confident
  | ambiguousNeedsHuman
  deriving DecidableEq, Repr

def Verdict.text : Verdict → String
  | .confident => "CONFIDENT"
  | .ambiguousNeedsHuman => "AMBIGUOUS_NEEDS_HUMAN"

structure RankedHypothesis where
  hypothesis : Hypothesis
  evidenceFor : List String
  evidenceAgainst : List String
  weight : Float

structure AttributionFinding where
  profile : String
  topHypothesis : Hypothesis
  ranked : List RankedHypothesis
  ruledOut : List Hypothesis
  recommendedAction : String
  verdict : Verdict
  probesRun : List String

/-- The validation library: its lax numbers, and the texts it refuses with. A result cell is
whatever the database driver hands out; its integers have at most 256 bits. -/
structure Pydantic (Cell : Type) where
  floatOfJson : Json → Option Float
  strOfCell : Cell → Option String
  intOfCell : Cell → Option Int
  floatOfCell : Cell → Option Float
  isNone : Cell → Bool
  invalidJson : String → JsonObject → String
  invalidCells : String → List (String × Cell) → String

section fields

def Json.str? : Json → Option String
  | .str s => some s
  | _ => none

def Json.list? {α : Type} (item : Json → Option α) : Json → Option (List α)
  | .arr items => items.mapM item
  | _ => none

/-- A member of an enumeration, by its text. -/
def Json.member? {α : Type} (text : α → String) (members : List α) : Json → Option α
  | .str s => members.find? fun a => text a = s
  | _ => none

def Json.hypothesis? : Json → Option Hypothesis := Json.member? Hypothesis.text Hypothesis.catalog

def Json.verdict? : Json → Option Verdict :=
  Json.member? Verdict.text [.confident, .ambiguousNeedsHuman]

/-- A declared field: refused when absent. -/
def fieldOf {α : Type} (input : JsonObject) (name : String) (value : Json → Option α) : Option α :=
  (input.lookup name).bind value

end fields

section validate
variable {Cell : Type} (py : Pydantic Cell)

def RankedHypothesis.ofJson : Json → Option RankedHypothesis
  | .obj input => do
    return {
      hypothesis := ← fieldOf input "hypothesis" Json.hypothesis?
      evidenceFor := ← fieldOf input "evidence_for" (Json.list? Json.str?)
      evidenceAgainst := ← fieldOf input "evidence_against" (Json.list? Json.str?)
      weight := ← fieldOf input "weight" py.floatOfJson }
  | _ => none

/-- `AttributionFinding.model_validate`. -/
def AttributionFinding.modelValidate (input : JsonObject) : Option AttributionFinding := do
  return {
    profile := ← fieldOf input "profile" Json.str?
    topHypothesis := ← fieldOf input "top_hypothesis" Json.hypothesis?
    ranked := ← fieldOf input "ranked" (Json.list? (RankedHypothesis.ofJson py))
    ruledOut := ← fieldOf input "ruled_out" (Json.list? Json.hypothesis?)
    recommendedAction := ← fieldOf input "recommended_action" Json.str?
    verdict := ← fieldOf input "verdict" Json.verdict?
    probesRun := ← fieldOf input "probes_run" (Json.list? Json.str?) }

end validate

/-- `escalation`: the one escape path, its reason surfaced as evidence. -/
def escalation (profile reason : String) (probesRun : List String) : AttributionFinding where
  profile := profile
  topHypothesis := .upstreamDataChange
  ranked := [{ hypothesis := .upstreamDataChange, evidenceFor := [reason], evidenceAgainst := [], weight := 0.0 }]
  ruledOut := []
  recommendedAction := "escalate to a human: " ++ reason
  verdict := .ambiguousNeedsHuman
  probesRun := probesRun

end CtvAttribution
