import CtvAttribution.Findings

/-! The probe registry: what a probe takes from the model's parameters, and how the rows of
its statement are read by column name into its typed result. -/
namespace CtvAttribution

/-- The fixed statements, by the name of their constant. -/
inductive ProbeSql where
  | ipClusterDetail
  | campaignAttributedByDay
  | campaignRestatement
  | windowEdgeDistribution
  | genreReachDetail
  deriving DecidableEq, Repr

/-- The parameter models declare strings only. -/
structure ParamModel where
  name : String
  fields : List String

inductive FieldType where
  | str
  | int
  | float
  | optionalFloat
  deriving DecidableEq, Repr

structure ResultModel where
  name : String
  fields : List (String × FieldType)

structure Probe where
  name : String
  sql : ProbeSql
  params : ParamModel
  result : ResultModel

def ParamModel.ipParam : ParamModel := ⟨"IpParam", ["ip"]⟩
def ParamModel.campaignParam : ParamModel := ⟨"CampaignParam", ["campaign_id"]⟩
def ParamModel.genreParam : ParamModel := ⟨"GenreParam", ["genre"]⟩
def ParamModel.noParam : ParamModel := ⟨"NoParam", []⟩

def ResultModel.ipClusterRow : ResultModel :=
  ⟨"IpClusterRow", [("household_id", .str), ("attributed_conversions", .int), ("max_candidate_count", .int)]⟩

def ResultModel.campaignDayRow : ResultModel :=
  ⟨"CampaignDayRow", [("day", .str), ("attributed", .int), ("revenue", .float)]⟩

def ResultModel.restatementRow : ResultModel :=
  ⟨"RestatementRow", [("campaign_id", .str), ("roas_as_reported", .optionalFloat),
    ("roas_now", .optionalFloat), ("roas_delta", .float), ("conversions_as_reported", .int),
    ("conversions_now", .int), ("revenue_delta", .float)]⟩

def ResultModel.windowEdgeRow : ResultModel := ⟨"WindowEdgeRow", [("day_bucket", .int), ("count", .int)]⟩

def ResultModel.genreReachRow : ResultModel :=
  ⟨"GenreReachRow", [("exposures", .int), ("attributed_conversions", .int)]⟩

/-- `REGISTRY`. -/
def registry : List Probe :=
  [⟨"ip_cluster_detail", .ipClusterDetail, .ipParam, .ipClusterRow⟩,
    ⟨"campaign_attributed_by_day", .campaignAttributedByDay, .campaignParam, .campaignDayRow⟩,
    ⟨"campaign_restatement", .campaignRestatement, .campaignParam, .restatementRow⟩,
    ⟨"window_edge_distribution", .windowEdgeDistribution, .noParam, .windowEdgeRow⟩,
    ⟨"genre_reach_detail", .genreReachDetail, .genreParam, .genreReachRow⟩]

def probeNamed (name : String) : Option Probe := registry.find? (·.name = name)

/-- The probe that asks a statement. -/
def ProbeSql.probe? (sql : ProbeSql) : Option Probe := registry.find? (·.sql = sql)

/-- No statement belongs to two probes. -/
theorem probe?_sql_of_mem {p : Probe} (h : p ∈ registry) : p.sql.probe? = some p := by
  simp only [registry, List.mem_cons, List.not_mem_nil, or_false] at h
  rcases h with rfl | rfl | rfl | rfl | rfl <;> rfl

theorem probeNamed_eq_some {name : String} {p : Probe} (h : probeNamed name = some p) :
    p ∈ registry ∧ p.name = name :=
  ⟨List.mem_of_find?_eq_some h, by simpa using List.find?_some h⟩

/-- The classes of exceptions the loop tells apart. -/
inductive ExceptionKind where
  | validationError
  | valueError
  | keyError
  | other
  deriving DecidableEq, Repr

structure PyException where
  kind : ExceptionKind
  text : String
  deriving DecidableEq, Repr

structure QueryResult (Cell : Type) where
  columnNames : List String
  resultRows : List (List Cell)

/-- A field of a typed result row. -/
inductive FieldValue where
  | str (s : String)
  | int (i : Int)
  | float (x : Float)
  | none

abbrev ResultRow : Type := List (String × FieldValue)

section read
variable {Cell : Type} (py : Pydantic Cell)

/-- `probe.params.model_validate`, its dump in the order of the fields. -/
def ParamModel.modelValidate (model : ParamModel) (input : JsonObject) :
    Except PyException (List (String × String)) :=
  match model.fields.mapM fun f => (fieldOf input f Json.str?).map fun s => (f, s) with
  | some values => .ok values
  | none => .error ⟨.validationError, py.invalidJson model.name input⟩

/-- The value a field type takes from a cell. -/
def FieldType.value : FieldType → Cell → Option FieldValue
  | .str, c => (py.strOfCell c).map .str
  | .int, c => (py.intOfCell c).map .int
  | .float, c => (py.floatOfCell c).map .float
  | .optionalFloat, c => if py.isNone c then some .none else (py.floatOfCell c).map .float

/-- `dict(zip(columns, row, strict=True))`: of two columns with one name the last counts. -/
def zipStrict (columns : List String) (row : List Cell) : Except PyException (List (String × Cell)) :=
  if row.length < columns.length then .error ⟨.valueError, "zip() argument 2 is shorter than argument 1"⟩
  else if columns.length < row.length then .error ⟨.valueError, "zip() argument 2 is longer than argument 1"⟩
  else .ok (columns.zip row)

def ResultModel.ofCells (model : ResultModel) (cells : List (String × Cell)) : Except PyException ResultRow :=
  match model.fields.mapM fun f => ((cells.reverse.lookup f.1).bind (f.2.value py)).map fun v => (f.1, v) with
  | some row => .ok row
  | none => .error ⟨.validationError, py.invalidCells model.name cells⟩

/-- The rows of an answer, read by column name. -/
def Probe.readRows (probe : Probe) (result : QueryResult Cell) : Except PyException (List ResultRow) :=
  result.resultRows.mapM fun row => do probe.result.ofCells py (← zipStrict result.columnNames row)

end read
end CtvAttribution
