import SchemaInference.Journal
import SchemaInference.Json.Text
import SchemaInference.Schema.Definition

set_option autoImplicit false

namespace SchemaInference

structure InferenceStats where
  documentsAnalyzed : Nat
  fieldsAnalyzed : Nat
  typesGenerated : Nat
  conflictsResolved : Nat
  conflictedFields : List String
  nestedTypesCreated : Nat
deriving DecidableEq, Inhabited

structure InferredSchema where
  rootType : TypeDefinition
  nestedTypes : List TypeDefinition
  stats : InferenceStats
deriving Inhabited

structure ProgressReport where
  stage : String
  message : String
  progress : Double
  details : List (String × Value)
deriving Inhabited

structure InferenceRun where
  reports : List ProgressReport
  notes : List Journal.Note
  outcome : Except Failure InferredSchema

namespace Analysis

def notes (g : Graph) (documents : List Item) : List Journal.Note :=
  (documents.filter fun d => !g.isMapping d).map fun d =>
    ⟨.warning, .analyzer, "skipping non-object document of type " ++ g.typeName d⟩

/-- The analysis of a set of documents, which must not be empty. -/
def run (g : Graph) (documents : List Item) : Except Failure Analysis :=
  if documents.isEmpty then
    .error (.configuration "Cannot analyze an empty document set" "analyzer" [])
  else .ok (.ofDocuments g documents)

end Analysis

namespace InferenceStats

def members (s : InferenceStats) : List (String × Value) :=
  [("documents_analyzed", .whole s.documentsAnalyzed),
    ("fields_analyzed", .whole s.fieldsAnalyzed),
    ("types_generated", .whole s.typesGenerated),
    ("conflicts_resolved", .whole s.conflictsResolved),
    ("conflicted_fields", .list (s.conflictedFields.map .text)),
    ("nested_types_created", .whole s.nestedTypesCreated)]

end InferenceStats

def emptySample : Failure :=
  .validation "Cannot infer schema from an empty document set" "schema-inference" []

namespace InferredSchema

def types (s : InferredSchema) : List TypeDefinition :=
  s.rootType :: s.nestedTypes

def ofAnalysis (r : Rounding) (settings : Settings) (a : Analysis) (typeName : String) :
    Except Failure InferredSchema :=
  (settings.build r a.fields typeName a.documentCount).map fun definitions =>
    { rootType := definitions.root
      nestedTypes := definitions.nested
      stats :=
        { documentsAnalyzed := a.documentCount
          fieldsAnalyzed := a.fieldCount
          typesGenerated := definitions.nested.length + 1
          conflictsResolved := a.conflicts.length
          conflictedFields := a.conflicts
          nestedTypesCreated := definitions.nested.length } }

def infer (r : Rounding) (settings : Settings) (g : Graph) (documents : List Item) (typeName : String) :
    Except Failure InferredSchema :=
  if documents.isEmpty then .error emptySample
  else ofAnalysis r settings (.ofDocuments g documents) typeName

def startReport (count : Nat) : ProgressReport :=
  ⟨"inference_started", "Analyzing " ++ toString count ++ " documents", .finite 0,
    [("document_count", .whole count)]⟩

def endReport (s : InferredSchema) : ProgressReport :=
  ⟨"inference_complete", "Generated " ++ toString s.stats.typesGenerated ++ " types", .finite 1,
    s.stats.members⟩

def run (r : Rounding) (settings : Settings) (g : Graph) (documents : List Item) (typeName : String) :
    InferenceRun :=
  let outcome := infer r settings g documents typeName
  if documents.isEmpty then ⟨[], [], outcome⟩
  else
    let finished := match outcome with
      | .ok schema => [endReport schema]
      | .error _ => []
    ⟨startReport documents.length :: finished, Analysis.notes g documents, outcome⟩

end InferredSchema

namespace FieldDefinition

def json (f : FieldDefinition) : Json :=
  .object [("name", .text f.name), ("type", .text f.type), ("required", .bool f.required),
    ("is_array", .bool f.isArray), ("custom_type_name", .ofText? f.customTypeName)]

end FieldDefinition

namespace TypeDefinition

def json (t : TypeDefinition) : Json :=
  .object [("name", .text t.name), ("fields", .list (t.fields.map (·.json))), ("is_nested", .bool t.isNested),
    ("parent_type", .ofText? t.parentType), ("depth", .whole t.depth),
    ("parent_frequency", .ofNat? t.parentFrequency)]

end TypeDefinition

namespace InferenceStats

def json (s : InferenceStats) : Json :=
  .object [("documents_analyzed", .whole s.documentsAnalyzed), ("fields_analyzed", .whole s.fieldsAnalyzed),
    ("types_generated", .whole s.typesGenerated), ("conflicts_resolved", .whole s.conflictsResolved),
    ("conflicted_fields", .ofTexts s.conflictedFields),
    ("nested_types_created", .whole s.nestedTypesCreated)]

end InferenceStats

namespace InferredSchema

def json (s : InferredSchema) : Json :=
  .object [("root_type", s.rootType.json), ("nested_types", .list (s.nestedTypes.map (·.json))),
    ("stats", s.stats.json)]

end InferredSchema

end SchemaInference
