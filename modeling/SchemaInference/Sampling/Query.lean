import SchemaInference.Value.Literal

set_option autoImplicit false

namespace SchemaInference

inductive QueryKind
  | top
  | recent
  | distinct
  | partition
  | scan
deriving DecidableEq, Inhabited

namespace QueryKind

def name : QueryKind → String
  | top => "top"
  | recent => "recent"
  | distinct => "distinct"
  | partition => "partition"
  | scan => "scan"

def all : List QueryKind := [top, recent, distinct, partition, scan]

end QueryKind

structure SampleQuery where
  kind : QueryKind
  /-- The number of rows asked for; none and zero ask for all. -/
  limit : Option Int
  field : Option String
  value : Value
deriving Inhabited

namespace SampleQuery

def top (limit : Nat) : SampleQuery := ⟨.top, some limit, none, .null⟩

def recent (limit : Nat) : SampleQuery := ⟨.recent, some limit, none, .null⟩

def distinct (field : String) : SampleQuery := ⟨.distinct, none, some field, .null⟩

def partition (limit : Nat) (field : String) (value : Value) : SampleQuery :=
  ⟨.partition, some limit, some field, value⟩

def scan : SampleQuery := ⟨.scan, none, none, .null⟩

def effectiveLimit? (q : SampleQuery) : Option Int :=
  q.limit.filter (· ≠ 0)

/-- The text of the query, in which a parameter stands for the value of the field. -/
def toSql (q : SampleQuery) : String :=
  let top := match q.effectiveLimit? with
    | some n => "TOP " ++ toString n ++ " "
    | none => ""
  let field := q.field.getD "None"
  match q.kind with
  | .recent => "SELECT " ++ top ++ "* FROM c ORDER BY c._ts DESC"
  | .distinct => "SELECT DISTINCT VALUE c." ++ field ++ " FROM c"
  | .partition => "SELECT " ++ top ++ "* FROM c WHERE c." ++ field ++ " = @value"
  | _ => "SELECT " ++ top ++ "* FROM c"

end SampleQuery

end SchemaInference
