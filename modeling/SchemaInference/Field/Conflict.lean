import SchemaInference.Field.Observation

set_option autoImplicit false

namespace SchemaInference

namespace FieldMap

/-- Sub-fields of objects in arrays become nullable where they are absent from some of them. -/
def markAbsent : FieldMap → FieldMap
  | empty => empty
  | field name stats nested rest =>
    let marked := nested.markAbsent
    let sub :=
      if stats.arrayDerived then
        marked.mapStats fun s => { s with isNullable := s.isNullable || decide (s.frequency < stats.scopeSize) }
      else marked
    field name stats sub rest.markAbsent

/-- The dotted paths of the fields in conflict, each before those below it. -/
def conflicts (above : String) : FieldMap → List String
  | empty => []
  | field name stats nested rest =>
    let path := above ++ name
    (if 1 < stats.nonNullTags.length then [path] else []) ++
      nested.conflicts (path ++ ".") ++ rest.conflicts above

end FieldMap

structure Analysis where
  fields : FieldMap
  fieldCount : Nat
  conflicts : List String
  documentCount : Nat

def Analysis.ofDocuments (g : Graph) (documents : List Item) : Analysis :=
  let fields := (FieldMap.ofDocuments g documents).markAbsent
  { fields
    fieldCount := fields.size
    conflicts := fields.conflicts ""
    documentCount := (documents.filter g.isMapping).length }

end SchemaInference
