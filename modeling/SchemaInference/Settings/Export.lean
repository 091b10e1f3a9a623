import SchemaInference.Digest.Sha1
import SchemaInference.Json.Text
import SchemaInference.Settings

set_option autoImplicit false

namespace SchemaInference

namespace StabilityThresholds

def json (t : StabilityThresholds) : Json :=
  .object [("field_stability_threshold", .number (.real t.fieldStability)),
    ("shallow_polymorphic_threshold", .number (.real t.shallowPolymorphic)),
    ("deep_polymorphic_threshold", .number (.real t.deepPolymorphic)),
    ("shallow_depth_limit", .number (.whole t.shallowDepthLimit)),
    ("dominant_field_min_ratio", .number (.real t.dominantMinRatio)),
    ("dominant_field_min_depth", .number (.whole t.dominantMinDepth))]

end StabilityThresholds

namespace Settings

def json (s : Settings) : Json :=
  .object [("sample_size", .whole s.sampleSize),
    ("required_threshold", .number (.real s.requiredThreshold)),
    ("conflict_resolution", .text s.conflicts.name),
    ("id_patterns", .list (s.idPatterns.map fun p => .text p.source)),
    ("max_nesting_depth", .whole s.maxDepth),
    ("nested_type_fallback", .text s.fallback.name),
    ("number_inference", .text s.numbers.name),
    ("nested_naming_strategy", .text s.naming.name),
    ("type_name_template", .ofText? (s.template.map (·.shown))),
    ("stability", s.stability.json)]

def exportText (s : Settings) : Except ConversionError String :=
  s.json.line

def shortDigest (text : String) : String :=
  String.ofList ((Sha1.hex text.toUTF8.toList).take 12)

def fingerprintBy (digest : String → String) (s : Settings) : Except ConversionError String :=
  s.exportText.map digest

def fingerprint (s : Settings) : Except ConversionError String :=
  s.fingerprintBy shortDigest

/-- The key for the schema of a container of a database under some settings; a sample size that is too long to be
written has no fingerprint either. -/
def cacheKeyBy (digest : String → String) (database container : String) (s : Settings) :
    Except ConversionError String :=
  (s.fingerprintBy digest).map fun fingerprint =>
    database ++ ":" ++ container ++ ":" ++ toString s.sampleSize ++ ":" ++ fingerprint

def cacheKey (database container : String) (s : Settings) : Except ConversionError String :=
  cacheKeyBy shortDigest database container s

end Settings

end SchemaInference
