import SchemaInference.Failure
import SchemaInference.Settings.Validation

set_option autoImplicit false

namespace SchemaInference

inductive LoadError
  | failure (f : Failure)
  /-- An error that no validation gathers. -/
  | escaped (e : PlainError)

namespace LoadError

def problemText (p : OptionProblem) : String :=
  (if p.place.isEmpty then "config" else ".".intercalate p.place) ++ ": " ++ p.message

def ofFault (what : String) : ValidationFault → LoadError
  | .problems ps =>
    .failure (.configuration ("Invalid " ++ what ++ " config: " ++ "; ".intercalate (ps.map problemText))
      "config" [("errors", .whole ps.length)])
  | .raised e => .escaped e

def raised : LoadError → Raised
  | failure f => ⟨.failure f, [.foreign ⟨"ValidationError", [.value], .ok "", []⟩]⟩
  | escaped e => .ofPlain e

end LoadError

namespace IdPattern

def refusal (source : WideText) : Pattern.Defect → Refusal
  | .countTooLarge => .raised (.ofOverflow (Pattern.Defect.countTooLarge.message source))
  | .clashingFlags => .message (Pattern.Defect.clashingFlags.message source)
  | defect => .message ("invalid id pattern " ++ source.quoted ++ ": " ++ defect.message source)

def compileAll (patterns : List GivenPattern) : Except Refusal (List IdPattern) :=
  patterns.mapM fun p => (read p.source).mapError (refusal p.source)

end IdPattern

def StabilityThresholds.fields : Fields StabilityThresholds :=
  (Fields.made StabilityThresholds.mk)
    |>.field "field_stability_threshold" (.double none none) standard.fieldStability
    |>.field "shallow_polymorphic_threshold" (.double none none) standard.shallowPolymorphic
    |>.field "deep_polymorphic_threshold" (.double none none) standard.deepPolymorphic
    |>.field "shallow_depth_limit" .integer standard.shallowDepthLimit
    |>.field "dominant_field_min_ratio" (.double none none) standard.dominantMinRatio
    |>.field "dominant_field_min_depth" .integer standard.dominantMinDepth

namespace Settings

def fields : Fields Settings :=
  (Fields.made Settings.mk)
    |>.field "sample_size" (.natural (.above 0)) standard.sampleSize
    |>.field "required_threshold" (.double (some 0) (some 1)) standard.requiredThreshold
    |>.field "conflict_resolution" (.choice ConflictPolicy.all (·.name)) standard.conflicts
    |>.field "id_patterns" (.checked (.list .pattern) IdPattern.compileAll) standard.idPatterns
    |>.field "max_nesting_depth" (.natural (.atLeast 0)) standard.maxDepth
    |>.field "nested_type_fallback" (.choice ObjectFallback.all (·.name)) standard.fallback
    |>.field "number_inference" (.choice NumberPolicy.all (·.name)) standard.numbers
    |>.field "nested_naming_strategy" (.choice NamingStyle.all (·.name)) standard.naming
    |>.field "type_name_template" (.optional .function) standard.template
    |>.field "stability" (.record "StabilityThresholds" StabilityThresholds.fields) standard.stability

def checkNaming (s : Settings) : Except Refusal Unit :=
  if s.naming = .custom ∧ s.template.isNone then
    .error (.message "nested_naming_strategy 'custom' requires type_name_template")
  else .ok ()

def load (V : Validation) (options : Options) : Except LoadError Settings :=
  (V.build fields checkNaming options.normalized).mapError (LoadError.ofFault "type system")

def environmentNames : List (String × String) :=
  [("sample_size", "SAMPLE_SIZE"), ("required_threshold", "REQUIRED_THRESHOLD"),
    ("conflict_resolution", "CONFLICT_RESOLUTION"), ("max_nesting_depth", "MAX_NESTING_DEPTH"),
    ("nested_type_fallback", "NESTED_TYPE_FALLBACK"), ("number_inference", "NUMBER_INFERENCE"),
    ("nested_naming_strategy", "NESTED_NAMING_STRATEGY")]

def splitPatterns (s : String) : List String :=
  ((s.splitOn ",").map Text.trim).filter fun p => !p.isEmpty

def environmentOptions (environment : List (String × String)) (start : String) : Options :=
  let given (name : String) : Option String :=
    (environment.lookup (start ++ name)).filter fun v => !v.isEmpty
  let plain := environmentNames.filterMap fun (option, name) =>
    (given name).map fun v => (option, OptionValue.text v)
  match given "ID_PATTERNS" with
  | some v => plain ++ [("id_patterns", .list ((splitPatterns v).map fun (p : String) => .text p))]
  | none => plain

/-- Settings from an environment, where further options go before it. -/
def ofEnvironment (V : Validation) (environment : List (String × String)) (start : String) (overrides : Options) :
    Except LoadError Settings :=
  load V (overrides.foldl (fun acc (name, value) => acc.set name value) (environmentOptions environment start))

end Settings

end SchemaInference
