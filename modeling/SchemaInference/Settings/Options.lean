import SchemaInference.Settings

set_option autoImplicit false

namespace SchemaInference

inductive OptionValue
  | null
  | bool (b : Bool)
  | number (n : Number)
  | text (s : WideText)
  | list (items : List OptionValue)
  | mapping (entries : List (String × OptionValue))
  /-- A pattern read beforehand. -/
  | pattern (source : WideText)
  | function (t : Template)
  | other
deriving Inhabited

abbrev Options := List (String × OptionValue)

namespace Options

def get? (options : Options) (name : String) : Option OptionValue :=
  options.lookup name

def set (options : Options) (name : String) (value : OptionValue) : Options :=
  match options with
  | [] => [(name, value)]
  | (n, v) :: rest => if n = name then (n, value) :: rest else (n, v) :: set rest name value

/-- Options with names brought to one spelling; of two for one setting the later counts. -/
def renamed (rename : String → String) (options : Options) : Options :=
  options.foldl (fun acc (name, value) => set acc (rename name) value) []

def aliases : List (String × String) :=
  [("sampleSize", "sample_size"), ("requiredThreshold", "required_threshold"),
    ("conflictResolution", "conflict_resolution"), ("idPatterns", "id_patterns"),
    ("maxNestingDepth", "max_nesting_depth"), ("nestedTypeFallback", "nested_type_fallback"),
    ("numberInference", "number_inference"), ("nestedNamingStrategy", "nested_naming_strategy"),
    ("typeNameTemplate", "type_name_template"), ("baseDelayMs", "base_delay_ms"),
    ("maxDelayMs", "max_delay_ms"), ("jitterFactor", "jitter_factor"), ("maxRetries", "max_retries"),
    ("maxRetryRUBudget", "max_retry_ru_budget"), ("respectRetryAfter", "respect_retry_after"),
    ("shouldRetry", "should_retry"), ("onRetry", "on_retry")]

def normalized (options : Options) : Options :=
  options.renamed fun name => (aliases.lookup name).getD name

end Options

end SchemaInference
