set_option autoImplicit false

namespace SchemaInference

namespace Journal

inductive Level
  | warning
  | error
deriving DecidableEq, Inhabited

def Level.name : Level → String
  | warning => "WARNING"
  | error => "ERROR"

inductive Source
  | analyzer
  | backoff
  | sampler
  | schema
  | logs
deriving DecidableEq, Inhabited

def Source.name : Source → String
  | analyzer => "docschema.analyzer"
  | backoff => "docschema.backoff"
  | sampler => "docschema.sampler"
  | schema => "docschema.schema"
  | logs => "docschema.logs"

structure Note where
  level : Level
  source : Source
  text : String
deriving DecidableEq, Inhabited

end Journal

end SchemaInference
