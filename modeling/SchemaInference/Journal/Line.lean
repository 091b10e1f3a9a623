import SchemaInference.Journal.Message
import SchemaInference.Json.Text

set_option autoImplicit false

namespace SchemaInference

namespace Journal

def levelNames : List (Int × String) :=
  [(0, "NOTSET"), (10, "DEBUG"), (20, "INFO"), (30, "WARNING"), (40, "ERROR"), (50, "CRITICAL")]

def levelName (level : Int) : String :=
  (levelNames.lookup level).getD ("Level " ++ toString level)

def levels : List (String × Int) :=
  (levelNames.map fun (level, name) => (name, level)) ++ [("WARN", 30), ("FATAL", 50)]

def readLevel (v : Value) : Except PlainError Int :=
  match v with
  | .whole i => .ok i
  | .bool b => .ok (if b then 1 else 0)
  | .text s =>
    let name := Text.upper s
    match levels.lookup name with
    | some level => .ok level
    | none => .error (.ofValue ("Unknown level: " ++ Text.quoted name))
  | _ => .error (.ofType ("Level not an integer or a valid string: " ++ v.literal))

/-- Types of errors that are shown with the module that they come from. -/
def homes : List (String × String) :=
  [("MongoRequestError", "docschema.mongo_utils"), ("CancelledError", "asyncio.exceptions"),
    ("PyMongoError", "pymongo.errors"), ("OperationFailure", "pymongo.errors"),
    ("ExecutionTimeout", "pymongo.errors"), ("DuplicateKeyError", "pymongo.errors"),
    ("WriteError", "pymongo.errors"), ("CursorNotFound", "pymongo.errors"),
    ("ConnectionFailure", "pymongo.errors"), ("AutoReconnect", "pymongo.errors"),
    ("NetworkTimeout", "pymongo.errors"), ("ServerSelectionTimeoutError", "pymongo.errors"),
    ("NotPrimaryError", "pymongo.errors"), ("ConfigurationError", "pymongo.errors"),
    ("InvalidOperation", "pymongo.errors"), ("InvalidName", "pymongo.errors")]

def fullName : Fault → String
  | .failure _ => "docschema.errors.ClassifiedError"
  | .foreign e =>
    match homes.lookup e.typeName with
    | some home => home ++ "." ++ e.typeName
    | none => e.typeName

def faultText (f : Fault) : String :=
  match f.shown with
  | .error _ => fullName f ++ ": <exception str() failed>"
  | .ok text => if text.isEmpty then fullName f else fullName f ++ ": " ++ text

def causeText : String :=
  "\n\nThe above exception was the direct cause of the following exception:\n\n"

def trace (r : Raised) : String :=
  causeText.intercalate (r.chain.reverse.map faultText)

structure Line where
  level : String
  source : String
  message : String
  trace : Option String

def Line.make (level : Int) (source message : String) (arguments : List Value) (about : Option Raised) :
    Except Message.Fault Line :=
  (Message.fill message arguments).map fun text =>
    ⟨levelName level, source, text, about.map Journal.trace⟩

def Line.members (l : Line) : List (String × String) :=
  [("level", l.level), ("logger", l.source), ("message", l.message)] ++
    (l.trace.map fun t => ("traceback", t)).toList

def Line.isAscii (l : Line) : Bool :=
  l.members.all fun m => m.2.toList.all fun c => decide (c.toNat < 128)

inductive LineStyle
  | plain
  | json

def LineStyle.name : LineStyle → String
  | plain => "Formatter"
  | json => "JsonLinesFormatter"

structure Setup where
  writers : List LineStyle
  level : Int

/-- Installs one writer in place of all others.  The level is checked last, so a bad one leaves the new
writer and the old level. -/
def Setup.configure (s : Setup) (level : Value) (style : LineStyle) : Except PlainError Unit × Setup :=
  match readLevel level with
  | .ok n => (.ok (), ⟨[style], n⟩)
  | .error e => (.error e, ⟨[style], s.level⟩)

end Journal

end SchemaInference
