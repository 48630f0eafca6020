import EpochSplit.Namespace
/-!
# Errors

What can go wrong, as causes.  An error is one cause inside any number of contexts, each of which
says what was being done; `Error.message` is the text that a user reads, and `Error.root` the cause
without its contexts.
-/

namespace EpochSplit

/-- What a store reports. -/
inductive StoreFault where
  /-- The store at `path` could not be opened. -/
  | openFailed (path reason : String)
  /-- A scan broke off. -/
  | iteration (reason : String)
  /-- A look-up failed. -/
  | read (reason : String)
  /-- A batch of `staged` pairs was refused. -/
  | commit (staged : Nat) (reason : String)
  /-- No compacted copy could be written. -/
  | compaction (reason : String)
  /-- The store could not be closed cleanly. -/
  | close (reason : String)
  /-- Another user of the store broke off in the middle of a change. -/
  | lockPoisoned
deriving DecidableEq

/-- What is wrong with the bytes of a record. -/
inductive CodecFault where
  /-- A value is not a record of its namespace. -/
  | decode (ns : Namespace) (reason : String)
  /-- A record cannot be written down. -/
  | encode (ns : Namespace) (reason : String)
  /-- A key of `size` bytes is not a key of its namespace. -/
  | invalidKey (ns : Namespace) (size : Nat) (reason : String)
deriving DecidableEq

/-- How the records of an archive contradict one another. -/
inductive ConsistencyFault where
  /-- A tick lies in none of the processed ranges of its epoch. -/
  | tickOutsideIntervals (epoch tick : UInt32)
  /-- The archive knows nothing of an epoch. -/
  | epochMetadataMissing (epoch : UInt32)
  /-- An epoch has no processed range. -/
  | emptyTickRanges (epoch : UInt32)
  /-- A record that another record refers to is missing. -/
  | missingRecord (ns : Namespace) (id : String)
  /-- A record says neither its epoch nor its tick. -/
  | unattributed (label : String)
deriving DecidableEq

/-- What is wrong with the settings. -/
inductive ConfigFault where
  /-- A field may not be empty. -/
  | missingRequired (field : String)
  /-- A field has a value that makes no sense. -/
  | invalidValue (field value reason : String)
  /-- The settings file could not be read. -/
  | unreadable (path reason : String)
  /-- The settings file is not a settings file. -/
  | malformed (path reason : String)
deriving DecidableEq

/-- Why a run stopped although nothing was wrong with the data. -/
inductive RunFault where
  /-- The operation is not allowed in this state. -/
  | invalidState (operation state : String)
  /-- The run was cancelled after so many records were committed. -/
  | cancelled (committed : Nat)
deriving DecidableEq

/-- A cause inside the contexts that say what was being done. -/
inductive Error where
  | store (fault : StoreFault)
  | codec (fault : CodecFault)
  | consistency (fault : ConsistencyFault)
  | config (fault : ConfigFault)
  | run (fault : RunFault)
  /-- While doing `doing`, `source` happened. -/
  | context (doing : String) (source : Error)
deriving DecidableEq

/-! ### Messages -/

/-- The text of a store fault. -/
def StoreFault.message : StoreFault → String
  | openFailed path reason => s!"Failed to open store at {path}: {reason}"
  | iteration reason => s!"Iteration failed: {reason}"
  | read reason => s!"Read failed: {reason}"
  | commit staged reason => s!"Commit of {staged} staged records failed: {reason}"
  | compaction reason => s!"Compaction failed: {reason}"
  | close reason => s!"Close failed: {reason}"
  | lockPoisoned => "Storage lock poisoned"

/-- The text of a codec fault. -/
def CodecFault.message : CodecFault → String
  | decode ns reason => s!"Failed to decode {ns.name} record: {reason}"
  | encode ns reason => s!"Failed to encode {ns.name} record: {reason}"
  | invalidKey ns size reason => s!"Invalid {ns.name} key of {size} bytes: {reason}"

/-- The text of a consistency fault. -/
def ConsistencyFault.message : ConsistencyFault → String
  | tickOutsideIntervals epoch tick =>
      s!"Tick {tick} of epoch {epoch} does not fall in any processed tick interval"
  | epochMetadataMissing epoch => s!"No metadata found for epoch {epoch}"
  | emptyTickRanges epoch => s!"Epoch {epoch} has no processed tick ranges"
  | missingRecord ns id => s!"Record {id} is missing from {ns.name}"
  | unattributed label => s!"{label} record carries no epoch and tick"

/-- The text of a settings fault. -/
def ConfigFault.message : ConfigFault → String
  | missingRequired field => s!"Missing required configuration field: {field}"
  | invalidValue field value reason => s!"Invalid value for {field}: {value} - {reason}"
  | unreadable path reason => s!"Failed to read config file {path}: {reason}"
  | malformed path reason => s!"Failed to parse config file {path}: {reason}"

/-- The text of a fault of the run. -/
def RunFault.message : RunFault → String
  | invalidState operation state => s!"Cannot {operation} while migrator is {state}"
  | cancelled committed => s!"Migration cancelled after {committed} committed records"

namespace Error

/-- The text a user reads: the contexts from the outermost in, then the cause. -/
def message : Error → String
  | store fault => "Storage error: " ++ fault.message
  | codec fault => "Codec error: " ++ fault.message
  | consistency fault => "Consistency error: " ++ fault.message
  | config fault => "Config error: " ++ fault.message
  | run fault => "Run error: " ++ fault.message
  | context doing source => doing ++ ": " ++ source.message

/-- The cause, without its contexts. -/
def root : Error → Error
  | context _ source => source.root
  | e => e

/-- The error put inside several contexts, the outermost first. -/
def within (contexts : List String) (e : Error) : Error :=
  contexts.foldr context e

/-- An outcome whose error, if there is one, is put inside a context. -/
def inContext {α : Type} (doing : String) (r : Except Error α) : Except Error α :=
  r.mapError (context doing)

/-- Whether the cause is a cancellation. -/
def isCancelled (e : Error) : Bool :=
  match e.root with
  | run (.cancelled _) => true
  | _ => false

/-- The texts from the whole error down to the bare fault. -/
def chain : Error → List String
  | e@(store fault) => [e.message, fault.message]
  | e@(codec fault) => [e.message, fault.message]
  | e@(consistency fault) => [e.message, fault.message]
  | e@(config fault) => [e.message, fault.message]
  | e@(run fault) => [e.message, fault.message]
  | e@(context _ source) => e.message :: source.chain

@[simp] theorem root_context (doing : String) (e : Error) : (context doing e).root = e.root := rfl

@[simp] theorem root_within (contexts : List String) (e : Error) :
    (e.within contexts).root = e.root := by
  induction contexts with
  | nil => rfl
  | cons _ _ ih => exact ih

end Error

end EpochSplit
