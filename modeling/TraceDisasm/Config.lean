import TraceDisasm.Symbols

/-!
# Configuration

How banks are listed and labels are named. A configuration is usable when both limits on the length of a data row are
positive; `Config.zeroLimit?` names the first limit that is not.
-/

namespace TraceDisasm

/-- The options of a tracer. -/
structure Config where
  /-- Words in one row of data words. -/
  maxWords : Nat
  /-- Bytes in one row of data bytes. -/
  maxBytes : Nat
  /-- What labels begin with. -/
  labelStem : String
  deriving DecidableEq

/-- The two limits of a configuration. -/
inductive Limit
  | words
  | bytes
  deriving DecidableEq

namespace Limit

/-- The name of a limit as a member of a configuration. -/
def name : Limit → String
  | words => "max_data_words"
  | bytes => "max_data_bytes"

/-- What is said of a limit that is zero. -/
def zeroMessage (limit : Limit) : String :=
  "invalid configuration: " ++ limit.name ++ " must be at least 1"

end Limit

namespace Config

/-- The configuration in use when nothing else is asked for. -/
def standard : Config := ⟨5, 10, defaultStem⟩

/-- The first limit that is zero, words before bytes. -/
def zeroLimit? (config : Config) : Option Limit :=
  if config.maxWords = 0 then some .words
  else if config.maxBytes = 0 then some .bytes
  else none

/-- The configuration itself, if it is usable. -/
def validate (config : Config) : Except Limit Config :=
  match config.zeroLimit? with
  | some limit => .error limit
  | none => .ok config

end Config

end TraceDisasm
