import Signet.Codec
import Signet.Toml.Library

/-! The configuration of the predicates and of logging, read from TOML such as

    max_bytes = 65536

    [logging]
    level = "codec=debug"
    json = false

Every key may be left out, and unknown keys are ignored. -/

namespace Signet

/-- Whether a text is a log filter; an error tells why it is none. -/
abbrev FilterCheck := String → Except String Unit

structure Logging where
  /-- A log filter. -/
  level : String
  /-- Whether logs are lines of JSON. -/
  json : Bool
  deriving DecidableEq

def Logging.standard : Logging := ⟨"info", false⟩

structure Config where
  maxBytes : Nat
  logging : Logging
  deriving DecidableEq

inductive ConfigError where
  | unreadable (reason : String)
  | limit
  | level (filter reason : String)
  | traversal
  | file (path reason : String)
  | inFile (path : String) (cause : ConfigError)

def ConfigError.message : ConfigError → String
  | .unreadable reason => "Failed to parse config: " ++ reason
  | .limit => "max_bytes must be greater than zero"
  | .level filter reason => "Invalid log level '" ++ filter ++ "': " ++ reason
  | .traversal => "Invalid path: directory traversal detected"
  | .file path reason => "Failed to read config file '" ++ path ++ "': " ++ reason
  | .inFile path cause => "Invalid config file '" ++ path ++ "': " ++ cause.message

namespace Logging

open Toml

def levelOf? : Option Value → Option String
  | none => some standard.level
  | some (.text level) => some level
  | some _ => none

def jsonOf? : Option Value → Option Bool
  | none => some standard.json
  | some (.boolean json) => some json
  | some _ => none

/-- A table, or an array of the values in order. A date-time counts as a table without known
keys. -/
def ofValue? : Option Value → Option Logging
  | none => some standard
  | some (.table entries) =>
    return ⟨← levelOf? (entries.lookup "level"), ← jsonOf? (entries.lookup "json")⟩
  | some (.array items) => return ⟨← levelOf? items[0]?, ← jsonOf? items[1]?⟩
  | some .dateTime => some standard
  | some _ => none

def table (logging : Logging) : Table :=
  [("level", .text logging.level), ("json", .boolean logging.json)]

end Logging

namespace Config

open Toml

def standard : Config := ⟨Codec.defaultMaxBytes, .standard⟩

def maxBytesOf? : Option Value → Option Nat
  | none => some standard.maxBytes
  | some (.integer n) => if 0 ≤ n then some n.toNat else none
  | some _ => none

def ofTable? (table : Table) : Option Config :=
  return ⟨← maxBytesOf? (table.lookup "max_bytes"), ← Logging.ofValue? (table.lookup "logging")⟩

def table (config : Config) : Table :=
  [("max_bytes", .integer config.maxBytes), ("logging", .table config.logging.table)]

def validate (filter : FilterCheck) (config : Config) : Except ConfigError Unit :=
  if config.maxBytes = 0 then .error .limit
  else (filter config.logging.level).mapError (.level config.logging.level)

/-- Reads a configuration and checks it. -/
def ofToml (toml : Toml.Library) (filter : FilterCheck) (text : String) :
    Except ConfigError Config := do
  let config ← (toml.read ofTable? text).mapError .unreadable
  config.validate filter
  return config

/-- The text of a configuration. -/
def toToml (toml : Toml.Library) (config : Config) : Except String String :=
  toml.write config.table

/-- Reads the configuration in a file; `read` is the content of the file at a path. A path
with two dots in a row is refused before it is read. -/
def ofFile (toml : Toml.Library) (filter : FilterCheck) (read : String → Except String Bytes)
    (path : String) : Except ConfigError Config :=
  if (path.toList.zip path.toList.tail).contains ('.', '.') then .error .traversal
  else
    match read path with
    | .error reason => .error (.file path reason)
    | .ok bytes =>
      match String.fromUTF8? ⟨bytes.toArray⟩ with
      | none => .error (.file path "stream did not contain valid UTF-8")
      | some text => (ofToml toml filter text).mapError (.inFile path)

end Config

end Signet
