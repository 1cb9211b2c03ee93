import ChunkTree.Config.Basic

namespace ChunkTree

inductive FileError where
  | notFound
  | alreadyExists
  | notDirectory
  | isDirectory
  | nameTooLong
  | unusableName
  | notText
  | other (message : Text)
deriving DecidableEq, Repr

def FileError.message : FileError → Text
  | notFound => "No such file or directory (os error 2)".toList
  | alreadyExists => "File exists (os error 17)".toList
  | notDirectory => "Not a directory (os error 20)".toList
  | isDirectory => "Is a directory (os error 21)".toList
  | nameTooLong => "File name too long (os error 36)".toList
  | unusableName => "file name contained an unexpected NUL byte".toList
  | notText => "stream did not contain valid UTF-8".toList
  | other message => message

abbrev FileReader := Text → Except FileError Text

inductive ConfigError where
  | invalid (message : Text)
  | malformed
  | tokenizer (message : Text)
  | unreadable (cause : FileError)
deriving DecidableEq, Repr

namespace ConfigError

def malformedReason : Text := "not a configuration in TOML".toList

def message : ConfigError → Text
  | invalid text => "Invalid configuration: ".toList ++ text
  | malformed => "Failed to parse configuration: ".toList ++ malformedReason
  | tokenizer text => "Tokenizer error: ".toList ++ text
  | unreadable cause => "IO error: ".toList ++ cause.message

def cause? : ConfigError → Option Text
  | malformed => some malformedReason
  | unreadable cause => some cause.message
  | _ => none

end ConfigError

namespace Config

def validate (c : Config) : Except ConfigError Config :=
  match c.flaw? with
  | some flaw => .error (.invalid flaw.message)
  | none => .ok c

/-- The oracle that a valid config describes. Only the byte-pair metric needs the tokenizer. -/
def oracle? (t : Tokenizer) (c : Config) : Except ConfigError Oracle :=
  match c.validate with
  | .error e => .error e
  | .ok c =>
    match c.metric.load t with
    | .error reason => .error (.tokenizer reason)
    | .ok measure => .ok (c.oracle measure)

end Config
end ChunkTree
