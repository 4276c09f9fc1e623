import YamlQuery.KeyPath.Basic

/-!
# Settings — what a run takes from its user

The delimiter of paths, the namespace of tokens, the format of output, whether files are kept as
backups, the indentation of JSON, and whether walks are strict.
-/

namespace YamlQuery

structure Settings where
  delimiter : String := KeyPath.defaultDelimiter
  tokenNamespace : String := "yamlpipe"
  outputFormat : String := "yaml"
  createBackup : Bool := false
  indentSize : Nat := 2
  strictSequences : Bool := true
deriving DecidableEq

namespace Settings

/-- Output is JSON: the format is `json`, in small or capital letters. -/
def writesJson (s : Settings) : Bool := Text.lower s.outputFormat.toList == "json".toList

end Settings

end YamlQuery
