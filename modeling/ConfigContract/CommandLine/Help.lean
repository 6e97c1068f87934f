import ConfigContract.CommandLine.Arguments

/-!
What the program says about itself.
-/

namespace ConfigContract

namespace Help

def logVariable : String := "RUST_LOG"

def verboseLine : String :=
  "  -v, --verbose...  raise log verbosity (-v debug, -vv trace); " ++ logVariable ++
    " takes precedence"

def program : List String := [
  "convert Terraform provider schemas into the configuration-contract IR",
  "",
  "Usage: tf-schema-ir [OPTIONS] <COMMAND>",
  "",
  "Commands:",
  "  ir      resolve the providers in a directory and print the IR",
  "  merged  resolve the providers in a directory and print the merged input schema",
  "  lower   lower previously dumped merged schemas",
  "  help    Print this message or the help of the given subcommand(s)",
  "",
  "Options:",
  verboseLine,
  "  -h, --help        Print help"]

def options : List String := [
  "",
  "Options:",
  "  -o, --out <OUT>   output .json file (stdout if omitted)",
  "      --pretty      pretty-print the JSON output",
  "      --no-op       debugging",
  verboseLine,
  "  -h, --help        Print help"]

def directory : List String := [
  "",
  "Arguments:",
  "  <DIR>  directory holding providers.json and schemas/"]

def task : TaskName → List String
  | .ir =>
      ["resolve the providers in a directory and print the IR",
        "", "Usage: tf-schema-ir ir [OPTIONS] <DIR>"] ++ directory ++ options
  | .merged =>
      ["resolve the providers in a directory and print the merged input schema",
        "", "Usage: tf-schema-ir merged [OPTIONS] <DIR>"] ++ directory ++ options
  | .lower =>
      ["lower previously dumped merged schemas",
        "", "Usage: tf-schema-ir lower [OPTIONS] <INPUT>...",
        "",
        "Arguments:",
        "  <INPUT>...  One or more merged schema dumps. May be literal paths or quoted glob " ++
          "patterns; later files win on key collisions"] ++ options

def usage : List String := [
  "error: unusable arguments",
  "",
  "Usage: tf-schema-ir [OPTIONS] <COMMAND>",
  "",
  "For more information, try '--help'."]

def text (lines : List String) : String := String.join (lines.map (· ++ "\n"))

end Help

end ConfigContract
