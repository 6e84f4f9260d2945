/-!
# Help texts
-/

namespace DBindings.Help

/-- Lines, each with a line feed behind it. -/
def unlines (lines : List String) : String := String.join (lines.map (· ++ "\n"))

def verboseText : String := "Increase log verbosity (-v info, -vv debug, -vvv trace)"

def version : String := "dgen 0.1.0\n"

def program : String := unlines
  ["Generate D bindings from resolved C/C++ declarations",
   "",
   "Usage: dgen [OPTIONS] <COMMAND>",
   "",
   "Commands:",
   "  generate  Emit a D module from a JSON translation-unit dump",
   "  check     Emit into memory and report problems without writing anything",
   "  dump      List the declarations of a translation-unit dump",
   "  init      Write a starting dgen.toml",
   "  help      Print this message or the help of the given subcommand(s)",
   "",
   "Options:",
   "  -v, --verbose...  " ++ verboseText,
   "  -h, --help        Print help",
   "  -V, --version     Print version"]

def generateHead : List String :=
  ["Emit a D module from a JSON translation-unit dump",
   "",
   "Usage: dgen generate [OPTIONS] <UNIT>",
   ""]

def generateBrief : String := unlines (generateHead ++
  ["Arguments:",
   "  <UNIT>  Translation unit dumped by the front end",
   "",
   "Options:",
   "  -c, --config <CONFIG>      Configuration file (dgen.toml)",
   "  -v, --verbose...           " ++ verboseText,
   "  -o, --output <OUTPUT>      Output module path, \x60-\x60 for stdout",
   "      --path <PATHS>         Input path root; repeat for several",
   "      --std <STANDARD>       Source language standard (e.g. c99, c++17)",
   "      --extra <EXTRAS>       Extra feature flag (e.g. attr-nogc); repeat for several",
   "      --mangling <MANGLING>  Symbol mangling scheme [possible values: itanium, microsoft]",
   "      --no-preamble          Leave out the fixed module preamble",
   "  -h, --help                 Print help (see more with '--help')"])

def generateLong : String := unlines (generateHead ++
  ["Arguments:",
   "  <UNIT>",
   "          Translation unit dumped by the front end",
   "",
   "Options:",
   "  -c, --config <CONFIG>",
   "          Configuration file (dgen.toml)",
   "",
   "  -v, --verbose...",
   "          " ++ verboseText,
   "",
   "  -o, --output <OUTPUT>",
   "          Output module path, \x60-\x60 for stdout",
   "",
   "      --path <PATHS>",
   "          Input path root; repeat for several",
   "",
   "      --std <STANDARD>",
   "          Source language standard (e.g. c99, c++17)",
   "",
   "      --extra <EXTRAS>",
   "          Extra feature flag (e.g. attr-nogc); repeat for several",
   "",
   "      --mangling <MANGLING>",
   "          Symbol mangling scheme",
   "",
   "          Possible values:",
   "          - itanium:   Itanium C++ ABI",
   "          - microsoft: Microsoft Visual C++ ABI",
   "",
   "      --no-preamble",
   "          Leave out the fixed module preamble",
   "",
   "  -h, --help",
   "          Print help (see a summary with '-h')"])

def check : String := unlines
  ["Emit into memory and report problems without writing anything",
   "",
   "Usage: dgen check [OPTIONS] <UNIT>",
   "",
   "Arguments:",
   "  <UNIT>  Translation unit dumped by the front end",
   "",
   "Options:",
   "  -c, --config <CONFIG>  Configuration file (dgen.toml)",
   "  -v, --verbose...       " ++ verboseText,
   "  -h, --help             Print help"]

def dump : String := unlines
  ["List the declarations of a translation-unit dump",
   "",
   "Usage: dgen dump [OPTIONS] <UNIT>",
   "",
   "Arguments:",
   "  <UNIT>  Translation unit dumped by the front end",
   "",
   "Options:",
   "  -v, --verbose...  " ++ verboseText,
   "  -h, --help        Print help"]

def init : String := unlines
  ["Write a starting dgen.toml",
   "",
   "Usage: dgen init [OPTIONS] [OUTPUT]",
   "",
   "Arguments:",
   "  [OUTPUT]  Where to write the configuration [default: dgen.toml]",
   "",
   "Options:",
   "      --force       Replace an existing file",
   "  -v, --verbose...  " ++ verboseText,
   "  -h, --help        Print help"]

def help : String := unlines
  ["Print this message or the help of the given subcommand(s)",
   "",
   "Usage: dgen help [COMMAND]...",
   "",
   "Arguments:",
   "  [COMMAND]...  Print help for the subcommand(s)"]

end DBindings.Help
