import Restage.Text.Basic

/-!
The texts that tell how the command is used.
-/

set_option autoImplicit false

namespace Restage.CommandLine

def commandName : String := "animate-upgrade"

def usage : String :=
  "usage: " ++ commandName ++ " [options] <mode> path/to/file1.js path/to/file2.js\n"

def optionsHelp : String :=
  "options:\n" ++
  "  -v, --verbose        Increase log verbosity for troubleshooting.\n" ++
  "  --dry-run            Print the changes as a diff without writing any file.\n" ++
  "  --config CONFIG      Path to .animate-upgrade.yml (defaults to the current\n" ++
  "                       directory).\n" ++
  "  --log-file LOG_FILE  Also write log output to this file.\n"

def modesHelp : String :=
  "Modes (apply to every file listed after them):\n" ++
  "    -c (Default) CommonJS/Node style export\n" ++
  "    -e ES6 style export (export default)\n" ++
  "    -a ES6 style export with auto import of pixi-animate and run of setup(),\n" ++
  "       exports library items as well as the default.\n"

def help : String :=
  usage ++ "\nUpgrade legacy animation library exports to class-based modules.\n\n" ++
    optionsHelp ++ "\n" ++ modesHelp

/-- What is printed when arguments cannot be used. -/
def usageFailure (message : String) : String :=
  usage ++ commandName ++ ": error: " ++ message ++ "\n"

end Restage.CommandLine
