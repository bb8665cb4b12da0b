import Formulary.CommandLine.Run

/-!
# The program

Reads the files named on the command line, runs, and prints what the run says.
-/

namespace Formulary

def usage : String :=
  "Usage: formulary [OPTIONS] <FILE>\n\n" ++
  "  -a, --arguments <NUMBER>...    values of the arguments of the last equation\n" ++
  "  -f, --format <ron|json>        format of the file\n" ++
  "  -c, --config <FILE>            configuration file\n" ++
  "      --partitions <NUMBER>      partitions of an integral\n" ++
  "      --rule <left|midpoint>     where an integrand is sampled\n" ++
  "      --step <NUMBER>            step of a derivative\n" ++
  "      --differential <NAME>      integration variable of integrals that name none\n" ++
  "  -h, --help                     print this text\n"

def readText? (path : String) : IO (Option String) :=
  try return some (← IO.FS.readFile path)
  catch _ => return none

/-- The contents of the given files. -/
def readFiles (paths : List String) : IO CommandLine.Files := do
  let contents ← paths.mapM fun path => return (path, ← readText? path)
  return fun path => (contents.lookup path).join

end Formulary

open Formulary in
def main (texts : List String) : IO UInt32 := do
  match CommandLine.parse texts with
  | .error refusal =>
    match refusal with
    | .help => IO.print usage
    | .usage => IO.eprint usage
    return refusal.exitCode.toUInt32
  | .ok arguments =>
    let files ← readFiles (arguments.file :: arguments.config.toList)
    let transcript := CommandLine.run arguments files
    for line in transcript.output do IO.println line
    for notice in transcript.notices do IO.eprint (notice.text false)
    return if transcript.success then 0 else 1
