/-
**Usage and help.**

The texts that the command line prints about itself: for each command a usage paragraph, which also
precedes the report of a mistake, and a help text that starts with it.

Main definitions:

* `ThumbAssembler.Manual` — the program itself or one of its commands, as a subject of help;
* `ThumbAssembler.Manual.usage`, `ThumbAssembler.Manual.help` — its texts;
* `ThumbAssembler.Manual.complaint` — the report of a mistake.
-/

import ThumbAssembler.CommandLine.Switch
import ThumbAssembler.Target

set_option autoImplicit false

namespace ThumbAssembler

/-- The name of the program. -/
def programName : Text := "parmasm".toList

/-- The version of the program. -/
def programVersion : Text := "1.0.0".toList

/-- What the version option prints. -/
def versionText : Text := programName ++ " ".toList ++ programVersion

/-- What help is about: the program as a whole, or one of its commands. -/
inductive Manual where
  | program | assemble | print | repl
  deriving DecidableEq, Repr

/-- Lines of text, each with its line feed. -/
def paragraph (lines : List String) : Text := lines.flatMap fun line => line.toList ++ ['\n']

namespace Manual

/-- The commands, in the order of the help text. -/
def commands : List Manual := [assemble, print, repl]

/-- The word that selects a command. -/
def word : Manual → Text
  | program => []
  | assemble => "assemble".toList
  | print => "print".toList
  | repl => "repl".toList

/-- The name under which mistakes are reported. -/
def title (m : Manual) : Text :=
  match m with
  | program => programName
  | _ => programName ++ " ".toList ++ m.word

/-- How the program or a command is called. -/
def usage : Manual → Text
  | program =>
      paragraph ["usage: parmasm [-h] [--version] [-v] [--log-file LOG_FILE] command ..."]
  | assemble =>
      paragraph
        ["usage: parmasm assemble [-h] [-o OUTPUT] [--target \x7bparm,armv6m\x7d]",
         "                        [--per-line N] [--listing]",
         "                        input"]
  | print =>
      paragraph ["usage: parmasm print [-h] [--target \x7bparm,armv6m\x7d] instruction"]
  | repl => paragraph ["usage: parmasm repl [-h] [--target \x7bparm,armv6m\x7d]"]

/-- The targets with their descriptions. -/
def targetSummary : Text :=
  "targets: ".toList ++
    Text.joined ", ".toList
      (Target.all.map fun t => t.name ++ " (".toList ++ t.description ++ ")".toList)

/-- What help says after the usage. -/
def details : Manual → Text
  | program =>
      paragraph
        ["",
         "Two-pass assembler for the PARM Thumb subset (Logisim v2.0 raw output)",
         "",
         "positional arguments:",
         "  command",
         "    assemble           Assemble a .s file or a directory of them",
         "    print              Show the encoding of an instruction snippet",
         "    repl               Interactive encoder ('exit' quits)",
         "",
         "options:",
         "  -h, --help           show this help message and exit",
         "  --version            show program's version number and exit",
         "  -v, --verbose        More console logging (-v info, -vv debug)",
         "  --log-file LOG_FILE  Also write a DEBUG log to this file",
         ""] ++ targetSummary ++ ['\n']
  | assemble =>
      paragraph
        ["",
         "positional arguments:",
         "  input                 Input .s file, or a directory (each .s -> .bin)",
         "",
         "options:",
         "  -h, --help            show this help message and exit",
         "  -o OUTPUT, --output OUTPUT",
         "                        Output image file (default: stdout)",
         "  --target \x7bparm,armv6m\x7d",
         "                        Target profile (default: parm)",
         "  --per-line N          Words per image line (default: all on one line)",
         "  --listing             Print an address/word/source listing to stdout"]
  | print =>
      paragraph
        ["",
         "positional arguments:",
         "  instruction           e.g. \"movs r0, #1\" (labels must be defined)",
         "",
         "options:",
         "  -h, --help            show this help message and exit",
         "  --target \x7bparm,armv6m\x7d"]
  | repl =>
      paragraph
        ["",
         "options:",
         "  -h, --help            show this help message and exit",
         "  --target \x7bparm,armv6m\x7d"]

/-- The help text. -/
def help (m : Manual) : Text := m.usage ++ m.details

/-- The report of a mistake: the usage, then what is wrong. -/
def complaint (m : Manual) (mistake : Mistake) : Text :=
  m.usage ++ m.title ++ ": error: ".toList ++ mistake.message ++ ['\n']

end Manual

end ThumbAssembler
