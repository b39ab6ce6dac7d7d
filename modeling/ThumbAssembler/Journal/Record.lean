/-
**Log records.**

A record has a level, the name of the logger it was made on and a message.  Levels are integers; the
usual ones have names.

Main definitions:

* `ThumbAssembler.Record` — a record;
* `ThumbAssembler.Level.name` — the name of a level;
* `ThumbAssembler.Level.ofVerbosity` — the level that a number of requests for more output selects;
* `ThumbAssembler.Record.streamLine`, `ThumbAssembler.Record.fileLine` — the line of a record on a
  stream and in a log file.
-/

import ThumbAssembler.Text.Number

set_option autoImplicit false

namespace ThumbAssembler

namespace Level

/-- The level of details for developers. -/
def debug : Int := 10

/-- The level of progress reports. -/
def info : Int := 20

/-- The level of warnings. -/
def warning : Int := 30

/-- The name of a level. -/
def name (level : Int) : Text :=
  if level = 50 then "CRITICAL".toList
  else if level = 40 then "ERROR".toList
  else if level = warning then "WARNING".toList
  else if level = info then "INFO".toList
  else if level = debug then "DEBUG".toList
  else if level = 0 then "NOTSET".toList
  else "Level ".toList ++ decimal level

/-- The name of a level, filled up to the width of a column. -/
def column (level : Int) : Text := Text.padEnd 7 (name level)

/-- Warnings only, progress for one request for more output, details for two. -/
def ofVerbosity (verbose : Int) : Int :=
  if verbose ≥ 2 then debug else if verbose = 1 then info else warning

end Level

/-- A level, the name of a logger and a message. -/
structure Record where
  level : Int
  logger : Text
  message : Text
  deriving DecidableEq, Repr

namespace Record

/-- The line of a record on a stream. -/
def streamLine (r : Record) : Text := Level.column r.level ++ " | ".toList ++ r.message ++ ['\n']

/-- The line of a record in a log file. -/
def fileLine (r : Record) : Text :=
  Level.column r.level ++ " | ".toList ++ r.logger ++ " | ".toList ++ r.message ++ ['\n']

end Record

end ThumbAssembler
