/-
**Loggers.**

Loggers have dotted names and form a tree under a root.  A logger comes into being when it is first
used, below the nearest logger whose name precedes a full stop of its own name; of two full stops in
a row, only the second counts.  From then on it stands between that logger and those that belong
below it.

A record is made on a logger if its level is at least the level of the nearest logger above that has
one; this is decided once for every logger and level, until some logger is set up.  A record goes to
the handlers of its logger and of the loggers above it, up to the first that does not pass records
on.  A record that meets no handler at all is written to the error stream if it is a warning or
worse.

Main definitions:

* `ThumbAssembler.Handler`, `ThumbAssembler.Logger`, `ThumbAssembler.Journal` — handlers, loggers
  and all loggers by name;
* `ThumbAssembler.enclosingNames` — the names of the loggers that may stand above a logger;
* `ThumbAssembler.Journal.meet` — the journal in which a logger exists;
* `ThumbAssembler.Journal.chain` — a logger and the loggers above it;
* `ThumbAssembler.Journal.deliveries` — where a record goes;
* `ThumbAssembler.Journal.configure` — a logger is set up.

Main results:

* `ThumbAssembler.length_beforeLastDot_lt` — an enclosing name is shorter.
-/

import ThumbAssembler.Assoc
import ThumbAssembler.Disk.Tree
import ThumbAssembler.Journal.Record

set_option autoImplicit false

namespace ThumbAssembler

/-- Where a handler sends records: a console panel, the error stream in plain lines, or a file. -/
inductive Channel where
  | panel
  | stream
  | file (location : Location)
  deriving DecidableEq, Repr

/-- A channel and the least level of the records that it takes. -/
structure Handler where
  channel : Channel
  level : Int
  deriving DecidableEq, Repr

/-- A logger: its level (zero for none of its own), whether it passes records on to the logger
above, its handlers, and the name of the logger above (empty for the root). -/
structure Logger where
  level : Int := 0
  propagates : Bool := true
  handlers : List Handler := []
  above : Text := []
  deriving DecidableEq, Repr

/-- The loggers by name, where the root has the empty name, and what has been decided about which
logger takes which level. -/
structure Journal where
  loggers : List (Text × Logger) := []
  decisions : List ((Text × Int) × Bool) := []
  deriving DecidableEq, Repr

/-! ### Names -/

/-- What stands before the last full stop of a name; empty without a full stop. -/
def beforeLastDot (name : Text) : Text := ((name.reverse.dropWhile (· ≠ '.')).drop 1).reverse

/-- **An enclosing name is shorter.** -/
theorem length_beforeLastDot_lt {name : Text} (h : beforeLastDot name ≠ []) :
    (beforeLastDot name).length < name.length := by
  have hle := (List.dropWhile_sublist (fun c : Char => decide (c ≠ '.'))
    (l := name.reverse)).length_le
  have hpos := List.length_pos_iff.2 h
  simp only [List.length_reverse] at hle
  simp only [beforeLastDot, List.length_reverse, List.length_drop] at hpos ⊢
  omega

/-- The names of the loggers that may stand above a logger, the nearest first: what precedes a full
stop of its name, where a full stop right before another one is passed over. -/
def enclosingNames (name : Text) : List Text :=
  if _h : beforeLastDot name = [] then []
  else beforeLastDot name :: enclosingNames (beforeLastDot name).dropLast
termination_by name.length
decreasing_by
  have := length_beforeLastDot_lt _h
  simp only [List.length_dropLast]
  omega

namespace Journal

/-- The root logger takes warnings and worse. -/
def rootDefault : Logger := { level := Level.warning }

/-- The logger of a name. -/
def logger (j : Journal) (name : Text) : Logger :=
  (Assoc.get? name j.loggers).getD (if name.isEmpty then rootDefault else {})

/-- The key of a logger: the root answers to the empty name and to its own. -/
def key (name : Text) : Text := if name = "root".toList then [] else name

/-- The name that a logger shows. -/
def shownName (name : Text) : Text := if name.isEmpty then "root".toList else name

/-! ### The tree -/

/-- The logger of a key exists; the root always does. -/
def has (j : Journal) (k : Text) : Bool := k.isEmpty || (Assoc.get? k j.loggers).isSome

/-- A logger after a new one has come into being: it moves below the new one if that encloses it,
unless the name shown by the logger above it starts with the new name. -/
def adopt (new : Text) (entry : Text × Logger) : Text × Logger :=
  if new ∈ enclosingNames entry.1 ∧ ¬ new.isPrefixOf (shownName entry.2.above) then
    (entry.1, { entry.2 with above := new })
  else entry

/-- The journal in which the logger of a key exists. -/
def meet (j : Journal) (k : Text) : Journal :=
  if j.has k then j
  else
    let above := ((enclosingNames k).find? j.has).getD []
    { j with loggers := j.loggers.map (adopt k) ++ [(k, { above := above })] }

/-- A logger and the loggers above it, up to the root. -/
def chain (j : Journal) (k : Text) : List Logger :=
  if (j.logger k).above.length < k.length then j.logger k :: j.chain (j.logger k).above
  else [j.logger k]
termination_by k.length

/-! ### Records -/

/-- The level of the nearest logger that has one. -/
def effectiveLevel (j : Journal) (k : Text) : Int :=
  match (j.chain k).find? fun l => l.level ≠ 0 with
  | some l => l.level
  | none => 0

/-- The level is positive and high enough for the logger, or was decided to be so. -/
def isEnabled (j : Journal) (k : Text) (level : Int) : Bool :=
  (Assoc.get? (k, level) j.decisions).getD (0 < level && j.effectiveLevel k ≤ level)

/-- The handlers that a record meets: those of a chain of loggers up to the first that does not
pass records on. -/
def handlersOf : List Logger → List Handler
  | [] => []
  | l :: above => l.handlers ++ if l.propagates then handlersOf above else []

/-- Where a record goes; a record that meets no handler goes to the last resort. -/
inductive Delivery where
  | to (channel : Channel)
  | lastResort
  deriving DecidableEq, Repr

/-- Where a record on an existing logger goes. -/
def deliveries (j : Journal) (r : Record) : List Delivery :=
  if j.isEnabled (key r.logger) r.level then
    let handlers := handlersOf (j.chain (key r.logger))
    if handlers.isEmpty then
      if Level.warning ≤ r.level then [.lastResort] else []
    else (handlers.filter fun h => h.level ≤ r.level).map fun h => .to h.channel
  else []

/-- The journal after a record was made: its logger exists, and whether it takes the level of the
record is decided. -/
def after (j : Journal) (r : Record) : Journal :=
  let j := j.meet (key r.logger)
  { j with
    decisions := Assoc.put (key r.logger, r.level) (j.isEnabled (key r.logger) r.level)
      j.decisions }

/-! ### Settings -/

/-- The journal with other settings for a logger, which exists from then on; nothing is decided
any more. -/
def configure (j : Journal) (name : Text) (level : Int) (handlers : List Handler) : Journal :=
  let j := j.meet (key name)
  let l : Logger := { j.logger (key name) with
    level := level, propagates := false, handlers := handlers }
  { loggers := Assoc.put (key name) l j.loggers, decisions := [] }

end Journal

end ThumbAssembler
