/-
**Options and positional arguments.**

Arguments that start with a dash are options, unless they look like negative numbers or contain a
space.  A long option may be shortened to a prefix that no other option shares, and takes its value
after an equals sign or from the next argument.  Short options may be run together, with or without
an equals sign after the first, and the last of them takes its value from the rest of the argument
or from the next argument.  The argument `--` ends the options, and as an attached value it counts
as no value at all.

Reading the arguments yields what was met, in order, then the arguments that nobody wanted or the
mistake that ended the reading.

Main definitions:

* `ThumbAssembler.Switch` — an option: its names, and whether it takes a value;
* `ThumbAssembler.Mistake` — the mistakes that reading can meet;
* `ThumbAssembler.Switch.classify` — an argument is an option, a plain argument, or ambiguous;
* `ThumbAssembler.Positional` — which positional argument is expected;
* `ThumbAssembler.readArguments` — everything that a list of arguments says.
-/

import ThumbAssembler.Text.Digit
import ThumbAssembler.Text.Quoted

set_option autoImplicit false

namespace ThumbAssembler

/-- An option: what it is for, its names, and whether it takes a value. -/
structure Switch (ι : Type) where
  purpose : ι
  names : List Text
  takesValue : Bool

/-- The mistakes that reading arguments can meet. -/
inductive Mistake where
  | ambiguous (argument : Text) (names : List Text)
  | valueMissing (option : Text)
  | valueIgnored (option : Text) (value : Text)
  | invalidChoice (option : Text) (value : Text) (choices : List Text)
  | invalidInteger (option : Text) (value : Text)
  | argumentsMissing (names : List Text)
  | unrecognized (arguments : List Text)
  deriving DecidableEq, Repr

/-- The wording of a mistake. -/
def Mistake.message : Mistake → Text
  | ambiguous argument names =>
      "ambiguous option: ".toList ++ argument ++ " could match ".toList ++
        Text.joined ", ".toList names
  | valueMissing option => "argument ".toList ++ option ++ ": expected one argument".toList
  | valueIgnored option value =>
      "argument ".toList ++ option ++ ": ignored explicit argument ".toList ++ Text.quoted value
  | invalidChoice option value choices =>
      "argument ".toList ++ option ++ ": invalid choice: ".toList ++ Text.quoted value ++
        " (choose from ".toList ++ Text.joined ", ".toList (choices.map Text.quoted) ++ ")".toList
  | invalidInteger option value =>
      "argument ".toList ++ option ++ ": invalid int value: ".toList ++ Text.quoted value
  | argumentsMissing names =>
      "the following arguments are required: ".toList ++ Text.joined ", ".toList names
  | unrecognized arguments =>
      "unrecognized arguments: ".toList ++ Text.joined " ".toList arguments

/-- The argument that ends the options. -/
def endMark : Text := "--".toList

/-- An option that was met: under which name, and with which text attached to it. -/
structure Reading (ι : Type) where
  switch : Switch ι
  name : Text
  attached : Option Text

/-- What an argument is. -/
inductive ArgumentClass (ι : Type) where
  | plain
  | ending
  | known (r : Reading ι)
  | unknown

variable {ι : Type}

namespace Switch

/-- All names of an option, as messages show them. -/
def title (s : Switch ι) : Text := Text.joined "/".toList s.names

/-- All names with their options, in order. -/
def table (switches : List (Switch ι)) : List (Text × Switch ι) :=
  switches.flatMap fun s => s.names.map fun n => (n, s)

/-- The option of a name. -/
def named? (switches : List (Switch ι)) (name : Text) : Option (Switch ι) :=
  ((table switches).find? fun p => p.1 = name).map Prod.snd

/-- A text before and after its first equals sign, if it has one. -/
def splitEquals? (t : Text) : Option (Text × Text) :=
  match t.dropWhile (· ≠ '=') with
  | [] => none
  | _ :: value => some (t.takeWhile (· ≠ '='), value)

/-- The options that a long argument can stand for: those whose names it starts. -/
def longMatches (switches : List (Switch ι)) (argument : Text) : List (Reading ι) :=
  let start := ((splitEquals? argument).map Prod.fst).getD argument
  let attached := (splitEquals? argument).map Prod.snd
  ((table switches).filter fun p => start.isPrefixOf p.1).map fun p => ⟨p.2, p.1, attached⟩

/-- The options that a short argument can stand for: that of its first letter, with the rest
attached, and those whose names it starts. -/
def shortMatches (switches : List (Switch ι)) (argument : Text) : List (Reading ι) :=
  (table switches).filterMap fun p =>
    if p.1 = argument.take 2 then some ⟨p.2, p.1, some (argument.drop 2)⟩
    else if argument.isPrefixOf p.1 then some ⟨p.2, p.1, none⟩
    else none

/-- A decimal digit of any script. -/
def isDigit (c : Char) : Bool := (digitOfAnyScript? c).isSome

/-- A dash and digits, with at most one full stop among them that digits follow; one line feed may
stand at the end. -/
def looksNegative (argument : Text) : Bool :=
  match if argument.getLast? = some '\n' then argument.dropLast else argument with
  | '-' :: body =>
      match body.dropWhile isDigit with
      | [] => !body.isEmpty
      | '.' :: decimals => !decimals.isEmpty && decimals.all isDigit
      | _ => false
  | _ => false

/-- An argument that matches no option is plain if it looks like a negative number or contains a
space. -/
def classifyUnmatched (argument : Text) : ArgumentClass ι :=
  if looksNegative argument || argument.contains ' ' then .plain else .unknown

/-- What an argument is, before the options have been ended. -/
def classify (switches : List (Switch ι)) (argument : Text) : Except Mistake (ArgumentClass ι) :=
  match argument with
  | '-' :: second :: _ =>
      match named? switches argument with
      | some s => .ok (.known ⟨s, argument, none⟩)
      | none =>
          let equal : Option (Reading ι) := do
            let (name, value) ← splitEquals? argument
            return ⟨← named? switches name, name, some value⟩
          match equal with
          | some r => .ok (.known r)
          | none =>
              let found :=
                if second = '-' then longMatches switches argument
                else shortMatches switches argument
              match found with
              | [] => .ok (classifyUnmatched argument)
              | [r] => .ok (.known r)
              | rs => .error (.ambiguous argument (rs.map Reading.name))
  | _ => .ok .plain

/-- What every argument is; all after `--` are plain. -/
def classifyAll (switches : List (Switch ι)) :
    List Text → Except Mistake (List (Text × ArgumentClass ι))
  | [] => .ok []
  | argument :: rest =>
      if argument = endMark then
        .ok ((argument, .ending) :: rest.map fun a => (a, .plain))
      else do
        let c ← classify switches argument
        return (argument, c) :: (← classifyAll switches rest)

end Switch

/-! ### Reading -/

/-- What was met among the arguments; the value of an option may be missing. -/
inductive Met (ι : Type) where
  | option (purpose : ι) (value : Option Text)
  | positional (arguments : List Text)

/-- The options met in one argument, and what is left after it. -/
structure Taken (ι : Type) where
  met : List (Met ι)
  rest : List (Text × ArgumentClass ι)

/-- Takes an option that has no attached value: a value comes from the next argument, which must be
plain. -/
def takeDetached (s : Switch ι) (rest : List (Text × ArgumentClass ι)) :
    Except Mistake (Taken ι) :=
  if s.takesValue then
    match rest with
    | (value, .plain) :: rest => .ok ⟨[.option s.purpose (some value)], rest⟩
    | _ => .error (.valueMissing s.title)
  else .ok ⟨[.option s.purpose none], rest⟩

/-- An option with an attached value; the end mark counts as no value. -/
def withAttached (s : Switch ι) (value : Text) : Met ι :=
  .option s.purpose (if value = endMark then none else some value)

/-- Takes a short option `s` and the options that follow it in the same argument, whose remaining
letters are `letters`. -/
def takeLetters (switches : List (Switch ι)) (rest : List (Text × ArgumentClass ι)) :
    Switch ι → Text → Except Mistake (Taken ι)
  | s, [] => takeDetached s rest
  | s, c :: letters =>
      if s.takesValue then .ok ⟨[withAttached s (c :: letters)], rest⟩
      else
        match Switch.named? switches ['-', c] with
        | none => .error (.valueIgnored s.title (c :: letters))
        | some next => do
            let taken ← takeLetters switches rest next letters
            return { taken with met := .option s.purpose none :: taken.met }

/-- Takes an option together with its value and the options run together with it. -/
def takeOption (switches : List (Switch ι)) (r : Reading ι)
    (rest : List (Text × ArgumentClass ι)) : Except Mistake (Taken ι) :=
  match r.attached with
  | none => takeDetached r.switch rest
  | some text =>
      if r.switch.takesValue then .ok ⟨[withAttached r.switch text], rest⟩
      else if text.isEmpty || "--".toList.isPrefixOf r.name then
        .error (.valueIgnored r.switch.title text)
      else takeLetters switches rest r.switch text

/-- The positional argument that is still expected: none, one argument, or an argument with all that
follows it. -/
inductive Positional where
  | nothing | single | remainder
  deriving DecidableEq, Repr

/-- The arguments before the first option. -/
def beforeOption (args : List (Text × ArgumentClass ι)) : List Text :=
  (args.takeWhile fun a => match a.2 with
    | .plain => true
    | .ending => true
    | _ => false).map Prod.fst

/-- The arguments from the first option on. -/
def fromOption (args : List (Text × ArgumentClass ι)) : List (Text × ArgumentClass ι) :=
  args.dropWhile fun a => match a.2 with
    | .plain => true
    | .ending => true
    | _ => false

/-- The argument is the end of the options. -/
def isEnding (a : Text × ArgumentClass ι) : Bool := match a.2 with
  | .ending => true
  | _ => false

/-- The positional argument at the start, with the arguments that it takes and those that it leaves;
the end of the options goes with its neighbour. -/
def takePositional (p : Positional) (args : List (Text × ArgumentClass ι)) :
    Option (List Text × List (Text × ArgumentClass ι)) :=
  let lead := (args.takeWhile isEnding).map Prod.fst
  match p, args.dropWhile isEnding with
  | .single, (value, .plain) :: rest =>
      some (lead ++ value :: (rest.takeWhile isEnding).map Prod.fst, rest.dropWhile isEnding)
  | .remainder, (value, .plain) :: rest => some (lead ++ value :: rest.map Prod.fst, [])
  | _, _ => none

/-- Everything that arguments say: what was met, what nobody wanted, and the mistake that ended the
reading. -/
structure Findings (ι : Type) where
  met : List (Met ι)
  extras : List Text
  mistake : Option Mistake

/-- Findings after something more was met first. -/
def Findings.after (f : Findings ι) (met : List (Met ι)) (extras : List Text) : Findings ι :=
  { f with met := met ++ f.met, extras := extras ++ f.extras }

/-- What is left once no option follows: at most the positional argument. -/
def readPlain (p : Positional) (args : List (Text × ArgumentClass ι)) : Findings ι :=
  match takePositional p args with
  | some (taken, rest) => ⟨[.positional taken], rest.map Prod.fst, none⟩
  | none => ⟨[], args.map Prod.fst, none⟩

/-- Reads classified arguments with at most `fuel` options among them. -/
def readClassified (switches : List (Switch ι)) :
    Nat → Positional → List (Text × ArgumentClass ι) → Findings ι
  | 0, p, args => readPlain p args
  | fuel + 1, p, args =>
      match fromOption args with
      | [] => readPlain p args
      | (argument, c) :: rest =>
          let continueWith (extras : List Text) : Findings ι :=
            match c with
            | .known r =>
                match takeOption switches r rest with
                | .ok taken =>
                    (readClassified switches fuel p taken.rest).after taken.met extras
                | .error m => ⟨[], extras, some m⟩
            | _ => (readClassified switches fuel p rest).after [] (extras ++ [argument])
          match beforeOption args with
          | [] => continueWith []
          | before =>
              match takePositional p args with
              | some (taken, left) =>
                  (readClassified switches fuel .nothing left).after [.positional taken] []
              | none => continueWith before

/-- Everything that a list of arguments says. -/
def readArguments (switches : List (Switch ι)) (p : Positional) (args : List Text) : Findings ι :=
  match Switch.classifyAll switches args with
  | .error m => ⟨[], [], some m⟩
  | .ok classified => readClassified switches (2 * classified.length) p classified

end ThumbAssembler
