/-!
# Options

The options of the program stand in front of the command: everything from the first word without a
leading `-` belongs to the command, whatever it looks like.
-/

namespace SheetLedger

/-- What the arguments of the program say. -/
structure Options where
  /-- The configuration file, if one is named. -/
  configuration : Option String := none
  /-- Whether the user's configuration file is left aside. -/
  noConfiguration : Bool := false
  /-- The database, if one is named. -/
  database : Option String := none
  /-- The words of the command. -/
  command : List String := []
deriving Repr, DecidableEq

/-- Why the program stops at its arguments. -/
inductive OptionsError where
  /-- Help was asked for. -/
  | help
  /-- The last word is an option that needs a value. -/
  | missingValue (option : String)
  | unknownOption (option : String)
  /-- There is no command. -/
  | noCommand
deriving Repr, DecidableEq

namespace Options

/-- Reads arguments after those that `options` stands for. A later value of an option replaces an
earlier one. -/
def ofWordsAfter (options : Options) : List String → Except OptionsError Options
  | [] => .ok options
  | "-h" :: _ => .error .help
  | "--help" :: _ => .error .help
  | "--no-config" :: rest => ofWordsAfter { options with noConfiguration := true } rest
  | ["--config"] => .error (.missingValue "--config")
  | "--config" :: path :: rest => ofWordsAfter { options with configuration := some path } rest
  | ["--db"] => .error (.missingValue "--db")
  | "--db" :: path :: rest => ofWordsAfter { options with database := some path } rest
  | word :: rest =>
    if word.startsWith "-" then .error (.unknownOption word)
    else .ok { options with command := word :: rest }

/-- Reads the arguments of the program, which must have a command. -/
def ofWords (words : List String) : Except OptionsError Options := do
  let options ← ofWordsAfter {} words
  if options.command.isEmpty then throw .noCommand else return options

end Options

end SheetLedger
