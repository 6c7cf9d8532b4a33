import VersionStore.Fault

namespace VersionStore

/-!
# Failures of commands

What a command reports when it fails: a message and the messages of what lies
below it, outermost first. A failure is written on one line, or over several
lines with its causes numbered when there is more than one.
-/

/-- A message with its causes. -/
structure Failure where
  message : String
  causes : List String := []
  deriving DecidableEq, Repr

namespace Failure

/-- The failure of a store operation. -/
def ofFault (fault : Fault) : Failure where
  message := fault.message
  causes := fault.causes

/-- The failure of a byte stream or a host file. -/
def ofIo (fault : IoFault) : Failure where
  message := fault.message
  causes := fault.causes

/-- The failure that a failure led to. -/
def within (failure : Failure) (message : String) : Failure where
  message := message
  causes := failure.message :: failure.causes

/-- A failure on one line. -/
def line (failure : Failure) : String :=
  ": ".intercalate (failure.message :: failure.causes)

/-- Put something in front of every line of a text but the first. -/
def indent (margin text : String) : String :=
  ("\n" ++ margin).intercalate (text.splitOn "\n")

/-- Causes with their numbers. -/
def numberedFrom (number : Nat) : List String → List String
  | [] => []
  | cause :: rest =>
      let digits := toString number
      ("".pushn ' ' (5 - digits.length) ++ digits ++ ": " ++ indent "       " cause) ::
        numberedFrom (number + 1) rest

/-- The lines that list causes. -/
def causeLines : List String → List String
  | [] => []
  | [cause] => ["", "Caused by:", "    " ++ indent "    " cause]
  | causes => "" :: "Caused by:" :: numberedFrom 0 causes

/-- A failure over several lines. -/
def text (failure : Failure) : String :=
  "\n".intercalate (failure.message :: causeLines failure.causes)

end Failure

end VersionStore
