namespace Iloc

inductive ReadError where
  | missing
  | isDirectory
  | notText
  /-- Any other failure, in the words of the system. -/
  | system (reason : String)
  deriving DecidableEq, Repr

def ReadError.reason : ReadError → String
  | .missing => "No such file or directory (os error 2)"
  | .isDirectory => "Is a directory (os error 21)"
  | .notText => "stream did not contain valid UTF-8"
  | .system reason => reason

inductive Entry where
  | file (bytes : ByteArray)
  | directory

/-- The entries of a directory by name; of two with one name the later counts. -/
abbrev Directory := List (String × Entry)

namespace Directory

def entry? (d : Directory) (name : String) : Option Entry :=
  if name = "." ∨ name = ".." then some .directory
  else (d.findRev? fun e => e.1 = name).map Prod.snd

def decode (bytes : ByteArray) : Except ReadError String :=
  match String.fromUTF8? bytes with
  | some text => .ok text
  | none => .error .notText

def read (d : Directory) (name : String) : Except ReadError String :=
  match d.entry? name with
  | some (.file bytes) => decode bytes
  | some .directory => .error .isDirectory
  | none => .error .missing

end Directory

end Iloc
