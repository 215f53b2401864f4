import PayloadGate.Failure

/-! # Names of directories

* **`directoryFault?`** — why a file system cannot make a directory of a name.
* **`directoryReply`** — its answer for an output directory. -/

namespace PayloadGate.Rehearsal

/-- The largest number of octets in a part of a path. -/
def longestPart : Nat := 255

/-- **Why a file system cannot make a directory of a name**, if it cannot: no name holds the character zero, and no part
of it is too long. -/
def directoryFault? (path : String) : Option String :=
  if path.toList.contains '\x00' then some "the name holds a zero"
  else if (path.splitOn "/").any fun part => longestPart < part.utf8ByteSize then
    some "a part of the name is too long"
  else none

/-- **The file system's answer for an output directory.** -/
def directoryReply (path : String) : Except Failure Unit :=
  match directoryFault? path with
  | some fault => .error (.fileSystem ("Failed to create output directory " ++ path ++ ": " ++ fault))
  | none => .ok ()

end PayloadGate.Rehearsal
