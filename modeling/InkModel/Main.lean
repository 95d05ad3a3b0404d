import InkModel.Command.Perform

/-! # The program

Follows actions in the file system.
-/

namespace InkModel.Command

open Cgats

/-- What an error of the system means for a file. -/
def fileErrorOf : IO.Error → FileError
  | .noFileOrDirectory _ _ _ => .missing
  | .permissionDenied _ code reason => .refused reason code.toNat
  | .inappropriateType _ code reason => .refused reason code.toNat
  | .alreadyExists _ code reason => .refused reason code.toNat
  | e => .refused e.toString 5

def attempt {β : Type} (act : IO β) : IO (Except FileError β) := do
  try return .ok (← act)
  catch e => return .error (fileErrorOf e)

def Action.follow : Action Unit → IO UInt32
  | .done _ => return successCode.toUInt32
  | .fail ms => do
    IO.eprint (failureText ms)
    return failureCode.toUInt32
  | .abort => return abortCode.toUInt32
  | .read path next => do
    let r ← attempt (IO.FS.readBinFile path)
    (next r).follow
  | .write path text next => do
    let r ← attempt (IO.FS.writeFile path text)
    (next r).follow
  | .print line next => do
    IO.println line
    (next ()).follow

end InkModel.Command

open InkModel.Command in
def main (words : List String) : IO UInt32 := do
  match Request.ofWords words with
  | .ok r => r.perform.follow
  | .error s =>
    let o := s.outcome ⟨[]⟩
    IO.print o.printed
    IO.eprint o.complaint
    return o.code.toUInt32
