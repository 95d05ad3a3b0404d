import InkModel.Cgats.Table

/-! # Actions

An action says which files are read and written and what is printed, in order,
and how it ends. It does none of this itself: `Action.runIn` follows it in a
folder that is a value, and the program follows it in the file system.
-/

namespace InkModel.Command

open Cgats

/-- What is done with files and printed on the way to a result. -/
inductive Action (β : Type) where
  /-- The end, with a result. -/
  | done (result : β)
  /-- The end without one: a message, followed by the messages of its causes. -/
  | fail (messages : List String)
  /-- The end at an access outside a table. -/
  | abort
  | read (path : String) (next : Except FileError ByteArray → Action β)
  | write (path text : String) (next : Except FileError Unit → Action β)
  | print (line : String) (next : Unit → Action β)

namespace Action

def bind {β γ : Type} (a : Action β) (f : β → Action γ) : Action γ :=
  match a with
  | done r => f r
  | fail ms => fail ms
  | abort => abort
  | read path next => read path fun r => (next r).bind f
  | write path text next => write path text fun r => (next r).bind f
  | print line next => print line fun u => (next u).bind f

instance : Monad Action where
  pure := done
  bind := bind

def say (line : String) : Action Unit := print line done

/-- The result of a computation, or an end with the messages of its error. -/
def ofExcept {ε β : Type} (messages : ε → List String) : Except ε β → Action β
  | .ok r => done r
  | .error e => fail (messages e)

def bytesOf (path : String) : Action (Except FileError ByteArray) := read path done

/-- Writes a file and says whether it could be written. -/
def put (path text : String) : Action (Except FileError Unit) := write path text done

end Action

/-- The message of a failure: the outermost message, then the causes, numbered
when there is more than one. -/
def failureText : List String → String
  | [] => ""
  | [m] => "Error: " ++ m ++ "\n"
  | [m, cause] => "Error: " ++ m ++ "\n\nCaused by:\n    " ++ cause ++ "\n"
  | m :: causes =>
    "Error: " ++ m ++ "\n\nCaused by:\n" ++
      String.join (causes.mapIdx fun i c => "    " ++ i.repr ++ ": " ++ c ++ "\n")

/-- A folder without folders: its files by their names. -/
structure Folder where
  /-- Names with contents; of two with one name the first counts. -/
  files : List (String × ByteArray)

/-- Where a path leads from a folder. -/
inductive Target where
  | folder
  | name (name : String)
  | through (name : String)
  | elsewhere
  deriving Repr, DecidableEq

/-- Where the parts of a path lead. Empty parts and dots stay where they are. -/
def Target.ofParts : List String → Target
  | [] => .folder
  | part :: parts =>
    if part = "" || part = "." then ofParts parts
    else if part = ".." then .elsewhere
    else if parts.isEmpty then .name part
    else .through part

/-- Where a path leads. -/
def Target.ofPath (path : String) : Target :=
  if path.startsWith "/" then .elsewhere else .ofParts (path.splitOn "/")

namespace Folder

def find? (d : Folder) (name : String) : Option ByteArray := d.files.lookup name

/-- Why no file is reached through a name. -/
def throughError (d : Folder) (name : String) : FileError :=
  if (d.find? name).isSome then .notFolder else .missing

def read (d : Folder) (path : String) : Except FileError ByteArray :=
  match Target.ofPath path with
  | .folder => .error .isFolder
  | .name name => (d.find? name).elim (.error .missing) .ok
  | .through name => .error (d.throughError name)
  | .elsewhere => .error .missing

def write (d : Folder) (path text : String) : Except FileError Folder :=
  match Target.ofPath path with
  | .folder => .error .isFolder
  | .name name => .ok ⟨(name, text.toUTF8) :: d.files⟩
  | .through name => .error (d.throughError name)
  | .elsewhere => .error .missing

end Folder

structure Outcome where
  code : Nat
  printed : String
  complaint : String
  folder : Folder

def successCode : Nat := 0

def failureCode : Nat := 1

/-- The code of a command line that names nothing to do. -/
def misuseCode : Nat := 2

/-- The code of a program that ends at an access outside a table. What the system says of it is
not part of the outcome. -/
def abortCode : Nat := 101

/-- Follows an action in a folder, behind what was printed before. -/
def Action.runIn (a : Action Unit) (d : Folder) (printed : String) : Outcome :=
  match a with
  | .done _ => ⟨successCode, printed, "", d⟩
  | .fail ms => ⟨failureCode, printed, failureText ms, d⟩
  | .abort => ⟨abortCode, printed, "", d⟩
  | .read path next => (next (d.read path)).runIn d printed
  | .write path text next =>
    match d.write path text with
    | .ok d' => (next (.ok ())).runIn d' printed
    | .error e => (next (.error e)).runIn d printed
  | .print line next => (next ()).runIn d (printed ++ line ++ "\n")

end InkModel.Command
