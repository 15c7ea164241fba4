import RegistryTree.Text.Quoted

/-!
# Errors of the file system

An operation on files fails with a number and words for it, and names the paths that it was about.
One refusal has no number: a link cannot be removed as if it were the directory that it leads to.

> `SystemError.message`: the words an error is reported with.
-/

namespace RegistryTree

/-- The number of an error and the words for it. -/
structure ErrorCode where
  number : Int
  words : String
  deriving DecidableEq, Repr

namespace ErrorCode

def missing : ErrorCode := ⟨2, "No such file or directory"⟩
def busy : ErrorCode := ⟨16, "Device or resource busy"⟩
def exists_ : ErrorCode := ⟨17, "File exists"⟩
def notDirectory : ErrorCode := ⟨20, "Not a directory"⟩
def isDirectory : ErrorCode := ⟨21, "Is a directory"⟩
def nameTooLong : ErrorCode := ⟨36, "File name too long"⟩
def linkLoop : ErrorCode := ⟨40, "Too many levels of symbolic links"⟩

end ErrorCode

/-- Why an operation on files failed. -/
inductive SystemError where
  /-- An error with a number, about no path, about one, or about one and where it was to go. -/
  | numbered (code : ErrorCode) (paths : List String)
  /-- A link stands where a directory was to be removed. -/
  | linkInPlace
  deriving DecidableEq, Repr

/-- The classes of errors that are told apart. -/
inductive ErrorClass where
  | missing
  | exists_
  | notDirectory
  | isDirectory
  | permission
  | other
  deriving DecidableEq, Repr

namespace SystemError

/-- The class of an error with a number. -/
def classOf (number : Int) : ErrorClass :=
  if number = 2 then .missing
  else if number = 17 then .exists_
  else if number = 20 then .notDirectory
  else if number = 21 then .isDirectory
  else if number = 1 ∨ number = 13 then .permission
  else .other

/-- The class of an error. -/
def errorClass : SystemError → ErrorClass
  | numbered code _ => classOf code.number
  | linkInPlace => .other

/-- The words an error is reported with. -/
def message : SystemError → String
  | numbered code paths =>
    let about := if paths = [] then "" else ": " ++ " -> ".intercalate (paths.map Text.quote)
    "[Errno " ++ toString code.number ++ "] " ++ code.words ++ about
  | linkInPlace => "Cannot call rmtree on a symbolic link"

end SystemError

end RegistryTree
