import ScriptDoc.File.Tree
import ScriptDoc.Reader
import ScriptDoc.Text.Digit

/-!
Scripts on file: how large they may be, and their reading from a tree.
-/
namespace ScriptDoc

def defaultSizeLimit : Int := 10 * 1024 * 1024

inductive LimitError where
  | notNumber (given : Text)
  | notPositive (limit : Int)
  deriving DecidableEq, Repr

def sizeLimitVariable : Text := "SHEDOC_MAX_FILE_SIZE"

def LimitError.message : LimitError → Text
  | .notNumber given => sizeLimitVariable ++ " must be a number of bytes, got " ++ given.quoted
  | .notPositive limit =>
    sizeLimitVariable ++ " must be a positive number of bytes, got " ++ Text.ofInt limit

def sizeLimit (given : Option Text) (fallback : Int) : Except LimitError Int :=
  match given with
  | none => .ok fallback
  | some s =>
    match Text.toInt? s with
    | none => .error (.notNumber s)
    | some limit => if limit ≤ 0 then .error (.notPositive limit) else .ok limit

inductive ScriptError where
  | nul
  | access (error : FileError)
  | unread (error : FileError)
  | notRegular (path : Text)
  | tooLarge (path : Text) (limit : Int)
  | encoding (path : Text) (fault : Utf8.Fault)
  deriving DecidableEq, Repr

def nulMessage : Text := "embedded null byte"

def ScriptError.message : ScriptError → Text
  | .nul => nulMessage
  | .access e => "Error accessing " ++ e.path ++ ": " ++ e.message
  | .unread e => e.message
  | .notRegular path => path ++ " is not a regular file."
  | .tooLarge path limit =>
    path ++ " exceeds the maximum allowed size of " ++ Text.ofInt limit ++ " bytes."
  | .encoding path fault => "Invalid UTF-8 sequence in " ++ path ++ ": " ++ fault.message

-- The faults for which opening a file says which file it could not access. All others are
-- reported as they are.
def FileFault.isExpected : FileFault → Bool
  | .missing => true
  | .denied => true
  | .isDirectory => true
  | .notDirectory => true
  | _ => false

namespace Tree

def checkSize (t : Tree) (directory path : Path) (limit : Int) : Except ScriptError Unit :=
  if path.toText.contains nul then .error .nul
  else
    match t.node directory path with
    | .error fault => .error (.access { fault, path := path.toText })
    | .ok (.file bytes _) =>
      if limit < bytes.length then .error (.tooLarge path.toText limit) else .ok ()
    | .ok _ => .error (.notRegular path.toText)

def openScript (t : Tree) (directory path : Path) : Except ScriptError Bytes :=
  if path.toText.contains nul then .error .nul
  else
    match t.bytes directory path with
    | .ok bytes => .ok bytes
    | .error fault =>
      if fault.isExpected then .error (.access { fault, path := path.toText })
      else .error (.unread { fault, path := path.toText })

def readScript (t : Tree) (directory : Path) (given : Text) : Except ScriptError Document :=
  match t.openScript directory (Path.ofText given) with
  | .error e => .error e
  | .ok bytes =>
    match Utf8.decode bytes with
    | .error fault => .error (.encoding given fault)
    | .ok s => .ok { Document.ofText s with path := some given }

end Tree
end ScriptDoc
