import Csci6780.Lib.FileSystem

/-!
# The File Handler

This module embeds `server::file_handler::FileHandler`, the file operations of one client's
connection on the file system of the server. The current directory is a path, at first that of the
process. It grows and shrinks with `ChangeDir` and `UpDir`, whether it leads to a directory or not.

An operation that throws is `none`. `Put` reports success also where the file could not be opened,
and `Get` returns nothing where there is no file to read. What `std::ifstream` does with a directory
is left out: it is read as an empty file.

`ThreadSafeFileHandler` only adds locks around these operations, which a single connection
does not see.

## Main results

* `FileHandler.stored_put`: what `Put` does to the named file.
-/

namespace Csci6780

/-- `FileHandler`: the current directory, and the file system it works on. -/
structure FileHandler where
  currentDir : List Char := ['/']
  fs : FileSystem := .empty

namespace FileHandler

/-- `FileHandler::Delete`. -/
def delete (handler : FileHandler) (filename : String) : Option (Bool × FileHandler) :=
  (handler.fs.remove (joinPath handler.currentDir filename.toList)).map
    fun (removed, fs) => (removed, { handler with fs := fs })

/-- `FileHandler::Put`. -/
def put (handler : FileHandler) (filename : String) (contents : List UInt8) :
    Bool × FileHandler :=
  (true, { handler with
    fs := handler.fs.write (joinPath handler.currentDir filename.toList) contents })

/-- `FileHandler::MakeDir`. -/
def makeDir (handler : FileHandler) (name : String) : Option (Bool × FileHandler) :=
  (handler.fs.createDirectory (joinPath handler.currentDir name.toList)).map
    fun (created, fs) => (created, { handler with fs := fs })

/-- `FileHandler::ChangeDir`. -/
def changeDir (handler : FileHandler) (subFolder : String) : Bool × FileHandler :=
  (true, { handler with currentDir := joinPath handler.currentDir subFolder.toList })

/-- `FileHandler::Get`: a file that cannot be read has no contents. -/
def get (handler : FileHandler) (filename : String) : List UInt8 :=
  (handler.fs.files (joinPath handler.currentDir filename.toList)).getD []

/-- `FileHandler::UpDir`. -/
def upDir (handler : FileHandler) : Bool × FileHandler :=
  (true, { handler with currentDir := parentPath handler.currentDir })

/-- `FileHandler::List`: the paths of the entries, less the length of the current directory
and one more character. -/
def list (handler : FileHandler) : Option (List (List Char)) :=
  (handler.fs.directories handler.currentDir).map fun names =>
    names.map fun name =>
      (joinPath handler.currentDir name).drop (handler.currentDir.length + 1)

/-- `FileHandler::GetCurrentDir`. -/
def getCurrentDir (handler : FileHandler) : List Char := handler.currentDir

/-- What the named file holds, if it exists. -/
def stored (handler : FileHandler) (filename : String) : Option (List UInt8) :=
  handler.fs.files (joinPath handler.currentDir filename.toList)

/-- The named file can be opened for writing. -/
def canWrite (handler : FileHandler) (filename : String) : Bool :=
  handler.fs.writable (joinPath handler.currentDir filename.toList)

/-- What the named file holds after `Put`. -/
theorem stored_put (handler : FileHandler) (filename : String) (contents : List UInt8) :
    (handler.put filename contents).2.stored filename =
      if handler.canWrite filename = true then some contents else handler.stored filename :=
  handler.fs.files_write_self (joinPath handler.currentDir filename.toList) contents

end FileHandler

end Csci6780
