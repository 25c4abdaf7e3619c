import Csci6780.FtpMessages
import Csci6780.ParticipantShell

/-!
# The FTP Client's Input Parser

This module embeds `client::input_parser::InputParser`, which reads a line of the FTP shell and
builds the request. Words are read off the line with `>>`, which at its end leaves the variable as
it is.

The constructor does not set `req_` for a line that is no command, and `CreateReq` is called all the
same: what the member holds is an input, `none` standing for a number that is no `ReqType`. `stoi`
throws when its text is no number or the number is no `int`; then there is no request.

## Main results

* `InputParser.createReq_of_valid`: the requests that a command can be.
-/

namespace Csci6780

open PubSub (isSpace)

/-- `iss >> word`: the word, or the old one at the end of the line, and the rest of the line. -/
def extractWord (line : List Char) (old : String) : String × List Char :=
  match line.dropWhile isSpace with
  | [] => (old, [])
  | line =>
      (String.ofList (line.takeWhile fun c => !isSpace c), line.dropWhile fun c => !isSpace c)

/-- The number that the digits at the front of a text write. -/
def leadingNumber (text : List Char) : Option ℕ :=
  match text.takeWhile Char.isDigit with
  | [] => none
  | digits => some (digits.foldl (fun n c => 10 * n + (c.toNat - '0'.toNat)) 0)

/-- `std::stoi`, `none` if it throws. -/
def stoi (text : String) : Option Int32 :=
  let value : Option ℤ :=
    match text.toList.dropWhile isSpace with
    | '-' :: digits => (leadingNumber digits).map fun n => -(n : ℤ)
    | '+' :: digits => (leadingNumber digits).map fun n => (n : ℤ)
    | digits => (leadingNumber digits).map fun n => (n : ℤ)
  value.bind fun n => if -2 ^ 31 ≤ n ∧ n < 2 ^ 31 then some (Int32.ofInt n) else none

/-- `InputParser::ReqType`. -/
inductive ReqType
  | getf
  | putf
  | del
  | ls
  | cd
  | mkdir
  | pwd
  | quit
  | terminate
  deriving DecidableEq, Repr

/-- `client::input_parser::InputParser`. -/
structure InputParser where
  isValid : Bool := true
  isForking : Bool := false
  req : Option ReqType
  fn : String := ""
  dn : String := ""
  cid : String := ""
  contents : List UInt8 := []
  deriving DecidableEq, Repr

namespace InputParser

/-- `InputParser::commands_`. -/
def commands : List (String × ReqType) :=
  [("get", .getf), ("put", .putf), ("delete", .del), ("ls", .ls), ("cd", .cd), ("mkdir", .mkdir),
    ("pwd", .pwd), ("quit", .quit), ("terminate", .terminate)]

/-- What the constructor reads behind the command, and the rest of the line. `localFile` is what
`FileHandler::Get` returns on the client's side. -/
def readArgument (localFile : String → List UInt8) (req : ReqType) (line : List Char) :
    InputParser × List Char :=
  let ip : InputParser := { req := some req }
  match req with
  | .putf =>
      let (fn, line) := extractWord line ip.fn
      ({ ip with fn, contents := localFile fn }, line)
  | .getf | .del =>
      let (fn, line) := extractWord line ip.fn
      ({ ip with fn }, line)
  | .cd | .mkdir =>
      let (dn, line) := extractWord line ip.dn
      ({ ip with dn }, line)
  | .terminate =>
      let (cid, line) := extractWord line ip.cid
      ({ ip with cid }, line)
  | .ls | .pwd | .quit => (ip, line)

/-- The constructor. -/
def create (localFile : String → List UInt8) (uninitialized : Option ReqType) (cmd : String) :
    InputParser :=
  let (word, line) := extractWord cmd.toList ""
  match commands.lookup word with
  | none => { isValid := false, req := uninitialized }
  | some req =>
      let (ip, line) := readArgument localFile req line
      let (word, _) := extractWord line word
      if word = "&" then { ip with isForking := true } else ip

/-- `InputParser::CreateReq`, `none` if it throws. -/
def createReq (ip : InputParser) : Option Request :=
  match ip.req with
  | some .getf => some (.get ip.fn)
  | some .putf => some (.put ip.fn)
  | some .del => some (.delete ip.fn)
  | some .ls => some .list
  | some .cd => some (.changeDir (ip.dn = "..") ip.dn)
  | some .mkdir => some (.makeDir ip.dn)
  | some .pwd => some .pwd
  | some .quit => some .quit
  | some .terminate => (stoi ip.cid).map fun n => .terminate n.toUInt32
  | none => some .notSet

variable {localFile : String → List UInt8} {uninitialized : Option ReqType} {cmd : String}

/-- Whether a line is a command does not depend on what the member held before. -/
theorem isValid_create (held held' : Option ReqType) :
    (create localFile held cmd).isValid = (create localFile held' cmd).isValid := by
  rw [create, create]
  dsimp only
  cases commands.lookup (extractWord cmd.toList "").1 <;> rfl

/-- Nor does the command. -/
theorem create_of_valid (h : (create localFile uninitialized cmd).isValid = true)
    (held : Option ReqType) :
    create localFile held cmd = create localFile uninitialized cmd := by
  rw [create] at h ⊢
  rw [create]
  dsimp only at h ⊢
  cases hlookup : commands.lookup (extractWord cmd.toList "").1 with
  | none =>
      rw [hlookup] at h
      cases h
  | some req => rfl

/-- A line that is no command sets nothing. -/
theorem createReq_of_not_valid (h : ¬(create localFile none cmd).isValid = true) :
    (create localFile none cmd).createReq = some .notSet := by
  rw [create] at h ⊢
  dsimp only at h ⊢
  cases hlookup : commands.lookup (extractWord cmd.toList "").1 with
  | none => rfl
  | some req =>
      rw [hlookup] at h
      refine absurd ?_ h
      dsimp only
      split
      · cases req <;> rfl
      · cases req <;> rfl

/-- A command sets the member. -/
theorem req_of_valid (h : (create localFile uninitialized cmd).isValid = true) :
    ∃ req, (create localFile uninitialized cmd).req = some req := by
  rw [create] at h ⊢
  dsimp only at h ⊢
  cases hlookup : commands.lookup (extractWord cmd.toList "").1 with
  | none =>
      rw [hlookup] at h
      cases h
  | some req =>
      refine ⟨req, ?_⟩
      dsimp only
      split
      · cases req <;> rfl
      · cases req <;> rfl

/-- **A command is a request** that sets a member of the union other than the file contents. -/
theorem createReq_of_valid (h : (create localFile uninitialized cmd).isValid = true)
    {request : Request} (hreq : (create localFile uninitialized cmd).createReq = some request) :
    request ≠ .notSet ∧ ∀ m, request ≠ .fileContents m := by
  obtain ⟨req, hset⟩ := req_of_valid h
  rw [createReq, hset] at hreq
  cases req with
  | terminate =>
      obtain ⟨n, -, rfl⟩ := Option.map_eq_some_iff.mp hreq
      simp
  | _ =>
      cases hreq
      simp

end InputParser

end Csci6780
