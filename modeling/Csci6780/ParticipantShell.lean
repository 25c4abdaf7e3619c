import Csci6780.CoordinatorInvariants

/-!
# The Participant's Shell

This module embeds the shell of a participant: `participant::input_parser::InputParser`, which
reads a command line and builds the request, and the loop of `participant::Participant::Start`,
which sends the request and then looks at its own state. A `Group` is any number of shells and
their coordinator; each command is handled to completion before the next one.

The fields `port_` and `participant_id_` have no initial value in the source; what they hold at
the start is an input.

## Main results

* `Group.step_rejected`: a command that is rejected has been sent, and served.
-/

namespace Csci6780.PubSub

/-! ### Reading a command line -/

/-- `std::isspace` in the C locale. -/
def isSpace (c : Char) : Bool :=
  c = ' ' || c = '\t' || c = '\n' || c = '\x0b' || c = '\x0c' || c = '\r'

/-- `iss >> word`: the word and the rest of the line. -/
def readWord (line : List Char) : String × List Char :=
  let line := line.dropWhile isSpace
  (String.ofList (line.takeWhile fun c => !isSpace c), line.dropWhile fun c => !isSpace c)

/-- The number that a row of digits starts with, cut to the range of `int`. -/
def readDigits (digits : List Char) (negative : Bool) : Int32 :=
  let n : ℕ := (digits.takeWhile Char.isDigit).foldl (fun n c => 10 * n + (c.toNat - '0'.toNat)) 0
  if negative then Int32.ofInt (-(min n (2 ^ 31))) else Int32.ofInt (min n (2 ^ 31 - 1))

/-- `iss >> port`: at the end of the line the variable keeps its value. -/
def readInt (line : List Char) (old : Int32) : Int32 :=
  match line.dropWhile isSpace with
  | [] => old
  | '-' :: digits => readDigits digits true
  | '+' :: digits => readDigits digits false
  | digits => readDigits digits false

/-- `InputParser::MsgType`. -/
inductive MsgType
  | reg
  | dereg
  | discon
  | recon
  | msend
  | quit
  deriving DecidableEq, Repr

/-- `InputParser`. -/
structure InputParser where
  req : MsgType := .reg
  port : Int32
  participantId : Int32
  isValid : Bool := false
  message : String := ""

namespace InputParser

/-- `InputParser::commands_`. -/
def commands : List (String × MsgType) :=
  [("register", .reg), ("deregister", .dereg), ("disconnect", .discon), ("reconnect", .recon),
    ("msend", .msend), ("quit", .quit)]

/-- `InputParser::Parse`. At the end of the line `std::getline` leaves the old message. -/
def parse (ip : InputParser) (cmd : String) : InputParser :=
  let (word, rest) := readWord cmd.toList
  match commands.lookup word with
  | none => { ip with isValid := false }
  | some req =>
      let ip := { ip with isValid := true, req }
      match req with
      | .msend =>
          match rest with
          | [] => ip
          | rest => { ip with message := String.ofList (rest.takeWhile (· ≠ '\n')) }
      | .reg | .recon => { ip with port := readInt rest ip.port }
      | .discon | .dereg | .quit => ip

/-- `InputParser::CreateReq`; `none` is the null pointer. -/
def createReq (ip : InputParser) : Option CoordinatorMessage :=
  match ip.req with
  | .reg => some (.register ip.port.toUInt32)
  | .dereg => some (.deregister ip.participantId.toUInt32)
  | .discon => some (.disconnect ip.participantId.toUInt32)
  | .recon => some (.reconnect ip.port.toUInt32 ip.participantId.toUInt32)
  | .msend => some (.sendMulticast ip.message ip.participantId.toUInt32)
  | .quit => none

/-- A line does not change the id. -/
theorem participantId_parse (ip : InputParser) (cmd : String) :
    (ip.parse cmd).participantId = ip.participantId := by
  rw [parse]
  dsimp only
  split
  · rfl
  · split
    · split <;> rfl
    all_goals rfl

end InputParser

/-! ### The loop of the shell -/

/-- `participant::Participant`, with what it has written to its console. -/
structure ParticipantShell where
  inputParser : InputParser
  running : Bool := true
  connected : Bool := false
  console : List String := []

namespace ParticipantShell

/-- A shell that has just started. -/
def start (port participantId : Int32) : ParticipantShell :=
  { inputParser := { port, participantId } }

/-- `ConsoleTask::SendConsole`. -/
def sendConsole (s : ParticipantShell) (text : String) : ParticipantShell :=
  { s with console := s.console ++ [text] }

/-- What `Start` does with the answer to a registration. Without one the response keeps its
default. -/
def receiveRegistration (s : ParticipantShell) (response : Option UInt32) : ParticipantShell :=
  { s with inputParser := { s.inputParser with participantId := (response.getD 0).toInt32 } }

/-- The case `RECON` of `Start`. -/
def startReceiver (s : ParticipantShell) : ParticipantShell :=
  if s.connected then s.sendConsole "Already connected!"
  else
    let s := { s with connected := true }
    let statement := if s.inputParser.req = .reg then "Registered" else "Connected"
    s.sendConsole (statement ++ ", listening on " ++ toString s.inputParser.port.toInt)

/-- The cases `DEREG` and `DISCON` of `Start`. -/
def stopReceiver (s : ParticipantShell) : ParticipantShell :=
  if !s.connected then s.sendConsole "Nothing to disconnect from!"
  else
    let s := { s with connected := false }
    s.sendConsole (if s.inputParser.req = .dereg then "Deregistered!" else "Disconnected!")

/-- The `switch` of `Start`, after the request has been sent. The case `REG` runs on into the
case `RECON`. -/
def afterRequest (s : ParticipantShell) (response : Option UInt32) : ParticipantShell :=
  match s.inputParser.req with
  | .reg => (s.receiveRegistration response).startReceiver
  | .recon => s.startReceiver
  | .dereg | .discon => s.stopReceiver
  | .msend | .quit => s

/-- The shell after it has parsed the line. -/
def parse (s : ParticipantShell) (line : String) : ParticipantShell :=
  { s with inputParser := s.inputParser.parse line }

end ParticipantShell

/-- The shells of some participants, and their coordinator. -/
structure Group (ι : Type) where
  coordinator : Coordinator
  shells : ι → ParticipantShell

/-- A command line typed into a shell and what its request meets: whether the request reaches
the coordinator, in which surroundings it is served (the request of `exchange` itself does not
matter), and whether the answer comes back. -/
structure Command (ι : Type) where
  shell : ι
  line : String
  sent : Bool
  exchange : Exchange
  answered : Bool

/-- The id of a registration. -/
def Event.registeredId : Event → Option UInt32
  | .registered id => some id
  | _ => none

namespace Group

variable {ι : Type} [DecidableEq ι]

/-- The shells that have just started, and the coordinator before the first request. `garbage`
is what the uninitialised fields of a shell hold. -/
def start (td : ℤ) (ds : Descriptors) (garbage : ι → Int32 × Int32) : Group ι :=
  { coordinator := .start td ds
    shells := fun i => .start (garbage i).1 (garbage i).2 }

/-- The answer to a registration that the coordinator has just served. -/
def response (before after : Coordinator) : Option UInt32 :=
  (after.trace.drop before.trace.length).findSome? Event.registeredId

/-- One round of the loop of `Participant::Start`. -/
def step (g : Group ι) (a : Command ι) : Option (Group ι) :=
  let s := g.shells a.shell
  if s.running then
    let s := s.parse a.line
    if s.inputParser.isValid then
      match s.inputParser.createReq with
      | none =>
          let s := { s.sendConsole "Bye!" with running := false }
          some { g with shells := Function.update g.shells a.shell s }
      | some request =>
          if a.sent then do
            let coordinator ← g.coordinator.serve { a.exchange with request }
            let response := if a.answered then response g.coordinator coordinator else none
            return { coordinator
                     shells := Function.update g.shells a.shell (s.afterRequest response) }
          else
            let s := s.sendConsole "Couldn't instantiate a connection with coordinator."
            some { g with shells := Function.update g.shells a.shell { s with running := false } }
    else
      let s := s.sendConsole "Invalid command!"
      some { g with shells := Function.update g.shells a.shell s }
  else none

/-- The shell as it is when the request is served. -/
def reader (g : Group ι) (a : Command ι) : ParticipantShell := (g.shells a.shell).parse a.line

end Group

/-! ### Rejections -/

/-- The answers by which a shell rejects a command. -/
def rejections : List String := ["Already connected!", "Nothing to disconnect from!"]

/-- The shell has rejected a command in going from `s` to `s'`. -/
def ParticipantShell.Rejected (s s' : ParticipantShell) : Prop :=
  ∃ text ∈ rejections, s'.console = s.console ++ [text]

/-- The shell rejects the command. -/
def Group.Rejects {ι : Type} [DecidableEq ι] (g : Group ι) (a : Command ι) : Prop :=
  ∃ g', g.step a = some g' ∧ (g.shells a.shell).Rejected (g'.shells a.shell)

namespace ParticipantShell

variable {s s' : ParticipantShell}

/-- Only the rejections are rejections. -/
theorem rejected_sendConsole {text : String} (h : s'.console = s.console ++ [text]) :
    s.Rejected s' ↔ text ∈ rejections := by
  constructor
  · rintro ⟨other, hother, heq⟩
    obtain rfl := List.singleton_inj.mp (List.append_cancel_left (h.symm.trans heq))
    exact hother
  · exact fun hmem => ⟨text, hmem, h⟩

theorem not_rejected_of_console (h : s'.console = s.console) : ¬s.Rejected s' := by
  rintro ⟨text, -, heq⟩
  rw [h] at heq
  exact absurd (List.self_eq_append_right.mp heq) (List.cons_ne_nil text [])

theorem rejected_stopReceiver (s : ParticipantShell) :
    s.Rejected s.stopReceiver ↔ s.connected = false := by
  cases hc : s.connected with
  | false =>
      have hconsole : s.stopReceiver.console = s.console ++ ["Nothing to disconnect from!"] := by
        rw [stopReceiver, hc]
        rfl
      rw [rejected_sendConsole hconsole]
      exact iff_of_true (by decide) rfl
  | true =>
      have hconsole : s.stopReceiver.console = s.console ++
          [if s.inputParser.req = .dereg then "Deregistered!" else "Disconnected!"] := by
        rw [stopReceiver, hc]
        rfl
      rw [rejected_sendConsole hconsole]
      refine iff_of_false ?_ (by decide)
      split <;> decide

theorem stopReceiver_of_rejected (h : s.Rejected s.stopReceiver) :
    s.stopReceiver = s.sendConsole "Nothing to disconnect from!" := by
  rw [stopReceiver, (rejected_stopReceiver s).mp h]
  rfl

end ParticipantShell

namespace Group

variable {ι : Type} [DecidableEq ι] {g g' : Group ι} {a : Command ι}

/-- **What a command does**: either only the shell answers, with none of the rejections, or the
request is served and the shell goes on. -/
theorem step_cases (h : g.step a = some g') :
    (g'.coordinator = g.coordinator ∧ ∃ text, text ∉ rejections ∧
      (g'.shells a.shell).console = (g.shells a.shell).console ++ [text]) ∨
    ∃ request response, (g.reader a).inputParser.createReq = some request ∧
      g.coordinator.serve { a.exchange with request } = some g'.coordinator ∧
        g'.shells a.shell = (g.reader a).afterRequest response := by
  rw [step] at h
  dsimp only at h
  split at h
  · split at h
    · split at h
      · obtain rfl := Option.some.inj h
        refine .inl ⟨rfl, "Bye!", by decide, ?_⟩
        simp only [Function.update_self]
        rfl
      · next request hrequest =>
          split at h
          · obtain ⟨c, hserve, h⟩ := Option.bind_eq_some_iff.mp h
            obtain rfl := Option.some.inj h
            exact .inr ⟨request, _, hrequest, hserve, Function.update_self _ _ _⟩
          · obtain rfl := Option.some.inj h
            refine .inl ⟨rfl, "Couldn't instantiate a connection with coordinator.", by decide, ?_⟩
            simp only [Function.update_self]
            rfl
    · obtain rfl := Option.some.inj h
      refine .inl ⟨rfl, "Invalid command!", by decide, ?_⟩
      simp only [Function.update_self]
      rfl
  · cases h

/-- **A command that is rejected** has been sent to the coordinator, and served. -/
theorem step_rejected (h : g.step a = some g')
    (hrejected : (g.shells a.shell).Rejected (g'.shells a.shell)) :
    ∃ request response, (g.reader a).inputParser.createReq = some request ∧
      g.coordinator.serve { a.exchange with request } = some g'.coordinator ∧
        g'.shells a.shell = (g.reader a).afterRequest response := by
  rcases step_cases h with ⟨-, text, hnot, hconsole⟩ | hserved
  · exact absurd ((ParticipantShell.rejected_sendConsole hconsole).mp hrejected) hnot
  · exact hserved

/-- Whatever is typed, the coordinator keeps its invariant. -/
theorem sound_step (hsound : g.coordinator.Sound) (h : g.step a = some g') :
    g'.coordinator.Sound := by
  rcases step_cases h with ⟨hcoordinator, -⟩ | ⟨request, response, -, hserve, -⟩
  · rw [hcoordinator]
    exact hsound
  · exact hsound.serve hserve

end Group

end Csci6780.PubSub
