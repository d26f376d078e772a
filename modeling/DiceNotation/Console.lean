import DiceNotation.Session

/-!
# The console

The console answers lines of text. It writes a prompt before the first line and after every line
that it has answered; a line that ends the session gets no answer and no prompt, and nothing after
it is read.
-/

namespace DiceNotation.Console

/-- What goes to standard output and to standard error. -/
structure Reply where
  out : String
  err : String
deriving DecidableEq

namespace Reply

def none : Reply :=
  ⟨"", ""⟩

def say (text : String) : Reply :=
  ⟨text ++ "\n", ""⟩

def complain (message : String) : Reply :=
  ⟨"", "Error: " ++ message ++ "\n"⟩

/-- Each of the two outputs in order. -/
def join (replies : List Reply) : Reply :=
  ⟨String.join (replies.map out), String.join (replies.map err)⟩

end Reply

def prompt : Reply :=
  ⟨"> ", ""⟩

inductive Command where
  | leave
  | nothing
  | showSystem
  | listSystems
  | chooseSystem (name : String)
  | roll (text : String)
deriving DecidableEq

/-- Blanks at the ends do not matter, nor does the ASCII case of a command's words. What is no
command is rolled as it is written. -/
def Command.ofLine (line : String) : Command :=
  let text := trim line.toList
  let folded := text.map Char.toLower
  let command := String.ofList folded
  if command = "exit" ∨ command = "quit" then .leave
  else if command = "" then .nothing
  else if command = "system" ∨ "system ".toList.isPrefixOf folded then
    let name := String.ofList (trim (folded.drop "system".length))
    if name = "" then .showSystem
    else if name = "list" then .listSystems
    else .chooseSystem name
  else .roll (String.ofList text)

/-- A system's line in the list; the names fill ten columns. -/
def describe (system : GameSystem) : String :=
  let padding := String.ofList (List.replicate (10 - system.name.length) ' ')
  "  " ++ system.name ++ padding ++ " " ++ system.description ++ "\n"

variable {σ : Type}

def answer (table : Table) (source : Source σ) (session : Session σ) :
    Command → Reply × Session σ
  | .leave | .nothing => (.none, session)
  | .showSystem =>
    (.say ("Current system: " ++ session.system.name ++ " (type 'system list' to see all)"), session)
  | .listSystems => (⟨String.join (GameSystem.all.map describe), ""⟩, session)
  | .chooseSystem name =>
    match session.choose name with
    | (.ok system, next) => (.say ("System set to '" ++ system.name ++ "'."), next)
    | (.error unknown, next) => (.complain unknown.message, next)
  | .roll text =>
    match session.roll table source text with
    | (.ok roll, next) => (.say roll.render, next)
    | (.error error, next) => (.complain error.message, next)

/-- The answers to the lines that follow a prompt, each with the next prompt behind it. -/
def answers (table : Table) (source : Source σ) (session : Session σ) :
    List String → List Reply
  | [] => []
  | line :: lines =>
    match Command.ofLine line with
    | .leave => []
    | command =>
      let (reply, next) := answer table source session command
      reply :: prompt :: answers table source next lines

/-- The lines of a text. A line feed at the very end starts no further line. -/
def linesOf : List Char → List (List Char)
  | [] => []
  | c :: rest =>
    if c = '\n' then [] :: linesOf rest
    else
      match linesOf rest with
      | [] => [[c]]
      | line :: lines => (c :: line) :: lines

/-- Everything that is written for a whole input. -/
def transcript (table : Table) (source : Source σ) (state : σ) (input : String) : Reply :=
  .join (prompt ::
    answers table source (.start state) ((linesOf input.toList).map String.ofList))

end DiceNotation.Console
