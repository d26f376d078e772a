import DiceNotation.Console

/-!
# The program

Reads lines from standard input and answers them as the console does. Faces come from a generator
that is seeded by the operating system.
-/

namespace DiceNotation

/-- A source that draws from the standard generator. -/
def generatorSource : Source StdGen where
  draw sides generator :=
    if sides < 1 then (.error (.source .noSides), generator)
    else
      let (face, next) := randNat generator 1 sides.toInt.toNat
      (.ok (Int64.ofNat face), next)

def writeReply (reply : Console.Reply) : IO Unit := do
  let out ← IO.getStdout
  out.putStr reply.out
  out.flush
  let err ← IO.getStderr
  err.putStr reply.err
  err.flush

/-- Answers lines until one leaves or the input ends. -/
partial def answerLines (table : Table) (session : Session StdGen) : IO Unit := do
  let line ← (← IO.getStdin).getLine
  if line.isEmpty then return
  match Console.Command.ofLine line with
  | .leave => return
  | command =>
    let (reply, next) := Console.answer table generatorSource session command
    writeReply reply
    writeReply Console.prompt
    answerLines table next

def runConsole : IO Unit := do
  let seed ← IO.getRandomBytes 8
  let number := seed.foldl (fun n byte => 256 * n + byte.toNat) 0
  writeReply Console.prompt
  answerLines {} (.start (mkStdGen number))

end DiceNotation

def main : IO Unit :=
  DiceNotation.runConsole
