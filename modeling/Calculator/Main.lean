import Calculator.Console.Program
/-!
# Main — the program at a real terminal
-/
namespace Calculator
namespace Console

/-- The bytes up to and including the next line feed, or up to the end. -/
partial def readLineBytes (stream : IO.FS.Stream) (line : ByteArray) : IO ByteArray := do
  let next ← stream.read 1
  if next.isEmpty then pure line
  else if next.toList = [10] then pure (line ++ next)
  else readLineBytes stream (line ++ next)

def attached : Terminal IO where
  write text := do
    let out ← IO.getStdout
    out.putStr text
    out.flush
  complain text := do (← IO.getStderr).putStr text
  readLine := do
    let line ← readLineBytes (← IO.getStdin) .empty
    pure (if line.isEmpty then .closed else .line (.ofBytes line))
  readFile path := do
    try
      pure (String.fromUTF8? (← IO.FS.readBinFile path))
    catch _ => pure none

/-- Turns for as long as one follows the other. -/
partial def attachedTurns (limit : Nat) (interactive : Bool) (p : Progress) : IO Progress := do
  let (p, more) ← attached.turn limit interactive p
  if more then attachedTurns limit interactive p else pure p

end Console
end Calculator

def main (arguments : List String) : IO UInt32 := do
  let code ← Calculator.Console.attached.run Calculator.Console.attachedTurns arguments
  pure (UInt32.ofNat code)
