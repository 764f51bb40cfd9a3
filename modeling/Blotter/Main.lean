import Blotter.CommandLine
import Std.Time.DateTime.Timestamp

/-!
# The program

Reads the files, works the output out, and prints it. Log lines get the time at which they are
printed.
-/

set_option autoImplicit false

namespace Blotter

def textOf (bytes : ByteArray) : String :=
  let plain := bytes.toList.map fun b => if b < 128 then Char.ofNat b.toNat else '\uFFFD'
  (String.fromUTF8? bytes).getD (String.ofList plain)

/-- What a path leads to. What opens and cannot be read is a folder. -/
def placeOf (path : String) : IO Place := do
  match ← (IO.FS.Handle.mk (Text.upToNul path) .read).toBaseIO with
  | .error _ => return if Files.isTooLong path then .nameTooLong else .missing
  | .ok file =>
    match ← file.readBinToEnd.toBaseIO with
    | .ok bytes => return .file (textOf bytes)
    | .error _ => return .folder

def logStamp : IO String := do
  let now ← Std.Time.Timestamp.now
  let ms : Int := now.toMillisecondsSinceUnixEpoch.val
  let thousandths := String.ofList (Text.zeroPadded 3 (ms % 1000))
  return "[" ++ Instant.stamp (ms / 1000) ++ "." ++ thousandths ++ "] "

def printLine (elapsed : String) (line : CommandLine.Line) : IO Unit :=
  match line with
  | .event _ => do IO.println ((← logStamp) ++ line.text elapsed)
  | .page text => IO.println text

end Blotter

open Blotter in
def main (args : List String) : IO UInt32 := do
  let started ← IO.monoMsNow
  let path := CommandLine.settingsPath args
  let (settings, said) := CommandLine.settingsOf path (← placeOf path)
  let output := CommandLine.report settings said (← placeOf (CommandLine.tradesPath settings))
  let elapsed := toString ((← IO.monoMsNow) - started)
  output.stdout.forM (printLine elapsed)
  output.stderr.forM IO.eprintln
  return UInt32.ofNat output.exitCode
