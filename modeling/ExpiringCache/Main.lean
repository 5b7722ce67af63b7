import ExpiringCache.Demo
import Std.Time.DateTime.Timestamp

/-!
The command line: serves the cache that the environment describes, one command a line, from standard
input to standard output.
-/
namespace ExpiringCache.Demo
set_option autoImplicit false

def faultOf (e : IO.Error) : Files.Fault :=
  match e with
  | .noFileOrDirectory .. => .missing
  | .alreadyExists .. => .exists
  | .inappropriateType _ 20 _ => .notDirectory
  | .inappropriateType _ 21 _ => .isDirectory
  | .invalidArgument _ 36 _ => .nameTooLong
  | .permissionDenied _ code details => .other s!"{details} (os error {code})"
  | e => .other (toString e)

def bytesOf (content : ByteArray) : Bytes := content.toList

def arrayOf (content : Bytes) : ByteArray := ⟨content.toArray⟩

def takeStep (step : FileStep) : IO Unit :=
  match step with
  | .makeDirs path => IO.FS.createDirAll path.text
  | .touch path => do
    let _ ← IO.FS.Handle.mk path.text .append
  | .write path content => IO.FS.writeBinFile path.text (arrayOf content)
  | .rename source target => IO.FS.rename source.text target.text

def onMachine : Effects IO where
  wall := do
    let now ← Std.Time.Timestamp.now
    return Int64.ofInt now.toMillisecondsSinceUnixEpoch.val
  time := IO.monoMsNow
  print bytes := do
    let output ← IO.getStdout
    output.write (arrayOf bytes)
    output.flush
  attempt step := do
    try
      takeStep step
      return .ok ()
    catch e => return .error (.file step.subject.text (faultOf e))
  readFile path := do
    try return .ok (bytesOf (← IO.FS.readBinFile path.text))
    catch e => return .error (.file path.text (faultOf e))

/-- Reads a line without its end; none at the end of the input. -/
partial def readLine (input : IO.FS.Stream) (line : Bytes) : IO (Option Bytes) := do
  let next ← input.read 1
  match next.toList with
  | [] => return if line.isEmpty then none else some line.reverse
  | b :: _ =>
    if b = Text.ascii '\n' then return some (trimReturn line.reverse)
    else readLine input (b :: line)

/-- Serves lines to the end of the input or of the run. -/
partial def serveInput (input : IO.FS.Stream) (s : State) : IO (Except Failure State) := do
  match ← readLine input [] with
  | none => return .ok s
  | some line =>
    match ← serve onMachine s line with
    | .error f => return .error f
    | .ok (goesOn, s) => if goesOn then serveInput input s else return .ok s

end ExpiringCache.Demo

section
open ExpiringCache.Demo

def main : IO UInt32 := do
  let vars ← ExpiringCache.Config.names.mapM fun name => do
    return (name, ← IO.getEnv name)
  let lookup (name : String) : Option String := (vars.lookup name).join
  let complain (f : Failure) : IO UInt32 := do
    (← IO.getStderr).putStr f.text
    return 1
  match ← start onMachine lookup with
  | .error f => complain f
  | .ok s =>
    match ← serveInput (← IO.getStdin) s with
    | .error f => complain f
    | .ok s => do
      let _ ← finish onMachine s
      return 0

end
