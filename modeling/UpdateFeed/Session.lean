import UpdateFeed.FileTree.Lookup
import UpdateFeed.Log.Basic

/-!
# Sessions

A session is what a run of the program works on: a file system, an output that may accept only so
many bytes, and the events that are reported.  A `Run` changes the session step by step and may
fail; what was done before the failure stays done.

- `write_of_accepts`, `write_of_not_accepts`: what a text does to an output.
-/

namespace UpdateFeed

/-! ## §1 Output -/

/-- An output and what it holds. -/
structure Output where
  /-- How many bytes the output takes in all, if there is a limit. -/
  limit? : Option Nat
  written : List UInt8
  deriving DecidableEq, Inhabited

/-- The bytes of a text. -/
def utf8Bytes (text : String) : List UInt8 := text.toUTF8.data.toList

namespace Output

/-- Whether an output takes a text whole. -/
def accepts (output : Output) (text : String) : Bool :=
  output.limit?.all (output.written.length + (utf8Bytes text).length ≤ ·)

/-- The output after a text, of which it holds as much as it takes. -/
def write (output : Output) (text : String) : Output :=
  if output.accepts text then { output with written := output.written ++ utf8Bytes text }
  else
    let room := output.limit?.getD 0 - output.written.length
    { output with written := output.written ++ (utf8Bytes text).take room }

theorem write_of_accepts {output : Output} {text : String} (h : output.accepts text) :
    output.write text = { output with written := output.written ++ utf8Bytes text } :=
  if_pos h

theorem write_of_not_accepts {output : Output} {text : String} (h : ¬ output.accepts text) :
    (output.write text).written =
      output.written ++ (utf8Bytes text).take (output.limit?.getD 0 - output.written.length) := by
  simp [write, h]

end Output

/-! ## §2 Sessions and runs -/

/-- What a run works on. -/
structure Session where
  files : FileSystem
  output : Output
  /-- What was reported, in order. -/
  events : List Log.Event
  deriving Inhabited

/-- A run that changes a session and gives a result or an error. -/
abbrev Run (ε α : Type) := ExceptT ε (StateM Session) α

namespace Run

/-- Reports an event. -/
def report {ε : Type} (level : Log.Level) (origin : Log.Origin) (message : String) : Run ε Unit :=
  modify fun session => { session with events := session.events ++ [⟨level, origin, message⟩] }

/-- Reports several events. -/
def reportAll {ε : Type} (events : List Log.Event) : Run ε Unit :=
  modify fun session => { session with events := session.events ++ events }

/-- The file system. -/
def files {ε : Type} : Run ε FileSystem := do
  return (← get).files

/-- Goes on with another file system. -/
def setFiles {ε : Type} (files : FileSystem) : Run ε Unit :=
  modify fun session => { session with files }

/-- A result that does not touch the session, with its error in other terms. -/
def lift {ε ε' α : Type} (wrap : ε' → ε) (result : Except ε' α) : Run ε α :=
  match result with
  | .ok value => pure value
  | .error error => throw (wrap error)

/-- A run with its error in other terms. -/
def mapError {ε ε' α : Type} (wrap : ε' → ε) (run : Run ε' α) : Run ε α :=
  ExceptT.adapt wrap run

/-- A run whose error is its result. -/
def attempt {ε ε' α : Type} (run : Run ε' α) : Run ε (Except ε' α) :=
  ExceptT.mk (run.run >>= fun result => pure (.ok result))

/-- Writes a text to the output; fails with `closed` when the output does not take all of it. -/
def write {ε : Type} (closed : ε) (text : String) : Run ε Unit := do
  let output := (← get).output
  modify fun session => { session with output := output.write text }
  if output.accepts text then pure () else throw closed

end Run

end UpdateFeed
