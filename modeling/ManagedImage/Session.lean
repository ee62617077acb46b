import ManagedImage.Stream
import ManagedImage.Summary

/-!
# Sessions

In a session one stream lives through a history: its owner seeks and takes bytes, its image is
edited under it, and from time to time the image is read, through the stream or from memory, with
the options that are set at that time. The position of the stream and the number of its calls carry
over from one step to the next.
-/

namespace ManagedImage

/-- A stream with its reader, and the summary that was read last. -/
structure Session where
  stream : Stream
  options : Options
  last : Option Summary

namespace Session

inductive Step
  /-- Writes patches over the image, each at its offset. -/
  | put (patches : List (Nat × Bytes))
  | resize (size : Nat)
  | setOptions (options : Options)
  /-- A seek call of the owner. -/
  | seek (position : Nat)
  /-- A read call of the owner. -/
  | take (count : Nat)
  | readStream
  | readMemory

/-- What a step answers when it succeeds. -/
inductive Answer
  | edited
  | options (options : Options)
  | position (position : Nat)
  | bytes (bytes : Bytes)
  /-- A summary, and whether it is the one that was read last. -/
  | summary (summary : Summary) (sameAsLast : Bool)

/-- A session that has just begun. -/
def start (stream : Stream) : Session := ⟨stream, .standard, none⟩

def image (session : Session) : Bytes := session.stream.image

def editImage (session : Session) (edit : Bytes → Bytes) : Session :=
  { session with stream := { session.stream with image := edit session.stream.image } }

/-- Takes note of a read through to its end. -/
def finishRead (session : Session) (outcome : Except Error Summary) :
    Except Error Answer × Session :=
  match outcome with
  | .error error => (.error error, session)
  | .ok summary =>
    (.ok (.summary summary (session.last == some summary)), { session with last := some summary })

/-- A failing call of the owner is the failure itself, whatever its kind. -/
def ownCall {α : Type} (outcome : Except Fault α) (answer : α → Answer) : Except Error Answer :=
  match outcome with
  | .ok a => .ok (answer a)
  | .error fault => .error (.failed fault)

def step (session : Session) : Step → Except Error Answer × Session
  | .put patches =>
    (.ok .edited, session.editImage fun image =>
      patches.foldl (fun image (offset, patch) => image.overwrite offset patch) image)
  | .resize size => (.ok .edited, session.editImage (·.resize size))
  | .setOptions options => (.ok (.options options), { session with options := options })
  | .seek position =>
    let (outcome, stream) := session.stream.seekTo position
    (ownCall outcome .position, { session with stream := stream })
  | .take count =>
    let (outcome, stream) := session.stream.read count
    (ownCall outcome .bytes, { session with stream := stream })
  | .readStream =>
    let run := (Summary.read session.options).run (Cursor.start session.stream)
    { session with stream := run.cursor.source }.finishRead run.outcome
  | .readMemory => session.finishRead (Summary.ofBytes session.options session.image)

/-- The answers of all steps, and the session after them. -/
def run : Session → List Step → List (Except Error Answer) × Session
  | session, [] => ([], session)
  | session, step :: rest =>
    let (answer, session) := session.step step
    let (answers, session) := session.run rest
    (answer :: answers, session)

end Session

end ManagedImage
