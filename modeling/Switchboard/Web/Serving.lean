import Switchboard.Web.Hooks
import Switchboard.Web.Management
/-!
# Serving requests

A request is turned away by the first of these that it fails: it has a route, its document can be read, it is signed or
comes from a party that may ask, its values are what they should be, and the limit of its address is not reached.
-/
namespace Switchboard.Web

open Input (Checked asInt)

def passing {α : Type} (e : Except Reply α) (k : α → Work Reply) : Work Reply :=
  match e with
  | .ok a => k a
  | .error reply => return reply

def passed {α : Type} (c : Checked α) (k : α → Work Reply) : Work Reply :=
  passing (c.toExcept.mapError Reply.refused) k

/-- Serves a request, if the limit of its address is not reached. -/
def limited (t : Traffic) (r : Request) (work : Work Reply) : Work Reply := do
  if ← Work.admit t r.path then work else return .error 429 t.message

def segmentNumber (text : String) : Checked Int :=
  ((asInt (.str text)).under (.field "segment")).under (.field "path")

def serveHook (r : Request) (h : Hook String) : Work Reply := do
  passing (checkSignature (← Work.settings) r) fun _ =>
    passed (h.check segmentNumber) fun h => limited .hook r (h.run ⟨r.parameters, r.form⟩)

def serveManaged (r : Request) (tenant : String) (m : Managed) : Work Reply := do
  passing (if m.isPosted then r.posted.mapError Reply.unreadable else .ok .nothing) fun p =>
    Task.look fun s =>
      passing (authorize s.settings s.now tenant r) fun party =>
        passed (m.command r.parameters p) fun c =>
          limited c.traffic r (Task.recover (fun f => return .ofFault f) (c.run tenant party))

/-- Whether the database answers and how the breakers of the speech provider stand. -/
def health : Work Reply :=
  Task.look fun s =>
    return .ok (.obj
      [("status", .str (if s.isUp then "ok" else "degraded")), ("service", .str "call-flow-engine"),
       ("database", .str (if s.isUp then "ok" else "error")),
       ("circuit_breakers", .obj
         [("openai_transcription", .str s.studio.writingBreaker.state.name),
          ("openai_tts", .str s.studio.readingBreaker.state.name)])])

def media (place : List String) : Work Reply :=
  Task.look fun s =>
    match s.media.find? fun f => f.1 = String.intercalate "/" place with
    | some f => return ⟨200, .audio f.2⟩
    | none => return .notFound

def serve (r : Request) : Work Reply :=
  passing (Route.find r.method r.path) fun route =>
    match route with
    | .health => health
    | .media place => media place
    | .hook h => serveHook r h
    | .managed tenant m => serveManaged r tenant m

end Switchboard.Web
