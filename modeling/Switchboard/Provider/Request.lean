import Switchboard.Json.Basic
/-!
# Requests to providers

What the service asks of others: the telephone provider places, ends and redirects legs and hands recordings out; the
speech provider reads prompts aloud and writes recordings down.
-/
namespace Switchboard.Provider

/-- An outbound leg to be placed. -/
structure Leg where
  destination : String
  callerId : String
  /-- What the leg does once it is answered. -/
  document : String
  statusCallback : String
  timeout : Int
  deriving DecidableEq, Repr

/-- A request for speech. -/
structure Speech where
  model : String
  voice : String
  text : String
  deriving DecidableEq, Repr

inductive Request where
  /-- Place a leg.  A leg that was placed has an id. -/
  | place (leg : Leg) (sid : Option String)
  | terminate (sid : String) (done : Bool)
  | redirect (sid document : String) (done : Bool)
  | fetch (address : String) (done : Bool)
  | speak (speech : Speech)
  | transcribe (model : String) (recording : String)
  /-- Open connections to the database: so many at least and at most. -/
  | openPool (least most : Nat)
  deriving DecidableEq, Repr

def legEvents : List String := ["initiated", "ringing", "answered", "completed"]

def speechManner : String := "Speak clearly and warmly, at a relaxed pace suitable for a phone line."

/-- The name and the kind of file under which a recording is handed over. -/
def recordingName : String := "recording.mp3"

def recordingKind : String := "audio/mpeg"

/-- What is said of a request that may be refused. -/
def doneFields (done : Bool) : List (String × Json) := if done then [] else [("failed", .bool true)]

def writingJson (model recording : String) : Json :=
  .obj [("do", .str "stt"), ("model", .str model), ("response_format", .str "diarized_json"),
    ("chunking_strategy", .str "auto"), ("file", .arr [.str recordingName, .str recording, .str recordingKind])]

def Request.toJson : Request → Json
  | .place leg sid =>
    .obj ([("do", .str "place"), ("to", .str leg.destination), ("from", .str leg.callerId), ("twiml", .str leg.document),
      ("status_callback", .str leg.statusCallback), ("timeout", .int leg.timeout)] ++
      (match sid with
        | some s => [("sid", .str s)]
        | none => doneFields false))
  | .terminate sid done => .obj ([("do", .str "terminate"), ("sid", .str sid)] ++ doneFields done)
  | .redirect sid document done =>
    .obj ([("do", .str "redirect"), ("sid", .str sid), ("twiml", .str document)] ++ doneFields done)
  | .fetch url done => .obj ([("do", .str "fetch"), ("url", .str url)] ++ doneFields done)
  | .speak s =>
    .obj [("do", .str "tts"), ("model", .str s.model), ("voice", .str s.voice), ("input", .str s.text),
      ("instructions", .str speechManner), ("response_format", .str "mp3")]
  | .transcribe model recording => writingJson model recording
  | .openPool least most => .obj [("do", .str "create_pool"), ("min_size", .ofNat least), ("max_size", .ofNat most)]

end Switchboard.Provider
