import Switchboard.Call.Response
import Switchboard.Input.Issue
import Switchboard.Json.Printer
import Switchboard.Json.Reader
import Switchboard.Text.Percent
/-!
# Requests and replies

What comes in over the web and what goes out.  Where a name is given several times among the fields of an address or a
form, the last value counts.
-/
namespace Switchboard.Web

open Input (Issue)

inductive Method where
  | get
  | post
  | put
  | delete
  | other
  deriving DecidableEq, Repr

def Method.ofName (s : String) : Method :=
  match s with
  | "GET" => get
  | "POST" => post
  | "PUT" => put
  | "DELETE" => delete
  | _ => other

/-! ## Requests -/

/-- Named texts in the order in which they were sent. -/
abbrev Fields := List (String × String)

def Fields.last? (name : String) (fs : Fields) : Option String := (fs.reverse.find? fun f => f.1 = name).map Prod.snd

/-- The value of a name that is there and not empty. -/
def Fields.given (name : String) (fs : Fields) : Option String := Flow.given (Fields.last? name fs)

/-- Each name once, with its value. -/
def Fields.distinct : Fields → Fields
  | [] => []
  | f :: rest => if rest.any (fun g => g.1 = f.1) then Fields.distinct rest else f :: Fields.distinct rest

structure Request where
  method : Method
  /-- The path of the address, decoded. -/
  path : String
  /-- What follows the question mark of the address. -/
  query : String
  /-- Headers under their names in small letters. -/
  headers : Fields
  body : String
  deriving Repr

/-- What a request brings along. -/
inductive Posted where
  | nothing
  | document (v : Json)
  | text (s : String)

namespace Request

def header? (name : String) (r : Request) : Option String := (r.headers.find? fun h => h.1 = name).map Prod.snd

def header (name : String) (r : Request) : String := (r.header? name).getD ""

def parameters (r : Request) : Fields := Text.Percent.fields r.query

/-- The main type and the subtype of the body, where they are stated. -/
def mediaType (r : Request) : String × String :=
  let stated := (Text.splitFirst ';' (r.header "content-type").toList).1.filter (· != ' ')
  let (main, sub) := Text.splitFirst '/' (stated.map Char.toLower)
  (String.ofList main, String.ofList (sub.getD []))

/-- The fields of a form that was sent; none where no form was. -/
def form (r : Request) : Fields :=
  if r.mediaType = ("application", "x-www-form-urlencoded") then Text.Percent.fields r.body else []

/-- Whether the body is to be read as a document: its type says so, or nothing. -/
def holdsDocument (r : Request) : Bool :=
  r.header "content-type" = "" ||
    (r.mediaType.1 = "application" && (r.mediaType.2 = "json" || r.mediaType.2.endsWith "+json"))

/-- What a request brings along, or why its document cannot be read. -/
def posted (r : Request) : Except Json.ParseError Posted :=
  if r.body = "" then .ok .nothing
  else if r.holdsDocument then (Json.parseMessage r.body).map .document
  else .ok (.text r.body)

end Request

/-! ## Replies -/

inductive Content where
  | nothing
  | document (v : Json)
  /-- Instructions for a call. -/
  | verbs (r : Response)
  | audio (bytes : String)

structure Reply where
  status : Nat
  content : Content

namespace Content

/-- The media type under which a content is sent; empty where nothing is sent. -/
def mediaType : Content → String
  | nothing => ""
  | document _ => "application/json"
  | verbs _ => "text/xml"
  | audio _ => "audio/mpeg"

def toJson : Content → Json
  | nothing => .str ""
  | document v => v
  | verbs r => .str r.render
  | audio bytes => .str bytes

end Content

namespace Reply

/-- Nothing is said. -/
def quiet : Reply := ⟨200, .nothing⟩

def ofVerbs (r : Response) : Reply := ⟨200, .verbs r⟩

def ok (v : Json) : Reply := ⟨200, .document v⟩

/-- A request is turned away before it is served. -/
def detail (status : Nat) (reason : String) : Reply := ⟨status, .document (.obj [("detail", .str reason)])⟩

/-- A request that is served comes to nothing. -/
def error (status : Nat) (reason : String) : Reply := ⟨status, .document (.obj [("error", .str reason)])⟩

/-- Nothing is told of what went wrong. -/
def internal : Reply := error 500 "An internal error occurred"

def notFound : Reply := detail 404 "Not Found"

def wrongMethod : Reply := detail 405 "Method Not Allowed"

/-- The values of a request are not what they should be. -/
def refused (issues : List Issue) : Reply := ⟨422, .document (.obj [("detail", .arr (issues.map Issue.full))])⟩

/-- The document of a request cannot be read: it is no document, or it holds a number too long to convert. -/
def unreadable (e : Json.ParseError) : Reply :=
  if e.fault = .digits then detail 400 "There was an error parsing the body"
  else refused [⟨.unreadable e.fault.message, [.field "body", .item e.offset], .obj []⟩]

def toJson (r : Reply) : Json :=
  .obj [("status", .ofNat r.status), ("type", .str r.content.mediaType), ("body", r.content.toJson)]

end Reply

end Switchboard.Web
