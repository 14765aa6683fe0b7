import Switchboard.Text.Blank
import Switchboard.Text.Percent
/-!
# Callback addresses

Every address that the provider calls back on is built here.  Values that are absent or empty leave no trace in a query.
-/
namespace Switchboard

/-- The addresses of one deployment. -/
structure Callbacks where
  /-- Without a slash at its end. -/
  base : String
  deriving DecidableEq, Repr

namespace Callbacks

/-- The addresses under a base; slashes at its end are dropped. -/
def ofBase (base : String) : Callbacks := ⟨Text.trimEnd (· = '/') base⟩

/-- A query field with a value that may be absent. -/
abbrev Field := String × Option String

def int (name : String) (n : Option Int) : Field := (name, n.map toString)

def present (fields : List Field) : List (String × String) :=
  fields.filterMap fun f =>
    match f.2 with
    | some v => if v = "" then none else some (f.1, v)
    | none => none

def address (c : Callbacks) (path : String) (fields : List Field) : String :=
  let query := present fields
  if query.isEmpty then c.base ++ path else c.base ++ path ++ "?" ++ Text.Percent.query Text.Percent.form query

def incoming (c : Callbacks) (tenant line : String) : String :=
  c.address ("/voice/incoming/" ++ tenant ++ "/" ++ line) []

def incomingStatus (c : Callbacks) (tenant line : String) : String :=
  c.address ("/voice/incoming/" ++ tenant ++ "/" ++ line ++ "/status") []

/-- What a flow is asked to continue with. -/
structure Position where
  step : Int
  action : Option String
  branch : Option String
  attempt : Option Int
  var : Option String
  seq : Option Int
  deriving DecidableEq, Repr

/-- A step of the list at a branch, nothing else asked for. -/
def Position.at (step : Int) (branch : Option String) : Position := ⟨step, none, branch, none, none, none⟩

def Position.fields (p : Position) : List Field :=
  [int "step" (some p.step), ("action", p.action), ("branch", p.branch), int "attempt" p.attempt, ("var", p.var),
    int "seq" p.seq]

/-- Where a flow continues. -/
def flow (c : Callbacks) (tenant line : String) (p : Position) : String :=
  c.address ("/voice/flow/" ++ tenant ++ "/" ++ line) p.fields

/-- Where the end of a caller's dial is reported. -/
def dialStatus (c : Callbacks) (tenant line : String) (step : Int) (branch : Option String) (seq : Option Int) : String :=
  c.address ("/voice/flow/" ++ tenant ++ "/" ++ line ++ "/dial-status")
    [int "step" (some step), ("branch", branch), int "seq" seq]

def conference (c : Callbacks) (tenant call : String) (segment : Int) (seq : Option Int) : String :=
  c.address ("/voice/conference/" ++ tenant ++ "/" ++ call ++ "/" ++ toString segment) [int "seq" seq]

def agentStatus (c : Callbacks) (tenant call : String) (segment : Int) (line : Option String) (step attempt seq : Option Int) :
    String :=
  c.address ("/voice/agent-status/" ++ tenant ++ "/" ++ call ++ "/" ++ toString segment)
    [("line", line), int "step" step, int "attempt" attempt, int "seq" seq]

def recording (c : Callbacks) (tenant call : String) (segment : Option Int) : String :=
  let tail := match segment with
    | some n => "/" ++ toString n
    | none => ""
  c.address ("/voice/recording/" ++ tenant ++ "/" ++ call ++ tail) []

def voicemail (c : Callbacks) (tenant call : String) : String :=
  c.address ("/voice/voicemail/" ++ tenant ++ "/" ++ call) []

def transcription (c : Callbacks) (tenant call : String) : String :=
  c.address ("/voice/transcription/" ++ tenant ++ "/" ++ call) []

def ring (c : Callbacks) : String := c.address "/voice/ring" []

def outgoingStatus (c : Callbacks) (tenant : String) : String :=
  c.address "/voice/outgoing/status" [("tenantId", some tenant)]

end Callbacks

/-- The address of a browser client, with parameters for it. -/
def clientAddress (identity : String) (params : List (String × String)) : String :=
  "client:" ++ identity ++
    (if params.isEmpty then "" else "?" ++ Text.Percent.query Text.Percent.value params)

end Switchboard
