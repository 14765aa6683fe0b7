import Switchboard.Text.Split
/-!
# Browser clients
-/
namespace Switchboard.Client

/-- The tenant and the user of a client's name, which may carry the mark of a client address. -/
def identity? (value : Option String) : Option (String × String) := do
  let cs := (value.getD "").toList
  let cs := (Text.stripFront? "client:".toList cs).getD cs
  match Text.splitFirst ':' cs with
  | (tenant, some user) =>
    if tenant.isEmpty || user.isEmpty then none else some (String.ofList tenant, String.ofList user)
  | _ => none

end Switchboard.Client
