import Switchboard.Service.State
/-!
# Start and end of the service

The connections to the database are opened when the service starts and closed when it ends.  A database that does not
answer, or connections that cannot be closed, keep the service neither from starting nor from ending.
-/
namespace Switchboard

/-- How the connections fared. -/
structure Life where
  opened : Bool
  /-- Whether they are still open behind the end. -/
  stayedOpen : Bool
  deriving DecidableEq, Repr

/-- Starts and ends the service, given whether the database answers and whether its connections can be closed. -/
def Work.live (answers closes : Bool) : Work Life := do
  Work.note (.openPool 2 10)
  return ⟨answers, answers && !closes⟩

end Switchboard
