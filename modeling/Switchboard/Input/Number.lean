import Switchboard.Json.Basic
import Switchboard.Text.Numeral
/-!
# Numbers from the provider

Webhooks carry numbers as texts, and documents as numbers; a fraction is cut off.
-/
namespace Switchboard.Input

def number? : Json → Option Int
  | .str s => Text.int? s
  | .int n => some n
  | .float x => Decimal.truncate? x
  | .bool b => some (if b then 1 else 0)
  | _ => none

end Switchboard.Input
