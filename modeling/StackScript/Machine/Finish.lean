import StackScript.Machine.Counter
import StackScript.Value.Plain

/-!
# The end of a run
-/

namespace StackScript

/-- How a run ends: by itself, because the limit was reached, or because the report of a failure
failed in its turn. -/
inductive Finish where
  | done
  | limit
  | broken (cause : Fault)

def Datum.text (d : Datum) : String :=
  match (Value.ofDatum d >>= fun v => Op.ask (Value.text · v)).run {} with
  | .ok text _ => text
  | .error _ _ => ""

def Counter.text (c : Counter) : String := c.datum.text

end StackScript
