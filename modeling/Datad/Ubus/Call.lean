/-
  Datad/Ubus/Call.lean
  ====================
  **The answer of a ubus call** as the callers of `executor::call` see it: a value, an
  error of the client, or no call at all because the object has timed out recently.
-/
import Datad.Ubus.Client

namespace Datad.Ubus

/-- `status::name`. -/
def statusName (code : Int) : String :=
  match code with
  | 0 => "Success"
  | 1 => "Invalid command"
  | 2 => "Invalid argument"
  | 3 => "Method not found"
  | 4 => "Not found"
  | 5 => "No response"
  | 6 => "Permission denied"
  | 7 => "Request timed out"
  | 8 => "Operation not supported"
  | 9 => "Unknown error"
  | 10 => "Connection failed"
  | 11 => "Out of memory"
  | 12 => "Parsing message data failed"
  | 13 => "System error"
  | _ => "Unknown error"

def UbusError.text : UbusError → String
  | .invalidArgument m => m
  | .io m => m
  | .timeout _ detail => detail
  | .noData _ detail => detail
  | .notFound object => s!"ubus {object}: {statusName NOT_FOUND}"
  | .status object method code => s!"ubus {object} {method}: {statusName code} ({code})"
  | .protocol m => s!"ubus protocol error: {m}"

inductive CallError where
  /-- No request went out (`UbusError::Skipped`). -/
  | skipped (object : String)
  | client (e : UbusError)
deriving DecidableEq, Repr

def CallError.text : CallError → String
  | .skipped object => s!"ubus {object}: skipped after a recent timeout"
  | .client e => e.text

abbrev CallAnswer := Except CallError Value

structure Invocation where
  service : String
  method : String
  args : Value
deriving DecidableEq, Repr

end Datad.Ubus
