import PayloadGate.Failure
import PayloadGate.Decimal.Unsigned

/-! # Run ids

Every run of a job is stored in a directory named by a number. **`RunId.next`** is the id that
sorts right behind all objects of a run; it is where a search goes on that has seen enough of the
run, and where the listing of the run ends. -/

namespace PayloadGate.RunId

/-- **The id after `id`.** The empty id comes before `0`; any other id must be a base-10 number
whose successor still fits in 64 bits, and the answer has no leading zeros. -/
def next (id : String) : Except Failure String :=
  if id = "" then .ok "0"
  else match Decimal.digits? id.toList with
    | some n => if n + 1 < Decimal.limit64 then .ok (Decimal.text (n + 1)) else .error (.invalidRunId id)
    | none => .error (.invalidRunId id)

end PayloadGate.RunId
