/-!
How a script run ends, and where in a block's evaluation a run can be stopped.
-/

namespace BlockScript

inductive Outcome where
  | success
  /-- The script itself reported failure. -/
  | failure
  | aborted
  /-- Still running. -/
  | active
  | error
  deriving DecidableEq, Repr

namespace Outcome

def isTerminal (o : Outcome) : Bool :=
  o != .active

def name : Outcome → String
  | .success => "Success"
  | .failure => "Failure"
  | .aborted => "Aborted"
  | .active => "Active"
  | .error => "Error"

/-- Stored records may also call an active run paused. -/
def ofName? : String → Option Outcome
  | "Success" => some .success
  | "Failure" => some .failure
  | "Aborted" => some .aborted
  | "Active" | "Paused" => some .active
  | "Error" => some .error
  | _ => none

theorem ofName?_name (o : Outcome) : ofName? o.name = some o := by
  cases o <;> rfl

end Outcome

inductive StopReason where
  /-- Before the block's own evaluation. -/
  | enter
  /-- After the block's own evaluation, before the block that follows it. -/
  | leave
  /-- After the root chain, once a run. -/
  | finish
  deriving DecidableEq, Repr

namespace StopReason

def name : StopReason → String
  | .enter => "Enter"
  | .leave => "Leave"
  | .finish => "Finish"

def ofName? : String → Option StopReason
  | "Enter" => some .enter
  | "Leave" => some .leave
  | "Finish" => some .finish
  | _ => none

theorem ofName?_name (r : StopReason) : ofName? r.name = some r := by
  cases r <;> rfl

end StopReason

end BlockScript
