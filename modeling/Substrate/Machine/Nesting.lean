import Substrate.Machine.Scopes

/-!
# Scopes nested to any depth

A tower of scopes around one body, built and taken down by loops: as deep as the frame limit allows,
it needs no deeper recursion than a single scope.
-/

namespace Substrate.Machine

variable {γ : Type}

/-- Abandons scopes, the innermost first. -/
def abandonAll : List ControlStack.Scope → Machine γ → Machine γ
  | [], m => m
  | scope :: rest, m =>
    match modifyControl (·.abandon scope) m with
    | .ok () m => abandonAll rest m
    | .error _ m => abandonAll rest m

/-- Enters `count` more scopes inside the given ones, the innermost first. It stops at the first
that cannot be entered, and a fault abandons them all. -/
def enterAll (enterNext : Nat → Op γ (Outcome ControlStack.Scope)) :
    Nat → Nat → List ControlStack.Scope → Op γ (Outcome Unit × List ControlStack.Scope)
  | 0, _, scopes => fun m => .ok (.ok (), scopes) m
  | count + 1, index, scopes => fun m =>
    match enterNext index m with
    | .ok (.ok scope) m => enterAll enterNext count (index + 1) (scope :: scopes) m
    | .ok (.error unwind) m => .ok (.error unwind, scopes) m
    | .error fault m => .error fault (abandonAll scopes m)

/-- Leaves the scopes, the innermost first, each with what the one inside came back with. A fault
abandons those that are left. -/
def leaveAll (leaveNext : ControlStack.Scope → Outcome Value → Op γ (Outcome Value)) :
    List ControlStack.Scope → Outcome Value → Op γ (Outcome Value)
  | [], result => fun m => .ok result m
  | scope :: rest, result => fun m =>
    match leaveNext scope result m with
    | .ok result m => leaveAll leaveNext rest result m
    | .error fault m => .error fault (abandonAll rest m)

/-- Runs a body inside `count` nested scopes. -/
def nested (count : Nat) (enterNext : Nat → Op γ (Outcome ControlStack.Scope))
    (leaveNext : ControlStack.Scope → Outcome Value → Op γ (Outcome Value))
    (body : Op γ (Outcome Value)) : Op γ (Outcome Value) := fun m =>
  match enterAll enterNext count 0 [] m with
  | .error fault m => .error fault m
  | .ok (.error unwind, scopes) m => leaveAll leaveNext scopes (.error unwind) m
  | .ok (.ok (), scopes) m =>
    match body m with
    | .ok result m => leaveAll leaveNext scopes result m
    | .error fault m => .error fault (abandonAll scopes m)

end Substrate.Machine
