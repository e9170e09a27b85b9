import SC32.Machine.Step

/-!
Runs: steps until the machine terminates or a budget is spent. Hooks see the machine before the
first step and after each one; they may change it, and what they say is recorded in order.
-/
namespace SC32

/-- An observer of a run. What it says is of type `ω`. -/
structure Hook (ω : Type) where
  start : Machine → Machine × List ω
  /-- After the step at the given time, which did the given event. -/
  after : Nat → Event → Machine → Machine × List ω

namespace Hook

/-- A hook that leaves the machine as it is. -/
def observe (opening : Machine → List ω) (each : Nat → Event → Machine → List ω) : Hook ω :=
  ⟨fun m => (m, opening m), fun t e m => (m, each t e m)⟩

/-- A hook that changes the machine after a step and says nothing. -/
def alter (change : Nat → Machine → Machine) : Hook ω :=
  ⟨fun m => (m, []), fun t _ m => (change t m, [])⟩

/-- Each hook in turn, on the machine that the one before it leaves. -/
def inTurn (act : Hook ω → Machine → Machine × List ω) :
    List (Hook ω) → Machine → Machine × List ω
  | [], m => (m, [])
  | h :: hs, m =>
    let (m₁, out₁) := act h m
    let (m₂, out₂) := inTurn act hs m₁
    (m₂, out₁ ++ out₂)

def startAll (hooks : List (Hook ω)) (m : Machine) : Machine × List ω :=
  inTurn start hooks m

def afterAll (hooks : List (Hook ω)) (time : Nat) (e : Event) (m : Machine) :
    Machine × List ω :=
  inTurn (fun h => h.after time e) hooks m

end Hook

/-- What a run leaves behind. -/
structure Run (ω : Type) where
  final : Machine
  /-- What the hooks said, from the start on. -/
  output : List ω

namespace Machine

/-- At most `n` steps, the first of them at time `t`. What has been said is in `said`, the latest
first. -/
def runFrom (hooks : List (Hook ω)) :
    (n t : Nat) → Machine → (said : List ω) → Machine × List ω
  | 0, _, m, said => (m, said)
  | n + 1, t, m, said =>
    let (e, m₁) := m.step
    let (m₂, out) := Hook.afterAll hooks t e m₁
    let said := out.reverse ++ said
    if m₂.terminated then (m₂, said) else runFrom hooks n (t + 1) m₂ said

/-- The budget of a run that is given none: the greatest count of 64 bits. -/
def unlimited : Nat := 18446744073709551615

/-- Run until the machine terminates or `budget` steps are made. Termination is looked for after
each step, so a budget above 0 makes at least one. -/
def run (hooks : List (Hook ω)) (budget : Option Nat) (m : Machine) : Run ω :=
  let (m₁, opening) := Hook.startAll hooks m
  let (m₂, said) := runFrom hooks (budget.getD unlimited) 0 m₁ opening.reverse
  ⟨m₂, said.reverse⟩

end Machine
end SC32
