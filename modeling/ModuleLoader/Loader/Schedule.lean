import ModuleLoader.Loader.Request

/-! # Requests side by side

Requests take turns in rounds, in the order in which they were made, until all are settled.
-/

namespace ModuleLoader.Loader

/-- Whether a request is settled. -/
def Activity.isSettled : Activity → Bool
  | .settled _ => true
  | _ => false

/-- Give every request a turn. -/
def round (budget : Nat) (l : Loader) : List Activity → List Activity × Loader
  | [] => ([], l)
  | a :: rest =>
    let (a, l) := turn budget l a
    let (rest, l) := round budget l rest
    (a :: rest, l)

/-- Go through rounds until all requests are settled, at most as often as told. -/
def rounds (budget : Nat) : Nat → Loader → List Activity → List Activity × Loader
  | 0, l, activities => (activities, l)
  | n + 1, l, activities =>
    if activities.all Activity.isSettled then (activities, l)
    else
      let (activities, l) := round budget l activities
      rounds budget n l activities

/-- How many frontiers a request may load in a turn, and how many turns it may take. -/
def patience : Nat := 1000000

/-- Make requests side by side, each after some turns of delay. -/
def perform (l : Loader) (requests : List (Nat × Request)) : List Activity × Loader :=
  rounds patience patience l (requests.map fun r => .delayed r.1 r.2)

/-- Make one request. -/
def performOne (l : Loader) (request : Request) : Activity × Loader :=
  let (activities, l) := l.perform [(0, request)]
  (activities.headD (.delayed 0 request), l)

end ModuleLoader.Loader
