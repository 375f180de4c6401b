import Stevedore.Graph.Basic

/-!
The order in which containers are taken down: nobody loses a container it depends on. The graph is
peeled from the top. The first layer is what nothing waits for, and each further layer is what
nothing waits for once the layers before it are gone, so a container's layer is the length of the
longest chain of dependents above it.
-/

namespace Stevedore.Graph

variable (g : Graph)

/-- Whether nothing in `remaining` waits for `name`. -/
def isFree (remaining : List String) (name : String) : Bool :=
  remaining.all fun other => !(g.dependencies other).contains name

/-- The layers of `remaining`, from the top. -/
def peel : Nat → List String → List (List String)
  | 0, _ => []
  | rounds + 1, remaining =>
    let free := remaining.filter (g.isFree remaining)
    if free.isEmpty then []
    else free :: peel rounds (remaining.filter fun name => !g.isFree remaining name)

/-- All containers in layers, dependents before what they depend on. -/
def layers : List (List String) := g.peel g.nodes.size g.names

/-- The containers of `wanted` in the order in which they are taken down. -/
def teardownOrder (wanted : NameSet) : List (List String) :=
  (g.layers.map fun layer => layer.filter fun name => wanted.contains name).filter (!·.isEmpty)

end Stevedore.Graph
