import Depot.Key.Basic

/-! The order of keys: by owner, index, loop path, iteration and name. A path comes after its own
beginnings, no iteration before any, and names go by code point. -/

namespace Depot

instance : Ord LoopContext :=
  ⟨fun a b => (compare a.path b.path).then (compare a.iteration b.iteration)⟩

instance : Ord Key :=
  ⟨fun a b => (compare a.owner b.owner).then ((compare a.index b.index).then
    ((compare a.loop b.loop).then (compare a.name.text b.name.text)))⟩

namespace Key

/-- Equal keys stay in the order in which they come. -/
def sort (keys : List Key) : List Key := keys.mergeSort fun a b => (compare a b).isLE

/-- The places of the keys of a list, in the order of the keys. -/
def sortedPlaces (keys : List Key) : List Nat :=
  (keys.zipIdx.mergeSort fun a b => (compare a.1 b.1).isLE).map (·.2)

def distinct (keys : List Key) : Nat := keys.eraseDups.length

end Key

end Depot
