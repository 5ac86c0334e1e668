import Pagnet.Data.Balance

/-!
# The persistent dictionary

`fabric/search/map.go` over whole histories. Its nodes are never assigned, so a
caller keeps every tree it has passed to `put` or `remove` and may build on it
again: a history is the list of all trees made so far, and each operation names
the tree it starts from.
-/

namespace Pagnet.Search

-- of a key the tree uses its order alone, which for Go's strings is that of their bytes
variable {κ ν : Type} [LinearOrder κ]

/-- A call of `put` or `remove`. -/
inductive DictionaryCall (κ ν : Type) where
  | put (key : κ) (value : ν)
  | remove (key : κ)

namespace DictionaryCall

def run (t : Avl κ ν) : DictionaryCall κ ν → Avl κ ν
  | put key value => t.put key value
  | remove key => t.remove key

/-- The same operation on a finite map. -/
def write (m : κ → Option ν) : DictionaryCall κ ν → κ → Option ν
  | put key value => Function.update m key (some value)
  | remove key => Function.update m key none

end DictionaryCall

/-- The trees after one more call, on the `i`th tree; `nil` if there is none. -/
def extend (trees : List (Avl κ ν)) (call : Nat × DictionaryCall κ ν) : List (Avl κ ν) :=
  trees ++ [call.2.run (trees[call.1]?.getD .nil)]

/-- The maps after the same call. -/
def extendMaps (maps : List (κ → Option ν)) (call : Nat × DictionaryCall κ ν) : List (κ → Option ν) :=
  maps ++ [call.2.write (maps[call.1]?.getD fun _ => none)]

/-- A tree stands for a map. -/
structure Represents (t : Avl κ ν) (m : κ → Option ν) : Prop where
  ordered : t.Ordered
  balanced : t.Balanced
  answers : ∀ key, t.get key = m key

theorem Represents.nil : Represents (.nil : Avl κ ν) fun _ => none :=
  ⟨List.Pairwise.nil, trivial, fun _ => rfl⟩

/-- A call keeps the correspondence. -/
theorem Represents.run {t : Avl κ ν} {m : κ → Option ν} (h : Represents t m) (call : DictionaryCall κ ν) :
    Represents (call.run t) (call.write m) := by
  cases call with
  | put key value =>
    have answers := Dictionary.get_put ⟨t, h.ordered⟩ key value
    refine ⟨(Dictionary.put ⟨t, h.ordered⟩ key value).ordered, (Avl.within_put h.balanced key value).balanced, fun k => ?_⟩
    rw [DictionaryCall.write, Function.update_apply, ← h.answers]
    exact answers k
  | remove key =>
    have answers := Dictionary.get_remove ⟨t, h.ordered⟩ key
    refine ⟨(Dictionary.remove ⟨t, h.ordered⟩ key).ordered, (Avl.within_remove h.balanced key).balanced, fun k => ?_⟩
    rw [DictionaryCall.write, Function.update_apply, ← h.answers]
    exact answers k

theorem represents_extend {trees : List (Avl κ ν)} {maps : List (κ → Option ν)}
    (h : List.Forall₂ Represents trees maps) (call : Nat × DictionaryCall κ ν) :
    List.Forall₂ Represents (extend trees call) (extendMaps maps call) := by
  refine List.rel_append h (.cons (Represents.run ?_ call.2) .nil)
  by_cases known : call.1 < trees.length
  · have same := h.length_eq
    rw [List.getElem?_eq_getElem known, List.getElem?_eq_getElem (same ▸ known)]
    exact h.get known (same ▸ known)
  · have same := h.length_eq
    rw [List.getElem?_eq_none (not_lt.1 known), List.getElem?_eq_none (same ▸ not_lt.1 known)]
    exact .nil

/-- In every history each tree ever made, those that later calls were given
included, is ordered and balanced with exact heights, and answers as the map
that its own calls made; and a later call changes none of the earlier trees. -/
theorem dictionary_represents (calls later : List (Nat × DictionaryCall κ ν)) :
    List.Forall₂ Represents (calls.foldl extend [.nil]) (calls.foldl extendMaps [fun _ => none]) ∧
      calls.foldl extend [.nil] <+: (calls ++ later).foldl extend [(.nil : Avl κ ν)] := by
  constructor
  · suffices all : ∀ trees maps, List.Forall₂ Represents trees maps →
        List.Forall₂ Represents (calls.foldl extend trees) (calls.foldl extendMaps maps) from all _ _ (.cons .nil .nil)
    induction calls with
    | nil => exact fun _ _ h => h
    | cons call rest ih => exact fun trees maps h => ih _ _ (represents_extend h call)
  · rw [List.foldl_append]
    generalize calls.foldl extend [.nil] = trees
    induction later generalizing trees with
    | nil => exact List.prefix_rfl
    | cons call rest ih => exact (List.prefix_append ..).trans (ih (extend trees call))

end Pagnet.Search
