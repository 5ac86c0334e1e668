import Mathlib.Data.List.ReduceOption
import Pagnet.Search.Index

/-!
# What the tree says of its documents

A node describes the documents below it: their number, their smallest
reference, and for every key the fold of their impacts. `updateNode` writes one
slot and keeps every node above it right, although it only looks at the keys of
the old and the new document.
-/

namespace Pagnet.Search
open Json Fabric List

/-! ## The smallest reference -/

def minRefOf (docs : List Indexed) : String := docs.foldl (fun acc d => lesserRef acc d.ref) ""

@[simp] theorem lesserRef_empty (ref : String) : lesserRef "" ref = ref := by simp [lesserRef]

theorem lesserRef_eq_min {acc : String} (named : acc ≠ "") (ref : String) : lesserRef acc ref = min acc ref := by
  unfold lesserRef
  rcases lt_or_ge ref acc with lt | ge
  · rw [if_pos (.inr lt), min_eq_right lt.le]
  · rw [if_neg (not_or.2 ⟨named, not_lt.2 ge⟩), min_eq_left ge]

variable {b key : String} {v : Impact} {keys : List String} {slots : List (Option Indexed)}
    {summaries : Dictionary String Impact} {l r old : Node} {level i : Nat} {post pre : List Indexed}
    {d : Option Indexed}

theorem min_ne_empty {a : String} (ofA : a ≠ "") (ofB : b ≠ "") : min a b ≠ "" := by
  rcases min_choice a b with h | h <;> rw [h] <;> assumption

theorem lesserRef_assoc (a c : String) (named : b ≠ "") :
    lesserRef (lesserRef a b) c = lesserRef a (lesserRef b c) := by
  by_cases first : a = ""
  · rw [first, lesserRef_empty, lesserRef_empty]
  · rw [lesserRef_eq_min first, lesserRef_eq_min (min_ne_empty first named), lesserRef_eq_min named,
      lesserRef_eq_min first, min_assoc]

theorem foldl_lesserRef {docs : List Indexed} (named : ∀ d ∈ docs, d.ref ≠ "") (acc : String) :
    docs.foldl (fun acc d => lesserRef acc d.ref) acc = if docs = [] then acc else lesserRef acc (minRefOf docs) := by
  induction docs generalizing acc with
  | nil => rfl
  | cons d rest ih =>
    have here := named d mem_cons_self
    have later : ∀ d ∈ rest, d.ref ≠ "" := fun d mem => named d (mem_cons_of_mem _ mem)
    have whole : minRefOf (d :: rest) = if rest = [] then d.ref else lesserRef d.ref (minRefOf rest) := by
      rw [minRefOf, foldl_cons, lesserRef_empty, ih later]
    rw [foldl_cons, ih later, whole]
    by_cases last : rest = []
    · simp [last]
    · simp only [last, if_false, cons_ne_nil]
      exact lesserRef_assoc _ _ here

theorem minRefOf_append {a b : List Indexed} (named : ∀ d ∈ b, d.ref ≠ "") :
    minRefOf (a ++ b) = if b = [] then minRefOf a else lesserRef (minRefOf a) (minRefOf b) := by
  rw [minRefOf, foldl_append]
  exact foldl_lesserRef named _

theorem minRefOf_cons {d : Indexed} {rest : List Indexed} (named : ∀ x ∈ d :: rest, x.ref ≠ "") :
    minRefOf (d :: rest) = if rest = [] then d.ref else min d.ref (minRefOf rest) := by
  rw [← singleton_append, minRefOf_append fun x mem => named x (mem_cons_of_mem _ mem)]
  have one : minRefOf [d] = d.ref := lesserRef_empty d.ref
  rw [one, lesserRef_eq_min (named d mem_cons_self)]

/-- Documents with references have a smallest one. -/
theorem minRefOf_ne {docs : List Indexed} (named : ∀ d ∈ docs, d.ref ≠ "") (nonempty : docs ≠ []) : minRefOf docs ≠ "" := by
  induction docs with
  | nil => exact absurd rfl nonempty
  | cons d rest ih =>
    rw [minRefOf_cons named]
    split
    · exact named d mem_cons_self
    case isFalse more => exact min_ne_empty (named d mem_cons_self) (ih (fun x mem => named x (mem_cons_of_mem _ mem)) more)

theorem minRefOf_le {docs : List Indexed} (named : ∀ d ∈ docs, d.ref ≠ "") {d : Indexed} (mem : d ∈ docs) :
    minRefOf docs ≤ d.ref := by
  induction docs with
  | nil => cases mem
  | cons first rest ih =>
    rw [minRefOf_cons named]
    rcases mem_cons.1 mem with rfl | later
    · split
      · exact le_rfl
      · exact min_le_left ..
    · rw [if_neg (ne_nil_of_mem later)]
      exact (min_le_right ..).trans (ih (fun x mem => named x (mem_cons_of_mem _ mem)) later)

/-! ## Nodes -/

namespace Node

/-- The documents below a node, in the order of their ids. -/
def docs : Node → List Indexed
  | nil => []
  | leaf slots _ => slots.reduceOption
  | branch l r _ => l.docs ++ r.docs

/-- The document in a slot, counted from the first id of the node. -/
def get : Nat → Node → Nat → Option Indexed
  | 0, n, i => (n.slots[i]?).join
  | level + 1, n, i => if i < spanOf level then get level n.left i else get level n.right (i - spanOf level)

end Node

/-- An entry for the keys some document has an impact on. -/
def entryOf (v : Impact) : Option Impact := if v.count = 0 then none else some v

/-- A node's summary of these documents. -/
structure Info.Describes (info : Info) (docs : List Indexed) : Prop where
  count : info.count = docs.length
  minRef : info.minRef = minRefOf docs
  summaries : ∀ key, info.summaries.get key = entryOf (totalImpact key docs)

/-- A tree of a level: every node is there for some document, and describes the
documents below it. -/
def Node.WellFormed : Nat → Node → Prop
  | _, .nil => True
  | 0, .leaf slots info => slots.length = leafSize ∧ info.Describes (slots.reduceOption) ∧ slots.reduceOption ≠ []
  | level + 1, .branch l r info =>
    l.WellFormed level ∧ r.WellFormed level ∧ info.Describes (l.docs ++ r.docs) ∧ l.docs ++ r.docs ≠ []
  | _, _ => False

theorem Node.wellFormed_nil (level : Nat) : Node.nil.WellFormed level := by
  cases level <;> trivial

theorem Node.get_nil (level i : Nat) : Node.nil.get level i = none := by
  induction level generalizing i with
  | zero =>
    simp only [Node.get, Node.slots, getElem?_replicate]
    split <;> rfl
  | succ level ih =>
    simp only [Node.get, Node.left, Node.right, ih]
    split <;> rfl

namespace Node.WellFormed

variable {n : Node} {level : Nat}

/-- Only a missing node has no documents. -/
theorem eq_nil (wf : n.WellFormed level) (empty : n.docs = []) : n = .nil := by
  cases n with
  | nil => rfl
  | leaf slots info =>
    cases level with
    | zero => exact absurd empty wf.2.2
    | succ => exact wf.elim
  | branch l r info =>
    cases level with
    | zero => exact wf.elim
    | succ => exact absurd empty wf.2.2.2

theorem describes (wf : n.WellFormed level) : n.info.Describes n.docs := by
  cases n with
  | nil => exact ⟨rfl, rfl, fun key => rfl⟩
  | leaf slots info =>
    cases level with
    | zero => exact wf.2.1
    | succ => exact wf.elim
  | branch l r info =>
    cases level with
    | zero => exact wf.elim
    | succ => exact wf.2.2.1

theorem left (wf : n.WellFormed (level + 1)) : n.left.WellFormed level := by
  cases n with
  | nil => exact wellFormed_nil level
  | leaf => exact wf.elim
  | branch => exact wf.1

theorem right (wf : n.WellFormed (level + 1)) : n.right.WellFormed level := by
  cases n with
  | nil => exact wellFormed_nil level
  | leaf => exact wf.elim
  | branch => exact wf.2.1

theorem docs_branch (wf : n.WellFormed (level + 1)) : n.docs = n.left.docs ++ n.right.docs := by
  cases n with
  | nil => rfl
  | leaf => exact wf.elim
  | branch => rfl

theorem docs_leaf (wf : n.WellFormed 0) : n.docs = n.slots.reduceOption := by
  cases n with
  | nil | leaf => rfl
  | branch => exact wf.elim

theorem slots_length (wf : n.WellFormed 0) : n.slots.length = leafSize := by
  cases n with
  | nil => rfl
  | leaf => exact wf.1
  | branch => exact wf.elim

end Node.WellFormed

/-! ## Writing a slot -/

/-- The summaries after an update: recomputed for its keys, as they were for the others. -/
theorem updateSummaries_get (impact : String → Impact) (keys : List String) (summaries : Dictionary String Impact)
    (key : String) : (updateSummaries impact keys summaries).get key =
      if key ∈ keys then entryOf (impact key) else summaries.get key := by
  induction keys generalizing summaries with
  | nil => rfl
  | cons first rest ih =>
    have step : (if (impact first).count = 0 then summaries.remove first else summaries.put first (impact first)).get key =
        if key = first then entryOf (impact first) else summaries.get key := by
      unfold entryOf
      split
      · exact Dictionary.get_remove ..
      · exact Dictionary.get_put ..
    change (updateSummaries impact rest _).get key = _
    rw [ih, step]
    by_cases later : key ∈ rest
    · simp [later]
    · by_cases here : key = first
      · simp [here]
      · simp [later, here]

theorem foldl_slotImpact (key : String) (slots : List (Option Indexed)) (normal : v.Normal) :
    slots.foldl (fun v slot => combine v (slotImpact slot key)) v = combine v (totalImpact key (slots.reduceOption)) := by
  induction slots generalizing v with
  | nil => exact (combine_zero_right normal).symm
  | cons slot rest ih =>
    cases slot with
    | none =>
      rw [foldl_cons, slotImpact, combine_zero_right normal]
      exact ih normal
    | some d =>
      have one := recordImpact_normal d key
      rw [foldl_cons, slotImpact, ih (combine_normal normal one), combine_assoc]
      exact congrArg (combine v) (totalImpact_cons key d _).symm

theorem foldl_slotRef (slots : List (Option Indexed)) (acc : String) :
    slots.foldl slotRef acc = (slots.reduceOption).foldl (fun acc d => lesserRef acc d.ref) acc := by
  induction slots generalizing acc with
  | nil => rfl
  | cons slot rest ih => cases slot <;> exact ih _

theorem countP_isSome (slots : List (Option Indexed)) : slots.countP Option.isSome = (slots.reduceOption).length := by
  induction slots with
  | nil => rfl
  | cons slot rest ih => cases slot <;> simp [ih]

/-- A written leaf describes its documents, if its summaries of the other keys were right. -/
theorem makeLeaf_spec (length : slots.length = leafSize)
    (others : ∀ key ∉ keys, summaries.get key = entryOf (totalImpact key (slots.reduceOption))) :
    (makeLeaf slots keys summaries).WellFormed 0 ∧ (makeLeaf slots keys summaries).docs = slots.reduceOption ∧
      ∀ i, (makeLeaf slots keys summaries).get 0 i = (slots[i]?).join := by
  have counted := countP_isSome slots
  unfold makeLeaf
  dsimp only
  split
  case isTrue empty =>
    have none_left : slots.reduceOption = [] := length_eq_zero_iff.1 (counted ▸ empty)
    refine ⟨Node.wellFormed_nil 0, none_left.symm, fun i => ?_⟩
    rw [Node.get_nil]
    cases found : (slots[i]?).join with
    | none => rfl
    | some d =>
      have mem : some d ∈ slots := mem_of_getElem? (Option.join_eq_some_iff.1 found)
      have kept : d ∈ slots.reduceOption := reduceOption_mem_iff.2 mem
      rw [none_left] at kept
      cases kept
  case isFalse more =>
    refine ⟨⟨length, ⟨counted, foldl_slotRef slots "", fun key => ?_⟩, fun empty => more ?_⟩, rfl, fun i => rfl⟩
    · rw [updateSummaries_get, foldl_slotImpact key slots (fun _ => rfl), combine_zero_left]
      split
      · rfl
      case isFalse other => exact others key other
    · rw [counted, empty]
      rfl

theorem entryOf_getD (normal : v.Normal) : (entryOf v).getD .zero = v := by
  unfold entryOf
  split
  case isTrue none_there => exact (normal none_there).symm
  case isFalse => rfl

theorem Info.Describes.summary {n : Node} {docs : List Indexed} (describes : n.info.Describes docs) (key : String) :
    summary n key = totalImpact key docs := by
  rw [Search.summary, describes.summaries, entryOf_getD (totalImpact_normal key docs)]

/-- A written branch describes the documents of its children. -/
theorem makeBranch_spec
    (ofLeft : l.WellFormed level) (ofRight : r.WellFormed level) (named : ∀ d ∈ l.docs ++ r.docs, d.ref ≠ "")
    (others : ∀ key ∉ keys, summaries.get key = entryOf (totalImpact key (l.docs ++ r.docs))) :
    (makeBranch l r keys summaries).WellFormed (level + 1) ∧ (makeBranch l r keys summaries).docs = l.docs ++ r.docs ∧
      ∀ i, (makeBranch l r keys summaries).get (level + 1) i =
        if i < spanOf level then l.get level i else r.get level (i - spanOf level) := by
  have left_describes := ofLeft.describes
  have right_describes := ofRight.describes
  have counted : l.info.count + r.info.count = (l.docs ++ r.docs).length := by
    rw [left_describes.count, right_describes.count, length_append]
  unfold makeBranch
  dsimp only
  split
  case isTrue empty =>
    have none_left : l.docs ++ r.docs = [] := length_eq_zero_iff.1 (counted ▸ empty)
    have missing := append_eq_nil_iff.1 none_left
    refine ⟨Node.wellFormed_nil _, none_left.symm, fun i => ?_⟩
    rw [ofLeft.eq_nil missing.1, ofRight.eq_nil missing.2, Node.get_nil, Node.get_nil, Node.get_nil, ite_self]
  case isFalse more =>
    refine ⟨⟨ofLeft, ofRight, ⟨counted, ?_, fun key => ?_⟩, fun empty => more ?_⟩, rfl, fun i => rfl⟩
    · have later : ∀ d ∈ r.docs, d.ref ≠ "" := fun d mem => named d (mem_append_right _ mem)
      have first : childRef "" l = minRefOf l.docs := by
        rw [childRef, left_describes.minRef, lesserRef_empty]
        split
        case isTrue empty => exact empty.symm
        case isFalse => rfl
      have last : minRefOf r.docs = "" ↔ r.docs = [] :=
        ⟨fun empty => by_contra fun more => minRefOf_ne later more empty, fun empty => by rw [empty]; rfl⟩
      rw [first, childRef, right_describes.minRef, minRefOf_append later]
      simp only [last]
    · rw [updateSummaries_get, left_describes.summary, right_describes.summary, ← totalImpact_append]
      split
      · rfl
      case isFalse other => exact others key other
    · rw [counted, empty]
      rfl

theorem totalImpact_eq_zero {docs : List Indexed} (untouched : ∀ d ∈ docs, key ∉ d.impactKeys) :
    totalImpact key docs = .zero := by
  induction docs with
  | nil => rfl
  | cons d rest ih =>
    rw [totalImpact_cons, recordImpact_other (untouched d mem_cons_self), combine_zero_left]
    exact ih fun x mem => untouched x (mem_cons_of_mem _ mem)

/-- Exchanging documents without the key leaves its summary. -/
theorem totalImpact_exchange {old new : List Indexed} (untouched : ∀ d ∈ old ++ new, key ∉ d.impactKeys) :
    totalImpact key (pre ++ old ++ post) = totalImpact key (pre ++ new ++ post) := by
  have ofOld : totalImpact key old = .zero := totalImpact_eq_zero fun d mem => untouched d (mem_append_left _ mem)
  have ofNew : totalImpact key new = .zero := totalImpact_eq_zero fun d mem => untouched d (mem_append_right _ mem)
  simp only [totalImpact_append, ofOld, ofNew]

theorem spanOf_succ (level : Nat) : spanOf (level + 1) = spanOf level + spanOf level := by
  unfold spanOf
  rw [pow_succ, ← Nat.mul_assoc, Nat.mul_two]

/-- One slot of a leaf is written. -/
theorem set_filterMap (inside : i < slots.length) (d : Option Indexed) :
    ∃ pre post, slots.reduceOption = pre ++ (slots[i]?).join.toList ++ post ∧
      (slots.set i d).reduceOption = pre ++ d.toList ++ post := by
  have one : ∀ slot : Option Indexed, [slot].reduceOption = slot.toList := by
    intro slot
    cases slot <;> rfl
  refine ⟨(slots.take i).reduceOption, (slots.drop (i + 1)).reduceOption, ?_, ?_⟩
  · rw [getElem?_eq_getElem inside, Option.join_some, ← one, ← reduceOption_append, ← reduceOption_append]
    congr 1
    simp
  · rw [← one, ← reduceOption_append, ← reduceOption_append, set_eq_take_append_cons_drop, if_pos inside]
    congr 1
    simp

/-- What `updateNode` does to a tree: one slot, and no other document. -/
structure Updated (level : Nat) (old new : Node) (i : Nat) (d : Option Indexed) : Prop where
  wellFormed : new.WellFormed level
  slot : ∀ k < spanOf level, new.get level k = if k = i then d else old.get level k
  docs : ∃ pre post, old.docs = pre ++ (old.get level i).toList ++ post ∧ new.docs = pre ++ d.toList ++ post

/-- The node above an updated child. -/
theorem makeBranch_updated
    (wf : old.WellFormed (level + 1)) (ofLeft : l.WellFormed level) (ofRight : r.WellFormed level)
    (touched : ∀ x ∈ (old.get (level + 1) i).toList ++ d.toList, ∀ key ∈ x.impactKeys, key ∈ keys)
    (named : ∀ x ∈ old.docs ++ d.toList, x.ref ≠ "")
    (before : old.docs = pre ++ (old.get (level + 1) i).toList ++ post) (after : l.docs ++ r.docs = pre ++ d.toList ++ post)
    (slot : ∀ k < spanOf (level + 1), (if k < spanOf level then l.get level k else r.get level (k - spanOf level)) =
      if k = i then d else old.get (level + 1) k) :
    Updated (level + 1) old (makeBranch l r keys old.info.summaries) i d := by
  have others : ∀ key ∉ keys, old.info.summaries.get key = entryOf (totalImpact key (l.docs ++ r.docs)) := by
    intro key other
    rw [wf.describes.summaries, before, after]
    exact congrArg entryOf (totalImpact_exchange fun x mem has => other (touched x mem key has))
  have all_named : ∀ x ∈ l.docs ++ r.docs, x.ref ≠ "" := by
    intro x mem
    apply named x
    rw [before]
    rw [after] at mem
    simp only [mem_append] at mem ⊢
    tauto
  obtain ⟨written, docs, slots⟩ := makeBranch_spec ofLeft ofRight all_named others
  exact ⟨written, fun k inside => (slots k).trans (slot k inside), pre, post, before, docs.trans after⟩

theorem updateNode_updated (wf : old.WellFormed level) {lo id : Nat} (low : lo ≤ id) (high : id < lo + spanOf level)
    (touched : ∀ x ∈ (old.get level (id - lo)).toList ++ d.toList, ∀ key ∈ x.impactKeys, key ∈ keys)
    (named : ∀ x ∈ old.docs ++ d.toList, x.ref ≠ "") :
    Updated level old (updateNode level old lo id d keys) (id - lo) d := by
  have summaries := wf.describes.summaries
  induction level generalizing old lo with
  | zero =>
    have inside : id - lo < old.slots.length := by
      rw [wf.slots_length]
      simp only [spanOf] at high
      omega
    obtain ⟨pre, post, before, after⟩ := set_filterMap inside d
    have length : (old.slots.set (id - lo) d).length = leafSize := by rw [length_set, wf.slots_length]
    have others : ∀ key ∉ keys, old.info.summaries.get key =
        entryOf (totalImpact key ((old.slots.set (id - lo) d).reduceOption)) := by
      intro key other
      rw [summaries, wf.docs_leaf, before, after]
      exact congrArg entryOf (totalImpact_exchange fun x mem has => other (touched x mem key has))
    obtain ⟨written, docs, slots⟩ := makeLeaf_spec length others
    refine ⟨written, fun k _ => ?_, pre, post, wf.docs_leaf.trans before, docs.trans after⟩
    change (makeLeaf _ _ _).get 0 k = _
    rw [slots, getElem?_set]
    by_cases here : id - lo = k
    · simp [here, here ▸ inside]
    · simp [here, Ne.symm here, Node.get]
  | succ level ih =>
    have split := wf.docs_branch
    have span := spanOf_succ level
    have all_named : ∀ child ∈ [old.left, old.right], ∀ x ∈ child.docs ++ d.toList, x.ref ≠ "" := by
      intro child mem x inside
      apply named x
      rw [split]
      simp only [mem_cons, not_mem_nil, or_false] at mem
      rcases mem with rfl | rfl <;> simp only [mem_append] at inside ⊢ <;> tauto
    simp only [updateNode]
    split
    case isTrue side =>
      have here : old.get (level + 1) (id - lo) = old.left.get level (id - lo) := if_pos (by omega)
      have child := ih wf.left low side (here ▸ touched) (all_named _ (by simp)) wf.left.describes.summaries
      obtain ⟨pre, post, before, after⟩ := child.docs
      have all_before : old.docs = pre ++ (old.get (level + 1) (id - lo)).toList ++ (post ++ old.right.docs) := by
        rw [split, before, here, append_assoc _ post]
      have all_after : (updateNode level old.left lo id d keys).docs ++ old.right.docs =
          pre ++ d.toList ++ (post ++ old.right.docs) := by
        rw [after, append_assoc _ post]
      refine makeBranch_updated wf child.wellFormed wf.right touched named all_before all_after fun k inside => ?_
      simp only [Node.get]
      split
      case isTrue first => exact child.slot k first
      case isFalse => rw [if_neg (by omega)]
    case isFalse side =>
      have here : old.get (level + 1) (id - lo) = old.right.get level (id - (lo + spanOf level)) := by
        rw [Node.get, if_neg (by omega)]
        congr 1
        omega
      have child := ih wf.right (by omega) (by omega) (here ▸ touched) (all_named _ (by simp)) wf.right.describes.summaries
      obtain ⟨pre, post, before, after⟩ := child.docs
      have all_before : old.docs = (old.left.docs ++ pre) ++ (old.get (level + 1) (id - lo)).toList ++ post := by
        rw [split, before, here]
        simp only [append_assoc]
      have all_after : old.left.docs ++ (updateNode level old.right (lo + spanOf level) id d keys).docs =
          (old.left.docs ++ pre) ++ d.toList ++ post := by
        rw [after]
        simp only [append_assoc]
      refine makeBranch_updated wf wf.left child.wellFormed touched named all_before all_after fun k inside => ?_
      simp only [Node.get]
      split
      case isTrue first => rw [if_neg (by omega)]
      case isFalse =>
        rw [child.slot _ (by omega)]
        congr 1
        exact propext ⟨fun eq => by omega, fun eq => by omega⟩

end Pagnet.Search
