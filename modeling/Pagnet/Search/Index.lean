import Pagnet.Data.Dictionary
import Pagnet.Search.Terms

/-!
# The summary tree

`fabric/search/index.go`: a binary tree over storage ids whose leaves hold 32
documents each, and whose nodes summarize the documents below them. A tree of
level `n` spans `leafSize * 2 ^ n` ids. The set of eligible ids has the same
shape. Immutable nodes are shared by the readers of older generations, so an
update is a new tree.
-/

namespace Pagnet.Search
open Json Fabric

def combine (a b : Impact) : Impact :=
  if a.count = 0 then b
  else if b.count = 0 then a
  else ⟨a.count + b.count, max a.maxTF b.maxTF, min a.minLength b.minLength⟩

/-- What a node knows of the documents below it. -/
structure Info where
  summaries : Dictionary String Impact
  minRef : String
  count : Nat

inductive Node where
  | nil
  | leaf (slots : List (Option Indexed)) (info : Info)
  | branch (left right : Node) (info : Info)

/-- The ids a tree of this level spans. -/
def spanOf (level : Nat) : Nat := leafSize * 2 ^ level

namespace Node

/-- A node that is not there summarizes nothing. -/
def info : Node → Info
  | nil => ⟨.empty, "", 0⟩
  | leaf _ info => info
  | branch _ _ info => info

def slots : Node → List (Option Indexed)
  | leaf slots _ => slots
  | _ => List.replicate leafSize none

def left : Node → Node
  | branch l _ _ => l
  | _ => nil

def right : Node → Node
  | branch _ r _ => r
  | _ => nil

end Node

def summary (n : Node) (key : String) : Impact := (n.info.summaries.get key).getD .zero

/-- An empty slot has no impact. -/
def slotImpact (slot : Option Indexed) (key : String) : Impact :=
  match slot with
  | none => .zero
  | some d => recordImpact d key

/-- The smaller reference; the empty text in front of it is none. -/
def lesserRef (acc ref : String) : String := if acc = "" ∨ ref < acc then ref else acc

def Indexed.ref (d : Indexed) : String := d.doc.ref.toString

def slotRef (acc : String) : Option Indexed → String
  | none => acc
  | some d => lesserRef acc d.ref

/-- The smallest reference so far and the one of another child. -/
def childRef (acc : String) (child : Node) : String :=
  if child.info.minRef = "" then acc else lesserRef acc child.info.minRef

/-- Recompute the summaries of the keys an update touches. -/
def updateSummaries (impact : String → Impact) (keys : List String) (summaries : Dictionary String Impact) :
    Dictionary String Impact :=
  keys.foldl (fun summaries key =>
    if (impact key).count = 0 then summaries.remove key else summaries.put key (impact key)) summaries

/-- The node of a leaf, unless nothing is left in it. -/
def makeLeaf (slots : List (Option Indexed)) (keys : List String) (summaries : Dictionary String Impact) : Node :=
  let count := slots.countP Option.isSome
  let minRef := slots.foldl slotRef ""
  let impact := fun key => slots.foldl (fun v slot => combine v (slotImpact slot key)) .zero
  if count = 0 then .nil else .leaf slots ⟨updateSummaries impact keys summaries, minRef, count⟩

/-- The node above two others, unless nothing is left in them. -/
def makeBranch (left right : Node) (keys : List String) (summaries : Dictionary String Impact) : Node :=
  let count := left.info.count + right.info.count
  let minRef := childRef (childRef "" left) right
  let impact := fun key => combine (summary left key) (summary right key)
  if count = 0 then .nil else .branch left right ⟨updateSummaries impact keys summaries, minRef, count⟩

/-- Write a slot and the summaries above it. -/
def updateNode : Nat → Node → Nat → Nat → Option Indexed → List String → Node
  | 0, old, lo, id, d, keys => makeLeaf (old.slots.set (id - lo) d) keys old.info.summaries
  | level + 1, old, lo, id, d, keys =>
    let half := spanOf level
    if id < lo + half then makeBranch (updateNode level old.left lo id d keys) old.right keys old.info.summaries
    else makeBranch old.left (updateNode level old.right (lo + half) id d keys) keys old.info.summaries

def keysUnion (a b : Option Indexed) : List String :=
  unique (sortStrings ((a.toList ++ b.toList).flatMap Indexed.impactKeys))

/-- The eligible ids: a bit for each id of a leaf. -/
inductive IdSet where
  | nil
  | leaf (bits count : Nat)
  | branch (left right : IdSet) (count : Nat)

namespace IdSet

def count : IdSet → Nat
  | nil => 0
  | leaf _ count => count
  | branch _ _ count => count

def left : IdSet → IdSet
  | branch l _ _ => l
  | _ => nil

def right : IdSet → IdSet
  | branch _ r _ => r
  | _ => nil

/-- The bits of a leaf. -/
def bits : IdSet → Nat
  | leaf bits _ => bits
  | _ => 0

end IdSet

def setAdd : Nat → IdSet → Nat → Nat → IdSet
  | 0, n, lo, id =>
    if n.bits.testBit (id - lo) then .leaf n.bits n.count else .leaf (n.bits ||| 1 <<< (id - lo)) (n.count + 1)
  | level + 1, n, lo, id =>
    let half := spanOf level
    let left := if id < lo + half then setAdd level n.left lo id else n.left
    let right := if id < lo + half then n.right else setAdd level n.right (lo + half) id
    .branch left right (left.count + right.count)

/-! ## Combining impacts -/

/-- An impact of no document is zero. -/
def Impact.Normal (v : Impact) : Prop := v.count = 0 → v = .zero

theorem recordImpact_count (d : Indexed) (key : String) : recordImpact d key = .zero ∨ (recordImpact d key).count = 1 := by
  unfold recordImpact
  split
  · dsimp only
    split
    · exact .inl rfl
    · exact .inr rfl
  · split
    · split
      · exact .inr rfl
      · exact .inl rfl
    · exact .inl rfl

theorem recordImpact_normal (d : Indexed) (key : String) : (recordImpact d key).Normal := by
  intro none_there
  rcases recordImpact_count d key with zeroed | one
  · exact zeroed
  · omega

@[simp] theorem combine_zero_left (v : Impact) : combine .zero v = v := rfl

theorem combine_zero_right {v : Impact} (normal : v.Normal) : combine v .zero = v := by
  unfold combine
  split
  case isTrue h => exact (normal h).symm
  case isFalse => simp [Impact.zero]

theorem combine_count (a b : Impact) : (combine a b).count = a.count + b.count := by
  unfold combine
  split
  · omega
  · split
    · omega
    · rfl

theorem combine_normal {a b : Impact} (ofA : a.Normal) (ofB : b.Normal) : (combine a b).Normal := by
  intro h
  rw [combine_count] at h
  rw [ofA (by omega), combine_zero_left]
  exact ofB (by omega)

theorem combine_assoc (a b c : Impact) : combine (combine a b) c = combine a (combine b c) := by
  by_cases ofA : a.count = 0
  · simp [combine, ofA]
  by_cases ofB : b.count = 0
  · simp [combine, ofA, ofB]
  by_cases ofC : c.count = 0
  · simp [combine, ofA, ofB, ofC]
  · simp [combine, ofA, ofB, ofC, Nat.add_assoc, max_assoc, min_assoc]

/-- The impact of a list of documents on a key. -/
def totalImpact (key : String) (docs : List Indexed) : Impact :=
  docs.foldl (fun v d => combine v (recordImpact d key)) .zero

theorem foldl_impact (key : String) (docs : List Indexed) {v : Impact} (normal : v.Normal) :
    docs.foldl (fun v d => combine v (recordImpact d key)) v = combine v (totalImpact key docs) := by
  induction docs generalizing v with
  | nil => exact (combine_zero_right normal).symm
  | cons d rest ih =>
    have one := recordImpact_normal d key
    have tail : totalImpact key (d :: rest) = combine (recordImpact d key) (totalImpact key rest) := ih one
    rw [List.foldl_cons, ih (combine_normal normal one), tail, combine_assoc]

theorem totalImpact_cons (key : String) (d : Indexed) (docs : List Indexed) :
    totalImpact key (d :: docs) = combine (recordImpact d key) (totalImpact key docs) :=
  foldl_impact key docs (recordImpact_normal d key)

theorem totalImpact_normal (key : String) (docs : List Indexed) : (totalImpact key docs).Normal := by
  induction docs with
  | nil => exact fun _ => rfl
  | cons d rest ih =>
    rw [totalImpact_cons]
    exact combine_normal (recordImpact_normal d key) ih

theorem totalImpact_append (key : String) (a b : List Indexed) :
    totalImpact key (a ++ b) = combine (totalImpact key a) (totalImpact key b) := by
  unfold totalImpact
  rw [List.foldl_append]
  exact foldl_impact key b (totalImpact_normal key a)

end Pagnet.Search
