import Mathlib.Algebra.Order.Field.Basic
import Pagnet.Data.TopK
import Pagnet.Fabric.Discovery
import Pagnet.Search.Publication

/-!
# Queries

`fabric/search/query.go`: a search goes through the tree of summaries best
bound first and leaves out what cannot reach the page any more. The two heaps
are lists from which `heap.Pop` takes the least element. Scores are in an
ordered field in the place of `float64`.
-/

namespace Pagnet.Search
open Json Fabric

inductive Operator where
  | or
  | and
  deriving DecidableEq, Repr

/-- `Options.Operator`; the empty text is the default. -/
def parseOperator (text : String) : Option Operator :=
  if text = "" ∨ text = "or" then some .or else if text = "and" then some .and else none

def Operator.text : Operator → String
  | or => "or"
  | and => "and"

variable {S : Type}

structure QueryTerm (S : Type) where
  name : String
  constant : S

structure Ranked (S : Type) where
  record : Indexed
  score : S

def Ranked.ref (a : Ranked S) : String := a.record.ref

/-- A subtree that is still to be looked at. -/
structure Branch (S : Type) where
  node : Node
  eligible : IdSet
  level : Nat
  bound : S

/-- The position a page starts after. The score is none for bits that are not a number. -/
structure PageCursor (S : Type) where
  generation : Nat
  query : String
  visibility : String
  score : Option S
  ref : String

/-- The text of a cursor: `encode` is base64 of its JSON, and `decode` fails with
one error for bad base64 and with another for bad JSON. -/
structure CursorCodec (S : Type) where
  encode : PageCursor S → String
  decode : String → Except Error (PageCursor S)
  encode_ne : ∀ cursor, encode cursor ≠ ""

/-- What a search is about, once its query is built. -/
structure Query (S : Type) where
  terms : List (QueryTerm S)
  groups : List (List String)
  parameters : Parameters S
  avg : S
  operator : Operator
  isScoped : Bool
  k : Nat
  after : Option (S × String)

structure Candidate (S : Type) where
  document : SearchDocument
  score : S
  deriving DecidableEq

structure DiscoverResult (S : Type) where
  candidates : List (Candidate S)
  indexRevision : String
  nextCursor : String
  deriving DecidableEq

/-- The options of a search, with what `FinalValidate` answers. -/
structure Options where
  operator : String
  visibility : Option Visibility
  finalValidate : Except String Unit

/-! ## Terms -/

def unsupported (query : String) : Bool := query.toList.any fun ch => ch == '"' || ch == '\x00' || ch == ':'

def filterGroup (key : String) (values : List String) : List (List String) :=
  if values = [] then [] else [values.map (key ++ ·)]

/-- The filters of a request; a document has to match one key of each group. -/
def filterGroups (r : DiscoverRequest) : List (List String) :=
  filterGroup "k:" r.kinds ++ filterGroup "g:" r.tags ++ filterGroup "p:" r.providers ++ filterGroup "d:" r.domains

/-- `queryFrequency`: the place of a name by bisection. -/
def bisect (terms : List Term) (name : String) : Nat → Nat → Nat → Nat
  | 0, lo, _ => lo
  | fuel + 1, lo, hi =>
    if lo < hi then
      let mid := lo + (hi - lo) / 2
      if ((terms[mid]?).map (·.name)).any (· < name) then bisect terms name fuel (mid + 1) hi
      else bisect terms name fuel lo mid
    else lo

def queryFrequency (terms : List Term) (name : String) : Nat :=
  match terms[bisect terms name terms.length 0 terms.length]? with
  | some t => if t.name = name then t.tf else 0
  | none => 0

section Scores
variable [Field S] [LinearOrder S]

def contribution (constant k1 b avg : S) (length tf : Nat) : S :=
  if tf = 0 then 0 else constant / (1 + k1 * ((1 - b) + b * (length / avg)) / tf)

/-- The weight of a term that `df` of `count` documents have. -/
def termConstant (scalar : Scalar S) (weight count df : Nat) : S :=
  weight * scalar.log1p (((count - df : Nat) + 1 / 2) / (df + 1 / 2))

def buildTerm (scalar : Scalar S) (stats : Corpus) (t : Term) : Except Error (QueryTerm S) :=
  let df := (stats.df.get t.name).getD 0
  if stats.count < df then .error (.protocolError "Invalid visible corpus statistics")
  else .ok ⟨t.name, termConstant scalar t.tf stats.count df⟩

def buildQuery (c : Config S) (text : String) (stats : Corpus) : Except Error (List (QueryTerm S)) := do
  refuse (unsupported text) .unsupportedQuery
  let weights := countTerms (tokenize c.lib text)
  refuse (maxQueryTerms < weights.length) (.invalidInput "Too many lexical query terms")
  weights.mapM (buildTerm c.scalar stats)

/-- The contribution of one term of the search. -/
def Query.contribution (q : Query S) (t : QueryTerm S) (length tf : Nat) : S :=
  Search.contribution (t.constant * (q.parameters.k1 + 1)) q.parameters.k1 q.parameters.b q.avg length tf

/-! ## Bounds -/

/-- The bound of the terms that are left; none if nothing below the node can match. -/
def boundTerms (q : Query S) (n : Node) : List (QueryTerm S) → S → Bool → Option S
  | [], score, any => if any then some score else none
  | t :: rest, score, any =>
    let v := summary n (termKey t.name)
    if v.count = 0 then
      if q.operator = .and then none else boundTerms q n rest score any
    else boundTerms q n rest (score + q.contribution t v.minLength v.maxTF) true

variable (q : Query S)

def nodeBound (n : Node) : Option S := boundTerms q n q.terms 0 false

def nodeFilter (n : Node) (groups : List (List String)) : Bool :=
  groups.all fun group => group.any fun key => decide (0 < (summary n key).count)

def documentFilter (d : Indexed) (groups : List (List String)) : Bool :=
  groups.all fun group => group.any fun key => decide (0 < (recordImpact d key).count)

def better (a b : Ranked S) : Bool := decide (b.score < a.score) || (decide (a.score = b.score) && decide (a.ref < b.ref))

/-- The winner that leaves first, `h[0]`. -/
def worst (winners : List (Ranked S)) : Option (Ranked S) := (popMin (fun a b => better b a) winners).map (·.1)

/-- A subtree with this bound may still hold a winner. -/
def competitive (bound : S) (minRef : String) (winners : List (Ranked S)) (k : Nat) : Bool :=
  if winners.length < k then true
  else
    match worst winners with
    | none => true
    | some w => !decide (bound < w.score) && !(decide (bound = w.score) && decide (w.ref ≤ minRef))

/-- The order of the frontier. -/
def sooner (a b : Branch S) : Bool :=
  decide (b.bound < a.bound) || (decide (a.bound = b.bound) && decide (a.node.info.minRef < b.node.info.minRef))

/-! ## The search -/

/-- Put a subtree on the frontier, unless it can be left out. -/
def push (winners : List (Ranked S)) (n : Node) (set : IdSet) (level : Nat) (front : List (Branch S)) :
    List (Branch S) :=
  match n with
  | .nil => front
  | _ =>
    if q.isScoped && set.count == 0 then front
    else if !nodeFilter n q.groups then front
    else
      match nodeBound q n with
      | none => front
      | some bound => if competitive bound n.info.minRef winners q.k then ⟨n, set, level, bound⟩ :: front else front

def scoreDocument (d : Indexed) : S :=
  q.terms.foldl (fun score t => score + q.contribution t d.length (queryFrequency d.terms t.name)) 0

/-- The document has one of the terms, or all of them. -/
def termsMatch (d : Indexed) : Bool :=
  (q.terms.any fun t => decide (0 < queryFrequency d.terms t.name)) &&
    (q.operator != .and || q.terms.all fun t => decide (0 < queryFrequency d.terms t.name))

/-- The hit was on an earlier page. -/
def beforePage (hit : Ranked S) : Bool :=
  q.after.any fun (score, ref) => decide (score < hit.score) || (decide (hit.score = score) && decide (hit.ref ≤ ref))

/-- Look at one slot of a leaf. -/
def scanSlot (set : IdSet) (winners : List (Ranked S)) (slot : Option Indexed × Nat) : List (Ranked S) :=
  match slot.1 with
  | none => winners
  | some d =>
    if q.isScoped && !set.bits.testBit slot.2 then winners
    else if !documentFilter d q.groups then winners
    else if !termsMatch q d then winners
    else
      let hit : Ranked S := ⟨d, scoreDocument q d⟩
      if beforePage q hit then winners else keep better q.k winners hit

/-- Take the best subtree of the frontier until none is left. Every turn takes a
node of the tree, so their number is enough fuel. -/
def explore (q : Query S) : Nat → List (Branch S) → List (Ranked S) → Except Error (List (Ranked S))
  | 0, _, _ => .error (.crash "out of fuel")
  | fuel + 1, front, winners =>
    match popMin sooner front with
    | none => .ok winners
    | some (entry, rest) =>
      if !competitive entry.bound entry.node.info.minRef winners q.k then explore q fuel rest winners
      else
        match entry.level with
        | 0 => explore q fuel rest (entry.node.slots.zipIdx.foldl (scanSlot q entry.eligible) winners)
        | level + 1 =>
          let front := push q winners entry.node.left entry.eligible.left level rest
          explore q fuel (push q winners entry.node.right entry.eligible.right level front) winners

def Node.isNil : Node → Bool
  | nil => true
  | _ => false

/-- The number of nodes of a tree. -/
def Node.nodeCount : Node → Nat
  | nil => 0
  | leaf _ _ => 1
  | branch l r _ => l.nodeCount + r.nodeCount + 1

def revisionText (g : Generation) : String := "lex-v1:" ++ toString g.number

/-- The digest of what a page belongs to. -/
def queryHash (c : Config S) (r : DiscoverRequest) (operator : Operator) (visibilityKey : String) : String :=
  c.lib.digest (Value.ofFields [("Request", { r with cursor := "" }.toJson), ("Operator", .ofString operator.text),
    ("Tokenizer", .ofString c.lib.tokenizerVersion), ("Parameters", c.parameters.toJson c.scalar),
    ("Visibility", .ofString visibilityKey)]).render

/-- The position of a cursor that belongs to this query. -/
def readCursor (codec : CursorCodec S) (number : Nat) (hash authority : String) (text : String) :
    Except Error (Option (S × String)) :=
  if text = "" then .ok none
  else do
    let cursor ← codec.decode text
    refuse (cursor.generation != number || cursor.query != hash || cursor.visibility != authority) .staleGeneration
    match cursor.score with
    | none => .error (.invalidInput "Invalid search cursor boundary")
    | some score =>
      refuse (parseEndpointRef cursor.ref).isNone (.invalidInput "Invalid search cursor boundary")
      return some (score, cursor.ref)

/-- The statistics, the eligible ids, the authority and the fingerprint of a search. -/
def scopeOf (p : Pointer) (visibility : Option Visibility) : Except Error (Corpus × IdSet × String × String) :=
  match visibility with
  | none => .ok (p.generation.stats, .nil, "", "")
  | some v => do
    refuse (v.generation != p.address) .staleGeneration
    return (v.stats, v.set, v.authorityRevision, v.fingerprint)

/-- The hits of the page and of the next one's first. -/
def findWinners (g : Generation) (eligible : IdSet) : Except Error (List (Ranked S)) := do
  let winners ← explore q (g.root.nodeCount + 1) (push q [] g.root eligible g.level []) []
  return winners.mergeSort fun a b => !better b a

/-- The page of the hits, with a cursor if there are more. -/
def makePage (codec : CursorCodec S) (g : Generation) (limit : Nat) (hash authority : String) (hits : List (Ranked S)) :
    DiscoverResult S where
  candidates := (hits.take limit).map fun hit => ⟨hit.record.doc, hit.score⟩
  indexRevision := revisionText g
  nextCursor :=
    if limit < hits.length then
      match hits[limit - 1]? with
      | none => ""
      | some last => codec.encode ⟨g.number, hash, authority, some last.score, last.ref⟩
    else ""

/-- The hits of a query on these statistics. -/
def runQuery (c : Config S) (g : Generation) (r : DiscoverRequest) (operator : Operator) (terms : List (QueryTerm S))
    (stats : Corpus) (scope : Option IdSet) (after : Option (S × String)) : Except Error (List (Ranked S)) :=
  if g.root.isNil || stats.count == 0 || terms.isEmpty || stats.totalLength == 0 then .ok []
  else
    findWinners { terms, groups := filterGroups r, parameters := c.parameters, avg := stats.totalLength / stats.count,
                  operator, isScoped := scope.isSome, k := r.limit + 1, after } g (scope.getD .nil)

/-- `SearchWithOptions` on the generation that is current when it starts, with
the address of the one that is current when it ends. -/
def searchWithOptions (c : Config S) (codec : CursorCodec S) (p : Pointer) (r : DiscoverRequest) (options : Options)
    (final : Nat) : Except Error (DiscoverResult S) := do
  match r.validate with
  | .error message => .error (.invalidInput message)
  | .ok () =>
    match parseOperator options.operator with
    | none => .error .unsupportedQuery
    | some operator => do
      let (stats, set, authority, visibilityKey) ← scopeOf p options.visibility
      let terms ← buildQuery c r.query stats
      let hash := queryHash c r operator visibilityKey
      let after ← readCursor codec p.generation.number hash authority r.cursor
      let hits ← runQuery c p.generation r operator terms stats (options.visibility.map fun _ => set) after
      match options.finalValidate with
      | .error message => .error (.callback message)
      | .ok () =>
        refuse (options.visibility.isSome && final != p.address) .staleGeneration
        return makePage codec p.generation r.limit hash authority hits

end Scores

end Pagnet.Search
