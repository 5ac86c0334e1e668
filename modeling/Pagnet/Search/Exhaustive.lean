import Pagnet.Search.Query

/-!
# Exhaustive ranking

What a search is for, without the index: score every visible document that
passes the filters and has the terms, and sort. The statistics are counted in
the visible documents themselves.
-/

namespace Pagnet.Search
open Json Fabric

/-! ## Statistics and matches -/

/-- The number of documents with a token. -/
def documentFrequency (lib : Library) (docs : List SearchDocument) (name : String) : Nat :=
  docs.countP fun d => decide (name ∈ documentTokens lib d)

/-- The number of tokens of all documents. -/
def corpusLength (lib : Library) (docs : List SearchDocument) : Nat := (docs.map fun d => (documentTokens lib d).length).sum

/-- One of the values a filter asks for, if it asks for any. -/
def passesFilter (wanted has : List String) : Bool := wanted.isEmpty || wanted.any fun value => decide (value ∈ has)

def passesFilters (r : DiscoverRequest) (d : SearchDocument) : Bool :=
  passesFilter r.kinds [d.kind] && passesFilter r.tags d.tags && passesFilter r.providers [d.provider] &&
    passesFilter r.domains [d.ref.domain]

/-- One token of the query, or all of them. -/
def matchesQuery (lib : Library) (operator : Operator) (query : String) (d : SearchDocument) : Bool :=
  (tokenize lib query).any (fun name => decide (name ∈ documentTokens lib d)) &&
    (operator != .and || (tokenize lib query).all fun name => decide (name ∈ documentTokens lib d))

variable {S : Type} [Field S]

/-- The score of a document among these ones. -/
def exactScore (c : Config S) (docs : List SearchDocument) (query : String) (d : SearchDocument) : S :=
  ((countTerms (tokenize c.lib query)).map fun t =>
    contribution (termConstant c.scalar t.tf docs.length (documentFrequency c.lib docs t.name) * (c.parameters.k1 + 1))
      c.parameters.k1 c.parameters.b (corpusLength c.lib docs / docs.length) (documentTokens c.lib d).length
      ((documentTokens c.lib d).count t.name)).sum

/-- The matching documents with their scores. -/
def matching (c : Config S) (r : DiscoverRequest) (operator : Operator) (docs : List SearchDocument) : List (Candidate S) :=
  (docs.filter fun d => passesFilters r d && matchesQuery c.lib operator r.query d).map fun d =>
    ⟨d, exactScore c docs r.query d⟩

variable [LinearOrder S]

/-- Greater scores first, then smaller references. -/
def inOrder (a b : Candidate S) : Bool :=
  decide (b.score < a.score) || (decide (a.score = b.score) && decide (a.document.ref.toString ≤ b.document.ref.toString))

/-- Not on a page up to this position. -/
def isAfter (after : Option (S × String)) (x : Candidate S) : Bool :=
  !after.any fun (score, ref) =>
    decide (score < x.score) || (decide (x.score = score) && decide (x.document.ref.toString ≤ ref))

/-- All results of a request, from a position on. -/
def ranking (c : Config S) (r : DiscoverRequest) (operator : Operator) (docs : List SearchDocument)
    (after : Option (S × String)) : List (Candidate S) :=
  ((matching c r operator docs).filter (isAfter after)).mergeSort inOrder

/-- The first results, and a cursor if there are more. -/
def firstPage (codec : CursorCodec S) (number limit : Nat) (hash authority : String) (ranked : List (Candidate S)) :
    DiscoverResult S where
  candidates := ranked.take limit
  indexRevision := "lex-v1:" ++ toString number
  nextCursor :=
    if limit < ranked.length then
      match ranked[limit - 1]? with
      | none => ""
      | some last => codec.encode ⟨number, hash, authority, some last.score, last.document.ref.toString⟩
    else ""

/-- The search of a generation with these visible documents. -/
def exhaustiveSearch (c : Config S) (codec : CursorCodec S) (number : Nat) (docs : List SearchDocument)
    (authority visibilityKey : String) (r : DiscoverRequest) (operator : String) (finalValidate : Except String Unit) :
    Except Error (DiscoverResult S) :=
  match r.validate with
  | .error message => .error (.invalidInput message)
  | .ok () =>
    match parseOperator operator with
    | none => .error .unsupportedQuery
    | some operator => do
      refuse (unsupported r.query) .unsupportedQuery
      refuse (maxQueryTerms < (countTerms (tokenize c.lib r.query)).length)
        (.invalidInput "Too many lexical query terms")
      let hash := queryHash c r operator visibilityKey
      let after ← readCursor codec number hash authority r.cursor
      match finalValidate with
      | .error message => .error (.callback message)
      | .ok () => return firstPage codec number r.limit hash authority (ranking c r operator docs after)

end Pagnet.Search
