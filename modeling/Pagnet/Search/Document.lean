import Pagnet.Data.Refusal
import Pagnet.Fabric.Reference

/-!
# Compact documents

`fabric/search/types.go`, and what `compact` of `backend.go` makes of a search
document: its terms with their frequencies, its filter keys, its length and the
size of its encoding. `tokenize`, `frequency` and `recordImpact` are those of
`index.go`.
-/

namespace Pagnet.Search
open Json Fabric

/-! ## The order of strings

It is decided on the characters, which `chars` finds faster than a decoder does. -/

theorem chars_lt {a b : String} : chars a < chars b ↔ a < b := by
  rw [chars_eq_toList, chars_eq_toList, String.lt_iff_toList_lt]

theorem chars_le {a b : String} : ¬chars b < chars a ↔ a ≤ b := by
  rw [chars_lt, not_lt]

instance stringLT : DecidableLT String := fun _ _ => decidable_of_iff _ chars_lt

instance stringLE : DecidableLE String := fun _ _ => decidable_of_iff _ chars_le

instance stringOrder : LinearOrder String :=
  { (inferInstance : PartialOrder String) with
    le_total := le_total
    toDecidableEq := inferInstance
    toDecidableLT := stringLT
    toDecidableLE := stringLE
    min := fun a b => if a ≤ b then a else b
    max := fun a b => if a ≤ b then b else a
    compare := fun a b => compareOfLessAndEq a b
    compare_eq_compareOfLessAndEq := fun _ _ => rfl }

/-! ## Limits -/

def maxDocuments : Nat := 1073741824

def maxDocumentBytes : Nat := 16384

def maxQueryTerms : Nat := 64

def leafSize : Nat := 32

def maxBatchDocuments : Nat := 4096

def maxCommitBytes : Nat := 67108864

def maxRevisions : Nat := 4294967296

/-- The errors of this package, and those of the callbacks it is given. -/
inductive Error where
  | invalidInput (message : String)
  | notFound (message : String)
  | protocolError (message : String)
  | staleGeneration
  | revisionConflict
  | unsupportedQuery
  | replayBeforeFloor
  /-- A time that has no encoding. -/
  | unencodable
  /-- The error of a callback. -/
  | callback (message : String)
  /-- What no run reaches: a panic, or a loop that does not end. -/
  | crash (message : String)
  deriving DecidableEq, Repr

/-- The code outside this repository that the index calls: the classes and the
lower case of `unicode`, and `sha256.Sum256`. -/
structure Library where
  unicodeVersion : String
  isLetter : Char → Bool
  isNumber : Char → Bool
  toLower : Char → Char
  sha256 : List UInt8 → Fin 32 → UInt8

variable (lib : Library)

/-- `hex.EncodeToString` of the digest of a text. -/
def Library.digest (text : Text) : String := hexEncode (lib.sha256 (bytesOf text))

/-- A digest as it is recorded: `hex.DecodeString` reads 32 bytes, and nothing is in upper case. -/
def validDigest (text : String) : Bool :=
  text.utf8ByteSize == 64 && (chars text).all isHex && (chars text).map Char.toLower == chars text

theorem validDigest_digest (text : Text) : validDigest (lib.digest text) := by
  have lower := lower_hexEncode (lib.sha256 (bytesOf text))
  simp only [validDigest, chars_eq_toList, Library.digest, size_hexEncode, Bool.and_eq_true, beq_iff_eq, List.all_eq_true, true_and]
  refine ⟨fun ch mem => isHex_of_lower (lower ch mem), ?_⟩
  conv_rhs => rw [← List.map_id (hexEncode _).toList]
  exact List.map_congr_left fun ch mem => (isLowerHex_char (lower ch mem)).1

/-- `fabric.Availability`. -/
structure Availability where
  state : String
  observedAt : Timestamp
  deriving DecidableEq

/-- `fabric.SearchDocument`. -/
structure SearchDocument where
  ref : EndpointRef
  revision : String
  name : String
  shortDescription : String
  kind : String
  tags : List String
  examples : List String
  schemaFingerprint : String
  provider : String
  availability : Option Availability
  deriving DecidableEq

namespace SearchDocument

def availabilityFields : Option Availability → List (String × Value)
  | none => []
  | some a => [("availability", .ofFields [("state", .ofString a.state), ("observedAt", a.observedAt.toJson)])]

def toJson (d : SearchDocument) : Value :=
  .ofFields ([("ref", .ofString d.ref.toString), ("revision", .ofString d.revision), ("name", .ofString d.name),
    ("shortDescription", .ofString d.shortDescription), ("kind", .ofString d.kind)] ++
    omitEmpty "tags" [] (fun tags => .ofList (tags.map .ofString)) d.tags ++
    omitEmpty "examples" [] (fun examples => .ofList (examples.map .ofString)) d.examples ++
    omitEmpty "schemaFingerprint" "" .ofString d.schemaFingerprint ++
    omitEmpty "provider" "" .ofString d.provider ++ availabilityFields d.availability)

/-- `MarshalJSON` of the only field that may fail. -/
def encodable (d : SearchDocument) : Bool := d.availability.all fun a => a.observedAt.encodable

end SearchDocument

/-- `strings.FieldsFunc`: the runs of characters that are not separators, with
the run that is being read. -/
def fieldsFunc (separator : Char → Bool) : Text → Text → List Text
  | run, [] => if run = [] then [] else [run]
  | run, c :: rest =>
    if separator c then
      if run = [] then fieldsFunc separator [] rest else run :: fieldsFunc separator [] rest
    else fieldsFunc separator (run ++ [c]) rest

def tokenize (text : String) : List String :=
  (fieldsFunc (fun c => !lib.isLetter c && !lib.isNumber c) [] (text.toList.map lib.toLower)).map String.ofList

/-- The values without those equal to the one in front of them. -/
def unique : List String → List String
  | [] => []
  | [s] => [s]
  | s :: s' :: rest => if s = s' then unique (s' :: rest) else s :: unique (s' :: rest)

/-- `sort.Strings`. -/
def sortStrings (values : List String) : List String := values.mergeSort fun a b => decide (a ≤ b)

structure Term where
  name : String
  tf : Nat
  deriving DecidableEq, Repr

/-- The tokens counted, in the order of their names. -/
def countTerms (tokens : List String) : List Term :=
  (unique (sortStrings tokens)).map fun name => ⟨name, tokens.count name⟩

/-- An indexed document. -/
structure Indexed where
  doc : SearchDocument
  terms : List Term
  keys : List String
  length : Nat
  encodedBytes : Nat
  deriving DecidableEq

/-- The searchable text of a document, token by token. -/
def documentTokens (d : SearchDocument) : List String :=
  ([d.name, d.shortDescription] ++ d.tags ++ d.examples).flatMap (tokenize lib)

def documentKeys (d : SearchDocument) : List String :=
  unique (sortStrings (["k:" ++ d.kind, "p:" ++ d.provider, "d:" ++ d.ref.domain] ++ d.tags.map ("g:" ++ ·)))

def indexDocument (d : SearchDocument) : Indexed where
  doc := d
  terms := countTerms (documentTokens lib d)
  keys := documentKeys d
  length := (documentTokens lib d).length
  encodedBytes := d.toJson.size

/-- The indexed form of a document and the digest of its encoding. -/
def compact (lib : Library) (d : SearchDocument) : Except Error (Indexed × String) := do
  refuse (parseEndpointRef d.ref.toString).isNone (.invalidInput "invalid canonical endpoint reference")
  refuse (d.revision == "" || 256 < d.revision.utf8ByteSize || !validNamespacedName d.kind || 32 < d.tags.length ||
    8 < d.examples.length) (.invalidInput "Invalid compact search document")
  refuse (!d.encodable) .unencodable
  refuse (maxDocumentBytes < d.toJson.size) (.invalidInput "Search document exceeds compact field budget")
  return (indexDocument lib d, lib.digest d.toJson.render)

/-- What a document adds to the summary of a key. -/
structure Impact where
  count : Nat
  maxTF : Nat
  minLength : Nat
  deriving DecidableEq, Repr

def Impact.zero : Impact := ⟨0, 0, 0⟩

/-- The frequency of a term: the first one not before `name`, as `sort.Search` finds it. -/
def frequency (terms : List Term) (name : String) : Nat :=
  match terms.find? fun t => decide (name ≤ t.name) with
  | some t => if t.name = name then t.tf else 0
  | none => 0

def termKey (name : String) : String := "t:" ++ name

/-- `strings.HasPrefix(key, "t:")`. -/
def isTermKey (key : String) : Bool := (chars key).take 2 == ['t', ':']

/-- `key[2:]`. -/
def termName (key : String) : String := String.ofList ((chars key).drop 2)

def recordImpact (d : Indexed) (key : String) : Impact :=
  if isTermKey key then
    let tf := frequency d.terms (termName key)
    if tf = 0 then .zero else ⟨1, tf, d.length⟩
  else
    match d.keys.find? fun k => decide (key ≤ k) with
    | some k => if k = key then ⟨1, 1, d.length⟩ else .zero
    | none => .zero

end Pagnet.Search
