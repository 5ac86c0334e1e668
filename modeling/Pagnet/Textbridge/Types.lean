import Pagnet.Data.Relation
import Pagnet.Data.Transaction
import Pagnet.Json.Fields

/-!
# The text bridge ledger

The rows of the private ledger of `internal/textbridge/ledger`. A job's data is
sealed as JSON; the seal is the document with what it authenticates, and it opens
for that only. The documents in a job, `Header` and `Receipt`, are texts; other
strings are Go strings, whose bytes need not be valid UTF-8.
-/

namespace Pagnet.Textbridge
open Json

/-- What a call is refused with. -/
inductive Error where
  | invalid
  | conflict
  | stale (reason : String)
  | disabled
  | limit (name : String)
  /-- `sql.ErrNoRows`. -/
  | noRows
  /-- An error of the JSON codec. -/
  | malformed
  | unauthentic
  /-- The random source failed. -/
  | random
  /-- The database failed; a write may have been made. -/
  | database
  deriving DecidableEq, Repr

/-- `Phase`; other strings are refused wherever a phase is written. -/
inductive Phase where
  | queued
  | providerStarted
  | outputReady
  | replyPreparing
  | replyPrepared
  | admitted
  | unknown
  | rejected
  deriving DecidableEq, Repr

/-- `Data`; the receipt is `none` when the slice is nil. -/
structure Data where
  header : Text
  predecessorWire : List UInt8
  wireDigest : GoString
  input : List UInt8
  providerConfigFingerprint : GoString
  output : List UInt8
  replyID : GoString
  replyDigest : GoString
  receipt : Option Text
  deriving DecidableEq, Repr

structure Job where
  projectID : GoString
  askID : GoString
  revision : Int
  phase : Phase
  revoked : Bool
  data : Data
  deriving DecidableEq, Repr

/-- `Limits`. -/
structure Limits where
  callsPerDay : Int
  maxConcurrent : Int
  deriving DecidableEq, Repr

def Limits.valid (l : Limits) : Bool := 0 < l.callsPerDay && 0 < l.maxConcurrent

/-- What a store works with. `Open` refuses limits that are not valid. -/
structure Config where
  limits : Limits
  valid : limits.valid
  sha256 : List UInt8 → Fin 32 → UInt8

def maxInt64 : Int := 9223372036854775807

/-- `n + 1` in 64 bits. -/
def increment (n : Int) : Int := (n + 1).bmod (2 ^ 64)

/-! ## Sealed jobs -/

/-- `validDigest`: the hexadecimal text of 32 bytes. -/
def validDigest (s : GoString) : Bool := s.length == 64 && s.all fun
  | .inl c => isHex c
  | .inr _ => false

/-- No bytes. -/
def emptyReceipt (receipt : Option Text) : Bool := receipt.all List.isEmpty

/-- `validData`. -/
def validData (c : Config) (d : Data) : Bool :=
  d.predecessorWire != [] && d.wireDigest == GoString.ofString (hexEncode (c.sha256 d.predecessorWire)) &&
    Json.valid d.header && (emptyReceipt d.receipt || d.receipt.any Json.valid) &&
    (d.replyDigest == [] || validDigest d.replyDigest)

/-- A nil message is written as `null`. -/
def marshalReceipt : Option Text → Option Value
  | none => some .null
  | some text => marshalRaw text

/-- The fields of a job's document. -/
def Data.fields (d : Data) (header receipt : Value) : List (String × Value) :=
  [("Header", header), ("PredecessorWire", .ofSlice d.predecessorWire), ("WireDigest", .ofGoString d.wireDigest),
    ("Input", .ofSlice d.input), ("ProviderConfigFingerprint", .ofGoString d.providerConfigFingerprint),
    ("Output", .ofSlice d.output), ("ReplyID", .ofGoString d.replyID), ("ReplyDigest", .ofGoString d.replyDigest),
    ("Receipt", receipt)]

/-- `json.Marshal` of a job's data. A raw message counts into the depth of the object around it. -/
def marshal (d : Data) : Option Value := do
  let header ← marshalRaw d.header
  let receipt ← marshalReceipt d.receipt
  let document := Value.ofFields (d.fields header receipt)
  if maxNestingDepth < document.depth then none else some document

/-- `json.Unmarshal` of a job's data: a raw message is the text that stands in the document. -/
def unmarshal : Value → Option Data
  | .object members =>
    if maxNestingDepth < (Value.object members).depth then none
    else do
      let header ← member? "Header" members
      let predecessorWire ← (member? "PredecessorWire" members).bind Value.bytes?
      let wireDigest ← (member? "WireDigest" members).bind Value.goString?
      let input ← (member? "Input" members).bind Value.bytes?
      let fingerprint ← (member? "ProviderConfigFingerprint" members).bind Value.goString?
      let output ← (member? "Output" members).bind Value.bytes?
      let replyID ← (member? "ReplyID" members).bind Value.goString?
      let replyDigest ← (member? "ReplyDigest" members).bind Value.goString?
      let receipt ← member? "Receipt" members
      return ⟨header.render, predecessorWire, wireDigest, input, fingerprint, output, replyID, replyDigest,
        some receipt.render⟩
  | _ => none

/-- A job's data under the seal, with what the seal authenticates: `jobAAD`, which is encoded as JSON too. -/
structure Sealed where
  projectID : GoString
  askID : GoString
  revision : Int
  phase : Phase
  revoked : Bool
  plain : Value

/-! ## Tables -/

abbrev JobKey := GoString × GoString

/-- A row of `jobs`. -/
structure JobRow where
  projectID : GoString
  askID : GoString
  revision : Int
  phase : Phase
  revoked : Bool
  sealed : Sealed

def JobRow.key (row : JobRow) : JobKey := (row.projectID, row.askID)

def Job.key (j : Job) : JobKey := (j.projectID, j.askID)

/-- An entry of `Active`. -/
structure Active where
  token : GoString
  projectID : GoString
  askID : GoString
  deriving DecidableEq, Repr

def Active.claim (a : Active) : JobKey := (a.projectID, a.askID)

/-- `budgetState`. A day is counted from the first one of year 1, which orders days as their texts are ordered while the
year has four digits; `none` is the empty text. -/
structure Budget where
  limits : Limits
  enabled : Bool
  day : Option Int
  calls : Int
  active : Relation Active GoString Active.token

/-- The database. The budget's row has its revision, which its seal authenticates. -/
structure Store where
  jobs : Relation JobRow JobKey JobRow.key
  revision : Int
  budget : Budget

/-- A new ledger. -/
def Store.initial (c : Config) : Store := ⟨.empty, 1, ⟨c.limits, true, none, 0, .empty⟩⟩

end Pagnet.Textbridge
