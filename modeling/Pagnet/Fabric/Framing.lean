import Mathlib.Data.Fintype.Pi
import Pagnet.Data.Framing
import Pagnet.Data.Refusal
import Pagnet.Fabric.Reference
import Pagnet.Json.Encoding

/-!
# Signing frames

The frames of `fabric/framing.go`, `fabric/control_frame.go` and
`fabric/forward_frame.go`, and the bytes that are signed for them. The texts of a
frame are Go strings, of which nothing but their bytes is known before they are
checked.
-/

namespace Pagnet.Signing
open Json Fabric

/-- A Go string. -/
abbrev Bytes := List UInt8

abbrev Digest := Fin 32 → UInt8

inductive ErrorCode
  | invalidInput
  | unauthenticated
  deriving DecidableEq, Repr

structure Error where
  code : ErrorCode
  message : String
  deriving DecidableEq, Repr

def referenceInputError (message : String) : Error := ⟨.invalidInput, message⟩

/-! ## Texts -/

/-- The bytes of a text. -/
def utf8 (s : String) : Bytes := bytesOf (chars s)

/-- The text of bytes that are valid UTF-8. -/
def text? (bytes : Bytes) : Option String := String.fromUTF8? ⟨bytes.toArray⟩

/-- A check that no byte string passes which is not UTF-8. -/
def passes (check : String → Bool) (bytes : Bytes) : Bool := (text? bytes).any check

def maxSigningFrameBytes : Nat := 64 * 1024
def maxSigningTextBytes : Nat := 4 * 1024

def validSigningText (text : Bytes) (optional : Bool) : Bool :=
  text.length ≤ maxSigningTextBytes && (optional || text != []) && (text? text).isSome

/-- `hex.DecodeString` takes capitals too, which `hex.EncodeToString` does not give back. -/
def forwardStoreID (id : String) : Bool := (chars id).length == 64 && (chars id).all isLowerHex

/-- The days from January 1 of year 1. -/
def daysOf (year month day : Nat) : Int :=
  let y : Int := if month ≤ 2 then year - 1 else year
  let doy : Int := (153 * ((month + 9) % 12) + 2) / 5 + day - 1
  y / 400 * 146097 + (y % 400 * 365 + y % 400 / 4 - y % 400 / 100 + doy) - 306

def daysIn (month year : Nat) : Nat :=
  if month = 2 then (if year % 4 = 0 ∧ (year % 100 ≠ 0 ∨ year % 400 = 0) then 29 else 28)
  else if month = 4 ∨ month = 6 ∨ month = 9 ∨ month = 11 then 30 else 31

/-- The number in the first `width` characters. -/
def number (width low high : Nat) (s : Text) : Option (Nat × Text) :=
  let digits := s.take width
  let n := digits.foldl (fun n c => 10 * n + (c.toNat - '0'.toNat)) 0
  if digits.length = width ∧ digits.all Char.isDigit ∧ low ≤ n ∧ n ≤ high then some (n, s.drop width) else none

def skip (c : Char) : Text → Option Text
  | [] => none
  | d :: s => if d = c then some s else none

/-- Nine digits of the fraction count, the others are cut off. -/
def parseFraction : Text → Int × Text
  | '.' :: d :: s =>
    if d.isDigit then
      let digits := d :: s.takeWhile Char.isDigit
      (((digits ++ List.replicate 9 '0').take 9).foldl (fun n c => 10 * n + (c.toNat - '0'.toNat : Nat)) 0,
        s.dropWhile Char.isDigit)
    else (0, '.' :: d :: s)
  | s => (0, s)

/-- The offset of a zone in minutes. -/
def parseZone : Text → Option Int
  | ['Z'] => some 0
  | sign :: s => do
    let (hours, s) ← number 2 0 23 s
    let s ← skip ':' s
    let (minutes, s) ← number 2 0 59 s
    let offset : Int := hours * 60 + minutes
    if s ≠ [] then none
    else if sign = '+' then some offset else if sign = '-' then some (-offset) else none
  | [] => none

/-- `time.Parse` of RFC 3339 with nanoseconds. The laxer forms that it takes as well
are formatted to other texts. -/
def parseTime (s : Text) : Option Timestamp := do
  let (year, s) ← number 4 0 9999 s
  let s ← skip '-' s
  let (month, s) ← number 2 1 12 s
  let s ← skip '-' s
  let (day, s) ← number 2 1 (daysIn month year) s
  let s ← skip 'T' s
  let (hour, s) ← number 2 0 23 s
  let s ← skip ':' s
  let (minute, s) ← number 2 0 59 s
  let s ← skip ':' s
  let (second, s) ← number 2 0 59 s
  let (nanos, s) := parseFraction s
  let offset ← parseZone s
  let clock : Int := hour * 3600 + (minute - offset) * 60 + second
  some ⟨(daysOf year month day * 86400 + clock) * 1000000000 + nanos, offset⟩

/-- The time of a text; the zero time for one that is none. -/
def timeOf (text : Bytes) : Timestamp := ((text? text).bind fun s => parseTime (chars s)).getD ⟨0, 0⟩

/-- A time in its one canonical form, or no time. -/
def validSigningDeadline (text : Bytes) : Bool :=
  text == [] || validSigningText text false &&
    ((text? text).bind fun s => parseTime (chars s)).any fun t => bytesOf t.utc.format == text

/-! ## Fields -/

def signingCounter (value : UInt64) : Bytes := bigEndian 8 value.toNat

/-- The size after one more field. -/
def addField (size : Nat) (field : Bytes) : Except Error Nat := do
  refuse (maxSigningTextBytes < field.length || maxSigningFrameBytes < size + 4 + field.length)
    (referenceInputError "signing frame exceeds bounds")
  return size + 4 + field.length

def encodeSigningFields (purpose : String) (fields : List Bytes) : Except Error Bytes := do
  let _ ← fields.foldlM addField ((utf8 purpose).length + 1)
  return utf8 purpose ++ 0 :: frame 4 fields

/-- The loop of `decodeSigningFields` behind the purpose. -/
def readFields : Nat → Bytes → Except Error (List Bytes)
  | 0, raw => do
    refuse (raw != []) (referenceInputError "signing frame contains trailing fields or bytes")
    return []
  | count + 1, raw => do
    refuse (raw.length < 4) (referenceInputError "truncated signing frame")
    let size := ofBigEndian (raw.take 4)
    let raw := raw.drop 4
    refuse (maxSigningTextBytes < size || raw.length < size) (referenceInputError "invalid signing field length")
    let fields ← readFields count (raw.drop size)
    return raw.take size :: fields

def decodeSigningFields (raw : Bytes) (purpose : String) (count : Nat) : Except Error (List Bytes) := do
  let head := utf8 purpose ++ [0]
  refuse (maxSigningFrameBytes < raw.length || raw.take head.length != head)
    (referenceInputError "invalid signing frame purpose or bounds")
  readFields count (raw.drop head.length)

def copySigningDigest (field : Bytes) : Option Digest :=
  if field.length = 32 then some fun i => field.getD i 0 else none

def decodeSigningCounter (field : Bytes) : Option UInt64 :=
  if field.length = 8 then some (UInt64.ofNat (ofBigEndian field)) |>.filter (0 < ·) else none

/-- What an absent value is refused with. -/
def orRefuse {α : Type} (message : String) : Option α → Except Error α
  | some a => .ok a
  | none => .error (referenceInputError message)

/-- What `ParseEndpointRef` refuses a text with. -/
def referenceRefusal (text : String) : String :=
  let cs := text.toList
  if (cs.length != 118 && cs.length != 173) || cs.take 9 != referencePrefix.toList ||
      !canonicalDomainNamespace (String.ofList ((cs.drop 9).take 54)) || (cs.drop 63).take 3 != "/e/".toList then
    "invalid canonical endpoint reference"
  else if !canonicalReferenceID (String.ofList ((cs.drop 66).take 52)) then "invalid canonical endpoint identity"
  else "invalid canonical offer reference"

/-- `ParseEndpointRef` of a Go string. -/
def parseReference (text : Bytes) : Except Error EndpointRef :=
  match text? text with
  | some s => orRefuse (referenceRefusal s) (parseEndpointRef s)
  | none => .error (referenceInputError "invalid canonical endpoint reference")

/-- A frame from its signing bytes, which must be those that it is signed with. -/
def parseFrame {F : Type} (purpose : String) (count : Nat) (ofFields : List Bytes → Except Error F)
    (signingBytes : F → Except Error Bytes) (raw : Bytes) : Except Error F := do
  let fields ← decodeSigningFields raw purpose count
  let f ← ofFields fields
  let _ ← signingBytes f
  return f

/-! ## Genesis -/

/-- The digits of `referenceBase32`, five bits each; missing bits at the end are zero. -/
def base32 : List Bool → Text
  | a :: b :: c :: d :: e :: rest => digit [a, b, c, d, e] :: base32 rest
  | [] => []
  | short => [digit (short ++ List.replicate (5 - short.length) false)]
where
  digit (bits : List Bool) : Char :=
    let n := bits.foldl (fun n b => 2 * n + b.toNat) 0
    if n < 26 then Char.ofNat (n + 'a'.toNat) else Char.ofNat (n - 26 + '2'.toNat)

def bitsOf (b : UInt8) : List Bool := (List.range 8).map fun i => b.toNat.testBit (7 - i)

section
variable (sha256 : Bytes → Digest)

def domainNamespace (domainPublicKey : Digest) : Bytes :=
  let hash := sha256 (utf8 "pagnet.fabric.domain.v1\x00" ++ List.ofFn domainPublicKey)
  utf8 "d-" ++ bytesOf (base32 ((List.ofFn hash).flatMap bitsOf))

structure GenesisFrame where
  ns : Bytes
  genesisPublicKey : Digest
  payloadDigest : Digest
  deriving DecidableEq

namespace GenesisFrame

def purpose : String := "pagnet.fabric.genesis.v1"

def fields (f : GenesisFrame) : List Bytes := [f.ns, List.ofFn f.genesisPublicKey, List.ofFn f.payloadDigest]

def signingBytes (f : GenesisFrame) : Except Error Bytes := do
  refuse (domainNamespace sha256 f.genesisPublicKey != f.ns)
    (referenceInputError "genesis namespace does not match its public key")
  encodeSigningFields purpose f.fields

def ofFields (fields : List Bytes) : Except Error GenesisFrame := do
  let key ← orRefuse "genesis key and digest must be 32 bytes" (copySigningDigest (fields.getD 1 []))
  let digest ← orRefuse "genesis key and digest must be 32 bytes" (copySigningDigest (fields.getD 2 []))
  return ⟨fields.getD 0 [], key, digest⟩

end GenesisFrame

def parseGenesisFrame : Bytes → Except Error GenesisFrame :=
  parseFrame GenesisFrame.purpose 3 GenesisFrame.ofFields (GenesisFrame.signingBytes sha256)

end

/-! ## Registry -/

structure RegistryFrame where
  issuerNamespace : Bytes
  issuerKeyRevision : UInt64
  audienceDomain : Bytes
  actionKind : Bytes
  exactTargetRef : EndpointRef
  expectedPriorRevision : Bytes
  newRevision : Bytes
  sequence : UInt64
  previousHeadDigest : Digest
  payloadDigest : Digest
  deriving DecidableEq

namespace RegistryFrame

def purpose : String := "pagnet.fabric.registry.v1"

def fields (f : RegistryFrame) : List Bytes :=
  [f.issuerNamespace, signingCounter f.issuerKeyRevision, f.audienceDomain, f.actionKind, utf8 f.exactTargetRef.toString,
    f.expectedPriorRevision, f.newRevision, signingCounter f.sequence, List.ofFn f.previousHeadDigest,
    List.ofFn f.payloadDigest]

def signingBytes (f : RegistryFrame) : Except Error Bytes := do
  refuse (!passes canonicalDomainNamespace f.issuerNamespace || !passes canonicalDomainNamespace f.audienceDomain ||
      f.issuerKeyRevision == 0 || f.sequence == 0 || !validSigningText f.actionKind false ||
      !validSigningText f.expectedPriorRevision true || !validSigningText f.newRevision false)
    (referenceInputError "invalid registry signing fields")
  let _ ← parseReference (utf8 f.exactTargetRef.toString)
  encodeSigningFields purpose f.fields

def ofFields (fields : List Bytes) : Except Error RegistryFrame := do
  let issuerKeyRevision ← orRefuse "invalid registry issuer key revision" (decodeSigningCounter (fields.getD 1 []))
  let sequence ← orRefuse "invalid registry sequence" (decodeSigningCounter (fields.getD 7 []))
  let exactTargetRef ← parseReference (fields.getD 4 [])
  let previousHeadDigest ← orRefuse "registry digests must be 32 bytes" (copySigningDigest (fields.getD 8 []))
  let payloadDigest ← orRefuse "registry digests must be 32 bytes" (copySigningDigest (fields.getD 9 []))
  return {
    issuerNamespace := fields.getD 0 []
    issuerKeyRevision
    audienceDomain := fields.getD 2 []
    actionKind := fields.getD 3 []
    exactTargetRef
    expectedPriorRevision := fields.getD 5 []
    newRevision := fields.getD 6 []
    sequence
    previousHeadDigest
    payloadDigest }

end RegistryFrame

def parseRegistryFrame : Bytes → Except Error RegistryFrame :=
  parseFrame RegistryFrame.purpose 10 RegistryFrame.ofFields RegistryFrame.signingBytes

/-! ## Caller proof -/

structure CallerProofFrame where
  sourceDomain : Bytes
  callerRef : Bytes
  issuerKeyRevision : UInt64
  audienceDomain : Bytes
  operation : Bytes
  originalEnvelopeID : Bytes
  replayID : Bytes
  originalEnvelopeDigest : Digest
  deadline : Bytes
  deriving DecidableEq

namespace CallerProofFrame

def purpose : String := "pagnet.fabric.caller-proof.v1"

def fields (f : CallerProofFrame) : List Bytes :=
  [f.sourceDomain, f.callerRef, signingCounter f.issuerKeyRevision, f.audienceDomain, f.operation, f.originalEnvelopeID,
    f.replayID, List.ofFn f.originalEnvelopeDigest, f.deadline]

def signingBytes (f : CallerProofFrame) : Except Error Bytes := do
  refuse (!passes canonicalDomainNamespace f.sourceDomain || !passes canonicalDomainNamespace f.audienceDomain ||
      f.issuerKeyRevision == 0 || !validSigningText f.callerRef false || !validSigningText f.operation false ||
      !validSigningText f.originalEnvelopeID false || !validSigningText f.replayID false ||
      !validSigningDeadline f.deadline)
    (referenceInputError "invalid caller proof signing fields")
  encodeSigningFields purpose f.fields

def ofFields (fields : List Bytes) : Except Error CallerProofFrame := do
  let issuerKeyRevision ← orRefuse "invalid caller issuer key revision" (decodeSigningCounter (fields.getD 2 []))
  let originalEnvelopeDigest ←
    orRefuse "original envelope digest must be 32 bytes" (copySigningDigest (fields.getD 7 []))
  return {
    sourceDomain := fields.getD 0 []
    callerRef := fields.getD 1 []
    issuerKeyRevision
    audienceDomain := fields.getD 3 []
    operation := fields.getD 4 []
    originalEnvelopeID := fields.getD 5 []
    replayID := fields.getD 6 []
    originalEnvelopeDigest
    deadline := fields.getD 8 [] }

end CallerProofFrame

def parseCallerProofFrame : Bytes → Except Error CallerProofFrame :=
  parseFrame CallerProofFrame.purpose 9 CallerProofFrame.ofFields CallerProofFrame.signingBytes

/-! ## Dispatch admission -/

structure DispatchAdmissionFrame where
  sourceDomain : Bytes
  callerRef : Bytes
  audienceDomain : Bytes
  invocationID : Bytes
  attemptID : Bytes
  replayID : Bytes
  finalizedDispatchDigest : Digest
  deadline : Bytes
  deriving DecidableEq

namespace DispatchAdmissionFrame

def purpose : String := "pagnet.fabric.dispatch-admission.v1"

def fields (f : DispatchAdmissionFrame) : List Bytes :=
  [f.sourceDomain, f.callerRef, f.audienceDomain, f.invocationID, f.attemptID, f.replayID,
    List.ofFn f.finalizedDispatchDigest, f.deadline]

def signingBytes (f : DispatchAdmissionFrame) : Except Error Bytes := do
  refuse (!passes canonicalDomainNamespace f.sourceDomain || !passes canonicalDomainNamespace f.audienceDomain ||
      !validSigningText f.callerRef false || !validSigningText f.invocationID false ||
      !validSigningText f.attemptID false || !validSigningText f.replayID false || !validSigningDeadline f.deadline)
    (referenceInputError "invalid dispatch admission signing fields")
  encodeSigningFields purpose f.fields

def ofFields (fields : List Bytes) : Except Error DispatchAdmissionFrame := do
  let finalizedDispatchDigest ←
    orRefuse "finalized dispatch digest must be 32 bytes" (copySigningDigest (fields.getD 6 []))
  return {
    sourceDomain := fields.getD 0 []
    callerRef := fields.getD 1 []
    audienceDomain := fields.getD 2 []
    invocationID := fields.getD 3 []
    attemptID := fields.getD 4 []
    replayID := fields.getD 5 []
    finalizedDispatchDigest
    deadline := fields.getD 7 [] }

end DispatchAdmissionFrame

def parseDispatchAdmissionFrame : Bytes → Except Error DispatchAdmissionFrame :=
  parseFrame DispatchAdmissionFrame.purpose 8 DispatchAdmissionFrame.ofFields DispatchAdmissionFrame.signingBytes

/-! ## Control -/

@[ext] structure Principal where
  ref : Bytes
  kind : Bytes
  issuer : Bytes
  deriving DecidableEq

def Principal.valid (p : Principal) : Bool :=
  validSigningText p.ref false && validSigningText p.issuer false && passes validNamespacedName p.kind

def noDigest : Digest := fun _ => 0

def forwardBindingProfile : Bytes := utf8 "pagnet.fabric.hpke-auth.v1"

@[ext] structure ControlFrame where
  protocolVersion : Bytes
  sourceDomain : Bytes
  sourceStoreID : Bytes
  sourceKeyRevision : UInt64
  destinationDomain : Bytes
  destinationStoreID : Bytes
  sourcePeerBindingDigest : Digest
  destinationPeerBindingDigest : Digest
  originalPrincipal : Principal
  principal : Principal
  invocationID : Bytes
  receiptDigest : Digest
  attemptID : Bytes
  action : Bytes
  payloadDigest : Digest
  replayID : Bytes
  issuedAt : Bytes
  expiresAt : Bytes
  bindingProfile : Bytes
  deriving DecidableEq

namespace ControlFrame

def purpose : String := "pagnet.fabric.control.v1"

def fields (f : ControlFrame) : List Bytes :=
  [f.protocolVersion, f.sourceDomain, f.sourceStoreID, signingCounter f.sourceKeyRevision, f.destinationDomain,
    f.destinationStoreID, List.ofFn f.sourcePeerBindingDigest, List.ofFn f.destinationPeerBindingDigest, f.principal.ref,
    f.principal.kind, f.principal.issuer, f.originalPrincipal.ref, f.originalPrincipal.kind, f.originalPrincipal.issuer,
    f.invocationID, List.ofFn f.receiptDigest, f.attemptID, f.action, List.ofFn f.payloadDigest, f.replayID, f.issuedAt,
    f.expiresAt, f.bindingProfile]

/-- Only the actions on an attempt need one. -/
def checkAction (f : ControlFrame) : Except Error Unit :=
  if f.action == utf8 "status" || f.action == utf8 "cancel" then .ok ()
  else if f.action == utf8 "pull" || f.action == utf8 "ack" then
    refuse (f.attemptID == []) (referenceInputError "control requires original attempt")
  else .error (referenceInputError "unsupported control action")

def signingBytes (f : ControlFrame) : Except Error Bytes := do
  refuse (f.protocolVersion != utf8 "1" || !passes canonicalDomainNamespace f.sourceDomain ||
      !passes canonicalDomainNamespace f.destinationDomain || f.sourceDomain == f.destinationDomain ||
      !passes forwardStoreID f.sourceStoreID || !passes forwardStoreID f.destinationStoreID || f.sourceKeyRevision == 0 ||
      f.sourcePeerBindingDigest == noDigest || f.destinationPeerBindingDigest == noDigest ||
      f.receiptDigest == noDigest || f.payloadDigest == noDigest || !f.originalPrincipal.valid || !f.principal.valid ||
      !validSigningText f.invocationID false || !validSigningText f.replayID false ||
      !validSigningText f.attemptID true || f.bindingProfile != forwardBindingProfile)
    (referenceInputError "invalid control signing fields")
  f.checkAction
  refuse (f.issuedAt == [] || f.expiresAt == [] || !validSigningDeadline f.issuedAt || !validSigningDeadline f.expiresAt)
    (referenceInputError "invalid control validity")
  let issued := (timeOf f.issuedAt).instant
  let expires := (timeOf f.expiresAt).instant
  refuse (expires ≤ issued || 30 * 1000000000 < expires - issued) (referenceInputError "unbounded control validity")
  encodeSigningFields purpose f.fields

end ControlFrame

/-! ## Forward -/

/-- A nil slice is encoded differently from an empty one. -/
structure Provenance where
  origin : Bytes
  parentID : Bytes
  ancestry : Option (List Bytes)
  hops : UInt32
  extensionChain : Option (List Bytes)
  triggerLineage : Option (List Bytes)
  deriving DecidableEq

namespace Provenance

def lists (p : Provenance) : List (List Bytes) :=
  [p.ancestry, p.extensionChain, p.triggerLineage].map (·.getD [])

/-- `validateProvenance`. -/
def validate (p : Provenance) : Except Error Unit := do
  refuse (!passes (validText · 4096) p.origin || 64 < p.hops || p.lists.any fun list => 64 < list.length)
    ⟨.unauthenticated, "Invalid authenticated engine lineage"⟩
  refuse (p.lists.any fun list => list.any fun value => !passes (validText · 256) value)
    ⟨.unauthenticated, "Invalid authenticated engine lineage"⟩
  refuse (p.parentID != [] && !passes (validText · 256) p.parentID) ⟨.unauthenticated, "Invalid authenticated parent"⟩

/-- A string that was found to be UTF-8. -/
def stringJson (text : Bytes) : Value := .ofString ((text? text).getD "")

def listJson : Option (List Bytes) → Value
  | none => .null
  | some texts => .ofList (texts.map stringJson)

def toJson (p : Provenance) : Value :=
  .ofFields [("Origin", stringJson p.origin), ("ParentID", stringJson p.parentID), ("Ancestry", listJson p.ancestry),
    ("Hops", .number (Nat.toDigits 10 p.hops.toNat)), ("ExtensionChain", listJson p.extensionChain),
    ("TriggerLineage", listJson p.triggerLineage)]

end Provenance

section
variable (sha256 : Bytes → Digest)

def forwardProvenanceDigest (p : Provenance) : Except Error Digest := do
  p.validate
  let raw := bytesOf p.toJson.render
  refuse (maxSigningFrameBytes < raw.length) (referenceInputError "forward lineage exceeds bounds")
  return sha256 raw

@[ext] structure ForwardFrame where
  sourceDomain : Bytes
  sourceStoreID : Bytes
  sourceKeyRevision : UInt64
  destinationDomain : Bytes
  destinationStoreID : Bytes
  sourcePeerBindingDigest : Digest
  destinationPeerBindingDigest : Digest
  principal : Principal
  operation : Bytes
  invocationID : Bytes
  replayID : Bytes
  originalEnvelopeDigest : Digest
  forwardedEnvelopeDigest : Digest
  originalProvenance : Provenance
  forwardedProvenance : Provenance
  target : Option EndpointRef
  expectedRevision : Bytes
  issuedAt : Bytes
  expiresAt : Bytes
  deadline : Bytes
  bindingProfile : Bytes
  deriving DecidableEq

namespace ForwardFrame

def purpose : String := "pagnet.fabric.forward.v1"

/-- The text that the target is signed as. -/
def targetText (f : ForwardFrame) : Bytes :=
  match f.target with
  | some r => utf8 r.toString
  | none => []

def fields (f : ForwardFrame) (original forwarded : Digest) : List Bytes :=
  [f.sourceDomain, f.sourceStoreID, signingCounter f.sourceKeyRevision, f.destinationDomain, f.destinationStoreID,
    List.ofFn f.sourcePeerBindingDigest, List.ofFn f.destinationPeerBindingDigest, f.principal.ref, f.principal.kind,
    f.principal.issuer, f.operation, f.invocationID, f.replayID, List.ofFn f.originalEnvelopeDigest,
    List.ofFn f.forwardedEnvelopeDigest, List.ofFn original, List.ofFn forwarded, f.targetText, f.expectedRevision,
    f.issuedAt, f.expiresAt, f.deadline, f.bindingProfile]

/-- Only an invocation has a target. -/
def checkTarget (f : ForwardFrame) : Except Error Unit :=
  if f.operation == utf8 "invoke" then
    refuse (!(f.target.any fun r => utf8 r.domain == f.destinationDomain) || f.expectedRevision == [] ||
        !validSigningText f.expectedRevision false)
      (referenceInputError "forward exact target missing or wrong audience")
  else
    refuse (f.target.isSome || f.expectedRevision != []) (referenceInputError "forward read has invocation target")

def signingBytes (f : ForwardFrame) : Except Error Bytes := do
  refuse (!passes canonicalDomainNamespace f.sourceDomain || !passes canonicalDomainNamespace f.destinationDomain ||
      f.sourceDomain == f.destinationDomain || !passes forwardStoreID f.sourceStoreID ||
      !passes forwardStoreID f.destinationStoreID || f.sourceKeyRevision == 0 || f.sourcePeerBindingDigest == noDigest ||
      f.destinationPeerBindingDigest == noDigest || f.originalEnvelopeDigest == noDigest ||
      f.forwardedEnvelopeDigest == noDigest || !f.principal.valid || !validSigningText f.invocationID false ||
      !validSigningText f.replayID false || f.bindingProfile != forwardBindingProfile)
    (referenceInputError "invalid forward signing fields")
  refuse (f.operation != utf8 "discover" && f.operation != utf8 "describe" && f.operation != utf8 "invoke")
    (referenceInputError "invalid forwarded operation")
  f.checkTarget
  refuse (!validSigningDeadline f.issuedAt || !validSigningDeadline f.expiresAt || f.issuedAt == [] ||
      f.expiresAt == [] || !validSigningDeadline f.deadline)
    (referenceInputError "invalid forward validity")
  let issued := (timeOf f.issuedAt).instant
  let expires := (timeOf f.expiresAt).instant
  refuse (expires ≤ issued || 24 * 3600 * 1000000000 < expires - issued)
    (referenceInputError "unbounded forward validity")
  refuse (f.deadline != [] && (timeOf f.deadline).instant < expires)
    (referenceInputError "forward validity extends original deadline")
  let original ← forwardProvenanceDigest sha256 f.originalProvenance
  let forwarded ← forwardProvenanceDigest sha256 f.forwardedProvenance
  encodeSigningFields purpose (f.fields original forwarded)

end ForwardFrame

/-- The frames that signatures are made for. -/
inductive SigningFrame
  | genesis (f : GenesisFrame)
  | registry (f : RegistryFrame)
  | callerProof (f : CallerProofFrame)
  | dispatchAdmission (f : DispatchAdmissionFrame)
  | control (f : ControlFrame)
  | forward (f : ForwardFrame)
  deriving DecidableEq

def SigningFrame.signingBytes : SigningFrame → Except Error Bytes
  | .genesis f => f.signingBytes sha256
  | .registry f => f.signingBytes
  | .callerProof f => f.signingBytes
  | .dispatchAdmission f => f.signingBytes
  | .control f => f.signingBytes
  | .forward f => f.signingBytes sha256

end

example : validSigningDeadline (utf8 "2024-02-29T23:59:59.25Z") = true := by decide +kernel

example : validSigningDeadline (utf8 "2024-02-29T23:59:59.250Z") = false := by decide +kernel

end Pagnet.Signing
