import Mathlib.Data.String.Basic
import Pagnet.Data.Refusal
import Pagnet.Json.Fields

/-!
# The durable inbox

`externalbridge/inbox`: encrypted messages in a private directory, one file each. A store
reads all of them when it opens, and never replaces or removes one. The directory lists
the records only; a temporary file is removed by the next `Open`.
-/

namespace Pagnet.Inbox

open Json

abbrev Bytes := List UInt8

def errConflict : String := "inbox: duplicate has different contents"
def errFull : String := "inbox: capacity exceeded"
def errCorrupt : String := "inbox: corrupt state"
def errLocked : String := "inbox: already owned by another process"
def errClosed : String := "inbox: closed or failed; reopen required"
def errExist : String := "file already exists"
def errNotExist : String := "file does not exist"

structure Limits where
  maxRecords : Int
  maxPayloadBytes : Int
  maxTotalBytes : Int

/-- The limits with the default in the place of a zero. -/
def Limits.withDefaults (l : Limits) : Limits where
  maxRecords := if l.maxRecords = 0 then 1024 else l.maxRecords
  maxPayloadBytes := if l.maxPayloadBytes = 0 then 2 ^ 20 else l.maxPayloadBytes
  maxTotalBytes := if l.maxTotalBytes = 0 then 64 * 2 ^ 20 else l.maxTotalBytes

def normalizeLimits (given : Limits) : Except String Limits :=
  let l := given.withDefaults
  if l.maxRecords < 1 ∨ 100000 < l.maxRecords ∨ l.maxPayloadBytes < 1 ∨ 16 * 2 ^ 20 < l.maxPayloadBytes ∨
      l.maxTotalBytes < 1 ∨ 2 ^ 30 < l.maxTotalBytes then .error "inbox: invalid limits"
  else .ok l

/-! ## Records -/

structure Key where
  networkID : GoString
  principalID : GoString
  messageID : GoString
  deriving DecidableEq

def Key.toJson (key : Key) : Value :=
  .ofFields [("networkId", .ofGoString key.networkID), ("principalId", .ofGoString key.principalID),
    ("messageId", .ofGoString key.messageID)]

def Key.ofJson : Value → Option Key
  | .null => some ⟨[], [], []⟩
  | .object m => do
    let networkID ← field "networkId" m [] Value.goString?
    let principalID ← field "principalId" m [] Value.goString?
    let messageID ← field "messageId" m [] Value.goString?
    return ⟨networkID, principalID, messageID⟩
  | _ => none

def keyData (key : Key) : Except String Text :=
  if [key.networkID, key.principalID, key.messageID].any fun v =>
      v = [] || 1024 < v.byteLength || !v.isValid || v.contains (.inl '\x00') then .error "inbox: invalid key"
  else .ok key.toJson.render

structure DiskRecord where
  key : Key
  sealed : Bytes

def DiskRecord.toJson (r : DiskRecord) : Value := .ofFields [("key", r.key.toJson), ("sealed", .ofSlice r.sealed)]

def DiskRecord.ofJson : Value → Option DiskRecord
  | .null => some ⟨⟨[], [], []⟩, []⟩
  | .object m => do
    let key ← field "key" m ⟨[], [], []⟩ Key.ofJson
    let sealed ← field "sealed" m [] Value.bytes?
    return ⟨key, sealed⟩
  | _ => none

/-- `json.Unmarshal` into a record. -/
def unmarshal (raw : Text) : Option DiskRecord :=
  ((parse raw).filter fun v => v.depth ≤ maxNestingDepth).bind DiskRecord.ofJson

/-- AES-GCM under the key of an inbox, and the hash for the names of its files. -/
structure Crypto where
  sha256 : Bytes → Fin 32 → UInt8
  encrypt : (nonce plain : Bytes) → (aad : Text) → Bytes
  decrypt : (nonce sealed : Bytes) → (aad : Text) → Option Bytes
  length_encrypt : ∀ nonce plain aad, (encrypt nonce plain aad).length = plain.length + 16
  decrypt_encrypt : ∀ nonce plain aad, decrypt nonce (encrypt nonce plain aad) aad = some plain

abbrev Nonce := { bytes : Bytes // bytes.length = 12 }

variable (c : Crypto)

def recordName (aad : Text) : String := hexEncode (c.sha256 (bytesOf aad)) ++ ".record"

/-- The contents of a record's file. -/
def sealRecord (key : Key) (payload : Bytes) (nonce : Nonce) (aad : Text) : Text :=
  (DiskRecord.mk key (nonce.val ++ c.encrypt nonce.val payload aad)).toJson.render

/-! ## Files -/

abbrev Disk := List (String × Text)

def readPrivate (disk : Disk) (name : String) (max : Int) : Except String Text :=
  match disk.find? (·.1 = name) with
  | none => .error errNotExist
  | some file => if max < size file.2 then .error errCorrupt else .ok file.2

/-- How far `writeAtomic` comes and what it returns; without a result the process died in it. -/
inductive Write
  | beforeRename (error : Option String)
  | afterRename (result : Option (Except String Unit))

def writeAtomic (disk : Disk) (name : String) (raw : Text) : Write → Disk × Option (Except String Unit)
  | .beforeRename error => (disk, error.map .error)
  | .afterRename result =>
    if disk.any (·.1 = name) then (disk, some (.error errExist)) else (disk ++ [(name, raw)], result)

/-! ## The store -/

structure Store where
  limits : Limits
  keys : List (Key × String)
  total : Int
  failed : Bool

/-- The part of `read` behind the size of the file. -/
def openRecord (name : String) (raw : Text) : Except String (Key × Bytes) :=
  match unmarshal raw with
  | none => .error errCorrupt
  | some r =>
    match keyData r.key with
    | .error _ => .error errCorrupt
    | .ok aad =>
      if recordName c aad ≠ name ∨ r.sealed.length < 12 + 16 then .error errCorrupt
      else
        match c.decrypt (r.sealed.take 12) (r.sealed.drop 12) aad with
        | none => .error errCorrupt
        | some plain => .ok (r.key, plain)

def recordLimit (l : Limits) : Int := l.maxPayloadBytes * 2 + 16384

def read (l : Limits) (disk : Disk) (name : String) : Except String (Key × Bytes) := do
  let raw ← readPrivate disk name (recordLimit l)
  let found ← openRecord c name raw
  refuse (l.maxPayloadBytes < found.2.length) errFull
  return found

def directoryNames (disk : Disk) : List String := (disk.map (·.1)).mergeSort

/-- One record of the loop in `Open`. -/
def Store.load (disk : Disk) (st : Store) (name : String) : Except String Store := do
  let found ← read c st.limits disk name
  refuse (st.keys.any (·.1 = found.1)) errCorrupt
  let st := { st with keys := st.keys ++ [(found.1, name)], total := st.total + found.2.length }
  refuse (st.limits.maxRecords < st.keys.length || st.limits.maxTotalBytes < st.total) errFull
  return st

/-- The directory, and the store that owns it. -/
structure System where
  disk : Disk
  store : Option Store

def System.initial : System := ⟨[], none⟩

def openStore (given : Limits) (s : System) : Except String Store := do
  let l ← normalizeLimits given
  refuse s.store.isSome errLocked
  (directoryNames s.disk).foldlM (Store.load c s.disk) ⟨l, [], 0, false⟩

inductive Answer
  | opens (result : Except String Unit)
  | put (result : Except String Bool)
  | get (result : Except String Bytes)
  | list (result : Except String (List Key))
  | close
  | crashed
  deriving DecidableEq

/-- `Put` on a store that is not closed. -/
def Store.put (st : Store) (disk : Disk) (key : Key) (payload : Bytes) (nonce : Nonce) (write : Write) : System × Answer :=
  if st.failed then (⟨disk, st⟩, .put (.error errClosed))
  else
    match keyData key with
    | .error e => (⟨disk, st⟩, .put (.error e))
    | .ok aad =>
      if st.limits.maxPayloadBytes < payload.length then (⟨disk, st⟩, .put (.error errFull))
      else
        match st.keys.find? (·.1 = key) with
        | some entry =>
          match read c st.limits disk entry.2 with
          | .error e => (⟨disk, some { st with failed := true }⟩, .put (.error e))
          | .ok old => (⟨disk, st⟩, .put (if old.2 = payload then .ok false else .error errConflict))
        | none =>
          if st.limits.maxRecords ≤ st.keys.length ∨ st.limits.maxTotalBytes - st.total < payload.length then
            (⟨disk, st⟩, .put (.error errFull))
          else
            let name := recordName c aad
            let written := writeAtomic disk name (sealRecord c key payload nonce aad) write
            match written.2 with
            | none => (⟨written.1, none⟩, .crashed)
            | some (.error e) => (⟨written.1, some { st with failed := true }⟩, .put (.error e))
            | some (.ok _) =>
              (⟨written.1, some { st with keys := st.keys ++ [(key, name)], total := st.total + payload.length }⟩,
                .put (.ok true))

/-- `Get` on a store that is not closed. -/
def Store.get (st : Store) (disk : Disk) (key : Key) : System × Answer :=
  if st.failed then (⟨disk, st⟩, .get (.error errClosed))
  else
    match st.keys.find? (·.1 = key) with
    | none => (⟨disk, st⟩, .get (.error errNotExist))
    | some entry =>
      match read c st.limits disk entry.2 with
      | .error e => (⟨disk, some { st with failed := true }⟩, .get (.error e))
      | .ok found => (⟨disk, st⟩, .get (.ok found.2))

/-- The keys in the order of their encodings. -/
def Store.list (st : Store) : Except String (List Key) :=
  if st.failed then .error errClosed
  else .ok ((st.keys.map (·.1)).mergeSort fun a b => bytesOf a.toJson.render ≤ bytesOf b.toJson.render)

inductive Action
  | opens
  | put (key : Key) (payload : Bytes) (nonce : Nonce) (write : Write)
  | get (key : Key)
  | list
  | close

def System.step (given : Limits) (s : System) : Action → System × Answer
  | .opens =>
    match openStore c given s with
    | .error e => (s, .opens (.error e))
    | .ok st => (⟨s.disk, st⟩, .opens (.ok ()))
  | .put key payload nonce write =>
    match s.store with
    | none => (s, .put (.error errClosed))
    | some st => st.put c s.disk key payload nonce write
  | .get key =>
    match s.store with
    | none => (s, .get (.error errClosed))
    | some st => st.get c s.disk key
  | .list =>
    match s.store with
    | none => (s, .list (.error errClosed))
    | some st => (s, .list st.list)
  | .close => (⟨s.disk, none⟩, .close)

end Pagnet.Inbox
