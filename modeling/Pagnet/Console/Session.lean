import Mathlib.Logic.Function.Basic
import Pagnet.Data.Run

/-!
# Owner console sessions

The two `OwnerTextConsoleSession`s of one bootstrap, and a network that delivers
whatever it likes. AES-GCM is idealised: a ciphertext opens only under the key, the
nonce and the additional data that it was sealed with.
-/

namespace Pagnet.Console

abbrev Bytes := List UInt8

/-- A side of the console, and the direction of the frames that it sends. -/
inductive Role
  | client
  | host
  deriving DecidableEq, Repr

def Role.other : Role → Role
  | .client => .host
  | .host => .client

/-- What the two sessions have in common. The keys are the halves of fresh random material. -/
structure Bootstrap where
  /-- the hash of the encoded descriptor -/
  descriptorHash : Bytes
  issuedAtUnixSeconds : Nat
  expiresAtUnixSeconds : Nat
  transcriptHash : String
  /-- the key of each sender -/
  keys : Role → Bytes
  distinct : keys .client ≠ keys .host

/-- `confirmation`: what a side says about the transcript. -/
def Bootstrap.confirmation (b : Bootstrap) (role : Role) : Bytes :=
  let kind := match role with
    | .client => "client_confirm"
    | .host => "host_confirm"
  ("\x7b\"version\":1,\"type\":\"" ++ kind ++ "\",\"transcriptHash\":\"" ++ b.transcriptHash ++ "\"\x7d").toList.flatMap
    String.utf8EncodeChar

/-! ## Frames -/

/-- The additional data of a frame; its parts have fixed widths. -/
structure FrameAAD where
  descriptorHash : Bytes
  direction : Role
  seq : Nat
  deriving DecidableEq

/-- A frame that was sealed. -/
structure Frame where
  key : Bytes
  nonce : Nat
  aad : FrameAAD
  plain : Bytes
  ciphertext : Bytes

def maxPlaintext : Nat := 64 * 1024

def sequenceLimit : Nat := 2 ^ 20

variable (b : Bootstrap) (gcm : Bytes → Nat → FrameAAD → Bytes → Bytes)

def frameAAD (direction : Role) (seq : Nat) : Except String FrameAAD :=
  if seq ≥ sequenceLimit then .error "e2ee: invalid console frame direction or sequence"
  else .ok ⟨b.descriptorHash, direction, seq⟩

def sealFrame (key : Bytes) (direction : Role) (seq : Nat) (plain : Bytes) : Except String Frame :=
  match frameAAD b direction seq with
  | .error e => .error e
  | .ok aad =>
    if plain.length > maxPlaintext then .error "e2ee: console frame too large"
    else .ok ⟨key, seq, aad, plain, gcm key seq aad plain⟩

/-- A ciphertext opens if it is one of those that were sealed so. -/
def openFrame (log : List Frame) (key : Bytes) (direction : Role) (seq : Nat) (ct : Bytes) : Except String Bytes :=
  match frameAAD b direction seq with
  | .error e => .error e
  | .ok aad =>
    if ct.length < 16 ∨ ct.length > maxPlaintext + 16 then .error "e2ee: invalid console ciphertext size"
    else
      match log.find? fun f => f.key = key ∧ f.nonce = seq ∧ f.aad = aad ∧ f.ciphertext = ct with
      | none => .error "cipher: message authentication failed"
      | some f => .ok f.plain

/-! ## One session -/

structure Session where
  keys : Role → Bytes
  sentConfirm : Bool
  receivedConfirm : Bool
  closed : Bool
  sendSeq : Nat
  receiveSeq : Nat

def Session.close (s : Session) : Session := { s with closed := true, keys := fun _ => List.replicate 32 0 }

/-- The clock is inside the window of the descriptor. -/
def Bootstrap.valid (now : Int) : Bool :=
  !(now < 0 || now.toNat < b.issuedAtUnixSeconds || now.toNat ≥ b.expiresAtUnixSeconds)

def Session.check (now : Int) (s : Session) : Session × Option String :=
  if s.closed then (s, some "e2ee: console session closed")
  else if b.valid now then (s, none)
  else (s.close, some "e2ee: console session expired or not yet valid")

inductive Call
  | sealConfirmation
  | openConfirmation (seq : Nat) (ct : Bytes)
  | sealData (plain : Bytes)
  | openData (seq : Nat) (ct : Bytes)
  | close
  deriving DecidableEq

/-- What a call returns. -/
inductive Output
  | nothing
  | refused (err : String)
  | sealed (f : Frame)
  | confirmed (plain : Bytes)
  | accepted (plain : Bytes)

variable (role : Role) (log : List Frame) (s : Session)

def Session.sealConfirmation : Session × Output :=
  if s.sentConfirm ∨ role = .host ∧ s.receivedConfirm = false then (s, .refused "e2ee: console confirmation order")
  else
    match sealFrame b gcm (s.keys role) role 0 (b.confirmation role) with
    | .error e => (s, .refused e)
    | .ok f => ({ s with sentConfirm := true, sendSeq := 1 }, .sealed f)

def Session.openConfirmation (seq : Nat) (ct : Bytes) : Session × Output :=
  if seq ≠ 0 ∨ s.receivedConfirm ∨ role = .client ∧ s.sentConfirm = false then
    (s.close, .refused "e2ee: console confirmation order")
  else
    match openFrame b log (s.keys role.other) role.other seq ct with
    | .error e => (s.close, .refused e)
    | .ok plain =>
      if plain ≠ b.confirmation role.other then (s.close, .refused "e2ee: invalid console confirmation")
      else ({ s with receivedConfirm := true, receiveSeq := 1 }, .confirmed plain)

/-- `Seal`. -/
def Session.sealData (plain : Bytes) : Session × Output :=
  if s.sentConfirm = false ∨ s.receivedConfirm = false then (s, .refused "e2ee: console confirmation required")
  else
    match sealFrame b gcm (s.keys role) role s.sendSeq plain with
    | .error e => (s, .refused e)
    | .ok f => ({ s with sendSeq := s.sendSeq + 1 }, .sealed f)

/-- `Open`. -/
def Session.openData (seq : Nat) (ct : Bytes) : Session × Output :=
  if s.sentConfirm = false ∨ s.receivedConfirm = false ∨ seq ≠ s.receiveSeq then
    (s.close, .refused "e2ee: console sequence or confirmation mismatch")
  else
    match openFrame b log (s.keys role.other) role.other seq ct with
    | .error e => (s.close, .refused e)
    | .ok plain => ({ s with receiveSeq := s.receiveSeq + 1 }, .accepted plain)

/-- Every call but `Close` checks the session first. -/
def Session.call (now : Int) : Call → Session × Output
  | .close => (s.close, .nothing)
  | c =>
    match s.check b now with
    | (s, some e) => (s, .refused e)
    | (s, none) =>
      match c with
      | .sealConfirmation => s.sealConfirmation b gcm role
      | .openConfirmation seq ct => s.openConfirmation b role log seq ct
      | .sealData plain => s.sealData b gcm role plain
      | .openData seq ct => s.openData b role log seq ct
      | .close => (s.close, .nothing)

/-! ## Two sessions -/

structure System where
  sessions : Role → Session
  clock : Role → Int
  /-- every frame that was sealed -/
  log : List Frame

inductive Action
  | call (role : Role) (c : Call)
  | tick (role : Role) (seconds : Nat)
  deriving DecidableEq

def Output.sealed? : Output → Option Frame
  | .sealed f => some f
  | _ => none

def Output.opened? : Output → Option Bytes
  | .confirmed plain | .accepted plain => some plain
  | _ => none

def System.initial (clock : Role → Int) : System := ⟨fun _ => ⟨b.keys, false, false, false, 0, 0⟩, clock, []⟩

/-- The system after a call of one side. -/
def System.after (p : System) (r : Role) (result : Session × Output) : System :=
  { p with sessions := Function.update p.sessions r result.1, log := p.log ++ result.2.sealed?.toList }

def System.step (p : System) : Action → System × Output
  | .tick r seconds => ({ p with clock := Function.update p.clock r (p.clock r + seconds) }, .nothing)
  | .call r c =>
    let result := (p.sessions r).call b gcm r p.log (p.clock r) c
    (p.after r result, result.2)

end Pagnet.Console
