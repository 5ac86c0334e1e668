import Pagnet.Textbridge.Documents

/-!
# Which jobs are stored as they were given

`json.Marshal` compacts a raw message, escapes its HTML characters and writes a
nil one as `null`. A job is returned as its writer returned it exactly when its raw
messages are present and are what the encoder makes of them. `CompareAndSwap` compares the header and the provider
fingerprint of its caller with what is stored, so a job that was changed by its
storage cannot be advanced with its own data.
-/

namespace Pagnet.Textbridge
open Json

/-- The encoder leaves the text alone. -/
def canonical (text : Text) : Bool := (marshalRaw text).any fun v => v.render == text

/-- Both raw messages are stored as they are. -/
def Data.faithful (d : Data) : Bool := canonical d.header && d.receipt.any canonical

/-- The two jobs agree, byte for byte in their raw messages and slices. -/
structure Retains (written read : Job) : Prop where
  key : read.key = written.key
  revision : read.revision = written.revision
  phase : read.phase = written.phase
  revoked : read.revoked = written.revoked
  header : read.data.header = written.data.header
  predecessorWire : read.data.predecessorWire = written.data.predecessorWire
  input : read.data.input = written.data.input
  output : read.data.output = written.data.output
  receipt : read.data.receipt = written.data.receipt

/-- `Get` returns the job that was written, and so does `List`. -/
def Returns (c : Config) (s : Store) (j : Job) : Prop :=
  ∃ read, get c s j.key = .ok read ∧ Retains j read ∧
    ∀ jobs, list c s = .ok jobs → read ∈ jobs ∧ ∀ x ∈ jobs, x.key = j.key → x = read

theorem canonical_iff {text : Text} {v : Value} (encoded : marshalRaw text = some v) :
    canonical text ↔ v.render = text := by
  simp [canonical, encoded]

variable {c : Config}

variable {j read expected : Job} {row : JobRow} {k : JobKey} {s s' : Store} {sealed : Sealed} {d : Data}
    {u : Update} {next : Phase}

theorem scan_ok (h : scan c row = .ok j) :
    j.key = row.key ∧ j.revision = row.revision ∧ j.phase = row.phase ∧ j.revoked = row.revoked ∧
      1 ≤ j.revision ∧ validData c j.data := by
  have h := past_refuse h
  split at h
  case h_1 => cases h
  case h_2 d read =>
    obtain ⟨accepted, h⟩ := of_refuse h
    cases h
    simp only [Bool.or_eq_false_iff, decide_eq_false_iff_not, not_lt, Bool.not_eq_false'] at accepted
    exact ⟨rfl, rfl, rfl, rfl, accepted.1.2, accepted.2⟩

theorem get_eq (found : s.jobs.find? k = some row) : get c s k = scan c row := by
  rw [get, found]

/-- `List` agrees with `Get`. -/
theorem list_get {jobs : List Job} (got : get c s k = .ok read)
    (listed : list c s = .ok jobs) : read ∈ jobs ∧ ∀ x ∈ jobs, x.key = k → x = read := by
  cases found : s.jobs.find? k with
  | none => simp [get, found] at got
  | some row =>
    rw [get_eq found] at got
    obtain ⟨mem, key⟩ := Relation.find?_eq_some.1 found
    obtain ⟨sources, results⟩ := mapM_ok_mem listed
    constructor
    · obtain ⟨j, inside, scanned⟩ := results row mem
      rw [got] at scanned
      cases scanned
      exact inside
    · intro x inside same
      obtain ⟨source, mem', scanned⟩ := sources x inside
      have one : source = row := Relation.eq_of_key mem' mem (((scan_ok scanned).1.symm.trans same).trans key.symm)
      rw [one, got] at scanned
      cases scanned
      rfl

/-- What `Get` finds of a row that was written. -/
theorem returns_iff (written : encode c j = .ok sealed)
    (found : s.jobs.find? j.key = some (j.row sealed)) : Returns c s j ↔ j.data.faithful := by
  obtain ⟨header, receipt, head, tail, scanned⟩ := scan_row written
  have got : get c s j.key = _ := (get_eq found).trans scanned
  unfold Data.faithful
  rw [Bool.and_eq_true, canonical_iff head]
  constructor
  · rintro ⟨read, reads, retains, -⟩
    rw [got] at reads
    cases reads
    have same_receipt : some receipt.render = j.data.receipt := retains.receipt
    refine ⟨retains.header, ?_⟩
    rw [← same_receipt] at tail ⊢
    exact (canonical_iff tail).2 rfl
  · rintro ⟨same_header, present⟩
    cases given : j.data.receipt with
    | none => simp [given] at present
    | some text =>
      rw [given] at present tail
      have same_receipt := (canonical_iff tail).1 present
      refine ⟨_, got, ?_, fun jobs listed => list_get got listed⟩
      exact ⟨rfl, rfl, rfl, rfl, same_header, rfl, rfl, rfl, (congrArg some same_receipt).trans given.symm⟩

/-! ## The writers -/

theorem insert_commit {projectID askID : GoString}
    (h : insert c s projectID askID d = .ok (.commit s' j)) :
    j = ⟨projectID, askID, 1, .queued, false, d⟩ ∧ ∃ sealed, encode c j = .ok sealed ∧
      s.jobs.insert (j.row sealed) = some s'.jobs ∧ s' = { s with jobs := s'.jobs } := by
  obtain ⟨sealed, written, h⟩ := of_bind h
  split at h
  case h_1 jobs added =>
    cases h
    exact ⟨rfl, sealed, written, added, rfl⟩
  case h_2 =>
    obtain ⟨old, -, h⟩ := of_bind h
    have h := past_refuse h
    cases h

/-- An update that was prepared holds the job it read, or follows it with one more revision. -/
theorem prepare_ok (h : prepare c s expected j = .ok u) :
    ∃ stored, get c s expected.key = .ok stored ∧ stored.revision = expected.revision ∧ stored.phase = expected.phase ∧
      stored.revoked = expected.revoked ∧ u.expected = expected ∧
      u.job = (if j.revoked && !expected.revoked then { j with data := stored.data } else j) ∧
      encode c u.job = .ok u.sealed := by
  obtain ⟨stored, got, h⟩ := of_bind h
  obtain ⟨fresh, h⟩ := of_refuse h
  have h := past_refuse h
  have h := past_refuse h
  obtain ⟨sealed, written, h⟩ := of_bind h
  cases h
  simp only [Bool.or_eq_false_iff, bne_eq_false_iff_eq] at fresh
  exact ⟨stored, got, fresh.1.1, fresh.1.2, fresh.2, rfl, rfl, written⟩

theorem prepareSwap_ok
    (h : prepareSwap c s expected next d = .ok u) :
    next ≠ .providerStarted ∧ expected.phase ≠ .providerStarted ∧ allowed expected.phase next ∧
      prepare c s expected { expected with revision := increment expected.revision, phase := next, data := d } = .ok u := by
  obtain ⟨started, h⟩ := of_refuse h
  have h := past_refuse h
  obtain ⟨permitted, h⟩ := of_refuse h
  simp only [Bool.or_eq_false_iff, beq_eq_false_iff_ne] at started
  simp only [Bool.or_eq_false_iff, Bool.not_eq_false'] at permitted
  exact ⟨started.1, started.2, permitted.1, h⟩

theorem find?_updateJob (found : s.jobs.find? j.key = some row) :
    (updateJob s j sealed).jobs.find? j.key = some (j.row sealed) := by
  obtain ⟨-, key⟩ := Relation.find?_eq_some.1 found
  unfold updateJob
  rw [Relation.find?_modify, found, Option.map_some, if_pos (decide_eq_true key)]
  have project : row.projectID = j.projectID := congrArg Prod.fst key
  have ask : row.askID = j.askID := congrArg Prod.snd key
  simp [overwrite, Job.row, project, ask]

theorem Update.apply_ok (h : u.apply s = .ok (.commit s' j)) :
    ∃ row, s.jobs.find? u.job.key = some row ∧ row.revision = u.expected.revision ∧ row.phase = u.expected.phase ∧
      row.revoked = u.expected.revoked ∧ j = u.job ∧ s' = updateJob s u.job u.sealed := by
  unfold Update.apply at h
  split at h
  case h_1 => cases h
  case h_2 row found =>
    obtain ⟨fresh, h⟩ := of_refuse h
    cases h
    simp only [Bool.or_eq_false_iff, bne_eq_false_iff_eq] at fresh
    exact ⟨row, found, fresh.1.1, fresh.1.2, fresh.2, rfl, rfl⟩

/-! ## Advancing a new job -/

/-- `CompareAndSwap` of a new job with its own data, when the job can be read. -/
theorem prepareSwap_inserted (written : encode c j = .ok sealed)
    (is_new : j = ⟨j.projectID, j.askID, 1, .queued, false, j.data⟩) (got : get c s j.key = .ok read)
    (same : Retains j read) (digest : read.data.wireDigest = j.data.wireDigest)
    (starts : next ≠ .providerStarted) (permitted : allowed .queued next) :
    prepareSwap c s j next j.data = .error .invalid ↔
      read.data.providerConfigFingerprint ≠ j.data.providerConfigFingerprint := by
  obtain ⟨project, ask, -, checked, plain, marshalled, -⟩ := encode_ok written
  have phase : j.phase = .queued := congrArg Job.phase is_new
  have revoked : j.revoked = false := congrArg Job.revoked is_new
  have revision : j.revision = 1 := congrArg Job.revision is_new
  have two : increment j.revision = 2 := by rw [revision]; rfl
  have encodes : ∃ out, encode c { j with revision := 2, phase := next } = .ok out := by
    unfold encode
    simp only [beq_eq_false_iff_ne.2 project, beq_eq_false_iff_ne.2 ask, checked, marshalled, Bool.or_self, Bool.not_true]
    exact ⟨_, rfl⟩
  obtain ⟨out, encodes⟩ := encodes
  unfold prepareSwap prepare
  rw [got]
  simp only [phase, revoked, two, permitted, digest, same.revision, same.phase, same.revoked, same.header,
    same.predecessorWire, same.input, beq_eq_false_iff_ne.2 starts, bne_self_eq_false, Bool.false_and, Bool.or_self,
    Bool.not_true, Bool.false_or, refuse_false, ok_bind, (by decide : (Phase.queued == Phase.providerStarted) = false),
    Bool.false_eq_true, if_false]
  by_cases coerced : j.data.providerConfigFingerprint = read.data.providerConfigFingerprint
  · have encodes' : encode c { j with revision := 2, phase := next, revoked := false } = .ok out := by
      rw [← encodes, revoked]
    simp [encodes', coerced]
  · simp [bne_iff_ne.2 coerced, Ne.symm coerced]

/-- A row that was written is read with its digest, and with the encoder's replacements in its fingerprint. -/
theorem get_strings (written : encode c j = .ok sealed)
    (found : s.jobs.find? j.key = some (j.row sealed)) (got : get c s j.key = .ok read) :
    read.data.wireDigest = j.data.wireDigest ∧
      read.data.providerConfigFingerprint = j.data.providerConfigFingerprint.coerce := by
  obtain ⟨-, -, -, checked, -⟩ := encode_ok written
  obtain ⟨header, receipt, -, -, scanned⟩ := scan_row written
  rw [get_eq found, scanned] at got
  cases got
  obtain ⟨-, digest, -⟩ := validData_iff.1 checked
  refine ⟨?_, rfl⟩
  change j.data.wireDigest.coerce = _
  rw [digest]
  exact GoString.coerce_of_valid (GoString.isValid_ofString _)

/-- Storage is faithful exactly to data whose raw messages the encoder leaves alone. For every job that `Insert` wrote, as
long as its row stands: it is returned as it was written, and `CompareAndSwap` to a permitted phase with its own data is
not refused as invalid, if and only if its data is faithful and its fingerprint valid UTF-8. For every job that
`CompareAndSwap` wrote: it is returned as it was written if and only if its data is faithful. -/
theorem storage_faithful_iff (c : Config) : (∀ (s s' t : Store) (projectID askID : GoString) (d : Data) (j : Job),
      insert c s projectID askID d = .ok (.commit s' j) → t.jobs.find? j.key = s'.jobs.find? j.key →
      ((Returns c t j ∧ ∀ next, next ≠ .providerStarted → allowed j.phase next = true →
          prepareSwap c t j next j.data ≠ .error .invalid) ↔
        d.faithful = true ∧ d.providerConfigFingerprint.isValid = true)) ∧
    (∀ (s₀ s s' t : Store) (expected : Job) (next : Phase) (d : Data) (u : Update) (j : Job),
      prepareSwap c s₀ expected next d = .ok u → u.apply s = .ok (.commit s' j) →
      t.jobs.find? j.key = s'.jobs.find? j.key → (Returns c t j ↔ d.faithful = true)) := by
  constructor
  · intro s s' t projectID askID d j inserted stands
    obtain ⟨is_new, sealed, written, added, -⟩ := insert_commit inserted
    have data : j.data = d := congrArg Job.data is_new
    have phase : j.phase = .queued := congrArg Job.phase is_new
    have found : t.jobs.find? j.key = some (j.row sealed) := stands.trans (Relation.find?_insert_self added)
    rw [returns_iff written found, phase, data]
    refine and_congr_right fun faithful => ?_
    obtain ⟨read, got, retains, -⟩ := (returns_iff written found).2 (data ▸ faithful)
    obtain ⟨digest, fingerprint⟩ := get_strings written found got
    have swap : ∀ next, next ≠ .providerStarted → allowed .queued next = true →
        (prepareSwap c t j next j.data = .error .invalid ↔
          read.data.providerConfigFingerprint ≠ j.data.providerConfigFingerprint) :=
      fun next starts permitted => prepareSwap_inserted written (by rw [is_new]) got retains digest starts permitted
    rw [← GoString.coerce_eq_iff, ← data, ← fingerprint]
    constructor
    · intro never
      by_contra differs
      exact never .rejected (by decide) (by decide) ((swap _ (by decide) (by decide)).2 differs)
    · intro same next starts permitted refused
      exact (swap next starts permitted).1 refused same
  · intro s₀ s s' t expected next d u j prepared applied stands
    obtain ⟨-, -, -, prepared⟩ := prepareSwap_ok prepared
    obtain ⟨stored, -, -, -, -, -, job, written⟩ := prepare_ok prepared
    obtain ⟨row, found, -, -, -, rfl, rfl⟩ := Update.apply_ok applied
    have data : u.job.data = d := by
      rw [job]
      split
      case isTrue both =>
        simp at both
      case isFalse => rfl
    rw [returns_iff written (stands.trans (find?_updateJob found)), data]

/-! ## Samples -/

def sampleConfig : Config := ⟨⟨2, 2⟩, by decide, sampleDigest⟩

/-- A job's data with these raw messages. -/
def sampleData (header : String) (receipt : Option String) : Data :=
  ⟨header.toList, [1], .ofString (hexEncode (sampleDigest [1])), [2], .ofString "provider", [], [], [], receipt.map String.toList⟩

/-- One `Insert` in a new ledger. -/
def sampleInsert (d : Data) : Except Error (Change Store Job) :=
  insert sampleConfig (.initial sampleConfig) (.ofString "project") (.ofString "ask") d

/-- A job with compact raw messages is inserted, returned, rejected with its own data and returned again. -/
theorem storage_faithful_sample : ∃ s j u s' j',
    sampleInsert (sampleData "[1]" (some "[]")) = .ok (.commit s j) ∧
    prepareSwap sampleConfig s j .rejected (sampleData "[1]" (some "[]")) = .ok u ∧ u.apply s = .ok (.commit s' j') ∧
    Returns sampleConfig s j ∧ Returns sampleConfig s' j' := by
  have runs : (committed (sampleInsert (sampleData "[1]" (some "[]")))).any (fun p =>
      (prepareSwap sampleConfig p.1 p.2 .rejected (sampleData "[1]" (some "[]"))).toOption.any fun u =>
        (committed (u.apply p.1)).isSome) := by
    decide +kernel
  obtain ⟨⟨s, j⟩, inserted, runs⟩ := (Option.any_eq_true _ _).1 runs
  obtain ⟨u, prepared, runs⟩ := (Option.any_eq_true _ _).1 runs
  obtain ⟨⟨s', j'⟩, applied⟩ := Option.isSome_iff_exists.1 runs
  have written := committed_eq_some.1 inserted
  have prepared := toOption_eq_some.1 prepared
  have applied := committed_eq_some.1 applied
  have faithful : (sampleData "[1]" (some "[]")).faithful = true := by decide +kernel
  exact ⟨s, j, u, s', j', written, prepared, applied,
    (((storage_faithful_iff sampleConfig).1 _ _ s _ _ _ _ written rfl).2 ⟨faithful, by decide +kernel⟩).1,
    ((storage_faithful_iff sampleConfig).2 _ _ _ s' _ _ _ _ _ prepared applied rfl).2 faithful⟩

/-- A job whose header holds a space is inserted. It is returned without the space, and cannot be rejected with its own
data. -/
theorem spaced_header_rewritten : ∃ s j,
    sampleInsert (sampleData "[ 1]" (some "[]")) = .ok (.commit s j) ∧
    (∃ read, get sampleConfig s j.key = .ok read ∧ read.data.header = "[1]".toList) ∧
    prepareSwap sampleConfig s j .rejected j.data = .error .invalid := by
  have runs : (committed (sampleInsert (sampleData "[ 1]" (some "[]")))).any (fun p =>
      (match get sampleConfig p.1 p.2.key with
        | .ok read => read.data.header == "[1]".toList
        | .error _ => false) &&
      (match prepareSwap sampleConfig p.1 p.2 .rejected p.2.data with
        | .ok _ => false
        | .error e => e == .invalid)) = true := by
    decide +kernel
  obtain ⟨⟨s, j⟩, inserted, runs⟩ := (Option.any_eq_true _ _).1 runs
  rw [Bool.and_eq_true] at runs
  obtain ⟨reads, refused⟩ := runs
  refine ⟨s, j, committed_eq_some.1 inserted, ?_, ?_⟩
  · split at reads
    case h_1 read got => exact ⟨read, got, eq_of_beq reads⟩
    case h_2 => cases reads
  · split at refused
    case h_1 => cases refused
    case h_2 e failed => rw [failed, eq_of_beq refused]

end Pagnet.Textbridge
