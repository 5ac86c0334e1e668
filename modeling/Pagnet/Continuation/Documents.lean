import Pagnet.Continuation.Run

/-!
# The stored documents within the limits

The shape of each document the store writes, and what its own decoder needs of
the configured limits. A receipt, an outcome and a notification always fit the
fixed limits they are decoded with. A snapshot nests three deep and has four
members for each principal, which only the configured limits can exclude.
-/

namespace Pagnet.Continuation
open Json List

variable {c : Config}

theorem Principal.shape (p : Principal) : p.toJson.depth = 1 ∧ p.toJson.members = 3 ∧ p.toJson.distinct := by
  refine ⟨by simp [Principal.toJson, depth_ofFields], by simp [Principal.toJson, members_ofFields],
    distinct_ofFields ?_ ?_⟩
  · simp only [map_cons, map_nil]
    decide +kernel
  · simp

/-- The members of an encoded snapshot. -/
def Snapshot.memberCount (v : Snapshot) : Nat :=
  13 + 4 * v.allowedResumePrincipals.length + if v.deferredAdmission = [] then 0 else 1

theorem principals_shape {principals : List Principal} (some : principals ≠ []) :
    (Value.ofList (principals.map Principal.toJson)).depth = 2 ∧
    (Value.ofList (principals.map Principal.toJson)).members = 4 * principals.length ∧
    (Value.ofList (principals.map Principal.toJson)).distinct := by
  refine ⟨?_, ?_, distinct_ofList ?_⟩
  · have depths : ∀ principals : List Principal, principals ≠ [] →
        ((principals.map Principal.toJson).map Value.depth).foldr max 0 = 1 := by
      intro principals some
      induction principals with
      | nil => exact absurd rfl some
      | cons p rest ih =>
        simp only [map_cons, foldr_cons, p.shape.1]
        cases rest with
        | nil => rfl
        | cons q rest => rw [ih (cons_ne_nil _ _), max_self]
    rw [depth_ofList, depths principals some]
  · rw [members_ofList]
    clear some
    induction principals with
    | nil => rfl
    | cons p rest ih =>
      simp only [map_cons, sum_cons, p.shape.2.1, ih, length_cons]
      omega
  · intro v mem
    obtain ⟨p, -, rfl⟩ := mem_map.1 mem
    exact p.shape.2.2

theorem Snapshot.shape {v : Snapshot} (some : v.allowedResumePrincipals ≠ []) :
    v.toJson.depth = 3 ∧ v.toJson.members = v.memberCount ∧ v.toJson.distinct := by
  obtain ⟨depth, members, distinct⟩ := principals_shape some
  obtain ⟨depth', members', distinct'⟩ := v.originalPrincipal.shape
  unfold Snapshot.toJson Snapshot.memberCount omitEmpty
  split_ifs with empty
  · refine ⟨?_, ?_, distinct_ofFields ?_ ?_⟩
    · simp [depth_ofFields, depth, depth']
    · simp only [members_ofFields, append_nil, map_cons, map_nil, sum_cons, sum_nil,
        members_ofInt, members_ofString, members_ofBytes, members, members']
      omega
    · simp only [append_nil, map_cons, map_nil]
      decide +kernel
    · simp [distinct, distinct']
  · refine ⟨?_, ?_, distinct_ofFields ?_ ?_⟩
    · simp [depth_ofFields, depth, depth']
    · simp only [members_ofFields, cons_append, nil_append, map_cons, map_nil, sum_cons,
        sum_nil, members_ofInt, members_ofString, members_ofBytes, members, members']
      omega
    · simp only [cons_append, nil_append, map_cons, map_nil]
      decide +kernel
    · simp [distinct, distinct']

theorem Receipt.shape (r : Receipt) : r.toJson.depth = 2 ∧ r.toJson.members = 11 ∧ r.toJson.distinct := by
  obtain ⟨depth, members, distinct⟩ := r.principal.shape
  refine ⟨by simp [Receipt.toJson, depth_ofFields, depth], by simp [Receipt.toJson, members_ofFields, members],
    distinct_ofFields ?_ ?_⟩
  · simp only [map_cons, map_nil]
    decide +kernel
  · simp [distinct]

theorem Outcome.shape (o : Outcome) : o.toJson.depth = 1 ∧ o.toJson.members = 2 ∧ o.toJson.distinct := by
  refine ⟨by simp [Outcome.toJson, depth_ofFields], by simp [Outcome.toJson, members_ofFields], distinct_ofFields ?_ ?_⟩
  · simp only [map_cons, map_nil]
    decide +kernel
  · simp

theorem NotificationPlain.shape (n : NotificationPlain) :
    n.toJson.depth = 2 ∧ n.toJson.members = 9 ∧ n.toJson.distinct := by
  obtain ⟨depth, members, distinct⟩ := n.recipient.shape
  refine ⟨by simp [NotificationPlain.toJson, depth_ofFields, depth],
    by simp [NotificationPlain.toJson, members_ofFields, members], distinct_ofFields ?_ ?_⟩
  · simp only [map_cons, map_nil]
    decide +kernel
  · simp [distinct]

/-- The fixed limits suffice for a small document. -/
theorem decodes_plain {v : Value} {bound : Int} (positive : 0 < bound) (size : (v.size : Int) ≤ bound)
    (depth : v.depth ≤ 2) (members : v.members ≤ 11) (distinct : v.distinct) :
    decodesValue (plainLimits bound) v := by
  have limits : (0 : Int) < 64 ∧ (0 : Int) < 4096 := by decide
  refine (decodesValue_eq_true positive limits.1 limits.2).2 ⟨size, ?_, ?_, distinct, ?_⟩
  · change (v.depth : Int) ≤ 64
    omega
  · change (v.members : Int) ≤ 4096
    omega
  · unfold maxNestingDepth
    omega

/-- What a store's options promise. -/
structure Options.Valid (o : Options) : Prop where
  depth : 0 < o.maxJSONDepth
  members : 0 < o.maxJSONMembers
  snapshot : 0 < o.maxSnapshotBytes
  outcome : 0 < o.maxOutcomeBytes
  records : 0 < o.maxRecords
  bytes : 0 < o.maxBytes

theorem Options.validate_ok {o : Options} (h : o.validate = .ok ()) : o.Valid := by
  rw [Options.validate, refuse_eq_ok] at h
  simp only [Bool.or_eq_false_iff, decide_eq_false_iff_not, not_le, not_lt] at h
  obtain ⟨⟨⟨⟨⟨⟨⟨⟨⟨⟨⟨⟨depth, members⟩, records⟩, -⟩, bytes⟩, -⟩, snapshot⟩, outcome⟩, -⟩, -⟩, -⟩, -⟩, -⟩ := h
  exact ⟨depth, members, snapshot, outcome, records, bytes⟩

theorem decodes_outcome (valid : c.options.Valid) {o : Outcome} (size : outcomeSize o ≤ c.options.maxOutcomeBytes) :
    decodesValue (plainLimits c.options.maxOutcomeBytes) o.toJson :=
  decodes_plain valid.outcome size (o.shape.1.le.trans (by decide)) (o.shape.2.1.le.trans (by decide)) o.shape.2.2

/-- A snapshot that the configured limits have room for is read back. -/
theorem snapshot_decodes (valid : c.options.Valid) {v : Snapshot} (checked : validateSnapshot c v = .ok ())
    (size : snapshotSize v ≤ c.options.maxSnapshotBytes) (depth : 3 ≤ c.options.maxJSONDepth)
    (members : (v.memberCount : Int) ≤ c.options.maxJSONMembers) : snapshot c v = .ok v := by
  have some : v.allowedResumePrincipals ≠ [] := by
    obtain ⟨fields, -⟩ := of_refuse checked
    simp only [Bool.or_eq_false_iff] at fields
    intro empty
    rw [empty] at fields
    exact absurd fields.1.1.1.1.1.2 (by decide)
  obtain ⟨depth_is, members_is, distinct⟩ := Snapshot.shape some
  have decodes : decodesValue (c.privateLimits c.options.maxSnapshotBytes) v.toJson := by
    refine (decodesValue_eq_true valid.snapshot valid.depth valid.members).2 ⟨size, ?_, ?_, distinct, ?_⟩
    · rw [depth_is]
      exact depth
    · rw [members_is]
      exact members
    · rw [depth_is]
      decide
  refine refuse_bind_eq_ok.2 ⟨?_, bind_eq_ok.2 ⟨(), checked, rfl⟩⟩
  rw [decodes]
  rfl

end Pagnet.Continuation
