import Mathlib.Algebra.Ring.Nat
import Mathlib.Data.List.Induction

/-!
# Length-prefixed fields

Numbers in big-endian bytes, and sequences of byte fields of which each follows
its length. `frame` is injective, because what a field starts with tells where it
ends; `append_separator_inj` puts a head without the separator in front.
-/

namespace Pagnet
open List

/-- The last `width` digits of a number in base 256, the most significant one first. -/
def bigEndian : Nat → Nat → List UInt8
  | 0, _ => []
  | width + 1, n => bigEndian width (n / 256) ++ [UInt8.ofNat n]

def ofBigEndian (bytes : List UInt8) : Nat := bytes.foldl (fun n b => 256 * n + b.toNat) 0

@[simp] theorem length_bigEndian (width n : Nat) : (bigEndian width n).length = width := by
  induction width generalizing n with
  | zero => rfl
  | succ width ih => rw [bigEndian, length_append, ih, length_singleton]

theorem ofBigEndian_append (bytes : List UInt8) (b : UInt8) :
    ofBigEndian (bytes ++ [b]) = 256 * ofBigEndian bytes + b.toNat := by
  unfold ofBigEndian
  rw [foldl_append]
  rfl

theorem ofBigEndian_bigEndian {width n : Nat} (small : n < 256 ^ width) : ofBigEndian (bigEndian width n) = n := by
  induction width generalizing n with
  | zero =>
    obtain rfl : n = 0 := by omega
    rfl
  | succ width ih =>
    have front : n / 256 < 256 ^ width := by
      exact Nat.div_lt_of_lt_mul (by omega)
    have last : (UInt8.ofNat n).toNat = n % 256 := UInt8.toNat_ofNat'
    rw [bigEndian, ofBigEndian_append, ih front, last]
    exact Nat.div_add_mod n 256

theorem bigEndian_ofBigEndian (bytes : List UInt8) : bigEndian bytes.length (ofBigEndian bytes) = bytes := by
  induction bytes using List.reverseRecOn with
  | nil => rfl
  | append_singleton bytes b ih =>
    have small := b.toNat_lt
    have front : (256 * ofBigEndian bytes + b.toNat) / 256 = ofBigEndian bytes := by omega
    have last : UInt8.ofNat (256 * ofBigEndian bytes + b.toNat) = b := by
      apply UInt8.toNat_inj.1
      rw [UInt8.toNat_ofNat']
      omega
    rw [length_append, length_singleton, bigEndian, ofBigEndian_append, front, last, ih]

theorem ofBigEndian_lt (bytes : List UInt8) : ofBigEndian bytes < 256 ^ bytes.length := by
  induction bytes using List.reverseRecOn with
  | nil => exact Nat.one_pos
  | append_singleton bytes b ih =>
    have small := b.toNat_lt
    rw [ofBigEndian_append, length_append, length_singleton, Nat.pow_succ]
    omega

/-- Every field behind its length in `width` bytes. -/
def frame (width : Nat) (fields : List (List UInt8)) : List UInt8 :=
  fields.flatMap fun field => bigEndian width field.length ++ field

@[simp] theorem frame_nil (width : Nat) : frame width [] = [] := rfl

@[simp] theorem frame_cons (width : Nat) (field : List UInt8) (fields : List (List UInt8)) :
    frame width (field :: fields) = bigEndian width field.length ++ (field ++ frame width fields) := by
  unfold frame
  rw [flatMap_cons, append_assoc]

/-- What stands behind the length of the first field. -/
theorem frame_cons_parts {width : Nat} {field : List UInt8} (fields : List (List UInt8))
    (small : field.length < 256 ^ width) : ofBigEndian ((frame width (field :: fields)).take width) = field.length ∧
      (frame width (field :: fields)).drop width = field ++ frame width fields := by
  rw [frame_cons, take_left' (length_bigEndian _ _), drop_left' (length_bigEndian _ _)]
  exact ⟨ofBigEndian_bigEndian small, rfl⟩

theorem frame_inj {width : Nat} (positive : 0 < width) {fields others : List (List UInt8)}
    (small : ∀ field ∈ fields, field.length < 256 ^ width) (others_small : ∀ field ∈ others, field.length < 256 ^ width)
    (h : frame width fields = frame width others) : fields = others := by
  induction fields generalizing others with
  | nil =>
    cases others with
    | nil => rfl
    | cons other others =>
      have lengths := congrArg List.length h
      rw [frame_nil, frame_cons, length_append, length_bigEndian, length_nil] at lengths
      omega
  | cons field fields ih =>
    cases others with
    | nil =>
      have lengths := congrArg List.length h
      rw [frame_nil, frame_cons, length_append, length_bigEndian, length_nil] at lengths
      omega
    | cons other others =>
      obtain ⟨here, later⟩ := forall_mem_cons.1 small
      obtain ⟨other_here, other_later⟩ := forall_mem_cons.1 others_small
      obtain ⟨length, rest⟩ := frame_cons_parts fields here
      obtain ⟨other_length, other_rest⟩ := frame_cons_parts others other_here
      rw [h, other_length] at length
      rw [h, other_rest] at rest
      obtain ⟨rfl, tails⟩ := append_inj rest length
      rw [ih later other_later tails.symm]

/-- A head that does not hold the separator ends where the separator stands. -/
theorem append_separator_inj {α : Type} {separator : α} {p q x y : List α} (left : separator ∉ p) (right : separator ∉ q)
    (h : p ++ separator :: x = q ++ separator :: y) : p = q ∧ x = y := by
  induction p generalizing q with
  | nil =>
    cases q with
    | nil =>
      cases h
      exact ⟨rfl, rfl⟩
    | cons b q =>
      cases h
      exact absurd mem_cons_self right
  | cons a p ih =>
    cases q with
    | nil =>
      cases h
      exact absurd mem_cons_self left
    | cons b q =>
      obtain ⟨rfl, rest⟩ := List.cons.inj h
      obtain ⟨rfl, rfl⟩ := ih (fun mem => left (mem_cons_of_mem _ mem))
        (fun mem => right (mem_cons_of_mem _ mem)) rest
      exact ⟨rfl, rfl⟩

end Pagnet
