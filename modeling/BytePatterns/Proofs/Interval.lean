import BytePatterns.Interval
import Mathlib.Data.List.Nodup
import Mathlib.Data.List.Perm.Subperm

namespace BytePatterns

theorem toNat_injective : Function.Injective UInt8.toNat := fun _ _ ↦ UInt8.toNat_inj.1

theorem toNat_ofNat {n : Nat} (h : n ≤ 255) : (UInt8.ofNat n).toNat = n :=
  UInt8.toNat_ofNat_of_lt (Nat.lt_succ_of_le h)

theorem mem_of_length_eq {bytes : List UInt8} (hnodup : bytes.Nodup) (hlength : bytes.length = 256)
    (b : UInt8) : b ∈ bytes := by
  have hsub : bytes.map UInt8.toNat ⊆ List.range 256 := by
    intro n hn
    obtain ⟨a, -, rfl⟩ := List.mem_map.1 hn
    exact List.mem_range.2 a.toNat_lt
  have hperm : (bytes.map UInt8.toNat).Perm (List.range 256) :=
    ((hnodup.map toNat_injective).subperm hsub).perm_of_length_le (by simp [hlength])
  exact (List.mem_map_of_injective toNat_injective).1
    (hperm.mem_iff.2 (List.mem_range.2 b.toNat_lt))

theorem flatMap_ne_nil {α β : Type} {l : List α} {f : α → List β} (hne : l ≠ [])
    (h : ∀ a ∈ l, f a ≠ []) : l.flatMap f ≠ [] := by
  obtain ⟨a, ha⟩ := List.exists_mem_of_ne_nil l hne
  intro hnil
  exact h a ha (List.flatMap_eq_nil_iff.1 hnil a ha)

namespace Interval

open Coded

structure Ordered {α : Type} [Coded α] (intervals : List (Interval α)) : Prop where
  nonempty : ∀ i ∈ intervals, code i.first ≤ code i.last
  apart : intervals.Pairwise fun i j ↦ code i.last < code j.first

variable {i : Interval UInt8} {b : UInt8}

theorem map_toNat_bytes (i : Interval UInt8) :
    i.bytes.map UInt8.toNat = List.range' i.first.toNat (i.last.toNat + 1 - i.first.toNat) := by
  rw [bytes, List.map_map]
  refine (List.map_congr_left fun n hn ↦ ?_).trans (List.map_id _)
  have hlast := i.last.toNat_lt
  have hn := List.mem_range'_1.1 hn
  exact toNat_ofNat (by omega)

theorem mem_bytes_iff : b ∈ i.bytes ↔ i.first ≤ b ∧ b ≤ i.last := by
  rw [← List.mem_map_of_injective toNat_injective, map_toNat_bytes, List.mem_range'_1,
    UInt8.le_iff_toNat_le, UInt8.le_iff_toNat_le]
  omega

theorem bytes_increasing (i : Interval UInt8) : i.bytes.Pairwise (· < ·) := by
  have h : (i.bytes.map UInt8.toNat).Pairwise (· < ·) := by
    rw [map_toNat_bytes]
    exact List.pairwise_lt_range'
  exact (List.pairwise_map.1 h).imp UInt8.lt_iff_toNat_lt.2

theorem Ordered.flatMap_bytes_increasing {intervals : List (Interval UInt8)}
    (h : Ordered intervals) : (intervals.flatMap bytes).Pairwise (· < ·) := by
  refine List.pairwise_flatMap.2 ⟨fun i _ ↦ bytes_increasing i, h.apart.imp fun hij x hx y hy ↦ ?_⟩
  exact UInt8.lt_of_le_of_lt (mem_bytes_iff.1 hx).2
    (UInt8.lt_of_lt_of_le (UInt8.lt_iff_toNat_lt.2 hij) (mem_bytes_iff.1 hy).1)

theorem bytes_ne_nil (h : i.first.toNat ≤ i.last.toNat) : i.bytes ≠ [] :=
  List.ne_nil_of_mem (mem_bytes_iff.2 ⟨UInt8.le_refl i.first, UInt8.le_iff_toNat_le.2 h⟩)

end Interval

end BytePatterns
