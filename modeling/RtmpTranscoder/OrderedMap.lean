/-
**Maps as sorted association lists.**

A map whose keys are ordered is the list of its entries in strictly increasing order of their
keys; every map has exactly one such list.  Nothing here mentions a particular key or value type.

Main definitions:

* `OrderedMap.Sorted` — the keys increase strictly;
* `OrderedMap.insert` — an entry is put in its place, or replaces the one with its key.

Main results:

* `OrderedMap.Sorted.insert` — inserting keeps a map sorted;
* `OrderedMap.insert_last` — **entries inserted in order are appended**.
-/

import Mathlib

set_option relaxedAutoImplicit false
set_option autoImplicit false

namespace OrderedMap

variable {κ ω : Type*} [LT κ]

def Sorted (m : List (κ × ω)) : Prop := m.Pairwise fun p q => p.1 < q.1

variable [DecidableLT κ]

/-- The entry with the key `k` is added, or replaced. -/
def insert (k : κ) (x : ω) : List (κ × ω) → List (κ × ω)
  | [] => [(k, x)]
  | (k', x') :: m =>
      if k < k' then (k, x) :: (k', x') :: m
      else if k' < k then (k', x') :: insert k x m
      else (k, x) :: m

theorem mem_insert {k : κ} {x : ω} {p : κ × ω} {m : List (κ × ω)} (h : p ∈ insert k x m) :
    p = (k, x) ∨ p ∈ m := by
  induction m with
  | nil => exact .inl (List.mem_singleton.1 h)
  | cons q m ih =>
      obtain ⟨k', x'⟩ := q
      rw [insert] at h
      split_ifs at h with hlt hgt
      · exact List.mem_cons.1 h
      · rcases List.mem_cons.1 h with rfl | h
        · exact .inr List.mem_cons_self
        · exact (ih h).imp_right (List.mem_cons_of_mem _)
      · exact (List.mem_cons.1 h).imp_right (List.mem_cons_of_mem _)

variable [LE κ] [Std.IsLinearOrder κ] [Std.LawfulOrderLT κ]

theorem Sorted.insert {m : List (κ × ω)} (h : Sorted m) (k : κ) (x : ω) :
    Sorted (OrderedMap.insert k x m) := by
  induction m with
  | nil => exact List.pairwise_singleton _ _
  | cons q m ih =>
      obtain ⟨k', x'⟩ := q
      obtain ⟨hhead, htail⟩ := List.pairwise_cons.1 h
      rw [OrderedMap.insert]
      split_ifs with hlt hgt
      · refine List.pairwise_cons.2 ⟨fun p hp => ?_, h⟩
        rcases List.mem_cons.1 hp with rfl | hp
        · exact hlt
        · exact Std.lt_trans hlt (hhead p hp)
      · refine List.pairwise_cons.2 ⟨fun p hp => ?_, ih htail⟩
        rcases mem_insert hp with rfl | hp
        · exact hgt
        · exact hhead p hp
      · -- neither is smaller, so the keys are equal
        have hk : k = k' := Std.le_antisymm (Std.not_lt.1 hgt) (Std.not_lt.1 hlt)
        exact List.pairwise_cons.2 ⟨fun p hp => hk ▸ hhead p hp, htail⟩

/-- **Entries inserted in order are appended.** -/
theorem insert_last {m : List (κ × ω)} {k : κ} (h : ∀ p ∈ m, p.1 < k) (x : ω) :
    OrderedMap.insert k x m = m ++ [(k, x)] := by
  induction m with
  | nil => rfl
  | cons q m ih =>
      obtain ⟨k', x'⟩ := q
      have hlt : k' < k := h (k', x') List.mem_cons_self
      have hnot : ¬ k < k' := Std.not_lt.2 (Std.le_of_lt hlt)
      rw [OrderedMap.insert, if_neg hnot, if_pos hlt,
        ih fun p hp => h p (List.mem_cons_of_mem _ hp)]
      rfl

end OrderedMap
