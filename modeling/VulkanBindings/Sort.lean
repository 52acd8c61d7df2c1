/-! Sorting by a number: elements with the same number keep their order. -/

set_option autoImplicit false

namespace VulkanBindings

variable {α : Type}

/-- Puts an element before the first one whose number is not less than its own. -/
def insertBy (key : α → Nat) (a : α) : List α → List α
  | [] => [a]
  | b :: rest => if key a ≤ key b then a :: b :: rest else b :: insertBy key a rest

def sortBy (key : α → Nat) (xs : List α) : List α :=
  xs.foldr (insertBy key) []

theorem insertBy_perm (key : α → Nat) (a : α) (xs : List α) :
    (insertBy key a xs).Perm (a :: xs) := by
  induction xs with
  | nil => exact .refl _
  | cons b rest ih =>
    rw [insertBy]
    split
    · exact .refl _
    · exact (ih.cons b).trans (.swap a b rest)

theorem sortBy_perm (key : α → Nat) (xs : List α) : (sortBy key xs).Perm xs := by
  induction xs with
  | nil => exact .refl _
  | cons a rest ih => exact (insertBy_perm key a _).trans (ih.cons a)

@[simp] theorem mem_sortBy {key : α → Nat} {xs : List α} {a : α} : a ∈ sortBy key xs ↔ a ∈ xs :=
  (sortBy_perm key xs).mem_iff

@[simp] theorem length_sortBy (key : α → Nat) (xs : List α) : (sortBy key xs).length = xs.length :=
  (sortBy_perm key xs).length_eq

theorem insertBy_pairwise {key : α → Nat} {a : α} {xs : List α}
    (sorted : xs.Pairwise (key · ≤ key ·)) : (insertBy key a xs).Pairwise (key · ≤ key ·) := by
  induction xs with
  | nil => exact List.pairwise_singleton _ _
  | cons b rest ih =>
    obtain ⟨first, later⟩ := List.pairwise_cons.1 sorted
    rw [insertBy]
    split
    · next le =>
      refine List.pairwise_cons.2 ⟨fun c mem => ?_, sorted⟩
      rcases List.mem_cons.1 mem with rfl | mem
      · exact le
      · exact Nat.le_trans le (first c mem)
    · next gt =>
      refine List.pairwise_cons.2 ⟨fun c mem => ?_, ih later⟩
      rcases List.mem_cons.1 ((insertBy_perm key a rest).mem_iff.1 mem) with rfl | mem
      · exact Nat.le_of_not_le gt
      · exact first c mem

theorem sortBy_pairwise (key : α → Nat) (xs : List α) :
    (sortBy key xs).Pairwise (key · ≤ key ·) := by
  induction xs with
  | nil => exact .nil
  | cons a rest ih => exact insertBy_pairwise ih

theorem insertBy_of_le {key : α → Nat} {a : α} {xs : List α} (above : ∀ b ∈ xs, key a ≤ key b) :
    insertBy key a xs = a :: xs := by
  cases xs with
  | nil => rfl
  | cons b rest => rw [insertBy, if_pos (above b List.mem_cons_self)]

theorem insertBy_append {key : α → Nat} {a : α} {smaller later : List α}
    (below : ∀ b ∈ smaller, key b < key a) (above : ∀ b ∈ later, key a ≤ key b) :
    insertBy key a (smaller ++ later) = smaller ++ a :: later := by
  induction smaller with
  | nil => exact insertBy_of_le above
  | cons b rest ih =>
    have first : ¬key a ≤ key b := Nat.not_le.2 (below b List.mem_cons_self)
    have tail := ih fun c mem => below c (List.mem_cons_of_mem b mem)
    rw [List.cons_append, insertBy, if_neg first, tail, List.cons_append]

theorem filter_insertBy {key : α → Nat} (keep : α → Bool) {a : α} {xs : List α}
    (sorted : xs.Pairwise (key · ≤ key ·)) :
    (insertBy key a xs).filter keep =
      if keep a then insertBy key a (xs.filter keep) else xs.filter keep := by
  induction xs with
  | nil => cases kept : keep a <;> simp [insertBy, kept]
  | cons b rest ih =>
    obtain ⟨first, later⟩ := List.pairwise_cons.1 sorted
    rw [insertBy]
    split
    · next le =>
      have above : ∀ c ∈ (b :: rest).filter keep, key a ≤ key c := by
        intro c mem
        rcases List.mem_cons.1 (List.mem_filter.1 mem).1 with rfl | mem
        · exact le
        · exact Nat.le_trans le (first c mem)
      rw [List.filter_cons, insertBy_of_le above]
    · next gt =>
      rw [List.filter_cons, ih later, List.filter_cons]
      cases kept : keep b
      · rfl
      · cases keep a <;> simp [insertBy, gt]

theorem filter_sortBy (key : α → Nat) (keep : α → Bool) (xs : List α) :
    (sortBy key xs).filter keep = sortBy key (xs.filter keep) := by
  induction xs with
  | nil => rfl
  | cons a rest ih =>
    have step := filter_insertBy keep (a := a) (sortBy_pairwise key rest)
    change (insertBy key a (sortBy key rest)).filter keep = _
    rw [step, ih, List.filter_cons]
    cases keep a <;> rfl

theorem insertBy_congr {key key' : α → Nat} {a : α} {xs : List α} (first : key a = key' a)
    (same : ∀ b ∈ xs, key b = key' b) : insertBy key a xs = insertBy key' a xs := by
  induction xs with
  | nil => rfl
  | cons b rest ih =>
    rw [insertBy, insertBy, first, same b List.mem_cons_self,
      ih fun c mem => same c (List.mem_cons_of_mem b mem)]

theorem sortBy_congr {key key' : α → Nat} {xs : List α} (same : ∀ a ∈ xs, key a = key' a) :
    sortBy key xs = sortBy key' xs := by
  induction xs with
  | nil => rfl
  | cons a rest ih =>
    change insertBy key a (sortBy key rest) = insertBy key' a (sortBy key' rest)
    rw [ih fun b mem => same b (List.mem_cons_of_mem a mem)]
    exact insertBy_congr (same a List.mem_cons_self) fun b mem =>
      same b (List.mem_cons_of_mem a (mem_sortBy.1 mem))

/-- Sorting is stable: it is the stable merge sort by the same number. -/
theorem sortBy_eq_mergeSort (key : α → Nat) (xs : List α) :
    sortBy key xs = xs.mergeSort fun a b => key a ≤ key b := by
  induction xs with
  | nil => exact List.mergeSort_nil.symm
  | cons a rest ih =>
    have trans (a b c : α) (le : decide (key a ≤ key b)) (le' : decide (key b ≤ key c)) :
        decide (key a ≤ key c) := by
      rw [decide_eq_true_eq] at *
      exact Nat.le_trans le le'
    have total (a b : α) : decide (key a ≤ key b) || decide (key b ≤ key a) := by
      simpa using Nat.le_total (key a) (key b)
    obtain ⟨smaller, later, whole, tail, below⟩ := List.mergeSort_cons trans total a rest
    have sorted := List.pairwise_mergeSort trans total (a :: rest)
    rw [whole] at sorted
    have above := (List.pairwise_cons.1 (List.pairwise_append.1 sorted).2.1).1
    rw [sortBy, List.foldr_cons, ← sortBy, ih, tail, whole]
    exact insertBy_append (fun b mem => by simpa using below b mem)
      fun b mem => by simpa using above b mem

end VulkanBindings
