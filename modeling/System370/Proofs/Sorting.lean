import System370.Bytes

/-!
# Sorting by a key

`sortByKey` rearranges a list and puts it in the order of the keys.  A list
without its repetitions has every element once (`nodup_eraseDups`).

An ordered list can be read bin by bin: if the keys of every bin are below those
of the next, the elements of the bins one behind the other are the elements that
have a bin (`flatMap_filter_of_pairwise`).
-/

namespace System370

variable {α : Type} (key : α → Int)

/-- Inserting an element adds it and nothing else. -/
theorem insertByKey_perm (a : α) (items : List α) :
    (insertByKey key a items).Perm (a :: items) := by
  induction items with
  | nil => exact List.Perm.refl _
  | cons b rest ih =>
      unfold insertByKey
      split
      · exact List.Perm.refl _
      · exact (ih.cons b).trans (List.Perm.swap a b rest)

/-- Sorting keeps the elements of a list. -/
theorem sortByKey_perm (items : List α) : (sortByKey key items).Perm items := by
  induction items with
  | nil => exact List.Perm.refl _
  | cons a rest ih => exact (insertByKey_perm key a _).trans (ih.cons a)

/-- Inserting into an ordered list keeps the order. -/
theorem insertByKey_pairwise (a : α) {items : List α}
    (h : items.Pairwise fun x y => key x ≤ key y) :
    (insertByKey key a items).Pairwise fun x y => key x ≤ key y := by
  induction items with
  | nil => exact List.pairwise_singleton _ a
  | cons b rest ih =>
      obtain ⟨hb, hrest⟩ := List.pairwise_cons.mp h
      unfold insertByKey
      split
      · rename_i hle
        refine List.pairwise_cons.mpr ⟨fun x hx => ?_, h⟩
        rcases List.mem_cons.mp hx with rfl | hx
        · exact hle
        · exact Int.le_trans hle (hb x hx)
      · rename_i hle
        refine List.pairwise_cons.mpr ⟨fun x hx => ?_, ih hrest⟩
        rcases List.mem_cons.mp ((insertByKey_perm key a rest).mem_iff.mp hx)
          with rfl | hx
        · omega
        · exact hb x hx

/-- A sorted list is in the order of its keys. -/
theorem sortByKey_pairwise (items : List α) :
    (sortByKey key items).Pairwise fun x y => key x ≤ key y := by
  induction items with
  | nil => exact List.Pairwise.nil
  | cons a rest ih => exact insertByKey_pairwise key a ih

/-- Sorting different elements by a key that tells them apart. -/
theorem sortByKey_pairwise_lt {items : List α} (hkey : Function.Injective key)
    (h : items.Nodup) :
    (sortByKey key items).Pairwise fun x y => key x < key y := by
  have hnodup : (sortByKey key items).Nodup :=
    (sortByKey_perm key items).nodup_iff.mpr h
  exact (sortByKey_pairwise key items).imp₂
    (fun _ _ hle hne => Int.lt_iff_le_and_ne.mpr ⟨hle,
      fun heq => hne (hkey heq)⟩) hnodup

theorem nodup_eraseDups [BEq α] [LawfulBEq α] : ∀ items :
    List α, items.eraseDups.Nodup
  | [] => by simp
  | a :: rest => by
    rw [List.eraseDups_cons, List.nodup_cons]
    refine ⟨fun hin => ?_, nodup_eraseDups _⟩
    rw [List.mem_eraseDups] at hin
    simp at hin
  termination_by items => items.length
  decreasing_by exact Nat.lt_succ_of_le (List.length_filter_le _ _)

/-! ### Bins -/

variable {key} {items : List α} (h : items.Pairwise fun x y => key x ≤ key y)
include h

/-- Two classes of a sorted list, the first with the smaller keys, stand one
behind the other. -/
theorem filter_append_filter_of_pairwise {p q : α → Bool}
    (hpq : ∀ x y, p x = true → q y = true → key x < key y) :
    items.filter p ++ items.filter q = items.filter fun x => p x || q x := by
  induction items with
  | nil => rfl
  | cons x rest ih =>
      obtain ⟨hx, hrest⟩ := List.pairwise_cons.mp h
      rw [List.filter_cons, List.filter_cons, List.filter_cons, ← ih hrest]
      cases hp : p x with
      | true =>
          have hq : q x = false := by
            cases hq : q x with
            | false => rfl
            | true => exact absurd (hpq x x hp hq) (Int.lt_irrefl _)
          simp [hq]
      | false =>
          cases hq : q x with
          | false => simp
          | true =>
              -- nothing of the first bin stands behind an element of the second
              have hnone : rest.filter p = [] := by
                rw [List.filter_eq_nil_iff]
                intro y hy hpy
                exact absurd (hpq y x hpy hq) (Int.not_lt.mpr (hx y hy))
              simp [hnone]

/-- So do the classes of several bins. -/
theorem flatMap_filter_of_pairwise {β : Type} {bins : List β}
    {has : β → α → Bool}
    (hbins : bins.Pairwise fun b c => ∀ x y, has b x = true → has c y = true →
      key x < key y) :
    (bins.flatMap fun b => items.filter (has b)) =
      items.filter fun x => bins.any (has · x) := by
  induction bins with
  | nil => simp
  | cons b rest ih =>
      obtain ⟨hb, hrest⟩ := List.pairwise_cons.mp hbins
      rw [List.flatMap_cons, ih hrest, filter_append_filter_of_pairwise h]
      · rfl
      · intro x y hx hy
        obtain ⟨c, hc, hy⟩ := List.any_eq_true.mp hy
        exact hb c hc x y hx hy

end System370
