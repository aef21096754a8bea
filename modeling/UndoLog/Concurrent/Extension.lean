import Mathlib.Data.List.Perm.Basic

/-!
# Ordering overlapping operations

Operations that overlap in time are only partly ordered: one comes before another if it has
ended when the other begins. A list of some of them that never contradicts this order can be
completed to a list of all of them that does not contradict it either.
-/

namespace Concurrent

variable {α : Type} {before : α → α → Prop}

/-- A list that contradicts no order between its members. -/
def InOrder (before : α → α → Prop) (l : List α) : Prop := l.Pairwise fun a b => ¬before b a

/-- One more operation fits into a list of operations, in front of the first one that it comes
before. -/
theorem InOrder.exists_insert {l : List α} (hl : InOrder before l) (x : α)
    (htrans : ∀ a ∈ l, ∀ b ∈ l, before a x → before x b → before a b)
    (hirrefl : ∀ a ∈ l, before a x → ¬before x a) :
    ∃ l', l'.Perm (x :: l) ∧ InOrder before l' ∧ l.Sublist l' := by
  classical
  induction l with
  | nil => exact ⟨[x], .refl _, List.pairwise_singleton _ _, List.nil_sublist _⟩
  | cons y rest ih =>
    obtain ⟨hy, hrest⟩ := List.pairwise_cons.mp hl
    by_cases hxy : before x y
    · refine ⟨x :: y :: rest, .refl _, List.pairwise_cons.mpr ⟨?_, hl⟩, List.sublist_cons_self _ _⟩
      intro a ha hax
      rcases List.mem_cons.mp ha with rfl | ha
      · exact hirrefl _ List.mem_cons_self hax hxy
      · exact hy a ha (htrans a (List.mem_cons_of_mem _ ha) y List.mem_cons_self hax hxy)
    · obtain ⟨l', hperm, horder, hsub⟩ := ih hrest
        (fun a ha b hb => htrans a (List.mem_cons_of_mem _ ha) b (List.mem_cons_of_mem _ hb))
        fun a ha => hirrefl a (List.mem_cons_of_mem _ ha)
      refine ⟨y :: l', (hperm.cons y).trans (.swap _ _ _), List.pairwise_cons.mpr ⟨?_, horder⟩,
        hsub.cons_cons y⟩
      intro a ha
      rcases List.mem_cons.mp (hperm.subset ha) with rfl | ha
      · exact hxy
      · exact hy a ha

/-- A list that contradicts no order can be completed. -/
theorem InOrder.exists_extension {l all : List α} (hl : InOrder before l) (hnodup : l.Nodup)
    (hsub : l ⊆ all) (hall : all.Nodup)
    (htrans : ∀ a ∈ all, ∀ b ∈ all, ∀ c ∈ all, before a b → before b c → before a c)
    (hirrefl : ∀ a ∈ all, ¬before a a) :
    ∃ order, order.Perm all ∧ InOrder before order ∧ l.Sublist order := by
  classical
  -- the missing operations are inserted one after the other
  have hmissing : ∀ missing : List α, missing ⊆ all → (l ++ missing).Nodup →
      ∃ order, order.Perm (l ++ missing) ∧ InOrder before order ∧ l.Sublist order := by
    intro missing
    induction missing with
    | nil => exact fun _ _ => ⟨l, by simp, hl, .refl _⟩
    | cons x rest ih =>
      intro hmem hnodup
      obtain ⟨hx, hrest⟩ := List.cons_subset.mp hmem
      have hswap : (l ++ x :: rest).Perm (x :: (l ++ rest)) := List.perm_middle
      have hless : (l ++ rest).Nodup := (List.nodup_cons.mp (hswap.nodup_iff.mp hnodup)).2
      obtain ⟨order, hperm, horder, hkept⟩ := ih hrest hless
      have hin : ∀ a ∈ order, a ∈ all := by
        intro a ha
        rcases List.mem_append.mp (hperm.subset ha) with ha | ha
        · exact hsub ha
        · exact hrest ha
      obtain ⟨order', hperm', horder', hkept'⟩ := horder.exists_insert x
        (fun a ha b hb hax hxb => htrans a (hin a ha) x hx b (hin b hb) hax hxb)
        fun a ha hax hxa => hirrefl a (hin a ha) (htrans a (hin a ha) x hx a (hin a ha) hax hxa)
      exact ⟨order', (hperm'.trans (hperm.cons x)).trans hswap.symm, horder', hkept.trans hkept'⟩
  have hsplit : (l ++ all.filter (· ∉ l)).Perm all := by
    refine (List.perm_ext_iff_of_nodup ?_ hall).mpr fun a => ?_
    · refine List.nodup_append.mpr ⟨hnodup, hall.filter _, ?_⟩
      rintro a ha b hb rfl
      simp [ha] at hb
    · constructor
      · intro ha
        rcases List.mem_append.mp ha with ha | ha
        · exact hsub ha
        · exact (List.mem_filter.mp ha).1
      · intro ha
        by_cases hal : a ∈ l
        · exact List.mem_append_left _ hal
        · exact List.mem_append_right _ (List.mem_filter.mpr ⟨ha, by simpa using hal⟩)
  obtain ⟨order, hperm, horder, hkept⟩ := hmissing (all.filter (· ∉ l))
    (fun a ha => (List.mem_filter.mp ha).1) (hsplit.nodup_iff.mpr hall)
  exact ⟨order, hperm.trans hsplit, horder, hkept⟩

end Concurrent
