import Mathlib.Data.List.Nodup

/-!
# First in, first out

A queue is a list without repetitions.  It loses the entries that do not stay and
grows at its end, so the entries that stay keep their order and nothing overtakes
them.
-/

namespace RemoteFs.Fifo

variable {α : Type} {stays : α → Bool} {q q' q'' : List α}

/-- The later queue keeps exactly the entries that stay, in order, and has new
ones behind them. -/
def Later (stays : α → Bool) (q q' : List α) : Prop :=
  ∃ new, q' = q.filter stays ++ new ∧ ∀ x ∈ new, x ∉ q

lemma Later.refl (hst : ∀ x ∈ q, stays x = true) : Later stays q q := by
  refine ⟨[], ?_, fun x hx => absurd hx List.not_mem_nil⟩
  rw [List.filter_eq_self.mpr hst, List.append_nil]

lemma Later.push {x : α} (hst : ∀ y ∈ q, stays y = true) (hnew : x ∉ q) :
    Later stays q (q ++ [x]) := by
  refine ⟨[x], ?_, ?_⟩
  · rw [List.filter_eq_self.mpr hst]
  · intro y hy
    rw [List.mem_singleton] at hy
    rwa [hy]

lemma Later.erase [DecidableEq α] {x : α} (hnodup : q.Nodup)
    (hst : ∀ y ∈ q.erase x, stays y = true) (hgone : stays x = false) :
    Later stays q (q.erase x) := by
  refine ⟨[], ?_, fun x hx => absurd hx List.not_mem_nil⟩
  rw [List.append_nil, hnodup.erase_eq_filter]
  refine List.filter_congr fun y hy => ?_
  by_cases heq : y = x
  · rw [heq, hgone]
    simp
  · rw [hst y ((List.mem_erase_of_ne heq).mpr hy)]
    simpa using heq

lemma Later.mem (hlater : Later stays q q') {x : α} (hx : x ∈ q)
    (hst : stays x = true) : x ∈ q' := by
  obtain ⟨new, rfl, -⟩ := hlater
  exact List.mem_append_left _ (List.mem_filter.mpr ⟨hx, hst⟩)

lemma Later.trans {stays' : α → Bool} (hfirst : Later stays q q')
    (hsecond : Later stays' q' q'') (hearlier : ∀ x ∈ q, stays' x = true → stays x = true)
    (hqueued : ∀ x ∈ q'', stays' x = true) : Later stays' q q'' := by
  obtain ⟨new, rfl, hnew⟩ := hfirst
  obtain ⟨new', rfl, hnew'⟩ := hsecond
  refine ⟨new.filter stays' ++ new', ?_, ?_⟩
  · rw [List.filter_append, List.filter_filter, List.append_assoc]
    congr 1
    refine List.filter_congr fun x hx => ?_
    cases hst : stays' x with
    | false => rfl
    | true => simp [hearlier x hx hst]
  · intro x hx hm
    rcases List.mem_append.mp hx with hold | hlast
    · exact hnew x (List.mem_of_mem_filter hold) hm
    · have hst := hqueued x (List.mem_append_right _ hlast)
      exact hnew' x hlast (List.mem_append_left _
        (List.mem_filter.mpr ⟨hm, hearlier x hm hst⟩))

lemma Later.ahead {x y : α} (hlater : Later stays q q') (hx : x ∈ q) (hst : stays x = true)
    (hahead : y ∈ q → [x, y].Sublist q) (hy : y ∈ q') : [x, y].Sublist q' := by
  obtain ⟨new, rfl, -⟩ := hlater
  rcases List.mem_append.mp hy with hold | hnew
  · obtain ⟨hm, hkept⟩ := List.mem_filter.mp hold
    have hboth : [x, y].filter stays = [x, y] := by
      rw [List.filter_cons_of_pos hst, List.filter_cons_of_pos hkept, List.filter_nil]
    rw [← hboth]
    exact ((hahead hm).filter stays).trans (List.sublist_append_left _ _)
  · have hfront : [x].Sublist (q.filter stays) :=
      List.singleton_sublist.mpr (List.mem_filter.mpr ⟨hx, hst⟩)
    exact hfront.append (List.singleton_sublist.mpr hnew)

lemma not_ahead_of_head {x y : α} (hnodup : q.Nodup) (hne : x ≠ y)
    (hhead : q.head? = some y) : ¬[x, y].Sublist q := by
  intro hahead
  cases q with
  | nil => cases hhead
  | cons first rest =>
    cases hhead
    obtain ⟨hnotin, -⟩ := List.nodup_cons.mp hnodup
    rcases List.sublist_cons_iff.mp hahead with hrest | ⟨tail, heq, -⟩
    · exact hnotin (hrest.subset (List.mem_cons_of_mem _ List.mem_cons_self))
    · exact hne (List.cons.inj heq).1

end RemoteFs.Fifo
