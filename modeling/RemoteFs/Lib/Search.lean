import Mathlib.Logic.Relation
import Mathlib.Tactic

/-!
# Depth-first search with an explicit stack

A finite directed graph is a list of edges.  The search starts from the
successors of one vertex and asks whether it can come back to that vertex.
Every iteration removes one entry from the stack, and a vertex is expanded at
most once, so as many iterations as there are edges are enough.
-/

namespace RemoteFs.Search

variable {α : Type} [DecidableEq α]

variable (edges : List (α × α))

def successors (a : α) : List α :=
  (edges.filter fun edge => edge.1 = a).map Prod.snd

/-- The loop over the stack, whose top is the head of the list. -/
def search (edges : List (α × α)) (target : α) : ℕ → List α → List α → Bool
  | _, _, [] => false
  | 0, _, _ :: _ => false
  | fuel + 1, seen, current :: stack =>
    if current = target then true
    else if current ∈ seen then search edges target fuel seen stack
    else search edges target fuel (current :: seen)
      ((successors edges current).reverse ++ stack)

/-- Whether a vertex lies on a cycle. -/
def onCycle (target : α) : Bool :=
  search edges target edges.length [] (successors edges target).reverse

def Edge (a b : α) : Prop := (a, b) ∈ edges

variable {edges : List (α × α)}

lemma mem_successors {a b : α} : b ∈ successors edges a ↔ Edge edges a b := by
  unfold successors Edge
  constructor
  · intro hm
    obtain ⟨edge, hed, rfl⟩ := List.mem_map.mp hm
    obtain ⟨hed, hsource⟩ := List.mem_filter.mp hed
    have hfst : edge.1 = a := by simpa using hsource
    rwa [← hfst]
  · intro hed
    exact List.mem_map.mpr ⟨(a, b), List.mem_filter.mpr ⟨hed, by simp⟩, rfl⟩

variable {target : α} {seen stack : List α}

lemma search_sound {fuel : ℕ} (hstack : ∀ a ∈ stack, Relation.TransGen (Edge edges) target a)
    (hf : search edges target fuel seen stack = true) :
    Relation.TransGen (Edge edges) target target := by
  fun_induction search edges target fuel seen stack with
  | case1 => cases hf
  | case2 => cases hf
  | case3 => exact hstack target List.mem_cons_self
  | case4 fuel seen current stack _ _ ih =>
    exact ih (fun a ha => hstack a (List.mem_cons_of_mem _ ha)) hf
  | case5 fuel seen current stack _ _ ih =>
    refine ih (fun a ha => ?_) hf
    rcases List.mem_append.mp ha with hpushed | hkept
    · exact (hstack current List.mem_cons_self).tail
        (mem_successors.mp (List.mem_reverse.mp hpushed))
    · exact hstack a (List.mem_cons_of_mem _ hkept)

/-- The edges whose source may still be expanded. -/
def unexpanded (edges : List (α × α)) (target : α) (seen : List α) : ℕ :=
  edges.countP fun edge => decide (edge.1 ∉ seen ∧ edge.1 ≠ target)

lemma unexpanded_cons (edges : List (α × α)) {current : α} (hseen : current ∉ seen)
    (htarget : current ≠ target) :
    unexpanded edges target (current :: seen) + (successors edges current).length =
      unexpanded edges target seen := by
  unfold unexpanded successors
  rw [List.length_map]
  induction edges with
  | nil => rfl
  | cons edge edges ih =>
    by_cases hsource : edge.1 = current
    · have hnew : ¬(edge.1 ∉ current :: seen ∧ edge.1 ≠ target) := by simp [hsource]
      have hold : edge.1 ∉ seen ∧ edge.1 ≠ target := by
        rw [hsource]
        exact ⟨hseen, htarget⟩
      rw [List.countP_cons_of_neg (by simpa using hnew),
        List.countP_cons_of_pos (by simpa using hold),
        List.filter_cons_of_pos (by simpa using hsource)]
      simp only [List.length_cons]
      omega
    have hsame : (edge.1 ∉ current :: seen ∧ edge.1 ≠ target) ↔
        (edge.1 ∉ seen ∧ edge.1 ≠ target) := by
      simp [hsource]
    rw [List.countP_cons, List.countP_cons, List.filter_cons_of_neg (by simpa using hsource)]
    simp only [hsame]
    omega

omit [DecidableEq α] in
/-- With an empty stack the expanded vertices are closed under edges. -/
lemma no_return (htarget : target ∉ seen)
    (hclosed : ∀ a b, a ∈ seen ∨ a = target → Edge edges a b → b ∈ seen ∨ b ∈ ([] : List α)) :
    ¬Relation.TransGen (Edge edges) target target := by
  intro hcycle
  have hreach : ∀ b, Relation.TransGen (Edge edges) target b → b ∈ seen := by
    intro b hpath
    induction hpath with
    | single hed => simpa using hclosed _ _ (.inr rfl) hed
    | tail _ hed hm => simpa using hclosed _ _ (.inl hm) hed
  exact htarget (hreach target hcycle)

lemma search_complete {fuel : ℕ} (htarget : target ∉ seen)
    (hclosed : ∀ a b, a ∈ seen ∨ a = target → Edge edges a b → b ∈ seen ∨ b ∈ stack)
    (hfuel : stack.length + unexpanded edges target seen ≤ fuel)
    (hmissed : search edges target fuel seen stack = false) :
    ¬Relation.TransGen (Edge edges) target target := by
  fun_induction search edges target fuel seen stack with
  | case1 => exact no_return htarget hclosed
  | case2 => simp at hfuel
  | case3 => cases hmissed
  | case4 fuel seen current stack _ hseen ih =>
    refine ih htarget (fun a b ha hed => ?_) ?_ hmissed
    · rcases hclosed a b ha hed with hb | hb
      · exact .inl hb
      · exact (List.mem_cons.mp hb).imp_left fun (heq : b = current) => heq ▸ hseen
    · simp only [List.length_cons] at hfuel
      omega
  | case5 fuel seen current stack hcur hseen ih =>
    refine ih ?_ (fun a b ha hed => ?_) ?_ hmissed
    · simp only [List.mem_cons, not_or]
      exact ⟨fun h => hcur h.symm, htarget⟩
    · by_cases hexpanded : a = current
      · subst hexpanded
        exact .inr (List.mem_append_left _ (List.mem_reverse.mpr (mem_successors.mpr hed)))
      · have hbefore := ha.imp_left (List.mem_of_ne_of_mem hexpanded)
        rcases hclosed a b hbefore hed with hb | hb
        · exact .inl (List.mem_cons_of_mem _ hb)
        · rcases List.mem_cons.mp hb with rfl | hb
          · exact .inl List.mem_cons_self
          · exact .inr (List.mem_append_right _ hb)
    · have hcount := unexpanded_cons edges hseen hcur
      simp only [List.length_cons] at hfuel
      simp only [List.length_append, List.length_reverse]
      omega

lemma onCycle_iff :
    onCycle edges target = true ↔ Relation.TransGen (Edge edges) target target := by
  constructor
  · intro hf
    apply search_sound _ hf
    intro a ha
    exact .single (mem_successors.mp (List.mem_reverse.mp ha))
  · intro hcycle
    by_contra hmissed
    rw [Bool.not_eq_true] at hmissed
    apply search_complete _ _ _ hmissed hcycle
    · simp
    · intro a b ha hed
      rcases ha with ha | rfl
      · simp at ha
      · exact .inr (List.mem_reverse.mpr (mem_successors.mpr hed))
    · have hlen : (successors edges target).length + unexpanded edges target [] = edges.length := by
        unfold successors unexpanded
        rw [List.length_map, ← List.countP_eq_length_filter]
        have hcount := List.length_eq_countP_add_countP
          (fun edge : α × α => decide (edge.1 = target)) (l := edges)
        simpa [Nat.add_comm] using hcount.symm
      rw [List.length_reverse]
      exact hlen.le

end RemoteFs.Search
