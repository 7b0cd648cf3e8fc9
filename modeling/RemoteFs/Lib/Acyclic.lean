import Mathlib.Logic.Relation

/-!
# Keeping a directed graph acyclic

A directed graph is a relation.  Removing edges keeps it acyclic.  So does
adding edges that all lead into a vertex without successors, and adding edges
that all start at one vertex, provided that this vertex does not come to lie on
a cycle.
-/

namespace RemoteFs

variable {α : Type} {r r' : α → α → Prop}

def Acyclic (r : α → α → Prop) : Prop := ∀ a, ¬Relation.TransGen r a a

namespace Acyclic

lemma mono (hacyclic : Acyclic r) (hedges : ∀ {a b}, r' a b → r a b) : Acyclic r' :=
  fun a hcycle => hacyclic a (hcycle.lift id fun _ _ => hedges)

/-- All new edges lead into `p`, which has no successor. -/
lemma of_sink (hacyclic : Acyclic r) {p : α} (hedges : ∀ {a b}, r' a b → r a b ∨ b = p)
    (hsink : ∀ b, ¬r' p b) : Acyclic r' := by
  have hpath : ∀ {a b}, Relation.TransGen r' a b →
      Relation.TransGen r a b ∨ b = p := by
    intro a b hreach
    induction hreach with
    | single hed => exact (hedges hed).imp_left .single
    | tail _ hed ih =>
      rcases ih with hold | rfl
      · exact (hedges hed).imp_left hold.tail
      · exact absurd hed (hsink _)
  intro a hcycle
  rcases hpath hcycle with hold | rfl
  · exact hacyclic a hold
  · obtain ⟨b, hed, -⟩ := Relation.TransGen.head'_iff.mp hcycle
    exact hsink b hed

/-- All new edges start at `p`, which does not lie on a cycle. -/
lemma of_source (hacyclic : Acyclic r) {p : α} (hedges : ∀ {a b}, r' a b → r a b ∨ a = p)
    (hsource : ¬Relation.TransGen r' p p) : Acyclic r' := by
  have hpath : ∀ {a b}, Relation.TransGen r' a b →
      Relation.TransGen r a b ∨ (Relation.ReflTransGen r' a p ∧ Relation.TransGen r' p b) := by
    intro a b hreach
    induction hreach with
    | single hed =>
      rcases hedges hed with hold | rfl
      · exact .inl (.single hold)
      · exact .inr ⟨.refl, .single hed⟩
    | tail hbefore hed ih =>
      rcases ih with hold | ⟨hto, hfrom⟩
      · rcases hedges hed with hedge' | rfl
        · exact .inl (hold.tail hedge')
        · exact .inr ⟨hbefore.to_reflTransGen, .single hed⟩
      · exact .inr ⟨hto, hfrom.tail hed⟩
  intro a hcycle
  rcases hpath hcycle with hold | ⟨hto, hfrom⟩
  · exact hacyclic a hold
  · exact hsource (hfrom.trans_left hto)

end Acyclic

end RemoteFs
