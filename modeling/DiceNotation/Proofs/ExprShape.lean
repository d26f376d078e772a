import DiceNotation.Expr
import Mathlib.Logic.ExistsUnique
import Mathlib.Logic.Function.Basic

/-!
# Trees and their post-order

A list of tokens reduces to a single value exactly when it is the post-order of a tree, and then of
one tree only. Both directions go through `Expr.build?`, which rebuilds the trees on a stack.
-/

namespace DiceNotation.Expr

open Token

/-- The post-orders of a stack of trees, the lowest tree first. -/
def forest (trees : List Expr) : List Token :=
  trees.reverse.flatMap postOrder

@[simp] theorem forest_cons (e : Expr) (trees : List Expr) :
    forest (e :: trees) = forest trees ++ e.postOrder := by
  simp [forest]

/-- Reading the post-order of a tree puts that tree on the stack. -/
theorem build?_postOrder (e : Expr) : ∀ (trees : List Expr) (rest : List Token),
    build? trees (e.postOrder ++ rest) = build? (e :: trees) rest := by
  induction e with
  | number value => intro trees rest; rfl
  | dice literal => intro trees rest; rfl
  | binary left op right ihl ihr =>
      intro trees rest
      simp only [postOrder, List.append_assoc, ihl, ihr]
      rfl

theorem postOrder_injective : Function.Injective postOrder := by
  intro e e' h
  have hbuild : build? [e] [] = build? [e'] [] := by
    rw [← build?_postOrder e [] [], ← build?_postOrder e' [] [], h]
  simpa [build?] using hbuild

/-- No token is lost: the trees built are those of the tokens, behind those there before. -/
theorem forest_build? : ∀ {tokens : List Token} {trees built : List Expr},
    build? trees tokens = some built → forest built = forest trees ++ tokens := by
  intro tokens
  induction tokens with
  | nil =>
      intro trees built h
      cases h
      simp
  | cons token tokens ih =>
      intro trees built h
      match token, trees, h with
      | .number value, trees, h => simpa [postOrder] using ih h
      | .dice literal, trees, h => simpa [postOrder] using ih h
      | .operator op, right :: left :: below, h => simpa [postOrder] using ih h

/-- Building fails where counting does, and counting counts the trees. -/
theorem build?_length : ∀ (tokens : List Token) (trees : List Expr),
    (build? trees tokens).map List.length = waiting? trees.length tokens := by
  intro tokens
  induction tokens with
  | nil => intro trees; rfl
  | cons token tokens ih =>
      intro trees
      -- Only an operator looks at the stack, and only at whether two trees are there.
      match token, trees with
      | .number value, trees => exact ih (.number value :: trees)
      | .dice literal, trees => exact ih (.dice literal :: trees)
      | .operator op, [] => rfl
      | .operator op, [_] => rfl
      | .operator op, right :: left :: below =>
          have hdepth : ¬ below.length + 1 + 1 < 2 := by omega
          simpa [build?, waiting?, hdepth] using ih (.binary left op right :: below)
      | .leftParen, trees => rfl
      | .rightParen, trees => rfl

theorem waiting?_postOrder (e : Expr) (depth : Nat) (rest : List Token) :
    waiting? depth (e.postOrder ++ rest) = waiting? (depth + 1) rest := by
  have h := build?_length (e.postOrder ++ rest) (List.replicate depth e)
  rw [build?_postOrder, build?_length] at h
  simpa using h.symm

theorem reduces_postOrder (e : Expr) : Reduces e.postOrder := by
  simpa [Reduces, waiting?] using waiting?_postOrder e 0 []

theorem exists_postOrder_eq {tokens : List Token} (h : Reduces tokens) :
    ∃ e : Expr, e.postOrder = tokens := by
  have hlength : (build? [] tokens).map List.length = some 1 :=
    (build?_length tokens []).trans h
  obtain ⟨trees, hbuild, hone⟩ := Option.map_eq_some_iff.mp hlength
  obtain ⟨e, rfl⟩ := List.length_eq_one_iff.mp hone
  exact ⟨e, by simpa [forest] using forest_build? hbuild⟩

theorem reduces_iff_existsUnique {tokens : List Token} :
    Reduces tokens ↔ ∃! e : Expr, e.postOrder = tokens := by
  constructor
  · intro h
    obtain ⟨e, he⟩ := exists_postOrder_eq h
    exact ⟨e, he, fun e' he' => postOrder_injective (he'.trans he.symm)⟩
  · rintro ⟨e, rfl, -⟩
    exact reduces_postOrder e

end DiceNotation.Expr
