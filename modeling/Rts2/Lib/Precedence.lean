import Mathlib.Order.Lattice

/-! # Precedence of operators

An expression is a first operand and operators with an operand behind each. A looser operator is a
smaller one; operators of one level are read from left to right. -/
namespace Rts2.Lib

variable {α ω : Type*} [LinearOrder ω]

inductive Tree (α ω : Type*) where
  | leaf (a : α)
  | node (left : Tree α ω) (op : ω) (right : Tree α ω)

/-- The tree of an expression: its root is the loosest operator, the last one of these. -/
inductive Reads : α → List (ω × α) → Tree α ω → Prop where
  | leaf (a : α) : Reads a [] (.leaf a)
  | node {a b : α} {op : ω} {l r : List (ω × α)} {t u : Tree α ω} (left : Reads a l t)
    (right : Reads b r u) (hl : ∀ x ∈ l, op ≤ x.1) (hr : ∀ x ∈ r, op < x.1) :
    Reads a (l ++ (op, b) :: r) (.node t op u)

/-- An operator behind all others that is not tighter than any is the root. -/
theorem Reads.snoc {a b : α} {op : ω} {l : List (ω × α)} {t : Tree α ω} (h : Reads a l t)
    (hop : ∀ x ∈ l, op ≤ x.1) : Reads a (l ++ [(op, b)]) (.node t op (.leaf b)) :=
  .node h (.leaf b) hop fun _ hx => absurd hx List.not_mem_nil

end Rts2.Lib
