import DiceNotation.Expr

/-!
# The infix grammar

The grammar of expressions as they are written: a sum is made of products, a product of factors,
and a factor is an operand or a sum in parentheses. A sum and a product grow to the left. The
grammar does not mention precedence: that products bind tighter is said by the levels alone.
-/

namespace DiceNotation.Infix

/-- What a phrase is, from the level that binds least to the one that binds most. -/
inductive Level where
  | sum
  | product
  | factor
deriving DecidableEq

/-- `Derives level tokens e`: the grammar derives `tokens` at `level`, and `e` is the derivation
tree without its parentheses. -/
inductive Derives : Level → List Token → Expr → Prop
  | number (value : Int64) : Derives .factor [.number value] (.number value)
  | dice (literal : Literal) : Derives .factor [.dice literal] (.dice literal)
  | parens {tokens : List Token} {e : Expr} (inner : Derives .sum tokens e) :
      Derives .factor (.leftParen :: tokens ++ [.rightParen]) e
  | factor {tokens : List Token} {e : Expr} (h : Derives .factor tokens e) :
      Derives .product tokens e
  | product {left right : List Token} {l r : Expr} {op : Operator}
      (hop : op = .mul ∨ op = .div) (hl : Derives .product left l)
      (hr : Derives .factor right r) :
      Derives .product (left ++ .operator op :: right) (.binary l op r)
  | term {tokens : List Token} {e : Expr} (h : Derives .product tokens e) :
      Derives .sum tokens e
  | sum {left right : List Token} {l r : Expr} {op : Operator}
      (hop : op = .add ∨ op = .sub) (hl : Derives .sum left l)
      (hr : Derives .product right r) :
      Derives .sum (left ++ .operator op :: right) (.binary l op r)

end DiceNotation.Infix
