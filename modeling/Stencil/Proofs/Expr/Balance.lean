import Stencil.Proofs.Expr.Grammar

/-!
# Braces balance

A phrase closes every brace that it opens, and no other. So the braces of an expression
that is read balance, which is what tells where it ends inside a template.
-/

namespace Stencil.Expr

variable {σ : Symbol} {ts : List Token}

/-- How many braces are open after a token, if it closes none that is not. -/
def Token.braces (depth : Nat) : Token → Option Nat
  | .mark .braceOpen => some (depth + 1)
  | .mark .braceClose => if depth = 0 then none else some (depth - 1)
  | _ => some depth

/-- How many braces are open after tokens, if they close none that is not. -/
def braceDepth (depth : Nat) : List Token → Option Nat
  | [] => some depth
  | t :: ts => (t.braces depth).bind fun depth => braceDepth depth ts

theorem Token.braces_of_literal? {t : Token} {e : Tree} (h : t.literal? = some e) (depth : Nat) :
    t.braces depth = some depth := by
  cases t with
  | mark m => cases h
  | _ => rfl

theorem Token.braces_of_key? {t : Token} {k : Text} (h : t.key? = some k) (depth : Nat) :
    t.braces depth = some depth := by
  cases t with
  | mark m => cases h
  | _ => rfl

theorem UnaryOp.braces_token (op : UnaryOp) (depth : Nat) : op.token.braces depth = some depth := by
  cases op <;> rfl

theorem braceDepth_cons {t : Token} {depth : Nat} (h : t.braces depth = some depth) :
    braceDepth depth (t :: ts) = braceDepth depth ts := by
  rw [braceDepth, h, Option.bind_some]

theorem braceDepth_enclosed {opening closing : Mark} {depth inner : Nat} {rest : List Token}
    (hts : ∀ depth rest, braceDepth depth (ts ++ rest) = braceDepth depth rest)
    (hopening : (Token.mark opening).braces depth = some inner)
    (hclosing : (Token.mark closing).braces inner = some depth) :
    braceDepth depth (enclosed opening ts closing ++ rest) = braceDepth depth rest := by
  rw [enclosed, List.cons_append, List.append_assoc, braceDepth, hopening, Option.bind_some, hts,
    List.singleton_append, braceDepth, hclosing, Option.bind_some]

/-- **The braces of a phrase balance.** -/
theorem Derivation.braceDepth_append {v : σ.Value} (d : Derivation σ ts v) (depth : Nat)
    (rest : List Token) : braceDepth depth (ts ++ rest) = braceDepth depth rest := by
  induction d generalizing depth rest with
  | disjunction _ ih | bare _ ih | template _ ih | item _ ih => exact ih depth rest
  | arrow _ _ ih₁ ih₂ | joined _ _ ih₁ ih₂ | chain _ _ ih₁ ih₂ | morePieces _ _ ih₁ ih₂
  | firstEntry _ _ ih₁ ih₂ =>
      rw [List.append_assoc, ih₁]
      exact ih₂ depth rest
  | conditional _ _ _ ih₁ ih₂ ih₃ =>
      rw [List.append_assoc, ih₁, List.cons_append, List.append_assoc, braceDepth_cons rfl, ih₂]
      exact ih₃ depth rest
  | prefixed op _ ih =>
      rw [List.cons_append, braceDepth_cons (op.braces_token depth)]
      exact ih depth rest
  | literal h =>
      rw [List.singleton_append, braceDepth_cons (Token.braces_of_literal? h depth)]
  | several _ ih | parenthesized _ ih | array _ ih | index _ ih | call _ ih =>
      exact braceDepth_enclosed ih rfl rfl
  | object _ ih => exact braceDepth_enclosed ih rfl rfl
  | optionalIndex _ ih =>
      rw [List.cons_append, braceDepth_cons rfl]
      exact braceDepth_enclosed ih rfl rfl
  | join _ _ _ ih => exact ih depth rest
  | property h _ ih =>
      rw [List.cons_append, braceDepth_cons (Token.braces_of_key? h depth)]
      exact ih depth rest
  | nextEntry _ _ ih₁ ih₂ =>
      rw [List.cons_append, List.append_assoc, braceDepth_cons rfl, ih₁]
      exact ih₂ depth rest
  | single | noParts | textPart | codePart | member | optionalMember | noPieces | shorthand
  | name | noEntries | ended | trailingComma => rfl

/-- The braces of an expression balance. -/
theorem Derivation.braceDepth_eq {v : σ.Value} (d : Derivation σ ts v) (depth : Nat) :
    braceDepth depth ts = some depth := by
  have h := d.braceDepth_append depth []
  rwa [List.append_nil] at h

end Stencil.Expr
