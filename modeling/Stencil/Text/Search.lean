import Stencil.Text.Basic

/-!
# Searching texts

Occurrences of a pattern are found from the left and do not overlap. `pieces` is
what stands between them: putting the pattern back between the pieces gives the
text again (`intercalate_pieces`). The empty pattern occurs once at every
position, both ends included.
-/

namespace Stencil.Text

def startsWith (t head : Text) : Bool :=
  (dropHead? head t).isSome

def endsWith (t last : Text) : Bool :=
  startsWith t.reverse last.reverse

/-- The texts before and after the first occurrence of a pattern. -/
def cut? (pattern : Text) : Text → Option (Text × Text)
  | [] => if pattern = [] then some ([], []) else none
  | c :: t =>
      match dropHead? pattern (c :: t) with
      | some rest => some ([], rest)
      | none => (cut? pattern t).map fun p => (c :: p.1, p.2)

def includes (t pattern : Text) : Bool :=
  (cut? pattern t).isSome

/-- The position of the first occurrence of a pattern, in characters. -/
def indexOf? (t pattern : Text) : Option Nat :=
  (cut? pattern t).map fun p => p.1.length

def consPiece (c : Char) : List Text → List Text
  | [] => [[c]]
  | piece :: pieces => (c :: piece) :: pieces

/-- The pieces between the occurrences of a pattern, once `skip` characters of
an occurrence have been passed over. -/
def piecesAfter (pattern : Text) : (skip : Nat) → Text → List Text
  | _, [] => [[]]
  | skip + 1, _ :: t => piecesAfter pattern skip t
  | 0, c :: t =>
      if startsWith (c :: t) pattern then [] :: piecesAfter pattern (pattern.length - 1) t
      else consPiece c (piecesAfter pattern 0 t)

/-- The pieces of a text between the occurrences of a pattern, one more than
there are occurrences. -/
def pieces (pattern t : Text) : List Text :=
  if pattern = [] then [] :: t.map (fun c => [c]) ++ [[]] else piecesAfter pattern 0 t

/-- The first `n` characters of a text repeated without end. Nothing comes of
the empty text. -/
def cycle (t : Text) (n : Nat) : Text :=
  if t = [] then [] else (List.replicate (n / t.length + 1) t).flatten.take n

/-! ## The pieces with the pattern between them are the text -/

theorem piecesAfter_ne_nil (pattern : Text) (skip : Nat) (t : Text) :
    piecesAfter pattern skip t ≠ [] := by
  fun_induction piecesAfter pattern skip t with
  | case1 => simp
  | case2 skip c t ih => exact ih
  | case3 => simp
  | case4 c t h ih => cases h : piecesAfter pattern 0 t <;> simp [consPiece]

theorem intercalate_consPiece (pattern : Text) (c : Char) {ps : List Text} (h : ps ≠ []) :
    List.intercalate pattern (consPiece c ps) = c :: List.intercalate pattern ps := by
  match ps with
  | [] => exact absurd rfl h
  | [p] => simp [consPiece, List.intercalate]
  | p :: q :: ps => simp [consPiece, List.intercalate, List.intersperse]

theorem intercalate_piecesAfter {pattern : Text} (h : pattern ≠ []) (skip : Nat) (t : Text) :
    List.intercalate pattern (piecesAfter pattern skip t) = t.drop skip := by
  fun_induction piecesAfter pattern skip t with
  | case1 skip => simp [List.intercalate]
  | case2 skip c t ih => simpa using ih
  | case3 c t hs ih =>
      rw [List.intercalate_cons_of_ne_nil (piecesAfter_ne_nil pattern _ t), ih]
      obtain ⟨rest, hr⟩ := Option.isSome_iff_exists.1 hs
      rw [dropHead?_eq_some_iff] at hr
      cases pattern with
      | nil => exact absurd rfl h
      | cons d pattern =>
          obtain ⟨rfl, rfl⟩ := List.cons.inj hr
          simp
  | case4 c t hs ih => simpa [intercalate_consPiece _ _ (piecesAfter_ne_nil pattern _ t)] using ih

theorem intercalate_pieces (pattern t : Text) :
    List.intercalate pattern (pieces pattern t) = t := by
  by_cases h : pattern = []
  · subst h
    induction t with
    | nil => rfl
    | cons c t ih => simpa [pieces, List.intercalate, List.intersperse] using ih
  · simpa [pieces, h] using intercalate_piecesAfter h 0 t

end Stencil.Text
