import Stencil.Text.Basic

/-!
# Where literals end

String literals, template literals and the interpolations inside them nest. The
walk over a text keeps a stack of the *layers* it is in; `closing` gives what
stands before the end of the outermost layer and what follows it.

- In a string literal a backslash passes over the next character.
- In a template literal it does too, and `${` opens an interpolation.
- In an interpolation braces balance, and quotes open the other two layers.

`closingFrom_eq` says that nothing is lost between the two texts but the delimiter.
-/

namespace Stencil.Expr

/-- What a position of a text is inside of. -/
inductive Layer where
  | quoted (quote : Char)
  | template
  /-- An interpolation, `depth` braces deep. -/
  | code (depth : Nat)
deriving Repr, DecidableEq

namespace Layer

def closer : Layer → Char
  | quoted quote => quote
  | template => '\x60'
  | code _ => '}'

/-- The layers after the character `c`, with `next` after it, from a stack with
the innermost layer first; and whether the next character is passed over. -/
def step (c : Char) (next : Option Char) : List Layer → List Layer × Bool
  | [] => ([], false)
  | quoted quote :: below =>
      if c = '\\' then (quoted quote :: below, true)
      else if c = quote then (below, false)
      else (quoted quote :: below, false)
  | template :: below =>
      if c = '\\' then (template :: below, true)
      else if c = '\x60' then (below, false)
      else if c = '$' && next = some '{' then (code 0 :: template :: below, true)
      else (template :: below, false)
  | code depth :: below =>
      if c = '{' then (code (depth + 1) :: below, false)
      else if c = '}' then
        match depth with
        | 0 => (below, false)
        | depth + 1 => (code depth :: below, false)
      else if c = '\'' || c = '"' then (quoted c :: code depth :: below, false)
      else if c = '\x60' then (template :: code depth :: below, false)
      else (code depth :: below, false)

end Layer

/-- The text inside the layers of a stack up to the end of the outermost, and
the text after that; `skip` passes over the first character. -/
def closingFrom : (layers : List Layer) → (skip : Bool) → Text → Option (Text × Text)
  | _, _, [] => none
  | layers, true, c :: rest => (closingFrom layers false rest).map fun p => (c :: p.1, p.2)
  | layers, false, c :: rest =>
      match Layer.step c rest.head? layers with
      | ([], _) => some ([], rest)
      | (l :: ls, skip) => (closingFrom (l :: ls) skip rest).map fun p => (c :: p.1, p.2)

/-- The text inside a layer that has just opened, and the text after its end. -/
def closing (layer : Layer) (t : Text) : Option (Text × Text) :=
  closingFrom [layer] false t

/-! ## One character is lost, the delimiter -/

theorem closingFrom_eq {layers : List Layer} {skip : Bool} {t body rest : Text}
    (h : closingFrom layers skip t = some (body, rest)) : ∃ c, t = body ++ c :: rest := by
  induction t generalizing layers skip body with
  | nil => simp [closingFrom] at h
  | cons c t ih =>
      cases skip with
      | true =>
          simp only [closingFrom, Option.map_eq_some_iff, Prod.mk.injEq] at h
          obtain ⟨⟨b, r⟩, hb, rfl, rfl⟩ := h
          obtain ⟨d, rfl⟩ := ih hb
          exact ⟨d, rfl⟩
      | false =>
          rw [closingFrom] at h
          split at h
          · simp only [Option.some.injEq, Prod.mk.injEq] at h
            obtain ⟨rfl, rfl⟩ := h
            exact ⟨c, rfl⟩
          · simp only [Option.map_eq_some_iff, Prod.mk.injEq] at h
            obtain ⟨⟨b, r⟩, hb, rfl, rfl⟩ := h
            obtain ⟨d, rfl⟩ := ih hb
            exact ⟨d, rfl⟩

theorem length_of_closing {layer : Layer} {t body rest : Text}
    (h : closing layer t = some (body, rest)) : body.length + rest.length + 1 = t.length := by
  obtain ⟨c, rfl⟩ := closingFrom_eq h
  simp
  omega

end Stencil.Expr
