import Stencil.Proofs.Markup.Passing

/-!
# Texts with expressions in them

A text in which expressions stand between gaps without braces is scanned into these
expressions and gaps (`scanExpressions_slotted`).
-/

namespace Stencil.Markup

/-- A text as an expression. -/
def braced (t : Text) : Text :=
  '{' :: (t ++ ['}'])

/-- Gaps with an expression behind each, and a text behind the last. -/
def slotted (pieces : List (Text × Text)) (tail : Text) : Text :=
  (pieces.flatMap fun p => p.1 ++ braced p.2) ++ tail

@[simp] theorem slotted_nil (tail : Text) : slotted [] tail = tail := rfl

theorem slotted_cons (gap inner : Text) (pieces : List (Text × Text)) (tail : Text) :
    slotted ((gap, inner) :: pieces) tail =
      gap ++ '{' :: (inner ++ '}' :: slotted pieces tail) := by
  simp [slotted, braced]

/-- A gap with no expression in it, behind which one can start, and the text of an
expression in which none starts or ends. -/
structure Slot (p : Text × Text) : Prop where
  gap : Free '{' false p.1
  closed : pending false p.1 = false
  opening : Free '{' false p.2
  closing : Free '}' false p.2
  inner : pending false p.2 = false

/-- The scan takes a gap and the expression behind it. -/
theorem scanBracesFrom_slot {gap inner : Text} (h : Slot (gap, inner)) (offset : Nat)
    (rest : Text) :
    ∃ span offset', scanBracesFrom '{' '}' false offset (.outside [])
        (gap ++ '{' :: (inner ++ '}' :: rest)) =
      (scanBracesFrom '{' '}' false offset' (.outside []) rest).cons ⟨gap, inner, span⟩ := by
  have hgap : pending false gap = false := h.closed
  have hinner : pending false inner = false := h.inner
  have opens : ∀ offset rest, scanBracesFrom '{' '}' false offset (.outside gap.reverse)
      ('{' :: rest) =
        scanBracesFrom '{' '}' false (offset + 1) (.inside gap.reverse offset 0 []) rest :=
    fun _ _ => rfl
  have closes : ∀ offset start, scanBracesFrom '{' '}' false offset
      (.inside gap.reverse start 0 inner.reverse) ('}' :: rest) =
        (scanBracesFrom '{' '}' false (offset + 1) (.outside []) rest).cons
          ⟨gap.reverse.reverse, inner.reverse.reverse, ⟨start, offset + 1⟩⟩ :=
    fun _ _ => rfl
  rw [scanBracesFrom_keeping h.gap, hgap, List.append_nil, opens,
    scanBracesFrom_inside h.opening h.closing, hinner, List.append_nil, closes,
    List.reverse_reverse, List.reverse_reverse]
  exact ⟨_, _, rfl⟩

/-- **The expressions of such a text are the ones that stand in it.** -/
theorem scanExpressions_slotted {pieces : List (Text × Text)} (hpieces : ∀ p ∈ pieces, Slot p)
    {tail : Text} (htail : Free '{' false tail) :
    ∃ regions, scanExpressions (slotted pieces tail) = ⟨regions, tail, none⟩ ∧
      regions.map (fun r => (r.gap, r.text)) = pieces := by
  have from_offset : ∀ offset, ∃ regions,
      scanBracesFrom '{' '}' false offset (.outside []) (slotted pieces tail) =
        ⟨regions, tail, none⟩ ∧ regions.map (fun r => (r.gap, r.text)) = pieces := by
    induction pieces with
    | nil =>
        intro offset
        refine ⟨[], ?_, rfl⟩
        have hscan := scanBracesFrom_keeping htail '}' offset [] []
        rw [List.append_nil] at hscan
        rw [slotted_nil, hscan]
        simp [scanBracesFrom, BracePhase.finish]
    | cons p pieces ih =>
        intro offset
        obtain ⟨gap, inner⟩ := p
        rw [List.forall_mem_cons] at hpieces
        obtain ⟨span, offset', hscan⟩ :=
          scanBracesFrom_slot hpieces.1 offset (slotted pieces tail)
        obtain ⟨regions, hrest, hmap⟩ := ih hpieces.2 offset'
        refine ⟨⟨gap, inner, span⟩ :: regions, ?_, by rw [List.map_cons, hmap]⟩
        rw [slotted_cons, hscan, hrest]
        rfl
  exact from_offset 0

end Stencil.Markup
