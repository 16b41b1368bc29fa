import Stencil.Proofs.Expr.Interaction
import Stencil.Proofs.Expr.Position
import Stencil.Proofs.Number.Equal
import Stencil.Proofs.Text.Search

/-!
# Searching, splitting and replacing in texts

A search tells the first position at which a slice is the text that is looked for (`searched`),
and the pieces of a text between the occurrences of a separator make the text again, or make
another with the separator replaced (`search_split_replace`). The places are the same whether
characters are compared or bytes.
-/

namespace Stencil.Expr

open Stencil.Context (utf8)
open Stencil.Number (HasValue ofInt ofNat)
open Stencil.Text (Divides FirstAt OccursAt)

/-! ## Searching -/

/-- What a search for a text comes to: it is not there, or its position is the first at which a
slice is the text. -/
inductive Searched (call : Call) (s t : Text) (span : Span) (p : Progress) : Prop
  | absent (includes : invoke call (.string s) "includes" [.string t] span p = .ok (.bool false, p))
      (indexOf : invoke call (.string s) "indexOf" [.string t] span p =
        .ok (.number (ofInt (-1)), p))
      (nowhere : ∀ i, ¬ OccursAt t s i)
  | present {i : Nat}
      (includes : invoke call (.string s) "includes" [.string t] span p = .ok (.bool true, p))
      (indexOf : invoke call (.string s) "indexOf" [.string t] span p = .ok (positionValue i, p))
      (ne_absent : positionValue i ≠ .number (ofInt (-1)))
      (slice : ∀ key next, HasValue key (i : ℤ) → HasValue next (i + t.length : ℤ) →
        invoke call (.string s) "slice" [.number key, .number next] span p = .ok (.string t, p))
      (least : ∀ (j : Nat) key next, j < i → HasValue key (j : ℤ) →
        HasValue next (j + t.length : ℤ) →
        invoke call (.string s) "slice" [.number key, .number next] span p ≠ .ok (.string t, p))
      (bytes : FirstAt (utf8 t) (utf8 s) (Text.byteLength (s.take i)))

/-- A position is no negative number. -/
theorem positionValue_ne (i : Nat) : positionValue i ≠ .number (ofInt (-1)) := by
  intro heq
  have hvalue := Number.hasValue_ofInt (n := -1) (by decide)
  have hother := Number.ofNat_beq_ofInt_neg i (n := -1) (by decide) (by decide)
  rw [Value.number.inj heq, hvalue.beq hvalue] at hother
  cases hother

/-- A slice of the length of a text is the text just where it stands. -/
theorem sliceItems_eq_iff {s t : Text} {i : Nat} (h : i + t.length ≤ s.length) :
    sliceItems s i (i + t.length) = t ↔ OccursAt t s i := by
  rw [sliceItems, List.drop_take, Nat.add_sub_cancel_left]
  constructor
  · intro heq
    refine ⟨s.take i, (s.drop i).drop t.length, ?_, by rw [List.length_take]; omega⟩
    calc s = s.take i ++ s.drop i := (List.take_append_drop i s).symm
      _ = s.take i ++ ((s.drop i).take t.length ++ (s.drop i).drop t.length) :=
          congrArg (s.take i ++ ·) (List.take_append_drop t.length (s.drop i)).symm
      _ = s.take i ++ (t ++ (s.drop i).drop t.length) := by rw [heq]
  · rintro ⟨before, after, rfl, rfl⟩
    rw [List.drop_left, List.take_left]

section Text

variable (call : Call) (s t : Text) (span : Span) (p : Progress)

/-- A slice between two whole numbers. -/
theorem slice_text_natCast {i j : Nat} (hi : i ≤ s.length) (hj : j ≤ s.length) {key next : Float}
    (hkey : HasValue key (i : ℤ)) (hnext : HasValue next (j : ℤ)) :
    invoke call (.string s) "slice" [.number key, .number next] span p =
      .ok (.string (sliceItems s i j), p) := by
  have hstart : (argument [Value.number key, .number next] 0).resolve s.length 0 = i :=
    positionOf_natCast hkey hi
  have hstop : (argument [Value.number key, .number next] 1).resolve s.length s.length = j :=
    positionOf_natCast hnext hj
  rw [slice_text_apply, hstart, hstop]

/-- **A search tells whether a text is there and where it is first.** -/
theorem searched : Searched call s t span p := by
  have hincludes : invoke call (.string s) "includes" [.string t] span p =
      .ok (.bool (Text.includes s t), p) := rfl
  have hindexOf : invoke call (.string s) "indexOf" [.string t] span p =
      .ok (foundPosition (Text.indexOf? s t), p) := rfl
  rw [Text.includes] at hincludes
  rw [Text.indexOf?] at hindexOf
  cases hcut : Text.cut? t s with
  | none =>
      rw [hcut] at hincludes hindexOf
      exact .absent hincludes hindexOf (Text.not_occursAt_of_cut? hcut)
  | some found =>
      obtain ⟨before, after⟩ := found
      rw [hcut] at hincludes hindexOf
      obtain ⟨hs, hfirst⟩ := Text.firstAt_of_cut? hcut
      have hlength : before.length + t.length ≤ s.length := by
        rw [hs, List.length_append, List.length_append]
        omega
      refine .present (i := before.length) hincludes hindexOf (positionValue_ne _) ?_ ?_ hfirst.utf8
      · intro key next hkey hnext
        rw [slice_text_natCast call s span p (by omega) hlength hkey hnext,
          (sliceItems_eq_iff hlength).2 hfirst.occurs]
      · intro j key next hj hkey hnext hslice
        have hshort : j + t.length ≤ s.length := by omega
        rw [slice_text_natCast call s span p (by omega) hshort hkey hnext] at hslice
        have heq := Value.string.inj (Prod.mk.inj (Except.ok.inj hslice)).1
        exact hfirst.least j hj ((sliceItems_eq_iff hshort).1 heq)

/-! ## Splitting and joining -/

theorem itemTexts_string (pieces : List Text) :
    Value.itemTexts (pieces.map .string) = pieces := by
  induction pieces with
  | nil => rfl
  | cons piece pieces ih =>
      rw [List.map_cons, Value.itemTexts, ih]
      rfl

theorem join_apply (id : Identity) (pieces : List Text) (separator : Text) :
    invoke call (.array id (pieces.map .string)) "join" [.string separator] span p =
      .ok (.string (List.intercalate separator pieces), p) := by
  change Except.ok (Value.string (List.intercalate separator (Value.itemTexts _)), p) = _
  rw [itemTexts_string]

theorem intercalate_characters (s : Text) : List.intercalate [] (s.map fun c => [c]) = s := by
  induction s with
  | nil => rfl
  | cons c s ih =>
      cases s with
      | nil => rfl
      | cons d s =>
          rw [List.map_cons] at ih
          rw [List.map_cons, List.map_cons, List.intercalate_cons_cons, ih]
          rfl

/-- The pieces with the separator between them are the text. -/
theorem intercalate_splitPieces (separator : Text) :
    List.intercalate separator (TextMethod.splitPieces s (.string separator)) = s := by
  change List.intercalate separator
    (if separator = [] then s.map fun c => [c] else Text.pieces separator s) = s
  split
  · next hempty =>
      rw [hempty]
      exact intercalate_characters s
  · exact Text.intercalate_pieces separator s

theorem split_apply (separator : Text) : ∃ id q,
    invoke call (.string s) "split" [.string separator] span p =
      .ok (.array id ((TextMethod.splitPieces s (.string separator)).map .string), q) :=
  ⟨_, _, rfl⟩

/-! ## Replacing -/

theorem intercalate_cons (separator piece : Text) (pieces : List Text) :
    List.intercalate separator (piece :: pieces) =
      piece ++ (pieces.map (separator ++ ·)).flatten := by
  induction pieces generalizing piece with
  | nil => simp
  | cons next pieces ih =>
      rw [List.intercalate_cons_cons, ih, List.map_cons, List.flatten_cons, List.append_assoc,
        List.append_assoc]

/-- A replacement that is a text stands between the pieces. -/
theorem replaceBetween_string (pattern replacement : Text) (pieces : List Text) :
    TextMethod.replaceBetween call pattern (.string replacement) pieces p =
      .ok (List.intercalate replacement pieces, p) := by
  cases pieces with
  | nil => rfl
  | cons piece pieces =>
      have hmap : (pieces.mapM fun piece => do
          return (← TextMethod.replacement call pattern (.string replacement)) ++ piece :
            Eval (List Text)) = pure (pieces.map (replacement ++ ·)) := List.mapM_pure
      rw [TextMethod.replaceBetween, hmap, intercalate_cons]
      rfl

theorem replaceAll_apply (pattern replacement : Text) :
    invoke call (.string s) "replaceAll" [.string pattern, .string replacement] span p =
      .ok (.string (List.intercalate replacement (Text.pieces pattern s)), p) := by
  have hbetween := replaceBetween_string call p pattern replacement (Text.pieces pattern s)
  change (TextMethod.replaceBetween call pattern (.string replacement) (Text.pieces pattern s) >>=
    fun t => pure (.string t) : Eval Value) p = _
  rw [Eval.bind_apply, hbetween]
  rfl

end Text

/-- **Searching, splitting and replacing fit together.** A search tells the first position at
which a slice is the text. The pieces of a text, joined with the separator, are the text. Unless
the separator is empty, they stand between occurrences of its bytes, each the first behind the
one before it, and joined with another text they are the text with all occurrences replaced. -/
theorem search_split_replace (call : Call) (s t separator replacement : Text) (span : Span)
    (p : Progress) :
    Searched call s t span p ∧ ∃ (id : Identity) (pieces : List Text) (q : Progress),
      invoke call (.string s) "split" [.string separator] span p =
        .ok (.array id (pieces.map .string), q) ∧
      invoke call (.array id (pieces.map .string)) "join" [.string separator] span q =
        .ok (.string s, q) ∧
      (separator ≠ [] → Divides (utf8 separator) (utf8 s) (pieces.map utf8) ∧ ∃ u : Text,
        invoke call (.string s) "replaceAll" [.string separator, .string replacement] span p =
          .ok (.string u, p) ∧
        invoke call (.array id (pieces.map .string)) "join" [.string replacement] span q =
          .ok (.string u, q)) := by
  obtain ⟨id, q, hsplit⟩ := split_apply call s span p separator
  refine ⟨searched call s t span p, id, _, q, hsplit, ?_, fun hne => ?_⟩
  · rw [join_apply, intercalate_splitPieces]
  · have hpieces : TextMethod.splitPieces s (.string separator) = Text.pieces separator s :=
      if_neg hne
    rw [hpieces]
    exact ⟨(Text.divides_pieces hne s).utf8 hne, _, replaceAll_apply call s span p _ _,
      join_apply call span q id _ _⟩

/-- A pattern that overlaps itself, in characters of two bytes. -/
theorem search_split_replace_overlapping :
    ['é', 'é'] ≠ [] ∧ ∃ (id : Identity) (pieces : List Text) (q : Progress) (u : Text),
      invoke (fun _ _ => Eval.fail ⟨0, 0⟩ .emptyReduce) (.string "xééé".toList) "split"
        [.string ['é', 'é']] ⟨0, 0⟩ {} = .ok (.array id (pieces.map .string), q) ∧
      Divides (utf8 ['é', 'é']) (utf8 "xééé".toList) (pieces.map utf8) ∧
      invoke (fun _ _ => Eval.fail ⟨0, 0⟩ .emptyReduce) (.string "xééé".toList) "replaceAll"
        [.string ['é', 'é'], .string ['-']] ⟨0, 0⟩ {} = .ok (.string u, {}) ∧
      invoke (fun _ _ => Eval.fail ⟨0, 0⟩ .emptyReduce) (.array id (pieces.map .string)) "join"
        [.string ['-']] ⟨0, 0⟩ q = .ok (.string u, q) := by
  obtain ⟨-, id, pieces, q, hsplit, -, hreplace⟩ :=
    search_split_replace (fun _ _ => Eval.fail ⟨0, 0⟩ .emptyReduce) "xééé".toList [] ['é', 'é']
      ['-'] ⟨0, 0⟩ {}
  obtain ⟨hdivides, u, hreplaced, hjoined⟩ := hreplace (by decide)
  exact ⟨by decide, id, pieces, q, u, hsplit, hdivides, hreplaced, hjoined⟩

end Stencil.Expr
