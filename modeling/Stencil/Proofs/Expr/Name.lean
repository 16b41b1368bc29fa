import Stencil.Expr.Evaluator
import Stencil.Proofs.Expr.Globals
import Stencil.Proofs.Failure
import Mathlib.Data.List.TakeWhile

/-!
# Expressions that are a name

A word of name characters that is no keyword goes unchanged through every stage
of an evaluation: no markup stands in it, it is one token, and its tree is one
node. What it evaluates to is what is bound to it (`evaluate_name`).
-/

namespace Stencil.Expr

/-- A word that an expression can use as a name. -/
structure IsName (word : Text) : Prop where
  start : word.head?.any Lexer.isNameStart
  chars : word.all Lexer.isNameChar
  plain : Keyword.ofText? word = none

theorem ne_of_isNameChar {c d : Char} (h : Lexer.isNameChar c = true)
    (hd : Lexer.isNameChar d = false) : c ≠ d := by
  rintro rfl
  rw [h] at hd
  exact Bool.noConfusion hd

/-! ## No markup -/

theorem embedWith_of_nameChars {word : Text} (h : ∀ c ∈ word, Lexer.isNameChar c) (fuel : Nat) :
    embedWith fuel word = word := by
  induction word generalizing fuel with
  | nil => cases fuel <;> rfl
  | cons c word ih =>
      cases fuel with
      | zero => rfl
      | succ fuel =>
          have hc := h c List.mem_cons_self
          have no_literal : literalLayer? c = none := by
            simp [literalLayer?, ne_of_isNameChar hc (d := '\'') rfl,
              ne_of_isNameChar hc (d := '"') rfl, ne_of_isNameChar hc (d := '\x60') rfl]
          have no_fragment : Markup.fragmentAt? (c :: word) = none := by
            unfold Markup.fragmentAt?
            split
            · next heq => exact absurd (List.cons.inj heq).1 (ne_of_isNameChar hc rfl)
            · rfl
          have hrest := ih (fun d hd => h d (List.mem_cons_of_mem c hd)) fuel
          simp [embedWith, no_literal, no_fragment, ne_of_isNameChar hc (d := '\\') rfl, hrest]

theorem embed_of_nameChars {word : Text} (h : ∀ c ∈ word, Lexer.isNameChar c) :
    embed word = word :=
  embedWith_of_nameChars h _

/-! ## One token -/

theorem isBlank_of_isNameStart {c : Char} (h : Lexer.isNameStart c = true) :
    Lexer.isBlank c = false := by
  have hc : Lexer.isNameChar c = true := by simp [Lexer.isNameChar, h]
  simp [Lexer.isBlank, ne_of_isNameChar hc (d := ' ') rfl, ne_of_isNameChar hc (d := '\t') rfl,
    ne_of_isNameChar hc (d := '\n') rfl, ne_of_isNameChar hc (d := '\r') rfl]

theorem lex_name {word : Text} (h : IsName word) (base : Nat) :
    lex word base = .ok [⟨.name word, ⟨base, base + Text.byteLength word⟩⟩] := by
  cases word with
  | nil => exact absurd h.start (by simp)
  | cons c rest =>
      have hstart : Lexer.isNameStart c = true := h.start
      have hall : rest.takeWhile Lexer.isNameChar = rest :=
        List.takeWhile_eq_self_iff.2 fun d hd =>
          List.all_eq_true.1 h.chars d (List.mem_cons_of_mem c hd)
      have token : Lexer.readToken base c rest = .ok (.name (c :: rest), rest.length) := by
        simp [Lexer.readToken, hstart, hall, h.plain]
      rw [lex, Lexer.lexFrom, isBlank_of_isNameStart hstart, if_neg Bool.false_ne_true, token]
      simp [Lexer.lexFrom, Nat.add_assoc]

/-! ## One node -/

theorem parse_name {word : Text} (h : IsName word) :
    parse word = .ok (.name ⟨0, Text.byteLength word⟩ word) := by
  rw [parse, parseAt, Parser.parseNested, lex_name h, Nat.zero_add]
  rfl

/-! ## The value -/

/-- One step is enough for a name. -/
theorem evaluate_name_tree (globals : Globals) {limits : Limits} (hsteps : 1 ≤ limits.steps)
    (span : Span) (word : Text) :
    (Tree.name span word).evaluate globals limits =
      match Bindings.get? globals word with
      | some v => .ok v
      | none => .error (ExprError.runtime span (.notDefined word)) := by
  have hleft : ({} : Progress).steps < limits.steps := hsteps
  have htick : Eval.tick limits span {} = .ok ((), { steps := 1 }) := Eval.tick_of_lt hleft span
  have hlookup : Evaluator.lookup? globals [] word = Bindings.get? globals word := by
    rw [Evaluator.lookup?]
    rfl
  have hrun : Evaluator.run ⟨globals, limits⟩ (limits.steps + 1) [] 0 (.name span word) {} =
      match Bindings.get? globals word with
      | some v => .ok (some v, { steps := 1 })
      | none => .error (ExprError.runtime span (.notDefined word)) := by
    rw [← hlookup]
    change (Eval.tick limits span {} >>= fun p => _) = _
    rw [htick, Except.bind_ok]
    change (Evaluator.node _ _ [] 0 (.name span word) : Eval (Option Value)) { steps := 1 } = _
    rw [Evaluator.node]
    cases Evaluator.lookup? globals [] word with
    | some v => rfl
    | none => rfl
  change (fun p : Value × Progress => p.1) <$>
    (Evaluator.run ⟨globals, limits⟩ (limits.steps + 1) [] 0 (.name span word) {} >>=
      fun p => _) = _
  rw [hrun]
  cases Bindings.get? globals word with
  | some v => rfl
  | none => rfl

/-- **A name evaluates to what is bound to it.** -/
theorem evaluate_name (globals : Globals) {limits : Limits} (hsteps : 1 ≤ limits.steps)
    {word : Text} (h : IsName word) :
    evaluate globals limits word =
      match Bindings.get? globals word with
      | some v => .ok v
      | none => .error (ExprError.runtime ⟨0, Text.byteLength word⟩ (.notDefined word)) := by
  rw [evaluate, embed_of_nameChars (List.all_eq_true.1 h.chars), parse_name h, Except.bind_ok]
  exact evaluate_name_tree globals hsteps _ word

/-- In particular it stands for the text that a context binds to it. -/
theorem evaluateText_name {c : Context} (hc : Bindings.Distinct c) {limits : Limits}
    (hsteps : 1 ≤ limits.steps) {word v : Text} (h : IsName word)
    (hget : Bindings.get? c word = some (.string v)) :
    evaluateText (Globals.within c) limits word = .ok v := by
  rw [evaluateText, evaluate_name _ hsteps h, Globals.get?_within hc, hget]
  rfl

end Stencil.Expr
