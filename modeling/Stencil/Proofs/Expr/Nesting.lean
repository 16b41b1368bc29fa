import Mathlib.Data.List.TakeWhile
import Stencil.Expr.Literal
import Stencil.Number.Numeral
import Stencil.Proofs.Expr.Balance
import Stencil.Proofs.Expr.Lexing

/-!
# Where code ends

The walk that looks for the end of a literal or of an interpolation knows only quotes,
backticks, backslashes and braces, and the lexer knows tokens. `Leads` says that the walk
gets through a text from some layers to others, whatever follows. The walk gets through
each token in one step (`leads_token`), to a depth that the braces of the token tell,
and so through all the tokens of a source (`leads_of_lex`). Where the braces of a source
balance, the interpolation that it is put in ends right behind it (`closing_of_lex`).
-/

namespace Stencil.Expr

variable {layers layers' below : List Layer} {t u : Text} {depth depth' : Nat}

/-- The walk gets through the text from some layers to others, whatever follows. -/
def Leads (layers : List Layer) (t : Text) (layers' : List Layer) : Prop :=
  ∀ rest, closingFrom layers false (t ++ rest) =
    (closingFrom layers' false rest).map fun p => (t ++ p.1, p.2)

namespace Leads

theorem nil (layers : List Layer) : Leads layers [] layers := by
  intro rest
  simp

theorem append {layers'' : List Layer} (ht : Leads layers t layers')
    (hu : Leads layers' u layers'') : Leads layers (t ++ u) layers'' := by
  intro rest
  rw [List.append_assoc, ht, hu, Option.map_map]
  congr 1
  funext p
  simp

/-- One character is passed. -/
theorem char {c : Char} {l : Layer}
    (h : ∀ next, Layer.step c next layers = (l :: layers', false)) :
    Leads layers [c] (l :: layers') := by
  intro rest
  rw [List.singleton_append, closingFrom, h]
  rfl

/-- One character is passed, and passes over the next. -/
theorem escape {c d : Char} {l : Layer}
    (h : Layer.step c (some d) layers = (l :: layers', true)) :
    Leads layers [c, d] (l :: layers') := by
  intro rest
  rw [List.cons_append, closingFrom, List.singleton_append, List.head?_cons, h]
  dsimp only
  rw [closingFrom, Option.map_map]
  rfl

theorem all (h : ∀ c ∈ t, Leads layers [c] layers) : Leads layers t layers := by
  induction t with
  | nil => exact nil layers
  | cons c t ih =>
      have hc := h c List.mem_cons_self
      exact hc.append (ih fun d hd => h d (List.mem_cons_of_mem c hd))

end Leads

/-! ## Layers below -/

theorem step_append (c : Char) (next : Option Char) (l : Layer) (ls below : List Layer) :
    Layer.step c next (l :: ls ++ below) =
      ((Layer.step c next (l :: ls)).1 ++ below, (Layer.step c next (l :: ls)).2) := by
  cases l with
  | quoted quote =>
      simp only [List.cons_append, Layer.step]
      split
      · rfl
      · split <;> rfl
  | template =>
      simp only [List.cons_append, Layer.step]
      split
      · rfl
      · split
        · rfl
        · split <;> rfl
  | code depth =>
      simp only [List.cons_append, Layer.step]
      split
      · rfl
      · split
        · cases depth <;> rfl
        · split
          · rfl
          · split <;> rfl

/-- What ends a layer does so whatever follows. -/
theorem step_eq_nil {c : Char} {next : Option Char} {l : Layer} {ls : List Layer} {skip : Bool}
    (h : Layer.step c next (l :: ls) = ([], skip)) :
    ls = [] ∧ ∀ next, Layer.step c next [l] = ([], false) := by
  cases l with
  | quoted quote =>
      simp only [Layer.step] at h ⊢
      split at h
      · cases h
      · split at h
        · next hescape hquote =>
            obtain ⟨rfl, -⟩ := Prod.mk.inj h
            exact ⟨rfl, fun _ => by rw [if_neg hescape, if_pos hquote]⟩
        · cases h
  | template =>
      simp only [Layer.step] at h ⊢
      split at h
      · cases h
      · split at h
        · next hescape hquote =>
            obtain ⟨rfl, -⟩ := Prod.mk.inj h
            exact ⟨rfl, fun _ => by rw [if_neg hescape, if_pos hquote]⟩
        · split at h <;> cases h
  | code depth =>
      simp only [Layer.step] at h ⊢
      split at h
      · cases h
      · split at h
        · next hopening hclosing =>
            cases depth with
            | zero =>
                obtain ⟨rfl, -⟩ := Prod.mk.inj h
                exact ⟨rfl, fun _ => by rw [if_neg hopening, if_pos hclosing]⟩
            | succ depth => cases h
        · split at h
          · cases h
          · split at h <;> cases h

/-- A character takes a layer from a stack only if it ends the layer, and otherwise leaves
one there that ends alike. -/
theorem step_eq_append (c : Char) (next : Option Char) (l : Layer) (below : List Layer) :
    ∃ layers, (Layer.step c next (l :: below)).1 = layers ++ below ∧
      (layers = [] ∧ c = l.closer ∨ layers.getLast?.map Layer.closer = some l.closer) := by
  cases l with
  | quoted quote =>
      simp only [Layer.step]
      split
      · exact ⟨[.quoted quote], rfl, .inr rfl⟩
      · split
        · next hquote => exact ⟨[], rfl, .inl ⟨rfl, hquote⟩⟩
        · exact ⟨[.quoted quote], rfl, .inr rfl⟩
  | template =>
      simp only [Layer.step]
      split
      · exact ⟨[.template], rfl, .inr rfl⟩
      · split
        · next hquote => exact ⟨[], rfl, .inl ⟨rfl, hquote⟩⟩
        · split
          · exact ⟨[.code 0, .template], rfl, .inr rfl⟩
          · exact ⟨[.template], rfl, .inr rfl⟩
  | code depth =>
      simp only [Layer.step]
      split
      · exact ⟨[.code (depth + 1)], rfl, .inr rfl⟩
      · split
        · next hclosing =>
            cases depth with
            | zero => exact ⟨[], rfl, .inl ⟨rfl, hclosing⟩⟩
            | succ depth => exact ⟨[.code depth], rfl, .inr rfl⟩
        · split
          · exact ⟨[.quoted c, .code depth], rfl, .inr rfl⟩
          · split
            · exact ⟨[.template, .code depth], rfl, .inr rfl⟩
            · exact ⟨[.code depth], rfl, .inr rfl⟩

/-- What ends all layers is the character that ends the outermost. -/
theorem closingFrom_closer {layers : List Layer} {skip : Bool} {t body rest : Text} {d : Char}
    (h : closingFrom layers skip t = some (body, rest))
    (hcloser : layers.getLast?.map Layer.closer = some d) : t = body ++ d :: rest := by
  induction t generalizing layers skip body with
  | nil => simp [closingFrom] at h
  | cons c t ih =>
      cases skip with
      | true =>
          simp only [closingFrom, Option.map_eq_some_iff, Prod.mk.injEq] at h
          obtain ⟨⟨b, r⟩, hb, rfl, rfl⟩ := h
          exact congrArg (c :: ·) (ih hb hcloser)
      | false =>
          cases layers with
          | nil => cases hcloser
          | cons l below =>
              obtain ⟨layers, hstep, hlayers⟩ := step_eq_append c t.head? l below
              rw [closingFrom] at h
              split at h
              · next skip heq =>
                  simp only [Option.some.injEq, Prod.mk.injEq] at h
                  obtain ⟨rfl, rfl⟩ := h
                  rw [heq] at hstep
                  obtain ⟨rfl, rfl⟩ := List.append_eq_nil_iff.1 hstep.symm
                  rcases hlayers with ⟨-, rfl⟩ | hlast
                  · obtain rfl := Option.some.inj hcloser
                    rfl
                  · cases hlast
              · next l₁ ls₁ skip heq =>
                  simp only [Option.map_eq_some_iff, Prod.mk.injEq] at h
                  obtain ⟨⟨b, r⟩, hb, rfl, rfl⟩ := h
                  refine congrArg (c :: ·) (ih hb ?_)
                  rw [heq] at hstep
                  dsimp only at hstep
                  rw [hstep, List.getLast?_append]
                  cases below with
                  | nil =>
                      rcases hlayers with ⟨rfl, -⟩ | hlast
                      · cases hstep
                      · simpa [hlast] using hcloser
                  | cons l₂ below =>
                      rw [List.getLast?_cons_cons] at hcloser
                      rw [List.getLast?_cons] at hcloser ⊢
                      exact hcloser

theorem closing_eq {layer : Layer} {t body rest : Text} (h : closing layer t = some (body, rest)) :
    t = body ++ layer.closer :: rest :=
  closingFrom_closer h rfl

/-- What has ended ends with more layers below it too, and with anything after it. -/
theorem closingFrom_extend {l : Layer} {ls : List Layer} {skip : Bool} {body rest : Text}
    (h : closingFrom (l :: ls) skip t = some (body, rest)) :
    ∃ c, t = body ++ c :: rest ∧ ∀ l' below rest',
      closingFrom (l :: ls ++ l' :: below) skip (body ++ c :: rest') =
        (closingFrom (l' :: below) false rest').map fun p => (body ++ c :: p.1, p.2) := by
  induction t generalizing l ls skip body with
  | nil => simp [closingFrom] at h
  | cons c t ih =>
      cases skip with
      | true =>
          simp only [closingFrom, Option.map_eq_some_iff, Prod.mk.injEq] at h
          obtain ⟨⟨b, r⟩, hb, rfl, rfl⟩ := h
          obtain ⟨d, rfl, hextend⟩ := ih hb
          refine ⟨d, rfl, fun l' below rest' => ?_⟩
          change closingFrom _ true (c :: (b ++ d :: rest')) = _
          rw [closingFrom, hextend, Option.map_map]
          rfl
      | false =>
          rw [closingFrom] at h
          split at h
          · next skip heq =>
              simp only [Option.some.injEq, Prod.mk.injEq] at h
              obtain ⟨rfl, rfl⟩ := h
              obtain ⟨rfl, hends⟩ := step_eq_nil heq
              refine ⟨c, rfl, fun l' below rest' => ?_⟩
              rw [List.nil_append, closingFrom, step_append, hends]
              rfl
          · next l₁ ls₁ skip heq =>
              simp only [Option.map_eq_some_iff, Prod.mk.injEq] at h
              obtain ⟨⟨b, r⟩, hb, rfl, rfl⟩ := h
              obtain ⟨d, rfl, hextend⟩ := ih hb
              refine ⟨d, rfl, fun l' below rest' => ?_⟩
              have hnext : (b ++ d :: rest').head? = (b ++ d :: r).head? := by cases b <;> rfl
              change closingFrom _ false (c :: (b ++ d :: rest')) = _
              rw [closingFrom, hnext, step_append, heq]
              change Option.map _ (closingFrom (l₁ :: ls₁ ++ l' :: below) skip _) = _
              rw [hextend, Option.map_map]
              rfl

/-- A literal in code is passed. -/
theorem leads_literal {c : Char} {layer : Layer} {body rest : Text}
    (hopen : ∀ next, Layer.step c next (.code depth :: below) =
      (layer :: .code depth :: below, false))
    (h : closing layer t = some (body, rest)) :
    Leads (.code depth :: below) (c :: t.take (body.length + 1)) (.code depth :: below) := by
  obtain ⟨d, rfl, hextend⟩ := closingFrom_extend h
  have htake : (body ++ d :: rest).take (body.length + 1) = body ++ [d] :=
    List.take_length_add_append 1
  intro rest'
  rw [htake, List.cons_append, closingFrom, hopen]
  simp only
  have hwalk := hextend (.code depth) below rest'
  rw [List.singleton_append] at hwalk
  rw [List.append_assoc, List.singleton_append, hwalk, Option.map_map]
  congr 1
  funext p
  simp

/-! ## Tokens -/

/-- Characters of code that the walk passes over. -/
def isPlain (c : Char) : Bool :=
  c ≠ '{' && c ≠ '}' && c ≠ '\'' && c ≠ '"' && c ≠ '\x60'

theorem leads_plain {c : Char} (h : isPlain c = true) :
    Leads (.code depth :: below) [c] (.code depth :: below) := by
  simp only [isPlain, Bool.and_eq_true, decide_eq_true_eq] at h
  obtain ⟨⟨⟨⟨hopening, hclosing⟩, hsingle⟩, hdouble⟩, hbacktick⟩ := h
  refine .char fun next => ?_
  simp [Layer.step, hopening, hclosing, hsingle, hdouble, hbacktick]

theorem leads_all_plain (h : ∀ c ∈ t, isPlain c = true) :
    Leads (.code depth :: below) t (.code depth :: below) :=
  .all fun c hc => leads_plain (h c hc)

theorem step_quoted {c quote : Char} (hescape : c ≠ '\\') (hquote : c ≠ quote)
    (next : Option Char) :
    Layer.step c next (.quoted quote :: below) = (.quoted quote :: below, false) := by
  simp [Layer.step, hescape, hquote]

/-- A string literal ends where the walk says. -/
theorem closing_of_stringBody {quote : Char} {body : Text}
    (h : Lexer.stringBody quote t = .inl body) :
    ∃ rest, closing (.quoted quote) t = some (body, rest) := by
  unfold closing
  fun_induction Lexer.stringBody quote t generalizing body with
  | case1 | case2 | case3 | case5 | case8 => cases h
  | case4 c rest _ inner hinner ih =>
      cases h
      obtain ⟨after, hafter⟩ := ih hinner
      refine ⟨after, ?_⟩
      rw [closingFrom, Layer.step, if_pos rfl]
      dsimp only
      rw [closingFrom, hafter]
      rfl
  | case6 rest hend hescape =>
      cases h
      have hne : quote ≠ '\\' := by
        intro heq
        cases rest with
        | nil => exact hend heq rfl
        | cons d rest => exact hescape d rest heq rfl
      refine ⟨rest, ?_⟩
      rw [closingFrom, Layer.step, if_neg hne, if_pos rfl]
  | case7 c rest hend hescape hquote inner hinner ih =>
      cases h
      have hne : c ≠ '\\' := by
        intro heq
        cases rest with
        | nil => exact hend heq rfl
        | cons d rest => exact hescape d rest heq rfl
      obtain ⟨after, hafter⟩ := ih hinner
      refine ⟨after, ?_⟩
      rw [closingFrom, step_quoted hne hquote]
      dsimp only
      rw [hafter]
      rfl

/-! ### Numerals -/

/-- Characters of numerals. -/
def isNumeralChar (c : Char) : Bool :=
  Number.isDigit c || c = '.' || c = 'e' || c = 'E' || c = '-' || c = '+'

theorem isPlain_of_isNumeralChar {c : Char} (h : isNumeralChar c = true) : isPlain c = true := by
  unfold isPlain
  simp only [Bool.and_eq_true, decide_eq_true_eq]
  refine ⟨⟨⟨⟨?_, ?_⟩, ?_⟩, ?_⟩, ?_⟩ <;>
    (rintro rfl
     exact absurd h (by decide))

theorem isNumeralChar_of_isDigit {c : Char} (h : Number.isDigit c = true) :
    isNumeralChar c = true := by
  simp [isNumeralChar, h]

/-- Characters of numerals are taken off the front of a text, and leave the rest. -/
def TakesNumeral (t rest : Text) : Prop :=
  ∃ w, t = w ++ rest ∧ ∀ c ∈ w, isNumeralChar c = true

theorem TakesNumeral.refl (t : Text) : TakesNumeral t t :=
  ⟨[], rfl, by simp⟩

theorem TakesNumeral.cons {c : Char} (hc : isNumeralChar c = true) (h : TakesNumeral t u) :
    TakesNumeral (c :: t) u := by
  obtain ⟨w, rfl, hw⟩ := h
  exact ⟨c :: w, rfl, List.forall_mem_cons.2 ⟨hc, hw⟩⟩

theorem TakesNumeral.digits (t : Text) : TakesNumeral t (t.dropWhile Number.isDigit) :=
  ⟨t.takeWhile Number.isDigit, List.takeWhile_append_dropWhile.symm, fun _ hc =>
    isNumeralChar_of_isDigit (List.mem_takeWhile_imp hc)⟩

theorem TakesNumeral.trans {v : Text} (htu : TakesNumeral t u) (huv : TakesNumeral u v) :
    TakesNumeral t v := by
  obtain ⟨w, rfl, hw⟩ := htu
  obtain ⟨w', rfl, hw'⟩ := huv
  exact ⟨w ++ w', (List.append_assoc w w' v).symm, List.forall_mem_append.2 ⟨hw, hw'⟩⟩

theorem takesNumeral_takeExponent (t : Text) : TakesNumeral t (Number.takeExponent t).2 := by
  unfold Number.takeExponent
  split
  · exact .refl _
  · next e rest =>
      split
      · next he =>
          have hchar : isNumeralChar e = true := by
            rcases Bool.or_eq_true_iff.1 he with he | he
            · rw [of_decide_eq_true he]
              rfl
            · rw [of_decide_eq_true he]
              rfl
          split
          next negative ds hsign =>
          have hds : TakesNumeral rest ds := by
            split at hsign
            · obtain ⟨-, rfl⟩ := Prod.mk.inj hsign
              exact .cons rfl (.refl _)
            · obtain ⟨-, rfl⟩ := Prod.mk.inj hsign
              exact .cons rfl (.refl _)
            · obtain ⟨-, rfl⟩ := Prod.mk.inj hsign
              exact .refl _
          dsimp only
          split
          · exact .refl _
          · exact .cons hchar (hds.trans (.digits _))
      · exact .refl _

/-- What a numeral takes off a text are such characters. -/
theorem takesNumeral_takeNumeral? {n : Number.Numeral} {rest : Text}
    (h : Number.takeNumeral? t = some (n, rest)) : TakesNumeral t rest := by
  have hdigits := TakesNumeral.digits t
  unfold Number.takeNumeral? at h
  dsimp only at h
  split at h
  · next after hpoint =>
      rw [hpoint] at hdigits
      split at h
      · split at h
        · cases h
        · obtain ⟨-, rfl⟩ := Prod.mk.inj (Option.some.inj h)
          exact hdigits.trans (takesNumeral_takeExponent _)
      · split at h
        · cases h
        · obtain ⟨-, rfl⟩ := Prod.mk.inj (Option.some.inj h)
          exact (hdigits.trans (.cons rfl (.digits _))).trans (takesNumeral_takeExponent _)
  · split at h
    · cases h
    · obtain ⟨-, rfl⟩ := Prod.mk.inj (Option.some.inj h)
      exact hdigits.trans (takesNumeral_takeExponent _)

/-- A numeral starts with a digit or a point. -/
theorem isNumeralChar_of_takeNumeral? {c : Char} {p : Number.Numeral × Text}
    (h : Number.takeNumeral? (c :: t) = some p) : isNumeralChar c = true := by
  by_cases hdigit : Number.isDigit c = true
  · exact isNumeralChar_of_isDigit hdigit
  by_cases hpoint : c = '.'
  · rw [hpoint]
    rfl
  -- nothing is read before the point or after it
  simp [Number.takeNumeral?, hdigit, hpoint] at h

/-- The characters of a numeral. -/
theorem isNumeralChar_of_mem {c d : Char} {rest after : Text} {n : Number.Numeral}
    (h : Number.takeNumeral? (c :: rest) = some (n, after))
    (hd : d ∈ c :: rest.take (rest.length - after.length)) : isNumeralChar d = true := by
  obtain ⟨w, hw, hchars⟩ := takesNumeral_takeNumeral? h
  rcases List.mem_cons.1 hd with rfl | hd
  · exact isNumeralChar_of_takeNumeral? h
  cases w with
  | nil =>
      rw [List.nil_append] at hw
      simp [← hw] at hd
  | cons d' w =>
      obtain ⟨rfl, hrest⟩ := List.cons.inj hw
      have htake : rest.take (rest.length - after.length) = w := by simp [hrest]
      rw [htake] at hd
      exact hchars d (List.mem_cons_of_mem c hd)

/-- A numeral is passed. -/
theorem leads_numeral {c : Char} {rest after : Text} {n : Number.Numeral}
    (h : Number.takeNumeral? (c :: rest) = some (n, after)) :
    Leads (.code depth :: below)
      (c :: rest.take (rest.length - after.length)) (.code depth :: below) :=
  leads_all_plain fun _ hd => isPlain_of_isNumeralChar (isNumeralChar_of_mem h hd)

/-! ### Names and symbols -/

theorem isPlain_of_isNameChar {c : Char} (h : Lexer.isNameChar c = true) : isPlain c = true := by
  unfold isPlain
  simp only [Bool.and_eq_true, decide_eq_true_eq]
  refine ⟨⟨⟨⟨?_, ?_⟩, ?_⟩, ?_⟩, ?_⟩ <;>
    (rintro rfl
     exact absurd h (by decide))

/-- A name is passed. -/
theorem leads_word {c : Char} {rest : Text} (hname : Lexer.isNameStart c = true) :
    Leads (.code depth :: below)
      (c :: rest.take (rest.takeWhile Lexer.isNameChar).length) (.code depth :: below) := by
  have htake : rest.take (rest.takeWhile Lexer.isNameChar).length =
      rest.takeWhile Lexer.isNameChar :=
    (List.prefix_iff_eq_take.1 (List.takeWhile_prefix Lexer.isNameChar)).symm
  rw [htake]
  refine leads_all_plain (List.forall_mem_cons.2 ⟨?_, fun d hd => ?_⟩)
  · exact isPlain_of_isNameChar (by simp [Lexer.isNameChar, hname])
  · exact isPlain_of_isNameChar (List.mem_takeWhile_imp hd)

/-- A symbol is passed to the depth that its braces tell. -/
theorem leads_symbol {s : Text × Token} (hs : s ∈ Lexer.symbols)
    (hbraces : s.2.braces depth = some depth') :
    Leads (.code depth :: below) s.1 (.code depth' :: below) := by
  rcases Lexer.symbol_cases hs with ⟨o, rfl⟩ | ⟨m, rfl⟩
  · cases hbraces
    refine leads_all_plain (List.all_eq_true.1 ?_)
    cases o <;> rfl
  · cases m with
    | braceOpen =>
        cases hbraces
        exact .char fun next => rfl
    | braceClose =>
        cases depth with
        | zero => cases hbraces
        | succ depth =>
            cases hbraces
            exact .char fun next => rfl
    | _ =>
        cases hbraces
        exact leads_all_plain (List.all_eq_true.1 rfl)

/-- The longest symbol at the start of a text stands at its start. -/
theorem starts_of_symbol? {s : Text × Token} (h : Lexer.symbol? t = some s) :
    ∃ rest, t = s.1 ++ rest := by
  have hs := Lexer.mem_found_of_symbol? h
  obtain ⟨rest, hrest⟩ := Option.isSome_iff_exists.1 (List.mem_filter.1 hs).2
  exact ⟨rest, Text.dropHead?_eq_some_iff.1 hrest⟩

theorem symbol_ne_nil {s : Text × Token} (h : s ∈ Lexer.symbols) : s.1 ≠ [] := by
  rcases Lexer.symbol_cases h with ⟨o, rfl⟩ | ⟨m, rfl⟩
  · cases o <;> decide
  · cases m <;> decide

/-! ### All tokens -/

/-- A token is passed to the depth that its braces tell. -/
theorem leads_token {offset more : Nat} {c : Char} {rest : Text} {token : Token}
    (h : Lexer.readToken offset c rest = .ok (token, more))
    (hbraces : token.braces depth = some depth') :
    Leads (.code depth :: below) (c :: rest.take more) (.code depth' :: below) := by
  cases Lexer.reading_of_readToken h with
  | keyword hname | name hname =>
      cases hbraces
      exact leads_word hname
  | string hquote hbody =>
      cases hbraces
      obtain ⟨after, hclosing⟩ := closing_of_stringBody hbody
      refine leads_literal (fun next => ?_) hclosing
      rcases hquote with rfl | rfl
      · rfl
      · rfl
  | template hquote hclosing =>
      cases hbraces
      refine leads_literal (fun next => ?_) hclosing
      rw [hquote]
      rfl
  | number _ hnumeral =>
      cases hbraces
      exact leads_numeral hnumeral
  | @symbol written _ _ _ hsymbol =>
      have hmem := Lexer.mem_symbols hsymbol
      obtain ⟨after, hafter⟩ := starts_of_symbol? hsymbol
      have hleads : Leads (.code depth :: below) written (.code depth' :: below) :=
        leads_symbol hmem hbraces
      cases written with
      | nil => exact absurd rfl (symbol_ne_nil hmem)
      | cons d written =>
          obtain ⟨rfl, rfl⟩ := List.cons.inj hafter
          simpa using hleads

/-- All tokens of a source are passed, to the depth that their braces tell. -/
theorem leads_of_lex {offset : Nat} {lexemes : List Lexeme}
    (h : Lexer.lexFrom offset t = .ok lexemes)
    (hbraces : braceDepth depth (lexemes.map Lexeme.token) = some depth') :
    Leads (.code depth :: below) t (.code depth' :: below) := by
  fun_induction Lexer.lexFrom offset t generalizing lexemes depth with
  | case1 =>
      cases h
      cases hbraces
      exact .nil _
  | case2 offset c rest hblank ih =>
      have hc : isPlain c = true := by
        revert hblank
        simp only [Lexer.isBlank, Bool.or_eq_true, decide_eq_true_eq]
        rintro (((rfl | rfl) | rfl) | rfl) <;> rfl
      exact (leads_plain hc).append (ih h hbraces)
  | case3 => cases h
  | case4 => cases h
  | case5 offset c rest _ token more hread stop others hothers =>
      rename_i ih
      obtain rfl := Except.ok.inj h
      obtain ⟨depth₁, hfirst, hrest⟩ := Option.bind_eq_some_iff.1 hbraces
      have hwalk : Leads (.code depth :: below) (c :: rest.take more ++ rest.drop more)
          (.code depth' :: below) := (leads_token hread hfirst).append (ih hothers hrest)
      rwa [List.cons_append, List.take_append_drop] at hwalk

/-- **An interpolation ends behind its source**, if the braces of the source balance. -/
theorem closing_of_lex {offset : Nat} {lexemes : List Lexeme}
    (h : Lexer.lexFrom offset t = .ok lexemes)
    (hbraces : braceDepth 0 (lexemes.map Lexeme.token) = some 0) (rest : Text) :
    closing (.code 0) (t ++ '}' :: rest) = some (t, rest) := by
  have hwalk : Leads [.code 0] t [.code 0] := leads_of_lex h hbraces
  rw [closing, hwalk]
  simp [closingFrom, Layer.step]

end Stencil.Expr
