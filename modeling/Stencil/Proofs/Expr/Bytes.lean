import Stencil.Proofs.Expr.Closing
import Stencil.Proofs.Text.Range
import Stencil.Proofs.Text.Utf8

/-!
# Literals in bytes

The ends of literals can be found in the bytes of a text as well: by indices, where a
backslash passes over one byte, and where each literal inside is looked for in a slice of its
own. A slice must start and end between characters; `templateLength` and
`interpolationLength` give up where one does not.

They find the ends that the walk over the characters finds, and give up nowhere
(`templateLength_utf8`, `interpolationLength_utf8`). A backslash may pass over the first byte
of a character only, but the other bytes of the character are those of no delimiter, so that
the walk comes to its end all the same (`crosses_escape`).
-/

namespace Stencil.Expr.Bytes

open Context (utf8 utf8_nil utf8_append utf8_cons length_utf8)

/-- What breaks a walk over bytes off. -/
inductive Fault where
  /-- A slice leaves the text or cuts a character. -/
  | slice
  /-- There is no end of an interpolation that is to be cut out. -/
  | unclosed
deriving DecidableEq

/-- Whether a slice may start or end at an index: at the end of the bytes, or at a byte that
starts a character. -/
def isBoundary (bs : List UInt8) (i : Nat) : Bool :=
  match bs[i]? with
  | some b => b < 0x80 || 0xC0 ≤ b
  | none => i = bs.length

/-- The bytes between two indices. -/
def slice (bs : List UInt8) (start stop : Nat) : Except Fault (List UInt8) :=
  if start ≤ stop ∧ isBoundary bs start ∧ isBoundary bs stop then
    .ok ((bs.take stop).drop start)
  else .error .slice

/-- Where the first `quote` stands that no backslash passes over. -/
def quotedLength (quote : UInt8) (bs : List UInt8) (i : Nat) : Option Nat :=
  if h : i < bs.length then
    if bs[i] = '\\'.toUInt8 then quotedLength quote bs (i + 2)
    else if bs[i] = quote then some i
    else quotedLength quote bs (i + 1)
  else none
termination_by bs.length - i

/-- Goes on behind an end, if it is found. -/
def behind (found : Except Fault (Option Nat)) (next : Nat → Except Fault (Option Nat)) :
    Except Fault (Option Nat) :=
  match found with
  | .ok (some n) => next n
  | .ok none => .ok none
  | .error f => .error f

mutual

/-- Where the backtick stands that ends a template literal. -/
def templateLength (bs : List UInt8) (i : Nat) : Except Fault (Option Nat) :=
  if h : i < bs.length then
    if bs[i] = '\\'.toUInt8 then templateLength bs (i + 2)
    else if bs[i] = '\x60'.toUInt8 then .ok (some i)
    else if bs[i] = '$'.toUInt8 ∧ bs[i + 1]? = some '{'.toUInt8 then
      if isBoundary bs (i + 2) then
        behind (interpolationLength 0 (bs.drop (i + 2)) 0) fun n =>
          templateLength bs (i + 2 + n + 1)
      else .error .slice
    else templateLength bs (i + 1)
  else .ok none
termination_by bs.length - i

/-- Where the brace stands that ends an interpolation, `depth` braces deep. -/
def interpolationLength (depth : Nat) (bs : List UInt8) (i : Nat) : Except Fault (Option Nat) :=
  if h : i < bs.length then
    if bs[i] = '{'.toUInt8 then interpolationLength (depth + 1) bs (i + 1)
    else if bs[i] = '}'.toUInt8 then
      match depth with
      | 0 => .ok (some i)
      | depth + 1 => interpolationLength depth bs (i + 1)
    else if bs[i] = '\''.toUInt8 ∨ bs[i] = '"'.toUInt8 then
      behind (.ok (quotedLength bs[i] (bs.drop (i + 1)) 0)) fun n =>
        interpolationLength depth bs (i + 1 + n + 1)
    else if bs[i] = '\x60'.toUInt8 then
      if isBoundary bs (i + 1) then
        behind (templateLength (bs.drop (i + 1)) 0) fun n =>
          interpolationLength depth bs (i + 1 + n + 1)
      else .error .slice
    else interpolationLength depth bs (i + 1)
  else .ok none
termination_by bs.length - i

end

variable {pre post w : List UInt8} {b : UInt8}

/-! ## Reading behind a prefix -/

theorem getElem_at (h : pre.length < (pre ++ b :: post).length) :
    (pre ++ b :: post)[pre.length] = b := by
  simp

theorem drop_at (k : Nat) : (pre ++ b :: post).drop (pre.length + (k + 1)) = post.drop k := by
  simp

theorem getElem?_at : (pre ++ b :: post)[pre.length + 1]? = post.head? := by
  simp [List.getElem?_append_right, List.head?_eq_getElem?]

theorem quotedLength_at (quote : UInt8) (pre : List UInt8) (b : UInt8) (post : List UInt8) :
    quotedLength quote (pre ++ b :: post) pre.length =
      if b = '\\'.toUInt8 then quotedLength quote (pre ++ b :: post) (pre.length + 2)
      else if b = quote then some pre.length
      else quotedLength quote (pre ++ b :: post) (pre.length + 1) := by
  rw [quotedLength, dif_pos (by simp)]
  simp only [getElem_at]

theorem templateLength_at (pre : List UInt8) (b : UInt8) (post : List UInt8) :
    templateLength (pre ++ b :: post) pre.length =
      if b = '\\'.toUInt8 then templateLength (pre ++ b :: post) (pre.length + 2)
      else if b = '\x60'.toUInt8 then .ok (some pre.length)
      else if b = '$'.toUInt8 ∧ post.head? = some '{'.toUInt8 then
        if isBoundary (pre ++ b :: post) (pre.length + 2) then
          behind (interpolationLength 0 (post.drop 1) 0) fun n =>
            templateLength (pre ++ b :: post) (pre.length + 2 + n + 1)
        else .error .slice
      else templateLength (pre ++ b :: post) (pre.length + 1) := by
  conv => lhs; rw [templateLength, dif_pos (by simp)]
  simp only [getElem_at, getElem?_at, drop_at]

theorem interpolationLength_at (depth : Nat) (pre : List UInt8) (b : UInt8) (post : List UInt8) :
    interpolationLength depth (pre ++ b :: post) pre.length =
      if b = '{'.toUInt8 then interpolationLength (depth + 1) (pre ++ b :: post) (pre.length + 1)
      else if b = '}'.toUInt8 then
        match depth with
        | 0 => .ok (some pre.length)
        | depth + 1 => interpolationLength depth (pre ++ b :: post) (pre.length + 1)
      else if b = '\''.toUInt8 ∨ b = '"'.toUInt8 then
        behind (.ok (quotedLength b post 0)) fun n =>
          interpolationLength depth (pre ++ b :: post) (pre.length + 1 + n + 1)
      else if b = '\x60'.toUInt8 then
        if isBoundary (pre ++ b :: post) (pre.length + 1) then
          behind (templateLength post 0) fun n =>
            interpolationLength depth (pre ++ b :: post) (pre.length + 1 + n + 1)
        else .error .slice
      else interpolationLength depth (pre ++ b :: post) (pre.length + 1) := by
  conv => lhs; rw [interpolationLength.eq_def, dif_pos (by simp)]
  simp only [getElem_at, drop_at, List.drop_zero]

/-! ## Bytes of characters -/

/-- The byte of no ASCII character. -/
def IsHigh (b : UInt8) : Prop :=
  ∀ c : Char, c.toNat < 128 → b ≠ c.toUInt8

theorem isHigh_of_mem {c : Char} (hc : ¬ c.toNat < 128) (h : b ∈ String.utf8EncodeChar c) :
    IsHigh b := by
  rintro d hd rfl
  exact hc (Context.eq_of_mem_utf8EncodeChar hd h ▸ hd)

/-- Another character does not have the byte of an ASCII character. -/
theorem ne_toUInt8 {c d : Char} (hd : d.toNat < 128) (h : c ≠ d)
    (hb : b ∈ String.utf8EncodeChar c) : b ≠ d.toUInt8 := by
  rintro rfl
  exact h (Context.eq_of_mem_utf8EncodeChar hd hb)

theorem encode_ascii {c : Char} (hc : c.toNat < 128) : String.utf8EncodeChar c = [c.toUInt8] :=
  String.utf8EncodeChar_eq_singleton (Context.utf8Size_of_ascii hc)

/-- Only the first byte of a character can be that of an ASCII character. -/
theorem isHigh_of_mem_tail {c : Char} {a : UInt8} (hc : String.utf8EncodeChar c = a :: w)
    (h : b ∈ w) : IsHigh b := by
  by_cases hascii : c.toNat < 128
  · rw [encode_ascii hascii] at hc
    obtain ⟨-, rfl⟩ := List.cons.inj hc
    cases h
  · apply isHigh_of_mem hascii
    rw [hc]
    exact List.mem_cons_of_mem a h

theorem utf8_cons_ascii {c : Char} (hc : c.toNat < 128) (t : Text) :
    utf8 (c :: t) = c.toUInt8 :: utf8 t := by
  rw [utf8_cons, encode_ascii hc]
  rfl

theorem head?_utf8_ne {c : Char} {t : Text} (hc : c.toNat < 128) (h : t.head? ≠ some c) :
    (utf8 t).head? ≠ some c.toUInt8 := by
  intro hhead
  rw [List.head?_eq_getElem?] at hhead
  obtain ⟨before, after, rfl, hbefore⟩ := Context.exists_of_getElem?_utf8 hc hhead
  obtain rfl := Text.eq_nil_of_byteLength hbefore
  exact h rfl

/-! ## Slices -/

theorem isBoundary_first (h : b.IsUTF8FirstByte) : (b < 0x80 || 0xC0 ≤ b) = true := by
  have hall : ∀ n : Fin 256, (UInt8.ofFin n).IsUTF8FirstByte →
      (UInt8.ofFin n < 0x80 || 0xC0 ≤ UInt8.ofFin n) = true := by
    unfold UInt8.IsUTF8FirstByte
    decide +kernel
  exact hall b.toFin h

/-- A slice may start where a text starts. -/
theorem isBoundary_utf8 (pre : List UInt8) (t : Text) :
    isBoundary (pre ++ utf8 t) pre.length = true := by
  cases t with
  | nil => simp [isBoundary]
  | cons c t =>
      obtain ⟨b, bs, hc⟩ := List.exists_cons_of_ne_nil (String.utf8EncodeChar_ne_nil (c := c))
      have hfirst := UInt8.isUTF8FirstByte_getElem_zero_utf8EncodeChar (c := c)
      simp only [hc, List.getElem_cons_zero] at hfirst
      rw [isBoundary, utf8_cons, hc, List.getElem?_append_right (Nat.le_refl _), Nat.sub_self]
      exact isBoundary_first hfirst

/-- And so may it behind a text. -/
theorem isBoundary_behind (pre : List UInt8) (s t : Text) :
    isBoundary (pre ++ utf8 (s ++ t)) (pre.length + Text.byteLength s) = true := by
  have h := isBoundary_utf8 (pre ++ utf8 s) t
  rw [List.append_assoc, ← utf8_append, List.length_append, length_utf8] at h
  exact h

/-- What is cut out from where a text starts to where it stops is the text. -/
theorem slice_utf8 (pre : List UInt8) (s t : Text) :
    slice (pre ++ utf8 (s ++ t)) pre.length (pre.length + Text.byteLength s) = .ok (utf8 s) := by
  have hstart := isBoundary_utf8 pre (s ++ t)
  have hstop := isBoundary_behind pre s t
  rw [slice, if_pos ⟨Nat.le_add_right _ _, hstart, hstop⟩, utf8_append, ← length_utf8,
    ← List.append_assoc, ← List.length_append, List.take_left, List.drop_left]

/-! ## Bytes that are passed -/

section Passes

variable {β : Type} {f : List UInt8 → Nat → β} {t : Text}

/-- The walk takes one step over a byte, wherever it stands. -/
def Passes (f : List UInt8 → Nat → β) (b : UInt8) : Prop :=
  ∀ pre post, f (pre ++ b :: post) pre.length = f (pre ++ b :: post) (pre.length + 1)

/-- A walk gets over a text with another behind it, and goes on as a walk of its own. -/
def Crosses (f : List UInt8 → Nat → β) (s : Text) (g : List UInt8 → Nat → β) (t : Text) : Prop :=
  ∀ pre, f (pre ++ utf8 (s ++ t)) pre.length =
    g (pre ++ utf8 s ++ utf8 t) (pre ++ utf8 s).length

theorem passes_all (h : ∀ b ∈ w, Passes f b) (pre post : List UInt8) :
    f (pre ++ w ++ post) pre.length = f (pre ++ w ++ post) (pre ++ w).length := by
  induction w generalizing pre with
  | nil => simp
  | cons b w ih =>
      calc f (pre ++ b :: w ++ post) pre.length
          = f (pre ++ b :: (w ++ post)) pre.length := by simp
        _ = f (pre ++ b :: (w ++ post)) (pre.length + 1) := h b List.mem_cons_self pre _
        _ = f (pre ++ [b] ++ w ++ post) (pre ++ [b]).length := by simp
        _ = f (pre ++ [b] ++ w ++ post) (pre ++ [b] ++ w).length :=
          ih (fun b hb => h b (List.mem_cons_of_mem _ hb)) _
        _ = f (pre ++ b :: w ++ post) (pre ++ b :: w).length := by simp

theorem crosses_char {c : Char} (h : ∀ b ∈ String.utf8EncodeChar c, Passes f b) :
    Crosses f [c] f t := by
  intro pre
  rw [utf8_append, ← List.append_assoc]
  apply passes_all
  simpa [utf8_cons] using h

/-- A backslash passes over the first byte of a character, and the walk goes over the rest. -/
theorem crosses_escape (d : Char)
    (hskip : ∀ pre post, f (pre ++ '\\'.toUInt8 :: post) pre.length =
      f (pre ++ '\\'.toUInt8 :: post) (pre.length + 2))
    (hhigh : ∀ b, IsHigh b → Passes f b) : Crosses f ['\\', d] f t := by
  intro pre
  obtain ⟨b, w, hd⟩ := List.exists_cons_of_ne_nil (String.utf8EncodeChar_ne_nil (c := d))
  have hbytes : utf8 ['\\', d] = ['\\'.toUInt8, b] ++ w := by
    rw [utf8_cons_ascii (by decide), utf8_cons, hd]
    simp
  have htail := passes_all (fun b hb => hhigh b (isHigh_of_mem_tail hd hb))
    (pre ++ ['\\'.toUInt8, b]) (utf8 t)
  rw [utf8_append, hbytes]
  simp only [List.append_assoc, List.cons_append, List.nil_append, List.length_append] at htail ⊢
  rw [hskip]
  exact htail

/-- A walk gets over a character that opens no interpolation if it takes one step over each byte
that opens none. -/
theorem crosses_unopened {c : Char} (hopening : ¬ (c = '$' ∧ t.head? = some '{'))
    (h : ∀ b ∈ String.utf8EncodeChar c, ∀ pre post,
      ¬ (b = '$'.toUInt8 ∧ post.head? = some '{'.toUInt8) →
        f (pre ++ b :: post) pre.length = f (pre ++ b :: post) (pre.length + 1)) :
    Crosses f [c] f t := by
  by_cases hdollar : c = '$'
  · subst hdollar
    have hbrace := head?_utf8_ne (by decide) fun h => hopening ⟨rfl, h⟩
    have hbyte : '$'.toUInt8 ∈ String.utf8EncodeChar '$' := by
      rw [encode_ascii (by decide)]
      exact List.mem_cons_self
    intro pre
    rw [List.singleton_append, utf8_cons_ascii (by decide),
      h _ hbyte pre (utf8 t) (fun hnext => hbrace hnext.2)]
    simp [utf8_cons_ascii]
  · apply crosses_char
    intro b hb pre post
    exact h b hb pre post fun hnext => ne_toUInt8 (by decide) hdollar hb hnext.1

end Passes

theorem passes_quotedLength {quote : UInt8} (hescape : b ≠ '\\'.toUInt8) (hquote : b ≠ quote) :
    Passes (fun bs i => .ok (quotedLength quote bs i) : _ → _ → Except Fault (Option Nat)) b := by
  intro pre post
  dsimp only
  rw [quotedLength_at, if_neg hescape, if_neg hquote]

theorem passes_templateLength (hescape : b ≠ '\\'.toUInt8) (hquote : b ≠ '\x60'.toUInt8)
    (hopening : b ≠ '$'.toUInt8) : Passes templateLength b := by
  intro pre post
  rw [templateLength_at, if_neg hescape, if_neg hquote, if_neg (fun h => hopening h.1)]

theorem passes_interpolationLength {depth : Nat} (hopening : b ≠ '{'.toUInt8)
    (hclosing : b ≠ '}'.toUInt8) (hsingle : b ≠ '\''.toUInt8) (hdouble : b ≠ '"'.toUInt8)
    (htemplate : b ≠ '\x60'.toUInt8) : Passes (interpolationLength depth) b := by
  intro pre post
  rw [interpolationLength_at, if_neg hopening, if_neg hclosing,
    if_neg (fun h => h.elim hsingle hdouble), if_neg htemplate]

/-! ## The ends agree -/

/-- Where the end of a layer stands, if the text starts at byte `start`. -/
def endAt (start : Nat) (found : Option (Text × Text)) : Option Nat :=
  found.map fun p => start + Text.byteLength p.1

theorem endAt_map (start : Nat) (s : Text) (found : Option (Text × Text)) :
    endAt start (found.map fun p => (s ++ p.1, p.2)) =
      endAt (start + Text.byteLength s) found := by
  cases found with
  | none => rfl
  | some p => simp [endAt, Nat.add_assoc]

/-- The walk over the bytes of a text finds the end of the layer, behind any bytes. -/
def Agrees (f : List UInt8 → Nat → Except Fault (Option Nat)) (l : Layer) (t : Text) : Prop :=
  ∀ pre, f (pre ++ utf8 t) pre.length = .ok (endAt pre.length (closing l t))

variable {f g : List UInt8 → Nat → Except Fault (Option Nat)} {l l' : Layer} {t : Text}

theorem Agrees.nil (hend : ∀ bs i, bs.length ≤ i → f bs i = .ok none) : Agrees f l [] := by
  intro pre
  exact hend _ _ (by simp)

theorem Agrees.alone (h : Agrees f l t) : f (utf8 t) 0 = .ok (endAt 0 (closing l t)) :=
  h []

/-- What is crossed is inside the layer. -/
theorem Agrees.cross {s : Text} (hs : Crosses f s g t)
    (hclosing : closing l (s ++ t) = (closing l' t).map fun p => (s ++ p.1, p.2))
    (h : Agrees g l' t) : Agrees f l (s ++ t) := by
  intro pre
  rw [hs, h, hclosing, endAt_map, List.length_append, length_utf8]

/-- A backslash passes over a character, if there is one. -/
theorem Agrees.escape (hend : ∀ bs i, bs.length ≤ i → f bs i = .ok none)
    (hskip : ∀ pre post, f (pre ++ '\\'.toUInt8 :: post) pre.length =
      f (pre ++ '\\'.toUInt8 :: post) (pre.length + 2))
    (hhigh : ∀ b, IsHigh b → Passes f b)
    (hstep : ∀ next, Layer.step '\\' next [l] = ([l], true))
    (ih : ∀ rest : Text, rest.length < t.length → Agrees f l rest) : Agrees f l ('\\' :: t) := by
  cases t with
  | nil =>
      intro pre
      have hlast : closing l ['\\'] = none := by rw [closing, closingFrom, hstep]; rfl
      rw [utf8_cons_ascii (by decide), hskip, hend _ _ (by simp), hlast]
      rfl
  | cons d t =>
      apply Agrees.cross (s := ['\\', d])
      · exact crosses_escape d hskip hhigh
      · exact closing_skip (hstep _)
      · exact ih t (Nat.lt_succ_self _)

/-- A layer inside is cut out and walked over on its own. -/
theorem behind_closing (l' : Layer) (hcloser : l'.closer.toNat < 128) (opener t : Text)
    (h : ∀ after : Text, after.length < t.length → Agrees f l after) (pre : List UInt8) :
    behind (.ok (endAt 0 (closing l' t))) (fun n =>
        f (pre ++ utf8 (opener ++ t)) (pre.length + Text.byteLength opener + n + 1)) =
      .ok (endAt pre.length ((closing l' t).bind fun p =>
        (closing l p.2).map fun q => (opener ++ (p.1 ++ l'.closer :: q.1), q.2))) := by
  cases hclosing : closing l' t with
  | none => rfl
  | some p =>
      obtain ⟨body, after⟩ := p
      have hlength := length_of_closing hclosing
      obtain rfl := closing_eq hclosing
      have hafter := h after (by omega) (pre ++ utf8 (opener ++ (body ++ [l'.closer])))
      have hbytes : utf8 (opener ++ (body ++ l'.closer :: after)) =
          utf8 (opener ++ (body ++ [l'.closer])) ++ utf8 after := by
        rw [← utf8_append]
        simp
      have hsize : (pre ++ utf8 (opener ++ (body ++ [l'.closer]))).length =
          pre.length + Text.byteLength opener + (0 + Text.byteLength body) + 1 := by
        have hone : Text.byteLength [l'.closer] = 1 := by
          rw [← length_utf8, utf8_cons_ascii hcloser]
          rfl
        simp only [List.length_append, length_utf8, Text.byteLength_append, hone]
        omega
      have hinside := endAt_map pre.length (opener ++ (body ++ [l'.closer])) (closing l after)
      simp only [endAt, Option.map_some, Option.bind_some, behind]
      rw [hbytes, ← List.append_assoc, ← hsize, hafter, List.length_append, length_utf8,
        ← hinside]
      simp only [endAt, List.append_assoc, List.singleton_append]

/-! ## String literals -/

theorem agrees_quotedLength {quote : Char} (hquote : quote.toNat < 128) (hne : quote ≠ '\\')
    (t : Text) :
    Agrees (fun bs i => .ok (quotedLength quote.toUInt8 bs i)) (.quoted quote) t := by
  have hend : ∀ bs i, bs.length ≤ i → quotedLength quote.toUInt8 bs i = none := by
    intro bs i hle
    rw [quotedLength, dif_neg (Nat.not_lt.2 hle)]
  induction h : t.length using Nat.strong_induction_on generalizing t with
  | _ n ih =>
      subst h
      cases t with
      | nil =>
          apply Agrees.nil
          intro bs i hle
          rw [hend bs i hle]
      | cons c t =>
          by_cases hescape : c = '\\'
          · subst hescape
            apply Agrees.escape
            · intro bs i hle
              rw [hend bs i hle]
            · intro pre post
              rw [quotedLength_at, if_pos rfl]
            · intro b hb
              exact passes_quotedLength (hb _ (by decide)) (hb _ hquote)
            · intro next
              rfl
            · intro rest hrest
              exact ih _ (Nat.lt_succ_of_lt hrest) rest rfl
          by_cases hclose : c = quote
          · subst hclose
            intro pre
            have hstep : Layer.step c t.head? [.quoted c] = ([], false) := by simp [Layer.step, hne]
            have hbyte : c.toUInt8 ≠ '\\'.toUInt8 :=
              ne_toUInt8 (by decide) hne (by rw [encode_ascii hquote]; exact List.mem_cons_self)
            show Except.ok (quotedLength _ _ _) = _
            rw [utf8_cons_ascii hquote, quotedLength_at, if_neg hbyte, if_pos rfl,
              closing_end hstep]
            rfl
          · apply Agrees.cross (s := [c])
            · apply crosses_char
              intro b hb
              exact passes_quotedLength (ne_toUInt8 (by decide) hescape hb)
                (ne_toUInt8 hquote hclose hb)
            · exact closing_keep (step_quoted hescape hclose _)
            · exact ih _ (Nat.lt_succ_self _) t rfl

/-! ## Template literals -/

theorem crosses_templateLength {c : Char} (hescape : c ≠ '\\') (hclose : c ≠ '\x60')
    (hopening : ¬ (c = '$' ∧ t.head? = some '{')) :
    Crosses templateLength [c] templateLength t := by
  apply crosses_unopened hopening
  intro b hb pre post hnext
  rw [templateLength_at, if_neg (ne_toUInt8 (by decide) hescape hb),
    if_neg (ne_toUInt8 (by decide) hclose hb), if_neg hnext]

theorem templateLength_opening (pre : List UInt8) (t : Text) :
    templateLength (pre ++ utf8 ('$' :: '{' :: t)) pre.length =
      behind (interpolationLength 0 (utf8 t) 0) fun n =>
        templateLength (pre ++ utf8 ('$' :: '{' :: t)) (pre.length + 2 + n + 1) := by
  have hslice : isBoundary (pre ++ utf8 ('$' :: '{' :: t)) (pre.length + 2) = true :=
    isBoundary_behind pre ['$', '{'] t
  rw [utf8_cons_ascii (by decide), utf8_cons_ascii (by decide)] at hslice ⊢
  rw [templateLength_at, if_neg (by decide), if_neg (by decide), if_pos ⟨rfl, rfl⟩, if_pos hslice]
  rfl

theorem agrees_templateLength
    (htemplate : ∀ rest : Text, rest.length < t.length → Agrees templateLength .template rest)
    (hcode : ∀ rest : Text, rest.length < t.length →
      Agrees (interpolationLength 0) (.code 0) rest) : Agrees templateLength .template t := by
  have hend : ∀ bs i, bs.length ≤ i → templateLength bs i = .ok none := by
    intro bs i hle
    rw [templateLength, dif_neg (Nat.not_lt.2 hle)]
  cases t with
  | nil => exact Agrees.nil hend
  | cons c t =>
      by_cases hescape : c = '\\'
      · subst hescape
        apply Agrees.escape hend
        · intro pre post
          rw [templateLength_at, if_pos rfl]
        · intro b hb
          exact passes_templateLength (hb _ (by decide)) (hb _ (by decide)) (hb _ (by decide))
        · intro next
          rfl
        · intro rest hrest
          exact htemplate rest (Nat.lt_succ_of_lt hrest)
      by_cases hclose : c = '\x60'
      · subst hclose
        intro pre
        rw [utf8_cons_ascii (by decide), templateLength_at, if_neg (by decide), if_pos rfl,
          closing_end rfl]
        rfl
      by_cases hopening : c = '$' ∧ t.head? = some '{'
      · obtain ⟨rfl, hbrace⟩ := hopening
        obtain ⟨t, rfl⟩ := List.head?_eq_some_iff.1 hbrace
        intro pre
        have hinside := (hcode t (by simp only [List.length_cons]; omega)).alone
        have hafter := behind_closing (.code 0) (by decide) ['$', '{'] t
          (fun after h => htemplate after (by simp only [List.length_cons]; omega)) pre
        rw [templateLength_opening, closing_interpolation, hinside]
        exact hafter
      · have hstep : Layer.step c t.head? [.template] = ([.template], false) := by
          simp [Layer.step, hescape, hclose, hopening]
        exact (htemplate t (Nat.lt_succ_self _)).cross
          (crosses_templateLength hescape hclose hopening) (closing_keep hstep)

/-! ## Interpolations -/

theorem crosses_opening (depth : Nat) (t : Text) :
    Crosses (interpolationLength depth) ['{'] (interpolationLength (depth + 1)) t := by
  intro pre
  rw [List.singleton_append, utf8_cons_ascii (by decide), interpolationLength_at, if_pos rfl]
  simp [utf8_cons_ascii]

theorem crosses_closing (depth : Nat) (t : Text) :
    Crosses (interpolationLength (depth + 1)) ['}'] (interpolationLength depth) t := by
  intro pre
  rw [List.singleton_append, utf8_cons_ascii (by decide), interpolationLength_at,
    if_neg (by decide), if_pos rfl]
  simp [utf8_cons_ascii]

theorem interpolationLength_quote {c : Char} (hc : c = '\'' ∨ c = '"') (depth : Nat)
    (pre : List UInt8) (t : Text) :
    interpolationLength depth (pre ++ utf8 (c :: t)) pre.length =
      behind (.ok (quotedLength c.toUInt8 (utf8 t) 0)) fun n =>
        interpolationLength depth (pre ++ utf8 (c :: t)) (pre.length + 1 + n + 1) := by
  rcases hc with rfl | rfl
  · rw [utf8_cons_ascii (by decide), interpolationLength_at, if_neg (by decide),
      if_neg (by decide), if_pos (.inl rfl)]
  · rw [utf8_cons_ascii (by decide), interpolationLength_at, if_neg (by decide),
      if_neg (by decide), if_pos (.inr rfl)]

theorem interpolationLength_backtick (depth : Nat) (pre : List UInt8) (t : Text) :
    interpolationLength depth (pre ++ utf8 ('\x60' :: t)) pre.length =
      behind (templateLength (utf8 t) 0) fun n =>
        interpolationLength depth (pre ++ utf8 ('\x60' :: t)) (pre.length + 1 + n + 1) := by
  have hslice : isBoundary (pre ++ utf8 ('\x60' :: t)) (pre.length + 1) = true :=
    isBoundary_behind pre ['\x60'] t
  rw [utf8_cons_ascii (by decide)] at hslice ⊢
  rw [interpolationLength_at, if_neg (by decide), if_neg (by decide), if_neg (by decide),
    if_pos rfl, if_pos hslice]

theorem agrees_interpolationLength
    (htemplate : ∀ rest : Text, rest.length < t.length → Agrees templateLength .template rest)
    (hcode : ∀ (depth : Nat) (rest : Text), rest.length < t.length →
      Agrees (interpolationLength depth) (.code depth) rest) (depth : Nat) :
    Agrees (interpolationLength depth) (.code depth) t := by
  cases t with
  | nil =>
      apply Agrees.nil
      intro bs i hle
      rw [interpolationLength.eq_def, dif_neg (Nat.not_lt.2 hle)]
  | cons c t =>
      have hnext := fun depth => hcode depth t (Nat.lt_succ_self _)
      have hafter : ∀ rest : Text, rest.length < t.length →
          Agrees (interpolationLength depth) (.code depth) rest :=
        fun rest h => hcode depth rest (Nat.lt_succ_of_lt h)
      by_cases hopening : c = '{'
      · subst hopening
        exact (hnext (depth + 1)).cross (crosses_opening depth t) (closing_keep rfl)
      by_cases hclosing : c = '}'
      · subst hclosing
        cases depth with
        | zero =>
            intro pre
            rw [utf8_cons_ascii (by decide), interpolationLength_at, if_neg (by decide),
              if_pos rfl, closing_end rfl]
            rfl
        | succ depth => exact (hnext depth).cross (crosses_closing depth t) (closing_keep rfl)
      by_cases hquote : c = '\'' ∨ c = '"'
      · intro pre
        have hascii : c.toNat < 128 := by rcases hquote with rfl | rfl <;> decide
        have hescape : c ≠ '\\' := by rcases hquote with rfl | rfl <;> decide
        have hopener : Text.byteLength [c] = 1 := by rcases hquote with rfl | rfl <;> rfl
        have hstep : Layer.step c t.head? [.code depth] = ([.quoted c, .code depth], false) := by
          simp [Layer.step, hopening, hclosing, hquote]
        have hinside := (agrees_quotedLength hascii hescape t).alone
        have hbehind := behind_closing (.quoted c) hascii [c] t hafter pre
        rw [hopener] at hbehind
        rw [interpolationLength_quote hquote, closing_open hstep, hinside]
        exact hbehind
      by_cases hbacktick : c = '\x60'
      · subst hbacktick
        intro pre
        have hinside := (htemplate t (Nat.lt_succ_self _)).alone
        rw [interpolationLength_backtick, closing_open rfl, hinside]
        exact behind_closing .template (by decide) ['\x60'] t hafter pre
      · have hstep : Layer.step c t.head? [.code depth] = ([.code depth], false) := by
          simp [Layer.step, hopening, hclosing, hquote, hbacktick]
        refine (hnext depth).cross (crosses_char ?_) (closing_keep hstep)
        intro b hb
        exact passes_interpolationLength (ne_toUInt8 (by decide) hopening hb)
          (ne_toUInt8 (by decide) hclosing hb)
          (ne_toUInt8 (by decide) (fun h => hquote (.inl h)) hb)
          (ne_toUInt8 (by decide) (fun h => hquote (.inr h)) hb)
          (ne_toUInt8 (by decide) hbacktick hb)

theorem agrees (t : Text) : Agrees templateLength .template t ∧
    ∀ depth, Agrees (interpolationLength depth) (.code depth) t := by
  induction h : t.length using Nat.strong_induction_on generalizing t with
  | _ n ih =>
      subst h
      have htemplate : ∀ rest : Text, rest.length < t.length →
          Agrees templateLength .template rest :=
        fun rest h => (ih _ h rest rfl).1
      have hcode : ∀ (depth : Nat) (rest : Text), rest.length < t.length →
          Agrees (interpolationLength depth) (.code depth) rest :=
        fun depth rest h => (ih _ h rest rfl).2 depth
      constructor
      · exact agrees_templateLength htemplate (hcode 0)
      · intro depth
        exact agrees_interpolationLength htemplate hcode depth

/-- **The end of a template literal in the bytes of a text** is where the walk over its
characters ends, and no slice fails. -/
theorem templateLength_utf8 (t : Text) :
    templateLength (utf8 t) 0 = .ok (endAt 0 (closing .template t)) :=
  (agrees t).1.alone

/-- **The end of an interpolation** likewise. -/
theorem interpolationLength_utf8 (t : Text) :
    interpolationLength 0 (utf8 t) 0 = .ok (endAt 0 (closing (.code 0) t)) :=
  ((agrees t).2 0).alone

end Stencil.Expr.Bytes
