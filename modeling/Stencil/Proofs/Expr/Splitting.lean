import Stencil.Proofs.Expr.Bytes

/-!
# Template literals are cut without loss

A template literal is cut twice: its end is looked for in all that follows the backtick, and
its body alone is then cut into texts and interpolations. Both walks go over bytes, and both
look for the ends of the interpolations.

`Splits` derives the pieces of a body from its characters. The body of a closed literal has
pieces (`exists_splits`): an interpolation that ends in all that follows ends in the body
too. On what is derived, the chunks of the literal are those of the pieces
(`Splits.templateChunksFrom`), the pieces as written are the body (`Splits.written`), and the
walk over the bytes cuts out the same (`Splits.splitFrom`); so no slice of it fails, and no
interpolation is without an end.
-/

namespace Stencil.Expr

open Context (utf8 utf8_append utf8_cons length_utf8)

/-! ## Pieces -/

/-- A piece of the body of a template, in characters or in bytes. -/
inductive Cut (α : Type) where
  /-- Literal text as it is written. -/
  | text (raw : List α)
  /-- The source of an interpolation and the offset at which it stands. -/
  | code (source : List α) (offset : Nat)
deriving DecidableEq

namespace Cut

/-- A literal text as a piece, none for an empty one. -/
def ofText (raw : Text) : List (Cut Char) :=
  if raw = [] then [] else [.text raw]

/-- The piece as it is written. -/
def written : Cut Char → Text
  | text raw => raw
  | code source _ => '$' :: '{' :: source ++ ['}']

/-- The bytes of the piece. -/
def bytes : Cut Char → Cut UInt8
  | text raw => text (utf8 raw)
  | code source offset => code (utf8 source) offset

/-- The chunk that the piece gives. -/
def chunk : Cut Char → Chunk
  | text raw => .text (resolveEscapes raw)
  | code source offset => .code source offset

theorem flatMap_written_ofText (raw : Text) : (ofText raw).flatMap written = raw := by
  unfold ofText
  split
  · next h => exact h.symm
  · exact List.append_nil _

theorem byteLength_written_code (source : Text) (offset : Nat) :
    Text.byteLength (written (.code source offset)) = 2 + Text.byteLength source + 1 := by
  have hdollar : Char.utf8Size '$' = 1 := rfl
  have hopening : Char.utf8Size '{' = 1 := rfl
  have hclosing : Char.utf8Size '}' = 1 := rfl
  simp [written, hdollar, hopening, hclosing]
  omega

theorem map_chunk_ofText (raw : Text) : (ofText raw).map chunk = textChunk raw := by
  unfold ofText textChunk
  split <;> rfl

theorem ne_nil_of_mem_ofText {raw t : Text} (h : .text t ∈ ofText raw) : t ≠ [] := by
  unfold ofText at h
  split at h
  · cases h
  · next hne =>
      cases List.mem_singleton.1 h
      exact hne

end Cut

namespace Bytes

/-! ## Cutting bytes -/

/-- The literal text between two indices as a piece, none for an empty one. -/
def cutText (bs : List UInt8) (start stop : Nat) : Except Fault (List (Cut UInt8)) :=
  if start < stop then (slice bs start stop).map fun raw => [.text raw] else .ok []

/-- The pieces of the body of a template that stands at `base`, from the index `i` on; the
literal text before it starts at the index `start`. -/
def splitFrom (base : Nat) (bs : List UInt8) (start i : Nat) :
    Except Fault (List (Cut UInt8)) :=
  if h : i < bs.length then
    if bs[i] = '\\'.toUInt8 then splitFrom base bs start (i + 2)
    else if bs[i] = '$'.toUInt8 ∧ bs[i + 1]? = some '{'.toUInt8 then do
      let text ← cutText bs start i
      let rest ← slice bs (i + 2) bs.length
      match ← interpolationLength 0 rest 0 with
      | some n =>
          let source ← slice bs (i + 2) (i + 2 + n)
          let pieces ← splitFrom base bs (i + 2 + n + 1) (i + 2 + n + 1)
          return text ++ .code source (base + (i + 2)) :: pieces
      | none => throw .unclosed
    else splitFrom base bs start (i + 1)
  else cutText bs start bs.length
termination_by bs.length - i

/-- The pieces of the body of a template that stands at `base`. -/
def split (base : Nat) (bs : List UInt8) : Except Fault (List (Cut UInt8)) :=
  splitFrom base bs 0 0

/-- A delimiter stands where the text before it ends, behind any bytes. -/
theorem getElem?_behind (pre : List UInt8) (s : Text) {c : Char} (hc : c.utf8Size = 1) (t : Text) :
    (pre ++ utf8 (s ++ c :: t))[pre.length + Text.byteLength s]? = some c.toUInt8 := by
  rw [List.getElem?_append_right (Nat.le_add_right _ _), Nat.add_sub_cancel_left]
  exact Context.getElem?_utf8_delimiter hc s t

/-- What is cut out from inside a text. -/
theorem slice_behind (pre : List UInt8) (s m t : Text) :
    slice (pre ++ utf8 (s ++ (m ++ t))) (pre.length + Text.byteLength s)
      (pre.length + Text.byteLength s + Text.byteLength m) = .ok (utf8 m) := by
  have h := slice_utf8 (pre ++ utf8 s) m t
  rwa [List.append_assoc, ← utf8_append, List.length_append, length_utf8] at h

theorem cutText_utf8 (pre : List UInt8) (s t : Text) :
    cutText (pre ++ utf8 (s ++ t)) pre.length (pre.length + Text.byteLength s) =
      .ok ((Cut.ofText s).map Cut.bytes) := by
  by_cases hs : s = []
  · subst hs
    rw [cutText, if_neg (by simp)]
    rfl
  · have := Text.byteLength_pos hs
    rw [cutText, if_pos (by omega), slice_utf8, Cut.ofText, if_neg hs]
    rfl

theorem splitFrom_at (base start : Nat) (pre : List UInt8) (b : UInt8) (post : List UInt8) :
    splitFrom base (pre ++ b :: post) start pre.length =
      if b = '\\'.toUInt8 then splitFrom base (pre ++ b :: post) start (pre.length + 2)
      else if b = '$'.toUInt8 ∧ post.head? = some '{'.toUInt8 then do
        let text ← cutText (pre ++ b :: post) start pre.length
        let rest ← slice (pre ++ b :: post) (pre.length + 2) (pre ++ b :: post).length
        match ← interpolationLength 0 rest 0 with
        | some n =>
            let source ← slice (pre ++ b :: post) (pre.length + 2) (pre.length + 2 + n)
            let pieces ← splitFrom base (pre ++ b :: post) (pre.length + 2 + n + 1)
              (pre.length + 2 + n + 1)
            return text ++ .code source (base + (pre.length + 2)) :: pieces
        | none => throw .unclosed
      else splitFrom base (pre ++ b :: post) start (pre.length + 1) := by
  conv => lhs; rw [splitFrom, dif_pos (by simp)]
  simp only [getElem_at, getElem?_at]

end Bytes

/-! ## The derivation -/

/-- The pieces of the body of a template, from where it goes on with `body`; before that it
goes on with the literal text `raw`, which starts at the offset `start`. -/
inductive Splits : (start : Nat) → (raw body : Text) → List (Cut Char) → Prop
  | done {start : Nat} {raw : Text} : Splits start raw [] (Cut.ofText raw)
  | escape {start : Nat} {raw rest : Text} {d : Char} {pieces : List (Cut Char)} :
      Splits start (raw ++ ['\\', d]) rest pieces → Splits start raw ('\\' :: d :: rest) pieces
  | char {start : Nat} {raw rest : Text} {c : Char} {pieces : List (Cut Char)} :
      c ≠ '\\' → ¬ (c = '$' ∧ rest.head? = some '{') →
      Splits start (raw ++ [c]) rest pieces → Splits start raw (c :: rest) pieces
  | code {start : Nat} {raw source rest : Text} {pieces : List (Cut Char)} :
      closing (.code 0) (source ++ '}' :: rest) = some (source, rest) →
      Splits (start + Text.byteLength raw + 2 + Text.byteLength source + 1) [] rest pieces →
      Splits start raw ('$' :: '{' :: (source ++ '}' :: rest))
        (Cut.ofText raw ++ .code source (start + Text.byteLength raw + 2) :: pieces)

variable {t body rest raw : Text} {start base : Nat} {pieces : List (Cut Char)}

/-- **The body of a closed literal has pieces**: what ends an interpolation before the
backtick ends it in the body. -/
theorem exists_splits (h : closing .template t = some (body, rest)) (start : Nat) (raw : Text) :
    ∃ pieces, Splits start raw body pieces := by
  induction hlength : t.length using Nat.strong_induction_on generalizing t body start raw with
  | _ n ih =>
      subst hlength
      cases t with
      | nil => cases h
      | cons c t =>
          by_cases hescape : c = '\\'
          · subst hescape
            cases t with
            | nil => cases h
            | cons d t =>
                rw [closing_skip rfl, Option.map_eq_some_iff] at h
                obtain ⟨⟨body, rest⟩, hbody, heq⟩ := h
                cases heq
                obtain ⟨pieces, hpieces⟩ := ih _ (Nat.lt_succ_of_lt (Nat.lt_succ_self _)) hbody
                  start (raw ++ ['\\', d]) rfl
                exact ⟨pieces, .escape hpieces⟩
          by_cases hclose : c = '\x60'
          · subst hclose
            rw [closing_end rfl] at h
            cases h
            exact ⟨_, .done⟩
          by_cases hopening : c = '$' ∧ t.head? = some '{'
          · obtain ⟨rfl, hbrace⟩ := hopening
            obtain ⟨t, rfl⟩ := List.head?_eq_some_iff.1 hbrace
            rw [closing_interpolation, Option.bind_eq_some_iff] at h
            obtain ⟨⟨source, after⟩, hsource, h⟩ := h
            rw [Option.map_eq_some_iff] at h
            obtain ⟨⟨body, rest⟩, hbody, heq⟩ := h
            cases heq
            have hshorter := length_of_closing hsource
            obtain ⟨pieces, hpieces⟩ := ih _ (by simp; omega) hbody
              (start + Text.byteLength raw + 2 + Text.byteLength source + 1) [] rfl
            exact ⟨_, .code (closing_append hsource body) hpieces⟩
          · have hstep : Layer.step c t.head? [.template] = ([.template], false) := by
              simp [Layer.step, hescape, hclose, hopening]
            rw [closing_keep hstep, Option.map_eq_some_iff] at h
            obtain ⟨⟨body, rest⟩, hbody, heq⟩ := h
            cases heq
            obtain ⟨pieces, hpieces⟩ := ih _ (by simp) hbody start (raw ++ [c]) rfl
            refine ⟨pieces, .char hescape ?_ hpieces⟩
            rintro ⟨rfl, hbrace⟩
            apply hopening
            obtain rfl := closing_eq hbody
            obtain ⟨body, rfl⟩ := List.head?_eq_some_iff.1 hbrace
            exact ⟨rfl, rfl⟩

/-- Each interpolation stands behind the pieces before it, as they are written, and behind its
own opening. -/
def Cut.Placed : (start : Nat) → List (Cut Char) → Prop
  | _, [] => True
  | start, p :: pieces => (∀ source offset, p = .code source offset → offset = start + 2) ∧
      Placed (start + Text.byteLength p.written) pieces

theorem Cut.placed_append {front back : List (Cut Char)} :
    Placed start (front ++ back) ↔ Placed start front ∧
      Placed (start + Text.byteLength (front.flatMap written)) back := by
  induction front generalizing start with
  | nil => simp [Placed]
  | cons p front ih => simp [Placed, ih, Nat.add_assoc, and_assoc]

theorem Cut.placed_ofText (start : Nat) (raw : Text) : Placed start (ofText raw) := by
  unfold ofText
  split
  · trivial
  · refine ⟨?_, trivial⟩
    intro source offset h
    cases h

namespace Splits

/-- The pieces give the chunks of the literal. -/
theorem templateChunksFrom (h : Splits start raw body pieces) :
    templateChunksFrom raw.reverse (start + Text.byteLength raw) body =
      pieces.map Cut.chunk := by
  induction h with
  | done => rw [Expr.templateChunksFrom, List.reverse_reverse, Cut.map_chunk_ofText]
  | escape _ ih =>
      have hslash : Char.utf8Size '\\' = 1 := rfl
      rw [Expr.templateChunksFrom, ← ih]
      simp [hslash, Nat.add_assoc]
  | char hescape hopening _ ih =>
      rw [Expr.templateChunksFrom, ← ih]
      · simp [Nat.add_assoc]
      · intro d rest hc
        exact absurd hc hescape
      · rintro rest rfl rfl
        exact hopening ⟨rfl, rfl⟩
  | code hclosing _ ih =>
      rw [Expr.templateChunksFrom, List.reverse_reverse, List.map_append, Cut.map_chunk_ofText]
      split
      · next source rest heq =>
          rw [hclosing] at heq
          cases heq
          rw [List.map_cons, ← ih]
          rfl
      · next heq =>
          rw [hclosing] at heq
          cases heq

/-- The pieces as they are written are the body. -/
theorem written (h : Splits start raw body pieces) :
    pieces.flatMap Cut.written = raw ++ body := by
  induction h with
  | done => simp [Cut.flatMap_written_ofText]
  | escape _ ih => simp [ih]
  | char _ _ _ ih => simp [ih]
  | code _ _ ih => simp [ih, Cut.flatMap_written_ofText, Cut.written]

/-- No literal text among the pieces is empty. -/
theorem ne_nil (h : Splits start raw body pieces) {u : Text} (hu : .text u ∈ pieces) : u ≠ [] := by
  induction h with
  | done => exact Cut.ne_nil_of_mem_ofText hu
  | escape _ ih => exact ih hu
  | char _ _ _ ih => exact ih hu
  | code _ _ ih =>
      rcases List.mem_append.1 hu with hu | hu
      · exact Cut.ne_nil_of_mem_ofText hu
      · exact ih (by simpa using hu)

/-- The interpolations stand where they say. -/
theorem placed (h : Splits start raw body pieces) : Cut.Placed start pieces := by
  induction h with
  | done => exact Cut.placed_ofText _ _
  | escape _ ih => exact ih
  | char _ _ _ ih => exact ih
  | code _ _ ih =>
      rw [Cut.placed_append, Cut.flatMap_written_ofText]
      refine ⟨Cut.placed_ofText _ _, ?_, ?_⟩
      · rintro _ _ ⟨⟩
        rfl
      · rw [Cut.byteLength_written_code]
        simpa only [Nat.add_assoc] using ih

end Splits

/-! ## The bytes -/

namespace Bytes

open Cut

theorem crosses_splitFrom {c : Char} (base start : Nat) (hescape : c ≠ '\\')
    (hopening : ¬ (c = '$' ∧ t.head? = some '{')) :
    Crosses (fun bs i => splitFrom base bs start i) [c]
      (fun bs i => splitFrom base bs start i) t := by
  apply crosses_unopened hopening
  intro b hb pre post hnext
  rw [splitFrom_at, if_neg (ne_toUInt8 (by decide) hescape hb), if_neg hnext]

theorem crosses_splitFrom_escape (base start : Nat) (d : Char) (t : Text) :
    Crosses (fun bs i => splitFrom base bs start i) ['\\', d]
      (fun bs i => splitFrom base bs start i) t := by
  apply crosses_escape
  · intro pre post
    rw [splitFrom_at, if_pos rfl]
  · intro b hb pre post
    have hdollar := hb '$' (by decide)
    dsimp only
    rw [splitFrom_at, if_neg (hb _ (by decide)), if_neg (fun h => hdollar h.1)]

/-- What is crossed is literal text. -/
theorem splitFrom_cross {s : Text} {pre : List UInt8} {cuts : List (Cut UInt8)}
    (hs : Crosses (fun bs i => splitFrom base bs pre.length i) s
      (fun bs i => splitFrom base bs pre.length i) rest)
    (h : splitFrom base (pre ++ utf8 (raw ++ s ++ rest)) pre.length
      (pre.length + Text.byteLength (raw ++ s)) = .ok cuts) :
    splitFrom base (pre ++ utf8 (raw ++ (s ++ rest))) pre.length
      (pre.length + Text.byteLength raw) = .ok cuts := by
  have hcross := hs (pre ++ utf8 raw)
  simp only [utf8_append, List.append_assoc, List.length_append, length_utf8,
    Text.byteLength_append] at hcross h ⊢
  rw [hcross, h]

/-- An interpolation is cut out, if the slices on the way to it go well. -/
theorem splitFrom_opening {bs after source : List UInt8} {text cuts : List (Cut UInt8)}
    {i n : Nat} (hdollar : bs[i]? = some '$'.toUInt8) (hbrace : bs[i + 1]? = some '{'.toUInt8)
    (htext : cutText bs start i = .ok text) (hafter : slice bs (i + 2) bs.length = .ok after)
    (hend : interpolationLength 0 after 0 = .ok (some n))
    (hsource : slice bs (i + 2) (i + 2 + n) = .ok source)
    (hrest : splitFrom base bs (i + 2 + n + 1) (i + 2 + n + 1) = .ok cuts) :
    splitFrom base bs start i = .ok (text ++ .code source (base + (i + 2)) :: cuts) := by
  obtain ⟨hlt, hdollar⟩ := List.getElem?_eq_some_iff.1 hdollar
  rw [splitFrom, dif_pos hlt, if_neg (by rw [hdollar]; decide), if_pos ⟨hdollar, hbrace⟩]
  simp only [htext, hafter, hend, hsource, hrest, bind, Except.bind, pure, Except.pure]

/-- So they do where an interpolation ends. -/
theorem splitFrom_code {source : Text} {cuts : List (Cut UInt8)}
    (hclosing : closing (.code 0) (source ++ '}' :: rest) = some (source, rest))
    (pre : List UInt8) (raw : Text)
    (hrest : splitFrom base (pre ++ utf8 (raw ++ '$' :: '{' :: (source ++ '}' :: rest)))
      (pre.length + Text.byteLength raw + 2 + Text.byteLength source + 1)
      (pre.length + Text.byteLength raw + 2 + Text.byteLength source + 1) = .ok cuts) :
    splitFrom base (pre ++ utf8 (raw ++ '$' :: '{' :: (source ++ '}' :: rest))) pre.length
        (pre.length + Text.byteLength raw) =
      .ok ((Cut.ofText raw).map Cut.bytes ++
        .code (utf8 source) (base + (pre.length + Text.byteLength raw + 2)) :: cuts) := by
  -- behind its opening the interpolation starts a text of its own
  have hsplit : raw ++ '$' :: '{' :: (source ++ '}' :: rest) =
      raw ++ ['$', '{'] ++ (source ++ '}' :: rest) := by simp
  have hopener : pre.length + Text.byteLength (raw ++ ['$', '{']) =
      pre.length + Text.byteLength raw + 2 := by
    rw [Text.byteLength_append, ← Nat.add_assoc]
    rfl
  have hlength : (pre ++ utf8 (raw ++ ['$', '{'] ++ (source ++ '}' :: rest))).length =
      pre.length + Text.byteLength raw + 2 + Text.byteLength (source ++ '}' :: rest) := by
    rw [List.length_append, length_utf8, Text.byteLength_append, ← Nat.add_assoc, hopener]
  have hdollar := getElem?_behind pre raw (c := '$') (by decide) ('{' :: (source ++ '}' :: rest))
  have hbrace := getElem?_behind pre (raw ++ ['$']) (c := '{') (by decide)
    (source ++ '}' :: rest)
  have htext := cutText_utf8 pre raw ('$' :: '{' :: (source ++ '}' :: rest))
  have hafter := slice_behind pre (raw ++ ['$', '{']) (source ++ '}' :: rest) []
  have hsource := slice_behind pre (raw ++ ['$', '{']) source ('}' :: rest)
  have hend := interpolationLength_utf8 (source ++ '}' :: rest)
  rw [hclosing, endAt, Option.map_some, Nat.zero_add] at hend
  rw [List.append_nil, hopener, ← hlength] at hafter
  rw [hopener] at hsource
  rw [List.append_assoc, Text.byteLength_append, ← Nat.add_assoc] at hbrace
  rw [hsplit] at htext hdollar hrest ⊢
  refine splitFrom_opening hdollar ?_ htext hafter hend hsource hrest
  rw [← hsplit]
  exact hbrace

/-- **The walk over the bytes of a body cuts out its pieces**, and nothing breaks it off. -/
theorem splitFrom_of_splits (h : Splits start raw body pieces) (pre : List UInt8)
    (hstart : start = base + pre.length) :
    splitFrom base (pre ++ utf8 (raw ++ body)) pre.length (pre.length + Text.byteLength raw) =
      .ok (pieces.map Cut.bytes) := by
  induction h generalizing pre with
  | @done start raw =>
      have hlength : (pre ++ utf8 (raw ++ [])).length = pre.length + Text.byteLength raw := by
        simp
      rw [splitFrom, dif_neg (by omega), hlength]
      exact cutText_utf8 pre raw []
  | escape _ ih => exact splitFrom_cross (crosses_splitFrom_escape _ _ _ _) (ih pre hstart)
  | char hescape hopening _ ih =>
      exact splitFrom_cross (crosses_splitFrom _ _ hescape hopening) (ih pre hstart)
  | @code start raw source rest pieces hclosing _ ih =>
      subst hstart
      have hsize := Cut.byteLength_written_code source 0
      have hbehind : (pre ++ utf8 (raw ++ Cut.written (.code source 0))).length =
          pre.length + Text.byteLength raw + 2 + Text.byteLength source + 1 := by
        rw [List.length_append, length_utf8, Text.byteLength_append, hsize]
        omega
      have hbytes : pre ++ utf8 (raw ++ '$' :: '{' :: (source ++ '}' :: rest)) =
          pre ++ utf8 (raw ++ Cut.written (.code source 0)) ++ utf8 rest := by
        rw [List.append_assoc, ← utf8_append]
        simp [Cut.written]
      have hrest := ih (pre ++ utf8 (raw ++ Cut.written (.code source 0)))
        (by rw [hbehind]; omega)
      have hoffset : base + pre.length + Text.byteLength raw + 2 =
          base + (pre.length + Text.byteLength raw + 2) := by omega
      rw [List.nil_append, ← hbytes, Text.byteLength_nil, Nat.add_zero, hbehind] at hrest
      rw [List.map_append, List.map_cons, Cut.bytes, hoffset]
      exact splitFrom_code hclosing pre raw hrest

end Bytes

/-! ## The whole literal -/

/-- **A template literal is cut without loss.** Its end is found in the bytes of what follows
the backtick, and no slice on the way leaves the text or cuts a character. If there is an
end, a backtick stands there, and the walk over the bytes of the body alone finds the end of
each interpolation, with no slice that fails. The pieces are those of the literal: written
one behind the other they are the body, none of the literal texts is empty, and the source of
an interpolation stands at its offset. -/
theorem template_tiled (t : Text) (base : Nat) :
    Bytes.templateLength (utf8 t) 0 =
        .ok ((closing .template t).map fun p => Text.byteLength p.1) ∧
      ∀ n, Bytes.templateLength (utf8 t) 0 = .ok (some n) →
        ∃ body rest pieces, closing .template t = some (body, rest) ∧
          Text.byteLength body = n ∧ (utf8 t)[n]? = some '\x60'.toUInt8 ∧
          Bytes.slice (utf8 t) 0 n = .ok (utf8 body) ∧
          Bytes.split base (utf8 body) = .ok (pieces.map Cut.bytes) ∧
          templateChunks base body = pieces.map Cut.chunk ∧
          pieces.flatMap Cut.written = body ∧
          (∀ raw, .text raw ∈ pieces → raw ≠ []) ∧
          ∀ front source offset back, pieces = front ++ .code source offset :: back →
            offset = base + Text.byteLength (front.flatMap Cut.written) + 2 := by
  have hend : Bytes.templateLength (utf8 t) 0 =
      .ok ((closing .template t).map fun p => Text.byteLength p.1) := by
    simpa only [Bytes.endAt, Nat.zero_add] using Bytes.templateLength_utf8 t
  refine ⟨hend, ?_⟩
  intro n hn
  rw [hend, Except.ok.injEq, Option.map_eq_some_iff] at hn
  obtain ⟨⟨body, rest⟩, hclosing, rfl⟩ := hn
  obtain ⟨pieces, hpieces⟩ := exists_splits hclosing base []
  have ht := closing_eq hclosing
  have hsplit : Bytes.split base (utf8 body) = .ok (pieces.map Cut.bytes) :=
    Bytes.splitFrom_of_splits hpieces [] rfl
  have hslice := Bytes.slice_utf8 [] body (Layer.template.closer :: rest)
  refine ⟨body, rest, pieces, hclosing, rfl, ?_, ?_, hsplit, hpieces.templateChunksFrom,
    hpieces.written, fun raw => hpieces.ne_nil, ?_⟩
  · rw [ht]
    exact Context.getElem?_utf8_delimiter (by decide) body rest
  · rw [ht]
    simpa only [List.nil_append, List.length_nil, Nat.zero_add] using hslice
  · intro front source offset back heq
    have hplaced := hpieces.placed
    rw [heq, Cut.placed_append] at hplaced
    exact hplaced.2.1 source offset rfl

/-- A body with backslashes before characters of several bytes, a template and a quoted brace
in its interpolation. -/
def nestedBody : Text :=
  "\\é$\x7b `b\\€$\x7bx\x7d` + '\x7d' \x7d\\ü".toList

theorem template_tiled_nested :
    Bytes.templateLength (utf8 (nestedBody ++ "` + '`'".toList)) 0 = .ok (some 28) ∧
      ∃ pieces : List (Cut Char),
        Bytes.split 4 (utf8 nestedBody) = .ok (pieces.map Cut.bytes) ∧
          templateChunks 4 nestedBody = pieces.map Cut.chunk ∧
          pieces.flatMap Cut.written = nestedBody := by
  have hclosing : closing .template (nestedBody ++ "` + '`'".toList) =
      some (nestedBody, " + '`'".toList) := by decide +kernel
  obtain ⟨hend, htiled⟩ := template_tiled (nestedBody ++ "` + '`'".toList) 4
  rw [hclosing, Option.map_some] at hend
  have hlength : Text.byteLength nestedBody = 28 := by decide +kernel
  rw [hlength] at hend
  obtain ⟨body, rest, pieces, hbody, -, -, -, hsplit, hchunks, hwritten, -⟩ := htiled 28 hend
  rw [hclosing] at hbody
  cases hbody
  exact ⟨hend, pieces, hsplit, hchunks, hwritten⟩

end Stencil.Expr
