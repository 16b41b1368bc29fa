import Stencil.Render.Renderer
import Stencil.Proofs.Markup.Tiling
import Stencil.Proofs.Text.Utf8
import Mathlib.Tactic.SplitIfs

/-!
# Where the bytes of markup come from

A byte of markup either is a byte of the source, or was produced by a region: by an
expression that opens with a `{`, or by an invocation that opens with a `<`. What a
region inside produced text produces comes from the earliest producer, since that
is all that the source knows of it. `Provenance` says so of one byte, and
`replaceProvenance` follows the bytes of a text through a replacement of regions.

The offsets of a draft know nothing of this: they go back through one layer of
splices after another. `Traced` says that the two agree, and `Traced.replace` that
a replacement keeps it so.
-/

namespace Stencil.Render

open Markup (Region Tiling)
open Context (utf8 utf8_append getElem?_utf8_delimiter length_utf8)

/-- The character that a region opens with. -/
def RegionKind.opening : RegionKind → Char
  | expression => '{'
  | tag => '<'

/-- Where a byte of markup comes from. -/
inductive Provenance where
  /-- It is the byte of the source at an offset. -/
  | kept (offset : Nat)
  /-- It was produced by the region of the source that opens at an offset. -/
  | produced (kind : RegionKind) (offset : Nat)
deriving Repr, DecidableEq

/-- Where the product of a region comes from that opens with a byte of some
provenance. The earliest producer counts. -/
def Provenance.producer (kind : RegionKind) : Provenance → Provenance
  | kept k => produced kind k
  | produced earlier k => produced earlier k

/-- Every byte of a source is its own. -/
def sourceProvenance (t : Text) : List Provenance :=
  (List.range (Text.byteLength t)).map .kept

/-- Bytes that a region takes, its delimiters included. -/
def width (r : Region) : Nat :=
  r.span.stop - r.span.start

/-- The provenance of the bytes of a text after texts took the place of regions. -/
def replaceProvenance (kind : RegionKind) :
    List Provenance → List (Region × Text) → List Provenance
  | ps, [] => ps
  | ps, (r, output) :: rest =>
      let fromRegion := ps.drop (Text.byteLength r.gap)
      let product := fromRegion.head?.toList.flatMap fun p =>
        List.replicate (Text.byteLength output) (p.producer kind)
      ps.take (Text.byteLength r.gap) ++
        (product ++ replaceProvenance kind (fromRegion.drop (width r)) rest)

/-- The offsets of a draft of a source go back to where its bytes come from. -/
structure Traced (t : Text) (draft : Draft) (ps : List Provenance) : Prop where
  /-- Every byte comes from somewhere. -/
  length : ps.length = Text.byteLength draft.text
  bounded : ∀ o ≤ Text.byteLength draft.text, draft.map.toSource o ≤ Text.byteLength t
  monotone : ∀ o o', o ≤ o' → o' ≤ Text.byteLength draft.text →
    draft.map.toSource o ≤ draft.map.toSource o'
  /-- A byte that was kept goes back to itself. -/
  kept : ∀ o k, ps[o]? = some (.kept k) →
    draft.map.toSource o = k ∧ (utf8 draft.text)[o]? = (utf8 t)[k]?
  /-- A byte that was produced goes back to where its producer opens. -/
  produced : ∀ o kind k, ps[o]? = some (.produced kind k) →
    draft.map.toSource o = k ∧ (utf8 t)[k]? = some kind.opening.toUInt8

/-! ## One replacement -/

/-- The offset before texts took the place of regions that an offset after it
stands for, both counted from where the first gap starts. -/
def backOver (i : Nat) : List (Region × Text) → Nat
  | [] => i
  | (r, output) :: rest =>
      let gap := Text.byteLength r.gap
      let size := Text.byteLength output
      if i < gap then i
      else if i < gap + size then gap
      else gap + width r + backOver (i - (gap + size)) rest

/-- Texts in the place of regions. -/
def woven (pairs : List (Region × Text)) (tail : Text) : Text :=
  (pairs.flatMap fun p => p.1.gap ++ p.2) ++ tail

theorem woven_cons (r : Region) (output : Text) (pairs : List (Region × Text)) (tail : Text) :
    woven ((r, output) :: pairs) tail = r.gap ++ (output ++ woven pairs tail) := by
  simp [woven]

theorem backOver_mono (pairs : List (Region × Text)) {i j : Nat} (h : i ≤ j) :
    backOver i pairs ≤ backOver j pairs := by
  induction pairs generalizing i j with
  | nil => exact h
  | cons p pairs ih =>
      obtain ⟨r, output⟩ := p
      have hrest := ih (Nat.sub_le_sub_right h (Text.byteLength r.gap + Text.byteLength output))
      simp only [backOver]
      split_ifs <;> omega

section Tiled

variable {opening : Char} {whole : Region → Text} {tail text : Text} {a : Nat}
  {rs : List Region} {outputs : List Text}

theorem width_eq {r : Region} (stop : r.span.stop = r.span.start + Text.byteLength (whole r)) :
    width r = Text.byteLength (whole r) := by
  rw [width, stop, Nat.add_sub_cancel_left]

/-- The splices of a replacement send an offset where `backOver` does. -/
theorem throughSplices_eq (h : Tiling opening whole tail a rs text) (outputs : List Text)
    (b i : Nat) :
    throughSplices (b + i) (a + i) (splicesFrom b (rs.zip outputs)) =
      a + backOver i (rs.zip outputs) := by
  induction h generalizing outputs b i with
  | done offset => rfl
  | @region offset r rs rest head unescaped closed start stop others ih =>
      cases outputs with
      | nil => rfl
      | cons output outputs =>
          have hwidth := width_eq stop
          simp only [List.zip_cons_cons, splicesFrom, throughSplices, backOver]
          by_cases hgap : i < Text.byteLength r.gap
          · rw [if_pos (by omega), if_pos hgap]
          by_cases hsize : i < Text.byteLength r.gap + Text.byteLength output
          · rw [if_neg (by omega), if_pos (by omega), if_neg hgap, if_pos hsize, start]
          · have hrest := ih outputs (b + Text.byteLength r.gap + Text.byteLength output)
              (i - (Text.byteLength r.gap + Text.byteLength output))
            have hoffset : b + Text.byteLength r.gap + Text.byteLength output +
                (i - (Text.byteLength r.gap + Text.byteLength output)) = b + i := by omega
            have hunchanged : b + i - (b + Text.byteLength r.gap + Text.byteLength output) +
                r.span.stop =
                r.span.stop + (i - (Text.byteLength r.gap + Text.byteLength output)) := by omega
            rw [hoffset] at hrest
            rw [if_neg (by omega), if_neg (by omega), if_neg hgap, if_neg hsize, hunchanged, hrest]
            omega

/-- No offset goes back beyond the text before. -/
theorem backOver_le (h : Tiling opening whole tail a rs text)
    (hlen : outputs.length = rs.length) {i : Nat}
    (hi : i ≤ Text.byteLength (woven (rs.zip outputs) tail)) :
    backOver i (rs.zip outputs) ≤ Text.byteLength text := by
  induction h generalizing outputs i with
  | done offset => simpa [woven, backOver] using hi
  | @region offset r rs rest head unescaped closed start stop others ih =>
      cases outputs with
      | nil => exact absurd hlen (by simp)
      | cons output outputs =>
          have hlen' : outputs.length = rs.length := by simpa using hlen
          have hwidth := width_eq stop
          rw [List.zip_cons_cons, woven_cons] at hi
          simp only [Text.byteLength_append] at hi ⊢
          simp only [List.zip_cons_cons, backOver]
          by_cases hgap : i < Text.byteLength r.gap
          · rw [if_pos hgap]
            omega
          by_cases hsize : i < Text.byteLength r.gap + Text.byteLength output
          · rw [if_neg hgap, if_pos hsize]
            omega
          · have hrest := ih hlen' (i := i - (Text.byteLength r.gap + Text.byteLength output))
              (by omega)
            rw [if_neg hgap, if_neg hsize]
            omega

/-- One region after another: what is kept before it, and what it produces. -/
theorem replaceProvenance_cons (kind : RegionKind) {ps : List Provenance} {r : Region}
    (output : Text) (rest : List (Region × Text)) {p : Provenance}
    (hp : ps[Text.byteLength r.gap]? = some p) :
    replaceProvenance kind ps ((r, output) :: rest) =
      ps.take (Text.byteLength r.gap) ++
        (List.replicate (Text.byteLength output) (p.producer kind) ++
          replaceProvenance kind (ps.drop (Text.byteLength r.gap + width r)) rest) := by
  have hhead : (ps.drop (Text.byteLength r.gap)).head? = some p := by
    rw [List.head?_drop, hp]
  rw [replaceProvenance]
  simp only [hhead, Option.toList_some, List.flatMap_singleton, List.drop_drop]

theorem exists_opening {r : Region} (head : (whole r).head? = some opening) :
    ∃ inner, whole r = opening :: inner :=
  List.head?_eq_some_iff.1 head

/-- A region stands on bytes of the text before. -/
theorem exists_getElem?_gap {r : Region} {ps : List Provenance} {rest : Text}
    (head : (whole r).head? = some opening)
    (hps : ps.length = Text.byteLength (r.gap ++ whole r ++ rest)) :
    ∃ p, ps[Text.byteLength r.gap]? = some p := by
  obtain ⟨inner, hinner⟩ := exists_opening head
  have hpos := opening.utf8Size_pos
  have hlt : Text.byteLength r.gap < ps.length := by
    rw [hps, hinner]
    simp only [Text.byteLength_append, Text.byteLength_cons]
    omega
  exact ⟨ps[Text.byteLength r.gap], List.getElem?_eq_getElem hlt⟩

/-- Every byte after a replacement comes from somewhere, if those before do. -/
theorem length_replaceProvenance (h : Tiling opening whole tail a rs text) (kind : RegionKind)
    (hlen : outputs.length = rs.length) {ps : List Provenance}
    (hps : ps.length = Text.byteLength text) :
    (replaceProvenance kind ps (rs.zip outputs)).length =
      Text.byteLength (woven (rs.zip outputs) tail) := by
  induction h generalizing outputs ps with
  | done offset => simpa [woven, replaceProvenance] using hps
  | @region offset r rs rest head unescaped closed start stop others ih =>
      cases outputs with
      | nil => exact absurd hlen (by simp)
      | cons output outputs =>
          obtain ⟨p, hp⟩ := exists_getElem?_gap head hps
          have hwidth := width_eq stop
          simp only [Text.byteLength_append] at hps
          have hlen' : outputs.length = rs.length := by simpa using hlen
          have hdrop : (ps.drop (Text.byteLength r.gap + width r)).length =
              Text.byteLength rest := by
            rw [List.length_drop, hps]
            omega
          have hrest := ih hlen' hdrop
          rw [List.zip_cons_cons, replaceProvenance_cons kind output _ hp, woven_cons]
          simp only [List.length_append, List.length_take, List.length_replicate, hrest,
            Text.byteLength_append, hps]
          omega

/-- A place in three lists one after another. -/
theorem getElem?_append_three {α : Type} (xs ys zs : List α) (i : Nat) :
    (xs ++ (ys ++ zs))[i]? =
      if i < xs.length then xs[i]?
      else if i < xs.length + ys.length then ys[i - xs.length]?
      else zs[i - (xs.length + ys.length)]? := by
  rw [List.getElem?_append]
  by_cases hxs : i < xs.length
  · rw [if_pos hxs, if_pos hxs]
  · rw [if_neg hxs, if_neg hxs, List.getElem?_append]
    by_cases hys : i < xs.length + ys.length
    · rw [if_pos (by omega), if_pos hys]
    · rw [if_neg (by omega), if_neg hys, Nat.sub_sub]

/-- The bytes of a text after its first region. -/
theorem getElem?_utf8_rest {r : Region} (rest : Text)
    (stop : r.span.stop = r.span.start + Text.byteLength (whole r)) (n : Nat) :
    (utf8 r.gap ++ utf8 (whole r) ++ utf8 rest)[Text.byteLength r.gap + width r + n]? =
      (utf8 rest)[n]? := by
  have hlength : (utf8 r.gap ++ utf8 (whole r)).length = Text.byteLength r.gap + width r := by
    rw [List.length_append, length_utf8, length_utf8, width_eq stop]
  rw [← hlength, List.getElem?_append_right (Nat.le_add_right _ _), Nat.add_sub_cancel_left]

/-- **Where a byte comes from after a replacement.** It stood in the text before, or
it is part of what a region produced and goes back to where the region opens. -/
theorem replaceProvenance_cases (h : Tiling opening whole tail a rs text)
    (hopening : opening.utf8Size = 1) (kind : RegionKind) (hlen : outputs.length = rs.length)
    {ps : List Provenance} (hps : ps.length = Text.byteLength text) {i : Nat}
    (hi : i < Text.byteLength (woven (rs.zip outputs) tail)) :
    ((replaceProvenance kind ps (rs.zip outputs))[i]? = ps[backOver i (rs.zip outputs)]? ∧
      (utf8 (woven (rs.zip outputs) tail))[i]? = (utf8 text)[backOver i (rs.zip outputs)]?) ∨
    ((replaceProvenance kind ps (rs.zip outputs))[i]? =
        ps[backOver i (rs.zip outputs)]?.map (Provenance.producer kind) ∧
      (utf8 text)[backOver i (rs.zip outputs)]? = some opening.toUInt8) := by
  induction h generalizing outputs ps i with
  | done offset => exact Or.inl ⟨rfl, rfl⟩
  | @region offset r rs rest head unescaped closed start stop others ih =>
      cases outputs with
      | nil => exact absurd hlen (by simp)
      | cons output outputs =>
          obtain ⟨p, hp⟩ := exists_getElem?_gap head hps
          obtain ⟨inner, hinner⟩ := exists_opening head
          have hwidth := width_eq stop
          rw [List.zip_cons_cons, woven_cons] at hi ⊢
          simp only [Text.byteLength_append] at hps hi
          have htake : (ps.take (Text.byteLength r.gap)).length = Text.byteLength r.gap := by
            rw [List.length_take]
            omega
          rw [replaceProvenance_cons kind output _ hp, getElem?_append_three, htake,
            List.length_replicate, utf8_append, utf8_append, getElem?_append_three, length_utf8,
            length_utf8, utf8_append, utf8_append]
          simp only [backOver]
          by_cases hgap : i < Text.byteLength r.gap
          · -- in the gap
            rw [if_pos hgap, if_pos hgap, if_pos hgap, List.getElem?_take_of_lt hgap,
              List.append_assoc, List.getElem?_append_left (by simpa using hgap)]
            exact Or.inl ⟨rfl, rfl⟩
          by_cases hsize : i < Text.byteLength r.gap + Text.byteLength output
          · -- in the product of the region
            refine Or.inr ?_
            rw [if_neg hgap, if_pos hsize, if_neg hgap, if_pos hsize, List.getElem?_replicate,
              if_pos (by omega), hp]
            refine ⟨rfl, ?_⟩
            rw [hinner, ← utf8_append, ← utf8_append, List.append_assoc, List.cons_append]
            exact getElem?_utf8_delimiter hopening _ _
          · -- after it, where the region that follows is the first
            have hdrop : (ps.drop (Text.byteLength r.gap + width r)).length =
                Text.byteLength rest := by
              rw [List.length_drop]
              omega
            have hrest := ih (Nat.succ.inj hlen) hdrop
              (i := i - (Text.byteLength r.gap + Text.byteLength output)) (by omega)
            rw [List.getElem?_drop] at hrest
            rw [if_neg hgap, if_neg hsize, if_neg hgap, if_neg hsize, if_neg hgap, if_neg hsize,
              getElem?_utf8_rest rest stop]
            exact hrest

end Tiled

/-! ## Drafts -/

theorem getElem?_sourceProvenance {t : Text} {o : Nat} {p : Provenance}
    (h : (sourceProvenance t)[o]? = some p) : p = .kept o := by
  rw [sourceProvenance, List.getElem?_map] at h
  obtain ⟨n, hn, rfl⟩ := Option.map_eq_some_iff.1 h
  have hlt : o < Text.byteLength t := by
    simpa using (List.getElem?_eq_some_iff.1 hn).1
  rw [List.getElem?_range hlt] at hn
  rw [Option.some.inj hn]

/-- A source is its own draft. -/
theorem traced_source (t : Text) : Traced t (Draft.ofSource t) (sourceProvenance t) := by
  have hlength : (sourceProvenance t).length = Text.byteLength t := by simp [sourceProvenance]
  refine ⟨hlength, fun o ho => ho, fun o o' h _ => h, ?_, ?_⟩
  · intro o k hk
    obtain rfl := Provenance.kept.inj (getElem?_sourceProvenance hk)
    exact ⟨rfl, rfl⟩
  · intro o kind k hk
    exact absurd (getElem?_sourceProvenance hk) (by simp)

/-- The offsets of a replacement go back over it first. -/
theorem toSource_replace {opening : Char} {whole : Region → Text} {draft : Draft}
    {scan : Markup.Scan} (tiles : Tiling opening whole scan.tail 0 scan.regions draft.text)
    (outputs : List Text) (o : Nat) :
    (draft.replace scan outputs).map.toSource o =
      draft.map.toSource (backOver o (scan.regions.zip outputs)) := by
  have hback := throughSplices_eq tiles outputs 0 o
  rw [Nat.zero_add, Nat.zero_add] at hback
  change draft.map.toSource (throughSplices o o _) = _
  rw [hback]

/-- **A replacement keeps offsets and bytes in step.** -/
theorem Traced.replace {t : Text} {draft : Draft} {ps : List Provenance} (h : Traced t draft ps)
    (kind : RegionKind) {whole : Region → Text} {scan : Markup.Scan}
    (tiles : Tiling kind.opening whole scan.tail 0 scan.regions draft.text)
    {outputs : List Text} (hlen : outputs.length = scan.regions.length) :
    Traced t (draft.replace scan outputs)
      (replaceProvenance kind ps (scan.regions.zip outputs)) := by
  have htext : (draft.replace scan outputs).text = woven (scan.regions.zip outputs) scan.tail := rfl
  have hopening : kind.opening.utf8Size = 1 := by cases kind <;> rfl
  have hlength := length_replaceProvenance tiles kind hlen h.length
  -- a byte after the replacement, with its provenance
  have hcases : ∀ o p, (replaceProvenance kind ps (scan.regions.zip outputs))[o]? = some p →
      _ := fun o p hp =>
    replaceProvenance_cases tiles hopening kind hlen h.length
      (hlength ▸ (List.getElem?_eq_some_iff.1 hp).1)
  refine ⟨hlength, ?_, ?_, ?_, ?_⟩
  · intro o ho
    rw [toSource_replace tiles]
    exact h.bounded _ (backOver_le tiles hlen ho)
  · intro o o' hoo ho'
    rw [toSource_replace tiles, toSource_replace tiles]
    exact h.monotone _ _ (backOver_mono _ hoo) (backOver_le tiles hlen ho')
  · intro o k hk
    rw [toSource_replace tiles, htext]
    rcases hcases o _ hk with ⟨hp, hbyte⟩ | ⟨hp, -⟩
    · rw [hbyte]
      exact h.kept _ k (hp.symm.trans hk)
    · rw [hk] at hp
      obtain ⟨q, -, hq⟩ := Option.map_eq_some_iff.1 hp.symm
      cases q <;> simp [Provenance.producer] at hq
  · intro o kind' k hk
    rw [toSource_replace tiles]
    rcases hcases o _ hk with ⟨hp, -⟩ | ⟨hp, hbyte⟩
    · exact h.produced _ kind' k (hp.symm.trans hk)
    · rw [hk] at hp
      obtain ⟨q, hq, heq⟩ := Option.map_eq_some_iff.1 hp.symm
      cases q with
      | kept k' =>
          obtain ⟨rfl, rfl⟩ := Provenance.produced.inj heq
          obtain ⟨hoffset, hsame⟩ := h.kept _ k' hq
          exact ⟨hoffset, hsame.symm.trans hbyte⟩
      | produced earlier k' =>
          obtain ⟨rfl, rfl⟩ := Provenance.produced.inj heq
          exact h.produced _ earlier k' hq

end Stencil.Render
