import Stencil.Proofs.Markup.Delimited
import Stencil.Proofs.Markup.Tags

/-!
# What the tag scanner finds

`ReadsAs` reads a text as the sequence of its tags: gaps in which no `<` starts a tag that passes
the filter, and tags that run to their first unescaped `>`. Whether a `<` starts a tag can
depend on all that follows it, so a reading knows the text behind it. A tag has a weight, and
`runningDepth` adds up the weights.

A fragment is a text with a reading whose depth is first zero behind its last tag, and a
fragment that opens stays open if no reading from there on comes back to zero. `tagShape` is
that in the words of `RegionShape`, and `describes_iff_scanTags` says that the scan gives the one
description of its text. From reading to reading the machine is between two tags, as deep as
the weights add up to (`scanTagsFrom_reads`).
-/

namespace Stencil.Markup

variable {filter : Option Text}

/-! ## Readings -/

/-- A tag as it is read: what its `<` starts, and what stands between that and its `>`. -/
structure ReadTag where
  kind : TagKind
  inner : Text
deriving Repr, DecidableEq

/-- What a tag adds to the depth. -/
def ReadTag.weight (tag : ReadTag) : Int :=
  match tag.kind with
  | .closing => -1
  | .opening => if tag.inner.getLast? = some '/' then 0 else 1

/-- The depth behind a sequence of tags. -/
def runningDepth (tags : List ReadTag) : Int :=
  tags.foldl (fun depth tag => depth + tag.weight) 0

/-- A tag of the kind that passes the filter starts with the first character of the text. -/
def StartsTag (filter : Option Text) (kind : TagKind) (t : Text) : Prop :=
  ∃ after, t = '<' :: after ∧ tagKind? filter after = some kind

/-- A tag that passes the filter starts with the first character of the text. -/
def StartsSomeTag (filter : Option Text) (t : Text) : Prop :=
  ∃ kind, StartsTag filter kind t

/-- The text is read as these tags when `after` follows it; it ends with the last of them. -/
inductive ReadsAs (filter : Option Text) : (text after : Text) → List ReadTag → Prop where
  | nil (after : Text) : ReadsAs filter [] after []
  | tag {text gap inner after : Text} {tags : List ReadTag} {kind : TagKind}
      (others : ReadsAs filter text (gap ++ '<' :: (inner ++ '>' :: after)) tags)
      (silent : Quiet (StartsSomeTag filter) false gap ('<' :: (inner ++ '>' :: after)))
      (unescaped : pending false gap = false)
      (accepted : tagKind? filter (inner ++ '>' :: after) = some kind)
      (first : Free '>' false inner)
      (closed : pending false inner = false) :
      ReadsAs filter (text ++ (gap ++ '<' :: (inner ++ ['>']))) after (tags ++ [⟨kind, inner⟩])

theorem startsTag_cons {kind : TagKind} {after : Text} :
    StartsTag filter kind ('<' :: after) ↔ tagKind? filter after = some kind := by
  simp [StartsTag]

@[simp] theorem runningDepth_nil : runningDepth [] = 0 := rfl

theorem runningDepth_snoc (tags : List ReadTag) (tag : ReadTag) :
    runningDepth (tags ++ [tag]) = runningDepth tags + tag.weight := by
  simp [runningDepth]

theorem neg_one_le_weight (tag : ReadTag) : -1 ≤ tag.weight := by
  unfold ReadTag.weight
  split
  · exact le_refl _
  · split <;> decide

theorem weight_opening_nonneg (inner : Text) : 0 ≤ (ReadTag.mk .opening inner).weight := by
  simp only [ReadTag.weight]
  split <;> decide

/-- The depth is at least one behind every tag. -/
def Deep (tags : List ReadTag) : Prop :=
  ∀ p, p <+: tags → p ≠ [] → 1 ≤ runningDepth p

theorem deep_nil : Deep [] := fun _ hp hne => absurd (List.prefix_nil.1 hp) hne

theorem deep_snoc {tags : List ReadTag} {tag : ReadTag} :
    Deep (tags ++ [tag]) ↔ Deep tags ∧ 1 ≤ runningDepth (tags ++ [tag]) := by
  constructor
  · intro h
    exact ⟨fun p hp => h p (hp.trans (List.prefix_append _ _)),
      h _ List.prefix_rfl (by simp)⟩
  · rintro ⟨h, hlast⟩ p hp hne
    rcases List.prefix_concat_iff.1 hp with rfl | hp
    · exact hlast
    · exact h p hp hne

theorem Deep.nonneg {tags : List ReadTag} (h : Deep tags) : 0 ≤ runningDepth tags := by
  by_cases htags : tags = []
  · rw [htags, runningDepth_nil]
  · have := h tags List.prefix_rfl htags
    omega

/-! ## The shape of a fragment -/

/-- What the tag scanner takes for a region. -/
def tagShape (filter : Option Text) : RegionShape where
  Opens := StartsTag filter .opening
  enclose text := text
  Whole text after := StartsTag filter .opening (text ++ after) ∧
    ∃ tags, ReadsAs filter text after tags ∧ tags ≠ [] ∧ runningDepth tags = 0 ∧
      ∀ p, p <+: tags → p ≠ [] → p ≠ tags → 1 ≤ runningDepth p
  Unclosed t := ∀ text after tags, t = text ++ after → ReadsAs filter text after tags →
    tags ≠ [] → runningDepth tags ≠ 0

instance (filter : Option Text) : DecidablePred (tagShape filter).Opens
  | [] => .isFalse fun h => by
      obtain ⟨after, hafter, -⟩ := h
      simp at hafter
  | c :: after =>
      decidable_of_iff (c = '<' ∧ tagKind? filter after = some .opening) <| by
        constructor
        · rintro ⟨rfl, hkind⟩
          exact ⟨after, rfl, hkind⟩
        · rintro ⟨after', heq, hkind⟩
          obtain ⟨rfl, rfl⟩ := List.cons.inj heq
          exact ⟨rfl, hkind⟩

theorem ReadsAs.eq_nil {text after : Text} (h : ReadsAs filter text after []) : text = [] := by
  generalize htags : ([] : List ReadTag) = tags at h
  cases h with
  | nil => rfl
  | tag => simp at htags

theorem ReadsAs.exists_snoc {text after : Text} {tags : List ReadTag}
    (h : ReadsAs filter text after tags) (hne : tags ≠ []) : ∃ u, text = u ++ ['>'] := by
  cases h with
  | nil => exact absurd rfl hne
  | @tag text gap inner after tags kind others silent unescaped accepted first closed =>
      exact ⟨text ++ (gap ++ '<' :: inner), by simp⟩

/-- Nothing is in front of a tag that starts the text. -/
theorem eq_nil_of_startsTag {gap rest : Text} {kind : TagKind}
    (silent : Quiet (StartsSomeTag filter) false gap rest)
    (h : StartsTag filter kind (gap ++ rest)) : gap = [] := by
  cases gap with
  | nil => rfl
  | cons c gap => exact absurd ⟨kind, h⟩ ((quiet_cons.1 silent).1 rfl)

/-- A first tag that opens a fragment is an opening tag. -/
theorem kind_of_startsTag {gap inner rest : Text} {kind : TagKind}
    (silent : Quiet (StartsSomeTag filter) false gap ('<' :: (inner ++ rest)))
    (accepted : tagKind? filter (inner ++ rest) = some kind)
    (h : StartsTag filter .opening (gap ++ '<' :: (inner ++ rest))) :
    gap = [] ∧ kind = .opening := by
  obtain rfl := eq_nil_of_startsTag silent h
  rw [List.nil_append, startsTag_cons, accepted] at h
  exact ⟨rfl, Option.some.inj h⟩

/-- From an opening on, a text comes back to depth zero or is read at a depth of one or more. -/
theorem ReadsAs.whole_or_deep {text after : Text} {tags : List ReadTag}
    (h : ReadsAs filter text after tags) (hopens : StartsTag filter .opening (text ++ after)) :
    (∃ text' after', text ++ after = text' ++ after' ∧ (tagShape filter).Whole text' after') ∨
      Deep tags := by
  induction h with
  | nil after => exact Or.inr deep_nil
  | @tag text gap inner after tags kind others silent unescaped accepted first closed ih =>
      have hassoc : text ++ (gap ++ '<' :: (inner ++ ['>'])) ++ after =
          text ++ (gap ++ '<' :: (inner ++ '>' :: after)) := by simp
      have hreads := ReadsAs.tag others silent unescaped accepted first closed
      rw [hassoc] at hopens ⊢
      rcases ih hopens with hwhole | hdeep
      · exact Or.inl hwhole
      have hnonneg : 0 ≤ runningDepth (tags ++ [⟨kind, inner⟩]) := by
        rw [runningDepth_snoc]
        by_cases htags : tags = []
        · subst htags
          obtain rfl := others.eq_nil
          obtain ⟨rfl, rfl⟩ := kind_of_startsTag silent accepted hopens
          rw [runningDepth_nil, Int.zero_add]
          exact weight_opening_nonneg inner
        · have hbefore := hdeep tags List.prefix_rfl htags
          have hweight := neg_one_le_weight ⟨kind, inner⟩
          omega
      rcases hnonneg.eq_or_lt with hzero | hpos
      · refine Or.inl ⟨_, after, hassoc.symm, ?_, _, hreads, by simp, hzero.symm, ?_⟩
        · rwa [hassoc]
        · intro p hp hne hall
          rcases List.prefix_concat_iff.1 hp with rfl | hp
          · exact absurd rfl hall
          · exact hdeep p hp hne
      · exact Or.inr (deep_snoc.2 ⟨hdeep, hpos⟩)

/-- No tag can be read from the start of the text: none starts, or the one that does has no
end. -/
def Stuck (filter : Option Text) (t : Text) : Prop :=
  Quiet (StartsSomeTag filter) false t [] ∨
    ∃ gap inner kind, t = gap ++ '<' :: inner ∧
      Quiet (StartsSomeTag filter) false gap ('<' :: inner) ∧ pending false gap = false ∧
      tagKind? filter inner = some kind ∧ Free '>' false inner

/-- A text is read as far as it goes. -/
theorem ReadsAs.exists_stuck {text after : Text} {tags : List ReadTag}
    (h : ReadsAs filter text after tags) :
    ∃ text' after' tags', text ++ after = text' ++ after' ∧ ReadsAs filter text' after' tags' ∧
      Stuck filter after' := by
  induction hn : after.length using Nat.strong_induction_on generalizing text after tags with
  | _ n ih =>
      subst hn
      rcases quiet_or_first (StartsSomeTag filter) false after with
        hquiet | ⟨gap, c, rest, rfl, hgap, ⟨kind, t, ht, hkind⟩, silent⟩
      · exact ⟨text, after, tags, rfl, h, Or.inl hquiet⟩
      obtain ⟨rfl, rfl⟩ := List.cons.inj ht
      rcases quiet_or_first (fun t => t.head? = some '>') false rest with
        hquiet | ⟨inner, d, after', rfl, hinner, hd, hfirst⟩
      · refine ⟨text, _, tags, rfl, h, Or.inr ⟨gap, rest, kind, rfl, silent, hgap, hkind, ?_⟩⟩
        exact free_of_quiet hquiet
      · obtain rfl : d = '>' := Option.some.inj hd
        have hreads := h.tag silent hgap hkind (free_of_quiet hfirst) hinner
        obtain ⟨text', after'', tags', heq, hstuck⟩ := ih after'.length (by simp; omega) hreads rfl
        exact ⟨text', after'', tags', by rw [← heq]; simp, hstuck⟩

/-! ## The machine from tag to tag -/

namespace TagPhase

/-- What the machine waits for at an unescaped character. -/
def Awaits (filter : Option Text) : TagPhase → Text → Prop
  | outside _ => StartsTag filter .opening
  | tag .. => fun t => t.head? = some '>'
  | between .. => StartsSomeTag filter

theorem awaits_keep (c : Char) (p : TagPhase) : (p.keep c).Awaits filter = p.Awaits filter := by
  cases p <;> rfl

theorem step_of_not_awaits {c : Char} {rest : Text} {p : TagPhase}
    (h : ¬ p.Awaits filter (c :: rest)) (offset : Nat) :
    p.step filter offset c rest = (p.keep c, none) := by
  cases p with
  | outside gap =>
      have hno : ¬ (c = '<' ∧ tagKind? filter rest = some .opening) := by
        rintro ⟨rfl, hkind⟩
        exact h (startsTag_cons.2 hkind)
      simp only [step, Bool.and_eq_true, decide_eq_true_eq]
      rw [if_neg hno]
      rfl
  | tag gap start depth kind body =>
      have hno : c ≠ '>' := fun hc => h (congrArg some hc)
      simp [step, keep, hno]
  | between gap start depth body =>
      have hno : (if c = '<' then tagKind? filter rest else none) = none := by
        split
        · next hc =>
            subst hc
            by_contra hsome
            obtain ⟨kind, hkind⟩ := Option.ne_none_iff_exists'.1 hsome
            exact h ⟨kind, startsTag_cons.2 hkind⟩
        · rfl
      simp only [step, hno]
      rfl

/-- The phase behind the tags that a text is read as. The text starts at byte `start`, and a
gap is before it. -/
def behind (gap : Text) (start : Nat) (text : Text) (tags : List ReadTag) : TagPhase :=
  if tags = [] then .outside gap
  else .between gap start (runningDepth tags).toNat text.reverse

end TagPhase

/-- The tag scanner passes over what it does not wait for, though it looks ahead. -/
theorem scanTagsFrom_quiet {p : TagPhase} {s rest : Text} {escaped : Bool}
    (h : Quiet (p.Awaits filter) escaped s rest) (offset : Nat) :
    scanTagsFrom filter escaped offset p (s ++ rest) =
      scanTagsFrom filter (pending escaped s) (offset + Text.byteLength s) (p.keepAll s) rest := by
  induction s generalizing escaped offset p with
  | nil => rfl
  | cons c s ih =>
      obtain ⟨hc, hs⟩ := quiet_cons.1 h
      have hstep : (if escaped then (p.keep c, none)
          else p.step filter offset c (s ++ rest)) = (p.keep c, none) := by
        cases escaped with
        | true => rfl
        | false => exact TagPhase.step_of_not_awaits (hc rfl) offset
      rw [← TagPhase.awaits_keep c p] at hs
      have hrest := ih hs (offset + c.utf8Size)
      rw [List.cons_append, scanTagsFrom, hstep]
      simpa [Scan.consOption, pending, TagPhase.keepAll, Nat.add_assoc] using hrest

/-- Behind its last tag a text is read on: over the gap and into the next tag. -/
theorem scanTagsFrom_tag {text gap inner rest : Text} {tags : List ReadTag} {kind : TagKind}
    (h : ReadsAs filter text (gap ++ '<' :: (inner ++ rest)) tags)
    (hopens : StartsTag filter .opening (text ++ (gap ++ '<' :: (inner ++ rest))))
    (silent : Quiet (StartsSomeTag filter) false gap ('<' :: (inner ++ rest)))
    (unescaped : pending false gap = false)
    (accepted : tagKind? filter (inner ++ rest) = some kind) (first : Free '>' false inner)
    (before : Text) (start : Nat) :
    scanTagsFrom filter false (start + Text.byteLength text) (.behind before start text tags)
        (gap ++ '<' :: (inner ++ rest)) =
      scanTagsFrom filter (pending false inner)
        (start + Text.byteLength (text ++ (gap ++ '<' :: inner)))
        (.tag before start (runningDepth tags).toNat kind (text ++ (gap ++ '<' :: inner)).reverse)
        rest := by
  -- inside the tag the machine waits for its end
  have inside : ∀ offset depth body,
      scanTagsFrom filter false offset (.tag before start depth kind body) (inner ++ rest) =
        scanTagsFrom filter (pending false inner) (offset + Text.byteLength inner)
          (.tag before start depth kind (inner.reverse ++ body)) rest := by
    intro offset depth body
    rw [scanTagsFrom_keeping (p := .tag before start depth kind body) first,
      TagPhase.keepAll_tag]
  have hafter : pendingAfter false '<' = false := rfl
  by_cases htags : tags = []
  · subst htags
    obtain rfl := h.eq_nil
    obtain ⟨rfl, rfl⟩ := kind_of_startsTag silent accepted hopens
    have hstep : (TagPhase.outside before).step filter start '<' (inner ++ rest) =
        (.tag before start 0 .opening ['<'], none) := by
      simp [TagPhase.step, accepted]
    have hscan := scanTagsFrom_step hstep
    rw [hafter, scan_eq_consOption_none, inside] at hscan
    simpa [TagPhase.behind, Nat.add_assoc] using hscan
  · have hstep : ∀ offset body, (TagPhase.between before start (runningDepth tags).toNat
        body).step filter offset '<' (inner ++ rest) =
          (.tag before start (runningDepth tags).toNat kind ('<' :: body), none) := by
      intro offset body
      simp [TagPhase.step, accepted]
    have hgap : Quiet ((TagPhase.between before start (runningDepth tags).toNat
        text.reverse).Awaits filter) false gap ('<' :: (inner ++ rest)) := silent
    rw [TagPhase.behind, if_neg htags, scanTagsFrom_quiet hgap, unescaped,
      TagPhase.keepAll_between, scanTagsFrom_step (hstep _ _), hafter, scan_eq_consOption_none,
      inside]
    simp [Nat.add_assoc]

/-- The machine counts a tag with its weight. -/
theorem depthAfter_eq (before : Text) (kind : TagKind) (inner : Text) (depth : Nat)
    (h : 0 ≤ (depth : Int) + (ReadTag.mk kind inner).weight) :
    (depthAfter kind (before ++ '<' :: inner).reverse depth : Int) =
      depth + (ReadTag.mk kind inner).weight := by
  have hslash : (before ++ '<' :: inner).reverse.head? = some '/' ↔ inner.getLast? = some '/' := by
    rw [List.head?_reverse, List.getLast?_append, List.getLast?_cons]
    cases inner.getLast? with
    | none => simp
    | some c => simp
  cases kind with
  | closing =>
      simp only [ReadTag.weight] at h ⊢
      simp only [depthAfter]
      omega
  | opening =>
      simp only [ReadTag.weight, depthAfter, hslash]
      split <;> simp

/-- Behind its last tag a text is read on: over the whole next tag. It completes the fragment
if the depth is zero behind it. -/
theorem scanTagsFrom_readTag {text gap inner after : Text} {tags : List ReadTag} {kind : TagKind}
    (h : ReadsAs filter text (gap ++ '<' :: (inner ++ '>' :: after)) tags)
    (hopens : StartsTag filter .opening (text ++ (gap ++ '<' :: (inner ++ '>' :: after))))
    (silent : Quiet (StartsSomeTag filter) false gap ('<' :: (inner ++ '>' :: after)))
    (unescaped : pending false gap = false)
    (accepted : tagKind? filter (inner ++ '>' :: after) = some kind)
    (first : Free '>' false inner) (closed : pending false inner = false) (hdeep : Deep tags)
    (hnonneg : 0 ≤ runningDepth (tags ++ [⟨kind, inner⟩])) (before : Text) (start : Nat)
    {whole : Text} (hwhole : whole = text ++ (gap ++ '<' :: (inner ++ ['>']))) :
    scanTagsFrom filter false (start + Text.byteLength text) (.behind before start text tags)
        (gap ++ '<' :: (inner ++ '>' :: after)) =
      if runningDepth (tags ++ [⟨kind, inner⟩]) = 0 then
        (scanTagsFrom filter false (start + Text.byteLength whole) (.outside []) after).cons
          ⟨before.reverse, whole, ⟨start, start + Text.byteLength whole⟩⟩
      else
        scanTagsFrom filter false (start + Text.byteLength whole)
          (.behind before start whole (tags ++ [⟨kind, inner⟩])) after := by
  have hread : text ++ (gap ++ '<' :: inner) = text ++ gap ++ '<' :: inner :=
    (List.append_assoc text gap _).symm
  have hdepth := Int.toNat_of_nonneg hdeep.nonneg
  have hcount := depthAfter_eq (text ++ gap) kind inner (runningDepth tags).toNat
    (by rwa [hdepth, ← runningDepth_snoc])
  rw [hdepth, ← runningDepth_snoc, ← hread] at hcount
  have hbody : whole = ('>' :: (text ++ (gap ++ '<' :: inner)).reverse).reverse := by
    simp [hwhole]
  have hsize : start + Text.byteLength (text ++ (gap ++ '<' :: inner)) + Char.utf8Size '>' =
      start + Text.byteLength whole := by
    simp [hwhole, Nat.add_assoc]
  rw [scanTagsFrom_tag h hopens silent unescaped accepted first, closed]
  split
  · next hzero =>
      rw [scanTagsFrom_step (q := .outside []) (r := some ⟨before.reverse, whole, ⟨start, _⟩⟩),
        hsize]
      · rfl
      · have hnone : depthAfter kind (text ++ (gap ++ '<' :: inner)).reverse
            (runningDepth tags).toNat = 0 := by omega
        simp only [TagPhase.step, hnone, if_true, hsize, hbody]
  · next hpos =>
      obtain ⟨depth, hdepth'⟩ := Nat.exists_eq_succ_of_ne_zero (n := depthAfter kind
        (text ++ (gap ++ '<' :: inner)).reverse (runningDepth tags).toNat) (by omega)
      have hbehind : TagPhase.behind before start whole (tags ++ [⟨kind, inner⟩]) =
          .between before start (depth + 1) whole.reverse := by
        rw [TagPhase.behind, if_neg (by simp)]
        congr 1
        omega
      rw [scanTagsFrom_step (q := .between before start (depth + 1) whole.reverse) (r := none),
        hsize, hbehind]
      · rfl
      · simp only [TagPhase.step, hdepth', if_true, hbody, List.reverse_reverse]

/-- **From tag to tag.** Behind the tags that a text is read as, the machine is between two
tags, as deep as the weights add up to. -/
theorem scanTagsFrom_reads {text after : Text} {tags : List ReadTag}
    (h : ReadsAs filter text after tags) (hopens : StartsTag filter .opening (text ++ after))
    (hdeep : Deep tags) (before : Text) (start : Nat) :
    scanTagsFrom filter false start (.outside before) (text ++ after) =
      scanTagsFrom filter false (start + Text.byteLength text) (.behind before start text tags)
        after := by
  induction h with
  | nil after => rfl
  | @tag text gap inner after tags kind others silent unescaped accepted first closed ih =>
      have hassoc : text ++ (gap ++ '<' :: (inner ++ ['>'])) ++ after =
          text ++ (gap ++ '<' :: (inner ++ '>' :: after)) := by simp
      rw [hassoc] at hopens ⊢
      obtain ⟨hbefore, hlast⟩ := deep_snoc.1 hdeep
      rw [ih hopens hbefore, scanTagsFrom_readTag others hopens silent unescaped accepted first
        closed hbefore (by omega) before start rfl, if_neg (by omega)]

/-! ## The scan is the description -/

/-- What opens and never closes stays open to the end of the text. -/
theorem scanTagsFrom_unclosed {rest : Text} (hopens : (tagShape filter).Opens rest)
    (hunclosed : (tagShape filter).Unclosed rest) (gap : Text) (start : Nat) :
    scanTagsFrom filter false start (.outside gap) rest =
      ⟨[], gap.reverse ++ rest, some start⟩ := by
  have hnil : ReadsAs filter [] rest [] := .nil rest
  obtain ⟨text, after, tags, rfl, hreads, hstuck⟩ := hnil.exists_stuck
  have hdeep : Deep tags := by
    rcases hreads.whole_or_deep hopens with
      ⟨text', after', heq, -, tags', hreads', hne, hzero, -⟩ | h
    · exact absurd hzero (hunclosed text' after' tags' heq hreads' hne)
    · exact h
  rw [scanTagsFrom_reads hreads hopens hdeep]
  rcases hstuck with hquiet | ⟨gap', inner, kind, rfl, silent, unescaped, accepted, first⟩
  · have htags : tags ≠ [] := by
      rintro rfl
      obtain rfl := hreads.eq_nil
      have hstarts : StartsTag filter .opening (after ++ []) := by
        rw [List.append_nil]
        exact hopens
      obtain rfl := eq_nil_of_startsTag hquiet hstarts
      obtain ⟨after, hafter, -⟩ := hopens
      simp at hafter
    have hbehind : TagPhase.behind gap start text tags =
        .between gap start (runningDepth tags).toNat text.reverse := if_neg htags
    have hscan := scanTagsFrom_quiet (p := .between gap start (runningDepth tags).toNat
      text.reverse) hquiet (start + Text.byteLength text)
    rw [List.append_nil] at hscan
    rw [hbehind, hscan, TagPhase.keepAll_between]
    simp [scanTagsFrom, TagPhase.finish]
  · rw [← List.append_nil inner] at hreads hopens silent accepted ⊢
    rw [scanTagsFrom_tag hreads hopens silent unescaped accepted first]
    simp [scanTagsFrom, TagPhase.finish]

theorem scannedBy_tags (filter : Option Text) : (tagShape filter).ScannedBy fun base t =>
    scanTagsFrom filter false base (.outside []) t where
  quiet {base t} silent := by
    have hscan := scanTagsFrom_quiet (p := .outside []) silent base
    rw [List.append_nil] at hscan
    rw [hscan, TagPhase.keepAll_outside]
    simp [scanTagsFrom, TagPhase.finish]
  unclosed {base gap rest c} silent unescaped opens unclosed := by
    rw [scanTagsFrom_quiet (p := .outside []) silent, unescaped, TagPhase.keepAll_outside,
      scanTagsFrom_unclosed opens unclosed]
    simp
  region {base gap text rest} silent unescaped whole := by
    obtain ⟨hopens, tags, hreads, hne, hzero, hprefixes⟩ := whole
    rw [scanTagsFrom_quiet (p := .outside []) silent, unescaped, TagPhase.keepAll_outside]
    cases hreads with
    | nil => exact absurd rfl hne
    | @tag text gap' inner _ tags kind others silent' unescaped' accepted first closed =>
        have hassoc : text ++ (gap' ++ '<' :: (inner ++ ['>'])) ++ rest =
            text ++ (gap' ++ '<' :: (inner ++ '>' :: rest)) := by simp
        have hdeep : Deep tags := by
          intro p hp hpne
          refine hprefixes p (hp.trans (List.prefix_append _ _)) hpne ?_
          rintro rfl
          have hlength := hp.length_le
          rw [List.length_append, List.length_singleton] at hlength
          omega
        have henclose : ∀ t, (tagShape filter).enclose t = t := fun _ => rfl
        rw [hassoc] at hopens
        rw [henclose, hassoc, scanTagsFrom_reads others hopens hdeep,
          scanTagsFrom_readTag others hopens silent' unescaped' accepted first closed hdeep
            hzero.ge _ _ rfl, if_pos hzero]
        simp

theorem lawful_tags (filter : Option Text) : (tagShape filter).Lawful where
  closed {text after} whole := by
    obtain ⟨-, tags, hreads, hne, -⟩ := whole
    obtain ⟨u, rfl⟩ := hreads.exists_snoc hne
    exact pending_snoc_of_ne (by decide) false u
  opens whole := whole.1
  nonempty {text after} whole := by
    obtain ⟨-, tags, hreads, hne, -⟩ := whole
    obtain ⟨u, rfl⟩ := hreads.exists_snoc hne
    exact List.concat_ne_nil _ _
  unique := (scannedBy_tags filter).unique
  not_unclosed {text after} whole unclosed := by
    obtain ⟨-, tags, hreads, hne, hzero, -⟩ := whole
    exact unclosed text after tags rfl hreads hne hzero
  closes {t} opens hclosed := by
    by_contra hno
    refine hclosed fun text after tags heq hreads hne hzero => ?_
    subst heq
    rcases hreads.whole_or_deep opens with hwhole | hdeep
    · exact hno hwhole
    · have := hdeep tags List.prefix_rfl hne
      omega

/-! ## The depth -/

namespace TagPhase

/-- A fragment is at least one deep between two tags, and in a closing tag. -/
def Nested : TagPhase → Prop
  | outside _ => True
  | tag _ _ depth kind _ => kind = .closing → 1 ≤ depth
  | between _ _ depth _ => 1 ≤ depth

theorem nested_keep {p : TagPhase} (h : p.Nested) (c : Char) : (p.keep c).Nested := by
  cases p <;> exact h

theorem nested_step {p : TagPhase} (h : p.Nested) (filter : Option Text) (offset : Nat) (c : Char)
    (rest : Text) : (p.step filter offset c rest).1.Nested := by
  cases p with
  | outside gap =>
      simp only [step]
      split
      · exact fun hkind => TagKind.noConfusion hkind
      · trivial
  | tag gap start depth kind body =>
      simp only [step]
      split
      · split
        · trivial
        · exact Nat.succ_le_succ (Nat.zero_le _)
      · exact h
  | between gap start depth body =>
      simp only [step]
      split
      · exact fun _ => h
      · exact h

end TagPhase

/-- In a closing tag a scan is at least one deep. -/
theorem depth_pos_of_phaseAfter {s rest gap body : Text} {start depth : Nat}
    (h : (tagScanner filter).phaseAfter false 0 (.outside []) rest s =
      .tag gap start depth .closing body) : 1 ≤ depth := by
  have hstart : (TagPhase.outside []).Nested := trivial
  have hnested : ((tagScanner filter).phaseAfter false 0 (.outside []) rest s).Nested :=
    (tagScanner filter).phaseAfter_induction (motive := fun _ p => p.Nested)
      (fun c _ h => TagPhase.nested_keep h c)
      (fun offset c rest _ h => TagPhase.nested_step h filter offset c rest) hstart 0 s rest
  rw [h] at hnested
  exact hnested rfl

/-! ## The scan -/

/-- **The tag scanner gives the one description of its text.** Its fragments are in order, are
read from an opening tag to the first tag behind which the depth is zero, no opening before the
byte where a fragment stays open is outside of them, and that byte is the first one from which
no reading comes back to zero, with no fragment behind it; whatever is so is what the scan
gives. A closing tag is never taken away from a depth of zero. -/
theorem describes_iff_scanTags (filter : Option Text) (t : Text) :
    (∀ found unterminated,
      (tagShape filter).Describes 0 t found unterminated ↔
        found = (scanTags filter t).found ∧ unterminated = (scanTags filter t).unterminated) ∧
      ∀ s rest gap start depth body, t = s ++ rest →
        (tagScanner filter).phaseAfter false 0 (.outside []) rest s =
          .tag gap start depth .closing body →
        1 ≤ depth := by
  refine ⟨?_, ?_⟩
  · exact (scannedBy_tags filter).describes_iff (lawful_tags filter) 0 t
  · intro s rest gap start depth body _ hphase
    exact depth_pos_of_phaseAfter hphase

/-- A fragment with a tag in it that closes itself, and an opening that nothing closes. -/
theorem describes_tags_around :
    (tagShape none).Describes 0 "<a><b/></a><c>".toList [("<a><b/></a>".toList, ⟨0, 11⟩)]
        (some 11) ∧
      (tagScanner none).phaseAfter false 0 (.outside []) "a><c>".toList "<a><b/></".toList =
        .tag [] 0 1 .closing "<a><b/></".toList.reverse ∧ 1 ≤ 1 := by
  have hscan := describes_iff_scanTags none "<a><b/></a><c>".toList
  have hphase : (tagScanner none).phaseAfter false 0 (.outside []) "a><c>".toList
      "<a><b/></".toList = .tag [] 0 1 .closing "<a><b/></".toList.reverse := by decide
  exact ⟨(hscan.1 _ _).2 (by decide), hphase, hscan.2 _ _ _ _ _ _ rfl hphase⟩

/-- Without a word about what is behind the opening that nothing closes there are two answers
for a text, and where two openings stay open there is none. -/
theorem admits_tags_not_unique :
    (tagShape none).Admits 0 "<a><b></b>".toList [] (some 0) ∧
      (tagShape none).Admits 0 "<a><b></b>".toList [("<b></b>".toList, ⟨3, 10⟩)] (some 0) ∧
      ¬ (tagShape none).Admits 0 "<a><b>".toList (scanTags none "<a><b>".toList).found
        (scanTags none "<a><b>".toList).unterminated := by
  have hscanned := scannedBy_tags none
  have hlawful := lawful_tags none
  have hscan : scanTags none "<a><b>".toList = ⟨[], "<a><b>".toList, some 0⟩ := by decide
  rw [hscan]
  refine ⟨(hscanned.admits_iff hlawful).2 ?_, (hscanned.admits_iff hlawful).2 ?_,
    fun h => absurd ((hscanned.admits_iff hlawful).1 h) ?_⟩
  · decide
  · decide
  · decide

end Stencil.Markup
