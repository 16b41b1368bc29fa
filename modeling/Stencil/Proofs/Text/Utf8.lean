import Stencil.Context.Digest

/-!
# Bytes of texts

The UTF-8 form of a text goes character by character, and takes as many bytes as
the text is long. A character of one byte is found where the text before it ends, and where
its byte is found, it stands. So it is with a text of several characters: a character starts
with a byte that stands nowhere else in one, so that the bytes of a text are found between
characters only, and where they are found, the text stands (`exists_of_utf8_eq_append`).
-/

namespace Stencil.Context

@[simp] theorem utf8_nil : utf8 [] = [] := rfl

@[simp] theorem utf8_append (s t : Text) : utf8 (s ++ t) = utf8 s ++ utf8 t :=
  List.flatMap_append

theorem utf8_cons (c : Char) (t : Text) : utf8 (c :: t) = String.utf8EncodeChar c ++ utf8 t := rfl

@[simp] theorem length_utf8 (t : Text) : (utf8 t).length = Text.byteLength t := by
  induction t with
  | nil => rfl
  | cons c t ih => rw [utf8_cons, List.length_append, ih, String.length_utf8EncodeChar]; rfl

/-- A delimiter stands at the byte where the text before it ends. -/
theorem getElem?_utf8_delimiter {c : Char} (hc : c.utf8Size = 1) (before after : Text) :
    (utf8 (before ++ c :: after))[Text.byteLength before]? = some c.toUInt8 := by
  have hbyte : String.utf8EncodeChar c = [c.toUInt8] := String.utf8EncodeChar_eq_singleton hc
  rw [utf8_append, ← length_utf8, List.getElem?_append_right (Nat.le_refl _), Nat.sub_self,
    utf8_cons, hbyte]
  rfl

/-- An ASCII character is in the bytes of no other character. -/
theorem eq_of_mem_utf8EncodeChar {c d : Char} (hd : d.toNat < 128)
    (h : d.toUInt8 ∈ String.utf8EncodeChar c) : c = d := by
  have hbyte : d.toUInt8.toNat = d.toNat :=
    Nat.mod_eq_of_lt (Nat.lt_of_lt_of_le hd (by decide))
  -- the bytes of a character that is not ASCII are all large
  have large : ∀ {x m n : Nat}, 128 ≤ n → 0 < m → n + m ≤ 256 →
      d.toUInt8 ≠ UInt8.ofNat (x % m + n) := by
    intro x m n hn hm hle heq
    have hmod := Nat.mod_lt x hm
    have hvalue : (x % m + n) % 2 ^ 8 = x % m + n := Nat.mod_eq_of_lt (by omega)
    have := congrArg UInt8.toNat heq
    rw [hbyte, UInt8.toNat_ofNat', hvalue] at this
    omega
  unfold String.utf8EncodeChar at h
  simp only [apply_ite (d.toUInt8 ∈ ·), List.mem_cons, List.not_mem_nil, or_false] at h
  split at h
  · next hascii =>
      have hvalue : c.val.toNat % 2 ^ 8 = c.val.toNat := Nat.mod_eq_of_lt (by omega)
      have := congrArg UInt8.toNat h
      rw [hbyte, UInt8.toNat_ofNat', hvalue] at this
      exact (Char.toNat_inj.1 this).symm
  split at h
  · rcases h with h | h <;> exact absurd h (large (by decide) (by decide) (by decide))
  split at h
  · rcases h with h | h | h <;> exact absurd h (large (by decide) (by decide) (by decide))
  · rcases h with h | h | h | h <;> exact absurd h (large (by decide) (by decide) (by decide))

theorem utf8Size_of_ascii {c : Char} (h : c.toNat < 128) : c.utf8Size = 1 := by
  rw [Char.utf8Size_eq_one_iff, UInt32.le_iff_toNat_le]
  exact Nat.le_of_lt_succ h

/-- Where a text has the byte of an ASCII character, the character stands. -/
theorem exists_of_getElem?_utf8 {d : Char} (hd : d.toNat < 128) {t : Text} {k : Nat}
    (h : (utf8 t)[k]? = some d.toUInt8) :
    ∃ before after, t = before ++ d :: after ∧ Text.byteLength before = k := by
  induction t generalizing k with
  | nil => cases h
  | cons c t ih =>
      have hlength := String.length_utf8EncodeChar c
      rw [utf8_cons] at h
      by_cases hk : k < c.utf8Size
      · rw [List.getElem?_append_left (by omega)] at h
        obtain rfl := eq_of_mem_utf8EncodeChar hd (List.mem_of_getElem? h)
        have hsize : c.utf8Size = 1 := utf8Size_of_ascii hd
        exact ⟨[], t, rfl, by simp; omega⟩
      · rw [List.getElem?_append_right (by omega), hlength] at h
        obtain ⟨before, after, rfl, hbefore⟩ := ih h
        refine ⟨c :: before, after, rfl, ?_⟩
        rw [Text.byteLength_cons]
        omega

/-! ## Bytes of a text in another -/

/-- The bytes at the start of a text tell its first character. -/
theorem utf8EncodeChar_append_inj {c d : Char} {bs cs : List UInt8}
    (h : String.utf8EncodeChar c ++ bs = String.utf8EncodeChar d ++ cs) : c = d ∧ bs = cs := by
  have hdecode : ∀ (c : Char) (bs : List UInt8),
      (String.utf8EncodeChar c ++ bs).toByteArray.utf8DecodeChar? 0 = some c := by
    intro c bs
    rw [List.toByteArray_append]
    exact ByteArray.utf8DecodeChar?_utf8EncodeChar_append
  have hchar := hdecode c bs
  rw [h, hdecode d cs] at hchar
  obtain rfl := Option.some.inj hchar
  exact ⟨rfl, List.append_cancel_left h⟩

theorem exists_of_utf8_eq_prefix {p t : Text} {after : List UInt8}
    (h : utf8 t = utf8 p ++ after) : ∃ rest, t = p ++ rest := by
  induction p generalizing t with
  | nil => exact ⟨t, rfl⟩
  | cons d p ih =>
      rw [utf8_cons, List.append_assoc] at h
      cases t with
      | nil => exact absurd (List.append_eq_nil_iff.1 h.symm).1 String.utf8EncodeChar_ne_nil
      | cons c t =>
          obtain ⟨rfl, hrest⟩ := utf8EncodeChar_append_inj h
          obtain ⟨rest, rfl⟩ := ih hrest
          exact ⟨rest, rfl⟩

/-- A character starts with a byte that stands nowhere else in a character. -/
theorem eq_nil_of_firstByte {c d : Char} {before rest rest' : List UInt8} {b : UInt8}
    (hc : String.utf8EncodeChar c = before ++ b :: rest)
    (hd : String.utf8EncodeChar d = b :: rest') : before = [] := by
  have hfirst : b.IsUTF8FirstByte := by
    have h := UInt8.isUTF8FirstByte_getElem_zero_utf8EncodeChar (c := d)
    simpa only [hd, List.getElem_cons_zero] using h
  have hlt : before.length < (String.utf8EncodeChar c).length := by simp [hc]
  have hat : (String.utf8EncodeChar c)[before.length] = b := by simp [hc]
  rw [← hat, UInt8.isUTF8FirstByte_getElem_utf8EncodeChar] at hfirst
  exact List.eq_nil_of_length_eq_zero hfirst

/-- **Where the bytes of a text are found, the text stands.** -/
theorem exists_of_utf8_eq_append {p t : Text} (hp : p ≠ []) {before after : List UInt8}
    (h : utf8 t = before ++ (utf8 p ++ after)) :
    ∃ s rest, t = s ++ p ++ rest ∧ utf8 s = before := by
  obtain ⟨d, p, rfl⟩ := List.exists_cons_of_ne_nil hp
  obtain ⟨b, bs, hd⟩ := List.exists_cons_of_ne_nil (String.utf8EncodeChar_ne_nil (c := d))
  induction t generalizing before with
  | nil =>
      rw [utf8_cons, hd] at h
      simp at h
  | cons c t ih =>
      -- the bytes of the text start in the first character or behind it
      rcases List.append_eq_append_iff.1 h with ⟨before', rfl, hrest⟩ | ⟨inner, hc, hrest⟩
      · obtain ⟨s, rest, rfl, rfl⟩ := ih hrest
        exact ⟨c :: s, rest, rfl, rfl⟩
      · cases inner with
        | nil =>
            have hstart : utf8 t = [] ++ (utf8 (d :: p) ++ after) := hrest.symm
            obtain ⟨s, rest, rfl, hs⟩ := ih hstart
            refine ⟨c :: s, rest, rfl, ?_⟩
            rw [utf8_cons, hs, List.append_nil, hc, List.append_nil]
        | cons b' inner =>
            rw [utf8_cons, hd] at hrest
            obtain ⟨rfl, -⟩ := List.cons.inj hrest
            obtain rfl := eq_nil_of_firstByte hc hd
            obtain ⟨rest, hrest⟩ := exists_of_utf8_eq_prefix h
            exact ⟨[], rest, hrest, rfl⟩

end Stencil.Context
