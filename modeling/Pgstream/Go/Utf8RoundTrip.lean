/-
# Pgstream.Go.Utf8RoundTrip — `utf8.EncodeRune`, and `DecodeRune` reading it back

The scrambler reads its input with `(*bytes.Reader).ReadRune`, and what a caller hands it is, in
the common case, text Go has written: the UTF-8 encoding of a list of runes. This module writes
that encoding down as Go's `utf8.EncodeRune` does (one to four bytes by the rune's range, and the
encoding of `RuneError` for a surrogate or a value past `MaxRune`) and proves that the decoder
the scrambler runs reads it back: `decodeRune_encodeRune` for one rune followed by anything,
`decodeRunes_flatMap_encodeRune` for a whole string of valid runes.

The proof goes by the rune's width. `encodeRune_cases` gives, once, the bytes of each width with
the rune's base-64 digits, so that everything after it is linear in the digits. On the decoding
side, `first_accept_iff` says when a second byte is in its lead byte's accept range (RFC 3629 §4's
rows), and `decodeRune_two`, `decodeRune_three` and `decodeRune_four` say what one decode of each
width returns; the round trip cites these and never unfolds `decodeRune`.

§5 goes the other way, for a string that nobody promised was UTF-8. `decodeRune_ne_error` says
what a decode other than `(RuneError, 1)` has read, byte by byte; `encodeRune_of_two`, `_three`
and `_four` say that those bytes are the encoding of the rune returned; so `decodeRune_cases`: one
decode reads either a single byte as `RuneError` or the whole encoding of a valid rune, and
`decodeRune_eq_error_iff`: it fails exactly where no such encoding begins. Along the reader this
gives `decodeRunes_eq_iff_pieces`: the runes read from any byte string are those of its one cut
into `Pieces`, encodings of valid runes and single bytes no encoding starts at.
-/
import Pgstream.Go.Utf8

namespace Pgstream.Go

/-! ## §1 — `utf8.ValidRune` and `utf8.EncodeRune` -/

/-- `utf8.ValidRune(r)`: neither a surrogate nor above `MaxRune`. -/
def validRune (r : Nat) : Bool := r < 0xD800 || (0xDFFF < r && r ≤ 0x10FFFF)

theorem validRune_iff (r : Nat) : validRune r = true ↔ r < 0xD800 ∨ 0xDFFF < r ∧ r ≤ 0x10FFFF := by
  simp only [validRune, Bool.or_eq_true, decide_eq_true_eq, Bool.and_eq_true]

/-- `utf8.EncodeRune(p, r)`, the bytes it writes. The source's `t2 | byte(r>>6)` and
`tx | byte(r)&maskx` are sums here, the high bits being clear; a rune that is not valid is
written as `RuneError`, `EF BF BD`. -/
def encodeRune (r : Nat) : Bytes :=
  if r < 0x80 then [r.toUInt8]
  else if r < 0x800 then [(0xC0 + r / 0x40).toUInt8, (0x80 + r % 0x40).toUInt8]
  else if !validRune r then [0xEF, 0xBF, 0xBD]
  else if r < 0x10000 then
    [(0xE0 + r / 0x1000).toUInt8, (0x80 + r / 0x40 % 0x40).toUInt8, (0x80 + r % 0x40).toUInt8]
  else [(0xF0 + r / 0x40000).toUInt8, (0x80 + r / 0x1000 % 0x40).toUInt8,
    (0x80 + r / 0x40 % 0x40).toUInt8, (0x80 + r % 0x40).toUInt8]

/-- **The bytes of a valid rune, by width**, with the rune's base-64 digits and, for three and
four bytes, the conditions on the digits that keep it in its row: not overlong, not a surrogate,
not past `MaxRune`. -/
theorem encodeRune_cases {r : Nat} (hr : validRune r = true) :
    (r < 0x80 ∧ encodeRune r = [r.toUInt8]) ∨
    (∃ a d, r = a * 0x40 + d ∧ 2 ≤ a ∧ a < 0x20 ∧ d < 0x40 ∧
      encodeRune r = [(0xC0 + a).toUInt8, (0x80 + d).toUInt8]) ∨
    (∃ a c d, r = a * 0x1000 + c * 0x40 + d ∧ a < 0x10 ∧ c < 0x40 ∧ d < 0x40 ∧
      (a = 0 → 0x20 ≤ c) ∧ (a = 0xD → c < 0x20) ∧
      encodeRune r = [(0xE0 + a).toUInt8, (0x80 + c).toUInt8, (0x80 + d).toUInt8]) ∨
    (∃ a b c d, r = a * 0x40000 + b * 0x1000 + c * 0x40 + d ∧ a ≤ 4 ∧ b < 0x40 ∧ c < 0x40 ∧
      d < 0x40 ∧ (a = 0 → 0x10 ≤ b) ∧ (a = 4 → b < 0x10) ∧
      encodeRune r = [(0xF0 + a).toUInt8, (0x80 + b).toUInt8, (0x80 + c).toUInt8,
        (0x80 + d).toUInt8]) := by
  have hv := (validRune_iff r).1 hr
  unfold encodeRune
  rw [hr, Bool.not_true, if_neg Bool.false_ne_true]
  have m6 : ∀ n, n % 0x40 < 0x40 := fun n => Nat.mod_lt n (by decide)
  by_cases h1 : r < 0x80
  · exact .inl ⟨h1, if_pos h1⟩
  by_cases h2 : r < 0x800
  · refine .inr (.inl ⟨r / 0x40, r % 0x40, (Nat.div_add_mod' r 0x40).symm, by omega, by omega,
      m6 r, ?_⟩)
    rw [if_neg h1, if_pos h2]
  by_cases h3 : r < 0x10000
  · have hs : ¬(0xD800 ≤ r ∧ r ≤ 0xDFFF) := by omega
    clear hv
    refine .inr (.inr (.inl ⟨r / 0x1000, r / 0x40 % 0x40, r % 0x40, by omega, by omega, m6 _,
      m6 r, by omega, by omega, ?_⟩))
    rw [if_neg h1, if_neg h2, if_pos h3]
  · have h4 : r ≤ 0x10FFFF := by omega
    clear hv
    refine .inr (.inr (.inr ⟨r / 0x40000, r / 0x1000 % 0x40, r / 0x40 % 0x40, r % 0x40, by omega,
      by omega, m6 _, m6 _, m6 r, by omega, by omega, ?_⟩))
    rw [if_neg h1, if_neg h2, if_neg h3]

/-- A valid rune takes one byte exactly when it is ASCII, and more otherwise. -/
theorem length_encodeRune {r : Nat} (hr : validRune r = true) :
    1 ≤ (encodeRune r).length ∧ ((encodeRune r).length = 1 ↔ r < 0x80) := by
  rcases encodeRune_cases hr with ⟨h, he⟩ | ⟨_, _, rfl, ha, -, -, he⟩ |
      ⟨_, _, _, rfl, -, -, -, h, -, he⟩ | ⟨_, _, _, _, rfl, -, -, -, -, h, -, he⟩ <;>
    rw [he] <;> simp only [List.length_cons, List.length_nil, true_iff, false_iff] <;> omega

/-- The encoding of a rune given by its base-64 digits, in the digits, for each width. -/
theorem encodeRune_two_digits {a d : Nat} (ha : 2 ≤ a) (ha' : a < 0x20) (hd : d < 0x40) :
    validRune (a * 0x40 + d) = true ∧
      encodeRune (a * 0x40 + d) = [(0xC0 + a).toUInt8, (0x80 + d).toUInt8] := by
  refine ⟨(validRune_iff _).2 (by omega), ?_⟩
  rw [encodeRune, if_neg (by omega), if_pos (by omega), show (a * 0x40 + d) / 0x40 = a by omega,
    show (a * 0x40 + d) % 0x40 = d by omega]

theorem encodeRune_three_digits {a c d : Nat} (ha : a < 0x10) (hc : c < 0x40) (hd : d < 0x40)
    (hlo : a = 0 → 0x20 ≤ c) (hs : a = 0xD → c < 0x20) :
    validRune (a * 0x1000 + c * 0x40 + d) = true ∧
      encodeRune (a * 0x1000 + c * 0x40 + d) =
        [(0xE0 + a).toUInt8, (0x80 + c).toUInt8, (0x80 + d).toUInt8] := by
  have hv : validRune (a * 0x1000 + c * 0x40 + d) = true := (validRune_iff _).2 (by omega)
  have hr : 0x800 ≤ a * 0x1000 + c * 0x40 + d := by omega
  refine ⟨hv, ?_⟩
  clear hlo hs
  rw [encodeRune, if_neg (by omega), if_neg (by omega), hv, Bool.not_true,
    if_neg Bool.false_ne_true, if_pos (by omega), show (a * 0x1000 + c * 0x40 + d) / 0x1000 = a by omega,
    show (a * 0x1000 + c * 0x40 + d) / 0x40 % 0x40 = c by omega,
    show (a * 0x1000 + c * 0x40 + d) % 0x40 = d by omega]

theorem encodeRune_four_digits {a b c d : Nat} (ha : a ≤ 4) (hb : b < 0x40) (hc : c < 0x40)
    (hd : d < 0x40) (hlo : a = 0 → 0x10 ≤ b) (hhi : a = 4 → b < 0x10) :
    validRune (a * 0x40000 + b * 0x1000 + c * 0x40 + d) = true ∧
      encodeRune (a * 0x40000 + b * 0x1000 + c * 0x40 + d) =
        [(0xF0 + a).toUInt8, (0x80 + b).toUInt8, (0x80 + c).toUInt8, (0x80 + d).toUInt8] := by
  have hv : validRune (a * 0x40000 + b * 0x1000 + c * 0x40 + d) = true :=
    (validRune_iff _).2 (by omega)
  have hr : 0x10000 ≤ a * 0x40000 + b * 0x1000 + c * 0x40 + d := by omega
  refine ⟨hv, ?_⟩
  clear hlo hhi
  rw [encodeRune, if_neg (by omega), if_neg (by omega), hv, Bool.not_true,
    if_neg Bool.false_ne_true, if_neg (by omega),
    show (a * 0x40000 + b * 0x1000 + c * 0x40 + d) / 0x40000 = a by omega,
    show (a * 0x40000 + b * 0x1000 + c * 0x40 + d) / 0x1000 % 0x40 = b by omega,
    show (a * 0x40000 + b * 0x1000 + c * 0x40 + d) / 0x40 % 0x40 = c by omega,
    show (a * 0x40000 + b * 0x1000 + c * 0x40 + d) % 0x40 = d by omega]

/-! ## §2 — The accept ranges of the `first` table -/

/-- **The accept range of a lead byte is RFC 3629's**: a second byte lies in it exactly when it
is a continuation byte, and, after `E0`, `ED`, `F0` and `F4`, in the narrower range that excludes
overlong forms, surrogates and runes past `MaxRune`. -/
theorem first_accept_iff {p0 : UInt8} {sz : Nat} {lo hi : UInt8} (h : first p0 = .multi sz lo hi)
    (b : Nat) :
    lo.toNat ≤ b ∧ b ≤ hi.toNat ↔
      0x80 ≤ b ∧ b ≤ 0xBF ∧ (p0.toNat = 0xE0 → 0xA0 ≤ b) ∧ (p0.toNat = 0xED → b ≤ 0x9F) ∧
        (p0.toNat = 0xF0 → 0x90 ≤ b) ∧ (p0.toNat = 0xF4 → b ≤ 0x8F) := by
  unfold first at h
  -- one case per row of the table
  simp only [ite_eq_iff, reduceCtorEq, Lead.multi.injEq, false_and, and_false, false_or, or_false,
    and_or_left, or_assoc, uint8_lt_iff, uint8_eq_iff, toNat_ofNat_uint8, Nat.reduceMod] at h
  rcases h with h | h | h | h | h | h | h <;> constructor <;> intro hb <;> omega

theorem first_eq_invalid {p0 : UInt8} (h : first p0 = .invalid) :
    0x80 ≤ p0.toNat ∧ p0.toNat < 0xC2 ∨ 0xF4 < p0.toNat := by
  unfold first at h
  simp only [ite_eq_iff, reduceCtorEq, false_and, and_false, false_or, or_false, and_true,
    and_or_left, or_assoc, uint8_lt_iff, uint8_eq_iff, toNat_ofNat_uint8, Nat.reduceMod] at h
  omega

/-- Every byte from `C2` to `F4` leads a multi-byte sequence. -/
theorem first_of_lead {p0 : UInt8} (h1 : 0xC2 ≤ p0.toNat) (h2 : p0.toNat ≤ 0xF4) :
    ∃ sz lo hi, first p0 = .multi sz lo hi := by
  cases hf : first p0 with
  | ascii => have := first_eq_ascii hf; omega
  | invalid => have := first_eq_invalid hf; omega
  | multi sz lo hi => exact ⟨sz, lo, hi, rfl⟩

/-! ## §3 — One decode of each width -/

theorem decodeRune_ascii {c : UInt8} (h : c < 0x80) (rest : Bytes) :
    decodeRune (c :: rest) = (c.toNat, 1) := by
  rw [decodeRune, first, if_pos h]

theorem decodeRune_two {p0 b1 lo hi : UInt8} (rest : Bytes) (hf : first p0 = .multi 2 lo hi)
    (h1 : lo.toNat ≤ b1.toNat ∧ b1.toNat ≤ hi.toNat) :
    decodeRune (p0 :: b1 :: rest) = (p0.toNat % 0x20 * 0x40 + b1.toNat % 0x40, 2) := by
  simp only [decodeRune, hf, List.length_cons, uint8_lt_iff]
  rw [if_neg (by omega), if_neg (by omega), if_pos (Nat.le_refl 2)]

theorem decodeRune_three {p0 b1 b2 lo hi : UInt8} (rest : Bytes)
    (hf : first p0 = .multi 3 lo hi) (h1 : lo.toNat ≤ b1.toNat ∧ b1.toNat ≤ hi.toNat)
    (h2 : ¬badCont b2) :
    decodeRune (p0 :: b1 :: b2 :: rest) =
      (p0.toNat % 0x10 * 0x1000 + b1.toNat % 0x40 * 0x40 + b2.toNat % 0x40, 3) := by
  simp only [decodeRune, hf, List.length_cons, uint8_lt_iff]
  rw [if_neg (by omega), if_neg (by omega), if_neg (by omega), if_neg h2, if_pos (Nat.le_refl 3)]

theorem decodeRune_four {p0 b1 b2 b3 lo hi : UInt8} (rest : Bytes)
    (hf : first p0 = .multi 4 lo hi) (h1 : lo.toNat ≤ b1.toNat ∧ b1.toNat ≤ hi.toNat)
    (h2 : ¬badCont b2) (h3 : ¬badCont b3) :
    decodeRune (p0 :: b1 :: b2 :: b3 :: rest) =
      (p0.toNat % 0x08 * 0x40000 + b1.toNat % 0x40 * 0x1000 + b2.toNat % 0x40 * 0x40 +
        b3.toNat % 0x40, 4) := by
  simp only [decodeRune, hf, List.length_cons, uint8_lt_iff]
  rw [if_neg (by omega), if_neg (by omega), if_neg (by omega), if_neg h2, if_neg (by omega),
    if_neg h3]

theorem toNat_byte {k x : Nat} (h : k + x < 256) : (k + x).toUInt8.toNat = k + x :=
  Nat.mod_eq_of_lt h

theorem cont_mod {x : Nat} (h : x < 0x40) : (0x80 + x) % 0x40 = x := by omega

theorem not_badCont {x : Nat} (h : x < 0x40) : ¬badCont (0x80 + x).toUInt8 := by
  simp only [badCont, uint8_lt_iff, toNat_byte (show 0x80 + x < 256 by omega), toNat_ofNat_uint8,
    Nat.reduceMod]
  omega

/-- A continuation byte is `0x80` and its low six bits. -/
theorem toUInt8_cont {b : UInt8} (h1 : 0x80 ≤ b.toNat) (h2 : b.toNat ≤ 0xBF) :
    (0x80 + b.toNat % 0x40).toUInt8 = b := by
  rw [uint8_eq_iff, toNat_toUInt8]; omega

theorem cont_of_not_badCont {b : UInt8} (h : ¬badCont b) : 0x80 ≤ b.toNat ∧ b.toNat ≤ 0xBF := by
  simpa only [badCont, uint8_lt_iff, toNat_ofNat_uint8, Nat.reduceMod, not_or, not_lt] using h

theorem decodeRune_encode_two {a d : Nat} (ha : 2 ≤ a) (ha' : a < 0x20) (hd : d < 0x40)
    (rest : Bytes) :
    decodeRune ((0xC0 + a).toUInt8 :: (0x80 + d).toUInt8 :: rest) = (a * 0x40 + d, 2) := by
  have h0 : (0xC0 + a).toUInt8.toNat = 0xC0 + a := toNat_byte (by omega)
  have h1 : (0x80 + d).toUInt8.toNat = 0x80 + d := toNat_byte (by omega)
  obtain ⟨sz, lo, hi, hf⟩ := first_of_lead (by omega : 0xC2 ≤ (0xC0 + a).toUInt8.toNat) (by omega)
  obtain rfl : sz = 2 := by have := first_eq_multi hf; omega
  rw [decodeRune_two rest hf ((first_accept_iff hf _).2 ⟨by omega, by omega, by omega, by omega,
    by omega, by omega⟩), h0, h1, cont_mod hd, show (0xC0 + a) % 0x20 = a by omega]

theorem decodeRune_encode_three {a c d : Nat} (ha : a < 0x10) (hc : c < 0x40) (hd : d < 0x40)
    (hlo : a = 0 → 0x20 ≤ c) (hs : a = 0xD → c < 0x20) (rest : Bytes) :
    decodeRune ((0xE0 + a).toUInt8 :: (0x80 + c).toUInt8 :: (0x80 + d).toUInt8 :: rest) =
      (a * 0x1000 + c * 0x40 + d, 3) := by
  have h0 : (0xE0 + a).toUInt8.toNat = 0xE0 + a := toNat_byte (by omega)
  have h1 : (0x80 + c).toUInt8.toNat = 0x80 + c := toNat_byte (by omega)
  obtain ⟨sz, lo, hi, hf⟩ := first_of_lead (by omega : 0xC2 ≤ (0xE0 + a).toUInt8.toNat) (by omega)
  obtain rfl : sz = 3 := by have := first_eq_multi hf; omega
  -- the second byte carries the range checks: not overlong after `E0`, no surrogate after `ED`
  have hacc := (first_accept_iff hf (0x80 + c)).2 ⟨by omega, by omega, by omega, by omega,
    by omega, by omega⟩
  rw [← h1] at hacc
  rw [decodeRune_three rest hf hacc (not_badCont hd), h0, h1,
    toNat_byte (show 0x80 + d < 256 by omega), cont_mod hc, cont_mod hd,
    show (0xE0 + a) % 0x10 = a by omega]

theorem decodeRune_encode_four {a b c d : Nat} (ha : a ≤ 4) (hb : b < 0x40) (hc : c < 0x40)
    (hd : d < 0x40) (hlo : a = 0 → 0x10 ≤ b) (hhi : a = 4 → b < 0x10) (rest : Bytes) :
    decodeRune ((0xF0 + a).toUInt8 :: (0x80 + b).toUInt8 :: (0x80 + c).toUInt8 ::
      (0x80 + d).toUInt8 :: rest) = (a * 0x40000 + b * 0x1000 + c * 0x40 + d, 4) := by
  have h0 : (0xF0 + a).toUInt8.toNat = 0xF0 + a := toNat_byte (by omega)
  have h1 : (0x80 + b).toUInt8.toNat = 0x80 + b := toNat_byte (by omega)
  obtain ⟨sz, lo, hi, hf⟩ := first_of_lead (by omega : 0xC2 ≤ (0xF0 + a).toUInt8.toNat) (by omega)
  obtain rfl : sz = 4 := by have := first_eq_multi hf; omega
  -- not overlong after `F0`, not past `MaxRune` after `F4`
  have hacc := (first_accept_iff hf (0x80 + b)).2 ⟨by omega, by omega, by omega, by omega,
    by omega, by omega⟩
  rw [← h1] at hacc
  rw [decodeRune_four rest hf hacc (not_badCont hc) (not_badCont hd), h0, h1,
    toNat_byte (show 0x80 + c < 256 by omega), toNat_byte (show 0x80 + d < 256 by omega),
    cont_mod hb, cont_mod hc, cont_mod hd, show (0xF0 + a) % 0x08 = a by omega]

/-! ## §4 — The round trip -/

/-- **`DecodeRune` reads back what `EncodeRune` writes**: on the encoding of a valid rune followed
by anything, it returns the rune and the encoding's width. -/
theorem decodeRune_encodeRune {r : Nat} (hr : validRune r = true) (rest : Bytes) :
    decodeRune (encodeRune r ++ rest) = (r, (encodeRune r).length) := by
  rcases encodeRune_cases hr with ⟨h1, he⟩ | ⟨a, d, rfl, ha, ha', hd, he⟩ |
      ⟨a, c, d, rfl, ha, hc, hd, hlo, hs, he⟩ | ⟨a, b, c, d, rfl, ha, hb, hc, hd, hlo, hhi, he⟩ <;>
    rw [he] <;> simp only [List.cons_append, List.nil_append, List.length_cons, List.length_nil]
  · rw [decodeRune_ascii (show r.toUInt8.toNat < 0x80 by rw [toNat_toUInt8]; omega),
      toNat_toUInt8, Nat.mod_eq_of_lt (by omega)]
  · exact decodeRune_encode_two ha ha' hd rest
  · exact decodeRune_encode_three ha hc hd hlo hs rest
  · exact decodeRune_encode_four ha hb hc hd hlo hhi rest

/-- A reader at the start of a nonempty string reads what `DecodeRune` decodes there: its ASCII
shortcut agrees with the decoder. -/
theorem readRune_cons (c : UInt8) (rest : Bytes) :
    readRune (c :: rest) 0 = some (decodeRune (c :: rest)) := by
  simp only [readRune, List.drop_zero]
  split_ifs with h
  · rw [decodeRune_ascii h]
  · rfl

theorem readRune_encodeRune {r : Nat} (hr : validRune r = true) (rest : Bytes) :
    readRune (encodeRune r ++ rest) 0 = some (r, (encodeRune r).length) := by
  obtain ⟨c, bs, he⟩ := List.exists_cons_of_length_pos (length_encodeRune hr).1
  rw [← decodeRune_encodeRune hr rest, he, List.cons_append, readRune_cons]

/-- **A string of valid runes, written by Go, reads back as those runes.** -/
theorem decodeRunes_flatMap_encodeRune :
    ∀ {rs : List Nat}, (∀ r ∈ rs, validRune r = true) → decodeRunes (rs.flatMap encodeRune) = rs
  | [], _ => decodeRunes_nil
  | r :: rs, h => by
    have hr := h r (List.mem_cons_self r rs)
    rw [List.flatMap_cons, decodeRunes_of_readRune (readRune_encodeRune hr _), List.drop_left,
      decodeRunes_flatMap_encodeRune fun r' hr' => h r' (List.mem_cons_of_mem r hr')]

/-- The encoding of a string of valid runes has a byte per rune and more, and exactly one byte per
rune when every rune is ASCII. -/
theorem length_flatMap_encodeRune :
    ∀ {rs : List Nat}, (∀ r ∈ rs, validRune r = true) →
      rs.length ≤ (rs.flatMap encodeRune).length ∧
        ((rs.flatMap encodeRune).length = rs.length ↔ ∀ r ∈ rs, r < 0x80)
  | [], _ => by simp
  | r :: rs, h => by
    obtain ⟨h1, h1'⟩ := length_encodeRune (h r (List.mem_cons_self r rs))
    obtain ⟨ih, ih'⟩ := length_flatMap_encodeRune fun r' hr' => h r' (List.mem_cons_of_mem r hr')
    simp only [List.flatMap_cons, List.length_append, List.length_cons, List.forall_mem_cons]
    refine ⟨by omega, ⟨fun heq => ⟨h1'.1 (by omega), ih'.1 (by omega)⟩, ?_⟩⟩
    rintro ⟨hr, hrs⟩
    rw [h1'.2 hr, ih'.2 hrs, Nat.add_comm]

/-! ## §5 — The converse: what `DecodeRune` reads is an encoding -/

/-- What a decode other than `(RuneError, 1)` has read. -/
theorem decodeRune_ne_error {p0 : UInt8} {p : Bytes} (h : decodeRune (p0 :: p) ≠ (runeError, 1)) :
    p0 < 0x80 ∨
    (∃ lo hi b1 rest, first p0 = .multi 2 lo hi ∧ p = b1 :: rest ∧
      lo.toNat ≤ b1.toNat ∧ b1.toNat ≤ hi.toNat) ∨
    (∃ lo hi b1 b2 rest, first p0 = .multi 3 lo hi ∧ p = b1 :: b2 :: rest ∧
      (lo.toNat ≤ b1.toNat ∧ b1.toNat ≤ hi.toNat) ∧ ¬badCont b2) ∨
    (∃ lo hi b1 b2 b3 rest, first p0 = .multi 4 lo hi ∧ p = b1 :: b2 :: b3 :: rest ∧
      (lo.toNat ≤ b1.toNat ∧ b1.toNat ≤ hi.toNat) ∧ ¬badCont b2 ∧ ¬badCont b3) := by
  rw [decodeRune] at h
  split at h
  · rename_i hf; exact .inl (first_eq_ascii hf)
  · exact absurd rfl h
  rename_i sz lo hi hf
  have hsz := first_eq_multi hf
  by_cases hlen : p.length + 1 < sz
  · rw [if_pos hlen] at h; exact absurd rfl h
  rw [if_neg hlen] at h
  match p, hlen, h with
  | [], _, h => exact absurd rfl h
  | b1 :: rest, hlen, h =>
    simp only at h
    by_cases hb1 : b1 < lo ∨ hi < b1
    · rw [if_pos hb1] at h; exact absurd rfl h
    rw [if_neg hb1] at h
    simp only [uint8_lt_iff, not_or, not_lt] at hb1
    by_cases hs2 : sz ≤ 2
    · obtain rfl : sz = 2 := by omega
      exact .inr (.inl ⟨lo, hi, b1, rest, hf, rfl, hb1⟩)
    rw [if_neg hs2] at h
    match rest, hlen, h with
    | [], _, h => exact absurd rfl h
    | b2 :: rest, hlen, h =>
      simp only at h
      by_cases hb2 : badCont b2
      · rw [if_pos hb2] at h; exact absurd rfl h
      rw [if_neg hb2] at h
      by_cases hs3 : sz ≤ 3
      · obtain rfl : sz = 3 := by omega
        exact .inr (.inr (.inl ⟨lo, hi, b1, b2, rest, hf, rfl, hb1, hb2⟩))
      rw [if_neg hs3] at h
      match rest, hlen, h with
      | [], _, h => exact absurd rfl h
      | b3 :: rest, hlen, h =>
        simp only at h
        by_cases hb3 : badCont b3
        · rw [if_pos hb3] at h; exact absurd rfl h
        obtain rfl : sz = 4 := by omega
        exact .inr (.inr (.inr ⟨lo, hi, b1, b2, b3, rest, hf, rfl, hb1, hb2, hb3⟩))

/-- The bytes a decode of each width accepted are the encoding of the rune it returns. -/
theorem encodeRune_of_two {p0 b1 lo hi : UInt8} (hf : first p0 = .multi 2 lo hi)
    (h1 : lo.toNat ≤ b1.toNat ∧ b1.toNat ≤ hi.toNat) :
    validRune (p0.toNat % 0x20 * 0x40 + b1.toNat % 0x40) = true ∧
      encodeRune (p0.toNat % 0x20 * 0x40 + b1.toNat % 0x40) = [p0, b1] := by
  obtain ⟨hb, hb', -⟩ := (first_accept_iff hf _).1 h1
  have h0 : 0xC2 ≤ p0.toNat ∧ p0.toNat < 0xE0 := by have := first_eq_multi hf; omega
  have e0 : (0xC0 + p0.toNat % 0x20).toUInt8 = p0 := by rw [uint8_eq_iff, toNat_toUInt8]; omega
  have := encodeRune_two_digits (by omega : 2 ≤ p0.toNat % 0x20) (Nat.mod_lt _ (by decide))
    (Nat.mod_lt b1.toNat (by decide : 0 < 0x40))
  rwa [e0, toUInt8_cont hb hb'] at this

theorem encodeRune_of_three {p0 b1 b2 lo hi : UInt8} (hf : first p0 = .multi 3 lo hi)
    (h1 : lo.toNat ≤ b1.toNat ∧ b1.toNat ≤ hi.toNat) (h2 : ¬badCont b2) :
    validRune (p0.toNat % 0x10 * 0x1000 + b1.toNat % 0x40 * 0x40 + b2.toNat % 0x40) = true ∧
      encodeRune (p0.toNat % 0x10 * 0x1000 + b1.toNat % 0x40 * 0x40 + b2.toNat % 0x40) =
        [p0, b1, b2] := by
  obtain ⟨hb, hb', he0, hed, -, -⟩ := (first_accept_iff hf _).1 h1
  obtain ⟨hc, hc'⟩ := cont_of_not_badCont h2
  have h0 : 0xE0 ≤ p0.toNat ∧ p0.toNat < 0xF0 := by have := first_eq_multi hf; omega
  have e0 : (0xE0 + p0.toNat % 0x10).toUInt8 = p0 := by rw [uint8_eq_iff, toNat_toUInt8]; omega
  have := encodeRune_three_digits (Nat.mod_lt p0.toNat (by decide : 0 < 0x10))
    (Nat.mod_lt b1.toNat (by decide : 0 < 0x40)) (Nat.mod_lt b2.toNat (by decide : 0 < 0x40))
    (by omega) (by omega)
  rwa [e0, toUInt8_cont hb hb', toUInt8_cont hc hc'] at this

theorem encodeRune_of_four {p0 b1 b2 b3 lo hi : UInt8} (hf : first p0 = .multi 4 lo hi)
    (h1 : lo.toNat ≤ b1.toNat ∧ b1.toNat ≤ hi.toNat) (h2 : ¬badCont b2) (h3 : ¬badCont b3) :
    validRune (p0.toNat % 0x08 * 0x40000 + b1.toNat % 0x40 * 0x1000 + b2.toNat % 0x40 * 0x40 +
        b3.toNat % 0x40) = true ∧
      encodeRune (p0.toNat % 0x08 * 0x40000 + b1.toNat % 0x40 * 0x1000 + b2.toNat % 0x40 * 0x40 +
        b3.toNat % 0x40) = [p0, b1, b2, b3] := by
  obtain ⟨hb, hb', -, -, hf0, hf4⟩ := (first_accept_iff hf _).1 h1
  obtain ⟨hc, hc'⟩ := cont_of_not_badCont h2
  obtain ⟨hd, hd'⟩ := cont_of_not_badCont h3
  have h0 : 0xF0 ≤ p0.toNat ∧ p0.toNat ≤ 0xF4 := by have := first_eq_multi hf; omega
  have e0 : (0xF0 + p0.toNat % 0x08).toUInt8 = p0 := by rw [uint8_eq_iff, toNat_toUInt8]; omega
  have := encodeRune_four_digits (by omega : p0.toNat % 0x08 ≤ 4)
    (Nat.mod_lt b1.toNat (by decide : 0 < 0x40)) (Nat.mod_lt b2.toNat (by decide : 0 < 0x40))
    (Nat.mod_lt b3.toNat (by decide : 0 < 0x40)) (by omega) (by omega)
  rwa [e0, toUInt8_cont hb hb', toUInt8_cont hc hc', toUInt8_cont hd hd'] at this

/-- **What one decode reads**: `RuneError` for one byte, or a valid rune whose encoding starts
the string, for as many bytes as that encoding has. -/
theorem decodeRune_cases (p0 : UInt8) (p : Bytes) :
    decodeRune (p0 :: p) = (runeError, 1) ∨
      ∃ r t, validRune r = true ∧ p0 :: p = encodeRune r ++ t ∧
        decodeRune (p0 :: p) = (r, (encodeRune r).length) := by
  by_cases h : decodeRune (p0 :: p) = (runeError, 1)
  · exact .inl h
  right
  rcases decodeRune_ne_error h with h0 | ⟨lo, hi, b1, rest, hf, rfl, h1⟩ |
      ⟨lo, hi, b1, b2, rest, hf, rfl, h1, h2⟩ | ⟨lo, hi, b1, b2, b3, rest, hf, rfl, h1, h2, h3⟩
  · have h0' : p0.toNat < 0x80 := h0
    have he : encodeRune p0.toNat = [p0] := by
      rw [encodeRune, if_pos h0', List.cons.injEq, uint8_eq_iff, toNat_toUInt8,
        Nat.mod_eq_of_lt (by omega)]
      exact ⟨rfl, rfl⟩
    exact ⟨p0.toNat, p, (validRune_iff _).2 (.inl (by omega)), by rw [he]; rfl,
      by rw [decodeRune_ascii h0, he]; rfl⟩
  · obtain ⟨hv, he⟩ := encodeRune_of_two hf h1
    exact ⟨_, rest, hv, by rw [he]; rfl, by rw [decodeRune_two rest hf h1, he]; rfl⟩
  · obtain ⟨hv, he⟩ := encodeRune_of_three hf h1 h2
    exact ⟨_, rest, hv, by rw [he]; rfl, by rw [decodeRune_three rest hf h1 h2, he]; rfl⟩
  · obtain ⟨hv, he⟩ := encodeRune_of_four hf h1 h2 h3
    exact ⟨_, rest, hv, by rw [he]; rfl, by rw [decodeRune_four rest hf h1 h2 h3, he]; rfl⟩

/-- **`DecodeRune` fails exactly where no valid rune's encoding begins**: it reports
`(RuneError, 1)` on a string that starts with no such encoding, and on no other. -/
theorem decodeRune_eq_error_iff (p0 : UInt8) (p : Bytes) :
    decodeRune (p0 :: p) = (runeError, 1) ↔
      ∀ r t, validRune r = true → p0 :: p ≠ encodeRune r ++ t := by
  constructor
  · intro he r t hr heq
    have hd := decodeRune_encodeRune hr t
    rw [← heq, he, Prod.mk.injEq] at hd
    -- a one-byte encoding is ASCII, and `RuneError` is not
    have hascii := (length_encodeRune hr).2.1 hd.2.symm
    rw [← hd.1] at hascii
    exact absurd hascii (by decide)
  · intro hno
    rcases decodeRune_cases p0 p with he | ⟨r, t, hr, heq, -⟩
    · exact he
    · exact absurd heq (hno r t hr)

/-- How a run of `DecodeRune` cuts a byte string, RFC 3629's way: each piece is the encoding of a
valid rune, read as that rune, or a single byte at which no such encoding begins, read as
`RuneError`. -/
inductive Pieces : Bytes → List Nat → Prop
  | nil : Pieces [] []
  | rune {r : Nat} {s : Bytes} {rs : List Nat} :
      validRune r = true → Pieces s rs → Pieces (encodeRune r ++ s) (r :: rs)
  | error {b : UInt8} {s : Bytes} {rs : List Nat} :
      (∀ r t, validRune r = true → b :: s ≠ encodeRune r ++ t) → Pieces s rs →
        Pieces (b :: s) (runeError :: rs)

/-- A reader yields the runes of such a cut, for every byte string. -/
theorem decodeRunes_pieces (s : Bytes) : Pieces s (decodeRunes s) := by
  induction s using decodeRunes.induct with
  | case1 s h =>
    rw [List.eq_nil_of_length_eq_zero (Nat.le_zero.1 (readRune_eq_none.1 h)), decodeRunes_nil]
    exact .nil
  | case2 s r n h ih =>
    rw [decodeRunes_of_readRune h]
    match s, h, ih with
    | [], h, _ =>
      exact absurd (readRune_eq_none.2 (Nat.le_refl 0)) (by rw [h]; exact Option.some_ne_none _)
    | c :: p, h, ih =>
      rw [readRune_cons, Option.some.injEq] at h
      rcases decodeRune_cases c p with he | ⟨r', t, hv, hs, he⟩
      · obtain ⟨rfl, rfl⟩ := Prod.mk.inj (he.symm.trans h)
        exact .error ((decodeRune_eq_error_iff c p).1 he) ih
      · obtain ⟨rfl, rfl⟩ := Prod.mk.inj (he.symm.trans h)
        rw [hs, List.drop_left] at ih ⊢
        exact .rune hv ih

/-- The runes of a cut are what a reader yields. -/
theorem decodeRunes_of_pieces {s : Bytes} {rs : List Nat} (h : Pieces s rs) : decodeRunes s = rs := by
  induction h with
  | nil => exact decodeRunes_nil
  | rune hr _ ih => rw [decodeRunes_of_readRune (readRune_encodeRune hr _), List.drop_left, ih]
  | @error b s _ hno _ ih =>
    have he := (decodeRune_eq_error_iff b s).2 hno
    rw [decodeRunes_of_readRune (by rw [readRune_cons, he]), List.drop_one, List.tail_cons, ih]

/-- **The reader decodes greedily, one `RuneError` per byte it cannot read.** For every byte
string, the runes a `bytes.Reader` yields until `io.EOF` are exactly those of its cut into
encodings of valid runes and single bytes at which no such encoding begins: the decoder's tables
implement RFC 3629, with no other outcome. -/
theorem decodeRunes_eq_iff_pieces (s : Bytes) (rs : List Nat) : decodeRunes s = rs ↔ Pieces s rs :=
  ⟨fun h => h ▸ decodeRunes_pieces s, decodeRunes_of_pieces⟩

end Pgstream.Go
