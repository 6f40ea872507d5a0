/-
# Pgstream.Go.Utf8 — `utf8.DecodeRune` and `(*bytes.Reader).ReadRune`

The scrambler reads its input rune by rune through a `bytes.Reader`. `ReadRune` returns an
ASCII byte as itself, and otherwise calls `utf8.DecodeRune`, which reads the lead byte's class
from the `first` table and checks each continuation byte against the class's accept range.
Every malformed sequence (a byte that cannot lead, a missing or out-of-range continuation,
a truncated tail) decodes as `RuneError` of width one, so the reader always advances.

`decodeRunes` is the rune sequence a reader yields until `io.EOF`. The results here are the
facts the scrambler's proofs need: a read advances by one to four bytes and never past the
end, so a string has at most as many runes as bytes; and an ASCII string decodes to its bytes.
-/
import Pgstream.Go.Bytes

namespace Pgstream.Go

/-- `utf8.RuneError`, U+FFFD. -/
def runeError : Nat := 0xFFFD

/-- The class `utf8`'s `first` table gives a byte: ASCII (`as`), never a lead byte (`xx`), or
the lead of a `size`-byte sequence whose second byte must lie in `[lo, hi]`. -/
inductive Lead where
  | ascii
  | invalid
  | multi (size : Nat) (lo hi : UInt8)

/-- `first[p0]` with `acceptRanges` folded in, range by range as the table is written. -/
def first (p0 : UInt8) : Lead :=
  if p0 < 0x80 then .ascii
  else if p0 < 0xC2 then .invalid
  else if p0 < 0xE0 then .multi 2 0x80 0xBF
  else if p0 = 0xE0 then .multi 3 0xA0 0xBF
  else if p0 = 0xED then .multi 3 0x80 0x9F
  else if p0 < 0xF0 then .multi 3 0x80 0xBF
  else if p0 = 0xF0 then .multi 4 0x90 0xBF
  else if p0 < 0xF4 then .multi 4 0x80 0xBF
  else if p0 = 0xF4 then .multi 4 0x80 0x8F
  else .invalid

theorem uint8_lt_iff (a b : UInt8) : a < b ↔ a.toNat < b.toNat := Iff.rfl

theorem uint8_eq_iff (a b : UInt8) : a = b ↔ a.toNat = b.toNat := ⟨congrArg _, UInt8.toNat.inj⟩

theorem toNat_ofNat_uint8 (n : Nat) : (no_index (OfNat.ofNat n) : UInt8).toNat = n % 256 := rfl

theorem toNat_toUInt8 (r : Nat) : r.toUInt8.toNat = r % 256 := rfl

theorem first_eq_ascii {p0 : UInt8} (h : first p0 = .ascii) : p0.toNat < 0x80 := by
  unfold first at h
  simp only [ite_eq_iff, reduceCtorEq, and_false, or_false, and_true] at h
  exact h

/-- The lead bytes of multi-byte sequences, by size. After `E0` and `F0` the second byte's range
is `[A0, BF]` and `[90, BF]`, where the code point would otherwise be overlong. -/
theorem first_eq_multi {p0 : UInt8} {sz : Nat} {lo hi : UInt8} (h : first p0 = .multi sz lo hi) :
    (sz = 2 ∧ 0xC2 ≤ p0.toNat ∧ p0.toNat < 0xE0) ∨
    (sz = 3 ∧ 0xE0 ≤ p0.toNat ∧ p0.toNat < 0xF0 ∧
      (p0.toNat = 0xE0 → lo.toNat = 0xA0 ∧ hi.toNat = 0xBF)) ∨
    (sz = 4 ∧ 0xF0 ≤ p0.toNat ∧ p0.toNat ≤ 0xF4 ∧
      (p0.toNat = 0xF0 → lo.toNat = 0x90 ∧ hi.toNat = 0xBF)) := by
  unfold first at h
  -- one disjunct per row of the table
  simp only [ite_eq_iff, reduceCtorEq, Lead.multi.injEq, false_and, and_false, false_or, or_false,
    and_or_left, or_assoc, uint8_lt_iff, uint8_eq_iff, toNat_ofNat_uint8, Nat.reduceMod] at h
  rcases h with h | h | h | h | h | h | h <;> omega

/-- A continuation byte outside `[locb, hicb] = [0x80, 0xBF]`. -/
def badCont (b : UInt8) : Prop := b < 0x80 ∨ 0xBF < b

instance : DecidablePred badCont := fun b => inferInstanceAs (Decidable (b < 0x80 ∨ 0xBF < b))

/-- `utf8.DecodeRune(p)`: the first rune of `p` and its width, `(RuneError, 1)` for an invalid
encoding and `(RuneError, 0)` for empty `p`. The length test comes first, as in the source, so
the continuation bytes it then reads are there. -/
def decodeRune : Bytes → Nat × Nat
  | [] => (runeError, 0)
  | p0 :: p =>
    match first p0 with
    | .ascii => (p0.toNat, 1)
    | .invalid => (runeError, 1)
    | .multi sz lo hi =>
      if p.length + 1 < sz then (runeError, 1) else
      match p with
      | b1 :: p =>
        if b1 < lo ∨ hi < b1 then (runeError, 1)
        else if sz ≤ 2 then (p0.toNat % 0x20 * 0x40 + b1.toNat % 0x40, 2)
        else match p with
          | b2 :: p =>
            if badCont b2 then (runeError, 1)
            else if sz ≤ 3 then
              (p0.toNat % 0x10 * 0x1000 + b1.toNat % 0x40 * 0x40 + b2.toNat % 0x40, 3)
            else match p with
              | b3 :: _ =>
                if badCont b3 then (runeError, 1)
                else (p0.toNat % 0x08 * 0x40000 + b1.toNat % 0x40 * 0x1000
                  + b2.toNat % 0x40 * 0x40 + b3.toNat % 0x40, 4)
              | [] => (runeError, 1)
          | [] => (runeError, 1)
      | [] => (runeError, 1)

/-- **What one decode gives.** On a nonempty string the width is at least one and at most the
string's length; and after a lead byte of `0x80` or more the rune is `RuneError` or at least
`0x80`: there are no overlong forms, so only an ASCII byte decodes to an ASCII rune. -/
theorem decodeRune_spec (p0 : UInt8) (p : Bytes) :
    1 ≤ (decodeRune (p0 :: p)).2 ∧ (decodeRune (p0 :: p)).2 ≤ p.length + 1 ∧
      (0x80 ≤ p0.toNat → 0x80 ≤ (decodeRune (p0 :: p)).1) := by
  generalize hd : decodeRune (p0 :: p) = d
  rw [decodeRune] at hd
  split at hd
  · rename_i hf; have := first_eq_ascii hf; subst hd; simp only; omega
  · subst hd; simp only [runeError]; omega
  · rename_i sz lo hi hf
    have hinv := first_eq_multi hf
    -- one case per number of bytes after the lead; every check of the source is then a
    -- disjunct of `hd`, and the lead byte's class bounds the rune
    rcases p with _ | ⟨b1, _ | ⟨b2, _ | ⟨b3, p⟩⟩⟩ <;>
      simp only [ite_eq_iff, Prod.ext_iff, runeError, badCont, List.length_cons, List.length_nil,
        uint8_lt_iff, toNat_ofNat_uint8, Nat.reduceMod, and_or_left, or_assoc] at hd ⊢ <;>
      omega

/-- `(*bytes.Reader).ReadRune` on a reader over `s` at offset `pos`: `none` for `io.EOF`,
otherwise the rune and its width. ASCII is read before `utf8.DecodeRune` is called. -/
def readRune (s : Bytes) (pos : Nat) : Option (Nat × Nat) :=
  match s.drop pos with
  | [] => none
  | c :: rest => if c < 0x80 then some (c.toNat, 1) else some (decodeRune (c :: rest))

/-- A read looks only at the bytes from the offset on. -/
theorem readRune_eq_drop (s : Bytes) (pos : Nat) : readRune s pos = readRune (s.drop pos) 0 := by
  simp [readRune]

theorem readRune_eq_none {s : Bytes} {pos : Nat} : readRune s pos = none ↔ s.length ≤ pos := by
  unfold readRune
  split <;> simp_all [← List.drop_eq_nil_iff]
  split <;> simp

/-- **A read advances and stays in the string.** -/
theorem readRune_width {s : Bytes} {pos r n : Nat} (h : readRune s pos = some (r, n)) :
    1 ≤ n ∧ pos + n ≤ s.length := by
  unfold readRune at h
  split at h
  · simp at h
  · rename_i c rest hd
    have hlen : (s.drop pos).length = rest.length + 1 := by simp [hd]
    obtain ⟨hw1, hw2, -⟩ := decodeRune_spec c rest
    simp only [List.length_drop] at hlen
    split at h
    · simp only [Option.some.injEq, Prod.mk.injEq] at h
      omega
    · rw [Option.some.injEq] at h
      rw [h] at hw1 hw2
      omega

/-- **Only an ASCII byte reads as an ASCII rune**, of width one. -/
theorem readRune_ascii {s : Bytes} {r n : Nat} (h : readRune s 0 = some (r, n)) (hr : r < 0x80) :
    ∃ c rest, s = c :: rest ∧ r = c.toNat ∧ n = 1 := by
  match s, h with
  | c :: rest, h =>
    simp only [readRune, List.drop_zero] at h
    split at h
    · simp only [Option.some.injEq, Prod.mk.injEq] at h
      exact ⟨c, rest, rfl, h.1.symm, h.2.symm⟩
    · rename_i hc
      have := (decodeRune_spec c rest).2.2 (Nat.le_of_not_lt hc)
      rw [Option.some.injEq] at h
      rw [h] at this
      omega

/-- The runes a `bytes.Reader` over `s` yields until `io.EOF`. -/
def decodeRunes (s : Bytes) : List Nat :=
  match _h : readRune s 0 with
  | none => []
  | some (r, n) => r :: decodeRunes (s.drop n)
termination_by s.length
decreasing_by have := readRune_width _h; simp; omega

theorem decodeRunes_of_readRune {s : Bytes} {r n : Nat} (h : readRune s 0 = some (r, n)) :
    decodeRunes s = r :: decodeRunes (s.drop n) := by
  rw [decodeRunes]
  split <;> simp_all

@[simp] theorem decodeRunes_nil : decodeRunes [] = [] := by
  rw [decodeRunes]
  split <;> simp_all [readRune]

/-- **At most one rune per byte.** -/
theorem length_decodeRunes_le (s : Bytes) : (decodeRunes s).length ≤ s.length := by
  induction s using decodeRunes.induct with
  | case1 s h => simp [List.eq_nil_of_length_eq_zero (Nat.le_zero.1 (readRune_eq_none.1 h))]
  | case2 s r n h ih =>
    have := readRune_width h
    rw [decodeRunes_of_readRune h]
    simp only [List.length_cons, List.length_drop] at ih ⊢
    omega

/-- **ASCII decodes to itself.** -/
theorem decodeRunes_of_ascii : ∀ {s : Bytes}, (∀ b ∈ s, b < 0x80) →
    decodeRunes s = s.map UInt8.toNat
  | [], _ => decodeRunes_nil
  | c :: s, h => by
    have hc : readRune (c :: s) 0 = some (c.toNat, 1) := by
      simp [readRune, h c (List.mem_cons_self c s)]
    rw [decodeRunes_of_readRune hc, List.drop_one, List.tail_cons,
      decodeRunes_of_ascii (fun b hb => h b (List.mem_cons_of_mem c hb)), List.map_cons]

/-- An ASCII rune of the decoding is a byte of the string. -/
theorem mem_of_mem_decodeRunes {s : Bytes} {c : UInt8} (hc : c.toNat < 0x80)
    (h : c.toNat ∈ decodeRunes s) : c ∈ s := by
  induction s using decodeRunes.induct with
  | case1 s hnone =>
    rw [List.eq_nil_of_length_eq_zero (Nat.le_zero.1 (readRune_eq_none.1 hnone)),
      decodeRunes_nil] at h
    cases h
  | case2 s r n hr ih =>
    rw [decodeRunes_of_readRune hr] at h
    rcases List.mem_cons.1 h with heq | hmem
    · obtain ⟨c', rest, rfl, hc', -⟩ := readRune_ascii hr (heq ▸ hc)
      rw [UInt8.toNat.inj (heq.trans hc')]
      exact List.mem_cons_self _ _
    · exact List.mem_of_mem_drop (ih hmem)

end Pgstream.Go
