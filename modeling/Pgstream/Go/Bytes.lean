/-
# Pgstream.Go.Bytes — Go byte strings and the library calls pgstream makes on them

A Go `string` or `[]byte` is a sequence of bytes with no promise of UTF-8, so the model reads
both as `Bytes := List UInt8`, and every result over them holds for malformed text too. The
definitions below are the standard-library calls the modelled code makes, each with the
one-byte separator or cutset the code passes:

* `strings.Split` / `bytes.Split` on one byte is `List.splitOn`, and `bytes.Join` is
  `List.intercalate` (no wrapper: the library lemmas apply as they stand);
* `strings.IndexByte` (also what `strings.Index`, `strings.IndexRune` and `bytes.IndexRune`
  reduce to for an ASCII needle) is `indexByte`, with `none` for Go's `-1`;
* `strings.Trim` with a one-byte cutset is `trim`;
* the builtin `copy` is `copy`, returning the new contents of its destination, and an element
  write `s[i] = b` is `List.set`;
* a `bufio.Scanner` split by `bufio.ScanLines` is `scanLines`: the tokens it yields, or
  `ErrTooLong` at the first line that does not fit in its buffer of `MaxScanTokenSize` (64 KiB)
  bytes. Whether a last line of exactly that size with no `\n` fits depends on how the reader
  hands out its last bytes, which is a parameter.

A Go function that returns a value and an `error` is modelled as `Except`, and a sequence of such
calls, each returning at the first error, as a chain of `Except.bind`; `bind_eq_ok` and
`bind_eq_error` say once how such a chain ends.
-/
import Mathlib.Data.List.Basic
import Mathlib.Data.List.DropRight

namespace Pgstream.Go

/-- A Go `string` or `[]byte`. -/
abbrev Bytes := List UInt8

/-- The byte of an ASCII character. -/
def ascii (c : Char) : UInt8 := c.toNat.toUInt8

/-- An ASCII string literal as the bytes Go stores for it. -/
def str (s : String) : Bytes := s.toList.map ascii

/-! ## Results with an error -/

section Except

variable {ε α β : Type} {x : Except ε α} {f : α → Except ε β}

/-- A call that succeeds passes its value on. -/
theorem ok_bind (a : α) : (Except.ok a : Except ε α).bind f = f a := rfl

theorem bind_eq_ok {b : β} : x.bind f = .ok b ↔ ∃ a, x = .ok a ∧ f a = .ok b := by
  cases x <;> simp [Except.bind]

theorem bind_eq_error {e : ε} :
    x.bind f = .error e ↔ x = .error e ∨ ∃ a, x = .ok a ∧ f a = .error e := by
  cases x <;> simp [Except.bind]

end Except

/-! ## `strings.IndexByte` -/

/-- `strings.IndexByte(s, c)`: the index of the first `c` in `s`, `none` for `-1`. -/
def indexByte : Bytes → UInt8 → Option Nat
  | [], _ => none
  | b :: s, c => if b = c then some 0 else (indexByte s c).map (· + 1)

theorem indexByte_eq_none {s : Bytes} {c : UInt8} : indexByte s c = none ↔ c ∉ s := by
  induction s with
  | nil => simp [indexByte]
  | cons b s ih =>
    by_cases h : b = c
    · simp [indexByte, h]
    · simp [indexByte, h, ih, Ne.symm h]

/-- The first `c` of `u ++ c :: p` is at `u.length` when `u` holds no `c`. -/
theorem indexByte_append_cons {u p : Bytes} {c : UInt8} (hu : c ∉ u) :
    indexByte (u ++ c :: p) c = some u.length := by
  induction u with
  | nil => simp [indexByte]
  | cons b u ih =>
    have hb : b ≠ c := fun h => hu (h ▸ List.mem_cons_self b u)
    simp [indexByte, hb, ih (fun h => hu (List.mem_cons_of_mem b h))]

/-- What a found index says: the string splits at its first `c`. -/
theorem indexByte_eq_some {s : Bytes} {c : UInt8} {k : Nat} (h : indexByte s c = some k) :
    s = s.take k ++ c :: s.drop (k + 1) ∧ c ∉ s.take k := by
  induction s generalizing k with
  | nil => simp [indexByte] at h
  | cons b s ih =>
    by_cases hb : b = c
    · simp only [indexByte, hb, if_true, Option.some.injEq] at h
      subst h hb
      simp
    · simp only [indexByte, hb, if_false, Option.map_eq_some'] at h
      obtain ⟨k, hk, rfl⟩ := h
      obtain ⟨h1, h2⟩ := ih hk
      exact ⟨by simpa using h1, by simp [hb, Ne.symm hb, h2]⟩

/-! ## `strings.Trim` with a one-byte cutset -/

/-- `strings.Trim(s, cutset)` for a one-byte ASCII cutset `c`: `trimRightByte(trimLeftByte(s,
c), c)`, every leading and every trailing `c` removed. -/
def trim (s : Bytes) (c : UInt8) : Bytes := (s.dropWhile (· == c)).rdropWhile (· == c)

/-- A string with no `c` at either end is its own trim. -/
theorem trim_eq_self {s : Bytes} {c : UInt8} (h1 : s.head? ≠ some c) (h2 : s.getLast? ≠ some c) :
    trim s c = s := by
  have hl : s.dropWhile (· == c) = s := by
    cases s with
    | nil => rfl
    | cons b s => simp_all [List.dropWhile_cons]
  rw [trim, hl, List.rdropWhile_eq_self_iff]
  intro hs
  simp_all [List.getLast?_eq_getLast s hs]

theorem trim_cons_self (s : Bytes) (c : UInt8) : trim (c :: s) c = trim s c := by
  simp [trim, List.dropWhile_cons]

theorem trim_append_self (s : Bytes) (c : UInt8) : trim (s ++ [c]) c = trim s c := by
  unfold trim
  rw [List.dropWhile_append]
  split
  · rename_i h
    simp only [List.isEmpty_iff] at h
    rw [h]
    simp [List.dropWhile_cons, List.rdropWhile_nil]
  · exact List.rdropWhile_concat_pos _ _ c (by simp)

/-- A trimmed string does not end with the cut byte. -/
theorem getLast?_trim_ne (s : Bytes) (c : UInt8) : (trim s c).getLast? ≠ some c := by
  intro h
  have hne : trim s c ≠ [] := fun h' => by simp [h'] at h
  have := List.rdropWhile_last_not _ _ hne
  rw [List.getLast?_eq_getLast _ hne, Option.some.injEq] at h
  exact this (by simpa using h)

/-- A trimmed string does not begin with the cut byte. -/
theorem head?_trim_ne (s : Bytes) (c : UInt8) : (trim s c).head? ≠ some c := by
  intro h
  obtain ⟨t, ht⟩ := List.rdropWhile_prefix (· == c) (s.dropWhile (· == c))
  have hd := List.head?_dropWhile_not (· == c) s
  rw [← ht, List.head?_append, show (List.rdropWhile _ _).head? = some c from h] at hd
  simp at hd

/-! ## `strings.Split` on one byte -/

/-- No part of `strings.Split(s, sep)` holds the separator. -/
theorem not_mem_of_mem_splitOn {c : UInt8} : ∀ {s l : Bytes}, l ∈ s.splitOn c → c ∉ l
  | [], l, h => by simp_all [List.splitOn_nil]
  | b :: s, l, h => by
    rw [List.splitOn, List.splitOnP_cons] at h
    obtain ⟨hd, tl, hs⟩ : ∃ hd tl, s.splitOnP (· == c) = hd :: tl :=
      List.exists_cons_of_ne_nil (List.splitOnP_ne_nil _ s)
    have ih : ∀ l ∈ hd :: tl, c ∉ l := fun l hl => not_mem_of_mem_splitOn (by
      rw [List.splitOn, hs]; exact hl)
    split at h
    · rcases List.mem_cons.1 h with rfl | h
      · simp
      · exact not_mem_of_mem_splitOn h
    · rename_i hb
      rw [hs] at h
      rcases List.mem_cons.1 h with rfl | h
      · simp only [List.mem_cons, not_or]
        exact ⟨fun hc => hb (by simp [hc]), ih hd (List.mem_cons_self _ _)⟩
      · exact ih l (List.mem_cons_of_mem _ h)

theorem splitOn_of_not_mem {s : Bytes} {c : UInt8} (h : c ∉ s) : s.splitOn c = [s] :=
  List.splitOnP_eq_single _ _ (fun x hx hc => h (by simpa [eq_of_beq hc] using hx))

theorem splitOn_append_cons {a b : Bytes} {c : UInt8} (ha : c ∉ a) (hb : c ∉ b) :
    (a ++ c :: b).splitOn c = [a, b] := by
  have := List.splitOn_intercalate [a, b] c (by simp [ha, hb]) (by simp)
  simpa [List.intercalate] using this

theorem eq_of_splitOn_eq_single {s a : Bytes} {c : UInt8} (h : s.splitOn c = [a]) : s = a := by
  have := List.intercalate_splitOn s c
  rw [h] at this
  simpa [List.intercalate] using this.symm

/-! ## The builtin `copy` -/

/-- `copy(dst, src)`: the first `min(len(dst), len(src))` bytes of `dst` are overwritten by
those of `src`. The value is the new contents of `dst`. -/
def copy (dst src : Bytes) : Bytes := src.take dst.length ++ dst.drop src.length

@[simp] theorem length_copy (dst src : Bytes) : (copy dst src).length = dst.length := by
  simp only [copy, List.length_append, List.length_take, List.length_drop]
  omega

theorem copy_of_length_le {dst src : Bytes} (h : src.length ≤ dst.length) :
    copy dst src = src ++ dst.drop src.length := by
  simp [copy, List.take_of_length_le h]

theorem copy_of_length_eq {dst src : Bytes} (h : src.length = dst.length) : copy dst src = src := by
  simp [copy_of_length_le h.le, h]

/-! ## Writing one element of a slice -/

/-- After `s[i] = b`, the slice `s[:i+1]` is `s[:i]` then `b`. -/
theorem take_succ_set {α : Type} {l : List α} {i : Nat} (b : α) (h : i < l.length) :
    (l.set i b).take (i + 1) = l.take i ++ [b] := by
  simp [List.set_eq_take_append_cons_drop, h, List.take_append_eq_append_take, Nat.succ_sub h.le,
    Nat.min_eq_left h.le]

/-! ## `bufio.Scanner` with `bufio.ScanLines` -/

/-- `dropCR(data)`: `data` without one final `\r`. -/
def dropCR (data : Bytes) : Bytes :=
  if data.getLast? = some 0x0D then data.dropLast else data

/-- `bufio.ScanLines(data, atEOF)` once the whole input has been read: `none` when no data is left,
otherwise how far to advance and the token, the text up to the first `\n` (or all of it) with
`dropCR` applied. A token found before the end of input is the same, as it ends at the first
`\n`. -/
def scanLinesSplit (data : Bytes) : Option (Nat × Bytes) :=
  if data = [] then none
  else match indexByte data 0x0A with
    | some i => some (i + 1, dropCR (data.take i))
    | none => some (data.length, dropCR data)

theorem scanLinesSplit_advance {data : Bytes} {advance : Nat} {token : Bytes}
    (h : scanLinesSplit data = some (advance, token)) : 1 ≤ advance ∧ advance ≤ data.length := by
  unfold scanLinesSplit at h
  split_ifs at h with hd
  have hlen : 0 < data.length := List.length_pos.2 hd
  split at h
  · rename_i i hi
    cases h
    have hsplit := congrArg List.length (indexByte_eq_some hi).1
    simp only [List.length_append, List.length_take, List.length_cons] at hsplit
    omega
  · cases h; omega

/-- `bufio.MaxScanTokenSize`: the scanner's buffer grows to this size and no further. -/
def maxScanTokenSize : Nat := 64 * 1024

/-- `bufio.ErrTooLong`. -/
def errTooLong : Bytes := str "bufio.Scanner: token too long"

/-- Whether `Scan` can hold the next token in its buffer. `Scan` calls the split function on what
it has buffered and, failing a token, reads more; when the unread input fills the whole buffer of
`maxScanTokenSize` bytes with no `\n` among them, it stops with `ErrTooLong`. So a line and its
`\n` must fit; a last line with no `\n` fits when shorter, or exactly as long when the reader
returns `io.EOF` together with its last bytes (`eofWithData`), since `ScanLines` is then called
at the end of input before the buffer is found full. -/
def scanFits (eofWithData : Bool) (data : Bytes) : Bool :=
  match indexByte data 0x0A with
  | some i => i < maxScanTokenSize
  | none => data.length < maxScanTokenSize || (eofWithData && data.length == maxScanTokenSize)

/-- The tokens `Scan` yields over `data`, one per call, and `Err()` once it returns false: every
token when the input ends, or `ErrTooLong` at the first token that does not fit. -/
def scanLines (eofWithData : Bool) (data : Bytes) : Except Bytes (List Bytes) :=
  match _h : scanLinesSplit data with
  | none => .ok []
  | some (advance, token) =>
    if scanFits eofWithData data then
      (scanLines eofWithData (data.drop advance)).map (token :: ·)
    else .error errTooLong
termination_by data.length
decreasing_by have := scanLinesSplit_advance _h; simp only [List.length_drop]; omega

@[simp] theorem scanLines_nil (eofWithData : Bool) : scanLines eofWithData [] = .ok [] := by
  rw [scanLines]
  split <;> simp_all [scanLinesSplit]

/-- A line ended by `\n` is one token when it is shorter than the buffer, and `ErrTooLong`
otherwise. -/
theorem scanLines_append_newline (eofWithData : Bool) {l : Bytes} (hl : 0x0A ∉ l) (rest : Bytes) :
    scanLines eofWithData (l ++ 0x0A :: rest) =
      if l.length < maxScanTokenSize then (scanLines eofWithData rest).map (dropCR l :: ·)
      else .error errTooLong := by
  have hs : scanLinesSplit (l ++ 0x0A :: rest) = some (l.length + 1, dropCR l) := by
    simp [scanLinesSplit, indexByte_append_cons hl]
  have hf : scanFits eofWithData (l ++ 0x0A :: rest) = decide (l.length < maxScanTokenSize) := by
    simp [scanFits, indexByte_append_cons hl]
  rw [scanLines]
  split <;> rename_i heq <;> rw [hs] at heq
  · cases heq
  · simp only [Option.some.injEq, Prod.mk.injEq] at heq
    obtain ⟨rfl, rfl⟩ := heq
    rw [hf, List.drop_append, List.drop_one, List.tail_cons]
    by_cases h : l.length < maxScanTokenSize <;> simp [h]

/-- **Lines read back, up to the buffer's size.** Lines without `\n`, each ended by one, scan to
the lines, each without a final `\r`, when every line is shorter than `maxScanTokenSize`, and to
`ErrTooLong` otherwise, however the reader hands out the bytes. -/
theorem scanLines_lines (eofWithData : Bool) {lines : List Bytes} (hlines : ∀ l ∈ lines, 0x0A ∉ l) :
    scanLines eofWithData (lines.flatMap (· ++ [0x0A])) =
      if ∀ l ∈ lines, l.length < maxScanTokenSize then .ok (lines.map dropCR)
      else .error errTooLong := by
  induction lines with
  | nil => simp
  | cons l ls ih =>
    have hls : ∀ l ∈ ls, 0x0A ∉ l := fun l' hl' => hlines l' (List.mem_cons_of_mem l hl')
    rw [List.flatMap_cons, List.append_assoc, List.singleton_append,
      scanLines_append_newline eofWithData (hlines l (List.mem_cons_self l ls)), ih hls]
    by_cases hl : l.length < maxScanTokenSize
    · rw [if_pos hl]
      by_cases hall : ∀ l ∈ ls, l.length < maxScanTokenSize
      · have hall' : ∀ x ∈ l :: ls, x.length < maxScanTokenSize := List.forall_mem_cons.2 ⟨hl, hall⟩
        rw [if_pos hall, if_pos hall']; rfl
      · have hall' : ¬∀ x ∈ l :: ls, x.length < maxScanTokenSize :=
          fun h => hall (List.forall_mem_cons.1 h).2
        rw [if_neg hall, if_neg hall']; rfl
    · rw [if_neg hl, if_neg fun h => hl (h l (List.mem_cons_self l ls))]

theorem dropCR_of_getLast?_ne {l : Bytes} (h : l.getLast? ≠ some 0x0D) : dropCR l = l := by
  simp [dropCR, h]

end Pgstream.Go
