/-
# Pgstream.Transformers.Scramble — `scrambleBytes`: the in-place loop and the map it computes

`scrambleBytes(s, salt)` masks `s` in place. It hashes `salt ++ s`, opens a `bytes.Reader` on
`s` itself, and for `i = 0, 1, …` reads rune `i` and writes one byte at index `i` of the same
buffer, until the reader reports `io.EOF`; it then returns `s[:i]`. The reader and the writes
share the buffer, so the loop is correct only because a write never lands on a byte the reader
has still to decode.

The model is a state machine: a `Cursor` holds the buffer, the loop counter and the reader's
offset, `step` is one iteration and `scrambleLoop` runs it to the exit, by well-founded recursion
on the bytes left to read (a read always advances, `readRune_width`). Over it:

* `Inv` is the loop invariant, `inv_init` and `inv_step` establish it, and `inv_loop` carries it
  to the exit by the loop's own induction;
* the exit state is reached by steps and stops (`scrambleLoop_reaches`), and along every run the
  write index stays behind the reader (`inv_step`, carried along runs by `inv_of_reachable`);
* at the exit the returned slice is the pure rune-wise map `maskRunes`
  (`scrambleBytes_eq_maskRunes`), one byte per rune, and the bytes past it are the input's own
  (`scrambleBytesInPlace_eq`): the part `scrambleOneEmail` keeps.

With the decoder's two directions from `Pgstream.Go.Utf8RoundTrip`, the runes are named: on text
Go wrote they are the runes it encoded (`scrambleBytes_encodeRunes`), and on any bytes they are
those of the input's cut into `Pieces`, one masked byte per piece (`scrambleBytes_pieces`).

crypto/sha256 is not part of the repository: the digest function is the parameter `sha256`, and
every result holds for any function returning 32 bytes.
-/
import Pgstream.Go.Utf8RoundTrip
import Mathlib.Logic.Relation

namespace Pgstream.Transformers

open Pgstream.Go

/-! ## §1 — The tables and the digest -/

/-- `bytesOutputAlphabet`: `[0-9a-zA-Z]`. -/
def bytesOutputAlphabet : Bytes :=
  str "0123456789abcdefghijklmnopqrstuvwxyzABCDEFGHIJKLMNOPQRSTUVWXYZ"

/-- `bytesOutputAlphabetLength = byte(len(bytesOutputAlphabet))`. -/
def bytesOutputAlphabetLength : UInt8 := bytesOutputAlphabet.length.toUInt8

/-- `bytesKeep`: what an array literal keeps as it is, `' , \ { }`. -/
def bytesKeep : Bytes := str "',\\{}"

@[simp] theorem length_bytesOutputAlphabet : bytesOutputAlphabet.length = 62 := rfl

theorem bytesOutputAlphabetLength_toNat : bytesOutputAlphabetLength.toNat = 62 := rfl

/-- A SHA-256 sum: the 32 bytes `hash.Sum(nil)` returns. -/
structure Sum32 where
  bytes : Bytes
  length_eq : bytes.length = 32

/-- `sumBytes[i%sumLength]`. -/
def Sum32.at (d : Sum32) (i : Nat) : UInt8 :=
  d.bytes.get ⟨i % 32, by rw [d.length_eq]; exact Nat.mod_lt i (by decide)⟩

/-- The digest of 32 bytes of `200`. -/
def sum200 : Sum32 := ⟨List.replicate 32 200, rfl⟩

/-- `isArray`: `len(s) >= 2 && s[0] == '{' && s[len(s)-1] == '}'`. -/
def isArray (s : Bytes) : Bool :=
  decide (2 ≤ s.length) && s.head? == some 0x7B && s.getLast? == some 0x7D

/-- `bytes.IndexRune(bytesKeep, r) != -1`. `bytesKeep` is ASCII, so only an ASCII rune is found
in it: `IndexRune` matches `RuneError` only against invalid UTF-8, which `bytesKeep` lacks. -/
def keepsRune (r : Nat) : Bool := decide (r < 0x80) && bytesKeep.contains r.toUInt8

/-- The byte the loop writes at index `i` for rune `r`, in the source's byte arithmetic:
`bytesOutputAlphabet[(sumBytes[i%sumLength]+byte(r))%bytesOutputAlphabetLength]`, or `byte(r)`
for a kept rune of an array literal. -/
def scrambleByte (isArray : Bool) (sum : Sum32) (i r : Nat) : UInt8 :=
  if !isArray || !keepsRune r then
    bytesOutputAlphabet.get ⟨((sum.at i + r.toUInt8) % bytesOutputAlphabetLength).toNat, by
      rw [UInt8.toNat_mod, bytesOutputAlphabetLength_toNat]; exact Nat.mod_lt _ (by decide)⟩
  else r.toUInt8

/-! ## §2 — The loop as a state machine -/

/-- The loop's state: the buffer `s`, which the reader and the writes share; the loop counter
`i`, also the next write index; and the reader's offset. -/
structure Cursor where
  s : Bytes
  i : Nat
  pos : Nat

section Loop

variable (isArray : Bool) (sum : Sum32)

/-- One iteration: `ReadRune` at the reader's offset in the current buffer, then the write at
`i`. `none` is the `err != nil` exit. -/
def step (c : Cursor) : Option Cursor :=
  match readRune c.s c.pos with
  | none => none
  | some (r, size) => some ⟨c.s.set c.i (scrambleByte isArray sum c.i r), c.i + 1, c.pos + size⟩

variable {isArray sum}

/-- **What one iteration does.** -/
theorem step_eq_some {c c' : Cursor} :
    step isArray sum c = some c' ↔ ∃ r n, readRune c.s c.pos = some (r, n) ∧
      c' = ⟨c.s.set c.i (scrambleByte isArray sum c.i r), c.i + 1, c.pos + n⟩ := by
  unfold step
  cases readRune c.s c.pos with
  | none => simp
  | some p =>
    obtain ⟨r, n⟩ := p
    constructor
    · intro h
      exact ⟨r, n, rfl, (Option.some.inj h).symm⟩
    · rintro ⟨r', n', h, rfl⟩
      cases h
      rfl

theorem step_eq_none {c : Cursor} : step isArray sum c = none ↔ c.s.length ≤ c.pos := by
  rw [← readRune_eq_none]
  unfold step
  split <;> simp_all

/-- An iteration leaves fewer bytes to read. -/
theorem step_measure {c c' : Cursor} (h : step isArray sum c = some c') :
    c'.s.length - c'.pos < c.s.length - c.pos := by
  obtain ⟨r, n, hr, rfl⟩ := step_eq_some.1 h
  have := readRune_width hr
  simp only [List.length_set]
  omega

variable (isArray sum)

/-- The loop, run until `ReadRune` reports `io.EOF`: the cursor at the exit. -/
def scrambleLoop (c : Cursor) : Cursor :=
  match _h : step isArray sum c with
  | none => c
  | some c' => scrambleLoop c'
termination_by c.s.length - c.pos
decreasing_by exact step_measure _h

/-- The states a run passes through. -/
def Reachable : Cursor → Cursor → Prop :=
  Relation.ReflTransGen fun c c' => step isArray sum c = some c'

variable {isArray sum}

theorem scrambleLoop_of_none {c : Cursor} (h : step isArray sum c = none) :
    scrambleLoop isArray sum c = c := by
  rw [scrambleLoop]
  split <;> simp_all

theorem scrambleLoop_of_some {c c' : Cursor} (h : step isArray sum c = some c') :
    scrambleLoop isArray sum c = scrambleLoop isArray sum c' := by
  rw [scrambleLoop]
  split <;> simp_all

/-- **The loop terminates**: its exit is reached by steps, and no step leaves it. -/
theorem scrambleLoop_reaches (c : Cursor) :
    Reachable isArray sum c (scrambleLoop isArray sum c) ∧
      step isArray sum (scrambleLoop isArray sum c) = none := by
  induction c using scrambleLoop.induct isArray sum with
  | case1 c h => rw [scrambleLoop_of_none h]; exact ⟨Relation.ReflTransGen.refl, h⟩
  | case2 c c' h ih =>
    rw [scrambleLoop_of_some h]
    exact ⟨Relation.ReflTransGen.head h ih.1, ih.2⟩

end Loop

/-! ## §3 — The rune-wise map, in integer arithmetic -/

/-- `alphabet[k]`. -/
def alphabetAt (k : Nat) : UInt8 := bytesOutputAlphabet.getD k 0

/-- The byte for rune `r` at index `i`: `byte(r)` when `r` is one of `' , \ { }` in an array
literal, and otherwise `alphabet[(d[i mod 32] + byte(r)) mod 256 mod 62]` over the integers. -/
def maskRune (isArray : Bool) (sum : Sum32) (i r : Nat) : UInt8 :=
  if isArray ∧ r ∈ [0x27, 0x2C, 0x5C, 0x7B, 0x7D] then r.toUInt8
  else alphabetAt (((sum.at i).toNat + r % 256) % 256 % 62)

theorem toNat_add_uint8 (x y : UInt8) : (x + y).toNat = (x.toNat + y.toNat) % 256 := rfl

theorem keepsRune_iff (r : Nat) : keepsRune r = true ↔ r ∈ [0x27, 0x2C, 0x5C, 0x7B, 0x7D] := by
  by_cases h : r < 0x80
  · have key : ∀ b : UInt8, r.toUInt8 = b ↔ r = b.toNat := fun b => by
      constructor
      · rintro rfl
        rw [toNat_toUInt8, Nat.mod_eq_of_lt (by omega)]
      · intro hb
        apply UInt8.toNat.inj
        rw [toNat_toUInt8, Nat.mod_eq_of_lt (by omega), hb]
    simp [keepsRune, h, bytesKeep, str, ascii, key, toNat_toUInt8]
  · simp only [keepsRune, h, decide_False, Bool.false_and, Bool.false_eq_true, false_iff]
    simp only [List.mem_cons, List.mem_singleton, List.not_mem_nil, or_false]
    omega

/-- **The source's byte arithmetic is `maskRune`'s integer arithmetic.** -/
theorem scrambleByte_eq_maskRune (isArray : Bool) (sum : Sum32) (i r : Nat) :
    scrambleByte isArray sum i r = maskRune isArray sum i r := by
  unfold scrambleByte maskRune
  by_cases h : isArray = true ∧ r ∈ [0x27, 0x2C, 0x5C, 0x7B, 0x7D]
  · rw [if_neg (by simp [(keepsRune_iff r).2 h.2, h.1]), if_pos h]
  · have hidx : ((sum.at i + r.toUInt8) % bytesOutputAlphabetLength).toNat
        = ((sum.at i).toNat + r % 256) % 256 % 62 := by
      simp only [UInt8.toNat_mod, toNat_add_uint8, toNat_toUInt8, bytesOutputAlphabetLength_toNat]
    have hlt : ((sum.at i).toNat + r % 256) % 256 % 62 < bytesOutputAlphabet.length :=
      Nat.mod_lt _ (by decide)
    rw [if_pos (by simpa [keepsRune_iff, or_iff_not_and_not] using h), if_neg h, alphabetAt,
      List.getD_eq_getElem?_getD, List.get_eq_getElem, List.getElem?_eq_getElem hlt,
      Option.getD_some]
    simp only [hidx]

/-- Rune `j` of a suffix that starts at rune `i` is rune `i + j`. -/
theorem mapIdx_shift_cons {α β : Type} (f : Nat → α → β) (i : Nat) (r : α) (rs : List α) :
    (r :: rs).mapIdx (fun j => f (i + j)) = f i r :: rs.mapIdx (fun j => f (i + 1 + j)) := by
  simp [List.mapIdx_cons, Nat.add_assoc, Nat.add_comm 1]

/-! ## §4 — The loop invariant and the refinement -/

section Refinement

variable {isArray : Bool} {sum : Sum32} {orig : Bytes}

/-- **The loop invariant** over the input `orig`. The buffer keeps its length; the write index is
behind the reader, which is inside the buffer; from the write index on the buffer is still
`orig`; and the bytes written so far, followed by the map of the runes still to read, are the
map of all the runes of `orig`. -/
structure Inv (isArray : Bool) (sum : Sum32) (orig : Bytes) (c : Cursor) : Prop where
  length_eq : c.s.length = orig.length
  i_le_pos : c.i ≤ c.pos
  pos_le : c.pos ≤ orig.length
  untouched : c.s.drop c.i = orig.drop c.i
  written : c.s.take c.i ++ (decodeRunes (orig.drop c.pos)).mapIdx
      (fun j => maskRune isArray sum (c.i + j)) = (decodeRunes orig).mapIdx (maskRune isArray sum)

theorem inv_init : Inv isArray sum orig ⟨orig, 0, 0⟩ :=
  ⟨rfl, le_rfl, Nat.zero_le _, rfl, by simp⟩

/-- The reader sees `orig` from its offset on. -/
theorem Inv.unread {c : Cursor} (hi : Inv isArray sum orig c) : c.s.drop c.pos = orig.drop c.pos := by
  have h := congrArg (List.drop (c.pos - c.i)) hi.untouched
  rwa [List.drop_drop, List.drop_drop, Nat.add_sub_cancel' hi.i_le_pos] at h

/-- **One iteration keeps the invariant**, and its write lands behind the reader. -/
theorem inv_step {c c' : Cursor} (hi : Inv isArray sum orig c) (h : step isArray sum c = some c') :
    Inv isArray sum orig c' ∧ c.i < c'.pos := by
  obtain ⟨r, n, hr, rfl⟩ := step_eq_some.1 h
  obtain ⟨hn, hpos⟩ := readRune_width hr
  have hr' : readRune (orig.drop c.pos) 0 = some (r, n) := by
    rw [← hi.unread, ← readRune_eq_drop, hr]
  have hle := hi.i_le_pos
  have hlt : c.i < c.s.length := by omega
  refine ⟨⟨by simp [hi.length_eq], by simp; omega, by simp; rw [← hi.length_eq]; exact hpos, ?_, ?_⟩,
    by simp; omega⟩
  · rw [List.drop_set_of_lt _ _ (Nat.lt_add_one _), ← List.drop_drop, hi.untouched, List.drop_drop]
  · rw [← hi.written, decodeRunes_of_readRune hr', mapIdx_shift_cons, take_succ_set _ hlt,
      scrambleByte_eq_maskRune, List.append_assoc, List.drop_drop]
    rfl

/-- **The invariant holds at the exit.** -/
theorem inv_loop {c : Cursor} (hi : Inv isArray sum orig c) :
    Inv isArray sum orig (scrambleLoop isArray sum c) := by
  induction c using scrambleLoop.induct isArray sum with
  | case1 c h => rwa [scrambleLoop_of_none h]
  | case2 c c' h ih => rw [scrambleLoop_of_some h]; exact ih (inv_step hi h).1

/-- **The invariant holds along every run.** -/
theorem inv_of_reachable {c : Cursor} (h : Reachable isArray sum ⟨orig, 0, 0⟩ c) :
    Inv isArray sum orig c := by
  induction h with
  | refl => exact inv_init
  | tail _ hstep ih => exact (inv_step ih hstep).1

/-- At the exit the buffer is the map of all the runes, then the input from the rune count on. -/
theorem inv_exit {c : Cursor} (hi : Inv isArray sum orig c) (h : step isArray sum c = none) :
    c.i = (decodeRunes orig).length ∧
      c.s = (decodeRunes orig).mapIdx (maskRune isArray sum) ++ orig.drop c.i := by
  have hend : orig.drop c.pos = [] := by
    have := step_eq_none.1 h
    have := hi.length_eq
    simp only [List.drop_eq_nil_iff]
    omega
  have hw := hi.written
  rw [hend, decodeRunes_nil, List.mapIdx_nil, List.append_nil] at hw
  have hi_len : c.i = (decodeRunes orig).length := by
    have := congrArg List.length hw
    simp only [List.length_take, List.length_mapIdx, hi.length_eq] at this
    have := hi.i_le_pos
    have := hi.pos_le
    omega
  refine ⟨hi_len, ?_⟩
  rw [← hw, ← hi.untouched, List.take_append_drop]

end Refinement

/-! ## §5 — `scrambleBytes` -/

section Bytes

variable (sha256 : Bytes → Sum32)

/-- The cursor `scrambleBytes(s, salt)` exits with. -/
def scrambleExit (s salt : Bytes) : Cursor :=
  scrambleLoop (isArray s) (sha256 (salt ++ s)) ⟨s, 0, 0⟩

/-- `scrambleBytes(s, salt)`: the slice it returns, `s[:i]` at the exit. -/
def scrambleBytes (s salt : Bytes) : Bytes :=
  (scrambleExit sha256 s salt).s.take (scrambleExit sha256 s salt).i

/-- The contents of `s` after `scrambleBytes(s, salt)`: the function works in place, and a caller
that keeps its own slice of `s` sees all of it. -/
def scrambleBytesInPlace (s salt : Bytes) : Bytes := (scrambleExit sha256 s salt).s

/-- The pure function of the input the loop computes: decode `s`, and map rune `i` by
`maskRune` with the digest of `salt ++ s`. -/
def maskRunes (s salt : Bytes) : Bytes :=
  (decodeRunes s).mapIdx (maskRune (isArray s) (sha256 (salt ++ s)))

variable {sha256}

theorem inv_scrambleExit (s salt : Bytes) :
    Inv (isArray s) (sha256 (salt ++ s)) s (scrambleExit sha256 s salt) :=
  inv_loop inv_init

theorem scrambleBytes_eq_maskRunes (s salt : Bytes) :
    scrambleBytes sha256 s salt = maskRunes sha256 s salt := by
  obtain ⟨h1, h2⟩ := inv_exit (inv_scrambleExit s salt) (scrambleLoop_reaches _).2
  rw [scrambleBytes, h2, maskRunes, h1, List.take_left' (by simp)]

/-- **What the caller's buffer holds afterwards**: the masked runes, then the input's own bytes
from the rune count on. -/
theorem scrambleBytesInPlace_eq (s salt : Bytes) :
    scrambleBytesInPlace sha256 s salt = maskRunes sha256 s salt ++ s.drop (decodeRunes s).length := by
  obtain ⟨h1, h2⟩ := inv_exit (inv_scrambleExit s salt) (scrambleLoop_reaches _).2
  rw [scrambleBytesInPlace, h2, h1, maskRunes]

@[simp] theorem length_maskRunes (s salt : Bytes) :
    (maskRunes sha256 s salt).length = (decodeRunes s).length := List.length_mapIdx

/-- On a string of valid runes written by Go, the map is over those runes. -/
theorem maskRunes_flatMap_encodeRune {rs : List Nat} (hrs : ∀ r ∈ rs, validRune r = true)
    (salt : Bytes) :
    maskRunes sha256 (rs.flatMap encodeRune) salt =
      rs.mapIdx (maskRune (isArray (rs.flatMap encodeRune))
        (sha256 (salt ++ rs.flatMap encodeRune))) := by
  rw [maskRunes, decodeRunes_flatMap_encodeRune hrs]

/-- **`scrambleBytes` computes the rune-wise map in place.** The loop stops; along every run each
write lands strictly behind the reader, which stays inside the buffer; and the returned slice is
the map of the original input's runes, one byte per rune, so no longer than the input. -/
theorem scrambleBytes_loop_refines (s salt : Bytes) :
    (Reachable (isArray s) (sha256 (salt ++ s)) ⟨s, 0, 0⟩ (scrambleExit sha256 s salt) ∧
        step (isArray s) (sha256 (salt ++ s)) (scrambleExit sha256 s salt) = none) ∧
      (∀ c c', Reachable (isArray s) (sha256 (salt ++ s)) ⟨s, 0, 0⟩ c →
        step (isArray s) (sha256 (salt ++ s)) c = some c' → c.i < c'.pos ∧ c'.pos ≤ s.length) ∧
      scrambleBytes sha256 s salt = (decodeRunes s).mapIdx (maskRune (isArray s) (sha256 (salt ++ s))) ∧
      (scrambleBytes sha256 s salt).length = (decodeRunes s).length ∧
      (decodeRunes s).length ≤ s.length := by
  refine ⟨scrambleLoop_reaches _, fun c c' hc h => ?_, scrambleBytes_eq_maskRunes s salt,
    by rw [scrambleBytes_eq_maskRunes, length_maskRunes], length_decodeRunes_le s⟩
  obtain ⟨hi', hlt⟩ := inv_step (inv_of_reachable hc) h
  exact ⟨hlt, hi'.pos_le⟩

/-- **Byte `i` of an ASCII input** that is not an array literal is
`alphabet[(d[i mod 32] + t[i]) mod 256 mod 62]`: the sum wraps at 256, as the source adds bytes. -/
theorem scrambleBytes_ascii_byte (t salt : Bytes) (hascii : ∀ b ∈ t, b < 0x80)
    (harr : isArray t = false) (i : Nat) (hi : i < t.length) :
    (scrambleBytes sha256 t salt)[i]? =
      some (alphabetAt ((((sha256 (salt ++ t)).at i).toNat + t[i].toNat) % 256 % 62)) := by
  rw [scrambleBytes_eq_maskRunes, maskRunes, decodeRunes_of_ascii hascii, List.getElem?_mapIdx,
    List.getElem?_map, List.getElem?_eq_getElem hi]
  simp [maskRune, harr, Nat.mod_eq_of_lt (UInt8.toNat_lt_size t[i])]

theorem scrambleBytes_ascii_byte_z :
    (∀ b ∈ str "z", b < 0x80) ∧ isArray (str "z") = false ∧ 0 < (str "z").length ∧
      (scrambleBytes (fun _ => sum200) (str "z") [])[0]? =
        some (alphabetAt ((200 + 122) % 256 % 62)) :=
  ⟨by decide, by decide, by decide,
    scrambleBytes_ascii_byte (str "z") [] (by decide) (by decide) 0 (by decide)⟩

/-- With the digest byte `200` and the input `z` (`122`), the integer sum `322` gives
`alphabet[12] = 'c'`, while the source's byte sum wraps to `66` and gives `alphabet[4] = '4'`. -/
theorem scrambleBytes_integer_sum_fails :
    ¬ ∀ (sha256 : Bytes → Sum32) (t salt : Bytes), (∀ b ∈ t, b < 0x80) → isArray t = false →
      ∀ (i : Nat) (hi : i < t.length), (scrambleBytes sha256 t salt)[i]? =
        some (alphabetAt ((((sha256 (salt ++ t)).at i).toNat + t[i].toNat) % 62)) := by
  intro h
  have := h (fun _ => sum200) (str "z") [] (by decide) (by decide) 0 (by decide)
  rw [scrambleBytes_eq_maskRunes, maskRunes, decodeRunes_of_ascii (by decide)] at this
  revert this
  decide

/-- **Byte `i` of an ASCII array literal** is the input's own byte when `bytesKeep` holds it
(one of `' , \ { }`), and `alphabet[(d[i mod 32] + t[i]) mod 256 mod 62]` otherwise: the
delimiters of the array stay where they are, and every other byte is masked. -/
theorem scrambleBytes_array_byte (t salt : Bytes) (hascii : ∀ b ∈ t, b < 0x80)
    (harr : isArray t = true) (i : Nat) (hi : i < t.length) :
    (scrambleBytes sha256 t salt)[i]? = some (if keepsRune t[i].toNat then t[i]
      else alphabetAt ((((sha256 (salt ++ t)).at i).toNat + t[i].toNat) % 256 % 62)) := by
  rw [scrambleBytes_eq_maskRunes, maskRunes, decodeRunes_of_ascii hascii, List.getElem?_mapIdx,
    List.getElem?_map, List.getElem?_eq_getElem hi]
  simp only [Option.map_some', maskRune, harr, true_and, ← keepsRune_iff, Option.some.injEq]
  split_ifs
  · exact UInt8.toNat.inj (Nat.mod_eq_of_lt (UInt8.toNat_lt_size t[i]))
  · rw [Nat.mod_eq_of_lt (UInt8.toNat_lt_size t[i])]

/-- In the array `{a,b}` the comma at index 2 stays a comma. -/
theorem scrambleBytes_array_byte_comma :
    (∀ b ∈ str "\x7ba,b\x7d", b < 0x80) ∧ isArray (str "\x7ba,b\x7d") = true ∧
      2 < (str "\x7ba,b\x7d").length ∧
      (scrambleBytes (fun _ => sum200) (str "\x7ba,b\x7d") [])[2]? = some 0x2C := by
  refine ⟨by decide, by decide, by decide, ?_⟩
  rw [scrambleBytes_array_byte (str "\x7ba,b\x7d") [] (by decide) (by decide) 2 (by decide)]
  decide

/-- What `maskRune` can write: rune `r` itself, when it is a delimiter of an array literal, or a
byte of the alphabet. -/
theorem maskRune_cases (isArray : Bool) (sum : Sum32) (i r : Nat) :
    (isArray = true ∧ r ∈ [0x27, 0x2C, 0x5C, 0x7B, 0x7D] ∧ maskRune isArray sum i r = r.toUInt8) ∨
      maskRune isArray sum i r ∈ bytesOutputAlphabet := by
  unfold maskRune
  by_cases h : isArray = true ∧ r ∈ [0x27, 0x2C, 0x5C, 0x7B, 0x7D]
  · exact .inl ⟨h.1, h.2, if_pos h⟩
  · have hk : ((sum.at i).toNat + r % 256) % 256 % 62 < bytesOutputAlphabet.length := by
      rw [length_bytesOutputAlphabet]; exact Nat.mod_lt _ (by decide)
    rw [if_neg h, alphabetAt, List.getD_eq_getElem?_getD, List.getElem?_eq_getElem hk,
      Option.getD_some]
    exact .inr (List.getElem_mem hk)

/-- The byte `maskRune` writes is alphanumeric, or, in an array literal, one of `' , \ { }`. -/
theorem maskRune_mem (isArray : Bool) (sum : Sum32) (i r : Nat) :
    maskRune isArray sum i r ∈ bytesOutputAlphabet ++ (if isArray then bytesKeep else []) := by
  rcases maskRune_cases isArray sum i r with ⟨rfl, hr, heq⟩ | h
  · have keep : ∀ r ∈ [0x27, 0x2C, 0x5C, 0x7B, 0x7D], r.toUInt8 ∈ bytesKeep := by decide
    rw [heq, if_pos rfl]
    exact List.mem_append_right _ (keep r hr)
  · exact List.mem_append_left _ h

theorem maskRunes_subset (s salt : Bytes) :
    maskRunes sha256 s salt ⊆ bytesOutputAlphabet ++ (if isArray s then bytesKeep else []) := by
  intro b hb
  obtain ⟨k, hk, rfl⟩ := List.mem_mapIdx.1 hb
  exact maskRune_mem _ _ _ _

/-- A masked byte outside the alphabet is a delimiter that the input holds itself: the mask
brings in no byte of its own but alphanumerics. -/
theorem mem_of_mem_maskRunes {s salt : Bytes} {b : UInt8} (hb : b ∈ maskRunes sha256 s salt)
    (hout : b ∉ bytesOutputAlphabet) : b ∈ s := by
  obtain ⟨k, hk, rfl⟩ := List.mem_mapIdx.1 hb
  rcases maskRune_cases (isArray s) (sha256 (salt ++ s)) k (decodeRunes s)[k] with
    ⟨-, hr, heq⟩ | h
  · have hlt : (decodeRunes s)[k] < 0x80 := by
      simp only [List.mem_cons, List.mem_singleton, List.not_mem_nil, or_false] at hr
      omega
    have hnat : ((decodeRunes s)[k]).toUInt8.toNat = (decodeRunes s)[k] := by
      rw [toNat_toUInt8]; omega
    rw [heq]
    exact mem_of_mem_decodeRunes (by omega) (by rw [hnat]; exact List.getElem_mem hk)
  · exact absurd h hout

/-- **The scrambler writes only alphanumeric bytes**, and, when the input is an array literal
`{...}`, the delimiters `' , \ { }` it keeps. -/
theorem scrambleBytes_subset_alphabet (s salt : Bytes) :
    scrambleBytes sha256 s salt ⊆ bytesOutputAlphabet ++ (if isArray s then bytesKeep else []) := by
  rw [scrambleBytes_eq_maskRunes]
  exact maskRunes_subset s salt

/-- **Valid UTF-8 is masked one byte per rune.** On the encoding of a list of valid runes,
`scrambleBytes` returns one masked byte for each rune, in order; the caller's buffer holds those
bytes and then the input's own bytes from the rune count on; and the result is shorter than the
input exactly when a rune is not ASCII. -/
theorem scrambleBytes_encodeRunes (rs : List Nat) (hrs : ∀ r ∈ rs, validRune r = true)
    (salt : Bytes) :
    scrambleBytes sha256 (rs.flatMap encodeRune) salt =
        rs.mapIdx (maskRune (isArray (rs.flatMap encodeRune))
          (sha256 (salt ++ rs.flatMap encodeRune))) ∧
      scrambleBytesInPlace sha256 (rs.flatMap encodeRune) salt =
        scrambleBytes sha256 (rs.flatMap encodeRune) salt ++
          (rs.flatMap encodeRune).drop rs.length ∧
      ((scrambleBytes sha256 (rs.flatMap encodeRune) salt).length <
        (rs.flatMap encodeRune).length ↔ ∃ r ∈ rs, 0x80 ≤ r) := by
  have hmask := @maskRunes_flatMap_encodeRune sha256 rs hrs salt
  obtain ⟨hle, heq⟩ := length_flatMap_encodeRune hrs
  rw [scrambleBytes_eq_maskRunes, scrambleBytesInPlace_eq, hmask, decodeRunes_flatMap_encodeRune hrs,
    List.length_mapIdx]
  refine ⟨rfl, rfl, ?_⟩
  -- shorter, or equal in length exactly when every rune is ASCII
  rw [Nat.lt_iff_le_and_ne, Ne, eq_comm, heq]
  simp only [hle, true_and, not_forall, not_lt, exists_prop]

/-- `éb`, `C3 A9 62`: two runes, two masked bytes, and the buffer keeps the input's `62`. -/
theorem scrambleBytes_encodeRunes_e_acute :
    (∀ r ∈ [0xE9, 0x62], validRune r = true) ∧
    scrambleBytes (fun _ => sum200) ([0xE9, 0x62].flatMap encodeRune) [] =
        [0xE9, 0x62].mapIdx (maskRune (isArray ([0xE9, 0x62].flatMap encodeRune))
          ((fun _ => sum200) ([] ++ [0xE9, 0x62].flatMap encodeRune))) ∧
      scrambleBytesInPlace (fun _ => sum200) ([0xE9, 0x62].flatMap encodeRune) [] =
        scrambleBytes (fun _ => sum200) ([0xE9, 0x62].flatMap encodeRune) [] ++
          ([0xE9, 0x62].flatMap encodeRune).drop [0xE9, 0x62].length ∧
      ((scrambleBytes (fun _ => sum200) ([0xE9, 0x62].flatMap encodeRune) []).length <
        ([0xE9, 0x62].flatMap encodeRune).length ↔ ∃ r ∈ [0xE9, 0x62], 0x80 ≤ r) :=
  ⟨by decide, scrambleBytes_encodeRunes [0xE9, 0x62] (by decide) []⟩

/-- **Any input is masked one byte per piece.** Whatever bytes it is given, `scrambleBytes` cuts
them into pieces, each the encoding of a valid rune or a single byte it reads as `RuneError`, and
returns one masked byte per piece, chosen by the piece's rune and position; the caller's buffer
then holds the input's own bytes from the piece count on. -/
theorem scrambleBytes_pieces (s salt : Bytes) :
    ∃ rs, Pieces s rs ∧
      scrambleBytes sha256 s salt = rs.mapIdx (maskRune (isArray s) (sha256 (salt ++ s))) ∧
      scrambleBytesInPlace sha256 s salt = scrambleBytes sha256 s salt ++ s.drop rs.length := by
  refine ⟨decodeRunes s, decodeRunes_pieces s, scrambleBytes_eq_maskRunes s salt, ?_⟩
  rw [scrambleBytesInPlace_eq, scrambleBytes_eq_maskRunes]

end Bytes

end Pgstream.Transformers
