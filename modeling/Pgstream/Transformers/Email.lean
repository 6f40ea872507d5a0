/-
# Pgstream.Transformers.Email — the email scrambler: `scrambleOneEmail` and `scrambleEmail`

`scrambleOneEmail` splits its input at the first `@` (taking the salt as the mailbox when there
is none), returns the input unchanged when the domain is the excluded one, and otherwise builds
a fresh buffer `mailbox ++ domain ++ replacementDomain`, scrambles its first part in place with
`scrambleBytes` and returns the whole buffer. The return value of `scrambleBytes`, shorter than
its input when the input holds multi-byte runes, is not used: the caller keeps its own length.
`scrambleOneEmail_of_ne` says what it returns, from `scrambleBytesInPlace_eq`.

`scrambleEmail` sends a string to the array route when it begins with `{` or ends with `}`, and
otherwise to `scrambleOneEmail`. On the array route it splits the text between the first and
the last byte at `,`, scrambles each element, and copies the elements joined by `,` into a
buffer whose length it adds up beforehand; `scrambleEmail_of_array` proves that this length is
the joined text's plus the two braces, so the buffer holds exactly `{ … }`.
-/
import Pgstream.Transformers.Scramble

namespace Pgstream.Transformers

open Pgstream.Go

/-! ## §1 — Byte bookkeeping for the buffers -/

/-- Adding the lengths of `ps` to a counter, as the loop over the elements does. -/
theorem foldl_add_length (a b : Nat) :
    ∀ ps : List Bytes, ps.foldl (fun n p => n + p.length) (a + b)
      = ps.foldl (fun n p => n + p.length) a + b
  | [] => rfl
  | p :: ps => by
    simp only [List.foldl_cons]
    rw [Nat.add_right_comm, foldl_add_length (a + p.length) b ps]

/-- The length of `[x].intercalate ps`, one separator between each two elements, counted as
the source counts it: one per element, then each element's length. -/
theorem length_intercalate_single (x : UInt8) :
    ∀ ps : List Bytes, ps ≠ [] →
      ([x].intercalate ps).length + 1 = ps.foldl (fun n p => n + p.length) ps.length
  | [], h => absurd rfl h
  | [p], _ => by simp [List.intercalate, Nat.add_comm]
  | p :: q :: ps, _ => by
    have ih := length_intercalate_single x (q :: ps) (List.cons_ne_nil q ps)
    have hsplit : [x].intercalate (p :: q :: ps) = p ++ [x] ++ [x].intercalate (q :: ps) := by
      simp [List.intercalate, List.intersperse_cons_cons]
    rw [hsplit, List.foldl_cons, List.length_cons,
      show (q :: ps).length + 1 + p.length = (q :: ps).length + (p.length + 1) by omega,
      foldl_add_length, ← ih]
    simp only [List.length_append, List.length_singleton]
    omega

/-- The array buffer after `s[0] = '{'` and `s[len(s)-1] = '}'`. -/
theorem braces_eq (n : Nat) :
    ((List.replicate (n + 2) (0 : UInt8)).set 0 0x7B).set (n + 1) 0x7D
      = 0x7B :: List.replicate n 0 ++ [0x7D] := by
  rw [List.replicate_succ, List.set_cons_zero, List.set_cons_succ, List.replicate_succ',
    List.set_append_right _ _ (by simp)]
  simp

theorem copy_replicate {src : Bytes} {n : Nat} (h : src.length ≤ n) :
    copy (List.replicate n 0) src = src ++ List.replicate (n - src.length) 0 := by
  have h' : src.length ≤ (List.replicate n (0 : UInt8)).length := by simpa using h
  simp [copy_of_length_le h']

/-! ## §2 — `scrambleOneEmail` -/

section Email

variable (sha256 : Bytes → Sum32)

/-- The local `mailbox` of `scrambleOneEmail`: the text before the first `@`, or the salt when
there is no `@`. -/
def mailbox (s salt : Bytes) : Bytes :=
  match indexByte s 0x40 with
  | some k => s.take k
  | none => salt

/-- The local `domain`: `s[atIndex+1:]`, the text after the first `@`, or all of `s` when
`atIndex` is `-1`. -/
def domain (s : Bytes) : Bytes :=
  match indexByte s 0x40 with
  | some k => s.drop (k + 1)
  | none => s

/-- `scrambleOneEmail(s, excludeDomain, replacementDomain, salt)`. The buffer is built as the
source builds it: `make`, two `copy`s, `scrambleBytes` on its first `scrambleLength` bytes (in
place; the returned slice is dropped), a `copy` of the replacement domain, then the slice. -/
def scrambleOneEmail (s excludeDomain replacementDomain salt : Bytes) : Bytes :=
  if domain s = excludeDomain then s
  else
    let mb := mailbox s salt
    let scrambleLength := mb.length + (domain s).length
    let buf := copy (List.replicate (scrambleLength + replacementDomain.length) 0) mb
    let buf := buf.take mb.length ++ copy (buf.drop mb.length) (domain s)
    let buf := scrambleBytesInPlace sha256 (buf.take scrambleLength) salt ++ buf.drop scrambleLength
    let buf := buf.take scrambleLength ++ copy (buf.drop scrambleLength) replacementDomain
    buf.take (scrambleLength + replacementDomain.length)

variable {sha256}

@[simp] theorem length_scrambleBytesInPlace (s salt : Bytes) :
    (scrambleBytesInPlace sha256 s salt).length = s.length := by
  rw [scrambleBytesInPlace_eq, List.length_append, length_maskRunes, List.length_drop]
  have := length_decodeRunes_le s
  omega

/-- **What `scrambleOneEmail` returns** when the domain is not excluded: the buffer
`mailbox ++ domain` after `scrambleBytes` has worked on it in place, then the replacement
domain. -/
theorem scrambleOneEmail_of_ne {s E R salt : Bytes} (h : domain s ≠ E) :
    scrambleOneEmail sha256 s E R salt =
      scrambleBytesInPlace sha256 (mailbox s salt ++ domain s) salt ++ R := by
  rw [scrambleOneEmail, if_neg h]
  simp only
  generalize mailbox s salt = mb
  generalize domain s = d
  have h1 : copy (List.replicate (mb.length + d.length + R.length) 0) mb
      = mb ++ List.replicate (d.length + R.length) 0 := by
    rw [copy_replicate (by omega)]
    congr 2
    omega
  have h2 : copy (List.replicate (d.length + R.length) 0) d = d ++ List.replicate R.length 0 := by
    rw [copy_replicate (by omega), Nat.add_sub_cancel_left]
  have h3 : (scrambleBytesInPlace sha256 (mb ++ d) salt).length = mb.length + d.length := by simp
  rw [h1, List.take_left' rfl, List.drop_left' rfl, h2, ← List.append_assoc,
    List.take_left' (List.length_append _ _), List.drop_left' (List.length_append _ _),
    List.take_left' h3, List.drop_left' h3, copy_of_length_eq (List.length_replicate _ _).symm,
    List.take_of_length_le (by simp)]

/-- **An ASCII email is masked in full.** When the domain is not the excluded one and the
mailbox and domain are ASCII, the result is, for each byte `i` of `mailbox ++ domain`, that byte
masked with byte `i` of the digest of `salt ++ mailbox ++ domain`, then the replacement domain:
as many masked bytes as input bytes, each alphanumeric (or a kept delimiter, should they form an
array literal), and no input byte passed through. -/
theorem scrambleOneEmail_ascii {s E R salt : Bytes}
    (hascii : ∀ b ∈ mailbox s salt ++ domain s, b < 0x80) (h : domain s ≠ E) :
    ∃ masked, scrambleOneEmail sha256 s E R salt = masked ++ R ∧
      masked = ((mailbox s salt ++ domain s).map UInt8.toNat).mapIdx
        (maskRune (isArray (mailbox s salt ++ domain s))
          (sha256 (salt ++ (mailbox s salt ++ domain s)))) ∧
      masked.length = (mailbox s salt ++ domain s).length ∧
      masked ⊆ bytesOutputAlphabet ++
        (if isArray (mailbox s salt ++ domain s) then bytesKeep else []) := by
  have hdec := decodeRunes_of_ascii hascii
  have hlen : (decodeRunes (mailbox s salt ++ domain s)).length =
      (mailbox s salt ++ domain s).length := by
    rw [hdec, List.length_map]
  refine ⟨maskRunes sha256 (mailbox s salt ++ domain s) salt, ?_, by rw [maskRunes, hdec],
    by rw [length_maskRunes, hlen], maskRunes_subset _ _⟩
  rw [scrambleOneEmail_of_ne h, scrambleBytesInPlace_eq, hlen, List.drop_length, List.append_nil]

/-- The email `ab@c.d` with the default parameters: four masked bytes, then `@crypt.com`. -/
theorem scrambleOneEmail_ascii_default :
    (∀ b ∈ mailbox (str "ab@c.d") (str "defaultsalt") ++ domain (str "ab@c.d"), b < 0x80) ∧
    domain (str "ab@c.d") ≠ [] ∧
    ∃ masked, scrambleOneEmail (fun _ => sum200) (str "ab@c.d") [] (str "@crypt.com")
        (str "defaultsalt") = masked ++ str "@crypt.com" ∧
      masked = ((mailbox (str "ab@c.d") (str "defaultsalt") ++ domain (str "ab@c.d")).map
        UInt8.toNat).mapIdx (maskRune (isArray (mailbox (str "ab@c.d") (str "defaultsalt") ++
          domain (str "ab@c.d"))) ((fun _ => sum200) (str "defaultsalt" ++
            (mailbox (str "ab@c.d") (str "defaultsalt") ++ domain (str "ab@c.d"))))) ∧
      masked.length = (mailbox (str "ab@c.d") (str "defaultsalt") ++ domain (str "ab@c.d")).length ∧
      masked ⊆ bytesOutputAlphabet ++ (if isArray (mailbox (str "ab@c.d") (str "defaultsalt") ++
        domain (str "ab@c.d")) then bytesKeep else []) :=
  ⟨by decide, by decide, scrambleOneEmail_ascii (by decide) (by decide)⟩

/-- The buffer `scrambleOneEmail` masks is one byte shorter than the input when the input has an
`@`, and the salt followed by the whole input when it has none. -/
theorem length_mailbox_append_domain (s salt : Bytes) :
    (mailbox s salt ++ domain s).length =
      if 0x40 ∈ s then s.length - 1 else salt.length + s.length := by
  unfold mailbox domain
  cases h : indexByte s 0x40 with
  | none => simp [indexByte_eq_none.1 h]
  | some k =>
    have hsplit := (indexByte_eq_some h).1
    have hmem : (0x40 : UInt8) ∈ s := by rw [hsplit]; simp
    have hlen := congrArg List.length hsplit
    simp only [List.length_append, List.length_take, List.length_cons, List.length_drop] at hlen
    simp only [List.length_append, List.length_take, List.length_drop, if_pos hmem]
    omega

/-- **The length of a scrambled address, and so never the input.** When the domain is not the
excluded one, the result has one byte fewer than the input, plus the replacement domain, when the
input has an `@`, and the salt and the whole input, plus the replacement domain, when it has none.
So when the replacement domain is not one byte long and the salt and the replacement domain are
not both empty, as with the defaults, the result is not the input. -/
theorem scrambleOneEmail_ne_self {s E R salt : Bytes} (h : domain s ≠ E) :
    (scrambleOneEmail sha256 s E R salt).length =
        (if 0x40 ∈ s then s.length - 1 else salt.length + s.length) + R.length ∧
      (R.length ≠ 1 → salt ++ R ≠ [] → scrambleOneEmail sha256 s E R salt ≠ s) := by
  have hlen : (scrambleOneEmail sha256 s E R salt).length =
      (if 0x40 ∈ s then s.length - 1 else salt.length + s.length) + R.length := by
    rw [scrambleOneEmail_of_ne h, List.length_append, length_scrambleBytesInPlace,
      length_mailbox_append_domain]
  refine ⟨hlen, fun hR hne heq => ?_⟩
  rw [heq] at hlen
  have hsr : 0 < salt.length + R.length := by
    rw [← List.length_append]; exact List.length_pos.2 hne
  by_cases hat : 0x40 ∈ s
  · rw [if_pos hat] at hlen
    have := List.length_pos_of_mem hat
    omega
  · rw [if_neg hat] at hlen
    omega

/-- The address `ab@c.d` with the default parameters. -/
theorem scrambleOneEmail_ne_self_default :
    domain (str "ab@c.d") ≠ [] ∧
    (scrambleOneEmail (fun _ => sum200) (str "ab@c.d") [] (str "@crypt.com")
        (str "defaultsalt")).length =
      (if 0x40 ∈ str "ab@c.d" then (str "ab@c.d").length - 1
        else (str "defaultsalt").length + (str "ab@c.d").length) + (str "@crypt.com").length ∧
    ((str "@crypt.com").length ≠ 1 → str "defaultsalt" ++ str "@crypt.com" ≠ [] →
      scrambleOneEmail (fun _ => sum200) (str "ab@c.d") [] (str "@crypt.com") (str "defaultsalt") ≠
        str "ab@c.d") :=
  ⟨by decide, scrambleOneEmail_ne_self (by decide)⟩

/-- The buffer `scrambleOneEmail` masks holds bytes of the input and of the salt only. -/
theorem mailbox_append_domain_subset (s salt : Bytes) : mailbox s salt ++ domain s ⊆ s ++ salt := by
  cases h : indexByte s 0x40 with
  | none =>
    simp only [mailbox, domain, h]
    exact List.append_subset.2 ⟨List.subset_append_right _ _, List.subset_append_left _ _⟩
  | some k =>
    simp only [mailbox, domain, h]
    exact List.append_subset.2 ⟨fun _ hx => List.mem_append_left _ (List.mem_of_mem_take hx),
      fun _ hx => List.mem_append_left _ (List.mem_of_mem_drop hx)⟩

/-- **A byte outside the alphabet in the result comes from an argument**: the input, the salt
(the mailbox of an input with no `@`) or the replacement domain. -/
theorem mem_of_mem_scrambleOneEmail {s E R salt : Bytes} {b : UInt8}
    (hb : b ∈ scrambleOneEmail sha256 s E R salt) (hout : b ∉ bytesOutputAlphabet) :
    b ∈ s ∨ b ∈ salt ∨ b ∈ R := by
  by_cases h : domain s = E
  · rw [scrambleOneEmail, if_pos h] at hb
    exact .inl hb
  rw [scrambleOneEmail_of_ne h, scrambleBytesInPlace_eq, List.mem_append, List.mem_append] at hb
  rcases hb with (hm | hd) | hR
  · exact (List.mem_append.1 (mailbox_append_domain_subset s salt
      (mem_of_mem_maskRunes hm hout))).imp_right .inl
  · exact (List.mem_append.1 (mailbox_append_domain_subset s salt
      (List.drop_subset _ _ hd))).imp_right .inl
  · exact .inr (.inr hR)

/-- **A multi-byte address keeps its tail in clear.** When the domain is not the excluded one and
the mailbox and domain are the encoding of valid runes `rs`, the result is one masked byte per
rune, then the last `|mailbox ++ domain| - |rs|` bytes of the mailbox and domain as they were,
then the replacement domain; there are such bytes exactly when a rune is not ASCII. -/
theorem scrambleOneEmail_encodeRunes {s E R salt : Bytes} (rs : List Nat) (h : domain s ≠ E)
    (hrs : ∀ r ∈ rs, validRune r = true)
    (hbuf : mailbox s salt ++ domain s = rs.flatMap encodeRune) :
    scrambleOneEmail sha256 s E R salt =
        rs.mapIdx (maskRune (isArray (rs.flatMap encodeRune))
          (sha256 (salt ++ rs.flatMap encodeRune))) ++
          (mailbox s salt ++ domain s).drop rs.length ++ R ∧
      ((mailbox s salt ++ domain s).drop rs.length).length =
        (mailbox s salt ++ domain s).length - rs.length ∧
      (0 < ((mailbox s salt ++ domain s).drop rs.length).length ↔ ∃ r ∈ rs, 0x80 ≤ r) := by
  obtain ⟨hle, heq⟩ := length_flatMap_encodeRune hrs
  rw [scrambleOneEmail_of_ne h, scrambleBytesInPlace_eq, List.length_drop, hbuf,
    maskRunes_flatMap_encodeRune hrs, decodeRunes_flatMap_encodeRune hrs]
  refine ⟨rfl, rfl, ?_⟩
  -- no clear byte exactly when the encoding has one byte per rune
  rw [Nat.sub_pos_iff_lt, Nat.lt_iff_le_and_ne, Ne, eq_comm, heq]
  simp only [hle, true_and, not_forall, not_lt, exists_prop]

/-- `é@b`, `C3 A9 40 62`, with the default parameters: after the masked `é` and `b`, the `62` of
the domain comes back in clear. -/
theorem scrambleOneEmail_encodeRunes_e_acute :
    domain [0xC3, 0xA9, 0x40, 0x62] ≠ [] ∧ (∀ r ∈ [0xE9, 0x62], validRune r = true) ∧
    mailbox [0xC3, 0xA9, 0x40, 0x62] (str "defaultsalt") ++ domain [0xC3, 0xA9, 0x40, 0x62] =
      [0xE9, 0x62].flatMap encodeRune ∧
    (scrambleOneEmail (fun _ => sum200) [0xC3, 0xA9, 0x40, 0x62] [] (str "@crypt.com")
          (str "defaultsalt") =
        [0xE9, 0x62].mapIdx (maskRune (isArray ([0xE9, 0x62].flatMap encodeRune))
          ((fun _ => sum200) (str "defaultsalt" ++ [0xE9, 0x62].flatMap encodeRune))) ++
          (mailbox [0xC3, 0xA9, 0x40, 0x62] (str "defaultsalt") ++
            domain [0xC3, 0xA9, 0x40, 0x62]).drop [0xE9, 0x62].length ++ str "@crypt.com" ∧
      ((mailbox [0xC3, 0xA9, 0x40, 0x62] (str "defaultsalt") ++
          domain [0xC3, 0xA9, 0x40, 0x62]).drop [0xE9, 0x62].length).length =
        (mailbox [0xC3, 0xA9, 0x40, 0x62] (str "defaultsalt") ++
          domain [0xC3, 0xA9, 0x40, 0x62]).length - [0xE9, 0x62].length ∧
      (0 < ((mailbox [0xC3, 0xA9, 0x40, 0x62] (str "defaultsalt") ++
          domain [0xC3, 0xA9, 0x40, 0x62]).drop [0xE9, 0x62].length).length ↔
        ∃ r ∈ [0xE9, 0x62], 0x80 ≤ r)) :=
  ⟨by decide, by decide, by decide,
    scrambleOneEmail_encodeRunes [0xE9, 0x62] (by decide) (by decide) (by decide)⟩

end Email

/-! ## §3 — `scrambleEmail` -/

section Array

variable (sha256 : Bytes → Sum32)

/-- `scrambleEmail(s, excludeDomain, replacementDomain, salt)`, which also takes an array
`{email1,email2}`. The loop that scrambles each element and adds its length to `outLength` is
the `map` and the `foldl`. -/
def scrambleEmail (s excludeDomain replacementDomain salt : Bytes) : Bytes :=
  if s.length < 2 then s
  else if s.head? ≠ some 0x7B ∧ s.getLast? ≠ some 0x7D then
    scrambleOneEmail sha256 s excludeDomain replacementDomain salt
  else
    let parts := ((s.drop 1).take (s.length - 2)).splitOn 0x2C
    let partsNew := parts.map (scrambleOneEmail sha256 · excludeDomain replacementDomain salt)
    let outLength := partsNew.foldl (fun n p => n + p.length) (2 + parts.length - 1)
    let buf := ((List.replicate outLength 0).set 0 0x7B).set (outLength - 1) 0x7D
    buf.take 1 ++ copy ((buf.drop 1).take (outLength - 2)) ([0x2C].intercalate partsNew)
      ++ buf.drop (outLength - 1)

variable {sha256} {s E R salt : Bytes}

theorem scrambleEmail_of_single (h2 : 2 ≤ s.length)
    (h : s.head? ≠ some 0x7B ∧ s.getLast? ≠ some 0x7D) :
    scrambleEmail sha256 s E R salt = scrambleOneEmail sha256 s E R salt := by
  rw [scrambleEmail, if_neg (by omega), if_pos h]

/-- **The array route.** When `s` begins with `{` or ends with `}`, the result is `{`, the
scrambled elements of the text between the first and the last byte joined by `,`, and `}`: the
length the source adds up for its buffer is exactly that of the joined elements and the braces. -/
theorem scrambleEmail_of_array (h2 : 2 ≤ s.length)
    (h : s.head? = some 0x7B ∨ s.getLast? = some 0x7D) :
    scrambleEmail sha256 s E R salt = 0x7B :: [0x2C].intercalate
      ((((s.drop 1).take (s.length - 2)).splitOn 0x2C).map
        (scrambleOneEmail sha256 · E R salt)) ++ [0x7D] := by
  rw [scrambleEmail, if_neg (by omega), if_neg (by tauto)]
  simp only
  generalize (s.drop 1).take (s.length - 2) = inner
  have hne : (inner.splitOn 0x2C).map (scrambleOneEmail sha256 · E R salt) ≠ [] := by
    simpa using List.splitOnP_ne_nil _ inner
  have hout : ((inner.splitOn 0x2C).map (scrambleOneEmail sha256 · E R salt)).foldl
      (fun n p => n + p.length) (2 + (inner.splitOn 0x2C).length - 1)
      = ([0x2C].intercalate ((inner.splitOn 0x2C).map
          (scrambleOneEmail sha256 · E R salt))).length + 2 := by
    rw [show 2 + (inner.splitOn 0x2C).length - 1 = (inner.splitOn 0x2C).length + 1 by omega,
      foldl_add_length, ← List.length_map _ (scrambleOneEmail sha256 · E R salt),
      ← length_intercalate_single _ _ hne]
  have e1 : ∀ n : Nat, n + 2 - 1 = n + 1 := fun n => rfl
  rw [hout, e1, Nat.add_sub_cancel, braces_eq]
  simp [copy_of_length_eq]

/-- **The array route keeps the elements apart.** When neither the salt nor the replacement
domain holds a `,`, the result for an array `{e₁,…,eₙ}` is `{…}` again, and splitting its inside
at `,` gives exactly the elements, each scrambled by `scrambleOneEmail`: the mask writes no `,`
of its own, so no element runs into the next. -/
theorem scrambleEmail_array_splitOn (inner E R salt : Bytes) (hs : 0x2C ∉ salt) (hR : 0x2C ∉ R) :
    ∃ body, scrambleEmail sha256 (0x7B :: inner ++ [0x7D]) E R salt = 0x7B :: body ++ [0x7D] ∧
      body.splitOn 0x2C = (inner.splitOn 0x2C).map (scrambleOneEmail sha256 · E R salt) := by
  have hin : ((0x7B :: inner ++ [0x7D] : Bytes).drop 1).take
      ((0x7B :: inner ++ [0x7D] : Bytes).length - 2) = inner := by simp
  rw [scrambleEmail_of_array (by simp) (by simp), hin]
  refine ⟨_, rfl, List.splitOn_intercalate _ _ ?_ (by simpa using List.splitOnP_ne_nil _ inner)⟩
  simp only [List.mem_map]
  rintro _ ⟨p, hp, rfl⟩ hc
  rcases mem_of_mem_scrambleOneEmail hc (by decide) with h | h | h
  · exact not_mem_of_mem_splitOn hp h
  · exact hs h
  · exact hR h

/-- The array `{a@b.c,d@e.f}` with the default parameters splits back into its two elements. -/
theorem scrambleEmail_array_splitOn_two :
    0x2C ∉ str "defaultsalt" ∧ 0x2C ∉ str "@crypt.com" ∧
    ∃ body, scrambleEmail (fun _ => sum200) (0x7B :: str "a@b.c,d@e.f" ++ [0x7D]) []
        (str "@crypt.com") (str "defaultsalt") = 0x7B :: body ++ [0x7D] ∧
      body.splitOn 0x2C = ((str "a@b.c,d@e.f").splitOn 0x2C).map
        (scrambleOneEmail (fun _ => sum200) · [] (str "@crypt.com") (str "defaultsalt")) :=
  ⟨by decide, by decide, scrambleEmail_array_splitOn _ _ _ _ (by decide) (by decide)⟩

/-- **A brace at one end sends a single address to the array route.** `{a@b.c` begins with `{`
but does not end with `}`; it is split as an array, and its last byte `c` gives way to the
closing brace, where the single-address route ends with the replacement domain. -/
theorem scrambleEmail_one_brace (sha256 : Bytes → Sum32) :
    scrambleEmail sha256 (str "\x7ba@b.c") [] (str "@crypt.com") (str "defaultsalt") ≠
      scrambleOneEmail sha256 (str "\x7ba@b.c") [] (str "@crypt.com") (str "defaultsalt") := by
  rw [scrambleEmail_of_array (by decide) (by decide), scrambleOneEmail_of_ne (by decide)]
  intro h
  have h' := congrArg List.getLast? h
  rw [List.getLast?_append, List.getLast?_append] at h'
  exact absurd (Option.some.inj h') (by decide)

/-- **The masking leaves the tail of a multi-byte input in clear.** For `é@b` (`C3 A9 40 62`)
the runes `é` and `b` give `scrambleBytes` two bytes, but `scrambleOneEmail` keeps the buffer's
three: the domain's `b` comes back unmasked between them and the replacement domain. -/
theorem scrambleEmail_keeps_unmasked_byte (sha256 : Bytes → Sum32) :
    scrambleEmail sha256 [0xC3, 0xA9, 0x40, 0x62] [] (str "@crypt.com") (str "defaultsalt")
        = scrambleBytes sha256 [0xC3, 0xA9, 0x62] (str "defaultsalt") ++ 0x62 :: str "@crypt.com" ∧
      (scrambleBytes sha256 [0xC3, 0xA9, 0x62] (str "defaultsalt")).length = 2 := by
  have hdec : decodeRunes [0xC3, 0xA9, 0x62] = [0xE9, 0x62] := by
    rw [decodeRunes_of_readRune (by decide : readRune [0xC3, 0xA9, 0x62] 0 = some (0xE9, 2))]
    rw [show List.drop 2 [(0xC3 : UInt8), 0xA9, 0x62] = [0x62] from rfl,
      decodeRunes_of_readRune (by decide : readRune [0x62] 0 = some (0x62, 1))]
    simp
  have hsplit : mailbox [0xC3, 0xA9, 0x40, 0x62] (str "defaultsalt")
      ++ domain [0xC3, 0xA9, 0x40, 0x62] = [0xC3, 0xA9, 0x62] := rfl
  rw [scrambleBytes_eq_maskRunes]
  refine ⟨?_, by rw [length_maskRunes, hdec]; rfl⟩
  rw [scrambleEmail_of_single (by decide) (by decide), scrambleOneEmail_of_ne (by decide),
    scrambleBytesInPlace_eq, hsplit, hdec, List.append_assoc]
  rfl

end Array

end Pgstream.Transformers
