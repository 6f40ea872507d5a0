/-
# Pgstream.Postgres.Identifier — quoting, qualified names and `newIdentifier`

internal/postgres quotes every identifier it embeds in SQL with `QuoteIdentifier`, which passes
a string through when `IsQuotedIdentifier` holds (longer than two bytes, `"` at both ends) and
otherwise calls lib/pq's `QuoteIdentifier`: cut at the first NUL, double every `"`, wrap in `"`.
`QuoteQualifiedIdentifier` quotes schema and table apart and joins them with `.`. In the other
direction `NewQualifiedName` and `newIdentifier` split a name at `.`, and `newIdentifier` strips
every leading and trailing `"` from each part before pgx's `Sanitize` quotes it again.

§1 models the functions; §2 gives the quoting its small lemmas; §3 says what a well-formed
delimited identifier is and proves the quoting produces one outside the pass-through case; §4
decides idempotence of the quoting and the re-parse fixpoint of `QualifiedName.String`; §5 decides
exactly when `newIdentifier` undoes the quoting.
-/
import Pgstream.Go.Bytes

namespace Pgstream.Postgres

open Pgstream.Go

/-! ## §1 — The functions -/

/-- `strings.Replace(name, "\"", "\"\"", -1)`: every `"` doubled. -/
def doubleQuotes (s : Bytes) : Bytes :=
  s.flatMap fun c => if c = 0x22 then [0x22, 0x22] else [c]

/-- `name[:end]` for `end := strings.IndexRune(name, 0)` when there is a NUL, `name` otherwise. -/
def cutAtNul (name : Bytes) : Bytes :=
  match indexByte name 0 with
  | some e => name.take e
  | none => name

/-- `pq.QuoteIdentifier(name)`. -/
def pqQuoteIdentifier (name : Bytes) : Bytes :=
  0x22 :: doubleQuotes (cutAtNul name) ++ [0x22]

/-- `IsQuotedIdentifier(s)`: `len(s) > 2 && strings.HasPrefix(s, "\"") && strings.HasSuffix(s, "\"")`. -/
def isQuotedIdentifier (s : Bytes) : Bool :=
  decide (2 < s.length) && s.head? == some 0x22 && s.getLast? == some 0x22

/-- `QuoteIdentifier(s)`. -/
def quoteIdentifier (s : Bytes) : Bytes :=
  if isQuotedIdentifier s then s else pqQuoteIdentifier s

/-- `QuoteQualifiedIdentifier(schema, table)`. -/
def quoteQualifiedIdentifier (schema table : Bytes) : Bytes :=
  quoteIdentifier schema ++ 0x2E :: quoteIdentifier table

/-- `QualifiedName`. -/
structure QualifiedName where
  schema : Bytes
  name : Bytes
  deriving DecidableEq

/-- `errUnexpectedQualifiedName`. -/
def errUnexpectedQualifiedName : Bytes := str "unexpected qualified name format"

/-- `NewQualifiedName(s)`: split at `.`; one part is a bare name, two a schema and a name. -/
def newQualifiedName (s : Bytes) : Except Bytes QualifiedName :=
  match s.splitOn 0x2E with
  | [_] => .ok ⟨[], s⟩
  | [schema, name] => .ok ⟨schema, name⟩
  | _ => .error errUnexpectedQualifiedName

/-- `(*QualifiedName).String()`. -/
def QualifiedName.string (qn : QualifiedName) : Bytes :=
  if qn.schema = [] then qn.name else quoteQualifiedIdentifier qn.schema qn.name

/-- `removeQuotes(s)`: `strings.Trim(s, "\"")`. -/
def removeQuotes (s : Bytes) : Bytes := trim s 0x22

/-- `newIdentifier(tableName)`: split at `.` into a one- or two-part `pgx.Identifier`, then
`removeQuotes` on each part. -/
def newIdentifier (tableName : Bytes) : Except Bytes (List Bytes) :=
  match tableName.splitOn 0x2E with
  | [_] => .ok [removeQuotes tableName]
  | [schema, table] => .ok [removeQuotes schema, removeQuotes table]
  | _ => .error (str "invalid table name: " ++ tableName)

/-! ## §2 — Small lemmas of the quoting -/

@[simp] theorem doubleQuotes_nil : doubleQuotes [] = [] := rfl

theorem doubleQuotes_cons (c : UInt8) (s : Bytes) :
    doubleQuotes (c :: s) = (if c = 0x22 then [0x22, 0x22] else [c]) ++ doubleQuotes s :=
  List.flatMap_cons _ _ _

theorem doubleQuotes_append (s t : Bytes) :
    doubleQuotes (s ++ t) = doubleQuotes s ++ doubleQuotes t := List.flatMap_append _ _ _

theorem doubleQuotes_of_not_mem {s : Bytes} (h : 0x22 ∉ s) : doubleQuotes s = s := by
  induction s with
  | nil => rfl
  | cons c s ih =>
    have hc : c ≠ 0x22 := fun hc => h (hc ▸ List.mem_cons_self c s)
    rw [doubleQuotes_cons, if_neg hc, ih (fun h' => h (List.mem_cons_of_mem c h'))]
    rfl

theorem length_doubleQuotes (s : Bytes) : (doubleQuotes s).length = s.length + s.count 0x22 := by
  induction s with
  | nil => rfl
  | cons c s ih =>
    rw [doubleQuotes_cons, List.length_append, ih, List.count_cons]
    split <;> simp_all <;> omega

theorem mem_doubleQuotes {s : Bytes} {b : UInt8} : b ∈ doubleQuotes s ↔ b ∈ s := by
  induction s with
  | nil => simp
  | cons c s ih =>
    rw [doubleQuotes_cons]
    split <;> simp_all

theorem cutAtNul_eq_takeWhile (name : Bytes) : cutAtNul name = name.takeWhile (· != 0) := by
  induction name with
  | nil => rfl
  | cons b s ih =>
    unfold cutAtNul at ih ⊢
    by_cases hb : b = 0
    · simp [indexByte, hb]
    · rw [indexByte, if_neg hb, List.takeWhile_cons_of_pos (by simpa using hb), ← ih]
      cases indexByte s 0 <;> rfl

theorem cutAtNul_of_not_mem {name : Bytes} (h : (0 : UInt8) ∉ name) : cutAtNul name = name := by
  simp [cutAtNul, indexByte_eq_none.2 h]

theorem cutAtNul_sublist (name : Bytes) : (cutAtNul name).Sublist name := by
  rw [cutAtNul_eq_takeWhile]
  exact List.takeWhile_sublist _

theorem cutAtNul_eq_nil {name : Bytes} : cutAtNul name = [] ↔ name.head? = none ∨ name.head? = some 0 := by
  rw [cutAtNul_eq_takeWhile]
  cases name <;> simp [List.takeWhile_cons]

@[simp] theorem length_pqQuoteIdentifier (name : Bytes) :
    (pqQuoteIdentifier name).length = (doubleQuotes (cutAtNul name)).length + 2 := by
  simp [pqQuoteIdentifier]

theorem quoteIdentifier_of_quoted {s : Bytes} (h : isQuotedIdentifier s = true) :
    quoteIdentifier s = s := if_pos h

theorem quoteIdentifier_of_not_quoted {s : Bytes} (h : isQuotedIdentifier s = false) :
    quoteIdentifier s = pqQuoteIdentifier s := if_neg (by simp [h])

/-- Quoting adds no byte but `"`. -/
theorem mem_quoteIdentifier {s : Bytes} {b : UInt8} (hb : b ≠ 0x22) (h : b ∈ quoteIdentifier s) :
    b ∈ s := by
  unfold quoteIdentifier at h
  split at h
  · exact h
  · simp only [pqQuoteIdentifier] at h
    simp only [List.cons_append, List.mem_cons, hb, List.mem_append, mem_doubleQuotes,
      List.mem_singleton, false_or, or_false, List.not_mem_nil] at h
    exact (cutAtNul_sublist s).subset h

theorem quoteIdentifier_ne_nil (s : Bytes) : quoteIdentifier s ≠ [] := by
  unfold quoteIdentifier
  split
  · rename_i h
    intro hs
    simp [hs, isQuotedIdentifier] at h
  · simp [pqQuoteIdentifier]

theorem not_mem_quoteIdentifier {s : Bytes} {b : UInt8} (hb : b ≠ 0x22) (h : b ∉ s) :
    b ∉ quoteIdentifier s := fun h' => h (mem_quoteIdentifier hb h')

theorem head?_doubleQuotes {s : Bytes} (h : s.head? ≠ some 0x22) :
    (doubleQuotes s).head? = s.head? := by
  cases s with
  | nil => rfl
  | cons c s =>
    have hc : c ≠ 0x22 := fun hc => h (by simp [hc])
    simp [doubleQuotes_cons, hc]

theorem getLast?_doubleQuotes {s : Bytes} (h : s.getLast? ≠ some 0x22) :
    (doubleQuotes s).getLast? = s.getLast? := by
  rcases List.eq_nil_or_concat s with rfl | ⟨t, c, rfl⟩
  · rfl
  · have hc : c ≠ 0x22 := fun hc => h (by simp [hc])
    simp [doubleQuotes_append, doubleQuotes_cons, hc]

/-! ## §3 — Well-formed delimited identifiers -/

/-- The body of a delimited identifier: every `"` in it stands in an adjacent pair `""`. -/
def pairedQuotes : Bytes → Bool
  | [] => true
  | [c] => c != 0x22
  | c :: d :: rest =>
    if c = 0x22 then d == 0x22 && pairedQuotes rest else pairedQuotes (d :: rest)

/-- A well-formed SQL delimited identifier: `"`, a body whose every `"` is doubled, `"`. -/
def isDelimited (s : Bytes) : Bool :=
  decide (2 ≤ s.length) && s.head? == some 0x22 && s.getLast? == some 0x22 &&
    pairedQuotes (s.drop 1).dropLast

/-- Each `""` of a body back to `"`. -/
def halveQuotes : Bytes → Bytes
  | [] => []
  | [c] => [c]
  | c :: d :: rest =>
    if c = 0x22 ∧ d = 0x22 then 0x22 :: halveQuotes rest else c :: halveQuotes (d :: rest)

/-- Strip the outer quotes and undouble the inner ones. -/
def unquoteIdentifier (s : Bytes) : Bytes := halveQuotes (s.drop 1).dropLast

theorem getLast?_wrap (a b : UInt8) (body : Bytes) : (a :: body ++ [b]).getLast? = some b := by
  rw [List.getLast?_append]
  rfl

theorem isDelimited_wrap (body : Bytes) :
    isDelimited (0x22 :: body ++ [0x22]) = pairedQuotes body := by
  rw [isDelimited, getLast?_wrap]
  simp

theorem pairedQuotes_cons_of_ne {c : UInt8} (hc : c ≠ 0x22) (s : Bytes) :
    pairedQuotes (c :: s) = pairedQuotes s := by
  cases s <;> simp [pairedQuotes, hc]

theorem halveQuotes_cons_of_ne {c : UInt8} (hc : c ≠ 0x22) (s : Bytes) :
    halveQuotes (c :: s) = c :: halveQuotes s := by
  cases s <;> simp [halveQuotes, hc]

theorem unquoteIdentifier_wrap (body : Bytes) :
    unquoteIdentifier (0x22 :: body ++ [0x22]) = halveQuotes body := by
  simp [unquoteIdentifier]

theorem pairedQuotes_doubleQuotes (s : Bytes) : pairedQuotes (doubleQuotes s) = true := by
  induction s with
  | nil => rfl
  | cons c s ih =>
    rw [doubleQuotes_cons]
    by_cases hc : c = 0x22
    · simp [hc, pairedQuotes, ih]
    · simp [hc, pairedQuotes_cons_of_ne hc, ih]

theorem halveQuotes_doubleQuotes (s : Bytes) : halveQuotes (doubleQuotes s) = s := by
  induction s with
  | nil => rfl
  | cons c s ih =>
    rw [doubleQuotes_cons]
    by_cases hc : c = 0x22
    · simp [hc, halveQuotes, ih]
    · simp [hc, halveQuotes_cons_of_ne hc, ih]

/-- Outside the pass-through case, or when the input is already well formed, the quoting gives
a well-formed delimited identifier. -/
theorem isDelimited_quoteIdentifier {x : Bytes}
    (h : isQuotedIdentifier x = false ∨ isDelimited x = true) :
    isDelimited (quoteIdentifier x) = true := by
  unfold quoteIdentifier
  split
  · rename_i hq
    simpa [hq] using h
  · rw [pqQuoteIdentifier, isDelimited_wrap, pairedQuotes_doubleQuotes]

/-- **`QuoteIdentifier` is well formed and decodes back outside the pass-through case.** A
string `IsQuotedIdentifier` accepts is returned as it is; any other string is quoted into a
well-formed delimited identifier, which decodes back to the string when it holds no NUL; and a
qualified name of two such parts is two delimited identifiers joined by `.`. -/
theorem quoteIdentifier_well_formed :
    (∀ x, isQuotedIdentifier x = true → quoteIdentifier x = x) ∧
    (∀ x, isQuotedIdentifier x = false → isDelimited (quoteIdentifier x) = true ∧
      ((0 : UInt8) ∉ x → unquoteIdentifier (quoteIdentifier x) = x)) ∧
    (∀ s t, (isQuotedIdentifier s = false ∨ isDelimited s = true) →
      (isQuotedIdentifier t = false ∨ isDelimited t = true) →
      ∃ a b, quoteQualifiedIdentifier s t = a ++ 0x2E :: b ∧
        isDelimited a = true ∧ isDelimited b = true) := by
  refine ⟨fun x => quoteIdentifier_of_quoted, fun x hx => ⟨isDelimited_quoteIdentifier (.inl hx),
    fun h0 => ?_⟩, fun s t hs ht => ⟨_, _, rfl, isDelimited_quoteIdentifier hs,
      isDelimited_quoteIdentifier ht⟩⟩
  rw [quoteIdentifier_of_not_quoted hx, pqQuoteIdentifier, unquoteIdentifier_wrap,
    halveQuotes_doubleQuotes, cutAtNul_of_not_mem h0]

/-- `"a"b"` passes `IsQuotedIdentifier` and comes back as it is, with a lone `"` inside. -/
theorem quoteIdentifier_passes_malformed :
    ¬ ∀ x, isDelimited (quoteIdentifier x) = true :=
  fun h => absurd (h (str "\"a\"b\"")) (by decide)

/-! ## §4 — Idempotence and the re-parse fixpoint -/

theorem isQuotedIdentifier_wrap (body : Bytes) :
    isQuotedIdentifier (0x22 :: body ++ [0x22]) = decide (body ≠ []) := by
  rw [isQuotedIdentifier, getLast?_wrap]
  cases body <;> simp

theorem doubleQuotes_eq_nil {s : Bytes} : doubleQuotes s = [] ↔ s = [] := by
  cases s with
  | nil => simp
  | cons c s => rw [doubleQuotes_cons]; split <;> simp

theorem isQuotedIdentifier_pqQuoteIdentifier (name : Bytes) :
    isQuotedIdentifier (pqQuoteIdentifier name) = decide (cutAtNul name ≠ []) := by
  rw [pqQuoteIdentifier, isQuotedIdentifier_wrap]
  simp [doubleQuotes_eq_nil]

/-- **Quoting is idempotent exactly on the strings that do not quote to `""`.** The empty string
and a string that begins with NUL quote to `""`, which `IsQuotedIdentifier` rejects for its
length, so quoting again gives ``. -/
theorem quoteIdentifier_idempotent_iff (x : Bytes) :
    quoteIdentifier (quoteIdentifier x) = quoteIdentifier x ↔
      x.head? ≠ none ∧ x.head? ≠ some 0 := by
  by_cases hq : isQuotedIdentifier x = true
  · have hx : x.head? = some 0x22 := by
      simp only [isQuotedIdentifier, Bool.and_eq_true, decide_eq_true_eq, beq_iff_eq] at hq
      exact hq.1.2
    rw [quoteIdentifier_of_quoted hq, quoteIdentifier_of_quoted hq, hx]
    simp
  · have hq' : isQuotedIdentifier x = false := by simpa using hq
    rw [quoteIdentifier_of_not_quoted hq']
    by_cases hc : cutAtNul x = []
    · have hpq : pqQuoteIdentifier x = [0x22, 0x22] := by simp [pqQuoteIdentifier, hc]
      rw [hpq]
      exact ⟨fun h => absurd h (by decide), fun ⟨h1, h2⟩ => ((cutAtNul_eq_nil.1 hc).elim h1 h2).elim⟩
    · rw [quoteIdentifier_of_quoted (by simpa [isQuotedIdentifier_pqQuoteIdentifier] using hc)]
      simpa [cutAtNul_eq_nil, not_or] using hc

/-- The parts of a name `NewQualifiedName` accepts hold no `.`. -/
theorem newQualifiedName_parts {n : Bytes} {qn : QualifiedName}
    (h : newQualifiedName n = .ok qn) : 0x2E ∉ qn.schema ∧ 0x2E ∉ qn.name := by
  unfold newQualifiedName at h
  split at h
  · rename_i p hp
    cases h
    have hn := eq_of_splitOn_eq_single hp
    subst hn
    exact ⟨List.not_mem_nil _, not_mem_of_mem_splitOn (hp ▸ List.mem_singleton_self _)⟩
  · rename_i a b hp
    cases h
    exact ⟨not_mem_of_mem_splitOn (hp ▸ List.mem_cons_self _ _),
      not_mem_of_mem_splitOn (hp ▸ List.mem_cons_of_mem _ (List.mem_singleton_self _))⟩
  · cases h

/-- **Printing a qualified name and parsing it again** always succeeds, and prints the same text
exactly when the name has no schema or both parts quote idempotently. -/
theorem newQualifiedName_string {n : Bytes} {qn : QualifiedName}
    (h : newQualifiedName n = .ok qn) :
    ∃ qn', newQualifiedName qn.string = .ok qn' ∧
      (qn'.string = qn.string ↔ qn.schema = [] ∨
        (quoteIdentifier (quoteIdentifier qn.schema) = quoteIdentifier qn.schema ∧
          quoteIdentifier (quoteIdentifier qn.name) = quoteIdentifier qn.name)) := by
  obtain ⟨hs, hn⟩ := newQualifiedName_parts h
  by_cases h0 : qn.schema = []
  · refine ⟨⟨[], qn.name⟩, ?_, by simp [h0, QualifiedName.string]⟩
    simp [QualifiedName.string, h0, newQualifiedName, splitOn_of_not_mem hn]
  · have hqs := not_mem_quoteIdentifier (by decide) hs
    have hqn := not_mem_quoteIdentifier (by decide) hn
    refine ⟨⟨quoteIdentifier qn.schema, quoteIdentifier qn.name⟩, ?_, ?_⟩
    · simp [QualifiedName.string, h0, quoteQualifiedIdentifier, newQualifiedName,
        splitOn_append_cons hqs hqn]
    · simp only [QualifiedName.string, h0, if_false, quoteIdentifier_ne_nil,
        quoteQualifiedIdentifier, false_or]
      constructor
      · intro heq
        have := congrArg (List.splitOn 0x2E) heq
        rw [splitOn_append_cons (not_mem_quoteIdentifier (by decide) hqs)
            (not_mem_quoteIdentifier (by decide) hqn), splitOn_append_cons hqs hqn] at this
        simp only [List.cons.injEq] at this
        exact ⟨this.1, this.2.1⟩
      · rintro ⟨h1, h2⟩
        rw [h1, h2]

/-- **Idempotence fails only on names that quote to `""`.** Quoting is idempotent exactly on the
strings that are nonempty and do not begin with NUL; and printing an accepted qualified name and
parsing it again always succeeds, printing the same text exactly when the schema is empty or both
parts are such strings. -/
theorem quoteIdentifier_idempotent_except_empty :
    (∀ x, quoteIdentifier (quoteIdentifier x) = quoteIdentifier x ↔
      x.head? ≠ none ∧ x.head? ≠ some 0) ∧
    (∀ n qn, newQualifiedName n = .ok qn → ∃ qn', newQualifiedName qn.string = .ok qn' ∧
      (qn'.string = qn.string ↔ qn.schema = [] ∨
        (qn.schema.head? ≠ none ∧ qn.schema.head? ≠ some 0 ∧
          qn.name.head? ≠ none ∧ qn.name.head? ≠ some 0))) := by
  refine ⟨quoteIdentifier_idempotent_iff, fun n qn h => ?_⟩
  obtain ⟨qn', h1, h2⟩ := newQualifiedName_string h
  exact ⟨qn', h1, by rw [h2, quoteIdentifier_idempotent_iff, quoteIdentifier_idempotent_iff,
    and_assoc]⟩

/-- The empty string quotes to `""`, and `""` quotes to ``. -/
theorem quoteIdentifier_not_idempotent :
    ¬ ∀ x, quoteIdentifier (quoteIdentifier x) = quoteIdentifier x :=
  fun h => absurd (h []) (by decide)

/-! ## §5 — `newIdentifier` against the quoting -/

/-- A string with no NUL and no `"` at either end is quoted by `pqQuoteIdentifier`, and
`removeQuotes` strips the two quotes it added and nothing else. -/
theorem removeQuotes_quoteIdentifier_of_ends {x : Bytes} (h0 : (0 : UInt8) ∉ x)
    (hh : x.head? ≠ some 0x22) (hl : x.getLast? ≠ some 0x22) :
    removeQuotes (quoteIdentifier x) = doubleQuotes x := by
  have hnq : isQuotedIdentifier x = false := by simp [isQuotedIdentifier, hh]
  rw [quoteIdentifier_of_not_quoted hnq, pqQuoteIdentifier, cutAtNul_of_not_mem h0,
    removeQuotes, trim_append_self, trim_cons_self,
    trim_eq_self (by rwa [head?_doubleQuotes hh]) (by rwa [getLast?_doubleQuotes hl])]

/-- **`removeQuotes` undoes the quoting exactly on the strings without `"`.** `strings.Trim`
strips every `"` at either end and undoubles none inside, so a string with a `"` at an end
loses it, and one with a `"` only inside keeps it doubled. -/
theorem removeQuotes_quoteIdentifier_iff {x : Bytes} (h0 : (0 : UInt8) ∉ x) :
    removeQuotes (quoteIdentifier x) = x ↔ 0x22 ∉ x := by
  constructor
  · intro heq hq
    by_cases hh : x.head? = some 0x22
    · exact head?_trim_ne _ 0x22 (heq ▸ hh)
    by_cases hl : x.getLast? = some 0x22
    · exact getLast?_trim_ne _ 0x22 (heq ▸ hl)
    -- inside, every `"` stays doubled, so the result is longer than `x`
    have hlen := congrArg List.length heq
    rw [removeQuotes_quoteIdentifier_of_ends h0 hh hl, length_doubleQuotes] at hlen
    have hpos := List.count_pos_iff.2 hq
    omega
  · intro hq
    rw [removeQuotes_quoteIdentifier_of_ends h0 (fun h => hq (List.mem_of_mem_head? h))
      (fun h => hq (List.mem_of_getLast?_eq_some h)), doubleQuotes_of_not_mem hq]

/-- **`newIdentifier` undoes the quoting exactly for names without `"`.** For a schema and a
table with no `.` and no NUL, `newIdentifier` of the qualified quoting gives back the two names
exactly when neither holds a `"`, and likewise for one quoted table name. -/
theorem newIdentifier_quote_iff :
    (∀ s t : Bytes, 0x2E ∉ s → (0 : UInt8) ∉ s → 0x2E ∉ t → (0 : UInt8) ∉ t →
      (newIdentifier (quoteQualifiedIdentifier s t) = .ok [s, t] ↔ 0x22 ∉ s ∧ 0x22 ∉ t)) ∧
    (∀ t : Bytes, 0x2E ∉ t → (0 : UInt8) ∉ t →
      (newIdentifier (quoteIdentifier t) = .ok [t] ↔ 0x22 ∉ t)) := by
  refine ⟨fun s t hs hs0 ht ht0 => ?_, fun t ht ht0 => ?_⟩
  · rw [quoteQualifiedIdentifier, newIdentifier,
      splitOn_append_cons (not_mem_quoteIdentifier (by decide) hs)
        (not_mem_quoteIdentifier (by decide) ht)]
    simp only [Except.ok.injEq, List.cons.injEq, and_true, removeQuotes_quoteIdentifier_iff hs0,
      removeQuotes_quoteIdentifier_iff ht0]
  · rw [newIdentifier, splitOn_of_not_mem (not_mem_quoteIdentifier (by decide) ht)]
    simp only [Except.ok.injEq, List.cons.injEq, and_true, removeQuotes_quoteIdentifier_iff ht0]

/-- The quoting of `public` and `a"`, `"public"."a"""`, comes back from `newIdentifier` as
`public` and `a`. -/
theorem newIdentifier_drops_quote :
    ¬ ∀ s t : Bytes, s ≠ [] → t ≠ [] → 0x2E ∉ s → (0 : UInt8) ∉ s → 0x2E ∉ t →
      (0 : UInt8) ∉ t → newIdentifier (quoteQualifiedIdentifier s t) = .ok [s, t] :=
  fun h => by
    have hq := h (str "public") (str "a\"") (by decide) (by decide) (by decide) (by decide)
      (by decide) (by decide)
    rw [show newIdentifier (quoteQualifiedIdentifier (str "public") (str "a\""))
      = .ok [str "public", str "a"] from rfl, Except.ok.injEq] at hq
    exact absurd hq (by decide)

end Pgstream.Postgres
