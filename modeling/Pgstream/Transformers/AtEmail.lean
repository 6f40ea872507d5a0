/-
# Pgstream.Transformers.AtEmail — the email scrambler as a transformer, and the builder

`AtEmailTransformer` exposes `scrambleEmail` as a column transformer. `NewAtEmailTransformer`
reads its three string parameters, each with a default, through `FindParameterWithDefault`; the
three reads are one definition, `readParameter`, applied to each parameter's name and default, and
every error it returns begins with the name of the parameter it reads (`newAtEmailTransformer_spec`).
The defaults it passes are the `Default` column of `atEmailParams`, the table the transformer's
definition publishes (`atEmailParams_defaults`). `Transform` scrambles a string or a byte slice
alike, as the template function `atEmailScramble` does, and rejects every other value with one
message, which names the type of the `Value` wrapper rather than that of the value it holds.

`builder.New` builds a transformer from a configuration by a switch over fourteen transformer
names. The email scrambler's own type, `AtEmail`, is not among them: `New` refuses it as it refuses
an unknown name (`new_eq_none_iff`). The names are constants declared outside `src/`; the model
takes them as distinct, one constructor each, with `other` for any other name.
-/
import Pgstream.Transformers.Email

namespace Pgstream.Transformers

open Pgstream.Go

/-! ## `NewAtEmailTransformer` and its parameters -/

/-- `Parameter`, the entry of a transformer definition's parameter table, by the fields the
modelled code reads: its name and its default. -/
structure Parameter where
  name : Bytes
  default : Bytes
deriving DecidableEq

/-- `atEmailParams`, by name and default; every entry is a string parameter, neither dynamic nor
required. -/
def atEmailParams : List Parameter :=
  [⟨str "replacement_domain", str "@crypt.com"⟩,
   ⟨str "exclude_domain", []⟩,
   ⟨str "salt", str "defaultsalt"⟩]

/-- `AtEmailTransformer`. -/
structure AtEmailTransformer where
  replacementDomain : Bytes
  excludeDomain : Bytes
  salt : Bytes
deriving DecidableEq

section New

variable {P : Type} (findParameterWithDefault : P → Bytes → Bytes → Except Bytes Bytes)

/-- One parameter read of `NewAtEmailTransformer`: `FindParameterWithDefault(params, name,
default)`, its error wrapped as `name: name must be a string: %w`. -/
def readParameter (params : P) (name default : Bytes) : Except Bytes Bytes :=
  match findParameterWithDefault params name default with
  | .error err => .error (name ++ str ": " ++ name ++ str " must be a string: " ++ err)
  | .ok value => .ok value

/-- `NewAtEmailTransformer(params)`; `FindParameterWithDefault` is declared outside `src/`. -/
def newAtEmailTransformer (params : P) : Except Bytes AtEmailTransformer := do
  let replacementDomain ← readParameter findParameterWithDefault params
    (str "replacement_domain") (str "@crypt.com")
  let excludeDomain ← readParameter findParameterWithDefault params (str "exclude_domain") []
  let salt ← readParameter findParameterWithDefault params (str "salt") (str "defaultsalt")
  return ⟨replacementDomain, excludeDomain, salt⟩

variable {findParameterWithDefault}

theorem readParameter_eq_ok {params : P} {name default value : Bytes} :
    readParameter findParameterWithDefault params name default = .ok value ↔
      findParameterWithDefault params name default = .ok value := by
  unfold readParameter
  split <;> simp_all

theorem readParameter_error_name {params : P} {name default err : Bytes}
    (h : readParameter findParameterWithDefault params name default = .error err) :
    name ++ str ": " <+: err := by
  unfold readParameter at h
  split at h
  · rename_i e _
    cases h
    exact ⟨name ++ str " must be a string: " ++ e, by simp only [List.append_assoc]⟩
  · cases h

/-- **What `NewAtEmailTransformer` builds**: the transformer of the three values read, each
parameter with its own default; and every error names the parameter it came from. -/
theorem newAtEmailTransformer_spec (params : P) :
    (∀ t, newAtEmailTransformer findParameterWithDefault params = .ok t ↔
      findParameterWithDefault params (str "replacement_domain") (str "@crypt.com") =
          .ok t.replacementDomain ∧
        findParameterWithDefault params (str "exclude_domain") [] = .ok t.excludeDomain ∧
        findParameterWithDefault params (str "salt") (str "defaultsalt") = .ok t.salt) ∧
    (∀ err, newAtEmailTransformer findParameterWithDefault params = .error err →
      ∃ p ∈ atEmailParams, p.name ++ str ": " <+: err) := by
  simp only [newAtEmailTransformer, bind, pure, Except.pure, bind_eq_ok, bind_eq_error,
    readParameter_eq_ok]
  constructor
  · rintro ⟨r, e, s⟩
    simp only [Except.ok.injEq, AtEmailTransformer.mk.injEq]
    constructor
    · rintro ⟨_, h1, _, h2, _, h3, rfl, rfl, rfl⟩
      exact ⟨h1, h2, h3⟩
    · rintro ⟨h1, h2, h3⟩
      exact ⟨_, h1, _, h2, _, h3, rfl, rfl, rfl⟩
  -- an error is the first read's that fails
  · rintro err (h | ⟨_, -, h | ⟨_, -, h | ⟨_, -, h⟩⟩⟩)
    · exact ⟨_, List.mem_cons_self _ _, readParameter_error_name h⟩
    · exact ⟨_, List.mem_cons_of_mem _ (List.mem_cons_self _ _), readParameter_error_name h⟩
    · exact ⟨_, List.mem_cons_of_mem _ (List.mem_cons_of_mem _ (List.mem_cons_self _ _)),
        readParameter_error_name h⟩
    · cases h

end New

/-- **The defaults agree with the published table.** When every parameter is left at its default,
the transformer is built from the `Default` column of `atEmailParams`, parameter by parameter. -/
theorem atEmailParams_defaults {P : Type} (params : P) :
    newAtEmailTransformer (fun _ _ default => .ok default) params =
      .ok ⟨(atEmailParams.get ⟨0, by decide⟩).default, (atEmailParams.get ⟨1, by decide⟩).default,
        (atEmailParams.get ⟨2, by decide⟩).default⟩ ∧
    atEmailParams.map Parameter.name =
      [str "replacement_domain", str "exclude_domain", str "salt"] :=
  ⟨rfl, rfl⟩

/-! ## `Transform`, `Type` and the template function -/

/-- The `TransformValue` of a `Value`, by the cases `Transform` tells apart. -/
inductive TransformValue
  | string (s : Bytes)
  | bytes (b : Bytes)
  | other

/-- The transformer names: the fourteen `builder.New` switches on, `AtEmail`, and any other. -/
inductive TransformerType
  | greenmaskString | greenmaskFirstName | greenmaskInteger | greenmaskFloat | greenmaskUUID
  | greenmaskBoolean | greenmaskChoice | greenmaskUnixTimestamp | greenmaskDate
  | greenmaskUTCTimestamp | string | neosyncString | neosyncFirstName | neosyncEmail | atEmail
  | other (name : Bytes)
deriving DecidableEq

section Transform

variable (sha256 : Bytes → Sum32) (errUnsupportedValueType : Bytes)

/-- `AtEmailTransformer.transform(str)`. -/
def AtEmailTransformer.transformString (st : AtEmailTransformer) (s : Bytes) : Bytes :=
  scrambleEmail sha256 s st.excludeDomain st.replacementDomain st.salt

/-- `AtEmailTransformer.Transform(ctx, v)`. The message formats `v`, the `Value`, with `%T`, so it
names `transformers.Value` whatever `v.TransformValue` holds; `ErrUnsupportedValueType` is declared
outside `src/`. -/
def AtEmailTransformer.transform (st : AtEmailTransformer) (v : TransformValue) : Except Bytes Bytes :=
  match v with
  | .string s => .ok (st.transformString sha256 s)
  | .bytes b => .ok (st.transformString sha256 b)
  | .other =>
    .error (str "expected string, got " ++ str "transformers.Value" ++ str ": " ++
      errUnsupportedValueType)

/-- The `atEmailScramble` entry of `FuncMap()`. -/
def atEmailScramble (excludeDomain replacementDomain salt value : Bytes) : Bytes :=
  scrambleEmail sha256 value excludeDomain replacementDomain salt

end Transform

/-- `AtEmailTransformer.Type()`. -/
def AtEmailTransformer.type (_ : AtEmailTransformer) : TransformerType := .atEmail

/-- **Every entry point scrambles the same way.** A string and a byte slice give the same result,
the template function with the transformer's parameters gives it too, and every other value is
rejected with one message. -/
theorem AtEmailTransformer.transform_spec (sha256 : Bytes → Sum32) (e : Bytes)
    (st : AtEmailTransformer) (s : Bytes) :
    st.transform sha256 e (.string s) = st.transform sha256 e (.bytes s) ∧
    st.transform sha256 e (.string s) =
      .ok (atEmailScramble sha256 st.excludeDomain st.replacementDomain st.salt s) ∧
    st.transform sha256 e .other = .error (str "expected string, got transformers.Value: " ++ e) :=
  ⟨rfl, rfl, by simp only [transform]; rfl⟩

/-! ## `builder.New` -/

/-- `builder.New(cfg)`, by `cfg.Name`: the name of the transformer whose constructor it calls with
`cfg.Parameters`, or `none` for `ErrUnsupportedTransformer`. -/
def new (name : TransformerType) : Option TransformerType :=
  match name with
  | .greenmaskString => some .greenmaskString
  | .greenmaskFirstName => some .greenmaskFirstName
  | .greenmaskInteger => some .greenmaskInteger
  | .greenmaskFloat => some .greenmaskFloat
  | .greenmaskUUID => some .greenmaskUUID
  | .greenmaskBoolean => some .greenmaskBoolean
  | .greenmaskChoice => some .greenmaskChoice
  | .greenmaskUnixTimestamp => some .greenmaskUnixTimestamp
  | .greenmaskDate => some .greenmaskDate
  | .greenmaskUTCTimestamp => some .greenmaskUTCTimestamp
  | .string => some .string
  | .neosyncString => some .neosyncString
  | .neosyncFirstName => some .neosyncFirstName
  | .neosyncEmail => some .neosyncEmail
  | _ => none

/-- **`New` cannot build the email scrambler.** It refuses exactly the names it has no case for:
an unknown name, and `AtEmail`, the type every `AtEmailTransformer` reports; every other name
builds the transformer of that name. -/
theorem new_eq_none_iff (name : TransformerType) :
    (new name = none ↔ name = .atEmail ∨ ∃ n, name = .other n) ∧
    (new name ≠ none → new name = some name) ∧
    ∀ st : AtEmailTransformer, new st.type = none := by
  refine ⟨?_, ?_, fun _ => rfl⟩ <;> cases name <;> simp [new]

end Pgstream.Transformers
