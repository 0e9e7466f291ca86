import SealedCustody.Proofs.Json.Schema
import SealedCustody.Wire.Message

/-!
# Messages are decoded by their schemas

What is received on a protocol is decoded exactly if it is a text of the schema of the message that can be
held, and is malformed otherwise (`messages_match_schemas`). The schemas stand here as they are published,
down to the rules of a criteria; that each message is read by its own follows from the forms of its fields.

The schema alone does not decide. A rule compares with any value, and a value may be written that nothing
holds: a number out of range, or a string with half of a surrogate pair in it (`not_decoded_of_described`).
-/

namespace SealedCustody

open Json

/-- The octets are a text of the schema that nests no deeper than the reader allows. -/
def Json.Schema.Describes (s : Schema) (bs : List UInt8) : Prop :=
  ∃ t : Tree, t.WrittenAs bs ∧ t.depth ≤ depthLimit ∧ s.Accepts t

/-- The octets are such a text in which no string has half of a surrogate pair and no number is out of
range. -/
def Json.Schema.Admits (s : Schema) (bs : List UInt8) : Prop :=
  ∃ t : Tree, t.WrittenAs bs ∧ t.Held ∧ t.depth ≤ depthLimit ∧ s.Accepts t

theorem Json.Format.Reads.isSome_ofOctets?_iff {α : Type} {f : Format α} {s : Schema} (hf : f.Reads s)
    (bs : List UInt8) : (f.ofOctets? bs).isSome ↔ s.Admits bs := by
  rw [Format.ofOctets?]
  constructor
  · intro h
    obtain ⟨a, ha⟩ := Option.isSome_iff_exists.1 h
    obtain ⟨t, ht, hread⟩ := Option.bind_eq_some_iff.1 ha
    obtain ⟨⟨hheld, hdepth⟩, haccepts⟩ := (hf depthLimit t).1 (Option.isSome_of_eq_some hread)
    exact ⟨t, Tree.writtenAs_of_ofOctets? ht hheld, hheld, hdepth, haccepts⟩
  · rintro ⟨t, hwritten, hheld, hdepth, haccepts⟩
    rw [hwritten.ofOctets?, Option.bind_some]
    exact (hf depthLimit t).2 ⟨⟨hheld, hdepth⟩, haccepts⟩

/-- On every protocol, the texts of the schema that can be held are decoded, and what is none is
malformed. -/
def Json.Format.Matches {α : Type} (f : Format α) (s : Schema) : Prop :=
  ∀ (p : ProtocolId) (bs : List UInt8), ((∃ m, p.decode f bs = .ok m) ↔ s.Admits bs) ∧
    (¬s.Admits bs → ∃ detail, p.decode f bs = .error (.protocol p.text (.malformed detail)))

theorem Json.Format.Reads.matches {α : Type} {f : Format α} {s : Schema} (hf : f.Reads s) :
    f.Matches s := by
  intro p bs
  rw [← hf.isSome_ofOctets?_iff, ProtocolId.decode]
  cases f.ofOctets? bs with
  | none => exact ⟨iff_of_false nofun nofun, fun _ => ⟨_, rfl⟩⟩
  | some m => exact ⟨iff_of_true ⟨m, rfl⟩ rfl, fun h => absurd rfl h⟩

/-! ## The schemas -/

/-- A user record and its key. -/
def NewUser.schema : Schema := .record [⟨"id", .text, false⟩, ⟨"u", .text, false⟩, ⟨"k", .text, false⟩]

/-- A block under its hash. -/
def DataBlock.schema : Schema := .record [⟨"hash", .text, false⟩, ⟨"cipher", .text, false⟩]

/-- A payload. -/
def UploadRequest.schema : Schema := .record [⟨"data", .text, false⟩]

/-- The names of the comparisons. -/
def Comparison.schema : Schema := .choice ["equal", "greater", "less", "in"]

/-- A comparison of a field with any value. -/
def Rule.schema : Schema :=
  .record [⟨"Field", .text, false⟩, ⟨"Type", Comparison.schema, false⟩, ⟨"value", .any, false⟩]

/-- A name and two lists of rules, each of which may be left out. -/
def Criteria.schema : Schema :=
  .record [⟨"Name", .nullable .text, true⟩, ⟨"All", .list Rule.schema, true⟩,
    ⟨"Any", .list Rule.schema, true⟩]

/-- A query for a request, about a subject. -/
def VerifyRequest.schema : Schema :=
  .record [⟨"request_id", .text, false⟩, ⟨"subject_id", .text, false⟩,
    ⟨"criteria", Criteria.schema, false⟩]

/-! ## The messages -/

open Fields

theorem NewUser.reads_schema : NewUser.format.Reads NewUser.schema :=
  Format.reads_record (fun _ _ => rfl) (by decide) fun _ _ =>
    fit_cons (isSome_required_iff Format.reads_text "id") fun _ =>
      fit_cons (isSome_required_iff Format.reads_text "u") fun _ =>
        fit_cons (isSome_required_iff Format.reads_text "k") fun _ => fit_nil _

theorem DataBlock.reads_schema : DataBlock.format.Reads DataBlock.schema :=
  Format.reads_record (fun _ _ => rfl) (by decide) fun _ _ =>
    fit_cons (isSome_required_iff Format.reads_text "hash") fun _ =>
      fit_cons (isSome_required_iff Format.reads_text "cipher") fun _ => fit_nil _

theorem UploadRequest.reads_schema : UploadRequest.format.Reads UploadRequest.schema :=
  Format.reads_record (fun _ _ => rfl) (by decide) fun _ _ =>
    fit_cons (isSome_required_iff Format.reads_text "data") fun _ => fit_nil _

theorem Comparison.reads_schema : Comparison.format.Reads Comparison.schema :=
  Format.reads_choice _ _

theorem Rule.reads_schema : Rule.format.Reads Rule.schema :=
  Format.reads_record (fun _ _ => rfl) (by decide) fun _ _ =>
    fit_cons (isSome_required_iff Format.reads_text "Field") fun _ =>
      fit_cons (isSome_required_iff Comparison.reads_schema "Type") fun _ =>
        fit_cons (isSome_required_iff Format.reads_value "value") fun _ => fit_nil _

theorem Criteria.reads_schema : Criteria.format.Reads Criteria.schema :=
  Format.reads_record (fun _ _ => rfl) (by decide) fun _ _ =>
    fit_cons (isSome_optional_iff Format.reads_text "Name") fun _ =>
      fit_cons (isSome_withDefault_iff (Format.reads_list Rule.reads_schema) "All" []) fun _ =>
        fit_cons (isSome_withDefault_iff (Format.reads_list Rule.reads_schema) "Any" []) fun _ =>
          fit_nil _

theorem VerifyRequest.reads_schema : VerifyRequest.format.Reads VerifyRequest.schema :=
  Format.reads_record (fun _ _ => rfl) (by decide) fun _ _ =>
    fit_cons (isSome_required_iff Format.reads_text "request_id") fun _ =>
      fit_cons (isSome_required_iff Format.reads_text "subject_id") fun _ =>
        fit_cons (isSome_required_iff Criteria.reads_schema "criteria") fun _ => fit_nil _

/-- **Messages are decoded by their schemas.** A payload is decoded as a message exactly if it is a text of
the schema of the message with no half of a surrogate pair and no number out of range in it; every other
payload is malformed for its protocol. -/
theorem messages_match_schemas :
    NewUser.format.Matches NewUser.schema ∧ DataBlock.format.Matches DataBlock.schema ∧
      Criteria.format.Matches Criteria.schema ∧ VerifyRequest.format.Matches VerifyRequest.schema :=
  ⟨NewUser.reads_schema.matches, DataBlock.reads_schema.matches, Criteria.reads_schema.matches,
    VerifyRequest.reads_schema.matches⟩

-- arrays all the way down, with the list of alternatives left out and the comparison as a key
example :
    (Criteria.format.ofOctets? (Utf8.octets "[null,[[\"age\",\x7b\"in\":null\x7d,[18]]]]")).isSome := by
  decide +kernel

-- one item more than there are fields
example : (Criteria.format.ofOctets? (Utf8.octets "[null,[],[],[]]")).isNone := by
  decide +kernel

/-! ## Texts of a schema that cannot be held -/

/-- A text in which one token has a spelling of its own. -/
theorem Json.Tree.writtenAs_of_lexeme {t : Tree} {token : Token} {first text last : String}
    {before after : List Token} (htokens : t.tokens = before ++ token :: after)
    (h : Grammar.Lexeme text.toList token) (hbefore : ∀ u ∈ before, u.isExact = true)
    (hafter : ∀ u ∈ after, u.isExact = true) (hfirst : first = Token.render before)
    (hlast : last = Token.render after) : t.WrittenAs (Utf8.octets (first ++ text ++ last)) := by
  refine ⟨_, Utf8.octets_eq _, ?_⟩
  rw [htokens, hfirst, hlast, Token.render, Token.render, String.toList_append, String.toList_append,
    String.toList_ofList, String.toList_ofList, List.append_assoc]
  exact (spells_text hbefore).append (.token h (spells_text hafter))

/-- A criteria of one rule, with the tree of the value that it compares with. -/
def Criteria.comparing (v : Tree) : Tree :=
  .object [(some "All", .array [.object [(some "Field", .string (some "v")),
    (some "Type", .string (some "equal")), (some "value", v)]])]

theorem Criteria.schema_accepts_comparing (v : Tree) :
    Criteria.schema.Accepts (Criteria.comparing v) := by
  have hrule : Rule.schema.Accepts (.object [(some "Field", .string (some "v")),
      (some "Type", .string (some "equal")), (some "value", v)]) := by
    refine .object (by simp) (by simp) (by simp) ?_
    simp only [List.forall_mem_cons, List.not_mem_nil, Option.some.injEq, String.reduceEq, false_implies,
      true_implies, implies_true, true_and, and_true]
    exact ⟨.text _, .name (by decide), .any v⟩
  refine .object (by simp) (by simp) (by simp) ?_
  simp only [List.forall_mem_cons, List.not_mem_nil, Option.some.injEq, String.reduceEq, false_implies,
    true_implies, implies_true, true_and, and_true]
  exact .list (List.forall_mem_singleton.2 hrule)

/-- A text of such a criteria, with the text of the value. -/
def Criteria.comparingText (text : String) : String :=
  "\x7b\"All\":[\x7b\"Field\":\"v\",\"Type\":\"equal\",\"value\":" ++ text ++ "\x7d]\x7d"

/-- A rule may compare with any value, however it is written. -/
theorem Criteria.describes_comparingText {v : Tree} {token : Token} (hv : v.tokens = [token])
    (hdepth : v.depth = 0) {text : String} (h : Grammar.Lexeme text.toList token) :
    Criteria.schema.Describes (Utf8.octets (Criteria.comparingText text)) := by
  have htokens : (Criteria.comparing v).tokens =
      ([.openObject, .string (some "All"), .colon, .openArray, .openObject, .string (some "Field"),
        .colon, .string (some "v"), .comma, .string (some "Type"), .colon, .string (some "equal"),
        .comma, .string (some "value"), .colon] : List Token) ++
          token :: ([.closeObject, .closeArray, .closeObject] : List Token) := by
    simp [Criteria.comparing, Tree.tokens, itemTokens, memberTokens, separated, hv]
  refine ⟨Criteria.comparing v, ?_, ?_, Criteria.schema_accepts_comparing v⟩
  · exact Tree.writtenAs_of_lexeme htokens h (by decide) (by decide) (by decide +kernel)
      (by decide +kernel)
  · simp [Criteria.comparing, Tree.depth, itemsDepth, membersDepth, hdepth, depthLimit]

/-- Ten to the power of 400 is a numeral of the grammar, and out of range. -/
theorem Json.Grammar.lexeme_large : Lexeme ['1', 'e', '4', '0', '0'] (.number none) := by
  have hwhole : Whole ['1'] := ⟨⟨nofun, by simp⟩, nofun⟩
  have hexponent : Exponent (['e'] ++ ([] ++ ['4', '0', '0'])) (some (false, ['4', '0', '0'])) :=
    .present (Or.inl rfl) .absent ⟨nofun, by simp⟩
  refine .outOfRange (.positive (.mk hwhole .absent hexponent)) (NumeralText.number?_eq_none_iff.1 ?_)
  decide +kernel

/-- Half of a surrogate pair may be written, and is no character. -/
theorem Json.Grammar.lexeme_half :
    Lexeme ['"', '\\', 'u', 'd', 'e', 'a', 'd', '"'] (.string none) := by
  have hunit := HexUnit.mk (.lower (c := 'd') (by decide)) (.lower (c := 'e') (by decide))
    (.lower (c := 'a') (by decide)) (.lower (c := 'd') (by decide))
  have hmarks : Marks ['\\', 'u', 'd', 'e', 'a', 'd'] := .cons (.unit hunit) .nil
  refine Lexeme.illFormed hmarks fun s hs => ?_
  have hread := hs.read [] []
  have hnone : string? (some []) (symbols (['\\', 'u', 'd', 'e', 'a', 'd'] ++ ['"']) ++ []) =
      some (none, []) := by decide +kernel
  rw [hnone] at hread
  cases hread

theorem Json.Format.malformed_of_not_read {α : Type} {f : Format α} {bs : List UInt8}
    (h : (f.ofOctets? bs).isNone) (p : ProtocolId) :
    ∃ detail, p.decode f bs = .error (.protocol p.text (.malformed detail)) := by
  rw [ProtocolId.decode, Option.isNone_iff_eq_none.1 h]
  exact ⟨_, rfl⟩

/-- Texts of the schema that are malformed: the value of a rule is a number out of range, or has half of a
surrogate pair in it. -/
theorem not_decoded_of_described :
    (Criteria.schema.Describes (Utf8.octets (Criteria.comparingText "1e400")) ∧
      ∃ detail, ProtocolId.verify.decode Criteria.format (Utf8.octets (Criteria.comparingText "1e400")) =
        .error (.protocol ProtocolId.verify.text (.malformed detail))) ∧
    Criteria.schema.Describes (Utf8.octets (Criteria.comparingText "\"\\udead\"")) ∧
      ∃ detail,
        ProtocolId.verify.decode Criteria.format (Utf8.octets (Criteria.comparingText "\"\\udead\"")) =
          .error (.protocol ProtocolId.verify.text (.malformed detail)) := by
  refine ⟨⟨?_, Format.malformed_of_not_read ?_ _⟩, ?_, Format.malformed_of_not_read ?_ _⟩
  · exact Criteria.describes_comparingText (v := .number none) rfl rfl Grammar.lexeme_large
  · decide +kernel
  · exact Criteria.describes_comparingText (v := .string none) rfl rfl Grammar.lexeme_half
  · decide +kernel

end SealedCustody
