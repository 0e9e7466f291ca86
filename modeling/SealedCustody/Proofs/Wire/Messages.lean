import SealedCustody.Proofs.Json.Depth
import SealedCustody.Proofs.Json.Forms
import SealedCustody.Wire.Message

/-!
# Messages survive the wire

Every message of an enrolment, an upload and a verification is kept by its form (`Format.Keeps`), so
what one node encodes another decodes (`messages_survive`). A query is kept if the literals of its rules
are legible below the four objects and lists that a rule stands in; that is so if their numbers are
integers and the encoding of the query nests no deeper than the reader allows.
-/

namespace SealedCustody

open Json

/-- A message that is kept is decoded from its octets. -/
theorem ProtocolId.decode_octets {α : Type} (p : ProtocolId) {f : Format α} {a : α}
    (h : f.Keeps depthLimit a) : p.decode f (f.octets a) = .ok a := by
  rw [ProtocolId.decode, h.ofOctets?_octets]

/-- What is decoded was read from the tree of its octets. -/
theorem ProtocolId.exists_tree {α : Type} {p : ProtocolId} {f : Format α} {bs : List UInt8} {a : α}
    (h : p.decode f bs = .ok a) :
    ∃ t, Tree.ofOctets? bs = some t ∧ f.read depthLimit t = some a := by
  cases hread : f.ofOctets? bs with
  | none =>
    rw [decode, hread] at h
    cases h
  | some b =>
    rw [decode, hread] at h
    obtain rfl := Except.ok.inj h
    exact Option.bind_eq_some_iff.1 hread

/-- Nothing is not a message. -/
theorem ProtocolId.decode_nil {α : Type} (p : ProtocolId) (f : Format α) (a : α) :
    p.decode f [] ≠ .ok a := by
  intro h
  have hnone : Tree.ofOctets? [] = none := by
    rw [Tree.ofOctets?, Utf8.decode, Utf8.decodeOnto, List.reverse_nil, Tree.ofSymbols?, tokens?,
      tokensOnto]
    rfl
  rw [ProtocolId.decode, Format.ofOctets?, hnone] at h
  cases h

/-! ## Texts -/

theorem PrintMessage.keeps (d : Nat) (m : PrintMessage) : PrintMessage.format.Keeps (d + 1) m where
  exact := exact_objectOf <| by simp [Format.exact_text]
  read := rfl

/-! ## Enrolment -/

theorem NewUser.keeps (d : Nat) (m : NewUser) : NewUser.format.Keeps (d + 1) m where
  exact := exact_objectOf <| by simp [Format.exact_text]
  read := rfl

theorem Receipt.keeps (d : Nat) (m : Receipt) : Receipt.format.Keeps (d + 1) m where
  exact := exact_objectOf <| by simp [Format.exact_text]
  read := rfl

/-! ## Blocks -/

theorem DataBlock.keeps (d : Nat) (m : DataBlock) : DataBlock.format.Keeps (d + 1) m where
  exact := exact_objectOf <| by simp [Format.exact_text]
  read := rfl

theorem UploadRequest.keeps (d : Nat) (m : UploadRequest) : UploadRequest.format.Keeps (d + 1) m where
  exact := exact_objectOf <| by simp [Format.exact_text]
  read := rfl

theorem UploadReceipt.keeps (d : Nat) (m : UploadReceipt) : UploadReceipt.format.Keeps (d + 1) m where
  exact := exact_objectOf <| by simp [Format.exact_text]
  read := rfl

/-! ## Queries -/

theorem Comparison.keeps (d : Nat) (op : Comparison) : Comparison.format.Keeps d op :=
  Format.keeps_choice d (by cases op <;> rfl)

/-- A rule is kept one deeper than its literal. -/
theorem Rule.keeps {d : Nat} {r : Rule} (h : r.value.Legible d) : Rule.format.Keeps (d + 1) r where
  exact := exact_objectOf <| by
    simp [Format.exact_text, (Comparison.keeps d r.op).exact, Format.value, h.exact]
  read := by
    have hread : Rule.format.read (d + 1) (Rule.format.tree r) =
        (Comparison.format.read d (Comparison.format.tree r.op)).bind fun op =>
          (Format.value.read d (Format.value.tree r.value)).bind fun value =>
            some ⟨r.field, op, value⟩ := rfl
    rw [hread, (Comparison.keeps d r.op).read, Option.bind_some, (Format.keeps_value h).read,
      Option.bind_some]

/-- The literals of all rules are legible. -/
def Criteria.Legible (d : Nat) (c : Criteria) : Prop := ∀ r ∈ c.all ++ c.any, r.value.Legible d

/-- A criteria is kept three deeper than the literals of its rules: they stand in the object of a rule, in
a list, in the object of the criteria. -/
theorem Criteria.keeps {d : Nat} {c : Criteria} (h : c.Legible d) :
    Criteria.format.Keeps (d + 3) c := by
  have hall : (Format.list Rule.format).Keeps (d + 2) c.all :=
    Format.keeps_list fun r hr => Rule.keeps (h r (List.mem_append_left c.any hr))
  have hany : (Format.list Rule.format).Keeps (d + 2) c.any :=
    Format.keeps_list fun r hr => Rule.keeps (h r (List.mem_append_right c.all hr))
  -- a criteria without a name is written without that member, and read the same
  have hread : Criteria.format.read (d + 3) (Criteria.format.tree c) =
      ((Format.list Rule.format).read (d + 2) ((Format.list Rule.format).tree c.all)).bind fun all =>
        ((Format.list Rule.format).read (d + 2) ((Format.list Rule.format).tree c.any)).bind
          fun any => some ⟨c.name, all, any⟩ := by
    obtain ⟨name, all, any⟩ := c
    cases name <;> rfl
  constructor
  · refine exact_objectOf ?_
    cases hname : c.name with
    | none => simp [hall.exact, hany.exact]
    | some s => simp [hall.exact, hany.exact, Format.exact_text]
  · rw [hread, hall.read, Option.bind_some, hany.read, Option.bind_some]

/-- A query is kept four deeper than the literals of the rules. -/
theorem VerifyRequest.keeps {d : Nat} {q : VerifyRequest} (h : q.criteria.Legible d) :
    VerifyRequest.format.Keeps (d + 4) q where
  exact := exact_objectOf <| by
    simp [Format.exact_text, (Criteria.keeps h).exact]
  read := by
    have hread : VerifyRequest.format.read (d + 4) (VerifyRequest.format.tree q) =
        (Criteria.format.read (d + 3) (Criteria.format.tree q.criteria)).bind fun criteria =>
          some ⟨q.requestId, q.subjectId, criteria⟩ := rfl
    rw [hread, (Criteria.keeps h).read, Option.bind_some]

/-! ## Answers -/

theorem Verdict.keeps (d : Nat) (v : Verdict) : Verdict.format.Keeps d v :=
  Format.keeps_choice d (by cases v <;> rfl)

theorem VerifyResponse.keeps (d : Nat) (m : VerifyResponse) :
    VerifyResponse.format.Keeps (d + 1) m where
  exact := exact_objectOf <| by
    simp [Format.exact_text, (Verdict.keeps d m.verdict).exact]
  read := by
    have hread : VerifyResponse.format.read (d + 1) (VerifyResponse.format.tree m) =
        (Verdict.format.read d (Verdict.format.tree m.verdict)).bind fun verdict =>
          some ⟨m.requestId, verdict⟩ := rfl
    rw [hread, (Verdict.keeps d m.verdict).read, Option.bind_some]

/-! ## All messages -/

/-- The numbers in the literals of all rules are integers. -/
def Criteria.Integral (c : Criteria) : Prop := ∀ r ∈ c.all ++ c.any, r.value.Integral

/-- The object of a rule nests one deeper than the literal. -/
theorem Rule.depth_value_le {r : Rule} {d : Nat} (h : (Rule.format.tree r).depth ≤ d + 1) :
    r.value.tree.depth ≤ d :=
  depth_objectOf_le_iff.1 h ("value", some (Format.value.tree r.value)) (by simp) _ rfl

/-- In a criteria that nests no deeper than the reader allows, the literals of the rules are legible. -/
theorem Criteria.legible_of_depth {c : Criteria} {d : Nat} (hc : c.Integral)
    (hdepth : (Criteria.format.tree c).depth ≤ d + 3) : c.Legible d := by
  have hmembers := depth_objectOf_le_iff.1 hdepth
  have hlist : ∀ rs : List Rule, ((Format.list Rule.format).tree rs).depth ≤ d + 2 →
      ∀ r ∈ rs, r.value.tree.depth ≤ d := by
    intro rs hrs r hr
    exact Rule.depth_value_le
      (Tree.depth_array_le_iff.1 hrs _ (List.mem_map_of_mem hr))
  have hall := hlist c.all (hmembers ("All", _) (by simp) _ rfl)
  have hany := hlist c.any (hmembers ("Any", _) (by simp) _ rfl)
  intro r hr
  refine Value.legible_iff.2 ⟨hc r hr, ?_⟩
  rcases List.mem_append.1 hr with hr | hr
  · exact hall r hr
  · exact hany r hr

/-- A query nests one deeper than its criteria. -/
theorem VerifyRequest.depth_criteria_le {q : VerifyRequest} {d : Nat}
    (h : (VerifyRequest.format.tree q).depth ≤ d + 1) : (Criteria.format.tree q.criteria).depth ≤ d :=
  depth_objectOf_le_iff.1 h ("criteria", _) (by simp) _ rfl

/-- What is encoded is decoded as the same message, on every protocol. -/
def Json.Format.Survives {α : Type} (f : Format α) (m : α) : Prop :=
  ∀ p : ProtocolId, p.decode f (f.octets m) = .ok m

/-- **Messages survive the wire.** Every message is decoded as it was encoded, if the numbers in it are
integers and its encoding nests no deeper than the reader allows. -/
theorem messages_survive :
    (∀ m : PrintMessage, PrintMessage.format.Survives m) ∧
      (∀ m : NewUser, NewUser.format.Survives m) ∧
      (∀ m : Receipt, Receipt.format.Survives m) ∧
      (∀ m : UploadRequest, UploadRequest.format.Survives m) ∧
      (∀ m : UploadReceipt, UploadReceipt.format.Survives m) ∧
      (∀ m : DataBlock, DataBlock.format.Survives m) ∧
      (∀ m : VerifyResponse, VerifyResponse.format.Survives m) ∧
      (∀ c : Criteria, c.Integral → (Criteria.format.tree c).depth ≤ depthLimit →
        Criteria.format.Survives c) ∧
      ∀ q : VerifyRequest, q.criteria.Integral → (VerifyRequest.format.tree q).depth ≤ depthLimit →
        VerifyRequest.format.Survives q := by
  refine ⟨fun m p => p.decode_octets (m.keeps 126), fun m p => p.decode_octets (m.keeps 126),
    fun m p => p.decode_octets (m.keeps 126), fun m p => p.decode_octets (m.keeps 126),
    fun m p => p.decode_octets (m.keeps 126), fun m p => p.decode_octets (m.keeps 126),
    fun m p => p.decode_octets (m.keeps 126), fun c hc hdepth p => ?_, fun q hq hdepth p => ?_⟩
  · exact p.decode_octets (Criteria.keeps (d := 124) (Criteria.legible_of_depth hc hdepth))
  · have hcriteria := VerifyRequest.depth_criteria_le (d := 126) hdepth
    exact p.decode_octets (VerifyRequest.keeps (d := 123) (Criteria.legible_of_depth hq hcriteria))

/-- Arrays inside one another, so many, around `null`. -/
def Json.Value.nested : Nat → Value
  | 0 => .null
  | n + 1 => .array [nested n]

theorem Json.Value.integral_nested (n : Nat) : (nested n).Integral := by
  induction n with
  | zero => exact .null
  | succ n ih => exact .array (List.forall_mem_singleton.2 ih)

theorem Json.Value.depth_tree_nested (n : Nat) : (nested n).tree.depth = n := by
  induction n with
  | zero => rfl
  | succ n ih =>
    rw [nested, tree, itemTrees, itemTrees, Tree.depth, itemsDepth, itemsDepth, ih, Nat.max_zero]

/-- The deepest messages that survive: a criteria with a literal of 124 arrays, a query with one of 123. -/
theorem messages_survive_at_depthLimit :
    let criteria (n : Nat) : Criteria := ⟨some "deep", [⟨"a.b", .equal, .nested n⟩], []⟩
    let query : VerifyRequest := ⟨"r1", "u1", criteria 123⟩
    (Criteria.format.tree (criteria 124)).depth = depthLimit ∧
      (VerifyRequest.format.tree query).depth = depthLimit ∧
      Criteria.format.Survives (criteria 124) ∧ VerifyRequest.format.Survives query := by
  intro criteria query
  have hintegral : ∀ n, (criteria n).Integral := fun n =>
    List.forall_mem_singleton.2 (Value.integral_nested n)
  have hcriteria : ∀ n, (Criteria.format.tree (criteria n)).depth = n + 3 := by
    intro n
    simp [Criteria.format, Format.list, Rule.format, Format.value, objectOf, Tree.depth, itemsDepth,
      membersDepth, Value.depth_tree_nested, criteria, Comparison.format, Format.choice, Format.text]
  have hquery : (VerifyRequest.format.tree query).depth = 127 := by
    simp [VerifyRequest.format, objectOf, Tree.depth, membersDepth, hcriteria, query, Format.text]
  obtain ⟨-, -, -, -, -, -, -, hc, hq⟩ := messages_survive
  exact ⟨hcriteria 124, hquery, hc _ (hintegral 124) (hcriteria 124).le, hq _ (hintegral 123) hquery.le⟩

end SealedCustody
