import Formulary.Proofs.AddedField
import Mathlib.Data.Char

/-!
# Fields in their order

What a schema says of its fields after one has been added (`addField_exact`): of the others what it
said, and of this one what it was declared with, at its place in the order. The number of the order is
read back from its decimal text.
-/

namespace Formulary
open Std

/-! ## Numbers -/

/-- Digits say the number that they are the digits of. -/
theorem decimalNumber?_of_isDigit {digits : List Char} (all : ∀ c ∈ digits, c.isDigit) :
    decimalNumber? digits = some (Nat.ofDigitChars 10 digits 0) := by
  have read : ∀ n, digits.foldlM (fun n c =>
      if c.isDigit then some (10 * n + (c.toNat - '0'.toNat)) else none) n =
        some (Nat.ofDigitChars 10 digits n) := by
    induction digits with
    | nil => exact fun _ => rfl
    | cons c rest ih =>
      obtain ⟨digit, others⟩ := List.forall_mem_cons.mp all
      intro n
      rw [List.foldlM_cons, if_pos digit]
      exact ih others _
  exact read 0

theorem isBlank_of_isDigit {c : Char} (digit : c.isDigit) : isBlank c = false := by
  have bounds : 48 ≤ c.val.toNat ∧ c.val.toNat ≤ 57 := by
    simpa [Char.isDigit, UInt32.le_iff_toNat_le] using digit
  have apart : ∀ b : Char, b.val.toNat < 48 ∨ 57 < b.val.toNat → (c == b) = false := by
    intro b outside
    refine beq_eq_false_iff_ne.mpr fun same => ?_
    subst same
    omega
  have beyond : ∀ b e : Char, e.val.toNat < 48 ∨ 57 < b.val.toNat →
      (decide (b ≤ c) && decide (c ≤ e)) = false := by
    intro b e outside
    simp only [Char.le_def, UInt32.le_iff_toNat_le, Bool.and_eq_false_iff, decide_eq_false_iff_not]
    omega
  rw [isBlank]
  simp only [beyond '\t' '\r' (by decide), beyond '\u2000' '\u200a' (by decide),
    apart ' ' (by decide), apart '\u0085' (by decide), apart '\u00a0' (by decide),
    apart '\u1680' (by decide), apart '\u2028' (by decide), apart '\u2029' (by decide),
    apart '\u202f' (by decide), apart '\u205f' (by decide), apart '\u3000' (by decide), Bool.or_false]

/-- A text without white space has none at its ends. -/
theorem trimBlank_eq_self {text : List Char} (plain : ∀ c ∈ text, isBlank c = false) :
    trimBlank text = text := by
  have kept : ∀ list : List Char, (∀ c ∈ list, isBlank c = false) → list.dropWhile isBlank = list := by
    intro list plain
    cases list with
    | nil => rfl
    | cons c rest => rw [List.dropWhile_cons, plain c List.mem_cons_self, if_neg Bool.false_ne_true]
  rw [trimBlank, kept text plain, kept _ fun c member => plain c (List.mem_reverse.mp member),
    List.reverse_reverse]

namespace FieldInfo

/-- Digits after an optional sign are read as their number, if this is a signed 64-bit one. -/
theorem number?_of_digits {digits : List Char} {size : Nat} {text : String} {negative : Bool}
    (written : text.toList = if negative then '-' :: digits else digits)
    (all : ∀ c ∈ digits, c.isDigit) (occupied : digits ≠ [])
    (number : decimalNumber? digits = some size) : number? text =
      let value : Int := if negative then -size else size
      if Int64.minValue.toInt ≤ value ∧ value ≤ Int64.maxValue.toInt then some (.ofInt value)
      else none := by
  have plain : ∀ c ∈ digits, isBlank c = false := fun c member => isBlank_of_isDigit (all c member)
  obtain ⟨c, rest, rfl⟩ := List.exists_cons_of_ne_nil occupied
  cases negative with
  | true =>
    have signed : ∀ c' ∈ '-' :: c :: rest, isBlank c' = false :=
      List.forall_mem_cons.mpr ⟨by decide, plain⟩
    rw [if_pos rfl] at written
    rw [number?, written, trimBlank_eq_self signed]
    simp only [List.isEmpty_cons, Bool.false_eq_true, if_false, number, Option.bind_eq_bind,
      Option.bind_some]
  | false =>
    have digit : c.isDigit := all c List.mem_cons_self
    have notMinus : c ≠ '-' := fun same => absurd (same ▸ digit) (by decide)
    have notPlus : c ≠ '+' := fun same => absurd (same ▸ digit) (by decide)
    rw [if_neg Bool.false_ne_true] at written
    rw [number?, written, trimBlank_eq_self plain]
    simp only [List.cons.injEq, notMinus, notPlus, false_and, imp_false, not_false_eq_true,
      implies_true, List.isEmpty_cons, Bool.false_eq_true, if_false, number, Option.bind_eq_bind,
      Option.bind_some]

/-- Every order is read back from its decimal text. -/
theorem number?_toString (order : Int64) : number? (toString order.toInt) = some order := by
  have digits : ∀ n, ∀ c ∈ Nat.toDigits 10 n, c.isDigit := fun n c member =>
    Nat.isDigit_of_mem_toDigits (by decide) (by decide) member
  have value : ∀ n, decimalNumber? (Nat.toDigits 10 n) = some n := fun n => by
    rw [decimalNumber?_of_isDigit (digits n), Nat.ofDigitChars_toDigits (by decide) (by decide)]
  obtain ⟨negative, size, written, same⟩ : ∃ (negative : Bool) (size : Nat),
      ((toString order.toInt).toList = if negative then '-' :: Nat.toDigits 10 size else
        Nat.toDigits 10 size) ∧ order.toInt = if negative then -(size : Int) else size := by
    cases order.toInt with
    | ofNat size => exact ⟨false, size, Nat.toList_repr, rfl⟩
    | negSucc size =>
      have repr : toString (Int.negSucc size) = "-" ++ (size + 1).repr := rfl
      refine ⟨true, size + 1, ?_, rfl⟩
      rw [repr, String.toList_append, Nat.toList_repr]
      rfl
  rw [number?_of_digits written (digits size) Nat.toDigits_ne_nil (value size), ← same]
  rw [if_pos ⟨Int64.minValue_le_toInt order, Int64.toInt_le order⟩, Int64.ofInt_toInt]

/-! ## The order of fields -/

/-- The field comes before the other: by their orders, fields without one last, and then by their
IRIs. -/
def Before (f g : FieldInfo) : Prop :=
  match f.order, g.order with
  | some m, some n => m < n ∨ m = n ∧ compare f.uri g.uri = .lt
  | some _, none => True
  | none, some _ => False
  | none, none => compare f.uri g.uri = .lt

theorem before_iff {f g : FieldInfo} : f.Before g ↔ compare f.rank g.rank = .lt := by
  have unfolded : compare f.rank g.rank = (compare f.order.isNone g.order.isNone).then
      ((compare f.order g.order).then (compare f.uri g.uri)) := rfl
  rw [unfolded, Before]
  cases f.order with
  | none =>
    cases g.order with
    | none => exact Iff.rfl
    | some n => exact ⟨False.elim, nofun⟩
  | some m =>
    cases g.order with
    | none => exact ⟨fun _ => rfl, fun _ => trivial⟩
    | some n =>
      have orders : compare (some m) (some n) = compare m n := rfl
      have numbers : compare m n = if m < n then .lt else if m = n then .eq else .gt := rfl
      simp only [orders, numbers, Option.isNone_some, compare_self, Ordering.then]
      by_cases below : m < n
      · simp [below]
      · by_cases same : m = n
        · simp [same]
        · simp [below, same]

end FieldInfo

/-! ## What a schema says of its fields -/

section
variable {schema added : Dataset} {paths : PathMap} {found : List FieldInfo}
  {subject predicate value field : Term}

theorem Dataset.mem_matchingIn_type : ∀ {t : Triple}, t ∈ schema.matchingIn none
      { predicate := some (.iri Rdf.type), object := some (.iri FormNs.field) } ↔
    (schema.graph none).IsRoot .field t.subject ∧
      t = ⟨t.subject, .iri Rdf.type, .iri FormNs.field⟩ := by
  rintro ⟨subject, verb, object⟩
  simp only [matchingIn, Selector.admits, List.mem_filter, SortedSet.mem_toList, Option.all_none,
    Option.all_some, Bool.true_and, Bool.and_eq_true, beq_iff_eq, Triple.mk.injEq, true_and]
  constructor
  · rintro ⟨member, rfl, rfl⟩
    exact ⟨member, rfl, rfl⟩
  · rintro ⟨member, rfl, rfl⟩
    exact ⟨member, rfl, rfl⟩

/-- The fields of a schema by where they stand, given the paths that resolve. -/
def Dataset.listed (schema : Dataset) (paths : PathMap) : SortedMap FieldInfo.Rank FieldInfo :=
  .ofList <| ((schema.matchingIn none
    { predicate := some (.iri Rdf.type), object := some (.iri FormNs.field) }).map fun t =>
      FieldInfo.ofSchema schema paths t.subject).map fun f => (f.rank, f)

theorem Dataset.fields_eq_ok : schema.fields = .ok found ↔
    ∃ paths, schema.paths .field = .ok paths ∧ (schema.listed paths).values = found := return_eq_ok

/-- Every field is listed where it stands, and nothing else is. -/
theorem Dataset.get?_listed {rank : FieldInfo.Rank} {f : FieldInfo} :
    (schema.listed paths).get? rank = some f ↔ ∃ uri, (schema.graph none).IsRoot .field uri ∧
      FieldInfo.ofSchema schema paths uri = f ∧ f.rank = rank := by
  rw [listed, SortedMap.get?_ofList]
  · simp only [List.mem_map, mem_matchingIn_type, Prod.mk.injEq]
    constructor
    · rintro ⟨_, ⟨t, ⟨isRoot, -⟩, rfl⟩, same, rfl⟩
      exact ⟨t.subject, isRoot, rfl, same⟩
    · rintro ⟨uri, isRoot, rfl, same⟩
      exact ⟨_, ⟨⟨uri, .iri Rdf.type, .iri FormNs.field⟩, ⟨isRoot, rfl⟩, rfl⟩, same, rfl⟩
  · have nodup : (schema.matchingIn none
        { predicate := some (.iri Rdf.type), object := some (.iri FormNs.field) }).Nodup :=
      (SortedSet.nodup_toList _).filter _
    rw [List.map_map, List.map_map]
    refine nodup.map_on fun t first u second same => ?_
    have subjects : t.subject = u.subject := congrArg FieldInfo.Rank.uri same
    rw [(mem_matchingIn_type.mp first).2, (mem_matchingIn_type.mp second).2, subjects]

/-- Where a subject has the value for a predicate and no other, this is the one that is found. -/
theorem Dataset.objectOf_eq_of_alone {value : Option Term}
    (alone : ∀ b, (schema.graph none).Edge predicate subject b ↔ value = some b) :
    schema.objectOf subject predicate = value := by
  rw [objectOf_eq]
  cases value with
  | none =>
    have nothing : (schema.graph none).objects subject predicate = [] :=
      List.eq_nil_iff_forall_not_mem.mpr fun b member =>
        nomatch (alone b).mp (Graph.mem_objects.mp member)
    rw [nothing, List.head?_nil]
  | some object =>
    have single : (schema.graph none).objects subject predicate = [object] :=
      Graph.objects_eq_singleton_iff.mpr fun b => by rw [alone, Option.some.injEq, eq_comm]
    rw [single, List.head?_cons]

/-! ## The added field among the others -/

variable {d : FieldDefinition} {form : Term}

namespace FieldDefinition

/-- What is listed of a field that was declared by the definition. -/
def info (d : FieldDefinition) : FieldInfo where
  uri := d.uri
  label := some d.label
  displayType := some d.displayType
  order := d.order
  group := d.group
  path := some d.path.chain

namespace Fits

variable (fits : d.Fits form schema) (adds : schema.addField form d = .ok added)
include fits adds

theorem objectOf_field {predicate : String} {value : Option Term} (other : predicate ≠ FormNs.includes)
    (described : ∀ b, (predicate, b) ∈ d.description ↔ value = some b) :
    added.objectOf d.uri (.iri predicate) = value :=
  Dataset.objectOf_eq_of_alone fun b => (fits.edge_field_iff adds other).trans (described b)

/-- The added field is listed as it was declared. -/
theorem ofSchema_field :
    FieldInfo.ofSchema added (paths.insert (.field d.uri) d.path.chain) d.uri = d.info := by
  have label : added.objectOf d.uri (.iri Sh.name) = some (.plain d.label) :=
    fits.objectOf_field adds (by decide) fun b => by
      simp [description, Sh.name, Rdf.type, FormNs.displayType, Sh.path, Sh.order, Sh.group, eq_comm]
  have displayType : added.objectOf d.uri (.iri FormNs.displayType) = some d.displayType :=
    fits.objectOf_field adds (by decide) fun b => by
      simp [description, Sh.name, Rdf.type, FormNs.displayType, Sh.path, Sh.order, Sh.group, eq_comm]
  have order : added.objectOf d.uri (.iri Sh.order) = d.order.map fun order =>
      .literal (.typed (toString order.toInt) Xsd.integer) :=
    fits.objectOf_field adds (by decide) fun b => by
      simp [description, Sh.name, Rdf.type, FormNs.displayType, Sh.path, Sh.order, Sh.group]
  have group : added.objectOf d.uri (.iri Sh.group) = d.group :=
    fits.objectOf_field adds (by decide) fun b => by
      simp [description, Sh.name, Rdf.type, FormNs.displayType, Sh.path, Sh.order, Sh.group]
  have number : ((d.order.map fun order => Term.literal (.typed (toString order.toInt)
      Xsd.integer)).bind Term.lexical?).bind FieldInfo.number? = d.order := by
    cases d.order with
    | none => rfl
    | some order =>
      have text : (Term.literal (.typed (toString order.toInt) Xsd.integer)).lexical? =
        some (toString order.toInt) := rfl
      rw [Option.map_some, Option.bind_some, text, Option.bind_some, FieldInfo.number?_toString]
  rw [FieldInfo.ofSchema, SortedMap.get?_insert, if_pos rfl]
  simp only [label, displayType, order, group, number]
  rfl

omit fits in
/-- The other fields are listed as they were. -/
theorem ofSchema_of_ne {uri : Term} (other : uri ≠ d.uri) :
    FieldInfo.ofSchema added (paths.insert (.field d.uri) d.path.chain) uri =
      FieldInfo.ofSchema schema paths uri := by
  have value : ∀ predicate : String, predicate ∉ listing → predicate ≠ FormNs.includes →
      added.objectOf uri (.iri predicate) = schema.objectOf uri (.iri predicate) := by
    intro predicate unlisted notIncludes
    rw [Dataset.objectOf_eq, Dataset.objectOf_eq, Graph.objects_congr fun b =>
      edge_iff adds (fun _ => unlisted) (fun same => absurd same other) notIncludes]
  have key : FieldKey.field uri ≠ .field d.uri := fun same => other (FieldKey.field.inj same)
  rw [FieldInfo.ofSchema, FieldInfo.ofSchema, SortedMap.get?_insert, if_neg key]
  simp only [value Sh.name (by decide) (by decide), value FormNs.displayType (by decide) (by decide),
    value Sh.order (by decide) (by decide), value Sh.group (by decide) (by decide)]

/-- The listed fields are those that were listed and the added one. -/
theorem listed_eq : added.listed (paths.insert (.field d.uri) d.path.chain) =
    (schema.listed paths).insert d.info.rank d.info := by
  refine SortedMap.ext_get? fun rank => Option.ext fun f => ?_
  rw [SortedMap.get?_insert, Dataset.get?_listed]
  by_cases here : rank = d.info.rank
  · rw [if_pos here, Option.some.injEq]
    constructor
    · rintro ⟨uri, -, rfl, same⟩
      obtain rfl : uri = d.uri := congrArg FieldInfo.Rank.uri (same.trans here)
      exact (fits.ofSchema_field adds).symm
    · rintro rfl
      exact ⟨d.uri, fits.isRoot_field adds, fits.ofSchema_field adds, here.symm⟩
  · rw [if_neg here, Dataset.get?_listed]
    refine exists_congr fun uri => ?_
    by_cases new : uri = d.uri
    · subst new
      constructor
      · rintro ⟨-, same, rfl⟩
        exact absurd (congrArg FieldInfo.rank (same.symm.trans (fits.ofSchema_field adds))) here
      · rintro ⟨isRoot, -⟩
        exact absurd rfl (fits.unnamed _ isRoot)
    · rw [isRoot_iff adds new, ofSchema_of_ne adds new]

omit adds in
theorem get?_listed_eq_none : (schema.listed paths).get? d.info.rank = none := by
  refine Option.eq_none_iff_forall_ne_some.mpr fun f found => ?_
  obtain ⟨uri, isRoot, rfl, same⟩ := Dataset.get?_listed.mp found
  have field : uri = d.uri := congrArg FieldInfo.Rank.uri same
  exact fits.unnamed _ isRoot field

/-- The added field is listed between those that come before it and those that come after it. -/
theorem fields_eq {old : List FieldInfo} (resolved : schema.paths .field = .ok paths)
    (found : (schema.listed paths).values = old) : ∃ before after, old = before ++ after ∧
      added.fields = .ok (before ++ d.info :: after) ∧
      (∀ f ∈ before, f.Before d.info) ∧ ∀ f ∈ after, d.info.Before f := by
  have unlisted : (schema.listed paths).get? d.info.rank = none := fits.get?_listed_eq_none
  obtain ⟨before, after, split, inserted, smaller, greater⟩ :=
    SortedMap.exists_split_insert d.info unlisted
  have ranked : ∀ entry ∈ before ++ after, entry.1 = entry.2.rank := fun entry member => by
    obtain ⟨uri, -, -, rank⟩ := Dataset.get?_listed.mp (SortedMap.get?_eq_some_iff.mpr (split ▸ member))
    exact rank.symm
  refine ⟨before.map Prod.snd, after.map Prod.snd, ?_, ?_, ?_, ?_⟩
  · rw [← found, SortedMap.values, split, List.map_append]
  · refine Dataset.fields_eq_ok.mpr ⟨_, fits.paths_eq adds resolved, ?_⟩
    rw [fits.listed_eq adds, SortedMap.values, inserted, List.map_append, List.map_cons]
  · intro f member
    obtain ⟨entry, listed, rfl⟩ := List.mem_map.mp member
    rw [FieldInfo.before_iff, ← ranked entry (List.mem_append_left _ listed)]
    exact smaller entry listed
  · intro f member
    obtain ⟨entry, listed, rfl⟩ := List.mem_map.mp member
    rw [FieldInfo.before_iff, ← ranked entry (List.mem_append_right _ listed)]
    exact greater entry listed

end Fits

/-- The definition has no field or no path of predicates. -/
def Faulty (d : FieldDefinition) : Prop :=
  ¬ d.uri.isIri ∨ (∃ predicate, d.path = .simple predicate ∧ ¬ predicate.isIri) ∨ d.path = .list [] ∨
    ∃ steps, d.path = .list steps ∧ ∃ step ∈ steps, ¬ step.predicate.isIri

theorem fault?_eq_none_iff : d.fault? = none ↔ ¬ d.Faulty := by
  rw [fault?_eq_none, Faulty]
  cases path : d.path with
  | simple predicate => simp [Path.chain, Step.forward]
  | list steps => simp [Path.chain]

end FieldDefinition

/-- The schema that the attempt to add a field leaves. -/
def Dataset.afterAdding (schema : Dataset) (form : Term) (d : FieldDefinition) : Dataset :=
  ((d.declare form).run schema).run.2

/-- A faulty definition is refused and leaves the schema as it is. Any other is added: where it fits
into the schema, its field is resolved to the path of the definition and listed at its place, and all
other fields are resolved and listed as before. -/
theorem addField_exact (schema : Dataset) (form : Term) (d : FieldDefinition) :
    ((∃ fault, schema.addField form d = .error (.invalidField d.uri fault)) ↔ d.Faulty) ∧
    (d.Faulty → schema.afterAdding form d = schema) ∧
    (¬ d.Faulty → ∃ added, schema.addField form d = .ok added ∧
      schema.afterAdding form d = added ∧
      ∀ old, schema.fields = .ok old → d.Fits form schema → ∃ paths before after,
        schema.paths .field = .ok paths ∧
        added.paths .field = .ok (paths.insert (.field d.uri) d.path.chain) ∧
        old = before ++ after ∧ added.fields = .ok (before ++ d.info :: after) ∧
        (∀ f ∈ before, f.Before d.info) ∧ ∀ f ∈ after, d.info.Before f) := by
  rw [Dataset.afterAdding, FieldDefinition.run_declare]
  cases checked : d.fault? with
  | none =>
    have sound : ¬ d.Faulty := FieldDefinition.fault?_eq_none_iff.mp checked
    obtain ⟨added, adds⟩ : ∃ added, schema.addField form d = .ok added :=
      ⟨_, Dataset.addField_eq_ok.mpr ⟨checked, rfl⟩⟩
    refine ⟨iff_of_false ?_ sound, fun faulty => absurd faulty sound, fun _ => ⟨_, adds, ?_, ?_⟩⟩
    · rintro ⟨fault, refused⟩
      cases adds.symm.trans refused
    · exact (Dataset.addField_eq_ok.mp adds).2
    · intro old listed fits
      obtain ⟨paths, resolved, found⟩ := Dataset.fields_eq_ok.mp listed
      obtain ⟨before, after, inserted⟩ := fits.fields_eq adds resolved found
      exact ⟨paths, before, after, resolved, fits.paths_eq adds resolved, inserted⟩
  | some fault =>
    have faulty : d.Faulty := by
      by_contra sound
      rw [FieldDefinition.fault?_eq_none_iff.mpr sound] at checked
      nomatch checked
    exact ⟨iff_of_true ⟨fault, Dataset.addField_eq_error checked⟩ faulty, fun _ => rfl,
      fun sound => absurd faulty sound⟩

/-- A field of negative order whose path goes back and on. -/
def backField : FieldDefinition where
  uri := .iri "n"
  label := "Back"
  displayType := .iri "text"
  order := some (-5)
  path := .list [.inverse (.iri "p"), .forward (.iri "q")]

theorem fits_backField : backField.Fits (.iri "form") lineSchema where
  isIri := rfl
  unnamed t member named := by
    have edge : (lineSchema.graph none).Edge t.predicate t.subject t.object := member
    rw [edge_lineSchema, named] at edge
    simp [backField] at edge
  fresh node made t member := by
    obtain ⟨rest, rfl⟩ := FieldDefinition.exists_label_of_mem_nodes made
    have short : ∀ label : String, label.length < 4 → label ≠ "path" ++ rest := by
      intro label short same
      have lengths := congrArg String.length same
      have four : "path".length = 4 := rfl
      rw [String.length_append] at lengths
      omega
    have edge : (lineSchema.graph none).Edge t.predicate t.subject t.object := member
    rcases edge_lineSchema.mp edge with ⟨a, -, b⟩ | ⟨a, -, b⟩ | ⟨a, -, b⟩ | ⟨a, -, b⟩ | ⟨a, -, b⟩ |
      ⟨a, -, b⟩ | ⟨a, -, b⟩ <;>
      simp [a, b, short "c" (by decide), short "d" (by decide), short "i" (by decide)]
  ended a last b := by
    obtain rfl : a = .iri Rdf.nil := last.resolve_right nofun
    exact ⟨fun first => by simp [first_lineSchema] at first,
      fun rest => by simp [rest_lineSchema] at rest⟩

/-- The field of `lineSchema` has no order and comes after the added one. -/
theorem addField_exact_lineSchema : ¬ backField.Faulty ∧ ∃ added old paths,
    lineSchema.addField (.iri "form") backField = .ok added ∧
      lineSchema.fields = .ok old ∧ added.fields = .ok (backField.info :: old) ∧
      lineSchema.paths .field = .ok paths ∧ added.paths .field =
        .ok (paths.insert (.field (.iri "n")) [.inverse (.iri "p"), .forward (.iri "q")]) := by
  have sound : ¬ backField.Faulty := FieldDefinition.fault?_eq_none_iff.mp rfl
  obtain ⟨-, -, adding⟩ := addField_exact lineSchema (.iri "form") backField
  obtain ⟨added, adds, -, listing⟩ := adding sound
  obtain ⟨r, resolves⟩ : ∃ r, lineSchema.resolve .field = .ok r :=
    exists_resolve (fun _ _ _ => supported_lineSchema) fun _ _ _ => supported_lineSchema
  have resolved : lineSchema.paths .field = .ok r.chains := map_eq_ok.mpr ⟨r, resolves, rfl⟩
  have listed := Dataset.fields_eq_ok.mpr ⟨_, resolved, rfl⟩
  obtain ⟨paths, before, after, found, extended, split, inserted, smaller, -⟩ :=
    listing _ listed fits_backField
  have unordered : ∀ f ∈ before, f.order = none := fun f member => by
    have member : f ∈ (lineSchema.listed r.chains).values := split ▸ List.mem_append_left _ member
    obtain ⟨entry, entered, rfl⟩ := List.mem_map.mp member
    obtain ⟨uri, -, same, -⟩ := Dataset.get?_listed.mp (SortedMap.get?_eq_some_iff.mpr entered)
    have noOrder : lineSchema.objectOf uri (.iri Sh.order) = none :=
      Dataset.objectOf_eq_of_alone fun b => by
        simp [edge_lineSchema, Sh.order, Rdf.type, Sh.path, Rdf.first, Rdf.rest, Sh.inversePath]
    rw [← same]
    simp only [FieldInfo.ofSchema, noOrder, Option.bind_none]
  have first : before = [] := List.eq_nil_iff_forall_not_mem.mpr fun f member => by
    have earlier := smaller f member
    rw [FieldInfo.Before, unordered f member] at earlier
    exact earlier
  subst first
  rw [List.nil_append] at split inserted
  exact ⟨sound, added, after, paths, adds, split ▸ listed, inserted, found, extended⟩

end
end Formulary
