/-
  OctaCity.Factory.Flow.Schema

  Configured shapes of node values (octacity-server-factory, `flow/data.rs`):
  which values a shape accepts, and the structural comparison that lets a
  producer feed a consumer without looking at a value.  Maps are listed in the
  order of their keys.
-/
import OctaCity.Factory.Permission
import OctaCity.Lib.Json
import OctaCity.Trigger.Schedule

namespace OctaCity.Factory.Flow

open Lib List

def maxFlowDataBytes : Nat := 1048576
def maxFlowSchemaDepth : Nat := 16
def maxFlowSchemaEntries : Nat := 64
def maxFlowSchemaItems : Nat := 128
def maxFlowVariantNameBytes : Nat := 128

/-! ## Shapes -/

/-- Presence and shape of one configured object field, with its name. -/
structure FlowFieldSchema (α : Type) where
  key : FactoryKey
  required : Bool
  value : α

/-- Configured shape of a node value. -/
inductive FlowValueSchema
  | reference (schema : FactoryKey)
  | object (fields : List (FlowFieldSchema FlowValueSchema))
  | string (minBytes maxBytes : Nat)
  | integer (minimum maximum : Int)
  | boolean
  | array (item : FlowValueSchema) (minItems maxItems : Nat)
  | enum (values : List Json)
  | externallyTagged (variants : List (String × Option FlowValueSchema))

/-- `BTreeMap::get` of an object's fields. -/
def fieldGet {α : Type} (fields : List (FlowFieldSchema α)) (key : FactoryKey) :
    Option (FlowFieldSchema α) :=
  fields.find? fun field => field.key = key

/-- `BTreeMap::get` of the variants. -/
def variantGet {α : Type} (variants : List (String × α)) (name : String) : Option α :=
  (variants.find? fun variant => variant.1 = name).map Prod.snd

namespace FlowValueSchema

/-- A property of all shapes that passes from the parts of a shape to the shape. -/
@[elab_as_elim] theorem ind {motive : FlowValueSchema → Prop}
    (reference : ∀ schema, motive (.reference schema))
    (object : ∀ fields, (∀ field ∈ fields, motive field.value) → motive (.object fields))
    (string : ∀ minBytes maxBytes, motive (.string minBytes maxBytes))
    (integer : ∀ minimum maximum, motive (.integer minimum maximum)) (boolean : motive .boolean)
    (array : ∀ item minItems maxItems, motive item → motive (.array item minItems maxItems))
    (enum : ∀ values, motive (.enum values))
    (externallyTagged : ∀ variants, (∀ variant ∈ variants, ∀ shape, variant.2 = some shape →
      motive shape) → motive (.externallyTagged variants)) :
    ∀ shape, motive shape
  | .reference schema => reference schema
  | .object fields => object fields fun field _ =>
    ind reference object string integer boolean array enum externallyTagged field.value
  | .string minBytes maxBytes => string minBytes maxBytes
  | .integer minimum maximum => integer minimum maximum
  | .boolean => boolean
  | .array item minItems maxItems => array item minItems maxItems
    (ind reference object string integer boolean array enum externallyTagged item)
  | .enum values => enum values
  | .externallyTagged variants => externallyTagged variants fun variant _ shape _ =>
    ind reference object string integer boolean array enum externallyTagged shape
termination_by shape => shape
decreasing_by
  · have := sizeOf_lt_of_mem ‹field ∈ fields›
    cases field
    simp only [FlowValueSchema.object.sizeOf_spec, FlowFieldSchema.mk.sizeOf_spec] at *
    omega
  · simp only [FlowValueSchema.array.sizeOf_spec]
    omega
  · have := sizeOf_lt_of_mem ‹variant ∈ variants›
    cases variant
    subst ‹_ = some shape›
    simp only [FlowValueSchema.externallyTagged.sizeOf_spec, Prod.mk.sizeOf_spec,
      Option.some.sizeOf_spec] at *
    omega

/-- The maps of a shape list every key once, in order. -/
inductive Keyed : FlowValueSchema → Prop
  | reference (schema : FactoryKey) : Keyed (.reference schema)
  | object (fields : List (FlowFieldSchema FlowValueSchema))
    (ordered : fields.Pairwise fun a b => a.key < b.key)
    (each : ∀ field ∈ fields, Keyed field.value) : Keyed (.object fields)
  | string (minBytes maxBytes : Nat) : Keyed (.string minBytes maxBytes)
  | integer (minimum maximum : Int) : Keyed (.integer minimum maximum)
  | boolean : Keyed .boolean
  | array (item : FlowValueSchema) (minItems maxItems : Nat) (each : Keyed item) :
    Keyed (.array item minItems maxItems)
  | enum (values : List Json) : Keyed (.enum values)
  | externallyTagged (variants : List (String × Option FlowValueSchema))
    (ordered : variants.Pairwise fun a b => a.1 < b.1)
    (each : ∀ variant ∈ variants, ∀ shape, variant.2 = some shape → Keyed shape) :
    Keyed (.externallyTagged variants)

/-! ## Acceptance -/

mutual

def accepts : FlowValueSchema → Json → Bool
  | .reference _, _ => false
  | .boolean, value => value.isBoolean
  | .integer minimum maximum, value => value.asI64.any fun n => minimum ≤ n && n ≤ maximum
  | .string minBytes maxBytes, value =>
    value.asStr.any fun text => minBytes ≤ text.utf8ByteSize && text.utf8ByteSize ≤ maxBytes
  | .array item minItems maxItems, value =>
    value.asArray.any fun values =>
      minItems ≤ values.length && values.length ≤ maxItems && values.all fun value =>
        item.accepts value
  | .enum values, value => values.any fun allowed => allowed.eq value
  | .externallyTagged variants, .string name => (variantGet variants name).any Option.isNone
  | .externallyTagged variants, .object [(name, value)] => acceptsVariant variants name value
  | .externallyTagged _, _ => false
  | .object fields, value =>
    value.asObject.any fun entries =>
      (entries.all fun entry => fields.any fun field => field.key.value = entry.1) &&
        acceptsFields fields entries

/-- The payload of the variant of this name. -/
def acceptsVariant : List (String × Option FlowValueSchema) → String → Json → Bool
  | [], _, _ => false
  | (name', shape) :: variants, name, value =>
    if name' = name then acceptsPayload shape value else acceptsVariant variants name value

def acceptsPayload : Option FlowValueSchema → Json → Bool
  | none, _ => false
  | some shape, value => shape.accepts value

def acceptsFields : List (FlowFieldSchema FlowValueSchema) → List (String × Json) → Bool
  | [], _ => true
  | ⟨key, required, shape⟩ :: fields, entries =>
    (match Json.get entries key.value with
      | some value => shape.accepts value
      | none => !required) && acceptsFields fields entries

end

variable {name : String} {variants : List (String × Option FlowValueSchema)}
  {entries : List (String × Json)} {field : FlowFieldSchema FlowValueSchema}

theorem mem_of_variantGet {α : Type} {variants : List (String × α)} {shape : α}
    (h : variantGet variants name = some shape) : (name, shape) ∈ variants := by
  obtain ⟨variant, hvariant, rfl⟩ := Option.map_eq_some_iff.mp h
  have hname : variant.1 = name := by simpa using List.find?_some hvariant
  rw [← hname]
  exact mem_of_find?_eq_some hvariant

variable {value : Json} {fields : List (FlowFieldSchema FlowValueSchema)}

theorem acceptsVariant_iff : acceptsVariant variants name value = true ↔
      ∃ shape, variantGet variants name = some (some shape) ∧ shape.accepts value = true := by
  induction variants with
  | nil => simp [acceptsVariant, variantGet]
  | cons variant variants ih =>
    obtain ⟨name', shape⟩ := variant
    rw [acceptsVariant]
    unfold variantGet at ih ⊢
    rw [List.find?_cons]
    by_cases hname : name' = name
    · cases shape <;> simp [hname, acceptsPayload]
    · simpa [hname] using ih

theorem acceptsFields_iff : acceptsFields fields entries = true ↔ ∀ field ∈ fields,
      (∀ value, Json.get entries field.key.value = some value → field.value.accepts value = true) ∧
        (Json.get entries field.key.value = none → field.required = false) := by
  induction fields with
  | nil => simp [acceptsFields]
  | cons field fields ih =>
    obtain ⟨key, required, shape⟩ := field
    rw [acceptsFields, Bool.and_eq_true, ih, forall_mem_cons]
    refine and_congr_left fun _ => ?_
    cases Json.get entries key.value <;> simp

theorem accepts_object :
    (FlowValueSchema.object fields).accepts value = true ↔ ∃ entries, value = .object entries ∧
      (∀ entry ∈ entries, ∃ field ∈ fields, field.key.value = entry.1) ∧
        acceptsFields fields entries = true := by
  cases value <;> simp [accepts, Json.asObject]

theorem accepts_array {item : FlowValueSchema} {minItems maxItems : Nat} :
    (FlowValueSchema.array item minItems maxItems).accepts value = true ↔
      ∃ values, value = .array values ∧ minItems ≤ values.length ∧ values.length ≤ maxItems ∧
        ∀ value ∈ values, item.accepts value = true := by
  cases value <;> simp [accepts, Json.asArray, and_assoc]

theorem accepts_externallyTagged :
    (FlowValueSchema.externallyTagged variants).accepts value = true ↔
      (∃ name, value = .string name ∧ variantGet variants name = some none) ∨
        ∃ name payload shape, value = .object [(name, payload)] ∧
          variantGet variants name = some (some shape) ∧ shape.accepts payload = true := by
  constructor
  · intro h
    cases value with
    | string name =>
      refine .inl ⟨name, rfl, ?_⟩
      rw [accepts, Option.any_eq_true] at h
      obtain ⟨shape, hshape, hnone⟩ := h
      rw [hshape, Option.isNone_iff_eq_none.mp hnone]
    | object fields =>
      cases fields with
      | nil => cases h
      | cons field rest =>
        cases rest with
        | nil =>
          obtain ⟨shape, hshape, haccs⟩ := acceptsVariant_iff.mp h
          exact .inr ⟨field.1, field.2, shape, rfl, hshape, haccs⟩
        | cons other rest => cases h
    | null => cases h
    | bool flag => cases h
    | number number => cases h
    | array items => cases h
  · rintro (⟨name, rfl, hshape⟩ | ⟨name, payload, shape, rfl, hshape, haccs⟩)
    · rw [accepts, hshape]
      rfl
    · exact acceptsVariant_iff.mpr ⟨shape, hshape, haccs⟩

/-- Equal values are accepted alike. -/
theorem accepts_eq {shape : FlowValueSchema} {other : Json} (heq : value.eq other = true)
    (h : shape.accepts value = true) : shape.accepts other = true := by
  induction shape using FlowValueSchema.ind generalizing value other with
  | reference schema => cases h
  | boolean =>
    cases value with
    | bool flag =>
      cases other with
      | bool flag' => rfl
      | _ => cases heq
    | _ => cases h
  | integer minimum maximum =>
    rwa [accepts, ← Json.asI64_of_eq heq]
  | string minBytes maxBytes =>
    cases value <;> first | cases h | skip
    rwa [Json.eq_of_string_eq heq]
  | enum values =>
    rw [accepts, any_eq_true] at h ⊢
    obtain ⟨allowed, hmem, hallow⟩ := h
    exact ⟨allowed, hmem, Json.eq_trans hallow heq⟩
  | array item minItems maxItems ih =>
    obtain ⟨values, rfl, hmin, hmax, heach⟩ := accepts_array.mp h
    obtain ⟨others, rfl, hothers⟩ := Json.eq_of_array_eq heq
    rw [hothers.length_eq] at hmin hmax
    refine accepts_array.mpr ⟨others, rfl, hmin, hmax, fun other hmem => ?_⟩
    obtain ⟨value, hvalue, hsame⟩ := forall₂_exists_left hothers hmem
    exact ih hsame (heach value hvalue)
  | externallyTagged variants ih =>
    rcases accepts_externallyTagged.mp h with ⟨name, rfl, hunit⟩ |
      ⟨name, payload, shape, rfl, hshape, hpay⟩
    · rw [Json.eq_of_string_eq heq]
      exact accepts_externallyTagged.mpr (.inl ⟨name, rfl, hunit⟩)
    · obtain ⟨others, rfl, hothers⟩ := Json.eq_of_object_eq heq
      cases hothers with
      | @cons _ other _ rest hhead htail =>
        cases htail
        obtain ⟨name', payload'⟩ := other
        cases hhead.1
        have hmem := mem_of_variantGet hshape
        exact accepts_externallyTagged.mpr (.inr ⟨name, payload', shape, rfl, hshape,
          ih _ hmem shape rfl hhead.2 hpay⟩)
  | object fields ih =>
    obtain ⟨entries, rfl, hdecl, hflds⟩ := accepts_object.mp h
    obtain ⟨others, rfl, hothers⟩ := Json.eq_of_object_eq heq
    refine accepts_object.mpr ⟨others, rfl, fun other hmem => ?_, ?_⟩
    · obtain ⟨entry, hentry, hsame⟩ := forall₂_exists_left hothers hmem
      rw [← hsame.1]
      exact hdecl entry hentry
    · refine acceptsFields_iff.mpr fun field hfield => ?_
      have hget := Json.get_of_eqFields hothers field.key.value
      obtain ⟨hpres, habsent⟩ := acceptsFields_iff.mp hflds field hfield
      cases hvalue : Json.get entries field.key.value with
      | none =>
        rw [hvalue] at hget
        cases hother : Json.get others field.key.value with
        | none => exact ⟨fun value hsome => (by cases hsome), fun _ => habsent hvalue⟩
        | some other =>
          rw [hother] at hget
          cases hget
      | some value =>
        rw [hvalue] at hget
        cases hother : Json.get others field.key.value with
        | none =>
          rw [hother] at hget
          cases hget
        | some other =>
          rw [hother] at hget
          cases hget with
          | some hsame =>
            refine ⟨fun value' hsome => ?_, fun hnone => (by cases hnone)⟩
            cases hsome
            exact ih field hfield hsame (hpres value hvalue)

/-! ## Coverage -/

mutual

/-- Whether every value of the producer's shape fits the target. -/
def covers : FlowValueSchema → FlowValueSchema → Bool
  | target, .enum values => values.all fun value => target.accepts value
  | .string a b, .string c d => a ≤ c && d ≤ b
  | .integer a b, .integer c d => a ≤ c && d ≤ b
  | .boolean, .boolean => true
  | .array a b c, .array d e f => b ≤ e && f ≤ c && a.covers d
  | .object target, .object source =>
    coversFields target source && target.all fun field =>
      !field.required || (fieldGet source field.key).any fun actual => actual.required
  | .externallyTagged target, .externallyTagged source => coversVariants target source
  | _, _ => false
termination_by structural _ producer => producer

def coversFields : List (FlowFieldSchema FlowValueSchema) →
    List (FlowFieldSchema FlowValueSchema) → Bool
  | _, [] => true
  | target, ⟨key, _, shape⟩ :: source =>
    (match fieldGet target key with
      | some expected => expected.value.covers shape
      | none => false) && coversFields target source
termination_by structural _ source => source

def coversVariants : List (String × Option FlowValueSchema) →
    List (String × Option FlowValueSchema) → Bool
  | _, [] => true
  | target, (name, shape) :: source =>
    (match variantGet target name with
      | some expected => coversPayload expected shape
      | none => false) && coversVariants target source
termination_by structural _ source => source

def coversPayload : Option FlowValueSchema → Option FlowValueSchema → Bool
  | none, none => true
  | some expected, some actual => expected.covers actual
  | _, _ => false
termination_by structural _ actual => actual

end

theorem coversFields_iff {target source : List (FlowFieldSchema FlowValueSchema)} :
    coversFields target source = true ↔ ∀ field ∈ source, ∃ expected,
      fieldGet target field.key = some expected ∧ expected.value.covers field.value = true := by
  induction source with
  | nil => simp [coversFields]
  | cons field source ih =>
    rw [coversFields, Bool.and_eq_true, ih, forall_mem_cons]
    refine and_congr_left fun _ => ?_
    cases fieldGet target field.key <;> simp

theorem coversVariants_iff {target source : List (String × Option FlowValueSchema)} :
    coversVariants target source = true ↔ ∀ variant ∈ source, ∃ expected,
      variantGet target variant.1 = some expected ∧ coversPayload expected variant.2 = true := by
  induction source with
  | nil => simp [coversVariants]
  | cons variant source ih =>
    rw [coversVariants, Bool.and_eq_true, ih, forall_mem_cons]
    refine and_congr_left fun _ => ?_
    cases variantGet target variant.1 <;> simp

theorem fieldGet_eq_some {key : FactoryKey} (h : fieldGet fields key = some field) :
    field ∈ fields ∧ field.key = key :=
  ⟨mem_of_find?_eq_some h, by simpa using List.find?_some h⟩

/-- In an ordered map a key determines the field. -/
theorem field_eq_of_key_eq (hord : fields.Pairwise fun a b => a.key < b.key)
    {field' : FlowFieldSchema FlowValueSchema} (h : field ∈ fields) (h' : field' ∈ fields)
    (hkey : field.key = field'.key) : field = field' := by
  have hnodup : (fields.map FlowFieldSchema.key).Nodup := by
    rw [nodup_iff_pairwise_ne, pairwise_map]
    exact hord.imp fun hlt => ne_of_lt hlt
  exact inj_on_of_nodup_map hnodup h h' hkey

/-- An object whose fields are declared and fit is accepted. -/
theorem accepts_object_of_fields (hord : fields.Pairwise fun a b => a.key < b.key)
    (hdecl : ∀ entry ∈ entries, ∃ field ∈ fields, field.key.value = entry.1)
    (hpres : ∀ name value, Json.get entries name = some value →
      ∃ field ∈ fields, field.key.value = name ∧ field.value.accepts value = true)
    (hreqd : ∀ field ∈ fields, field.required = true →
      Json.get entries field.key.value ≠ none) :
    (FlowValueSchema.object fields).accepts (.object entries) = true := by
  refine accepts_object.mpr ⟨entries, rfl, hdecl, acceptsFields_iff.mpr fun field hfield =>
    ⟨fun value hvalue => ?_, fun hnone => ?_⟩⟩
  · obtain ⟨field', hfield', hname, haccs⟩ := hpres _ value hvalue
    have hkey : field'.key = field.key := FactoryKey.eq_of_value hname
    rwa [← field_eq_of_key_eq hord hfield' hfield hkey]
  · by_contra hfield'
    exact hreqd field hfield (by simpa using hfield') hnone

/-- A covering shape accepts what the covered one does. -/
theorem accepts_of_covers {target producer : FlowValueSchema} (hkeyed : target.Keyed)
    (hcovers : target.covers producer = true)
    (h : producer.accepts value = true) : target.accepts value = true := by
  induction producer using FlowValueSchema.ind generalizing target value with
  | reference schema => cases h
  | enum values =>
    rw [accepts, any_eq_true] at h
    obtain ⟨allowed, hmem, hallow⟩ := h
    have heach : values.all (fun value => target.accepts value) = true := by
      cases target <;> exact hcovers
    exact accepts_eq hallow (all_eq_true.mp heach allowed hmem)
  | boolean =>
    cases target with
    | boolean => exact h
    | _ => cases hcovers
  | string c d =>
    cases target with
    | string a b =>
      simp only [covers, Bool.and_eq_true, decide_eq_true_eq] at hcovers
      rw [accepts, Option.any_eq_true] at h ⊢
      obtain ⟨text, htext, hbounds⟩ := h
      simp only [Bool.and_eq_true, decide_eq_true_eq] at hbounds ⊢
      exact ⟨text, htext, by omega, by omega⟩
    | _ => cases hcovers
  | integer c d =>
    cases target with
    | integer a b =>
      simp only [covers, Bool.and_eq_true, decide_eq_true_eq] at hcovers
      rw [accepts, Option.any_eq_true] at h ⊢
      obtain ⟨n, hn, hbounds⟩ := h
      simp only [Bool.and_eq_true, decide_eq_true_eq] at hbounds ⊢
      exact ⟨n, hn, by omega, by omega⟩
    | _ => cases hcovers
  | array d e f ih =>
    cases target with
    | array a b c =>
      simp only [covers, Bool.and_eq_true, decide_eq_true_eq] at hcovers
      cases hkeyed with
      | array _ _ _ hitem =>
        obtain ⟨values, rfl, hmin, hmax, heach⟩ := accepts_array.mp h
        exact accepts_array.mpr ⟨values, rfl, by omega, by omega, fun value hmem =>
          ih hitem hcovers.2 (heach value hmem)⟩
    | _ => cases hcovers
  | externallyTagged source ih =>
    cases target with
    | externallyTagged target =>
      cases hkeyed with
      | externallyTagged _ _ heach =>
        have hvariants := coversVariants_iff.mp hcovers
        rcases accepts_externallyTagged.mp h with ⟨name, rfl, hunit⟩ |
          ⟨name, payload, shape, rfl, hshape, hpay⟩
        · obtain ⟨expected, hexp, hcover⟩ := hvariants _ (mem_of_variantGet hunit)
          cases expected with
          | none => exact accepts_externallyTagged.mpr (.inl ⟨name, rfl, hexp⟩)
          | some expected => cases hcover
        · have hmem := mem_of_variantGet hshape
          obtain ⟨expected, hexp, hcover⟩ := hvariants _ hmem
          cases expected with
          | none => cases hcover
          | some expected =>
            exact accepts_externallyTagged.mpr (.inr ⟨name, payload, expected, rfl, hexp,
              ih _ hmem shape rfl (heach _ (mem_of_variantGet hexp) expected rfl) hcover
                hpay⟩)
    | _ => cases hcovers
  | object source ih =>
    cases target with
    | object target =>
      cases hkeyed with
      | object _ hord heach =>
        rw [covers, Bool.and_eq_true] at hcovers
        have hflds := coversFields_iff.mp hcovers.1
        have hreqd := all_eq_true.mp hcovers.2
        obtain ⟨entries, rfl, hdecl, hents⟩ := accepts_object.mp h
        have hents := acceptsFields_iff.mp hents
        refine accepts_object_of_fields hord (fun entry hentry => ?_)
          (fun name value hvalue => ?_) fun field hfield hneeded hnone => ?_
        · obtain ⟨field, hfield, hname⟩ := hdecl entry hentry
          obtain ⟨expected, hexp, -⟩ := hflds field hfield
          obtain ⟨hmem, hkey⟩ := fieldGet_eq_some hexp
          exact ⟨expected, hmem, by rw [hkey, hname]⟩
        · -- The value's name is declared by the source, and the target covers that field.
          obtain ⟨entry, hentry, rfl⟩ := Option.map_eq_some_iff.mp hvalue
          have hname : entry.1 = name := by simpa using List.find?_some hentry
          obtain ⟨field, hfield, hfieldName⟩ := hdecl entry (mem_of_find?_eq_some hentry)
          obtain ⟨expected, hexp, hcover⟩ := hflds field hfield
          obtain ⟨hmem, hkey⟩ := fieldGet_eq_some hexp
          have hget : Json.get entries field.key.value = some entry.2 := by
            rw [hfieldName, hname]
            exact hvalue
          exact ⟨expected, hmem, by rw [hkey, hfieldName, hname], ih field hfield
            (heach expected hmem) hcover ((hents field hfield).1 _ hget)⟩
        · -- A required field of the target is required by the source.
          have hactual := hreqd field hfield
          rw [hneeded, Bool.not_true, Bool.false_or, Option.any_eq_true] at hactual
          obtain ⟨actual, hactual, hneeded'⟩ := hactual
          obtain ⟨hmem, hkey⟩ := fieldGet_eq_some hactual
          rw [← hkey] at hnone
          rw [(hents actual hmem).2 hnone] at hneeded'
          cases hneeded'
    | _ => cases hcovers

/-! ## Validation -/

def invalidData : FactoryError := invalid "Flow data contract"

/-- Finite alternatives are scalars, none listed twice. -/
def validAlternatives (values : List Json) : Bool :=
  !values.isEmpty && values.length ≤ maxFlowSchemaEntries &&
    values.zipIdx.all fun (value, index) =>
      !value.asObject.isSome && !value.asArray.isSome &&
        !(values.take index).any fun earlier => earlier.eq value

def validVariantName (name : String) : Bool :=
  !name.toList.all Trigger.isWhitespace && name.utf8ByteSize ≤ maxFlowVariantNameBytes &&
    !name.toList.any isControl

mutual

def validate : FlowValueSchema → Nat → Except FactoryError Unit
  | shape, depth =>
    if maxFlowSchemaDepth < depth then .error invalidData
    else match shape with
      | .boolean => .ok ()
      | .integer minimum maximum => if minimum ≤ maximum then .ok () else .error invalidData
      | .string minBytes maxBytes =>
        if minBytes ≤ maxBytes ∧ maxBytes ≤ maxFlowDataBytes then .ok () else .error invalidData
      | .array item minItems maxItems =>
        if minItems ≤ maxItems ∧ maxItems ≤ maxFlowSchemaItems then item.validate (depth + 1)
        else .error invalidData
      | .object fields =>
        if fields.length ≤ maxFlowSchemaEntries then validateFields fields (depth + 1)
        else .error invalidData
      | .enum values => if validAlternatives values then .ok () else .error invalidData
      | .externallyTagged variants =>
        if variants ≠ [] ∧ variants.length ≤ maxFlowSchemaEntries then
          validateVariants variants (depth + 1)
        else .error invalidData
      | .reference _ => .error invalidData

def validateFields : List (FlowFieldSchema FlowValueSchema) → Nat → Except FactoryError Unit
  | [], _ => .ok ()
  | ⟨_, _, shape⟩ :: fields, depth => do
    shape.validate depth
    validateFields fields depth

def validateVariants : List (String × Option FlowValueSchema) → Nat → Except FactoryError Unit
  | [], _ => .ok ()
  | (name, shape) :: variants, depth =>
    if validVariantName name then do
      validatePayload shape depth
      validateVariants variants depth
    else .error invalidData

def validatePayload : Option FlowValueSchema → Nat → Except FactoryError Unit
  | none, _ => .ok ()
  | some shape, depth => shape.validate depth

end

def acceptsAll (target producer : FlowValueSchema) : Bool :=
  (producer.validate 0).isOk && target.covers producer

/-- Every value of a producer that a schema takes fits the schema. -/
theorem accepts_all_is_sound {target producer : FlowValueSchema} (hkeyed : target.Keyed)
    (h : target.acceptsAll producer = true) {value : Json}
    (hvalue : producer.accepts value = true) : target.accepts value = true := by
  rw [acceptsAll, Bool.and_eq_true] at h
  exact accepts_of_covers hkeyed h.2 hvalue

/-- A consumer with an optional tag and a list of bounded numbers. -/
def sampleTarget : FlowValueSchema :=
  .object [⟨⟨"items"⟩, true, .array (.integer 0 10) 0 8⟩,
    ⟨⟨"tag"⟩, false, .externallyTagged [("none", none), ("text", some (.string 0 16))]⟩]

def sampleProducer : FlowValueSchema :=
  .object [⟨⟨"items"⟩, true, .array (.enum [.number (.posInt 3)]) 1 2⟩,
    ⟨⟨"tag"⟩, true, .enum [.string "none"]⟩]

def sampleValue : Json :=
  .object [("items", .array [.number (.posInt 3)]), ("tag", .string "none")]

theorem sampleTarget_keyed : sampleTarget.Keyed := by
  refine .object _ (by decide) fun field hfield => ?_
  rcases mem_cons.mp hfield with rfl | hfield
  · exact .array _ _ _ (.integer _ _)
  · rw [mem_singleton.mp hfield]
    refine .externallyTagged _ (by decide) fun variant hvariant shape hshape => ?_
    rcases mem_cons.mp hvariant with rfl | hvariant
    · cases hshape
    · rw [mem_singleton.mp hvariant] at hshape
      cases hshape
      exact .string _ _

theorem accepts_all_is_sound_sample : sampleTarget.accepts sampleValue = true :=
  @accepts_all_is_sound _ sampleProducer sampleTarget_keyed (by decide) _
    (by decide)

end FlowValueSchema

end OctaCity.Factory.Flow
