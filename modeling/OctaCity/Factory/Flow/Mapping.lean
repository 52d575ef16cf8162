/-
  OctaCity.Factory.Flow.Mapping

  Explicit data selections (octacity-server-factory, `flow/mapping.rs`).  A
  mapping is checked against shapes before any value exists and evaluated
  against values later, under a budget of bytes that is charged before a value
  is copied.
-/
import OctaCity.Factory.Flow.Schema

namespace OctaCity.Factory.Flow

open FlowValueSchema Lib List

/-- Explicit data selection independent of logical stage names. -/
inductive FlowValueMapping
  | pointer (path : String)
  | constant (value : Json)
  | object (fields : List (FactoryKey × FlowValueMapping))
  | array (items : List FlowValueMapping)
  | ifPresent (path : String) (present otherwise : FlowValueMapping)

def invalidMapping : FactoryError := invalid "Flow data mapping"

namespace FlowValueMapping

/-! ## Checking shapes -/

/-- The shape of the part that one pointer token selects. -/
def selectShape : FlowValueSchema → String → Option FlowValueSchema
  | .object fields, key => (fields.find? fun field => field.key.value = key).map (·.value)
  | .array item _ maxItems, key =>
    if (parseDecimal key).any (fun index => index < 2 ^ 16 && index < maxItems && toString index = key)
    then some item else none
  | .externallyTagged variants, key => (variantGet variants key).join
  | _, _ => none

mutual

def fits (input : FlowValueSchema) : FlowValueMapping → FlowValueSchema → Bool
  | .pointer path, target =>
    match (pointerTokens path).foldlM selectShape input with
    | some shape => target.covers shape
    | none => false
  | .constant value, target => target.accepts value
  | .object fields, .object expected =>
    fitsFields input fields expected &&
      expected.all fun field => !field.required || fields.any fun entry => entry.1 = field.key
  | .array items, .array item minItems maxItems =>
    minItems ≤ items.length && items.length ≤ maxItems && fitsItems input items item
  | .ifPresent _ present otherwise, target =>
    present.fits input target && otherwise.fits input target
  | _, _ => false
termination_by structural mapping => mapping

def fitsFields (input : FlowValueSchema) : List (FactoryKey × FlowValueMapping) →
    List (FlowFieldSchema FlowValueSchema) → Bool
  | [], _ => true
  | (name, mapping) :: fields, expected =>
    (match fieldGet expected name with
      | some field => mapping.fits input field.value
      | none => false) && fitsFields input fields expected
termination_by structural fields => fields

def fitsItems (input : FlowValueSchema) : List FlowValueMapping → FlowValueSchema → Bool
  | [], _ => true
  | mapping :: items, item => mapping.fits input item && fitsItems input items item
termination_by structural items => items

end

/-! ## Evaluation -/

/-- Charges bytes against the budget. -/
def spend (remaining bytes : Nat) : Except FactoryError Nat :=
  if bytes ≤ remaining then .ok (remaining - bytes) else .error invalidMapping

section

-- How a float is printed.
variable (floatText : FiniteFloat → String)

/-- Charges a value before it is copied. -/
def copyBounded (value : Json) (remaining : Nat) : Except FactoryError (Json × Nat) := do
  let remaining ← spend remaining (value.size floatText)
  .ok (value, remaining)

mutual

/-- The selected value and what is left of the budget. -/
def project (root : Json) : FlowValueMapping → Nat → Except FactoryError (Json × Nat)
  | .pointer path, remaining =>
    match root.pointer path with
    | some value => copyBounded floatText value remaining
    | none => .error invalidMapping
  | .constant value, remaining => copyBounded floatText value remaining
  | .array items, remaining => do
    let remaining ← spend remaining (2 + (items.length - 1))
    let (values, remaining) ← projectItems root items remaining
    .ok (.array values, remaining)
  | .ifPresent path present otherwise, remaining =>
    if (root.pointer path).isSome then present.project root remaining
    else otherwise.project root remaining
  | .object fields, remaining => do
    let remaining ← spend remaining 2
    let (entries, remaining) ← projectFields root fields remaining
    .ok (.object entries, remaining)

def projectItems (root : Json) : List FlowValueMapping → Nat →
    Except FactoryError (List Json × Nat)
  | [], remaining => .ok ([], remaining)
  | item :: items, remaining => do
    let (value, remaining) ← item.project root remaining
    let (values, remaining) ← projectItems root items remaining
    .ok (value :: values, remaining)

def projectFields (root : Json) : List (FactoryKey × FlowValueMapping) → Nat →
    Except FactoryError (List (String × Json) × Nat)
  | [], remaining => .ok ([], remaining)
  | (name, selection) :: fields, remaining => do
    let remaining ← spend remaining ((Json.encodeString name.value).utf8ByteSize + 2)
    let (value, remaining) ← selection.project root remaining
    let (entries, remaining) ← projectFields root fields remaining
    .ok ((name.value, value) :: entries, remaining)

end

/-- Evaluates a bounded projection. -/
def projectRaw (mapping : FlowValueMapping) (input : Json) : Except FactoryError Json := do
  let (value, _) ← mapping.project floatText input maxFlowDataBytes
  .ok value

end

/-- What passes from the parts of a mapping to the mapping holds of all mappings. -/
@[elab_as_elim] theorem ind {motive : FlowValueMapping → Prop}
    (pointer : ∀ path, motive (.pointer path)) (constant : ∀ value, motive (.constant value))
    (object : ∀ fields, (∀ field ∈ fields, motive field.2) → motive (.object fields))
    (array : ∀ items, (∀ item ∈ items, motive item) → motive (.array items))
    (ifPresent : ∀ path present otherwise, motive present → motive otherwise →
      motive (.ifPresent path present otherwise)) : ∀ mapping, motive mapping
  | .pointer path => pointer path
  | .constant value => constant value
  | .object fields => object fields fun field _ =>
    ind pointer constant object array ifPresent field.2
  | .array items => array items fun item _ => ind pointer constant object array ifPresent item
  | .ifPresent path present otherwise => ifPresent path present otherwise
    (ind pointer constant object array ifPresent present)
    (ind pointer constant object array ifPresent otherwise)
termination_by mapping => mapping
decreasing_by
  · have := sizeOf_lt_of_mem ‹field ∈ fields›
    cases field
    simp only [FlowValueMapping.object.sizeOf_spec, Prod.mk.sizeOf_spec] at *
    omega
  · have := sizeOf_lt_of_mem ‹item ∈ items›
    simp only [FlowValueMapping.array.sizeOf_spec]
    omega
  · simp only [FlowValueMapping.ifPresent.sizeOf_spec]
    omega
  · simp only [FlowValueMapping.ifPresent.sizeOf_spec]
    omega

variable {floatText : FiniteFloat → String} {root : Json}

variable {remaining rest : Nat} {value : Json} {items : List FlowValueMapping}
  {fields : List (FactoryKey × FlowValueMapping)} {entries : List (String × Json)}
  {shape part input : FlowValueSchema}

theorem spend_eq_ok {bytes : Nat} :
    spend remaining bytes = .ok rest ↔ bytes ≤ remaining ∧ rest = remaining - bytes := by
  unfold spend
  split <;> simp_all [eq_comm]

theorem copyBounded_eq_ok {copy : Json} : copyBounded floatText value remaining = .ok (copy, rest) ↔
      copy = value ∧ value.size floatText ≤ remaining ∧
        rest = remaining - value.size floatText := by
  simp only [copyBounded, bind_eq_ok, spend_eq_ok, Except.ok.injEq, Prod.mk.injEq]
  constructor
  · rintro ⟨_, ⟨hle, rfl⟩, rfl, rfl⟩
    exact ⟨rfl, hle, rfl⟩
  · rintro ⟨rfl, hle, rfl⟩
    exact ⟨_, ⟨hle, rfl⟩, rfl, rfl⟩

/-! ## The text of the result -/

/-- The budget pays for the text of the value, whichever parts it is built of. -/
def Pays (floatText : FiniteFloat → String) (root : Json) (mapping : FlowValueMapping) : Prop :=
  ∀ remaining value rest, mapping.project floatText root remaining = .ok (value, rest) →
    value.size floatText + rest ≤ remaining

theorem projectItems_size (hitems : ∀ item ∈ items, item.Pays floatText root)
    {values : List Json} (h : projectItems floatText root items remaining = .ok (values, rest)) :
    values.length = items.length ∧ (values.map (Json.size floatText)).sum + rest ≤ remaining := by
  induction items generalizing remaining rest values with
  | nil =>
    cases h
    exact ⟨rfl, by simp⟩
  | cons item items ih =>
    rw [projectItems, bind_eq_ok] at h
    obtain ⟨⟨value, middle⟩, hvalue, h⟩ := h
    rw [bind_eq_ok] at h
    obtain ⟨⟨tail, last⟩, htail, h⟩ := h
    cases h
    have hhead := hitems item mem_cons_self remaining value middle hvalue
    obtain ⟨hlen, hsum⟩ := ih (fun item hmem => hitems item (mem_cons_of_mem _ hmem)) htail
    refine ⟨by rw [length_cons, length_cons, hlen], ?_⟩
    rw [map_cons, sum_cons]
    omega

theorem projectFields_size (hflds : ∀ field ∈ fields, field.2.Pays floatText root)
    (h : projectFields floatText root fields remaining = .ok (entries, rest)) :
    (entries.map fun entry => (Json.encodeString entry.1).utf8ByteSize + 1 +
      entry.2.size floatText).sum + entries.length + rest ≤ remaining := by
  induction fields generalizing remaining rest entries with
  | nil =>
    cases h
    simp
  | cons field fields ih =>
    obtain ⟨name, selection⟩ := field
    rw [projectFields, bind_eq_ok] at h
    obtain ⟨paid, hpaid, h⟩ := h
    rw [bind_eq_ok] at h
    obtain ⟨⟨value, middle⟩, hvalue, h⟩ := h
    rw [bind_eq_ok] at h
    obtain ⟨⟨tail, last⟩, htail, h⟩ := h
    cases h
    obtain ⟨hle, rfl⟩ := spend_eq_ok.mp hpaid
    have hhead := hflds (name, selection) mem_cons_self _ value middle hvalue
    have hsum := ih (fun field hmem => hflds field (mem_cons_of_mem _ hmem)) htail
    simp only [map_cons, sum_cons, length_cons]
    omega

/-- Every mapping is charged for the text it yields. -/
theorem project_size (mapping : FlowValueMapping) : mapping.Pays floatText root := by
  induction mapping using FlowValueMapping.ind with
  | pointer path =>
    intro remaining value rest h
    rw [project] at h
    split at h
    · obtain ⟨rfl, hle, rfl⟩ := copyBounded_eq_ok.mp h
      omega
    · cases h
  | constant value =>
    intro remaining copy rest h
    obtain ⟨rfl, hle, rfl⟩ := copyBounded_eq_ok.mp h
    omega
  | array items ih =>
    intro remaining value rest h
    rw [project, bind_eq_ok] at h
    obtain ⟨paid, hpaid, h⟩ := h
    rw [bind_eq_ok] at h
    obtain ⟨⟨values, last⟩, hvals, h⟩ := h
    cases h
    obtain ⟨hle, rfl⟩ := spend_eq_ok.mp hpaid
    obtain ⟨hlen, hsum⟩ := projectItems_size ih hvals
    rw [Json.encode_array_size, hlen]
    omega
  | ifPresent path present otherwise ihPresent ihOtherwise =>
    intro remaining value rest h
    rw [project] at h
    split at h
    · exact ihPresent remaining value rest h
    · exact ihOtherwise remaining value rest h
  | object fields ih =>
    intro remaining value rest h
    rw [project, bind_eq_ok] at h
    obtain ⟨paid, hpaid, h⟩ := h
    rw [bind_eq_ok] at h
    obtain ⟨⟨entries, last⟩, hents, h⟩ := h
    cases h
    obtain ⟨hle, rfl⟩ := spend_eq_ok.mp hpaid
    have hsum := projectFields_size ih hents
    rw [Json.encode_object_size]
    omega

/-! ## The shape of the result -/

theorem get_of_mem {name : String}
    (h : Json.get entries name = some value) : (name, value) ∈ entries := by
  obtain ⟨entry, hentry, rfl⟩ := Option.map_eq_some_iff.mp h
  have hname : entry.1 = name := by simpa using List.find?_some hentry
  rw [← hname]
  exact mem_of_find?_eq_some hentry

theorem accepts_child {child : Json} {key : String}
    (hshape : selectShape shape key = some part) (hvalue : shape.accepts value = true)
    (hchild : value.child key = some child) : part.accepts child = true := by
  cases shape with
  | object fields =>
    obtain ⟨field, hfield, rfl⟩ := Option.map_eq_some_iff.mp hshape
    have hname : field.key.value = key := by simpa using List.find?_some hfield
    obtain ⟨entries, rfl, -, hents⟩ := accepts_object.mp hvalue
    refine (acceptsFields_iff.mp hents field
      (mem_of_find?_eq_some hfield)).1 child ?_
    rw [hname]
    exact hchild
  | array item minItems maxItems =>
    obtain ⟨values, rfl, -, -, heach⟩ := accepts_array.mp hvalue
    rw [selectShape] at hshape
    split at hshape
    · cases hshape
      obtain ⟨index, -, hindex⟩ := Option.bind_eq_some_iff.mp hchild
      exact heach child (mem_of_getElem? hindex)
    · cases hshape
  | externallyTagged variants =>
    have hvariant : variantGet variants key = some (some part) := Option.join_eq_some_iff.mp hshape
    rcases accepts_externallyTagged.mp hvalue with ⟨name, rfl, -⟩ |
      ⟨name, payload, payloadShape, rfl, hpay, haccs⟩
    · cases hchild
    · -- The only field is the one the token names.
      have hmem := get_of_mem hchild
      rw [mem_singleton, Prod.mk.injEq] at hmem
      obtain ⟨rfl, rfl⟩ := hmem
      rw [hvariant] at hpay
      cases hpay
      exact haccs
  | _ => cases hshape

theorem accepts_foldlM {tokens : List String} {selected : Json}
    (hshape : tokens.foldlM selectShape shape = some part) (hvalue : shape.accepts value = true)
    (hsel : tokens.foldlM Json.child value = some selected) :
    part.accepts selected = true := by
  induction tokens generalizing shape value with
  | nil =>
    cases hshape
    cases hsel
    exact hvalue
  | cons token tokens ih =>
    obtain ⟨next, hnext, hshape⟩ := Option.bind_eq_some_iff.mp hshape
    obtain ⟨child, hchild, hsel⟩ := Option.bind_eq_some_iff.mp hsel
    exact ih hshape (accepts_child hnext hvalue hchild) hsel

/-- A pointer selects a part of the shape the symbolic walk ends at. -/
theorem accepts_pointer {path : String} {selected : Json}
    (hshape : (pointerTokens path).foldlM selectShape shape = some part)
    (hvalue : shape.accepts value = true) (hsel : value.pointer path = some selected) :
    part.accepts selected = true := by
  unfold Json.pointer at hsel
  split at hsel
  · -- The empty pointer has no tokens.
    rename_i hempty
    rw [String.isEmpty_iff.mp hempty] at hshape
    cases hshape
    cases hsel
    exact hvalue
  · split at hsel
    · cases hsel
    · exact accepts_foldlM hshape hvalue hsel

/-- The mapping yields values of the target from inputs of the input shape. -/
def Yields (floatText : FiniteFloat → String) (root : Json) (mapping : FlowValueMapping)
    (target : FlowValueSchema) : Prop :=
  ∀ remaining value rest, mapping.project floatText root remaining = .ok (value, rest) →
    target.accepts value = true

theorem fitsItems_iff {item : FlowValueSchema} :
    fitsItems input items item = true ↔ ∀ mapping ∈ items, mapping.fits input item = true := by
  induction items with
  | nil => simp [fitsItems]
  | cons mapping items ih => simp [fitsItems, ih]

theorem fitsFields_iff {expected : List (FlowFieldSchema FlowValueSchema)} :
    fitsFields input fields expected = true ↔ ∀ entry ∈ fields, ∃ field,
      fieldGet expected entry.1 = some field ∧ entry.2.fits input field.value = true := by
  induction fields with
  | nil => simp [fitsFields]
  | cons entry fields ih =>
    rw [fitsFields, Bool.and_eq_true, ih, forall_mem_cons]
    refine and_congr_left fun _ => ?_
    cases fieldGet expected entry.1 <;> simp

theorem projectItems_accepts {item : FlowValueSchema}
    (hitems : ∀ mapping ∈ items, mapping.Yields floatText root item)
    {values : List Json} (h : projectItems floatText root items remaining = .ok (values, rest)) :
    values.length = items.length ∧ ∀ value ∈ values, item.accepts value = true := by
  induction items generalizing remaining rest values with
  | nil =>
    cases h
    exact ⟨rfl, fun value hmem => absurd hmem not_mem_nil⟩
  | cons mapping items ih =>
    rw [projectItems, bind_eq_ok] at h
    obtain ⟨⟨value, middle⟩, hvalue, h⟩ := h
    rw [bind_eq_ok] at h
    obtain ⟨⟨tail, last⟩, htail, h⟩ := h
    cases h
    obtain ⟨hlen, heach⟩ :=
      ih (fun mapping hmem => hitems mapping (mem_cons_of_mem _ hmem)) htail
    refine ⟨by rw [length_cons, length_cons, hlen], fun other hmem => ?_⟩
    rcases mem_cons.mp hmem with rfl | hmem
    · exact hitems mapping mem_cons_self _ _ _ hvalue
    · exact heach other hmem

/-- The entries of a projected object, one for each selection. -/
theorem projectFields_entries
    (h : projectFields floatText root fields remaining = .ok (entries, rest)) :
    List.Forall₂ (fun field entry => entry.1 = field.1.value ∧ ∃ before after,
      field.2.project floatText root before = .ok (entry.2, after)) fields entries := by
  induction fields generalizing remaining rest entries with
  | nil =>
    cases h
    exact .nil
  | cons field fields ih =>
    obtain ⟨name, selection⟩ := field
    rw [projectFields, bind_eq_ok] at h
    obtain ⟨paid, -, h⟩ := h
    rw [bind_eq_ok] at h
    obtain ⟨⟨value, middle⟩, hvalue, h⟩ := h
    rw [bind_eq_ok] at h
    obtain ⟨⟨tail, last⟩, htail, h⟩ := h
    cases h
    exact .cons ⟨rfl, _, _, hvalue⟩ (ih htail)

/-- A mapping that fits yields values the target accepts. -/
theorem project_accepts {target : FlowValueSchema} {mapping : FlowValueMapping}
    (hkeyed : target.Keyed) (hinput : input.accepts root = true)
    (hfits : mapping.fits input target = true) : mapping.Yields floatText root target := by
  induction mapping using FlowValueMapping.ind generalizing target with
  | pointer path =>
    intro remaining value rest h
    rw [fits] at hfits
    split at hfits
    · rename_i shape hshape
      rw [project] at h
      split at h
      · rename_i selected hsel
        obtain ⟨rfl, -, -⟩ := copyBounded_eq_ok.mp h
        exact accepts_of_covers hkeyed hfits
          (accepts_pointer hshape hinput hsel)
      · cases h
    · cases hfits
  | constant value =>
    intro remaining copy rest h
    obtain ⟨rfl, -, -⟩ := copyBounded_eq_ok.mp h
    exact hfits
  | ifPresent path present otherwise ihPresent ihOtherwise =>
    intro remaining value rest h
    rw [fits, Bool.and_eq_true] at hfits
    rw [project] at h
    split at h
    · exact ihPresent hkeyed hfits.1 remaining value rest h
    · exact ihOtherwise hkeyed hfits.2 remaining value rest h
  | array items ih =>
    intro remaining value rest h
    cases target with
    | array item minItems maxItems =>
      cases hkeyed with
      | array _ _ _ hitem =>
        simp only [fits, Bool.and_eq_true, decide_eq_true_eq, fitsItems_iff] at hfits
        rw [project, bind_eq_ok] at h
        obtain ⟨paid, -, h⟩ := h
        rw [bind_eq_ok] at h
        obtain ⟨⟨values, last⟩, hvals, h⟩ := h
        cases h
        obtain ⟨hlen, heach⟩ := projectItems_accepts
          (fun mapping hmem => ih mapping hmem hitem (hfits.2 mapping hmem)) hvals
        exact accepts_array.mpr
          ⟨values, rfl, by omega, by omega, heach⟩
    | _ => cases hfits
  | object fields ih =>
    intro remaining value rest h
    cases target with
    | object expected =>
      cases hkeyed with
      | object _ hord hshapes =>
        rw [fits, Bool.and_eq_true] at hfits
        have hsel := fitsFields_iff.mp hfits.1
        have hreqd := all_eq_true.mp hfits.2
        rw [project, bind_eq_ok] at h
        obtain ⟨paid, -, h⟩ := h
        rw [bind_eq_ok] at h
        obtain ⟨⟨entries, last⟩, hents, h⟩ := h
        cases h
        have hforall := projectFields_entries hents
        have hacc : ∀ entry ∈ entries, ∃ field ∈ expected, field.key.value = entry.1 ∧
            field.value.accepts entry.2 = true := by
          intro entry hentry
          obtain ⟨selection, hselection, hname, before, after, hproj⟩ :=
            forall₂_exists_left hforall hentry
          obtain ⟨field, hfield, hfit⟩ := hsel selection hselection
          obtain ⟨hmem, hkey⟩ := fieldGet_eq_some hfield
          exact ⟨field, hmem, by rw [hkey, hname],
            ih selection hselection (hshapes field hmem) hfit _ _ _ hproj⟩
        refine accepts_object_of_fields hord (fun entry hentry => ?_)
          (fun name value hvalue => ?_) fun field hfield hneeded hnone => ?_
        · obtain ⟨field, hfield, hname, -⟩ := hacc entry hentry
          exact ⟨field, hfield, hname⟩
        · exact hacc (name, value) (get_of_mem hvalue)
        · -- A required field has a selection, so its entry is present.
          have hsome := hreqd field hfield
          rw [hneeded, Bool.not_true, Bool.false_or, any_eq_true] at hsome
          obtain ⟨selection, hselection, hkey⟩ := hsome
          obtain ⟨entry, hentry, hname, -⟩ := forall₂_exists_right hforall hselection
          rw [Json.get, Option.map_eq_none_iff, List.find?_eq_none] at hnone
          refine hnone entry hentry (decide_eq_true ?_)
          rw [hname, of_decide_eq_true hkey]
    | _ => cases hfits

/-- What a mapping that fits yields is accepted by the target and short enough to retain. -/
theorem projected_values_fit {input target : FlowValueSchema} {mapping : FlowValueMapping}
    {value projected : Json} (hkeyed : target.Keyed) (hinput : input.accepts value = true)
    (hfits : mapping.fits input target = true)
    (hproj : mapping.projectRaw floatText value = .ok projected) :
    target.accepts projected = true ∧
      (projected.encode floatText).utf8ByteSize ≤ maxFlowDataBytes := by
  rw [projectRaw, bind_eq_ok] at hproj
  obtain ⟨⟨result, rest⟩, hres, hproj⟩ := hproj
  cases hproj
  refine ⟨project_accepts hkeyed hinput hfits _ _ _ hres, ?_⟩
  have hsize : projected.size floatText + rest ≤ maxFlowDataBytes :=
    project_size mapping _ _ _ hres
  exact (Nat.le_add_right _ rest).trans hsize

/-- Keeps the list and takes the tag from a pointer when the input has one. -/
def sampleMapping : FlowValueMapping :=
  .object [(⟨"items"⟩, .array [.pointer "/items/0", .constant (.number (.posInt 7))]),
    (⟨"tag"⟩, .ifPresent "/tag" (.pointer "/tag") (.constant (.string "none")))]

theorem projected_values_fit_sample :
    FlowValueSchema.sampleTarget.accepts (.object [("items", .array [.number (.posInt 3), .number (.posInt 7)]),
        ("tag", .string "none")]) = true ∧
      ((Json.object [("items", .array [.number (.posInt 3), .number (.posInt 7)]),
        ("tag", .string "none")]).encode fun _ => "0.0").utf8ByteSize ≤ maxFlowDataBytes :=
  @projected_values_fit _ FlowValueSchema.sampleProducer _ sampleMapping
    FlowValueSchema.sampleValue _ sampleTarget_keyed
    (by decide +kernel) (by decide +kernel) rfl

end FlowValueMapping

end OctaCity.Factory.Flow
