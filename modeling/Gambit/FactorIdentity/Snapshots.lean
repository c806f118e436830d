import Gambit.FactorIdentity.Identity

/-!
# The snapshot of an identity

The snapshot is the dict of the constructor's arguments in key order.  Read
back, it gives these arguments again, canonical.
-/

set_option autoImplicit false

namespace Gambit.FactorIdentity

open PythonJson Raising

variable {φ : Type} {floats : FloatFormat φ}

/-! ## Dicts in key order -/

/-- The items of the dict in key order. -/
def sortedEntries (fields : List (String × PyValue φ)) : List (Key × PyValue φ) :=
  (SortedDict.ofList fields).items.map fun field => (.str field.1, field.2)

theorem item_sortedEntries {fields : List (String × PyValue φ)} {name : String} {value : PyValue φ}
    (distinct : (fields.map Prod.fst).Nodup) (stored : (name, value) ∈ fields) :
    item (sortedEntries fields) name = value := by
  have found := (SortedDict.get?_ofList distinct name value).mpr stored
  rw [SortedDict.get?] at found
  rw [item, sortedEntries, List.find?_map, Option.map_map]
  have same : ((SortedDict.ofList fields).items.find? fun field => field.1 = name).map Prod.snd = some value := by
    simpa using found
  simp only [Function.comp_def, Key.str.injEq]
  rw [same]
  rfl

theorem hasExactly_sortedEntries {fields : List (String × PyValue φ)} {names : List String}
    (distinct : (fields.map Prod.fst).Nodup) (same : ∀ name, name ∈ names ↔ name ∈ fields.map Prod.fst) :
    hasExactly (sortedEntries fields) names = true := by
  have keys : ∀ name, name ∈ names ↔ name ∈ (SortedDict.ofList fields).items.map Prod.fst := by
    intro name
    rw [same, ((SortedDict.perm_ofList distinct).map Prod.fst).mem_iff]
  rw [hasExactly, Bool.and_eq_true, List.all_eq_true, List.all_eq_true]
  constructor
  · intro entry member
    obtain ⟨field, stored, rfl⟩ := List.mem_map.mp member
    exact decide_eq_true (List.mem_map_of_mem ((keys _).mpr (List.mem_map_of_mem stored)))
  · intro name listed
    obtain ⟨field, stored, rfl⟩ := List.mem_map.mp ((keys name).mp listed)
    exact decide_eq_true (by
      rw [sortedEntries, List.map_map]
      exact List.mem_map_of_mem (f := Prod.fst ∘ fun field : String × PyValue φ => (Key.str field.1, field.2)) stored)

/-! ## Columns -/

def FactorColumnSchema.fields (column : FactorColumnSchema) : List (String × PyValue φ) :=
  [("name", .str column.name), ("dtype", .str column.dtype), ("nullable", .bool column.nullable)]

theorem columnKeys_distinct (column : FactorColumnSchema) :
    ((column.fields : List (String × PyValue φ)).map Prod.fst).Nodup := by
  change ["name", "dtype", "nullable"].Nodup
  decide

theorem columnOf_sortedDict (column : FactorColumnSchema) :
    columnOf (sortedDict column.fields : PyValue φ) = .ok column := by
  have distinct : ((column.fields : List (String × PyValue φ)).map Prod.fst).Nodup :=
    columnKeys_distinct column
  have fields : hasExactly (sortedEntries (column.fields : List (String × PyValue φ)))
      ["name", "dtype", "nullable"] = true := hasExactly_sortedEntries distinct fun _ => Iff.rfl
  have name : item (sortedEntries column.fields) "name" = (.str column.name : PyValue φ) :=
    item_sortedEntries distinct (by simp [FactorColumnSchema.fields])
  have dtype : item (sortedEntries column.fields) "dtype" = (.str column.dtype : PyValue φ) :=
    item_sortedEntries distinct (by simp [FactorColumnSchema.fields])
  have nullable : item (sortedEntries column.fields) "nullable" = (.bool column.nullable : PyValue φ) :=
    item_sortedEntries distinct (by simp [FactorColumnSchema.fields])
  have created : FactorColumnSchema.create column.name column.dtype column.nullable = .ok column := by
    rw [FactorColumnSchema.create, dif_pos column.safe, dif_pos column.sized]
  change (do
    refuse (!hasExactly (sortedEntries column.fields) ["name", "dtype", "nullable"]) _
    let name ← asStr _ (item (sortedEntries (column.fields : List (String × PyValue φ))) "name")
    let dtype ← asStr _ (item (sortedEntries (column.fields : List (String × PyValue φ))) "dtype")
    let nullable ← asBool _ (item (sortedEntries (column.fields : List (String × PyValue φ))) "nullable")
    FactorColumnSchema.create name dtype nullable) = _
  rw [fields, name, dtype, nullable]
  exact created

theorem columnsOf_sortedDict (columns : List FactorColumnSchema) :
    columnsOf (columns.map fun column => (sortedDict column.fields : PyValue φ)) = .ok columns := by
  induction columns with
  | nil => rfl
  | cons column columns ih =>
      rw [List.map_cons, columnsOf, columnOf_sortedDict, ih]
      rfl

/-! ## Lists of texts -/

theorem allStr_strings (message : String) (texts : List String) :
    allStr message (texts.map fun text => (.str text : PyValue φ)) = .ok texts := by
  induction texts with
  | nil => rfl
  | cons text texts ih =>
      rw [List.map_cons, allStr, ih]
      rfl

theorem inputItems_texts (fields : List (String × String)) :
    inputItems ((fields.map fun field => (field.1, (.str field.2 : PyValue φ))).map
      fun field => (Key.str field.1, field.2)) = .ok fields := by
  induction fields with
  | nil => rfl
  | cons field fields ih =>
      rw [List.map_cons, List.map_cons, inputItems, ih]
      rfl

/-! ## Acceptance -/

theorem refuse_eq_ok {refused : Bool} {message : String} :
    refuse refused message = .ok () ↔ refused = false := by
  cases refused <;> simp [refuse]

/-- A check and what comes after it. -/
theorem check_bind_ok {α : Type} {check : Except Exn Unit} {rest : Unit → Except Exn α} {result : α} :
    (check >>= rest) = .ok result ↔ check = .ok () ∧ rest () = .ok result := by
  rw [bind_ok]
  exact ⟨fun ⟨_, passed, run⟩ => ⟨passed, run⟩, fun ⟨passed, run⟩ => ⟨(), passed, run⟩⟩

theorem checkParents_ok {parents : List String} :
    checkParents parents = .ok () ↔ ∀ parent ∈ parents, isDigest parent = true := by
  induction parents with
  | nil => simp [checkParents]
  | cons parent parents ih =>
      simp [checkParents, check_bind_ok, validateDigest, refuse_eq_ok, ih]

theorem checkInputs_ok {inputs : List (String × String)} :
    checkInputs inputs = .ok () ↔ ∀ input ∈ inputs, isName input.1 = true ∧ isDigest input.2 = true := by
  induction inputs with
  | nil => simp [checkInputs]
  | cons input inputs ih =>
      simp [checkInputs, check_bind_ok, validateDigest, refuse_eq_ok, ih, and_assoc]

/-- The arguments with other mappings. -/
def Arguments.withMappings (arguments : Arguments φ) (inputs : OrderedDict String String)
    (parameters context : List (Key × PyValue φ)) : Arguments φ :=
  { arguments with
    inputFingerprints := inputs
    parameters := parameters
    researchContext := context }

/-- The checks look at the inputs one by one, and not at the other mappings. -/
theorem check_withMappings {arguments : Arguments φ} {inputs : OrderedDict String String}
    (parameters context : List (Key × PyValue φ))
    (same : inputs.items.Perm arguments.inputFingerprints.items) (accepted : arguments.check = .ok ()) :
    (arguments.withMappings inputs parameters context).check = .ok () := by
  have empty : inputs.items.isEmpty = arguments.inputFingerprints.items.isEmpty := by
    rw [Bool.eq_iff_iff, List.isEmpty_iff, List.isEmpty_iff]
    exact ⟨fun none => List.nil_perm.mp (none ▸ same), fun none => List.perm_nil.mp (none ▸ same)⟩
  have each : checkInputs arguments.inputFingerprints.items = .ok () →
      checkInputs inputs.items = .ok () := by
    rw [checkInputs_ok, checkInputs_ok]
    exact fun valid input member => valid input (same.mem_iff.mp member)
  simp only [Arguments.check, Arguments.withMappings, check_bind_ok, empty] at accepted ⊢
  obtain ⟨transform, version, schema, columns, ordering, fields, parents, distinct, sources, inputs⟩ :=
    accepted
  exact ⟨transform, version, schema, columns, ordering, fields, parents, distinct, sources, each inputs⟩

/-! ## The snapshot -/

/-- What a snapshot says, given the canonical mappings. -/
def snapshotOf (arguments : Arguments φ) (parameters context : List (String × PyValue φ)) :
    List (String × PyValue φ) := [
  ("format", .str identityFormat),
  ("version", .int identityVersion),
  ("parents", strings arguments.parents),
  ("inputs", texts (sortedInputs arguments.inputFingerprints)),
  ("transform", sortedDict [("name", .str arguments.transform), ("version", .str arguments.transformVersion)]),
  ("parameters", dict parameters),
  ("output_schema", .sequence .list (arguments.outputSchema.map fun column => sortedDict column.fields)),
  ("row_ordering", strings arguments.rowOrdering),
  ("research_context", dict context)]

theorem snapshotKeys_distinct (arguments : Arguments φ) (parameters context : List (String × PyValue φ)) :
    ((snapshotOf arguments parameters context).map Prod.fst).Nodup := by
  change snapshotFields.Nodup
  decide

theorem isCanonical_texts (fields : List (String × String)) (sorted : fields.Pairwise fun a b => a.1 < b.1)
    (keys : ∀ field ∈ fields, field.1 ≠ "") : IsCanonical (texts fields : PyValue φ) := by
  refine .dict (List.pairwise_map.mpr sorted) ?_ ?_
  · intro field member
    obtain ⟨field, stored, rfl⟩ := List.mem_map.mp member
    exact keys field stored
  · intro field member
    obtain ⟨field, stored, rfl⟩ := List.mem_map.mp member
    exact .str _

theorem isCanonical_strings (texts : List String) : IsCanonical (strings texts : PyValue φ) := by
  refine .list ?_
  intro item member
  obtain ⟨text, -, rfl⟩ := List.mem_map.mp member
  exact .str text

theorem isName_nonempty {text : String} (safe : isName text = true) : text ≠ "" := by
  rintro rfl
  exact absurd safe (by decide)

theorem sortedInputs_perm (inputs : OrderedDict String String) : (sortedInputs inputs).Perm inputs.items :=
  SortedDict.perm_ofList inputs.distinct

/-- Every snapshot is canonical. -/
theorem isCanonical_snapshot {arguments : Arguments φ} {parameters context : List (String × PyValue φ)}
    (accepted : arguments.check = .ok ()) (canonicalParameters : IsCanonical (dict parameters))
    (canonicalContext : IsCanonical (dict context)) :
    IsCanonical (sortedDict (snapshotOf arguments parameters context)) := by
  have inputs : ∀ input ∈ arguments.inputFingerprints.items, isName input.1 = true ∧ isDigest input.2 = true := by
    simp only [Arguments.check, check_bind_ok] at accepted
    exact checkInputs_ok.mp accepted.2.2.2.2.2.2.2.2.2
  have inputTexts : IsCanonical (texts (sortedInputs arguments.inputFingerprints) : PyValue φ) := by
    refine isCanonical_texts _ (SortedDict.ofList _).sorted ?_
    intro input member
    exact isName_nonempty (inputs input ((sortedInputs_perm _).mem_iff.mp member)).1
  apply plain_sortedDict
  · intro field member
    have key : field.1 ∈ snapshotFields := List.mem_map_of_mem (f := Prod.fst) member
    have nonempty : ∀ name ∈ snapshotFields, name ≠ "" := by decide
    exact nonempty field.1 key
  · simp only [snapshotOf, List.forall_mem_cons, List.not_mem_nil, false_implies, implies_true, and_true]
    refine ⟨.str _, .int _, isCanonical_strings _, inputTexts, ?_, canonicalParameters, ?_,
      isCanonical_strings _, canonicalContext⟩
    · apply plain_sortedDict
      · simp
      · simp only [List.forall_mem_cons, List.not_mem_nil, false_implies, implies_true, and_true]
        exact ⟨.str _, .str _⟩
    · refine .list ?_
      intro item member
      obtain ⟨column, -, rfl⟩ := List.mem_map.mp member
      apply plain_sortedDict
      · simp [FactorColumnSchema.fields]
      · simp only [FactorColumnSchema.fields, List.forall_mem_cons, List.not_mem_nil, false_implies,
          implies_true, and_true]
        exact ⟨.str _, .str _, .bool _⟩

/-- A mapping becomes a dict. -/
theorem canonicalize_mapping {isDict : Bool} {entries : List (Key × PyValue φ)} {path : String}
    {result : PyValue φ} (run : canonicalize (.mapping isDict entries) path = .ok result) :
    ∃ fields, result = dict fields := by
  rw [canonicalize, refuse_ok, bind_ok] at run
  obtain ⟨-, fields, -, same⟩ := run
  exact ⟨fields, (Except.ok.inj same).symm⟩

/-- The constructor's snapshot has the text of the canonical one. -/
theorem dumps_snapshot (arguments : Arguments φ) (parameters context : List (String × PyValue φ)) :
    dumps floats (arguments.snapshotDict (dict parameters) (dict context)) =
      dumps floats (sortedDict (snapshotOf arguments parameters context)) := by
  rw [← dumps_sortedDict (snapshotKeys_distinct arguments parameters context)]
  have transform : dumps floats (texts [("name", arguments.transform), ("version", arguments.transformVersion)]) =
      dumps floats (sortedDict [("name", .str arguments.transform), ("version", .str arguments.transformVersion)]) :=
    dumps_sortedDict (show ["name", "version"].Nodup by decide)
  have columns : dumpsItems floats (arguments.outputSchema.map FactorColumnSchema.snapshot) =
      dumpsItems floats (arguments.outputSchema.map fun column => sortedDict column.fields) :=
    dumpsItems_congr floats arguments.outputSchema fun column _ =>
      dumps_sortedDict (columnKeys_distinct column)
  have schema : dumps floats (.sequence .list (arguments.outputSchema.map FactorColumnSchema.snapshot)) =
      dumps floats (.sequence .list (arguments.outputSchema.map fun column => sortedDict column.fields)) := by
    rw [dumps, dumps, columns]
    · simp
    · simp
  refine dumps_dict_congr floats ?_
  exact .cons ⟨rfl, rfl⟩ (.cons ⟨rfl, rfl⟩ (.cons ⟨rfl, rfl⟩ (.cons ⟨rfl, rfl⟩ (.cons ⟨rfl, transform⟩
    (.cons ⟨rfl, rfl⟩ (.cons ⟨rfl, schema⟩ (.cons ⟨rfl, rfl⟩ (.cons ⟨rfl, rfl⟩ .nil))))))))

/-! ## Construction -/

/-- What a successful construction did. -/
structure Built (floats : FloatFormat φ) (arguments : Arguments φ) (parameters context : List (String × PyValue φ))
    (identity : FactorNodeIdentity φ) : Prop where
  accepted : arguments.check = .ok ()
  canonicalParameters : canonicalize (.mapping true arguments.parameters) "parameters" = .ok (dict parameters)
  canonicalContext : canonicalize (.mapping true arguments.researchContext) "research_context" = .ok (dict context)
  fields : identity.fields = arguments
  printed : dumps floats (sortedDict (snapshotOf arguments parameters context)) = some identity.canonicalPayload

theorem create_ok {arguments : Arguments φ} {identity : FactorNodeIdentity φ}
    (run : create floats arguments = .ok identity) :
    ∃ parameters context, Built floats arguments parameters context identity := by
  rw [create, check_bind_ok, bind_ok] at run
  obtain ⟨accepted, snapshot, built, run⟩ := run
  simp only [Arguments.buildSnapshot, bind_ok, Except.ok.injEq] at built
  obtain ⟨parameters, canonicalParameters, context, canonicalContext, same⟩ := built
  obtain ⟨parameterFields, rfl⟩ := canonicalize_mapping canonicalParameters
  obtain ⟨contextFields, rfl⟩ := canonicalize_mapping canonicalContext
  rw [← same, dumps_snapshot] at run
  cases printed : dumps floats (sortedDict (snapshotOf arguments parameterFields contextFields)) with
  | none =>
      rw [printed] at run
      cases run
  | some payload =>
      rw [printed] at run
      cases run
      exact ⟨parameterFields, contextFields, accepted, canonicalParameters, canonicalContext, rfl, printed⟩

theorem create_of_built {arguments : Arguments φ} {parameters context : List (String × PyValue φ)}
    {identity : FactorNodeIdentity φ} (built : Built floats arguments parameters context identity) :
    create floats arguments = .ok identity := by
  obtain ⟨fields, payload⟩ := identity
  obtain ⟨accepted, canonicalParameters, canonicalContext, rfl, printed⟩ := built
  have snapshot : fields.buildSnapshot = .ok (fields.snapshotDict (dict parameters) (dict context)) := by
    simp only [Arguments.buildSnapshot, bind_ok]
    exact ⟨_, canonicalParameters, _, canonicalContext, rfl⟩
  rw [create, check_bind_ok, bind_ok]
  exact ⟨accepted, _, snapshot, by rw [dumps_snapshot, printed]⟩

theorem Built.isCanonical {arguments : Arguments φ} {parameters context : List (String × PyValue φ)}
    {identity : FactorNodeIdentity φ} (built : Built floats arguments parameters context identity) :
    IsCanonical (sortedDict (snapshotOf arguments parameters context)) :=
  isCanonical_snapshot built.accepted (canonicalize_isCanonical _ _ _ built.canonicalParameters)
    (canonicalize_isCanonical _ _ _ built.canonicalContext)

/-- The payload is the snapshot's text. -/
theorem Built.snapshot {arguments : Arguments φ} {parameters context : List (String × PyValue φ)}
    {identity : FactorNodeIdentity φ} (built : Built floats arguments parameters context identity) :
    identity.snapshot floats = some (sortedDict (snapshotOf arguments parameters context)) := by
  obtain ⟨payload, printed, read⟩ := loads_dumps floats built.isCanonical
  rw [built.printed, Option.some.injEq] at printed
  rw [FactorNodeIdentity.snapshot, printed, read]

/-! ## And back -/

/-- The arguments a snapshot stands for: inputs and mappings in key order. -/
def Arguments.restored (arguments : Arguments φ) (parameters context : List (String × PyValue φ)) : Arguments φ :=
  arguments.withMappings (OrderedDict.ofList (sortedInputs arguments.inputFingerprints))
    (parameters.map fun field => (.str field.1, field.2)) (context.map fun field => (.str field.1, field.2))

theorem argumentsOf_snapshot (arguments : Arguments φ) (parameters context : List (String × PyValue φ)) :
    argumentsOf (sortedDict (snapshotOf arguments parameters context)) =
      .ok (arguments.restored parameters context) := by
  have distinct := snapshotKeys_distinct arguments parameters context
  have transformDistinct : (([("name", .str arguments.transform), ("version", .str arguments.transformVersion)] :
      List (String × PyValue φ)).map Prod.fst).Nodup := show ["name", "version"].Nodup by decide
  have stored : ∀ {name : String} {value : PyValue φ}, (name, value) ∈ snapshotOf arguments parameters context →
      item (sortedEntries (snapshotOf arguments parameters context)) name = value := fun member =>
    item_sortedEntries distinct member
  have fields : hasExactly (sortedEntries (snapshotOf arguments parameters context)) snapshotFields = true :=
    hasExactly_sortedEntries distinct fun _ => Iff.rfl
  have transformFields : hasExactly (sortedEntries ([("name", .str arguments.transform),
      ("version", .str arguments.transformVersion)] : List (String × PyValue φ))) ["name", "version"] = true :=
    hasExactly_sortedEntries transformDistinct fun _ => Iff.rfl
  have format := stored (.head _)
  have version := stored (.tail _ (.head _))
  have parents := stored (.tail _ (.tail _ (.head _)))
  have inputs := stored (.tail _ (.tail _ (.tail _ (.head _))))
  have transform := stored (.tail _ (.tail _ (.tail _ (.tail _ (.head _)))))
  have parameterDict := stored (.tail _ (.tail _ (.tail _ (.tail _ (.tail _ (.head _))))))
  have schema := stored (.tail _ (.tail _ (.tail _ (.tail _ (.tail _ (.tail _ (.head _)))))))
  have ordering := stored (.tail _ (.tail _ (.tail _ (.tail _ (.tail _ (.tail _ (.tail _ (.head _))))))))
  have contextDict := stored (.tail _ (.tail _ (.tail _ (.tail _ (.tail _ (.tail _ (.tail _ (.tail _ (.head _)))))))))
  have name := item_sortedEntries transformDistinct (.head _)
  have transformVersion := item_sortedEntries transformDistinct (.tail _ (.head _))
  have entries : ∀ message, asDict message (sortedDict (snapshotOf arguments parameters context)) =
      .ok (sortedEntries (snapshotOf arguments parameters context)) := fun _ => rfl
  have transformEntries : ∀ message, asDict message (sortedDict ([("name", .str arguments.transform),
      ("version", .str arguments.transformVersion)] : List (String × PyValue φ))) =
        .ok (sortedEntries _) := fun _ => rfl
  have mapping : ∀ message (fields : List (String × PyValue φ)), asDict message (dict fields) =
      .ok (fields.map fun field => (.str field.1, field.2)) := fun _ _ => rfl
  have list : ∀ message (items : List (PyValue φ)), asList message (.sequence .list items) = .ok items :=
    fun _ _ => rfl
  have text : ∀ message text, asStr message (.str text : PyValue φ) = .ok text := fun _ _ => rfl
  have isCurrent : isVersion (.str identityFormat : PyValue φ) (.int identityVersion) = true := rfl
  have passed : ∀ message, refuse false message = .ok () := fun _ => rfl
  have okBind : ∀ {α β : Type} (a : α) (f : α → Except Exn β), (Except.ok a >>= f) = f a := fun _ _ => rfl
  simp only [argumentsOf, entries, okBind, fields, Bool.not_true, passed, format, version, isCurrent, transform,
    transformEntries, transformFields, parents, inputs, strings, list, allStr_strings, texts, mapping, schema,
    ordering, parameterDict, contextDict, columnsOf_sortedDict, name, transformVersion, text, inputItems_texts]
  rfl

end Gambit.FactorIdentity
