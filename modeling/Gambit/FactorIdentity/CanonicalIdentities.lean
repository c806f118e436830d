import Gambit.FactorIdentity.Snapshots

/-!
# Factor identities are canonical

Snapshot and key say the same about an identity: its contract, whatever order
its mappings were built in, as they were when it was constructed.
-/

set_option autoImplicit false

namespace Gambit.FactorIdentity

open PythonJson Raising

variable {φ : Type} {floats : FloatFormat φ}

/-- The same contract: a difference in anything else is one of insertion order, or of types that
canonicalise alike. -/
structure SameContract (arguments others : Arguments φ) : Prop where
  transform : arguments.transform = others.transform
  transformVersion : arguments.transformVersion = others.transformVersion
  outputSchema : arguments.outputSchema = others.outputSchema
  rowOrdering : arguments.rowOrdering = others.rowOrdering
  parents : arguments.parents = others.parents
  inputs : arguments.inputFingerprints.items.Perm others.inputFingerprints.items
  parameters : canonicalize (.mapping true arguments.parameters) "parameters" =
    canonicalize (.mapping true others.parameters) "parameters"
  researchContext : canonicalize (.mapping true arguments.researchContext) "research_context" =
    canonicalize (.mapping true others.researchContext) "research_context"

theorem sortedInputs_eq_iff {inputs others : OrderedDict String String} :
    sortedInputs inputs = sortedInputs others ↔ inputs.items.Perm others.items := by
  constructor
  · intro same
    exact (sortedInputs_perm inputs).symm.trans (same ▸ sortedInputs_perm others)
  · intro same
    exact congrArg SortedDict.items (SortedDict.ofList_perm same inputs.distinct)

/-- The same contract is accepted again, with the same payload. -/
theorem create_sameContract {arguments others : Arguments φ} {identity : FactorNodeIdentity φ}
    (same : SameContract arguments others) (run : create floats arguments = .ok identity) :
    create floats others = .ok ⟨others, identity.canonicalPayload⟩ := by
  obtain ⟨parameters, context, built⟩ := create_ok run
  have replaced : others = arguments.withMappings others.inputFingerprints others.parameters
      others.researchContext := by
    rw [Arguments.withMappings, same.transform, same.transformVersion, same.outputSchema, same.rowOrdering,
      same.parents]
  have snapshot : snapshotOf others parameters context = snapshotOf arguments parameters context := by
    rw [snapshotOf, snapshotOf, same.transform, same.transformVersion, same.outputSchema, same.rowOrdering,
      same.parents, sortedInputs_eq_iff.mpr same.inputs]
  have accepted : others.check = .ok () := by
    rw [replaced]
    exact check_withMappings _ _ same.inputs.symm built.accepted
  exact create_of_built {
    accepted := accepted
    canonicalParameters := same.parameters ▸ built.canonicalParameters
    canonicalContext := same.researchContext ▸ built.canonicalContext
    fields := rfl
    printed := by rw [snapshot, built.printed] }

/-- What a snapshot gives back is the same contract. -/
theorem restored_sameContract {arguments : Arguments φ} {parameters context : List (String × PyValue φ)}
    {identity : FactorNodeIdentity φ} (built : Built floats arguments parameters context identity) :
    SameContract arguments (arguments.restored parameters context) where
  transform := rfl
  transformVersion := rfl
  outputSchema := rfl
  rowOrdering := rfl
  parents := rfl
  inputs := by
    have items : (OrderedDict.ofList (sortedInputs arguments.inputFingerprints)).items =
        sortedInputs arguments.inputFingerprints :=
      OrderedDict.items_ofList (List.pairwise_map.mpr ((SortedDict.ofList _).sorted.imp fun less => less.ne))
    change arguments.inputFingerprints.items.Perm (OrderedDict.ofList _).items
    rw [items]
    exact (sortedInputs_perm _).symm
  parameters := by
    rw [built.canonicalParameters]
    exact (canonicalize_idempotent built.canonicalParameters _).symm
  researchContext := by
    rw [built.canonicalContext]
    exact (canonicalize_idempotent built.canonicalContext _).symm

/-- Equal snapshots stand for one contract. -/
theorem sameContract_of_snapshot {arguments others : Arguments φ}
    {parameters context parameters' context' : List (String × PyValue φ)}
    {identity other : FactorNodeIdentity φ} (built : Built floats arguments parameters context identity)
    (built' : Built floats others parameters' context' other)
    (same : identity.snapshot floats = other.snapshot floats) : SameContract arguments others := by
  rw [built.snapshot, built'.snapshot, Option.some.injEq] at same
  have restored := argumentsOf_snapshot arguments parameters context
  rw [same, argumentsOf_snapshot, Except.ok.injEq] at restored
  have left := restored_sameContract built
  have right := restored_sameContract built'
  rw [restored] at right
  exact {
    transform := left.transform.trans right.transform.symm
    transformVersion := left.transformVersion.trans right.transformVersion.symm
    outputSchema := left.outputSchema.trans right.outputSchema.symm
    rowOrdering := left.rowOrdering.trans right.rowOrdering.symm
    parents := left.parents.trans right.parents.symm
    inputs := left.inputs.trans right.inputs.symm
    parameters := left.parameters.trans right.parameters.symm
    researchContext := left.researchContext.trans right.researchContext.symm }

/-- The same arguments, with every mapping in them built in some other order. -/
structure OtherOrder (arguments others : Arguments φ) : Prop where
  transform : arguments.transform = others.transform
  transformVersion : arguments.transformVersion = others.transformVersion
  outputSchema : arguments.outputSchema = others.outputSchema
  rowOrdering : arguments.rowOrdering = others.rowOrdering
  parents : arguments.parents = others.parents
  inputs : arguments.inputFingerprints.items.Perm others.inputFingerprints.items
  parameters : Reordered (.mapping true arguments.parameters) (.mapping true others.parameters)
  researchContext : Reordered (.mapping true arguments.researchContext) (.mapping true others.researchContext)

theorem OtherOrder.sameContract {arguments others : Arguments φ} (reordered : OtherOrder arguments others) :
    SameContract arguments others where
  transform := reordered.transform
  transformVersion := reordered.transformVersion
  outputSchema := reordered.outputSchema
  rowOrdering := reordered.rowOrdering
  parents := reordered.parents
  inputs := reordered.inputs
  parameters := canonicalize_reordered reordered.parameters _
  researchContext := canonicalize_reordered reordered.researchContext _

/-- The caller's structures, changed in place, as the identity's fields show them from then on. -/
def FactorNodeIdentity.mutated (identity : FactorNodeIdentity φ) (inputs : OrderedDict String String)
    (parameters context : List (Key × PyValue φ)) : FactorNodeIdentity φ :=
  { identity with fields := identity.fields.withMappings inputs parameters context }

/-- Factor identities are canonical, with a digest that tells payloads apart. -/
theorem factorIdentities_canonical (floats : FloatFormat φ) (hexdigest : List Char → String)
    (tellsApart : Function.Injective hexdigest) :
    (∀ arguments identity, create floats arguments = .ok identity →
      ∃ snapshot restored, identity.snapshot floats = some snapshot ∧ IsCanonical snapshot ∧
        fromSnapshot floats snapshot = .ok restored ∧
        restored.nodeKey hexdigest = identity.nodeKey hexdigest ∧
        restored.snapshot floats = some snapshot) ∧
    (∀ arguments others identity, create floats arguments = .ok identity → OtherOrder arguments others →
      ∃ other, create floats others = .ok other ∧ other.nodeKey hexdigest = identity.nodeKey hexdigest ∧
        other.snapshot floats = identity.snapshot floats) ∧
    (∀ (identity : FactorNodeIdentity φ) inputs parameters context,
      (identity.mutated inputs parameters context).nodeKey hexdigest = identity.nodeKey hexdigest ∧
      (identity.mutated inputs parameters context).snapshot floats = identity.snapshot floats) ∧
    (∀ arguments others identity other, create floats arguments = .ok identity →
      create floats others = .ok other →
      (identity.nodeKey hexdigest = other.nodeKey hexdigest ↔
        identity.snapshot floats = other.snapshot floats) ∧
      (identity.nodeKey hexdigest = other.nodeKey hexdigest ↔ SameContract arguments others)) ∧
    (∀ (value : PyValue φ) path result, canonicalize value path = .ok result →
      ∀ again, canonicalize result again = .ok result) := by
  refine ⟨?_, ?_, ?_, ?_, ?_⟩
  · intro arguments identity run
    obtain ⟨parameters, context, built⟩ := create_ok run
    have again := create_sameContract (restored_sameContract built) run
    refine ⟨_, ⟨arguments.restored parameters context, identity.canonicalPayload⟩, built.snapshot,
      built.isCanonical, ?_, rfl, built.snapshot⟩
    rw [fromSnapshot, argumentsOf_snapshot]
    exact again
  · intro arguments others identity run reordered
    exact ⟨_, create_sameContract reordered.sameContract run, rfl, rfl⟩
  · intro identity inputs parameters context
    exact ⟨rfl, rfl⟩
  · intro arguments others identity other run runOther
    obtain ⟨parameters, context, built⟩ := create_ok run
    obtain ⟨parameters', context', built'⟩ := create_ok runOther
    have samePayload : identity.nodeKey hexdigest = other.nodeKey hexdigest →
        identity.snapshot floats = other.snapshot floats := by
      intro same
      rw [FactorNodeIdentity.snapshot, tellsApart same, FactorNodeIdentity.snapshot]
    have sameKey : SameContract arguments others →
        identity.nodeKey hexdigest = other.nodeKey hexdigest := by
      intro same
      have again := create_sameContract same run
      rw [runOther, Except.ok.injEq] at again
      rw [again]
      rfl
    exact ⟨⟨samePayload, fun same => sameKey (sameContract_of_snapshot built built' same)⟩,
      fun same => sameContract_of_snapshot built built' (samePayload same), sameKey⟩
  · intro value path result run again
    exact canonicalize_idempotent run again

/-! ## One identity -/

/-- The whole floats, as `3.0`. -/
def wholeFloats : FloatFormat Int where
  repr value := ⟨decide (value < 0), Nat.toDigits 10 value.natAbs, some ['0'], none⟩
  read literal :=
    if literal.fraction = some ['0'] ∧ literal.exponent = none then
      let magnitude : Int := Nat.ofDigitChars 10 literal.whole 0
      some (if literal.negative then -magnitude else magnitude)
    else none
  valid value := {
    digits := (intLiteral_valid value).digits
    leading := (intLiteral_valid value).leading
    fraction := by simp [AreDigits]
    exponent := by simp }
  isFloat _ := rfl
  read_repr value := by
    simp only [Nat.ofDigitChars_ten_toDigits, and_self, if_true, decide_eq_true_eq, Option.some.injEq]
    split <;> omega

def zscore (parameters : List (Key × PyValue Int)) : Arguments Int where
  transform := "research.signals.zscore"
  transformVersion := "2.1.0"
  outputSchema := [⟨"zscore", "float64", true, by decide, by decide⟩]
  rowOrdering := ["instrument_id", "timestamp_ns"]
  parents := [String.ofList (List.replicate 64 'c')]
  inputFingerprints := ⟨[("prices", String.ofList (List.replicate 64 'a')),
    ("calendar", String.ofList (List.replicate 64 'b'))], by decide⟩
  parameters := parameters
  researchContext := [(.str "calendar", .str "XNYS")]

def window : List (Key × PyValue Int) := [
  (.str "window", .int 20),
  (.str "weights", .sequence .tuple [.float 1, .float (-2)]),
  (.str "limits", .mapping false [(.str "low", .none), (.str "high", .bool true)])]

theorem factorIdentities_canonical_zscore :
    (create wholeFloats (zscore window)).toBool = true ∧
    ∀ identity, create wholeFloats (zscore window) = .ok identity →
      ∃ snapshot restored, identity.snapshot wholeFloats = some snapshot ∧ IsCanonical snapshot ∧
        fromSnapshot wholeFloats snapshot = .ok restored ∧
        restored.nodeKey String.ofList = identity.nodeKey String.ofList ∧
        restored.snapshot wholeFloats = some snapshot :=
  ⟨by decide +kernel, fun identity =>
    (factorIdentities_canonical wholeFloats String.ofList fun _ _ same => String.ofList_injective same).1
      (zscore window) identity⟩

end Gambit.FactorIdentity
