import Gambit.Lib.JsonTokens

/-!
# What `json.dumps` prints, `json.loads` reads back

`Plain` values are the ones JSON text can stand for: dicts in key order, lists,
and scalars that are finite.  On them the text determines the value.
-/

set_option autoImplicit false

namespace PythonJson

variable {φ : Type} (floats : FloatFormat φ)

/-- A dict built from these pairs. -/
def dict (fields : List (String × PyValue φ)) : PyValue φ :=
  .mapping true (fields.map fun field => (.str field.1, field.2))

/-- A value JSON has a text of, with its dicts in key order and every key `allowed`. -/
inductive Plain (allowed : String → Prop) : PyValue φ → Prop
  | none : Plain allowed .none
  | bool (value : Bool) : Plain allowed (.bool value)
  | int (value : Int) : Plain allowed (.int value)
  | float (value : φ) : Plain allowed (.float value)
  | str (text : String) : Plain allowed (.str text)
  | list {items : List (PyValue φ)} (each : ∀ item ∈ items, Plain allowed item) :
      Plain allowed (.sequence .list items)
  | dict {fields : List (String × PyValue φ)} (sorted : fields.Pairwise fun a b => a.1 < b.1)
      (keys : ∀ field ∈ fields, allowed field.1) (each : ∀ field ∈ fields, Plain allowed field.2) :
      Plain allowed (dict fields)

/-! ## One text -/

/-- What may stand behind a value in a text. -/
def EndsValue (rest : List Char) : Prop := ∀ c ∈ rest.head?, c = ',' ∨ c = ']' ∨ c = '}'

/-- The text is read as the value, whatever follows it. -/
structure Reads (value : PyValue φ) (text : List Char) : Prop where
  first : ∃ c tail, text = c :: tail ∧ isSpace c = false ∧ c ≠ ']' ∧ c ≠ '}'
  scan : ∀ fuel rest, 2 * text.length < fuel → EndsValue rest →
    scanOnce floats fuel (text ++ rest) = some (value, rest)

theorem endsNumber {rest : List Char} (ends : EndsValue rest) : EndsNumber rest := by
  intro c here
  obtain rfl | rfl | rfl := ends c here <;> decide

variable {floats}

theorem Reads.skipSpace {value : PyValue φ} {text : List Char} (reads : Reads floats value text)
    (rest : List Char) : skipSpace (text ++ rest) = text ++ rest := by
  obtain ⟨c, tail, rfl, noSpace, -⟩ := reads.first
  exact List.dropWhile_cons_of_neg (by simp [noSpace])

theorem joined_cons_cons (text next : List Char) (texts : List (List Char)) :
    joined (text :: next :: texts) = text ++ ',' :: joined (next :: texts) := by
  rw [joined]
  simp

/-- Joined texts start as the first of them does. -/
theorem joined_first {c : Char} {tail : List Char} (texts : List (List Char)) :
    ∃ others, joined ((c :: tail) :: texts) = c :: others := by
  cases texts with
  | nil => exact ⟨_, rfl⟩
  | cons next texts => exact ⟨_, by rw [joined_cons_cons, List.cons_append]⟩

theorem skipSpace_joined {c : Char} {tail : List Char} (noSpace : isSpace c = false)
    (texts : List (List Char)) (rest : List Char) :
    skipSpace (joined ((c :: tail) :: texts) ++ rest) = joined ((c :: tail) :: texts) ++ rest := by
  obtain ⟨others, starts⟩ := @joined_first c tail texts
  rw [starts]
  exact List.dropWhile_cons_of_neg (by simp [noSpace])

/-- A scalar whose text is read in one step. -/
theorem Reads.of_step {value : PyValue φ} {c : Char} {tail : List Char} (noSpace : isSpace c = false)
    (noBracket : c ≠ ']') (noBrace : c ≠ '}')
    (scan : ∀ fuel rest, EndsValue rest →
      scanOnce floats (fuel + 1) (c :: tail ++ rest) = some (value, rest)) :
    Reads floats value (c :: tail) where
  first := ⟨c, tail, rfl, noSpace, noBracket, noBrace⟩
  scan := by
    intro fuel rest enough ends
    obtain ⟨fuel, rfl⟩ : ∃ less, fuel = less + 1 := ⟨fuel - 1, by omega⟩
    exact scan fuel rest ends

theorem reads_str (text : String) : Reads floats (.str text) (quoted text) := by
  refine Reads.of_step (by decide) (by decide) (by decide) ?_
  intro fuel rest ends
  rw [List.cons_append, scanOnce, List.append_assoc, List.singleton_append, scanString_quoted]
  simp only [Option.bind_eq_bind, Option.bind_some, String.ofList_toList]

/-- A digit is none of the characters the other values start with. -/
theorem digit_apart {c : Char} (digit : c.isDigit = true) : isSpace c = false ∧ c ≠ '"' ∧ c ≠ '{' ∧
    c ≠ '[' ∧ c ≠ 'n' ∧ c ≠ 't' ∧ c ≠ 'f' ∧ c ≠ 'N' ∧ c ≠ 'I' ∧ c ≠ '-' ∧ c ≠ ']' ∧ c ≠ '}' := by
  have apart : ∀ other : Char, other.isDigit = false → c ≠ other := by
    rintro other noDigit rfl
    exact absurd (digit.symm.trans noDigit) (by decide)
  refine ⟨?_, ?_⟩
  · simp only [isSpace, Bool.or_eq_false_iff, decide_eq_false_iff_not]
    exact ⟨⟨⟨apart _ rfl, apart _ rfl⟩, apart _ rfl⟩, apart _ rfl⟩
  · refine ⟨?_, ?_, ?_, ?_, ?_, ?_, ?_, ?_, ?_, ?_, ?_⟩ <;> exact apart _ rfl

theorem reads_number {literal : NumberLiteral} (valid : literal.Valid) :
    Reads floats (numberValue floats literal) literal.text := by
  obtain ⟨first, others, digit, spelled | spelled⟩ := text_first valid
  · obtain ⟨noSpace, quote, brace, bracket, n, t, f, nan, infinity, minus, close, closing⟩ :=
      digit_apart digit
    have scanned : ∀ rest, EndsValue rest →
        scanNumber (literal.text ++ rest) = some (literal, rest) := fun rest ends =>
      scanNumber_text valid (endsNumber ends)
    rw [spelled] at scanned ⊢
    refine Reads.of_step noSpace close closing ?_
    intro fuel rest ends
    rw [scanOnce.eq_11, scanned rest ends]
    · rfl
    all_goals
      intro tail same
      have here := (List.cons.inj same).1
      contradiction
  · have here := digit_apart digit
    have scanned : ∀ rest, EndsValue rest →
        scanNumber (literal.text ++ rest) = some (literal, rest) := fun rest ends =>
      scanNumber_text valid (endsNumber ends)
    rw [spelled] at scanned ⊢
    refine Reads.of_step (by decide) (by decide) (by decide) ?_
    intro fuel rest ends
    rw [scanOnce.eq_11, scanned rest ends]
    · rfl
    all_goals
      intro tail same
      simp only [List.cons_append, List.cons.injEq] at same
      first
        | exact absurd same.1 (by decide)
        | exact here.2.2.2.2.2.2.2.2.1 same.2.1

/-! ## Lists and dicts -/

/-- The items of a list up to its closing bracket. -/
theorem scanItems_joined {items : List (PyValue φ)} {texts : List (List Char)}
    (each : List.Forall₂ (Reads floats) items texts) (nonempty : texts ≠ []) :
    ∀ fuel rest, 2 * (joined texts).length + 1 < fuel →
      scanItems floats fuel (joined texts ++ ']' :: rest) = some (items, rest) := by
  induction each with
  | nil => exact absurd rfl nonempty
  | @cons item text items texts reads each ih =>
      intro fuel rest enough
      obtain ⟨fuel, rfl⟩ : ∃ less, fuel = less + 1 := ⟨fuel - 1, by omega⟩
      cases each with
      | nil =>
          rw [joined] at enough ⊢
          rw [scanItems, reads.scan fuel _ (by omega) (by rintro c ⟨rfl⟩; simp)]
          rfl
      | @cons second next items texts readsNext each =>
          rw [joined_cons_cons] at enough ⊢
          simp only [List.length_append, List.length_cons] at enough
          have following := ih (by simp) fuel rest (by omega)
          obtain ⟨c, tail, rfl, noSpace, -⟩ := readsNext.first
          have comma : ∀ behind, skipSpace (',' :: behind) = ',' :: behind := fun _ => rfl
          rw [List.append_assoc, scanItems,
            reads.scan fuel _ (by omega) (by rintro c ⟨rfl⟩; simp)]
          simp only [Option.bind_eq_bind, Option.bind_some, List.cons_append, comma,
            skipSpace_joined noSpace, following]

/-- The same for the pairs of a dict. -/
theorem scanFields_joined {fields : List (String × PyValue φ)} {texts : List (String × List Char)}
    (each : List.Forall₂ (fun field text => field.1 = text.1 ∧ Reads floats field.2 text.2) fields texts)
    (nonempty : texts ≠ []) :
    ∀ fuel rest, 2 * (joined (texts.map fieldText)).length + 1 < fuel →
      scanFields floats fuel (joined (texts.map fieldText) ++ '}' :: rest) =
        some (fields.map fun field => (.str field.1, field.2), rest) := by
  induction each with
  | nil => exact absurd rfl nonempty
  | @cons field text fields texts agree each ih =>
      intro fuel rest enough
      obtain ⟨fuel, rfl⟩ : ∃ less, fuel = less + 1 := ⟨fuel - 1, by omega⟩
      obtain ⟨key, value⟩ := field
      obtain ⟨name, text⟩ := text
      obtain ⟨sameKey, reads⟩ := agree
      change key = name at sameKey
      change Reads floats value text at reads
      subst sameKey
      have colon : ∀ behind, skipSpace (':' :: behind) = ':' :: behind := fun _ => rfl
      have shorter : text.length ≤ (fieldText (key, text)).length := by
        simp only [fieldText, List.length_append, List.length_cons]
        omega
      have quoting : ∀ behind, fieldText (key, text) ++ behind =
          '"' :: (key.toList.flatMap escape ++ '"' :: ':' :: (text ++ behind)) := by
        intro behind
        simp [fieldText, quoted]
      cases each with
      | nil =>
          rw [List.map_cons, List.map_nil, joined] at enough ⊢
          have scanned := reads.scan fuel ('}' :: rest) (by omega) (by rintro c ⟨rfl⟩; simp)
          have brace : skipSpace ('}' :: rest) = '}' :: rest := rfl
          rw [quoting, scanFields, scanString_quoted]
          simp only [Option.bind_eq_bind, Option.bind_some, colon, reads.skipSpace, scanned, brace,
            String.ofList_toList, List.map_cons, List.map_nil]
      | @cons second next fields texts agreeNext each =>
          rw [List.map_cons, List.map_cons, joined_cons_cons] at enough ⊢
          simp only [List.length_append, List.length_cons] at enough
          have following := ih (by simp) fuel rest (by rw [List.map_cons]; omega)
          have comma : ∀ behind, skipSpace (',' :: behind) = ',' :: behind := fun _ => rfl
          have unspaced : ∀ behind, skipSpace (joined (fieldText next :: texts.map fieldText) ++ behind) =
              joined (fieldText next :: texts.map fieldText) ++ behind := fun behind =>
            skipSpace_joined (by decide) _ behind
          rw [List.map_cons] at following
          have scanned := reads.scan fuel
            (',' :: (joined (fieldText next :: texts.map fieldText) ++ '}' :: rest)) (by omega)
            (by rintro c ⟨rfl⟩; simp)
          rw [List.append_assoc, List.cons_append, quoting, scanFields, scanString_quoted]
          simp only [Option.bind_eq_bind, Option.bind_some, colon, reads.skipSpace, scanned, comma,
            unspaced, following, List.map_cons, String.ofList_toList]

theorem reads_list {items : List (PyValue φ)} {texts : List (List Char)}
    (each : List.Forall₂ (Reads floats) items texts) :
    Reads floats (.sequence .list items) ('[' :: (joined texts ++ [']'])) where
  first := ⟨'[', _, rfl, by decide, by decide, by decide⟩
  scan := by
    intro fuel rest enough ends
    obtain ⟨fuel, rfl⟩ : ∃ less, fuel = less + 1 := ⟨fuel - 1, by omega⟩
    rw [List.cons_append, List.append_assoc, List.singleton_append]
    cases each with
    | nil => rfl
    | @cons item text items texts reads each =>
        have following := scanItems_joined (.cons reads each) (by simp) fuel rest (by
          simp only [List.length_cons, List.length_append] at enough
          omega)
        obtain ⟨c, tail, rfl, noSpace, noBracket, -⟩ := reads.first
        have unspaced := @skipSpace_joined c tail noSpace texts (']' :: rest)
        obtain ⟨others, starts⟩ := @joined_first c tail texts
        rw [starts, List.cons_append] at following unspaced ⊢
        rw [scanOnce, unspaced]
        split
        · rename_i closes
          exact absurd (List.cons.inj closes).1 noBracket
        · rw [following]
          rfl

/-- Assigning the pairs of a dict gives the dict. -/
theorem assigned_fields {fields : List (String × PyValue φ)} (distinct : (fields.map Prod.fst).Nodup) :
    (OrderedDict.ofList (fields.map fun field => (Key.str field.1, field.2))).items =
      fields.map fun field => (Key.str field.1, field.2) := by
  apply OrderedDict.items_ofList
  have keys : (fields.map fun field => (Key.str field.1, field.2)).map Prod.fst =
      (fields.map Prod.fst).map Key.str := by
    rw [List.map_map, List.map_map]
    rfl
  rw [keys]
  exact distinct.map fun _ _ same => Key.str.inj same

theorem reads_dict {fields : List (String × PyValue φ)} {texts : List (String × List Char)}
    (distinct : (fields.map Prod.fst).Nodup)
    (each : List.Forall₂ (fun field text => field.1 = text.1 ∧ Reads floats field.2 text.2) fields texts) :
    Reads floats (dict fields) ('{' :: (joined (texts.map fieldText) ++ ['}'])) where
  first := ⟨'{', _, rfl, by decide, by decide, by decide⟩
  scan := by
    intro fuel rest enough ends
    obtain ⟨fuel, rfl⟩ : ∃ less, fuel = less + 1 := ⟨fuel - 1, by omega⟩
    rw [List.cons_append, List.append_assoc, List.singleton_append]
    cases each with
    | nil => rfl
    | @cons field text fields texts agree each =>
        have following := scanFields_joined (.cons agree each) (by simp) fuel rest (by
          simp only [List.length_cons, List.length_append] at enough
          omega)
        have unspaced : ∀ behind, skipSpace (joined (fieldText text :: texts.map fieldText) ++ behind) =
            joined (fieldText text :: texts.map fieldText) ++ behind := fun behind =>
          skipSpace_joined (by decide) _ behind
        obtain ⟨others, starts⟩ : ∃ others, joined (fieldText text :: texts.map fieldText) = '"' :: others :=
          joined_first _
        rw [List.map_cons, starts, List.cons_append] at following
        rw [List.map_cons, scanOnce, unspaced, starts, List.cons_append]
        split
        · rename_i closes
          exact absurd (List.cons.inj closes).1 (by decide)
        · rw [following]
          simp only [Option.bind_eq_bind, Option.bind_some, assigned_fields distinct, dict]

/-! ## What is printed -/

theorem dumpsItems_ok {items : List (PyValue φ)}
    (each : ∀ item ∈ items, ∃ text, dumps floats item = some text ∧ Reads floats item text) :
    ∃ texts, dumpsItems floats items = some texts ∧ List.Forall₂ (Reads floats) items texts := by
  induction items with
  | nil => exact ⟨[], rfl, .nil⟩
  | cons item items ih =>
      obtain ⟨text, printed, reads⟩ := each item List.mem_cons_self
      obtain ⟨texts, others, readOthers⟩ := ih fun item member => each item (List.mem_cons_of_mem _ member)
      exact ⟨text :: texts, by simp only [dumpsItems, printed, others, Option.bind_eq_bind,
        Option.bind_some], .cons reads readOthers⟩

theorem dumpsFields_ok {fields : List (String × PyValue φ)}
    (each : ∀ field ∈ fields, ∃ text, dumps floats field.2 = some text ∧ Reads floats field.2 text) :
    ∃ texts, dumpsFields floats (fields.map fun field => (.str field.1, field.2)) = some texts ∧
      List.Forall₂ (fun field text => field.1 = text.1 ∧ Reads floats field.2 text.2) fields texts := by
  induction fields with
  | nil => exact ⟨[], rfl, .nil⟩
  | cons field fields ih =>
      obtain ⟨text, printed, reads⟩ := each field List.mem_cons_self
      obtain ⟨texts, others, readOthers⟩ := ih fun field member =>
        each field (List.mem_cons_of_mem _ member)
      exact ⟨(field.1, text) :: texts, by simp only [List.map_cons, dumpsFields, printed, others,
        Option.bind_eq_bind, Option.bind_some], .cons ⟨rfl, reads⟩ readOthers⟩

/-- Pairs in key order are printed as they are. -/
theorem ofList_sorted {fields : List (String × PyValue φ)} {texts : List (String × List Char)}
    (sorted : fields.Pairwise fun a b => a.1 < b.1)
    (each : List.Forall₂ (fun field text => field.1 = text.1 ∧ Reads floats field.2 text.2) fields texts) :
    (SortedDict.ofList texts).items = texts := by
  have sameKeys : fields.map Prod.fst = texts.map Prod.fst := by
    induction each with
    | nil => rfl
    | cons agree _ ih => rw [List.map_cons, List.map_cons, agree.1, ih (List.pairwise_cons.mp sorted).2]
  have textsSorted : texts.Pairwise fun a b => a.1 < b.1 := by
    have keys : (fields.map Prod.fst).Pairwise (· < ·) := List.pairwise_map.mpr sorted
    rw [sameKeys] at keys
    exact List.pairwise_map.mp keys
  exact congrArg SortedDict.items (SortedDict.ofList_items ⟨texts, textsSorted⟩)

variable (floats)

theorem dumps_plain {allowed : String → Prop} {value : PyValue φ} (plain : Plain allowed value) :
    ∃ text, dumps floats value = some text ∧ Reads floats value text := by
  induction plain with
  | none => exact ⟨_, rfl, .of_step (by decide) (by decide) (by decide) fun _ _ _ => rfl⟩
  | bool value =>
      cases value
      · exact ⟨_, rfl, .of_step (by decide) (by decide) (by decide) fun _ _ _ => rfl⟩
      · exact ⟨_, rfl, .of_step (by decide) (by decide) (by decide) fun _ _ _ => rfl⟩
  | int value =>
      refine ⟨_, rfl, ?_⟩
      rw [← numberValue_int floats value]
      exact reads_number (intLiteral_valid value)
  | float value =>
      refine ⟨_, rfl, ?_⟩
      have reads : Reads floats (numberValue floats (floats.repr value)) (floats.repr value).text :=
        reads_number (floats.valid value)
      rwa [numberValue_float] at reads
  | str text => exact ⟨_, rfl, reads_str text⟩
  | list each ih =>
      obtain ⟨texts, printed, reads⟩ := dumpsItems_ok ih
      refine ⟨_, ?_, reads_list reads⟩
      rw [dumps]
      · rw [printed]
        rfl
      · simp
  | dict sorted _ _ ih =>
      obtain ⟨texts, printed, reads⟩ := dumpsFields_ok ih
      have distinct : (_ : List String).Nodup := List.pairwise_map.mpr (sorted.imp fun less => less.ne)
      refine ⟨_, ?_, reads_dict distinct reads⟩
      rw [dict, dumps, printed]
      simp only [Option.bind_eq_bind, Option.bind_some, if_true, ofList_sorted sorted reads]

theorem loads_dumps {allowed : String → Prop} {value : PyValue φ} (plain : Plain allowed value) :
    ∃ text, dumps floats value = some text ∧ loads floats text = some value := by
  obtain ⟨text, printed, reads⟩ := dumps_plain floats plain
  have unspaced := reads.skipSpace []
  have scanned := reads.scan (2 * text.length + 1) [] (by omega) (by rintro c ⟨⟩)
  rw [List.append_nil] at unspaced scanned
  refine ⟨text, printed, ?_⟩
  rw [loads, unspaced, scanned]
  rfl

/-- The text determines the value. -/
theorem dumps_injective {allowed : String → Prop} {value other : PyValue φ}
    (plain : Plain allowed value) (plainOther : Plain allowed other)
    (same : dumps floats value = dumps floats other) : value = other := by
  obtain ⟨text, printed, read⟩ := loads_dumps floats plain
  obtain ⟨otherText, printedOther, readOther⟩ := loads_dumps floats plainOther
  rw [printed, printedOther, Option.some.injEq] at same
  rw [same, readOther, Option.some.injEq] at read
  exact read.symm

/-! ## Other values with the same text -/

/-- One pair of a dict. -/
def dumpsField : Key × PyValue φ → Option (String × List Char)
  | (.str key, value) => (dumps floats value).map (key, ·)
  | (.other, _) => none

theorem dumpsFields_cons (entry : Key × PyValue φ) (entries : List (Key × PyValue φ)) :
    dumpsFields floats (entry :: entries) =
      (dumpsField floats entry).bind fun field => (dumpsFields floats entries).map (field :: ·) := by
  obtain ⟨key | _, value⟩ := entry
  · rw [dumpsFields, dumpsField]
    cases dumps floats value <;> cases dumpsFields floats entries <;> rfl
  · rfl

theorem rel_cons {fields others : Option (List (String × List Char))} (field : String × List Char)
    (related : Option.Rel List.Perm fields others) :
    Option.Rel List.Perm (fields.map (field :: ·)) (others.map (field :: ·)) := by
  cases related with
  | none => exact .none
  | some perm => exact .some (perm.cons field)

theorem rel_trans {first second third : Option (List (String × List Char))}
    (left : Option.Rel List.Perm first second) (right : Option.Rel List.Perm second third) :
    Option.Rel List.Perm first third := by
  cases left with
  | none =>
      cases right
      exact .none
  | some perm =>
      cases right with
      | some perm' => exact .some (perm.trans perm')

theorem dumpsFields_perm {entries others : List (Key × PyValue φ)} (same : entries.Perm others) :
    Option.Rel List.Perm (dumpsFields floats entries) (dumpsFields floats others) := by
  induction same with
  | nil => exact .some .nil
  | cons entry _ ih =>
      rw [dumpsFields_cons, dumpsFields_cons]
      cases dumpsField floats entry with
      | none => exact .none
      | some field => exact rel_cons field ih
  | swap first second entries =>
      rw [dumpsFields_cons, dumpsFields_cons, dumpsFields_cons, dumpsFields_cons]
      cases dumpsField floats first <;> cases dumpsField floats second <;>
        cases dumpsFields floats entries
      case some.some.some => exact .some (.swap _ _ _)
      all_goals exact .none
  | trans _ _ left right => exact rel_trans left right

theorem dumpsFields_keys {entries : List (Key × PyValue φ)} {fields : List (String × List Char)}
    (printed : dumpsFields floats entries = some fields) :
    entries.map Prod.fst = fields.map fun field => .str field.1 := by
  induction entries generalizing fields with
  | nil =>
      cases printed
      rfl
  | cons entry entries ih =>
      rw [dumpsFields_cons, Option.bind_eq_some_iff] at printed
      obtain ⟨field, first, others⟩ := printed
      obtain ⟨rest, printedRest, rfl⟩ := Option.map_eq_some_iff.mp others
      rw [List.map_cons, List.map_cons, ih printedRest]
      obtain ⟨key | _, value⟩ := entry
      · obtain ⟨text, -, rfl⟩ := Option.map_eq_some_iff.mp first
        rfl
      · cases first

/-- A dict is printed in key order, whatever order it was built in. -/
theorem dumps_reordered {entries others : List (Key × PyValue φ)} (same : entries.Perm others)
    (distinct : (entries.map Prod.fst).Nodup) :
    dumps floats (.mapping true entries) = dumps floats (.mapping true others) := by
  have related := dumpsFields_perm floats same
  rw [dumps, dumps]
  cases printed : dumpsFields floats entries with
  | none =>
      rw [printed] at related
      cases printedOthers : dumpsFields floats others with
      | none => rfl
      | some _ =>
          rw [printedOthers] at related
          cases related
  | some fields =>
      rw [printed] at related
      cases printedOthers : dumpsFields floats others with
      | none =>
          rw [printedOthers] at related
          cases related
      | some fields' =>
          rw [printedOthers] at related
          cases related with
          | some perm =>
              have keys : (fields.map Prod.fst).Nodup := by
                rw [dumpsFields_keys floats printed] at distinct
                exact List.Nodup.of_map (f := Key.str) (by rwa [List.map_map])
              simp only [Option.bind_eq_bind, Option.bind_some, SortedDict.ofList_perm perm keys]

/-- Lists of items that are printed alike are printed alike. -/
theorem dumpsItems_congr {α : Type} (items : List α) {f g : α → PyValue φ}
    (alike : ∀ item ∈ items, dumps floats (f item) = dumps floats (g item)) :
    dumpsItems floats (items.map f) = dumpsItems floats (items.map g) := by
  induction items with
  | nil => rfl
  | cons item items ih =>
      rw [List.map_cons, List.map_cons, dumpsItems, dumpsItems, alike item List.mem_cons_self,
        ih fun item member => alike item (List.mem_cons_of_mem _ member)]

/-- Dicts whose values are printed alike are printed alike. -/
theorem dumps_dict_congr {fields others : List (String × PyValue φ)}
    (alike : List.Forall₂ (fun field other => field.1 = other.1 ∧
      dumps floats field.2 = dumps floats other.2) fields others) :
    dumps floats (dict fields) = dumps floats (dict others) := by
  have printed : dumpsFields floats (fields.map fun field => (Key.str field.1, field.2)) =
      dumpsFields floats (others.map fun field => (Key.str field.1, field.2)) := by
    induction alike with
    | nil => rfl
    | cons agree _ ih => rw [List.map_cons, List.map_cons, dumpsFields, dumpsFields, agree.1, agree.2, ih]
  rw [dict, dict, dumps, dumps, printed]

/-! ## A dict in key order -/

/-- The dict with these pairs, in key order. -/
def sortedDict (fields : List (String × PyValue φ)) : PyValue φ := dict (SortedDict.ofList fields).items

variable {floats} in
theorem dumps_sortedDict {fields : List (String × PyValue φ)} (distinct : (fields.map Prod.fst).Nodup) :
    dumps floats (dict fields) = dumps floats (sortedDict fields) := by
  refine dumps_reordered floats ((SortedDict.perm_ofList distinct).symm.map _) ?_
  rw [List.map_map]
  have keys := distinct.map (f := Key.str) fun _ _ same => Key.str.inj same
  rwa [List.map_map] at keys

theorem plain_sortedDict {allowed : String → Prop} {fields : List (String × PyValue φ)}
    (keys : ∀ field ∈ fields, allowed field.1) (each : ∀ field ∈ fields, Plain allowed field.2) :
    Plain allowed (sortedDict fields) :=
  .dict (SortedDict.ofList fields).sorted (fun field stored => keys field (SortedDict.mem_ofList stored))
    fun field stored => each field (SortedDict.mem_ofList stored)

end PythonJson
