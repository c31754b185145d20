import Conveyor.Proofs.Bindings
import Conveyor.Proofs.Number.Range
import Conveyor.Proofs.Value

/-!
# The schema of documents

What a decoded value has to look like to stand for a document. The schema says nothing about the
order of the checks or about messages; every part of it can be decided.

- `Value.AsText`, `Value.AsList`, `Value.AsMapping`, `Value.IsScalar`: the kinds of values.
- `Value.entries`, `Value.items`, `Value.bindings`: what values of these kinds hold.
- `Schema.Variables`, `Schema.Texts`, `Schema.Trigger`, `Schema.Step`, `Schema.Job`: the parts of
  a document.
- `Schema.Document`: **the whole document**.
- `Value.Writable`: a value without integers that are too long to be written out.
-/

namespace Conveyor

namespace Value

/-! ## Kinds of values -/

/-- Nothing at all. -/
def IsNull : Value → Prop
  | .null => True
  | _ => False

/-- A text of which `P` holds. -/
def AsText (P : Text → Prop) : Value → Prop
  | .text s => P s
  | _ => False

/-- A list of whose items `P` holds. -/
def AsList (P : List Value → Prop) : Value → Prop
  | .list items => P items
  | _ => False

/-- A mapping of whose entries `P` holds. -/
def AsMapping (P : List Entry → Prop) : Value → Prop
  | .map entries => P entries
  | _ => False

/-- Neither nothing nor a list nor a mapping. -/
def IsScalar : Value → Prop
  | .null => False
  | .list _ => False
  | .map _ => False
  | .again _ _ => False
  | _ => True

/-- A number of minutes: not zero or less, as far as that is known, and in the range of the
format. -/
def IsTimeLimit : Value → Prop
  | .int i => 0 < i ∧ i.natAbs < Binary64.outOfRange
  | .float x => x.isNonPositive = false
  | _ => False

instance : DecidablePred IsNull
  | .null => .isTrue trivial
  | .bool _ | .int _ | .float _ | .text _ | .list _ | .map _ | .date _ | .stamp _ | .bytes _
  | .set _
  | .pair _ _ | .again _ _ => .isFalse id

instance {P : Text → Prop} [DecidablePred P] : DecidablePred (AsText P)
  | .text s => inferInstanceAs (Decidable (P s))
  | .null | .bool _ | .int _ | .float _ | .list _ | .map _ | .date _ | .stamp _ | .bytes _
  | .set _
  | .pair _ _ | .again _ _ => .isFalse id

instance {P : List Value → Prop} [DecidablePred P] : DecidablePred (AsList P)
  | .list items => inferInstanceAs (Decidable (P items))
  | .null | .bool _ | .int _ | .float _ | .text _ | .map _ | .date _ | .stamp _ | .bytes _
  | .set _
  | .pair _ _ | .again _ _ => .isFalse id

instance {P : List Entry → Prop} [DecidablePred P] : DecidablePred (AsMapping P)
  | .map entries => inferInstanceAs (Decidable (P entries))
  | .null | .bool _ | .int _ | .float _ | .text _ | .list _ | .date _ | .stamp _ | .bytes _
  | .set _
  | .pair _ _ | .again _ _ => .isFalse id

instance : DecidablePred IsScalar
  | .null | .list _ | .map _ | .again _ _ => .isFalse id
  | .bool _ | .int _ | .float _ | .text _ | .date _ | .stamp _ | .bytes _ | .set _ | .pair _ _ =>
    .isTrue trivial

instance : DecidablePred IsTimeLimit
  | .int i => inferInstanceAs (Decidable (0 < i ∧ i.natAbs < Binary64.outOfRange))
  | .float x => inferInstanceAs (Decidable (x.isNonPositive = false))
  | .null | .bool _ | .text _ | .list _ | .map _ | .date _ | .stamp _ | .bytes _ | .set _
  | .pair _ _
  | .again _ _ => .isFalse id

/-! ## What values hold -/

/-- The entries of a mapping. -/
def entries : Value → List Entry
  | .map entries => entries
  | _ => []

/-- The items of a list. -/
def items : Value → List Value
  | .list items => items
  | _ => []

/-- The text of a scalar as the text of a variable. -/
def scalarText : Value → Text
  | .bool b => if b then "true" else "false"
  | v => v.plainText

/-- The variables of a mapping. Of keys with the same text the last one counts. -/
def bindings (v : Value) : Bindings :=
  Bindings.ofPairs (v.entries.map fun e => (e.1.plainText, e.2.scalarText))

end Value

/-! ## Documents -/

namespace Schema

variable (ks : Knots)

/-- Variables are a mapping to scalars, or left out. -/
def Variables (v : Value) : Prop :=
  (ks.follow v).IsNull ∨ (ks.follow v).AsMapping fun es => ∀ e ∈ es, e.2.IsScalar

/-- A list of nothing but texts, or left out. -/
def Texts (v : Value) : Prop :=
  (ks.follow v).IsNull ∨ (ks.follow v).AsList fun xs => ∀ x ∈ xs, x.AsText fun _ => True

/-- A trigger names at least one branch. -/
def Trigger (v : Value) : Prop :=
  (ks.follow v).AsMapping fun es =>
    ((ks.follow (Value.getD es "branches")).AsList fun xs =>
      xs.isEmpty = false ∧ ∀ x ∈ xs, x.AsText fun _ => True) ∧
    Texts ks (Value.getD es "exclude_paths") ∧
    ∀ policy ∈ Value.lookup "path_policy" es,
      policy.AsText fun s => s = "shallow" ∨ s = "recursive"

/-- Not all of a text is blank. -/
def Visible (s : Text) : Prop := ∃ c ∈ s.toList, Text.isBlank c = false

-- Only the characters of the text are looked at, not all that there are.
instance : DecidablePred Visible := fun s => List.decidableBEx (Text.isBlank · = false) s.toList

/-- A step has a script that is not blank, and is additive only in what it sets. -/
def Step (v : Value) : Prop :=
  (ks.follow v).AsMapping fun es =>
    (Value.getD es "script").AsText Visible ∧
    ((Value.getD es "display_name").IsNull ∨ (Value.getD es "display_name").AsText (· ≠ "")) ∧
    Variables ks (Value.getD es "env") ∧
    Texts ks (Value.getD es "additive") ∧
    ∀ x ∈ (ks.follow (Value.getD es "additive")).items,
      x.AsText (· ∈ (ks.follow (Value.getD es "env")).entries.map fun e => e.1.plainText)

/-- A matrix is a mapping to variables, or left out. Its keys may be anything. -/
def Matrix (v : Value) : Prop :=
  (ks.follow v).IsNull ∨ (ks.follow v).AsMapping fun es => ∀ e ∈ es, Variables ks e.2

/-- A job has a name and at least one step. -/
def Job (v : Value) : Prop :=
  (ks.follow v).AsMapping fun es =>
    (Value.getD es "name").AsText (· ≠ "") ∧
    (∀ limit ∈ Value.lookup "timeout_minutes" es, limit.IsTimeLimit) ∧
    ((Value.getD es "container_image").IsNull ∨
      (Value.getD es "container_image").AsText fun _ => True) ∧
    Matrix ks (Value.getD es "matrix") ∧
    ((ks.follow (Value.getD es "steps")).AsList fun xs =>
      xs.isEmpty = false ∧ ∀ x ∈ xs, Step ks x) ∧
    Variables ks (Value.getD es "variables")

/-- The name of a job, if it has one. -/
def nameOf (v : Value) : Option Text :=
  match Value.getD (ks.follow v).entries "name" with
  | .text s => some s
  | _ => none

/-- A document has a trigger and at least one job, and no two jobs have the same name. -/
def Document (v : Value) : Prop :=
  (ks.follow v).AsMapping fun es =>
    ((ks.follow (Value.getD es "jobs")).AsList fun xs =>
      xs.isEmpty = false ∧ (∀ x ∈ xs, Job ks x) ∧ (xs.map (nameOf ks)).Nodup) ∧
    Trigger ks (Value.getD es "trigger") ∧
    Variables ks (Value.getD es "variables")

instance (v : Value) : Decidable (Variables ks v) := inferInstanceAs (Decidable (_ ∨ _))

instance (v : Value) : Decidable (Texts ks v) := inferInstanceAs (Decidable (_ ∨ _))

instance (v : Value) : Decidable (Trigger ks v) :=
  inferInstanceAs (Decidable (Value.AsMapping _ _))

instance (v : Value) : Decidable (Step ks v) := inferInstanceAs (Decidable (Value.AsMapping _ _))

instance (v : Value) : Decidable (Matrix ks v) := inferInstanceAs (Decidable (_ ∨ _))

instance (v : Value) : Decidable (Job ks v) := inferInstanceAs (Decidable (Value.AsMapping _ _))

instance (v : Value) : Decidable (Document ks v) :=
  inferInstanceAs (Decidable (Value.AsMapping _ _))

end Schema

/-! ## Integers that can be written out -/

/-- Collections without integers that are too long to be written out. -/
def Knots.Writable (ks : Knots) : Prop := ∀ k ∈ ks, k.2.Writable

end Conveyor
