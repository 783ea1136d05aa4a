import JsonQuery.Document.Basic
import JsonQuery.Proofs.Outcome

/-!
Going through a source and decoding it are the same but for what is built. Whatever two builders
make of the parts, if what one makes is an image of what the other makes, then so are the values
that are read with them, and they refuse the same texts for the same reasons.
-/

namespace JsonQuery.Json

variable {α β : Type} {image : α → β}

/-- What the second reader reads is the image of what the first one reads. -/
def Mapped (image : α → β) (first : Reader α) (second : Reader β) : Prop :=
  ∀ text, second text = (first text).map (Prod.map image id)

namespace Mapped

variable {first : Reader α} {second : Reader β} (mapped : Mapped image first second) (close : Char)

include mapped

theorem items (budget : Nat) :
    Mapped (List.map image) (readItems first close budget) (readItems second close budget) := by
  induction budget with
  | zero => exact fun _ => rfl
  | succ budget induction =>
      intro text
      rw [readItems, readItems, mapped]
      cases first (Text.skipBlanks text) with
      | error defect => rfl
      | ok read =>
          simp only [Except.map, Prod.map, ok_bind, id_eq]
          cases Text.skipBlanks read.2 with
          | nil => rfl
          | cons mark rest =>
              dsimp only
              split
              next =>
                rw [induction]
                cases readItems first close budget rest <;> rfl
              next => split <;> rfl

theorem container :
    Mapped (List.map image) (readContainer first close) (readContainer second close) := by
  intro text
  rw [readContainer, readContainer]
  cases Text.skipBlanks text with
  | nil => rfl
  | cons mark rest =>
      dsimp only
      split
      next => rfl
      next => exact mapped.items close _ _

theorem member :
    Mapped (Prod.map id image) (readMember first) (readMember second) := by
  intro text
  cases text with
  | nil => rfl
  | cons quote text =>
      rw [readMember, readMember]
      split
      next =>
        cases readString text with
        | error defect => rfl
        | ok read =>
            simp only [ok_bind]
            cases Text.skipBlanks read.2 with
            | nil => rfl
            | cons colon rest =>
                dsimp only
                split
                next =>
                  rw [mapped]
                  cases first (Text.skipBlanks rest) <;> rfl
                next => rfl
      next => rfl

end Mapped

theorem mapped_readWord (word : List Char) (value : α) :
    Mapped image (readWord word value) (readWord word (image value)) := by
  intro text
  unfold readWord
  split
  next => rfl
  next => cases text <;> rfl

/-- What the second builder makes is the image of what the first one makes. -/
structure Builder.Mapped (image : α → β) (first : Builder α) (second : Builder β) : Prop where
  null : second.null = image first.null
  bool (value : Bool) : second.bool value = image (first.bool value)
  number (value : Number) : second.number value = image (first.number value)
  string (text : String) : second.string text = image (first.string text)
  array (elements : List α) : second.array (elements.map image) = image (first.array elements)
  object (members : List (String × α)) :
    second.object (members.map (Prod.map id image)) = image (first.object members)

namespace Builder.Mapped

variable {first : Builder α} {second : Builder β} (mapped : Builder.Mapped image first second)

include mapped

theorem readWith_step (levels : Nat)
    (lower : ∀ below, levels = below + 1 →
      Json.Mapped image (readWith first below) (readWith second below)) :
    Json.Mapped image (readWith first levels) (readWith second levels) := by
  intro text
  cases text with
  | nil => cases levels <;> rfl
  | cons mark text =>
      rw [readWith.eq_def, readWith.eq_def first]
      dsimp only
      split
      next =>
        cases levels with
        | zero => rfl
        | succ below =>
            dsimp only
            rw [(lower below rfl).container]
            cases readContainer (readWith first below) ']' text with
            | error defect => rfl
            | ok read => simp [Except.map, mapped.array]
      next =>
      split
      next =>
        cases levels with
        | zero => rfl
        | succ below =>
            dsimp only
            rw [(lower below rfl).member.container]
            cases readContainer (readMember (readWith first below)) '}' text with
            | error defect => rfl
            | ok read => simp [Except.map, mapped.object]
      next =>
      split
      next =>
        rw [funext mapped.string]
        cases readString text <;> rfl
      next =>
      split
      next => rw [mapped.null, mapped_readWord]
      next =>
      split
      next => rw [mapped.bool, mapped_readWord]
      next =>
      split
      next => rw [mapped.bool, mapped_readWord]
      next =>
      split
      next =>
        rw [funext mapped.number]
        cases readNumber (mark :: text) <;> rfl
      next => rfl

theorem readWith : ∀ levels, Json.Mapped image (readWith first levels) (readWith second levels)
  | 0 => mapped.readWith_step 0 nofun
  | levels + 1 => mapped.readWith_step (levels + 1) fun below same => by
      cases same
      exact readWith levels

end Builder.Mapped

theorem Mapped.readAll {first : Reader α} {second : Reader β} (mapped : Mapped image first second)
    (text : List Char) : readAll second text = (readAll first text).map image := by
  rw [Json.readAll, Json.readAll, mapped]
  cases first (Text.skipBlanks text) with
  | error defect => rfl
  | ok read =>
      simp only [Except.map, Prod.map, ok_bind, id_eq]
      split <;> rfl

theorem Builder.mapped_nothing (builder : Builder α) :
    Builder.Mapped (fun _ => ()) builder .nothing where
  null := rfl
  bool _ := rfl
  number _ := rfl
  string _ := rfl
  array _ := rfl
  object _ := rfl

/-- A source passes validation exactly if it is decoded, and fails with the same defect. -/
theorem validate_eq (source : List UInt8) :
    validate source = (decode source).map fun _ => () := by
  rw [validate, decode]
  split
  next text _ => exact ((Builder.mapped_nothing .tree).readWith nestingLimit).readAll text
  next => rfl

end JsonQuery.Json

namespace JsonQuery.Document

variable {source : List UInt8}

theorem parse_of_ok {value : Json} (decoded : Json.decode source = .ok value) :
    parse source = .ok ⟨.raw source, false, false⟩ := by
  rw [parse, Json.validate_eq, decoded]
  rfl

theorem parse_of_error {defect : Json.Defect} (refused : Json.decode source = .error defect) :
    parse source = .error (.invalidInput defect.message) := by
  rw [parse, Json.validate_eq, refused]
  rfl

end JsonQuery.Document
