import Mathlib.Tactic.Common
import Workflow.Proofs.Store

/-!
# The places of a fan-out

All that a fan-out keeps in the store stands at places made of its names. Within one table they do
not meet, so that no step of a fan-out writes over another.

* **Texts behind an underscore** (`Text.Separable`, `Text.Separable.append_injective`): when the
  parts of a name are known from the name.
* **Names** (`FanOutKeys.branchOutput_injective`, `FanOutKeys.branchOutput_ne_metadata`): branches
  leave their outputs under different names, and none of these is that of the metadata.
* **Places** (`FanOutKeys.places`): every place that a fan-out to a number of branches writes to;
  those that the branches themselves write to are `FanOutKeys.branchPlaces`.
-/

namespace Workflow

/-! ## Texts behind an underscore -/

namespace Text

/-- What stands behind the last underscore of a text is known from the text, and so is what stands
before it. -/
theorem append_underscore_injective {a b x y : List Char} (hx : '_' ∉ x) (hy : '_' ∉ y)
    (h : a ++ '_' :: x = b ++ '_' :: y) : a = b ∧ x = y := by
  rcases List.append_eq_append_iff.mp h with ⟨more, rfl, htail⟩ | ⟨more, rfl, htail⟩
  · cases more with
    | nil => exact ⟨(List.append_nil a).symm, (List.cons.inj htail).2⟩
    | cons c rest =>
      obtain ⟨-, rfl⟩ := List.cons.inj htail
      exact absurd (List.mem_append_right _ List.mem_cons_self) hx
  · cases more with
    | nil => exact ⟨List.append_nil b, (List.cons.inj htail).2.symm⟩
    | cons c rest =>
      obtain ⟨-, rfl⟩ := List.cons.inj htail
      exact absurd (List.mem_append_right _ List.mem_cons_self) hy

/-- Texts that are the same with a word behind them are the same without it. -/
theorem append_right_cancel {s t word : String} (h : s ++ word = t ++ word) : s = t := by
  have hlist := congrArg String.toList h
  rw [String.toList_append, String.toList_append] at hlist
  exact String.toList_injective (List.append_cancel_right hlist)

/-- Two texts are told apart behind an underscore: they are the same, or have no underscores. -/
def Separable (s t : String) : Prop := s = t ∨ '_' ∉ s.toList ∧ '_' ∉ t.toList

/-- Texts with separable words behind an underscore are the same only if these words are, and what
stands before them. -/
theorem Separable.append_injective {a b s t : String} (h : Separable s t)
    (heq : a ++ "_" ++ s = b ++ "_" ++ t) : a = b ∧ s = t := by
  rcases h with rfl | ⟨hs, ht⟩
  · exact ⟨append_right_cancel (append_right_cancel heq), rfl⟩
  · have hlist := congrArg String.toList heq
    simp only [String.toList_append, List.append_assoc] at hlist
    obtain ⟨hbefore, hbehind⟩ := append_underscore_injective hs ht hlist
    exact ⟨String.toList_injective hbefore, String.toList_injective hbehind⟩

/-- A number is written in digits. -/
theorem isDigit_of_mem_natText {n : Nat} {c : Char} (h : c ∈ (natText n).toList) :
    c.isDigit = true := by
  rw [natText, String.toList_ofList] at h
  exact Nat.isDigit_of_mem_toDigits (by decide) (by decide) h

/-- A number is written without underscores. -/
theorem underscore_notMem_natText (n : Nat) : '_' ∉ (natText n).toList :=
  fun h => absurd (isDigit_of_mem_natText h) (by decide)

/-- The digits of a number determine it. -/
theorem natText_injective : Function.Injective natText := by
  intro m n h
  have hdigits : Nat.toDigits 10 m = Nat.toDigits 10 n := String.ofList_injective h
  rw [← Nat.ofDigitChars_ten_toDigits (n := m), hdigits, Nat.ofDigitChars_ten_toDigits]

end Text

namespace FanOutKeys

variable (keys : FanOutKeys)

/-! ## Names -/

/-- The number of a branch stands behind the last underscore of the name of its output. -/
theorem branchOutput_eq (branch : Nat) :
    keys.branchOutput branch = (keys.stem ++ "_branch") ++ "_" ++ Text.natText branch := by
  simp [branchOutput, String.append_assoc]

/-- Branches of different numbers leave their outputs under different names. -/
theorem branchOutput_injective : Function.Injective keys.branchOutput := by
  intro m n h
  apply Text.natText_injective
  have hlist := congrArg String.toList h
  simp only [branchOutput, String.toList_append, List.append_cancel_left_eq] at hlist
  exact String.toList_injective hlist

/-- No branch leaves its output where a fan-out, its own or another one, has its metadata. -/
theorem branchOutput_ne_metadata (other : FanOutKeys) (branch : Nat) :
    keys.branchOutput branch ≠ other.metadata := by
  intro h
  have hmetadata : other.metadata = (other.stem ++ "_workflow") ++ "_" ++ "metadata" := by
    simp [metadata, String.append_assoc]
  have hplain : Text.Separable (Text.natText branch) "metadata" :=
    .inr ⟨Text.underscore_notMem_natText branch, by decide⟩
  rw [branchOutput_eq, hmetadata] at h
  have hletter : 'm' ∈ (Text.natText branch).toList := by
    rw [(hplain.append_injective h).2]
    decide
  exact absurd (Text.isDigit_of_mem_natText hletter) (by decide)

/-! ## Places -/

/-- The places of the first branches' outputs. -/
def outputPlaces (n : Nat) : List Place :=
  (List.range n).map fun index => .value (keys.branchOutput (index + 1))

/-- The places that the branches write to: their outputs, the set of these, and the counter. -/
def branchPlaces (n : Nat) : List Place :=
  .counter keys.counter :: .set keys.outputSet :: keys.outputPlaces n

/-- All places of a fan-out. The trigger and the metadata are written before the first branch. -/
def places (n : Nat) : List Place :=
  .trigger keys.trigger :: .value keys.metadata :: keys.branchPlaces n

variable {keys} {n : Nat}

/-- The branches write to the place of the output of each. -/
theorem output_mem_branchPlaces (i : Fin n) :
    Place.value (keys.branchOutput (i + 1)) ∈ keys.branchPlaces n := by
  refine List.mem_cons_of_mem _ (List.mem_cons_of_mem _ ?_)
  exact List.mem_map.mpr ⟨i, List.mem_range.mpr i.isLt, rfl⟩

/-- The branches write to the set of their outputs. -/
theorem outputSet_mem_branchPlaces : Place.set keys.outputSet ∈ keys.branchPlaces n :=
  List.mem_cons_of_mem _ List.mem_cons_self

/-- The metadata stand at a place of the fan-out. -/
theorem metadata_mem_places : Place.value keys.metadata ∈ keys.places n :=
  List.mem_cons_of_mem _ List.mem_cons_self

/-- The places that the branches write to are places of the fan-out. -/
theorem branchPlaces_subset : keys.branchPlaces n ⊆ keys.places n := fun _ h =>
  List.mem_cons_of_mem _ (List.mem_cons_of_mem _ h)

/-- The trigger is not a place that the branches write to. -/
theorem trigger_not_mem_branchPlaces (key : String) :
    Place.trigger key ∉ keys.branchPlaces n := by
  simp [branchPlaces, outputPlaces]

/-- The metadata are not at a place that the branches write to. -/
theorem metadata_not_mem_branchPlaces : Place.value keys.metadata ∉ keys.branchPlaces n := by
  simp [branchPlaces, outputPlaces, branchOutput_ne_metadata]

end FanOutKeys

end Workflow
