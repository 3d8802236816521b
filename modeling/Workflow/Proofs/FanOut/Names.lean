import Workflow.Proofs.FanOut.Keys
import Workflow.Run

/-!
# The names of different fan-outs

The names of a fan-out are its topic and its execution id with underscores between them and a word
behind. A topic may be any text, so that names do not fall apart into their parts on their own. They
do if the execution ids are separable: if they are the same, or if they have no underscores.

* **Ids** (`underscore_notMem_timeOrderedId`): the ids of runs that are started are such texts.
* **Names** (`Metadata.fanOutKey_injective`, `FanOutKeys.make_injective`): the parts of names.
* **Places** (`FanOutKeys.IsPlace`, `Run.Apart`): the places of a fan-out to any number of branches,
  and fan-outs that have none in common (`Run.Apart.not_isPlace`).
-/

namespace Workflow

/-! ## Ids -/

/-- Hexadecimal digits have no underscores. -/
theorem underscore_notMem_hexDigits (count n : Nat) : '_' ∉ hexDigits count n := by
  induction count generalizing n with
  | zero => exact List.not_mem_nil
  | succ count ih =>
    have hdigit : ∀ k < 16, Nat.digitChar k ≠ '_' := by decide
    rw [hexDigits, List.mem_append, not_or]
    refine ⟨ih _, fun h => ?_⟩
    exact hdigit (n % 16) (Nat.mod_lt n (by decide)) (List.mem_singleton.mp h).symm

/-- The id of a run that is started has no underscores. -/
theorem underscore_notMem_timeOrderedId (millis random : Nat) :
    '_' ∉ (timeOrderedId millis random).toList := by
  have hhex := underscore_notMem_hexDigits
  have htake : '_' ∉ (hexDigits 12 millis).take 8 :=
    fun h => hhex 12 millis (List.mem_of_mem_take h)
  have hdrop : '_' ∉ (hexDigits 12 millis).drop 8 :=
    fun h => hhex 12 millis (List.mem_of_mem_drop h)
  simp [timeOrderedId, hhex, htake, hdrop]

/-! ## Names -/

/-- The name of the record of a fan-out tells the state and the execution. -/
theorem Metadata.fanOutKey_injective {state other id otherId : String}
    (h : Text.Separable id otherId) (heq : fanOutKey state id = fanOutKey other otherId) :
    state = other ∧ id = otherId :=
  h.append_injective (Text.append_right_cancel heq)

namespace FanOutKeys

/-- The names of a fan-out tell its topic and its execution. -/
theorem make_injective {topic other id otherId : String} (h : Text.Separable id otherId)
    (heq : make topic id = make other otherId) : topic = other ∧ id = otherId :=
  h.append_injective (congrArg stem heq)

/-! ## Places -/

/-- Whether a place is one of a fan-out, to however many branches. -/
def IsPlace (keys : FanOutKeys) : Place → Prop
  | .value key => key = keys.metadata ∨ ∃ branch, key = keys.branchOutput branch
  | .set key => key = keys.outputSet
  | .counter name => name = keys.counter
  | .trigger key => key = keys.trigger

/-- The metadata stand at a place of the fan-out. -/
theorem isPlace_metadata (keys : FanOutKeys) : keys.IsPlace (.value keys.metadata) := .inl rfl

variable {keys other : FanOutKeys}

/-- Names that end in the same word have the same stem. -/
theorem eq_of_stem_append {word : String} (h : keys.stem ++ word = other.stem ++ word) :
    keys = other :=
  congrArg mk (Text.append_right_cancel h)

/-- The output of a branch tells the fan-out, and the branch. -/
theorem eq_of_branchOutput_eq {m n : Nat} (h : keys.branchOutput m = other.branchOutput n) :
    keys = other := by
  have hdigits : Text.Separable (Text.natText m) (Text.natText n) :=
    .inr ⟨Text.underscore_notMem_natText m, Text.underscore_notMem_natText n⟩
  rw [branchOutput_eq, branchOutput_eq] at h
  exact eq_of_stem_append (hdigits.append_injective h).1

/-- Different fan-outs have no places in common. -/
theorem eq_of_isPlace {place : Place} (h : keys.IsPlace place) (h' : other.IsPlace place) :
    keys = other := by
  cases place with
  | value key =>
    rcases h with rfl | ⟨branch, rfl⟩ <;> rcases h' with heq | ⟨branch', heq⟩
    · exact eq_of_stem_append heq
    · exact absurd heq.symm (branchOutput_ne_metadata other keys branch')
    · exact absurd heq (branchOutput_ne_metadata keys other branch)
    · exact eq_of_branchOutput_eq heq
  | set key => exact eq_of_stem_append (h.symm.trans h')
  | counter name => exact eq_of_stem_append (h.symm.trans h')
  | trigger key =>
    have heq : keys.stem ++ "_counter" ++ "_metadata" = other.stem ++ "_counter" ++ "_metadata" :=
      h.symm.trans h'
    rw [String.append_assoc, String.append_assoc] at heq
    exact eq_of_stem_append heq

end FanOutKeys

/-- The runs of two fan-outs that do not know each other: they differ in the topic or in the
execution, and their execution ids are not to be confused. -/
def Run.Apart (r s : Run) : Prop :=
  (r.topic, r.executionId) ≠ (s.topic, s.executionId) ∧
    Text.Separable r.executionId s.executionId

/-- The fan-outs of runs that are apart have no places in common. -/
theorem Run.Apart.not_isPlace {r s : Run} (h : r.Apart s) {place : Place}
    (hplace : r.keys.IsPlace place) : ¬s.keys.IsPlace place := by
  intro hother
  obtain ⟨htopic, hid⟩ :=
    FanOutKeys.make_injective h.2 (FanOutKeys.eq_of_isPlace hplace hother)
  exact h.1 (by rw [htopic, hid])

end Workflow
