import JsonLisp.Proofs.Json.Sound
import JsonLisp.Proofs.Session.Tables
import JsonLisp.Proofs.Simulation.Evaluation

/-!
# Requests under a simulation

A document that was read is related to itself, and so requests of the same texts have related
outcomes.

## Main statements

* `Simulation.val_ofJson`: documents as values.
* `Simulation.runs_evalText`, `Simulation.runs_evalOne`: program texts.
-/

namespace JsonLisp

open List (Forall₂)

namespace Value

theorem ofJsonItems_eq_map (items : List Json) : ofJsonItems items = items.map ofJson := by
  induction items with
  | nil => rfl
  | cons d rest ih => rw [ofJsonItems, ih, List.map_cons]

theorem ofJsonMembers_eq_map (members : List (Text × Json)) :
    ofJsonMembers members = members.map fun m => (m.1, ofJson m.2) := by
  induction members with
  | nil => rfl
  | cons m rest ih => rw [ofJsonMembers, ih, List.map_cons]

end Value

namespace Simulation

open Value (ofJson)

variable {W : Type} [Preorder W] (S : Simulation W) {w : W}

theorem val_ofJson (w : W) {d : Json} (h : d.Sound) : S.Val w (ofJson d) (ofJson d) := by
  induction h with
  | null => exact S.val_null w
  | bool b => exact S.val_bool w b
  | int n => exact S.val_int w n
  | float hfinite => exact S.val_float w _ hfinite
  | text t => exact S.val_text w t
  | @list items _ ih =>
    rw [ofJson, Value.ofJsonItems_eq_map]
    exact S.val_list (List.forall₂_same.2 (List.forall_mem_map.2 ih))
  | @object members hnodup _ ih =>
    rw [ofJson, Value.ofJsonMembers_eq_map]
    refine S.val_map ?_ (List.forall₂_same.2 (List.forall_mem_map.2 fun m hm => ⟨rfl, ih m hm⟩))
    rwa [List.map_map]

theorem vals_ofJsonItems (w : W) {items : List Json} (h : ∀ d ∈ items, d.Sound) :
    Forall₂ (S.Val w) (Value.ofJsonItems items) (Value.ofJsonItems items) := by
  rw [Value.ofJsonItems_eq_map]
  exact List.forall₂_same.2 (List.forall_mem_map.2 fun d hd => S.val_ofJson w (h d hd))

/-! ### Texts -/

/-- The documents of a text are evaluated before its fault shows. -/
theorem evalText_eq (limits : Limits) (text : Text) :
    Session.evalText limits text = (do
      let value ← evalSequence (evaluate limits) .root (Value.ofJsonItems (Json.decodeAll text).1)
      match (Json.decodeAll text).2 with
      | some fault => throw (.malformed fault)
      | none => return value) := by
  unfold Session.evalText Session.readAll
  generalize Json.decodeAll text = read
  obtain ⟨documents, fault⟩ := read
  cases fault <;> rfl

theorem runs_evalText (limits : Limits) (text : Text) :
    S.Runs w S.Val (Session.evalText limits text) (Session.evalText limits text) := by
  have hforms := S.vals_ofJsonItems w (Json.sound_of_decodeAll text)
  rw [evalText_eq]
  refine runs_bind (runs_evalSequence (S.runs_evaluate limits) (S.env_root w) hforms) ?_
  intro u value value' _ hvalue
  cases (Json.decodeAll text).2 with
  | none => exact runs_pure hvalue
  | some fault => exact runs_foreseen rfl

theorem runs_evalOne (limits : Limits) (text : Text) :
    S.Runs w S.Val (Session.evalOne limits text) (Session.evalOne limits text) := by
  refine runs_bind (R := S.Val) (runs_ofExcept ?_) fun _ hform =>
    S.runs_evaluate limits hform (S.env_root _)
  unfold Session.readOne
  cases hread : Json.decode text with
  | ok document => exact .ok (S.val_ofJson w (Json.sound_of_decode hread))
  | error fault => exact results_foreseen rfl

end Simulation

end JsonLisp
